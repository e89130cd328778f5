import ParserPackages.Builtin
import ParserPackages.Report.Difference
import ParserPackages.Settings.File

/-! # The command line

Commands work on the built-in registry. A command is read from its arguments, names the files that
it needs, and is then executed on their contents. -/

namespace ParserPackages

inductive Command where
  /-- List the registered packages. -/
  | packages
  /-- Show what one package contributes. -/
  | inspect (name : String)
  /-- Build a parser from a settings file and print its configuration. -/
  | resolve (settings : String) (json : Bool)
  /-- Print the difference between the configurations of two settings files. -/
  | diff (before after : String)
  | version
  | help
  deriving DecidableEq, Repr

namespace Command

/-- What may follow the word of a command. -/
structure Form where
  /-- How many values at most. -/
  values : Nat
  /-- Values may be empty. -/
  empty : Bool := false
  /-- The flag `--json` may be given, once. -/
  json : Bool := false

/-- The arguments of a command, sorted into flags and values. -/
structure Arguments where
  values : List String
  json : Bool
  /-- Help was asked for before anything went wrong. -/
  help : Bool

namespace Arguments

def start : Arguments := ⟨[], false, false⟩

/-- Adds a value, for which the form must have room. -/
def add? (form : Form) (a : Arguments) (value : String) : Option Arguments :=
  if a.values.length < form.values ∧ (form.empty ∨ !value.isEmpty) then
    some { a with values := a.values ++ [value] }
  else none

/-- Sorts arguments from left to right, up to the first that is a mistake or asks for help; nothing
after `--` is a flag. -/
def sort? (form : Form) (a : Arguments) : List String → Option Arguments
  | [] => some a
  | "--" :: rest => rest.foldlM (add? form) a
  | argument :: rest =>
    if argument = "--help" ∨ argument.startsWith "-h" then some { a with help := true }
    else if argument = "--json" ∧ form.json then
      if a.json then none else sort? form { a with json := true } rest
    else if argument.startsWith "-" ∧ argument ≠ "-" then none
    else
      match a.add? form argument with
      | some a => sort? form a rest
      | none => none

end Arguments

def withArguments? (form : Form) (arguments : List String)
    (command? : Arguments → Option Command) : Option Command := do
  let a ← Arguments.start.sort? form arguments
  if a.help then return .help else command? a

def words : List String := ["packages", "show", "resolve", "diff", "help"]

/-- Reads what help is asked for: the program, or one command. -/
def helpTopic? : List String → Option Command
  | [] => some .help
  | [topic] => if words.contains topic then some .help else none
  | _ => none

/-- Reads a command from its arguments. What is no command is a mistake in usage. -/
def ofArguments? : List String → Option Command
  | [] => none
  | first :: rest =>
    if first = "packages" then
      withArguments? { values := 0 } rest fun _ => some .packages
    else if first = "show" then
      withArguments? { values := 1, empty := true } rest fun
        | ⟨[name], _, _⟩ => some (.inspect name)
        | _ => none
    else if first = "resolve" then
      withArguments? { values := 1, json := true } rest fun
        | ⟨[settings], json, _⟩ => some (.resolve settings json)
        | _ => none
    else if first = "diff" then
      withArguments? { values := 2 } rest fun
        | ⟨[before, after], _, _⟩ => some (.diff before after)
        | _ => none
    else if first = "help" then helpTopic? rest
    else if first = "--version" ∨ first.startsWith "-V" then some .version
    else if first = "--help" ∨ first.startsWith "-h" then some .help
    else none

def files : Command → List String
  | resolve settings _ => [settings]
  | diff before after => [before, after]
  | _ => []

abbrev Contents := String → Option ByteArray

/-- The summary of the parser that a settings file describes. -/
def summarize (contents : Contents) (path : String) : Except Fault Summary := do
  let settings ← Settings.ofFile path (contents path)
  let registry ← Builtin.registry
  let (parser, engine) ← (settings.resolve Builtin.library.behaviour registry []).1
  return parser.active.summary.withOptions engine.options

def summaryText (summary : Summary) (json : Bool) : String :=
  if json then summary.toJson.pretty else summary.toText

def execute (contents : Contents) : Command → Except Fault (List Piece)
  | packages => do
    let registry ← Builtin.registry
    return registry.listing.map .line
  | inspect name => do
    let registry ← Builtin.registry
    match registry.lookup? name with
    | some package => return package.report
    | none => throw (.unknownPackage name)
  | resolve settings json => do
    let summary ← summarize contents settings
    return [.line (summaryText summary json)]
  | diff before after => do
    let first ← summarize contents before
    let second ← summarize contents after
    return first.difference second
  | version => return [.line "texpack 0.1.0"]
  | help => return [.line "Usage: texpack <COMMAND>"]

/-- How a run of the program ends. -/
structure Outcome where
  exitCode : Nat
  output : String
  fault? : Option Fault

/-- Runs the program: it ends with 0, with 1 for a fault, or with 2 for a mistake in usage. -/
def run (arguments : List String) (contents : Contents) (colour : Bool) : Outcome :=
  match ofArguments? arguments with
  | none => ⟨2, "", none⟩
  | some command =>
    match command.execute contents with
    | .ok pieces => ⟨0, renderPieces colour pieces, none⟩
    | .error fault => ⟨1, "", some fault⟩

end Command
end ParserPackages
