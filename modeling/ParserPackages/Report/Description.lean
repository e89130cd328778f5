import ParserPackages.Registry
import ParserPackages.Json.Printer

/-! # What is shown of packages

Values that hold callables or payloads are described in diagnostics by what can be shown of them,
with two dots for the rest. What a command prints is text in pieces, with the changes of style
between them: the contributions of one package, one a line, or the table of registered packages.
Without colour the changes of style vanish. -/

namespace ParserPackages

/-! ## Descriptions -/

variable {H F κ : Type}

def braced (type fields : String) : String := type ++ " \x7b " ++ fields ++ " \x7d"

def Processor.description (p : Processor F) : String :=
  match p.priority? with
  | none => "Processor::Plain(..)"
  | some priority => "Processor::Prioritized(.., " ++ toString priority ++ ")"

def ReadyHook.description : ReadyHook H → String
  | configuration _ => "ReadyFn::Configuration(..)"
  | engine _ => "ReadyFn::Engine(..)"

def Ranked.description (hook : Ranked κ) : String :=
  braced "Hook" ("priority: " ++ toString hook.priority ++ ", ..")

def Rule.description (r : Rule) : String := "Rule(" ++ Text.quote r.label ++ ")"

def Chain.description (chain : Chain κ) : String :=
  braced "CallbackChain"
    ("priorities: [" ++ Text.join ", " (chain.priorities.map toString) ++ "]")

def HandlerLists.description (lists : HandlerLists) : String :=
  braced "HandlerLists"
    ("lists: [" ++ Text.join ", " (lists.toList.map fun (_, names) => Text.quoteList names) ++ "]")

/-! ## Pieces of output -/

inductive Style where
  | plain
  | heading
  | added
  | removed
  deriving DecidableEq, Repr

def escapeSequence (parameter : String) : String := "\x1b[" ++ parameter ++ "m"

/-- The control sequences that switch to a style, after a reset. -/
def Style.codes : Style → String
  | plain => escapeSequence "0"
  | heading => escapeSequence "0" ++ escapeSequence "1" ++ escapeSequence "33"
  | added => escapeSequence "0" ++ escapeSequence "32"
  | removed => escapeSequence "0" ++ escapeSequence "31"

inductive Piece where
  | line (text : String)
  | style (style : Style)
  deriving DecidableEq, Repr

def Piece.render (colour : Bool) : Piece → String
  | line text => text ++ "\n"
  | style s => if colour then s.codes else ""

def renderPieces (colour : Bool) (pieces : List Piece) : String :=
  pieces.foldl (fun text piece => text ++ piece.render colour) ""

/-! ## Listings -/

namespace Package

def heading (p : Package H F) : String :=
  p.name ++ " (parser " ++ p.parser ++ ", priority " ++ toString p.priority ++ ")"

def handlerLines (handlers : HandlerLists) : List String :=
  (handlers.toList.filter fun (_, names) => !names.isEmpty).map fun (category, names) =>
    "  handler " ++ category.name ++ ": " ++ Text.join ", " names

def ruleLines (what : String) (rules : RuleMap) : List String :=
  rules.pairs.map fun (key, rule) => "  " ++ what ++ " " ++ key ++ ": " ++ rule.label

/-- A line for every processor of a stage, numbered from `start`. -/
def processorLines (stage : String) (start : Nat) : List (Processor F) → List String
  | [] => []
  | p :: rest =>
    let line := "  " ++ stage ++ " #" ++ toString start
    (match p.priority? with
      | none => line
      | some priority => line ++ ", priority " ++ toString priority) ::
      processorLines stage (start + 1) rest

def contributionLines (p : Package H F) : List String :=
  handlerLines p.handlers ++
    p.fallbacks.toPairs.map (fun (category, rule) =>
      "  fallback " ++ category.name ++ ": " ++ rule.label) ++
    ruleLines "stack item" p.stackItems ++
    ruleLines "tags" p.tags ++
    ruleLines "node" p.nodeFactories ++
    p.options.fields.map (fun (name, value) => "  option " ++ name ++ " = " ++ value.compact) ++
    processorLines "preprocessor" 0 p.preprocessors ++
    processorLines "postprocessor" 0 p.postprocessors ++
    (match p.init? with
      | none => []
      | some hook => ["  init hook, priority " ++ toString hook.priority]) ++
    (match p.ready? with
      | none => []
      | some hook =>
        ["  ready hook, priority " ++ toString hook.priority ++ ", " ++
          toString hook.item.argumentCount ++ " argument(s)"])

def report (p : Package H F) : List Piece :=
  [.style .heading, .line p.heading, .style .plain] ++ p.contributionLines.map .line

end Package

def padRight (width : Nat) (s : String) : String :=
  s ++ String.ofList (List.replicate (width - s.length) ' ')

def Registry.listing (r : Registry H F) : List String :=
  r.toPairs.map fun (name, p) =>
    padRight 12 name ++ " parser=" ++ p.parser ++ " priority=" ++ toString p.priority

end ParserPackages
