import ParserPackages.Parser.Running
import ParserPackages.Json.Reader

/-! # Settings

One parser instance as its file describes it: the packages to select, the parsers that they may
extend and the options of the user. -/

namespace ParserPackages

variable {H F σ : Type}

structure Settings where
  packages : List Request
  parsers : List String
  options : OptionTree

namespace Settings

def default : Settings := ⟨[], [defaultParser], .empty⟩

instance : Inhabited Settings := ⟨default⟩

def toJson (s : Settings) : Json :=
  .obj [("packages", .arr (s.packages.map Request.toJson)),
    ("parsers", .arr (s.parsers.map .str)),
    ("options", s.options.toJson)]

/-- Merges the selected packages and runs their init hooks. -/
def prepare (b : Behaviour H F σ) (s : Settings) (registry : Registry H F) (world : σ) :
    Except Fault (Prepared H F) × σ :=
  Prepared.ofRequests b registry s.packages s.parsers world

def engine (s : Settings) : Engine F := .ofUserOptions s.options

/-- Prepares the parser and hands it to a fresh engine. -/
def resolve (b : Behaviour H F σ) (s : Settings) (registry : Registry H F) (world : σ) :
    Except Fault (Running H F × Engine F) × σ :=
  match s.prepare b registry world with
  | (.error fault, world) => (.error fault, world)
  | (.ok prepared, world) =>
    match prepared.configure b s.engine world with
    | (.error fault, _, world) => (.error fault, world)
    | (.ok parser, engine, world) => (.ok (parser, engine), world)

/-! ## Reading settings

Settings are an object of three fields, none of which need be there, none of which may repeat, and
beside which there are no others. They may also be a list of the values of the first few fields. -/

inductive Part where
  | packages
  | parsers
  | options
  deriving DecidableEq, Repr

namespace Part

/-- The fields in the order of a list of values. -/
def all : List Part := [packages, parsers, options]

def ofKey? (key : String) : Option Part :=
  if key = "packages" then some packages
  else if key = "parsers" then some parsers
  else if key = "options" then some options
  else none

end Part

/-- How the three fields are read from values of some kind. -/
structure Decoder (α : Type) where
  packages? : α → Option (List Request)
  parsers? : α → Option (List String)
  options? : α → Option OptionTree

namespace Decoder

variable {α : Type}

def read? (d : Decoder α) (s : Settings) (part : Part) (value : α) : Option Settings :=
  match part with
  | .packages => (d.packages? value).map fun packages => { s with packages }
  | .parsers => (d.parsers? value).map fun parsers => { s with parsers }
  | .options => (d.options? value).map fun options => { s with options }

/-- Reads fields that were not `seen`. -/
def readParts? (d : Decoder α) (seen : List Part) (s : Settings) :
    List (Part × α) → Option Settings
  | [] => some s
  | (part, value) :: rest =>
    if part ∈ seen then none
    else
      match d.read? s part value with
      | none => none
      | some s => readParts? d (part :: seen) s rest

def ofFields? (d : Decoder α) (fields : List (String × α)) : Option Settings := do
  let parts ← fields.mapM fun (key, value) => (Part.ofKey? key).map (·, value)
  d.readParts? [] default parts

def ofValues? (d : Decoder α) (values : List α) : Option Settings :=
  if Part.all.length < values.length then none
  else d.readParts? [] default (Part.all.zip values)

end Decoder

def textOfJson? : Json → Option String
  | .str s => some s
  | _ => none

def textsOfJson? : Json → Option (List String)
  | .arr items => items.mapM textOfJson?
  | _ => none

def jsonDecoder : Decoder Json where
  packages? := Request.listOfJson?
  parsers? := textsOfJson?
  options? := OptionTree.ofJson?

def ofJson? : Json → Option Settings
  | .obj fields => jsonDecoder.ofFields? fields
  | .arr values => jsonDecoder.ofValues? values
  | _ => none

end Settings
end ParserPackages
