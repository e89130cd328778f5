import ParserPackages.Settings.Basic
import ParserPackages.Yaml.Schema

/-! # Settings files

A file is read as JSON if its extension says so, and as YAML otherwise. Its bytes must be UTF-8.

In YAML, where a list or an object is wanted, a place with nothing written stands for an empty one.
Where a text is wanted, any scalar stands for its text; but a request is read by what its scalars
mean. -/

namespace ParserPackages

/-- Nothing is written here. -/
def Yaml.Tree.isNothing : Yaml.Tree → Bool
  | .scalar _ plain text => plain && text.isEmpty
  | _ => false

def Yaml.Tree.items? : Yaml.Tree → Option (List Yaml.Tree)
  | .sequence _ items => some items
  | t => if t.isNothing then some [] else none

namespace Request

/-- The field that a key means. Numbers, which have no minus sign, count the fields from zero. -/
def Field.ofTree? : Yaml.Tree → Option Field
  | .scalar tag? plain text =>
    match Yaml.scalarValue? tag? plain text with
    | some (.text key) => some (.ofKey key)
    | some (.int n) =>
      if text.startsWith "-" then none
      else if n = 0 then some .name
      else if n = 1 then some .priority
      else some .other
    | _ => none
  | _ => none

/-- The value of a field, as far as a request depends on it. -/
def valueOfTree : Yaml.Tree → Json
  | .scalar tag? plain text =>
    match Yaml.scalarValue? tag? plain text with
    | some (.float x) => .float x
    | some value => value.toJson
    | none => .obj []
  | .sequence .. => .arr []
  | .mapping .. => .obj []

/-- Reads a request from a tree in which every scalar has a value. -/
def ofTree? (t : Yaml.Tree) : Option Request :=
  if !t.hasValue then none
  else
    match t with
    | .mapping _ pairs => do
      let fields ← pairs.mapM fun (key, value) => do
        return (← Field.ofTree? key, valueOfTree value)
      ofFields? none none fields
    | t =>
      match valueOfTree t with
      | .str name => some (ofName name)
      | _ => none

end Request

namespace Settings

def optionsOfTree? : Yaml.Tree → Option OptionTree
  | .mapping _ pairs => (Yaml.Tree.pairsToJson? pairs).map OptionTree.ofFields
  | t => if t.isNothing then some .empty else none

def yamlDecoder : Decoder Yaml.Tree where
  packages? t := do (← t.items?).mapM Request.ofTree?
  parsers? t := do (← t.items?).mapM Yaml.Tree.scalarText?
  options? := optionsOfTree?

def ofTree? : Yaml.Tree → Option Settings
  | .mapping _ pairs => do
    let fields ← pairs.mapM fun (key, value) => do return (← key.scalarText?, value)
    yamlDecoder.ofFields? fields
  | t => if t.isNothing then some default else none

/-- Settings from the text of a document; a text without any has the default settings. -/
def ofYaml? (text : String) : Option Settings := do
  match ← Yaml.read? text with
  | none => return default
  | some tree => ofTree? tree

/-! ## Files -/

def fileName (path : List Char) : List Char :=
  ((path.reverse.dropWhile (· == '/')).takeWhile (· != '/')).reverse

/-- What follows the last dot of a file name, unless the name begins with that dot. -/
def extension? (path : String) : Option (List Char) :=
  let name := fileName path.toList
  let last := (name.reverse.takeWhile (· != '.')).reverse
  let stem := name.take (name.length - last.length - 1)
  if last.length < name.length ∧ stem ≠ [] ∧ name ≠ ['.', '.'] then some last else none

def isJsonPath (path : String) : Bool :=
  match extension? path with
  | some cs => cs.map Char.toLower == ['j', 's', 'o', 'n']
  | none => false

def ofText? (path text : String) : Option Settings :=
  if isJsonPath path then do ofJson? (← Json.read? text) else ofYaml? text

def ofFile (path : String) (bytes? : Option ByteArray) : Except Fault Settings :=
  match bytes?.bind String.fromUTF8? with
  | none => .error (.unreadable path)
  | some text =>
    match ofText? path text with
    | some settings => .ok settings
    | none => .error (.undecodable path)

end Settings
end ParserPackages
