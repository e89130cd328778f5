import ParserPackages.Yaml.Tree
import ParserPackages.Json.Reader

/-! # Values of scalars

What a plain scalar means: null, a truth value, an integer, a floating point number, or a text. An
explicit tag of the core schema asks for one kind, and a tag of the document's own is refused. What
begins like a tag of the document's own but is no text counts for nothing. -/

namespace ParserPackages.Yaml

inductive Value where
  | null
  | bool (value : Bool)
  | int (value : Int)
  | float (value : Binary64)
  | text (value : String)
  deriving DecidableEq, Repr

/-- A leading zero before further digits makes a text. -/
def isPaddedNumber (cs : List Char) : Bool :=
  let digits := match cs with
    | '-' :: rest => rest
    | '+' :: rest => rest
    | cs => cs
  1 < digits.length && digits.head? == some '0' && digits.all Char.isDigit

def natOfDigits? (radix : Nat) (cs : List Char) : Option Nat :=
  if cs.isEmpty then none
  else (cs.mapM fun c => do
      let d ← hexValue? c
      if d < radix then some d else none).map (List.foldl (fun n d => n * radix + d) 0)

/-- The radix that a mark names, and the digits behind it. -/
def radixMark? : List Char → Option (Nat × List Char)
  | '0' :: 'x' :: rest => some (16, rest)
  | '0' :: 'o' :: rest => some (8, rest)
  | '0' :: 'b' :: rest => some (2, rest)
  | _ => none

def magnitude? (cs : List Char) : Option Nat :=
  match radixMark? cs with
  | some (radix, digits) => natOfDigits? radix digits
  | none => if isPaddedNumber cs then none else natOfDigits? 10 cs

def integer? : List Char → Option Int
  | '-' :: rest => (magnitude? rest).map fun n => -(n : Int)
  | '+' :: rest => (magnitude? rest).map fun n => (n : Int)
  | cs => (magnitude? cs).map fun n => (n : Int)

def fits64 (n : Int) : Bool := -Int.pow 2 63 ≤ n && n < Int.pow 2 64

def fits128 (n : Int) : Bool := -Int.pow 2 127 ≤ n && n < Int.pow 2 128

/-- A decimal numeral: digits on at least one side of an optional point, and an optional
exponent. -/
def numeral? (cs : List Char) : Option Numeral := do
  let (negative, cs) := match cs with
    | '-' :: rest => (true, rest)
    | '+' :: rest => (false, rest)
    | cs => (false, cs)
  let (whole, cs) := Json.spanDigits cs
  let (fraction, cs) := match cs with
    | '.' :: rest => Json.spanDigits rest
    | cs => ([], cs)
  if whole.isEmpty && fraction.isEmpty then none
  let (exponent, cs) ← Json.readExponent? cs
  if cs.isEmpty then return ⟨negative, whole, fraction, exponent.getD 0⟩ else none

/-- A floating point number: infinite or not a number by name, else finite. -/
def float? (text : String) : Option Binary64 :=
  if [".inf", ".Inf", ".INF", "+.inf", "+.Inf", "+.INF"].contains text then
    some ⟨0x7FF0000000000000⟩
  else if ["-.inf", "-.Inf", "-.INF"].contains text then some ⟨0xFFF0000000000000⟩
  else if [".nan", ".NaN", ".NAN"].contains text then some ⟨0x7FF8000000000000⟩
  else do
    let x := (← numeral? text.toList).nearest
    if x.isFinite then some x else none

def isNullText (text : String) : Bool := ["null", "Null", "NULL", "~"].contains text

def bool? (text : String) : Option Bool :=
  if ["true", "True", "TRUE"].contains text then some true
  else if ["false", "False", "FALSE"].contains text then some false
  else none

/-- An integer that a value can hold; one of more than 64 bits is refused up to 128 bits, and is
none beyond. -/
def boundedInt? (text : String) : Option (Option Int) :=
  match integer? text.toList with
  | none => some none
  | some n => if fits64 n then some (some n) else if fits128 n then none else some none

def plainValue? (text : String) : Option Value := do
  if text.isEmpty || isNullText text then return .null
  if let some b := bool? text then return .bool b
  if let some n ← boundedInt? text then return .int n
  if !isPaddedNumber text.toList then
    if let some x := float? text then return .float x
  return .text text

def scalarValue? (tag? : Option Tag) (plain : Bool) (text : String) : Option Value :=
  match tag? with
  | none => if plain then plainValue? text else some (.text text)
  | some tag =>
    if tag.isLocal then none
    else if tag = .core "bool" then (bool? text).map .bool
    else if tag = .core "int" then do return .int (← ← boundedInt? text)
    else if tag = .core "float" then (float? text).map .float
    else if tag = .core "null" then if isNullText text then some .null else none
    else if tag.isMarked && plain then plainValue? text
    else some (.text text)

def isLocalTag (tag? : Option Tag) : Bool := tag?.any Tag.isLocal

/-- The value as JSON; what is not finite becomes null. -/
def Value.toJson : Value → Json
  | null => .null
  | bool b => .bool b
  | int n => .int n
  | float x => if x.isFinite then .float x else .null
  | text s => .str s

/-- The text of a scalar, whatever it means. -/
def Tree.scalarText? : Tree → Option String
  | .scalar _ _ text => some text
  | _ => none

mutual
/-- A tree as JSON. Keys are scalars, which stand for their texts. -/
def Tree.toJson? : Tree → Option Json
  | .scalar tag? plain text => (scalarValue? tag? plain text).map Value.toJson
  | .sequence tag? items =>
    if isLocalTag tag? then none else (Tree.itemsToJson? items).map .arr
  | .mapping tag? pairs =>
    if isLocalTag tag? then none else (Tree.pairsToJson? pairs).map .obj

def Tree.itemsToJson? : List Tree → Option (List Json)
  | [] => some []
  | item :: rest =>
    match item.toJson?, Tree.itemsToJson? rest with
    | some item, some rest => some (item :: rest)
    | _, _ => none

def Tree.pairsToJson? : List (Tree × Tree) → Option Fields
  | [] => some []
  | (key, value) :: rest =>
    match key.scalarText?, value.toJson?, Tree.pairsToJson? rest with
    | some key, some value, some rest => some ((key, value) :: rest)
    | _, _, _ => none
end

mutual
/-- Every scalar in the tree has a value, and no tag is the document's own. -/
def Tree.hasValue : Tree → Bool
  | .scalar tag? plain text => (scalarValue? tag? plain text).isSome
  | .sequence tag? items => !isLocalTag tag? && Tree.itemsHaveValues items
  | .mapping tag? pairs => !isLocalTag tag? && Tree.pairsHaveValues pairs

def Tree.itemsHaveValues : List Tree → Bool
  | [] => true
  | item :: rest => item.hasValue && Tree.itemsHaveValues rest

def Tree.pairsHaveValues : List (Tree × Tree) → Bool
  | [] => true
  | (key, value) :: rest => key.hasValue && value.hasValue && Tree.pairsHaveValues rest
end

end ParserPackages.Yaml
