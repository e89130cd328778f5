import ParserPackages.Keyed
import ParserPackages.Category

/-! # Rules

What a package hands over for other parts to interpret: a label to show and a payload. -/

namespace ParserPackages

inductive Payload where
  | unit
  | text (value : String)
  | integer (value : Int)
  deriving DecidableEq, Repr

/-- A rule. The serial number tells apart rules that were made separately, however alike. -/
structure Rule where
  serial : Nat
  label : String
  payload : Payload
  deriving DecidableEq, Repr

namespace Rule

def named (serial : Nat) (label : String) : Rule := ⟨serial, label, .unit⟩

def sameAs (r s : Rule) : Bool := r.serial == s.serial

def text? (r : Rule) : Option String :=
  match r.payload with
  | .text value => some value
  | _ => none

def integer? (r : Rule) : Option Int :=
  match r.payload with
  | .integer value => some value
  | _ => none

end Rule

/-- Rules by the name of what they construct. -/
abbrev RuleMap := KeyMap Rule

/-- The rule for tokens that no handler map claims, where a category has one. -/
abbrev Fallbacks := ByCategory (Option Rule)

namespace Fallbacks

def empty : Fallbacks := .replicate none

def toPairs (f : Fallbacks) : List (Category × Rule) :=
  f.toList.filterMap fun (c, rule) => rule.map fun r => (c, r)

end Fallbacks
end ParserPackages
