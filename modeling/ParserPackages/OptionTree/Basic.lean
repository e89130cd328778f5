import ParserPackages.Json.Basic
import ParserPackages.Text.Basic

/-! # Option trees

Option names mapped to JSON values in normal form. Objects inside are sub-trees, whose options are
named by dotted paths. -/

namespace ParserPackages

structure OptionTree where
  fields : Fields
  normal : Json.FieldsNormal fields

namespace OptionTree

@[ext] theorem ext {s t : OptionTree} (h : s.fields = t.fields) : s = t := by
  cases s; cases t; cases h; rfl

def empty : OptionTree := ⟨[], trivial⟩

instance : Inhabited OptionTree := ⟨empty⟩
instance : EmptyCollection OptionTree := ⟨empty⟩

/-- The tree of the given fields, where the last of repeated names wins. -/
def ofFields (fields : Fields) : OptionTree :=
  ⟨Json.normalizeFields [] fields, Json.fieldsNormal_normalizeFields fields [] trivial⟩

def ofJson? : Json → Option OptionTree
  | .obj fields => some (ofFields fields)
  | _ => none

def toJson (t : OptionTree) : Json := .obj t.fields

def get? (t : OptionTree) (name : String) : Option Json := t.fields.lookup name

def contains (t : OptionTree) (name : String) : Bool := (t.get? name).isSome

def names (t : OptionTree) : List String := t.fields.map (·.1)

def size (t : OptionTree) : Nat := t.fields.length

def isEmpty (t : OptionTree) : Bool := t.fields.isEmpty

def descend (value : Json) : List String → Option Json
  | [] => some value
  | name :: path =>
    match value with
    | .obj fields =>
      match fields.lookup name with
      | some inner => descend inner path
      | none => none
    | _ => none

def getPath? (t : OptionTree) (path : String) : Option Json :=
  descend t.toJson (Text.split '.' path)

def set (t : OptionTree) (name : String) (value : Json) : OptionTree :=
  ⟨Keyed.put name value.normalize t.fields,
    Json.fieldsNormal_put t.normal name (Json.normal_normalize value)⟩

theorem fieldsNormal_putAll {fields incoming : Fields} (h : Json.FieldsNormal fields)
    (hi : Json.FieldsNormal incoming) : Json.FieldsNormal (Keyed.putAll fields incoming) := by
  induction incoming generalizing fields with
  | nil => exact h
  | cons f rest ih => exact ih (Json.fieldsNormal_put h f.1 hi.2.1) hi.2.2

theorem fieldsNormal_fill {fields incoming : Fields} (h : Json.FieldsNormal fields)
    (hi : Json.FieldsNormal incoming) : Json.FieldsNormal (Keyed.fill fields incoming) := by
  induction incoming generalizing fields with
  | nil => exact h
  | cons f rest ih =>
    simp only [Keyed.fill, List.foldl_cons] at ih ⊢
    split
    · exact ih h hi.2.2
    · exact ih (Json.fieldsNormal_put h f.1 hi.2.1) hi.2.2

/-- Adds the options of `defaults` whose names are missing. -/
def fill (t defaults : OptionTree) : OptionTree :=
  ⟨Keyed.fill t.fields defaults.fields, fieldsNormal_fill t.normal defaults.normal⟩

/-- The names of `defaults` that `fill` passes over. -/
def keptBy (t defaults : OptionTree) : List String := defaults.names.filter t.contains

def overwrite (t other : OptionTree) : OptionTree :=
  ⟨Keyed.putAll t.fields other.fields, fieldsNormal_putAll t.normal other.normal⟩

end OptionTree
end ParserPackages
