import ParserPackages.Keyed
import ParserPackages.Number.Binary64

/-! # JSON values

A value as it is written: objects keep their fields in the order of the text, repeated keys
included. The normal form has ascending keys at every depth, where the last of repeated keys has
won. -/

namespace ParserPackages

/-- A JSON value. Integers are exact, all other numbers are doubles. -/
inductive Json where
  | null
  | bool (value : Bool)
  | int (value : Int)
  | float (value : Binary64)
  | str (value : String)
  | arr (items : List Json)
  | obj (fields : List (String × Json))
  deriving Inhabited

abbrev Fields := List (String × Json)

mutual
/-- Keys ascend strictly in every object of the value. -/
def Json.Normal : Json → Prop
  | .arr items => Json.ItemsNormal items
  | .obj fields => Json.FieldsNormal fields
  | _ => True

def Json.ItemsNormal : List Json → Prop
  | [] => True
  | item :: rest => item.Normal ∧ Json.ItemsNormal rest

def Json.FieldsNormal : Fields → Prop
  | [] => True
  | (key, value) :: rest => (∀ f ∈ rest, key < f.1) ∧ value.Normal ∧ Json.FieldsNormal rest
end

mutual
def Json.normalize : Json → Json
  | .arr items => .arr (Json.normalizeItems items)
  | .obj fields => .obj (Json.normalizeFields [] fields)
  | value => value

def Json.normalizeItems : List Json → List Json
  | [] => []
  | item :: rest => item.normalize :: Json.normalizeItems rest

/-- Puts the normal forms of fields into fields that are normal already. -/
def Json.normalizeFields (done : Fields) : Fields → Fields
  | [] => done
  | (key, value) :: rest => Json.normalizeFields (Keyed.put key value.normalize done) rest
end

namespace Json

theorem fieldsNormal_iff (fields : Fields) :
    FieldsNormal fields ↔ Keyed.Ascending fields ∧ ∀ f ∈ fields, f.2.Normal := by
  induction fields with
  | nil => simp [FieldsNormal, Keyed.Ascending]
  | cons f rest ih =>
    obtain ⟨key, value⟩ := f
    simp only [FieldsNormal, ih, Keyed.Ascending, List.pairwise_cons, List.forall_mem_cons]
    constructor
    · rintro ⟨h, hv, ha, hr⟩; exact ⟨⟨h, ha⟩, hv, hr⟩
    · rintro ⟨⟨h, ha⟩, hv, hr⟩; exact ⟨h, hv, ha, hr⟩

theorem fieldsNormal_put {fields : Fields} (h : FieldsNormal fields) (key : String) {value : Json}
    (hv : value.Normal) : FieldsNormal (Keyed.put key value fields) := by
  rw [fieldsNormal_iff] at h ⊢
  refine ⟨Keyed.ascending_put h.1 key value, fun f hf => ?_⟩
  rcases Keyed.mem_put hf with rfl | hf
  · exact hv
  · exact h.2 f hf

theorem normal_of_lookup {fields : Fields} (h : FieldsNormal fields) {key : String} {value : Json}
    (hl : fields.lookup key = some value) : value.Normal := by
  induction fields with
  | nil => simp at hl
  | cons f rest ih =>
    obtain ⟨k, v⟩ := f
    simp only [List.lookup_cons] at hl
    split at hl
    · cases hl; exact h.2.1
    · exact ih h.2.2 hl

mutual
theorem normal_normalize : (value : Json) → value.normalize.Normal
  | .null => trivial
  | .bool _ => trivial
  | .int _ => trivial
  | .float _ => trivial
  | .str _ => trivial
  | .arr items => itemsNormal_normalizeItems items
  | .obj fields => fieldsNormal_normalizeFields fields [] trivial

theorem itemsNormal_normalizeItems : (items : List Json) → ItemsNormal (normalizeItems items)
  | [] => trivial
  | item :: rest => ⟨normal_normalize item, itemsNormal_normalizeItems rest⟩

theorem fieldsNormal_normalizeFields : (fields done : Fields) → FieldsNormal done →
    FieldsNormal (normalizeFields done fields)
  | [], _, h => h
  | (key, value) :: rest, _, h =>
    fieldsNormal_normalizeFields rest _ (fieldsNormal_put h key (normal_normalize value))
end

end Json
end ParserPackages
