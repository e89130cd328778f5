import Mathlib.Data.List.Basic
import ParserPackages.Proofs.OptionTree.OverlayLaws

/-!
# Leaves of option trees

Every key of a tree stands on the path to some leaf, since an empty object is a leaf as well. The
leaves below a key are those of the value that is found there, so a tree in normal form is
determined by its leaves and their paths.
-/
namespace ParserPackages

/-- A value that ends a path of keys, with that path. -/
structure Leaf where
  path : List String
  value : Json

def Leaf.under (key : String) (leaf : Leaf) : Leaf := { leaf with path := key :: leaf.path }

namespace Json

mutual
/-- The leaves of a value: values that are no objects, and empty objects. -/
def leaves : Json → List Leaf
  | .obj (field :: rest) => leavesOfFields (field :: rest)
  | value => [⟨[], value⟩]

def leavesOfFields : Fields → List Leaf
  | [] => []
  | (key, value) :: rest => (leaves value).map (Leaf.under key) ++ leavesOfFields rest
end

theorem leavesOfFields_eq_flatMap (fields : Fields) :
    leavesOfFields fields = fields.flatMap fun f => (leaves f.2).map (Leaf.under f.1) := by
  induction fields with
  | nil => rfl
  | cons f rest ih => rw [leavesOfFields, ih, List.flatMap_cons]

/-- A value is its own only leaf, or its leaves are those of its fields. -/
theorem leaves_cases (value : Json) :
    leaves value = [⟨[], value⟩] ∨
      ∃ fields, value = .obj fields ∧ leaves value = leavesOfFields fields := by
  cases value with
  | null | bool _ | int _ | float _ | str _ | arr _ => exact .inl rfl
  | obj fields =>
    cases fields with
    | nil => exact .inl rfl
    | cons f rest => exact .inr ⟨_, rfl, rfl⟩

theorem path_ne_nil_of_mem {fields : Fields} {leaf : Leaf} (h : leaf ∈ leavesOfFields fields) :
    leaf.path ≠ [] := by
  rw [leavesOfFields_eq_flatMap] at h
  obtain ⟨f, _, h⟩ := List.mem_flatMap.1 h
  obtain ⟨inner, _, rfl⟩ := List.mem_map.1 h
  exact List.cons_ne_nil _ _

theorem leavesOfFields_ne_root (fields : Fields) (value : Json) :
    leavesOfFields fields ≠ [⟨[], value⟩] := by
  intro h
  have hroot : (⟨[], value⟩ : Leaf) ∈ leavesOfFields fields := h ▸ List.mem_singleton_self _
  exact path_ne_nil_of_mem hroot rfl

theorem leaves_ne_nil (value : Json) : leaves value ≠ [] := by
  induction value using objectInduction with
  | other value h =>
    rcases leaves_cases value with hl | ⟨fields, rfl, -⟩
    · rw [hl]
      simp
    · exact absurd rfl (h fields)
  | obj fields ih =>
    cases fields with
    | nil => simp [leaves]
    | cons f rest =>
      rw [leaves, leavesOfFields]
      simpa using fun h => absurd h (ih f (by simp))

def leavesBelow (key : String) (leaves : List Leaf) : List Leaf :=
  leaves.filterMap fun leaf =>
    match leaf.path with
    | [] => none
    | k :: path => if k = key then some ⟨path, leaf.value⟩ else none

theorem leavesBelow_append (key : String) (first second : List Leaf) :
    leavesBelow key (first ++ second) = leavesBelow key first ++ leavesBelow key second :=
  List.filterMap_append

theorem leavesBelow_map_under (key other : String) (leaves : List Leaf) :
    leavesBelow key (leaves.map (Leaf.under other)) = if other = key then leaves else [] := by
  by_cases h : other = key <;>
    simp [leavesBelow, List.filterMap_map, Function.comp_def, Leaf.under, h]

theorem leavesBelow_leavesOfFields {fields : Fields} (h : Keyed.Ascending fields) (key : String) :
    leavesBelow key (leavesOfFields fields) = ((fields.lookup key).map leaves).getD [] := by
  induction fields with
  | nil => rfl
  | cons f rest ih =>
    obtain ⟨k, value⟩ := f
    obtain ⟨hhead, htail⟩ := List.pairwise_cons.1 h
    rw [leavesOfFields, leavesBelow_append, leavesBelow_map_under, ih htail, List.lookup_cons]
    by_cases hk : k = key
    · subst hk
      rw [Keyed.lookup_eq_none_of_lt hhead]
      simp
    · simp [hk, beq_eq_false_iff_ne.2 (Ne.symm hk)]

theorem fields_eq_of_leaves_eq {fields others : Fields} (hf : FieldsNormal fields)
    (ho : FieldsNormal others)
    (hvalue : ∀ f ∈ fields, ∀ w : Json, w.Normal → leaves f.2 = leaves w → f.2 = w)
    (h : leavesOfFields fields = leavesOfFields others) : fields = others := by
  refine Keyed.ext_lookup (ascending_of_normal hf) (ascending_of_normal ho) fun key => ?_
  have hbelow := congrArg (leavesBelow key) h
  rw [leavesBelow_leavesOfFields (ascending_of_normal hf),
    leavesBelow_leavesOfFields (ascending_of_normal ho)] at hbelow
  cases hl : fields.lookup key with
  | none =>
    cases hm : others.lookup key with
    | none => rfl
    | some w => simpa [hl, hm, leaves_ne_nil] using hbelow.symm
  | some v =>
    cases hm : others.lookup key with
    | none => simp [hl, hm, leaves_ne_nil] at hbelow
    | some w =>
      rw [hl, hm] at hbelow
      exact congrArg some
        (hvalue (key, v) (Keyed.mem_of_lookup hl) w (normal_of_lookup ho hm) hbelow)

theorem eq_of_leaves_eq_root {v w : Json} (h : leaves w = [⟨[], v⟩]) : w = v := by
  rcases leaves_cases w with hw | ⟨fields, -, hw⟩
  · simpa [hw] using h
  · exact (leavesOfFields_ne_root fields v (hw.symm.trans h)).elim

/-- A value in normal form is determined by its leaves. -/
theorem leaves_inj {v w : Json} (hv : v.Normal) (hw : w.Normal) (h : leaves v = leaves w) :
    v = w := by
  induction v using objectInduction generalizing w with
  | other v hne =>
    rcases leaves_cases v with hroot | ⟨fields, rfl, -⟩
    · exact (eq_of_leaves_eq_root (h.symm.trans hroot)).symm
    · exact absurd rfl (hne fields)
  | obj fields ih =>
    rcases leaves_cases (.obj fields) with hroot | ⟨_, ⟨⟩, hfields⟩
    · exact (eq_of_leaves_eq_root (h.symm.trans hroot)).symm
    · rcases leaves_cases w with hroot | ⟨others, rfl, hothers⟩
      · exact eq_of_leaves_eq_root (h.trans hroot)
      · rw [hfields, hothers] at h
        exact congrArg Json.obj (fields_eq_of_leaves_eq hv hw
          (fun f hf _ hw he => ih f hf (((fieldsNormal_iff fields).1 hv).2 f hf) hw he) h)

end Json

namespace OptionTree

def leaves (t : OptionTree) : List Leaf := Json.leavesOfFields t.fields

theorem leaves_inj {s t : OptionTree} (h : s.leaves = t.leaves) : s = t :=
  ext (Json.fields_eq_of_leaves_eq s.normal t.normal
    (fun f hf _ hw he => Json.leaves_inj (((Json.fieldsNormal_iff _).1 s.normal).2 f hf) hw he) h)

end OptionTree
end ParserPackages
