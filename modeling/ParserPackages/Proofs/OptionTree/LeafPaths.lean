import ParserPackages.Proofs.OptionTree.Leaves
import ParserPackages.Proofs.OptionTree.Undeclared

/-!
# Leaves by their paths

The leaves of a tree are the values at which its paths end: values that are no objects, and empty
objects. They are listed in depth-first order of their paths, so each of them comes once. Every path
along which there is a value goes on to some leaf.
-/
namespace ParserPackages

open OptionTree (descend descend_obj_cons descend_append)

theorem Before.ne {path other : List String} (h : Before path other) : path ≠ other := by
  rintro rfl
  exact List.lex_irrefl (fun key => List.lt_irrefl (Text.bytes key)) path h

namespace Json

variable {value inner : Json} {fields : Fields} {key : String} {path : List String}

/-- The value ends the paths that lead to it: it is no object, or an empty one. -/
def Ends (value : Json) : Prop := ∀ field rest, value ≠ .obj (field :: rest)

theorem ends_or_obj (value : Json) : value.Ends ∨ ∃ field rest, value = .obj (field :: rest) := by
  by_cases h : value.Ends
  · exact .inl h
  · right
    simpa [Ends] using h

theorem leaves_of_ends (h : value.Ends) : leaves value = [⟨[], value⟩] := by
  rw [leaves]
  exact h

/-- Nothing is below a value that ends its paths. -/
theorem descend_of_ends (h : value.Ends) : descend value (key :: path) = none := by
  cases value with
  | obj fields =>
    cases fields with
    | nil => rfl
    | cons field rest => exact absurd rfl (h field rest)
  | null | bool | int | float | str | arr => rfl

theorem mem_leavesBelow {leaves : List Leaf} :
    ⟨path, inner⟩ ∈ leavesBelow key leaves ↔ ⟨key :: path, inner⟩ ∈ leaves := by
  rw [leavesBelow, List.mem_filterMap]
  constructor
  · rintro ⟨⟨_ | ⟨k, rest⟩, value⟩, hl, h⟩
    · cases h
    · simp only [Option.ite_none_right_eq_some, Option.some.injEq, Leaf.mk.injEq] at h
      obtain ⟨rfl, rfl, rfl⟩ := h
      exact hl
  · exact fun h => ⟨_, h, if_pos rfl⟩

theorem mem_leavesOfFields_cons (h : Keyed.Ascending fields) :
    ⟨key :: path, inner⟩ ∈ leavesOfFields fields ↔
      ∃ value, fields.lookup key = some value ∧ ⟨path, inner⟩ ∈ leaves value := by
  rw [← mem_leavesBelow, leavesBelow_leavesOfFields h]
  cases fields.lookup key <;> simp

/-- The leaves of a value are the values at which its paths end. -/
theorem mem_leaves_iff (h : value.Normal) :
    ⟨path, inner⟩ ∈ leaves value ↔ descend value path = some inner ∧ inner.Ends := by
  induction path generalizing value with
  | nil =>
    rcases ends_or_obj value with hends | ⟨field, rest, rfl⟩
    · rw [leaves_of_ends hends, List.mem_singleton, descend, Option.some.injEq]
      constructor
      · intro he
        cases he
        exact ⟨rfl, hends⟩
      · rintro ⟨rfl, -⟩
        rfl
    · refine iff_of_false (fun hl => path_ne_nil_of_mem hl rfl) ?_
      rintro ⟨he, hends⟩
      exact hends field rest (Option.some.inj he).symm
  | cons key path ih =>
    rcases ends_or_obj value with hends | ⟨field, rest, rfl⟩
    · rw [leaves_of_ends hends, descend_of_ends hends]
      simp
    · rw [leaves, mem_leavesOfFields_cons (ascending_of_normal h), descend_obj_cons]
      constructor
      · rintro ⟨next, hnext, hl⟩
        rw [hnext]
        exact (ih (normal_of_lookup h hnext)).1 hl
      · rintro ⟨hd, hends⟩
        obtain ⟨next, hnext, hd⟩ := Option.bind_eq_some_iff.1 hd
        exact ⟨next, hnext, (ih (normal_of_lookup h hnext)).2 ⟨hd, hends⟩⟩

theorem pairwise_leavesOfFields (h : Keyed.Ascending fields)
    (hvalue : ∀ f ∈ fields, (leaves f.2).Pairwise fun a b => Before a.path b.path) :
    (leavesOfFields fields).Pairwise fun a b => Before a.path b.path := by
  rw [leavesOfFields_eq_flatMap, List.pairwise_flatMap]
  refine ⟨fun f hf => ?_, h.imp fun hlt a ha b hb => ?_⟩
  · rw [List.pairwise_map]
    exact (hvalue f hf).imp List.Lex.cons
  · obtain ⟨a, -, rfl⟩ := List.mem_map.1 ha
    obtain ⟨b, -, rfl⟩ := List.mem_map.1 hb
    exact List.Lex.rel (Text.bytes_lt_of_lt hlt)

/-- Leaves are listed depth first. -/
theorem pairwise_leaves (h : value.Normal) :
    (leaves value).Pairwise fun a b => Before a.path b.path := by
  induction value using objectInduction with
  | other value hne =>
    rw [leaves_of_ends fun field rest => hne (field :: rest)]
    exact List.pairwise_singleton ..
  | obj fields ih =>
    cases fields with
    | nil => exact List.pairwise_singleton ..
    | cons field rest =>
      exact pairwise_leavesOfFields (ascending_of_normal h)
        fun f hf => ih f hf (((fieldsNormal_iff _).1 h).2 f hf)

end Json

namespace OptionTree

variable {t : OptionTree} {path : List String} {value : Json}

theorem mem_leaves_iff :
    ⟨path, value⟩ ∈ t.leaves ↔ path ≠ [] ∧ descend t.toJson path = some value ∧ value.Ends := by
  rw [leaves]
  cases path with
  | nil => simpa using fun hl => Json.path_ne_nil_of_mem hl rfl
  | cons key path =>
    rw [Json.mem_leavesOfFields_cons (Json.ascending_of_normal t.normal), toJson, descend_obj_cons]
    cases hl : t.fields.lookup key with
    | none => simp
    | some next =>
      have hnext : ⟨path, value⟩ ∈ next.leaves ↔ descend next path = some value ∧ value.Ends :=
        Json.mem_leaves_iff (Json.normal_of_lookup t.normal hl)
      simpa using hnext

theorem pairwise_leaves (t : OptionTree) :
    t.leaves.Pairwise fun a b => Before a.path b.path :=
  Json.pairwise_leavesOfFields (Json.ascending_of_normal t.normal)
    fun f hf => Json.pairwise_leaves (((Json.fieldsNormal_iff _).1 t.normal).2 f hf)

/-- Whatever is found at a path, some leaf is there or below. -/
theorem exists_leaf_below (hne : path ≠ []) (h : descend t.toJson path = some value) :
    ∃ leaf ∈ t.leaves, path <+: leaf.path := by
  obtain ⟨⟨rest, inner⟩, hl⟩ := List.exists_mem_of_ne_nil _ (Json.leaves_ne_nil value)
  obtain ⟨hrest, hends⟩ := (Json.mem_leaves_iff (Json.normal_of_descend t.normal_toJson h)).1 hl
  refine ⟨⟨path ++ rest, inner⟩, mem_leaves_iff.2 ⟨by simp [hne], ?_, hends⟩, path.prefix_append _⟩
  rw [descend_append, h]
  exact hrest

/-- No key that objects lead to has a dot or a line feed in it. Keys inside arrays may. -/
def PlainKeys (t : OptionTree) : Prop :=
  ∀ path, (descend t.toJson path).isSome →
    ∀ key ∈ path, '.' ∉ key.toList ∧ '\n' ∉ key.toList

theorem plainKeys_iff (t : OptionTree) :
    t.PlainKeys ↔ ∀ leaf ∈ t.leaves, ∀ key ∈ leaf.path, '.' ∉ key.toList ∧ '\n' ∉ key.toList := by
  constructor
  · intro h leaf hl
    obtain ⟨-, hfound, -⟩ := mem_leaves_iff.1 hl
    exact h leaf.path (Option.isSome_iff_exists.2 ⟨_, hfound⟩)
  · intro h path hfound key hkey
    obtain ⟨value, hvalue⟩ := Option.isSome_iff_exists.1 hfound
    obtain ⟨leaf, hl, hbelow⟩ := exists_leaf_below (List.ne_nil_of_mem hkey) hvalue
    exact h leaf hl key (hbelow.mem hkey)

instance (t : OptionTree) : Decidable t.PlainKeys := decidable_of_iff' _ t.plainKeys_iff

end OptionTree
end ParserPackages
