import Mathlib.Data.List.Induction
import Mathlib.Data.List.Infix
import ParserPackages.Proofs.OptionTree.Layers

/-!
# Overlays path by path

Where the upper of two trees has a value, an overlay has that value laid over what the lower tree
has there. So a path that leaves the upper tree goes on in the lower one, provided that both have an
object at the place where it leaves; otherwise it ends there.
-/
namespace ParserPackages

open OptionTree (descend)

namespace OptionTree

variable {value : Json} {name : String} {path : List String}

theorem descend_obj_cons (fields : Fields) (name : String) (path : List String) :
    descend (.obj fields) (name :: path) = (fields.lookup name).bind (descend · path) := by
  rw [descend]
  cases fields.lookup name <;> rfl

theorem descend_append (value : Json) (path rest : List String) :
    descend value (path ++ rest) = (descend value path).bind (descend · rest) := by
  induction path generalizing value with
  | nil => rfl
  | cons name path ih =>
    rw [List.cons_append]
    cases value with
    | obj fields =>
      rw [descend_obj_cons, descend_obj_cons]
      cases fields.lookup name with
      | none => rfl
      | some inner => exact ih inner
    | null | bool | int | float | str | arr => rfl

end OptionTree

namespace Json

open OptionTree (descend_obj_cons descend_append descend_cons_eq_some)

def ObjectAt (value : Json) (path : List String) : Prop :=
  ∃ fields, descend value path = some (.obj fields)

/-- The longest beginning of a path at which there is a value. The root always counts. -/
structure Reaches (value : Json) (path reach : List String) : Prop where
  beginning : reach <+: path
  found : (descend value reach).isSome
  longest : ∀ other, other <+: path → (descend value other).isSome → other.length ≤ reach.length

instance (value : Json) (path reach : List String) : Decidable (value.Reaches path reach) :=
  decidable_of_iff (reach <+: path ∧ (descend value reach).isSome ∧ ∀ other ∈ path.inits,
      (descend value other).isSome → other.length ≤ reach.length)
    ⟨fun h => ⟨h.1, h.2.1, fun other ho => h.2.2 other ((List.mem_inits ..).2 ho)⟩,
      fun h => ⟨h.beginning, h.found, fun other ho => h.longest other ((List.mem_inits ..).1 ho)⟩⟩

theorem exists_reaches (value : Json) (path : List String) : ∃ reach, value.Reaches path reach := by
  induction path using List.reverseRecOn with
  | nil => exact ⟨[], List.prefix_rfl, rfl, fun other h _ => h.length_le⟩
  | append_singleton path name ih =>
    by_cases h : (descend value (path ++ [name])).isSome
    · exact ⟨path ++ [name], List.prefix_rfl, h, fun other ho _ => ho.length_le⟩
    · obtain ⟨reach, hr⟩ := ih
      refine ⟨reach, hr.beginning.trans (List.prefix_append ..), hr.found, fun other ho hf => ?_⟩
      rcases List.prefix_concat_iff.1 ho with rfl | ho
      · exact absurd hf h
      · exact hr.longest other ho hf

/-- A path along which nothing is found parts from the value behind its reach. -/
theorem Reaches.exists_rest {value : Json} {path reach : List String}
    (h : value.Reaches path reach) (hn : descend value path = none) :
    ∃ inner name rest, path = reach ++ name :: rest ∧ descend value reach = some inner ∧
      descend inner [name] = none := by
  obtain ⟨rest, rfl⟩ := h.beginning
  obtain ⟨inner, hinner⟩ := Option.isSome_iff_exists.1 h.found
  cases rest with
  | nil => rw [List.append_nil, hinner] at hn; cases hn
  | cons name rest =>
    refine ⟨inner, name, rest, rfl, hinner, ?_⟩
    have hbeginning : reach ++ [name] <+: reach ++ name :: rest := ⟨rest, by simp⟩
    have hnext : descend value (reach ++ [name]) = none := by
      rw [← Option.not_isSome_iff_eq_none]
      intro hf
      have hlength := h.longest _ hbeginning hf
      rw [List.length_append, List.length_singleton] at hlength
      omega
    rwa [descend_append, hinner] at hnext

theorem normal_of_descend {value : Json} (hv : value.Normal) {path : List String} {inner : Json}
    (h : descend value path = some inner) : inner.Normal := by
  induction path generalizing value with
  | nil => exact Option.some.inj h ▸ hv
  | cons name path ih =>
    obtain ⟨fields, next, rfl, hnext, hpath⟩ := descend_cons_eq_some h
    exact ih (normal_of_lookup hv hnext) hpath

theorem descend_overlay_of_some {value : Json} (hv : value.Normal) {path : List String}
    {inner : Json} (h : descend value path = some inner) (old : Option Json) :
    descend (overlay old value) path = some (overlay (old.bind (descend · path)) inner) := by
  induction path generalizing value old with
  | nil =>
    obtain rfl : value = inner := Option.some.inj h
    cases old <;> rfl
  | cons name path ih =>
    obtain ⟨incoming, next, rfl, hnext, hpath⟩ := descend_cons_eq_some h
    cases old with
    | none => simpa using h
    | some old =>
      cases old with
      | obj fields =>
        have hname : (overlayFields fields incoming).lookup name =
            some (overlay (fields.lookup name) next) := by
          rw [lookup_overlayFields (ascending_of_normal hv), hnext]
          rfl
        rw [overlay_obj_obj, descend_obj_cons, hname, Option.bind_some, Option.bind_some,
          descend_obj_cons]
        exact ih (normal_of_lookup hv hnext) hpath _
      | null | bool | int | float | str | arr => simpa [overlay, descend] using h

theorem overlay_eq_self {value : Json} {old : Option Json}
    (h : (∀ fields, value ≠ .obj fields) ∨ ∀ fields, old ≠ some (.obj fields)) :
    overlay old value = value := by
  rcases h with hvalue | hold
  · exact overlay_of_ne_obj hvalue old
  · cases value with
    | obj incoming =>
      rw [overlay]
      exact fun fields he => hold fields he
    | null | bool | int | float | str | arr => rfl

/-- A name that the upper one of two objects lacks leads on in the lower one. -/
theorem descend_overlay_of_lacks {incoming : Fields} (hi : Keyed.Ascending incoming) {name : String}
    (h : incoming.lookup name = none) (fields : Fields) (rest : List String) :
    descend (overlay (some (.obj fields)) (.obj incoming)) (name :: rest) =
      descend (.obj fields) (name :: rest) := by
  rw [overlay_obj_obj, descend_obj_cons, descend_obj_cons, lookup_overlayFields hi, h]
  rfl

end Json

/-- A value of the upper tree that is no object is found at its path in an overlay. A path along
which the upper tree has no value has a longest beginning at which it has one: if both trees have an
object there, the overlay has at the path what the lower tree has, and else it has nothing. Options
of a user that can be applied make the same of a tree. -/
theorem overlay_by_path (t s : OptionTree) :
    (∀ path leaf, descend s.toJson path = some leaf → (∀ fields, leaf ≠ .obj fields) →
      descend (t.overlay s).toJson path = some leaf) ∧
    (∀ path, descend s.toJson path = none →
      (∃ reach, s.toJson.Reaches path reach) ∧ ∀ reach, s.toJson.Reaches path reach →
        (s.toJson.ObjectAt reach → t.toJson.ObjectAt reach →
          descend (t.overlay s).toJson path = descend t.toJson path) ∧
        (¬ s.toJson.ObjectAt reach ∨ ¬ t.toJson.ObjectAt reach →
          descend (t.overlay s).toJson path = none)) ∧
    ∀ result, t.applyUser s = .ok result → result = t.overlay s := by
  refine ⟨fun path leaf h hl => OptionTree.descend_overlay h hl t, fun path hn =>
    ⟨s.toJson.exists_reaches path, fun reach hr => ?_⟩, fun result h =>
    (OptionTree.applyUser_eq_ok_iff_declares.1 h).2⟩
  obtain ⟨inner, name, rest, rfl, hinner, hlacks⟩ := hr.exists_rest hn
  -- at the reach, the overlay lays the last value of the upper tree over that of the lower one
  have hoverlay : descend (t.overlay s).toJson reach =
      some (Json.overlay (descend t.toJson reach) inner) :=
    Json.descend_overlay_of_some s.normal_toJson hinner (some t.toJson)
  rw [OptionTree.descend_append, OptionTree.descend_append, hoverlay, Option.bind_some]
  constructor
  · rintro ⟨incoming, hs⟩ ⟨fields, ht⟩
    obtain rfl : inner = .obj incoming := Option.some.inj (hinner.symm.trans hs)
    have hnormal := Json.normal_of_descend s.normal_toJson hinner
    have hname : incoming.lookup name = none := by
      cases hl : incoming.lookup name with
      | none => rfl
      | some next => rw [OptionTree.descend_cons_of_lookup hl] at hlacks; cases hlacks
    rw [ht]
    exact Json.descend_overlay_of_lacks (Json.ascending_of_normal hnormal) hname fields rest
  · intro h
    have hself : Json.overlay (descend t.toJson reach) inner = inner := by
      refine Json.overlay_eq_self (h.imp (fun hs fields he => ?_) fun ht fields he => ?_)
      · exact hs ⟨fields, by rw [hinner, he]⟩
      · exact ht ⟨fields, he⟩
    rw [hself, ← List.singleton_append, OptionTree.descend_append, hlacks]
    rfl

namespace Sample

def layout : OptionTree :=
  (OptionTree.empty.set "tags" (.str "none")).set "ams"
    (.obj [("multlineIndent", .str "1em"), ("multlineWidth", .str "100%")])

/-- An option of the sub-tree is taken back, and the other one becomes a sub-tree. -/
def restyled : OptionTree :=
  (OptionTree.empty.set "tags" (.obj [("style", .obj [])])).set "ams"
    (.obj [("multlineWidth", .null)])

end Sample

open Sample in
/-- What the user leaves alone stays beside what was taken back. Nothing is below a value that is
no object, and nothing stays of the value that became a sub-tree. -/
theorem restyled_over_layout :
    let t := layout.overlay restyled
    descend t.toJson ["ams", "multlineWidth"] = some .null ∧
      descend t.toJson ["ams", "multlineIndent"] = some (.str "1em") ∧
      descend t.toJson ["ams", "multlineWidth", "unit"] = none ∧
      descend t.toJson ["tags", "style", "side"] = none ∧
      layout.applyUser restyled = .ok t := by
  intro t
  obtain ⟨hleaf, hrest, happlied⟩ := overlay_by_path layout restyled
  have hams : restyled.toJson.ObjectAt ["ams"] ∧ layout.toJson.ObjectAt ["ams"] :=
    ⟨⟨_, rfl⟩, ⟨_, rfl⟩⟩
  obtain ⟨-, hbeside⟩ := hrest ["ams", "multlineIndent"] rfl
  obtain ⟨-, hbelow⟩ := hrest ["ams", "multlineWidth", "unit"] rfl
  obtain ⟨-, hnew⟩ := hrest ["tags", "style", "side"] rfl
  obtain ⟨hbeside, -⟩ := hbeside ["ams"] (by decide)
  obtain ⟨-, hbelow⟩ := hbelow ["ams", "multlineWidth"] (by decide)
  obtain ⟨-, hnew⟩ := hnew ["tags", "style"] (by decide)
  have hok : ∃ result, layout.applyUser restyled = .ok result := ⟨_, rfl⟩
  obtain ⟨result, hok⟩ := hok
  have hnull : ∀ fields, Json.null ≠ .obj fields := by
    intro fields hf
    cases hf
  refine ⟨hleaf _ _ rfl hnull, (hbeside hams.1 hams.2).trans rfl, ?_, ?_, ?_⟩
  · exact hbelow (.inl (by rintro ⟨fields, hf⟩; cases hf))
  · exact hnew (.inr (by rintro ⟨fields, hf⟩; cases hf))
  · rw [hok, happlied result hok]

end ParserPackages
