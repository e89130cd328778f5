import ParserPackages.OptionTree.Basic

/-!
# Looking up in merged maps

What is found at a key after one map has been merged into another: the incoming value first where
incoming values replace, the present one first where only missing keys are added.
-/
namespace ParserPackages

variable {α : Type}

namespace Keyed

theorem lookup_put (key other : String) (value : α) (pairs : List (String × α)) :
    (put key value pairs).lookup other =
      if other = key then some value else pairs.lookup other := by
  by_cases h : other = key
  · rw [if_pos h, h, lookup_put_self]
  · rw [if_neg h, lookup_put_of_ne h]

theorem lookup_eq_none_of_lt {key : String} {pairs : List (String × α)}
    (h : ∀ p ∈ pairs, key < p.1) : pairs.lookup key = none := by
  rw [List.lookup_eq_none_iff]
  intro p hp
  exact bne_iff_ne.2 (String.ne_of_lt (h p hp))

theorem lookup_of_mem {pairs : List (String × α)} (h : Ascending pairs) {p : String × α}
    (hp : p ∈ pairs) : pairs.lookup p.1 = some p.2 := by
  induction pairs with
  | nil => exact absurd hp List.not_mem_nil
  | cons q rest ih =>
    obtain ⟨k, v⟩ := q
    obtain ⟨hhead, htail⟩ := List.pairwise_cons.1 h
    rcases List.mem_cons.1 hp with rfl | hp
    · simp
    · rw [List.lookup_cons, beq_eq_false_iff_ne.2 (String.ne_of_lt (hhead p hp)).symm]
      exact ih htail hp

theorem mem_of_lookup {pairs : List (String × α)} {key : String} {value : α}
    (h : pairs.lookup key = some value) : (key, value) ∈ pairs := by
  obtain ⟨before, after, rfl, -⟩ := List.lookup_eq_some_iff.1 h
  exact List.mem_append_cons_self

private theorem not_lt_of_lookup {p : String × α} {rest : List (String × α)}
    (h : Ascending (p :: rest)) {key : String} {value : α}
    (hl : (p :: rest).lookup key = some value) : ¬ key < p.1 := by
  intro hlt
  have hnone : (p :: rest).lookup key = none := by
    refine lookup_eq_none_of_lt (List.forall_mem_cons.2 ⟨hlt, fun q hq => ?_⟩)
    exact String.lt_trans hlt ((List.pairwise_cons.1 h).1 q hq)
  rw [hl] at hnone
  cases hnone

/-- Pairs in order of their keys are determined by what is found at the keys. -/
theorem ext_lookup {pairs others : List (String × α)} (hp : Ascending pairs)
    (ho : Ascending others) (h : ∀ key, pairs.lookup key = others.lookup key) :
    pairs = others := by
  induction pairs generalizing others with
  | nil =>
    cases others with
    | nil => rfl
    | cons q rest => cases (h q.1).trans (lookup_of_mem ho (List.mem_cons_self ..))
  | cons p rest ih =>
    cases others with
    | nil => cases (h p.1).symm.trans (lookup_of_mem hp (List.mem_cons_self ..))
    | cons q others =>
      have hpl := lookup_of_mem hp (List.mem_cons_self ..)
      have hql := lookup_of_mem ho (List.mem_cons_self ..)
      have hkey : p.1 = q.1 := String.le_antisymm
        (String.not_lt.1 (not_lt_of_lookup hp ((h q.1).trans hql)))
        (String.not_lt.1 (not_lt_of_lookup ho ((h p.1).symm.trans hpl)))
      have hvalue : p.2 = q.2 := by
        rw [h, hkey, hql] at hpl
        exact (Option.some.inj hpl).symm
      obtain ⟨hphead, hptail⟩ := List.pairwise_cons.1 hp
      obtain ⟨hqhead, hqtail⟩ := List.pairwise_cons.1 ho
      have htail (key : String) : rest.lookup key = others.lookup key := by
        by_cases hk : key = p.1
        · rw [lookup_eq_none_of_lt (hk ▸ hphead), lookup_eq_none_of_lt (hk.trans hkey ▸ hqhead)]
        · have hcons := h key
          rwa [List.lookup_cons, List.lookup_cons, beq_eq_false_iff_ne.2 hk,
            beq_eq_false_iff_ne.2 (hkey ▸ hk)] at hcons
      rw [Prod.ext hkey hvalue, ih hptail hqtail htail]

theorem lookup_putAll {incoming : List (String × α)} (h : Ascending incoming)
    (pairs : List (String × α)) (key : String) :
    (putAll pairs incoming).lookup key = (incoming.lookup key).or (pairs.lookup key) := by
  induction incoming generalizing pairs with
  | nil => rfl
  | cons p rest ih =>
    obtain ⟨k, v⟩ := p
    obtain ⟨hhead, htail⟩ := List.pairwise_cons.1 h
    change (putAll (put k v pairs) rest).lookup key = _
    rw [ih htail, lookup_put, List.lookup_cons]
    by_cases hk : key = k
    · subst hk
      rw [lookup_eq_none_of_lt hhead]
      simp
    · rw [if_neg hk, beq_eq_false_iff_ne.2 hk]

theorem lookup_fill (pairs incoming : List (String × α)) (key : String) :
    (fill pairs incoming).lookup key = (pairs.lookup key).or (incoming.lookup key) := by
  induction incoming generalizing pairs with
  | nil => simp [fill]
  | cons p rest ih =>
    obtain ⟨k, v⟩ := p
    change (fill (if (pairs.lookup k).isSome then pairs else put k v pairs) rest).lookup key = _
    rw [ih, List.lookup_cons]
    by_cases hk : key = k
    · subst hk
      cases h : pairs.lookup key with
      | none => simp
      | some value => simp [h]
    · rw [beq_eq_false_iff_ne.2 hk]
      split
      · rfl
      · rw [lookup_put_of_ne hk]

end Keyed

theorem KeyMap.get?_insert (m : KeyMap α) (key other : String) (value : α) :
    (m.insert key value).get? other =
      (if other = key then some value else none).or (m.get? other) := by
  rw [KeyMap.get?, KeyMap.insert, Keyed.lookup_put]
  split <;> rfl

theorem KeyMap.get?_overwrite (m incoming : KeyMap α) (key : String) :
    (m.overwrite incoming).get? key = (incoming.get? key).or (m.get? key) :=
  Keyed.lookup_putAll incoming.ascending m.pairs key

theorem KeyMap.get?_fill (m incoming : KeyMap α) (key : String) :
    (m.fill incoming).get? key = (m.get? key).or (incoming.get? key) :=
  Keyed.lookup_fill m.pairs incoming.pairs key

theorem KeyMap.ext_get? {m n : KeyMap α} (h : ∀ key, m.get? key = n.get? key) : m = n :=
  KeyMap.ext (Keyed.ext_lookup m.ascending n.ascending h)

theorem OptionTree.get?_fill (t defaults : OptionTree) (name : String) :
    (t.fill defaults).get? name = (t.get? name).or (defaults.get? name) :=
  Keyed.lookup_fill t.fields defaults.fields name

end ParserPackages
