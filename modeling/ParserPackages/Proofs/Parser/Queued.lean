import ParserPackages.Parser.Running
import ParserPackages.Proofs.Ranked.StableSort

/-!
# Which entries of a chain are new

Entries added to a chain are found again by crossing out one entry for every callable that was on
it. The entries of one priority can be looked at alone, for a callable is crossed out among those
only, and there the added ones come last. This needs each callable to have one priority.
-/
namespace ParserPackages

variable {α : Type}

/-- Entries of the same item have the same priority. -/
def Ranked.Consistent (l : List (Ranked α)) : Prop :=
  ∀ e ∈ l, ∀ e' ∈ l, e.item = e'.item → e.priority = e'.priority

variable [DecidableEq α]

instance (l : List (Ranked α)) : Decidable (Ranked.Consistent l) :=
  inferInstanceAs (Decidable (∀ e ∈ l, ∀ e' ∈ l, e.item = e'.item → e.priority = e'.priority))

theorem mem_of_mem_unaccounted {known : List α} {l : List (Ranked α)} {e : Ranked α}
    (h : e ∈ unaccounted known l) : e ∈ l := by
  induction l generalizing known with
  | nil => exact h
  | cons x rest ih =>
    simp only [unaccounted] at h
    split at h
    · exact List.mem_cons_of_mem x (ih h)
    · rcases List.mem_cons.1 h with rfl | h
      · exact List.mem_cons_self ..
      · exact List.mem_cons_of_mem x (ih h)

/-- Items of another kind do not matter. -/
theorem filter_unaccounted (q : α → Bool) (known : List α) (l : List (Ranked α)) :
    (unaccounted known l).filter (q ·.item) =
      unaccounted (known.filter q) (l.filter (q ·.item)) := by
  induction l generalizing known with
  | nil => rfl
  | cons e rest ih =>
    by_cases hq : q e.item = true
    · simp only [unaccounted, List.filter_cons, hq, if_true, List.mem_filter, and_true]
      split
      · rw [ih, List.erase_filter]
      · rw [List.filter_cons, if_pos hq, ih]
    · have herase : (known.erase e.item).filter q = known.filter q := by
        rw [← List.erase_filter, List.erase_of_not_mem]
        simp [hq]
      simp only [unaccounted, List.filter_cons, hq, Bool.false_eq_true, if_false]
      split
      · rw [ih, herase]
      · rw [List.filter_cons, if_neg hq, ih]

theorem unaccounted_append (l m : List (Ranked α)) :
    unaccounted (l.map (·.item)) (l ++ m) = m := by
  induction l with
  | nil =>
    induction m with
    | nil => rfl
    | cons e rest ih => simpa [unaccounted] using ih
  | cons e rest ih => simpa [unaccounted] using ih

theorem Chain.queuedSince_self (chain : Chain α) : chain.queuedSince chain = .empty := by
  have h := unaccounted_append chain.entries []
  rw [List.append_nil] at h
  rw [queuedSince, RankedList.items, h]
  rfl

theorem Chain.queuedSince_empty (chain : Chain α) : Chain.queuedSince .empty chain = chain := by
  have h := unaccounted_append [] chain.entries
  rw [List.map_nil, List.nil_append] at h
  apply RankedList.ext
  rw [queuedSince, RankedList.items, RankedList.entries_empty, List.map_nil, h,
    RankedList.entries_ofEntries]
  exact Ranked.sort_of_pairwise chain.sorted

/-- One entry of each priority at a time, what is left over is what was inserted. -/
theorem filter_unaccounted_insertAll (before : RankedList α) {added : List (Ranked α)}
    (h : Ranked.Consistent (before.entries ++ added)) (p : Priority) :
    (unaccounted before.items (before.insertAll added).entries).filter (·.priority = p) =
      added.filter (·.priority = p) := by
  -- an item has priority `p` when some entry of it does
  let q (a : α) : Bool := (before.entries ++ added).any fun e => e.item = a ∧ e.priority = p
  have hq (e : Ranked α) (he : e ∈ before.entries ++ added) :
      q e.item = decide (e.priority = p) := by
    rw [Bool.eq_iff_iff, List.any_eq_true, decide_eq_true_eq]
    constructor
    · rintro ⟨e', he', hp⟩
      rw [decide_eq_true_eq] at hp
      rw [h e he e' he' hp.1.symm, hp.2]
    · intro hp
      exact ⟨e, he, by simp [hp]⟩
  have hmem (e : Ranked α) (he : e ∈ (before.insertAll added).entries) :
      e ∈ before.entries ++ added := by
    rwa [RankedList.entries_insertAll, Ranked.mem_sort] at he
  have hbefore : before.items.filter q = (before.entries.filter (·.priority = p)).map (·.item) := by
    rw [RankedList.items, List.filter_map]
    exact congrArg _ (List.filter_congr fun e he => hq e (List.mem_append_left _ he))
  have hafter : (before.insertAll added).entries.filter (q ·.item) =
      before.entries.filter (·.priority = p) ++ added.filter (·.priority = p) := by
    rw [← RankedList.filter_insertAll]
    exact List.filter_congr fun e he => hq e (hmem e he)
  calc (unaccounted before.items (before.insertAll added).entries).filter (·.priority = p)
      = (unaccounted before.items (before.insertAll added).entries).filter (q ·.item) :=
        List.filter_congr fun e he => (hq e (hmem e (mem_of_mem_unaccounted he))).symm
    _ = added.filter (·.priority = p) := by
        rw [filter_unaccounted, hbefore, hafter, unaccounted_append]

/-- What was inserted into a chain is found again, in the order of a chain of its own. -/
theorem queuedSince_insertAll (before : Chain α) {added : List (Ranked α)}
    (h : Ranked.Consistent (before.entries ++ added)) :
    Chain.queuedSince before (before.insertAll added) = .ofEntries added := by
  apply RankedList.ext
  rw [Chain.queuedSince, RankedList.entries_ofEntries, RankedList.entries_ofEntries]
  refine Ranked.eq_of_filter_eq (Ranked.pairwise_sort _) (Ranked.pairwise_sort _) fun p => ?_
  rw [Ranked.filter_sort, Ranked.filter_sort, filter_unaccounted_insertAll before h]

end ParserPackages
