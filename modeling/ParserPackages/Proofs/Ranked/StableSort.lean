import ParserPackages.Ranked

/-!
# Ranked lists are stable sorts

Inserting entries one after the other sorts them by priority and leaves equal priorities in the
order of insertion. The argument looks at one priority at a time: a sorted list is determined by
its entries of each priority, and insertion adds to the end of one of these parts.
-/
namespace ParserPackages

variable {α : Type}

namespace Ranked

/-- Entries in ascending order of priority, equal priorities in the given order. -/
def sort (l : List (Ranked α)) : List (Ranked α) :=
  l.mergeSort fun a b => a.priority ≤ b.priority

@[simp] theorem sort_nil : sort ([] : List (Ranked α)) = [] := List.mergeSort_nil

theorem sort_perm (l : List (Ranked α)) : (sort l).Perm l := List.mergeSort_perm l _

theorem mem_sort {e : Ranked α} {l : List (Ranked α)} : e ∈ sort l ↔ e ∈ l := (sort_perm l).mem_iff

private theorem precedes_trans (a b c : Ranked α) (hab : decide (a.priority ≤ b.priority) = true)
    (hbc : decide (b.priority ≤ c.priority) = true) : decide (a.priority ≤ c.priority) = true := by
  simp only [decide_eq_true_eq] at hab hbc ⊢
  exact Int32.le_trans hab hbc

private theorem precedes_total (a b : Ranked α) :
    (decide (a.priority ≤ b.priority) || decide (b.priority ≤ a.priority)) = true := by
  simpa using Int32.le_total a.priority b.priority

theorem pairwise_sort (l : List (Ranked α)) :
    (sort l).Pairwise fun a b => a.priority ≤ b.priority := by
  simpa [sort] using List.pairwise_mergeSort precedes_trans precedes_total l

/-- Sorting is stable: the entries of one priority keep their order. -/
theorem filter_sort (l : List (Ranked α)) (p : Priority) :
    (sort l).filter (·.priority = p) = l.filter (·.priority = p) := by
  have hsame : (l.filter (·.priority = p)).Pairwise
      fun a b => decide (a.priority ≤ b.priority) = true := by
    refine List.pairwise_of_forall_mem_list fun a ha b hb => ?_
    simp only [List.mem_filter, decide_eq_true_eq] at ha hb ⊢
    rw [ha.2, hb.2]
    exact Int32.le_refl p
  have hsub : (l.filter (·.priority = p)).Sublist (sort l) :=
    List.sublist_mergeSort precedes_trans precedes_total hsame List.filter_sublist
  have hpart := hsub.filter (·.priority = p)
  rw [List.filter_filter] at hpart
  simp only [Bool.and_self] at hpart
  exact (hpart.eq_of_length ((sort_perm l).filter _).length_eq.symm).symm

theorem mem_iff_of_filter_eq {l m : List (Ranked α)}
    (h : ∀ p, l.filter (·.priority = p) = m.filter (·.priority = p)) (e : Ranked α) :
    e ∈ l ↔ e ∈ m := by
  have hp := congrArg (e ∈ ·) (h e.priority)
  simpa [List.mem_filter] using hp

/-- A sorted list is determined by its entries of each priority. -/
theorem eq_of_filter_eq {l m : List (Ranked α)}
    (hl : l.Pairwise fun a b => a.priority ≤ b.priority)
    (hm : m.Pairwise fun a b => a.priority ≤ b.priority)
    (h : ∀ p, l.filter (·.priority = p) = m.filter (·.priority = p)) : l = m := by
  induction l generalizing m with
  | nil =>
    have hnil : m = [] := List.eq_nil_iff_forall_not_mem.2 fun e he =>
      List.not_mem_nil ((mem_iff_of_filter_eq h e).2 he)
    rw [hnil]
  | cons a l ih =>
    cases m with
    | nil => exact absurd ((mem_iff_of_filter_eq h a).1 (List.mem_cons_self ..)) List.not_mem_nil
    | cons b m =>
      obtain ⟨hal, hl'⟩ := List.pairwise_cons.1 hl
      obtain ⟨hbm, hm'⟩ := List.pairwise_cons.1 hm
      have hab : a.priority ≤ b.priority := by
        rcases List.mem_cons.1 ((mem_iff_of_filter_eq h b).2 (List.mem_cons_self ..)) with hb | hb
        · rw [hb]; exact Int32.le_refl _
        · exact hal b hb
      have hba : b.priority ≤ a.priority := by
        rcases List.mem_cons.1 ((mem_iff_of_filter_eq h a).1 (List.mem_cons_self ..)) with ha | ha
        · rw [ha]; exact Int32.le_refl _
        · exact hbm a ha
      -- both heads have the lowest priority, so each is the first of its part
      have hhead := h a.priority
      simp only [List.filter_cons, Int32.le_antisymm hba hab, decide_true, if_true,
        List.cons.injEq] at hhead
      obtain ⟨rfl, -⟩ := hhead
      have htail (p : Priority) : l.filter (·.priority = p) = m.filter (·.priority = p) := by
        have hp := h p
        simp only [List.filter_cons] at hp
        split at hp
        · exact (List.cons.inj hp).2
        · exact hp
      rw [ih hl' hm' htail]

theorem sort_of_pairwise {l : List (Ranked α)} (h : l.Pairwise fun a b => a.priority ≤ b.priority) :
    sort l = l :=
  eq_of_filter_eq (pairwise_sort l) h (filter_sort l)

theorem sort_concat {l : List (Ranked α)} {e : Ranked α} (h : ∀ x ∈ l, x.priority ≤ e.priority) :
    sort (l ++ [e]) = sort l ++ [e] := by
  refine eq_of_filter_eq (pairwise_sort _) ?_ fun p => ?_
  · refine List.pairwise_append.2 ⟨pairwise_sort l, List.pairwise_singleton _ e, ?_⟩
    intro x hx y hy
    rw [List.mem_singleton.1 hy]
    exact h x (mem_sort.1 hx)
  · rw [filter_sort, List.filter_append, List.filter_append, filter_sort]

end Ranked

namespace RankedList

theorem sublist_place (entry : Ranked α) (l : List (Ranked α)) : l.Sublist (place entry l) := by
  induction l with
  | nil => exact List.nil_sublist _
  | cons x rest ih =>
    simp only [place]
    split
    · exact ih.cons_cons x
    · exact List.sublist_cons_self entry (x :: rest)

/-- Inserting leaves the order of what is there. -/
theorem sublist_insertAll (l : RankedList α) (entries : List (Ranked α)) :
    l.entries.Sublist (l.insertAll entries).entries := by
  induction entries generalizing l with
  | nil => exact List.Sublist.refl _
  | cons e rest ih => exact (sublist_place e l.entries).trans (ih (l.insertEntry e))

theorem filter_place (entry : Ranked α) {l : List (Ranked α)}
    (h : l.Pairwise fun a b => a.priority ≤ b.priority) (p : Priority) :
    (place entry l).filter (·.priority = p) =
      l.filter (·.priority = p) ++ [entry].filter (·.priority = p) := by
  induction l with
  | nil => rfl
  | cons x rest ih =>
    obtain ⟨hhead, htail⟩ := List.pairwise_cons.1 h
    simp only [place]
    split
    · rw [List.filter_cons, List.filter_cons, ih htail]
      split <;> rfl
    · rename_i hle
      -- every entry from `x` on is of a higher priority than the new one
      by_cases hp : entry.priority = p
      · have hnone : (x :: rest).filter (·.priority = p) = [] := by
          rw [List.filter_eq_nil_iff]
          intro e he hep
          rw [decide_eq_true_eq] at hep
          apply hle
          rw [hp, ← hep]
          rcases List.mem_cons.1 he with rfl | he
          · exact Int32.le_refl _
          · exact hhead e he
        rw [List.filter_cons, if_pos (by simpa using hp), hnone]
        simp [hp]
      · simp [hp]

theorem filter_insertAll (l : RankedList α) (entries : List (Ranked α)) (p : Priority) :
    (l.insertAll entries).entries.filter (·.priority = p) =
      l.entries.filter (·.priority = p) ++ entries.filter (·.priority = p) := by
  induction entries generalizing l with
  | nil => simp [insertAll]
  | cons e rest ih =>
    change ((l.insertEntry e).insertAll rest).entries.filter _ = _
    rw [ih, entries_insertEntry, filter_place e l.sorted, List.append_assoc, ← List.filter_append,
      List.singleton_append]

/-- Inserting into a ranked list sorts the new entries in behind the old ones. -/
theorem entries_insertAll (l : RankedList α) (entries : List (Ranked α)) :
    (l.insertAll entries).entries = Ranked.sort (l.entries ++ entries) := by
  refine Ranked.eq_of_filter_eq (l.insertAll entries).sorted (Ranked.pairwise_sort _) fun p => ?_
  rw [filter_insertAll, Ranked.filter_sort, List.filter_append]

theorem entries_ofEntries (entries : List (Ranked α)) :
    (ofEntries entries).entries = Ranked.sort entries := by
  rw [ofEntries, entries_insertAll, entries_empty, List.nil_append]

theorem items_ofEntries (entries : List (Ranked α)) :
    (ofEntries entries).items = (Ranked.sort entries).map (·.item) := by
  rw [items, entries_ofEntries]

theorem insertAll_append (l : RankedList α) (first second : List (Ranked α)) :
    l.insertAll (first ++ second) = (l.insertAll first).insertAll second :=
  List.foldl_append ..

theorem ofEntries_append (first second : List (Ranked α)) :
    ofEntries (first ++ second) = (ofEntries first).insertAll second :=
  insertAll_append ..

end RankedList
end ParserPackages
