import ParserPackages.Proofs.Ranked.StableSort

/-!
# Ranked lists by insertion at a partition point

Every bound on the priority cuts a ranked list in two, the entries up to the bound and those above
it. So the walk to the place of a new entry ends where any search for that cut ends, halving
included. Whatever finds the cut builds the one stable sort of the entries inserted, and two
sequences of insertions build the same list exactly if they agree at every single priority.
-/
namespace ParserPackages

variable {α : Type}

namespace Ranked

def itemsAt (p : Priority) (entries : List (Ranked α)) : List α :=
  (entries.filter (·.priority = p)).map (·.item)

theorem filter_eq_map_itemsAt (p : Priority) (entries : List (Ranked α)) :
    entries.filter (·.priority = p) = (itemsAt p entries).map (⟨·, p⟩) := by
  have hsame : ∀ e ∈ entries.filter (·.priority = p), (⟨e.item, p⟩ : Ranked α) = e := by
    intro e he
    rw [← of_decide_eq_true (List.mem_filter.1 he).2]
  rw [itemsAt, List.map_map]
  exact ((List.map_congr_left hsame).trans (List.map_id' _)).symm

theorem itemsAt_eq_iff {entries others : List (Ranked α)} :
    (∀ p, itemsAt p entries = itemsAt p others) ↔
      ∀ p, entries.filter (·.priority = p) = others.filter (·.priority = p) := by
  constructor
  · intro h p
    rw [filter_eq_map_itemsAt, filter_eq_map_itemsAt, h]
  · intro h p
    rw [itemsAt, h, itemsAt]

/-- The second list has the entries of the first one in ascending order of priority, and those of
equal priority in their old order. -/
structure IsStableSort (entries sorted : List (Ranked α)) : Prop where
  perm : sorted.Perm entries
  ascending : sorted.Pairwise fun a b => a.priority ≤ b.priority
  stable : ∀ p, itemsAt p sorted = itemsAt p entries

theorem isStableSort_sort (entries : List (Ranked α)) : IsStableSort entries (sort entries) where
  perm := sort_perm entries
  ascending := pairwise_sort entries
  stable := itemsAt_eq_iff.2 (filter_sort entries)

/-- There is no other stable sort. -/
theorem IsStableSort.eq_sort {entries sorted : List (Ranked α)} (h : IsStableSort entries sorted) :
    sorted = sort entries := by
  refine eq_of_filter_eq h.ascending (pairwise_sort entries) fun p => ?_
  rw [filter_sort, itemsAt_eq_iff.1 h.stable]

/-- Sorted lists are equal exactly if the unsorted ones have the same items at every priority. -/
theorem sort_eq_sort_iff {entries others : List (Ranked α)} :
    sort entries = sort others ↔ ∀ p, itemsAt p entries = itemsAt p others := by
  rw [itemsAt_eq_iff]
  constructor
  · intro h p
    rw [← filter_sort, h, filter_sort]
  · intro h
    refine eq_of_filter_eq (pairwise_sort entries) (pairwise_sort others) fun p => ?_
    rw [filter_sort, filter_sort, h]

/-- Finds the index at which a list changes from entries with a property to entries without it,
wherever the list changes only once. -/
def FindsPartition (point : List (Ranked α) → (Ranked α → Bool) → Nat) : Prop :=
  ∀ (holds : Ranked α → Bool) (front back : List (Ranked α)),
    (∀ e ∈ front, holds e = true) → (∀ e ∈ back, holds e = false) →
      point (front ++ back) holds = front.length

/-- Inserts an entry at the point where the priorities change from those up to its own to higher
ones. -/
def insertAtPoint (point : List (Ranked α) → (Ranked α → Bool) → Nat) (l : List (Ranked α))
    (entry : Ranked α) : List (Ranked α) :=
  l.insertIdx (point l (·.priority ≤ entry.priority)) entry

theorem exists_partition (bound : Priority) {l : List (Ranked α)}
    (h : l.Pairwise fun a b => a.priority ≤ b.priority) :
    ∃ front back, l = front ++ back ∧
      (∀ e ∈ front, e.priority ≤ bound) ∧ ∀ e ∈ back, ¬ e.priority ≤ bound := by
  induction l with
  | nil => exact ⟨[], [], rfl, List.forall_mem_nil _, List.forall_mem_nil _⟩
  | cons x rest ih =>
    obtain ⟨hhead, htail⟩ := List.pairwise_cons.1 h
    by_cases hx : x.priority ≤ bound
    · obtain ⟨front, back, rfl, hfront, hback⟩ := ih htail
      exact ⟨x :: front, back, rfl, List.forall_mem_cons.2 ⟨hx, hfront⟩, hback⟩
    · refine ⟨[], x :: rest, rfl, List.forall_mem_nil _, List.forall_mem_cons.2 ⟨hx, ?_⟩⟩
      exact fun e he hle => hx (Int32.le_trans (hhead e he) hle)

/-! ## Halving -/

/-- Searches `size` indices from `base` on for the first one at which `holds` fails, by looking at
the middle one. -/
def halve (holds : Nat → Bool) (base size : Nat) : Nat :=
  if 1 < size then
    if holds (base + size / 2) then halve holds (base + size / 2) (size - size / 2)
    else halve holds base (size - size / 2)
  else if holds base then base + 1 else base
termination_by size

/-- The change stays between the bounds until they meet. -/
theorem halve_eq {holds : Nat → Bool} {index : Nat} (h : ∀ i, holds i = true ↔ i < index)
    (base size : Nat) (hbase : base ≤ index) (hsize : index ≤ base + size) :
    halve holds base size = index := by
  fun_induction halve holds base size with
  | case1 base size hlt hmid ih =>
    have hbelow := (h _).1 hmid
    exact ih (by omega) (by omega)
  | case2 base size hlt hmid ih =>
    have habove : ¬ base + size / 2 < index := fun hi => hmid ((h _).2 hi)
    exact ih (by omega) (by omega)
  | case3 base size hlt hlast =>
    have hbelow := (h _).1 hlast
    omega
  | case4 base size hlt hlast =>
    have habove : ¬ base < index := fun hi => hlast ((h _).2 hi)
    omega

def halvingPoint (l : List (Ranked α)) (holds : Ranked α → Bool) : Nat :=
  halve (fun i => l[i]?.any holds) 0 l.length

theorem findsPartition_halvingPoint : FindsPartition (halvingPoint (α := α)) := by
  intro holds front back hfront hback
  refine halve_eq (fun i => ?_) 0 _ (Nat.zero_le _) (by simp)
  by_cases hi : i < front.length
  · have hholds := hfront _ (List.getElem_mem hi)
    simp [List.getElem?_append_left hi, hi, hholds]
  · rw [List.getElem?_append_right (Nat.le_of_not_lt hi), Option.any_eq_true]
    refine iff_of_false ?_ hi
    rintro ⟨e, he, hholds⟩
    rw [hback e (List.mem_of_getElem? he)] at hholds
    cases hholds

end Ranked

namespace RankedList

open Ranked

variable {point : List (Ranked α) → (Ranked α → Bool) → Nat}

theorem place_append (entry : Ranked α) {front back : List (Ranked α)}
    (hfront : ∀ e ∈ front, e.priority ≤ entry.priority)
    (hback : ∀ e ∈ back, ¬ e.priority ≤ entry.priority) :
    place entry (front ++ back) = (front ++ back).insertIdx front.length entry := by
  induction front with
  | nil =>
    cases back with
    | nil => rfl
    | cons x back => exact if_neg (hback x List.mem_cons_self)
  | cons x front ih =>
    obtain ⟨hx, hrest⟩ := List.forall_mem_cons.1 hfront
    rw [List.cons_append, place, if_pos hx, ih hrest, List.length_cons, List.insertIdx_succ_cons]

/-- In a ranked list the walk to the place of an entry ends at the partition point. -/
theorem entries_insertEntry_eq_insertAtPoint (hpoint : FindsPartition point) (l : RankedList α)
    (entry : Ranked α) : (l.insertEntry entry).entries = insertAtPoint point l.entries entry := by
  obtain ⟨front, back, hl, hfront, hback⟩ := exists_partition entry.priority l.sorted
  have hindex : point (front ++ back) (·.priority ≤ entry.priority) = front.length :=
    hpoint _ front back (fun e he => decide_eq_true (hfront e he))
      fun e he => decide_eq_false (hback e he)
  rw [entries_insertEntry, insertAtPoint, hl, hindex, place_append entry hfront hback]

theorem entries_insertAll_eq_foldl (hpoint : FindsPartition point) (l : RankedList α)
    (entries : List (Ranked α)) :
    (l.insertAll entries).entries = entries.foldl (insertAtPoint point) l.entries := by
  induction entries generalizing l with
  | nil => rfl
  | cons e rest ih =>
    rw [List.foldl_cons, ← entries_insertEntry_eq_insertAtPoint hpoint]
    exact ih (l.insertEntry e)

/-- Inserting entries one after the other, each where a search for the partition point says, builds
their one and only stable sort. Two sequences build the same list exactly if they insert the same
items in the same order at every single priority. -/
theorem insertion_builds_stable_sort (hpoint : FindsPartition point)
    (entries : List (Ranked α)) :
    (ofEntries entries).entries = entries.foldl (insertAtPoint point) [] ∧
      (∀ sorted, IsStableSort entries sorted ↔ sorted = (ofEntries entries).entries) ∧
      ∀ others, ofEntries entries = ofEntries others ↔
        ∀ p, itemsAt p entries = itemsAt p others := by
  refine ⟨entries_insertAll_eq_foldl hpoint empty entries, fun sorted => ?_, fun others => ?_⟩
  · rw [entries_ofEntries]
    exact ⟨IsStableSort.eq_sort, fun h => h ▸ isStableSort_sort entries⟩
  · rw [← sort_eq_sort_iff, ← entries_ofEntries, ← entries_ofEntries]
    exact ⟨congrArg RankedList.entries, RankedList.ext⟩

/-- Extreme, negative and equal priorities, one item three times; `others` interleaves the
priorities in another way. -/
theorem interleavings_build_one_list :
    let entries : List (Ranked String) :=
      [⟨"late", Int32.maxValue⟩, ⟨"a", 5⟩, ⟨"b", 5⟩, ⟨"early", Int32.minValue⟩, ⟨"a", 5⟩, ⟨"a", -1⟩]
    let others : List (Ranked String) :=
      [⟨"a", -1⟩, ⟨"early", Int32.minValue⟩, ⟨"a", 5⟩, ⟨"b", 5⟩, ⟨"late", Int32.maxValue⟩, ⟨"a", 5⟩]
    let sorted : List (Ranked String) :=
      [⟨"early", Int32.minValue⟩, ⟨"a", -1⟩, ⟨"a", 5⟩, ⟨"b", 5⟩, ⟨"a", 5⟩, ⟨"late", Int32.maxValue⟩]
    FindsPartition (halvingPoint (α := String)) ∧
      entries.foldl (insertAtPoint halvingPoint) [] = sorted ∧
      IsStableSort entries sorted ∧
      entries ≠ others ∧
      ∀ p, itemsAt p entries = itemsAt p others := by
  intro entries others sorted
  obtain ⟨hfold, hsort, hequal⟩ :=
    insertion_builds_stable_sort findsPartition_halvingPoint entries
  have hsorted : (ofEntries entries).entries = sorted := by decide
  have hothers : ofEntries entries = ofEntries others := by decide
  exact ⟨findsPartition_halvingPoint, hfold.symm.trans hsorted, (hsort sorted).2 hsorted.symm,
    by decide, (hequal others).1 hothers⟩

end RankedList
end ParserPackages
