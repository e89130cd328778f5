import Mathlib.Data.List.Perm.Basic
import ParserPackages.Proofs.Parser.Queued

/-!
# Crossing out by exchange

The known callables are a working list: one that is met on the later chain is crossed out by moving
the last one to its place, so the list loses its order on the way. What is left over depends only on
how often each callable is known, and so it is what is left over when the order is kept.
-/
namespace ParserPackages

variable {α : Type}

/-- Removes the item at an index by moving the last item there. -/
def swapRemove (l : List α) (i : Nat) : List α :=
  match l.getLast? with
  | none => []
  | some last => (l.set i last).dropLast

theorem swapRemove_perm {l : List α} {i : Nat} (h : i < l.length) :
    (swapRemove l i).Perm (l.eraseIdx i) := by
  have hne : l ≠ [] := List.ne_nil_of_length_pos (Nat.zero_lt_of_lt h)
  obtain ⟨init, last, rfl⟩ := l.eq_nil_or_concat'.resolve_left hne
  simp only [swapRemove, List.getLast?_concat]
  by_cases hi : i < init.length
  · rw [List.set_append_left i last hi, List.eraseIdx_append_of_lt_length hi]
    simpa using (List.set_perm_cons_eraseIdx hi last).trans (List.perm_append_singleton last _).symm
  · have hlast : i = init.length := by
      rw [List.length_append, List.length_singleton] at h
      omega
    subst hlast
    simp [List.eraseIdx_append_of_length_le]

variable [DecidableEq α]

/-- An item that is found is removed once. -/
theorem swapRemove_perm_erase {l : List α} {a : α} {i : Nat} (h : l.idxOf? a = some i) :
    (swapRemove l i).Perm (l.erase a) := by
  obtain ⟨hi, rfl, -⟩ := List.idxOf?_eq_some_iff.1 h
  have herase : (l[i] :: l.eraseIdx i).Perm (l[i] :: l.erase l[i]) :=
    (List.getElem_cons_eraseIdx_perm hi).trans (List.perm_cons_erase (List.getElem_mem hi))
  exact (swapRemove_perm hi).trans herase.cons_inv

/-- The order of the known callables does not matter. -/
theorem unaccounted_perm {known others : List α} (h : known.Perm others) (l : List (Ranked α)) :
    unaccounted known l = unaccounted others l := by
  induction l generalizing known others with
  | nil => rfl
  | cons entry rest ih =>
    simp only [unaccounted, h.mem_iff]
    split
    · exact ih (h.erase entry.item)
    · rw [ih h]

namespace Chain

/-- One round over the later chain: the callables not crossed out so far and the chain of new
entries, after one more entry has been met. -/
def crossOut (state : List α × Chain α) (entry : Ranked α) : List α × Chain α :=
  match state.1.idxOf? entry.item with
  | some i => (swapRemove state.1 i, state.2)
  | none => (state.1, state.2.insertEntry entry)

/-- The entries of a chain that were not on it before, by crossing out one callable after the
other. -/
def queuedByExchange (before after : Chain α) : Chain α :=
  (after.entries.foldl crossOut (before.items, .empty)).2

/-- Every entry that is not accounted for joins the new ones. -/
theorem foldl_crossOut (known : List α) (fresh : Chain α) (l : List (Ranked α)) :
    (l.foldl crossOut (known, fresh)).2 = fresh.insertAll (unaccounted known l) := by
  induction l generalizing known fresh with
  | nil => rfl
  | cons entry rest ih =>
    rw [List.foldl_cons, crossOut, unaccounted]
    cases hi : known.idxOf? entry.item with
    | none =>
      rw [if_neg (List.idxOf?_eq_none_iff.1 hi)]
      exact ih known (fresh.insertEntry entry)
    | some i =>
      have hknown : entry.item ∈ known :=
        List.isSome_idxOf?.1 (Option.isSome_iff_exists.2 ⟨i, hi⟩)
      rw [if_pos hknown, ← unaccounted_perm (swapRemove_perm_erase hi)]
      exact ih (swapRemove known i) fresh

theorem queuedByExchange_eq (before after : Chain α) :
    before.queuedByExchange after = before.queuedSince after :=
  foldl_crossOut before.items .empty after.entries

end Chain

/-- Whatever is added to a chain, in any order and any number of times, is found again as the chain
that it makes on its own, as long as every callable has one priority. It does not matter that
crossing out moves the known callables. -/
theorem additions_found_again (before : Chain α) (added : List (Ranked α))
    (h : Ranked.Consistent (before.entries ++ added)) :
    before.queuedSince (before.insertAll added) = .ofEntries added ∧
      before.queuedByExchange (before.insertAll added) = .ofEntries added := by
  have hqueued := queuedSince_insertAll before h
  exact ⟨hqueued, (before.queuedByExchange_eq _).trans hqueued⟩

/-- Callables that were on the chain come again, among others of their priority. Crossing out the
first one moves the last one in front. -/
theorem repeated_additions_found_again :
    let before : Chain String := .ofEntries [⟨"a", 5⟩, ⟨"b", 5⟩, ⟨"a", 5⟩, ⟨"late", 7⟩]
    let added : List (Ranked String) := [⟨"late", 7⟩, ⟨"a", 5⟩, ⟨"early", -1⟩, ⟨"c", 5⟩, ⟨"a", 5⟩]
    Ranked.Consistent (before.entries ++ added) ∧
      swapRemove before.items 0 = ["late", "b", "a"] ∧
      (before.queuedByExchange (before.insertAll added)).entries =
        [⟨"early", -1⟩, ⟨"a", 5⟩, ⟨"c", 5⟩, ⟨"a", 5⟩, ⟨"late", 7⟩] := by
  intro before added
  have h : Ranked.Consistent (before.entries ++ added) := by decide
  obtain ⟨-, hexchange⟩ := additions_found_again before added h
  exact ⟨h, by decide, (congrArg RankedList.entries hexchange).trans (by decide)⟩

/-- A callable with two priorities is found again at the later one, whichever was added. -/
example : Chain.queuedSince (.ofEntries [⟨"a", 5⟩]) (.ofEntries [⟨"a", 5⟩, ⟨"a", 1⟩]) =
    .ofEntries [⟨"a", 5⟩] := by decide

end ParserPackages
