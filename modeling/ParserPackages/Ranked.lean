/-! # Ranked lists

Items in ascending order of a 32-bit priority. An inserted item goes behind every item of the same
or a lower priority, so equal priorities keep the order of insertion. -/

namespace ParserPackages

/-- Lower priorities come first. -/
abbrev Priority := Int32

def defaultPriority : Priority := 5

structure Ranked (α : Type) where
  item : α
  priority : Priority
  deriving DecidableEq, Repr

/-- Items in ascending order of priority. -/
structure RankedList (α : Type) where
  entries : List (Ranked α)
  sorted : entries.Pairwise fun a b => a.priority ≤ b.priority

namespace RankedList

variable {α : Type}

@[ext] theorem ext {l m : RankedList α} (h : l.entries = m.entries) : l = m := by
  cases l; cases m; cases h; rfl

instance [DecidableEq α] : DecidableEq (RankedList α) := fun l m =>
  decidable_of_iff (l.entries = m.entries) ⟨ext, fun h => h ▸ rfl⟩

def empty : RankedList α := ⟨[], List.Pairwise.nil⟩

instance : Inhabited (RankedList α) := ⟨empty⟩
instance : EmptyCollection (RankedList α) := ⟨empty⟩

/-- Puts an entry behind all that do not come after it. -/
def place (entry : Ranked α) : List (Ranked α) → List (Ranked α)
  | [] => [entry]
  | e :: rest => if e.priority ≤ entry.priority then e :: place entry rest else entry :: e :: rest

theorem mem_place {entry e : Ranked α} {l : List (Ranked α)} :
    e ∈ place entry l ↔ e = entry ∨ e ∈ l := by
  induction l with
  | nil => simp [place]
  | cons x rest ih =>
    simp only [place]
    split
    · simp only [List.mem_cons, ih]
      constructor
      · rintro (h | h | h) <;> simp [h]
      · rintro (h | h | h) <;> simp [h]
    · simp [List.mem_cons]

theorem sorted_place (entry : Ranked α) {l : List (Ranked α)}
    (h : l.Pairwise fun a b => a.priority ≤ b.priority) :
    (place entry l).Pairwise fun a b => a.priority ≤ b.priority := by
  induction l with
  | nil => simp [place]
  | cons x rest ih =>
    obtain ⟨hhead, htail⟩ := List.pairwise_cons.1 h
    simp only [place]
    split
    · rename_i hle
      refine List.pairwise_cons.2 ⟨fun e he => ?_, ih htail⟩
      rcases mem_place.1 he with rfl | he
      · exact hle
      · exact hhead e he
    · rename_i hle
      have hx : entry.priority ≤ x.priority :=
        (Int32.le_total entry.priority x.priority).resolve_right hle
      refine List.pairwise_cons.2 ⟨fun e he => ?_, h⟩
      rcases List.mem_cons.1 he with rfl | he
      · exact hx
      · exact Int32.le_trans hx (hhead e he)

def insertEntry (l : RankedList α) (entry : Ranked α) : RankedList α :=
  ⟨place entry l.entries, sorted_place entry l.sorted⟩

def insert (l : RankedList α) (item : α) (priority : Priority) : RankedList α :=
  l.insertEntry ⟨item, priority⟩

def push (l : RankedList α) (item : α) : RankedList α := l.insert item defaultPriority

def insertAll (l : RankedList α) (entries : List (Ranked α)) : RankedList α :=
  entries.foldl insertEntry l

/-- The ranked list of entries inserted in turn. -/
def ofEntries (entries : List (Ranked α)) : RankedList α := empty.insertAll entries

def items (l : RankedList α) : List α := l.entries.map (·.item)

def priorities (l : RankedList α) : List Priority := l.entries.map (·.priority)

def size (l : RankedList α) : Nat := l.entries.length

def isEmpty (l : RankedList α) : Bool := l.entries.isEmpty

@[simp] theorem entries_insertEntry (l : RankedList α) (entry : Ranked α) :
    (l.insertEntry entry).entries = place entry l.entries := rfl

@[simp] theorem entries_empty : (empty : RankedList α).entries = [] := rfl

end RankedList
end ParserPackages
