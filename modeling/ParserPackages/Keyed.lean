/-! # Lists ordered by key

Pairs in strictly ascending order of their text keys, compared by code point. `Keyed.put` is the
one way in, and `List.lookup` the one way out; the lemmas say how they meet. -/

namespace ParserPackages.Keyed

variable {α β : Type}

/-- Puts a value at a key: in place of the value there, else before the first greater key. -/
def put (key : String) (value : α) : List (String × α) → List (String × α)
  | [] => [(key, value)]
  | (k, v) :: rest =>
    if key < k then (key, value) :: (k, v) :: rest
    else if key = k then (key, value) :: rest
    else (k, v) :: put key value rest

def Ascending (pairs : List (String × α)) : Prop := pairs.Pairwise fun a b => a.1 < b.1

/-- Puts every pair in turn, later ones over earlier ones. -/
def putAll (pairs incoming : List (String × α)) : List (String × α) :=
  incoming.foldl (fun acc p => put p.1 p.2 acc) pairs

/-- Puts the pairs whose key is not there yet. -/
def fill (pairs incoming : List (String × α)) : List (String × α) :=
  incoming.foldl (fun acc p => if (acc.lookup p.1).isSome then acc else put p.1 p.2 acc) pairs

theorem lt_of_not_lt_of_ne {a b : String} (h : ¬ a < b) (hne : a ≠ b) : b < a := by
  rcases String.le_total a b with hab | hba
  · exact absurd (String.le_antisymm hab (String.not_lt.1 h)) hne
  · exact Decidable.byContradiction fun hlt => hne (String.le_antisymm (String.not_lt.1 hlt) hba)

@[simp] theorem lookup_put_self (key : String) (value : α) (pairs : List (String × α)) :
    (put key value pairs).lookup key = some value := by
  induction pairs with
  | nil => simp [put]
  | cons p rest ih =>
    obtain ⟨k, v⟩ := p
    by_cases h : key < k
    · simp [put, h]
    · by_cases hk : key = k
      · simp [put, hk]
      · simp [put, h, hk, List.lookup_cons, ih, beq_eq_false_iff_ne.2 hk]

theorem lookup_put_of_ne {key other : String} (h : other ≠ key) (value : α)
    (pairs : List (String × α)) : (put key value pairs).lookup other = pairs.lookup other := by
  have hb : (other == key) = false := beq_eq_false_iff_ne.2 h
  induction pairs with
  | nil => simp [put, List.lookup_cons, hb]
  | cons p rest ih =>
    obtain ⟨k, v⟩ := p
    by_cases hlt : key < k
    · simp [put, hlt, List.lookup_cons, hb]
    · by_cases hk : key = k
      · subst hk; simp [put, List.lookup_cons, hb]
      · simp [put, hlt, hk, List.lookup_cons, ih]

theorem mem_put {key : String} {value : α} {pairs : List (String × α)} {p : String × α}
    (h : p ∈ put key value pairs) : p = (key, value) ∨ p ∈ pairs := by
  induction pairs with
  | nil => simpa [put] using h
  | cons q rest ih =>
    obtain ⟨k, v⟩ := q
    simp only [put] at h
    split at h
    · simpa using h
    · split at h
      · rcases List.mem_cons.1 h with h | h
        · exact .inl h
        · exact .inr (List.mem_cons_of_mem _ h)
      · rcases List.mem_cons.1 h with h | h
        · exact .inr (h ▸ List.mem_cons_self ..)
        · exact (ih h).imp id (List.mem_cons_of_mem _)

theorem ascending_put {pairs : List (String × α)} (h : Ascending pairs) (key : String)
    (value : α) : Ascending (put key value pairs) := by
  induction pairs with
  | nil => simp [put, Ascending]
  | cons p rest ih =>
    obtain ⟨k, v⟩ := p
    obtain ⟨hhead, htail⟩ := List.pairwise_cons.1 h
    simp only [put]
    split
    · rename_i hlt
      refine List.pairwise_cons.2 ⟨fun q hq => ?_, h⟩
      rcases List.mem_cons.1 hq with rfl | hq
      · exact hlt
      · exact String.lt_trans hlt (hhead q hq)
    · split
      · rename_i heq
        exact List.pairwise_cons.2 ⟨fun q hq => heq ▸ hhead q hq, htail⟩
      · rename_i hlt hne
        refine List.pairwise_cons.2 ⟨fun q hq => ?_, ih htail⟩
        rcases mem_put hq with rfl | hq
        · exact lt_of_not_lt_of_ne hlt hne
        · exact hhead q hq

theorem ascending_putAll {pairs : List (String × α)} (h : Ascending pairs)
    (incoming : List (String × α)) : Ascending (putAll pairs incoming) := by
  induction incoming generalizing pairs with
  | nil => exact h
  | cons p rest ih => exact ih (ascending_put h p.1 p.2)

theorem ascending_fill {pairs : List (String × α)} (h : Ascending pairs)
    (incoming : List (String × α)) : Ascending (fill pairs incoming) := by
  induction incoming generalizing pairs with
  | nil => exact h
  | cons p rest ih =>
    simp only [fill, List.foldl_cons] at ih ⊢
    split
    · exact ih h
    · exact ih (ascending_put h p.1 p.2)

end ParserPackages.Keyed

namespace ParserPackages

/-- A finite map from texts, as its pairs in ascending order of keys. -/
structure KeyMap (α : Type) where
  pairs : List (String × α)
  ascending : Keyed.Ascending pairs

namespace KeyMap

variable {α β : Type}

@[ext] theorem ext {m n : KeyMap α} (h : m.pairs = n.pairs) : m = n := by
  cases m; cases n; cases h; rfl

instance [DecidableEq α] : DecidableEq (KeyMap α) := fun m n =>
  decidable_of_iff (m.pairs = n.pairs) ⟨ext, fun h => h ▸ rfl⟩

def empty : KeyMap α := ⟨[], List.Pairwise.nil⟩

instance : Inhabited (KeyMap α) := ⟨empty⟩
instance : EmptyCollection (KeyMap α) := ⟨empty⟩

def get? (m : KeyMap α) (key : String) : Option α := m.pairs.lookup key

def contains (m : KeyMap α) (key : String) : Bool := (m.get? key).isSome

def insert (m : KeyMap α) (key : String) (value : α) : KeyMap α :=
  ⟨Keyed.put key value m.pairs, Keyed.ascending_put m.ascending key value⟩

def keys (m : KeyMap α) : List String := m.pairs.map (·.1)

def size (m : KeyMap α) : Nat := m.pairs.length

def isEmpty (m : KeyMap α) : Bool := m.pairs.isEmpty

/-- Later pairs replace earlier ones of the same key. -/
def ofPairs (pairs : List (String × α)) : KeyMap α :=
  ⟨Keyed.putAll [] pairs, Keyed.ascending_putAll List.Pairwise.nil pairs⟩

def overwrite (m incoming : KeyMap α) : KeyMap α :=
  ⟨Keyed.putAll m.pairs incoming.pairs, Keyed.ascending_putAll m.ascending _⟩

def fill (m incoming : KeyMap α) : KeyMap α :=
  ⟨Keyed.fill m.pairs incoming.pairs, Keyed.ascending_fill m.ascending _⟩

end KeyMap
end ParserPackages
