import ParserPackages.Parser.Request

/-!
# Which values are requests

A request can be written as its name or as an object. Of an object only the values at two keys
count: there must be one name, a string, and there may be one priority, an integer of 32 bits or
null. What a value is a request for is determined by the value.
-/
namespace ParserPackages.Request

def priorityJson : Option Priority → Json
  | none => .null
  | some priority => .int priority.toInt

def valuesAt {α : Type} [DecidableEq α] (key : α) (fields : List (α × Json)) : List Json :=
  (fields.filter (·.1 = key)).map (·.2)

/-- What the values at the key of the priority mean: nothing written is no priority, and of one
value its meaning. -/
inductive PriorityIs : List Json → Option Priority → Prop
  | absent : PriorityIs [] none
  | written (priority? : Option Priority) : PriorityIs [priorityJson priority?] priority?

inductive WrittenAs : Request → Json → Prop
  | name (name : String) : WrittenAs (ofName name) (.str name)
  | object (name : String) (priority? : Option Priority) (fields : Fields)
      (hn : valuesAt "name" fields = [.str name])
      (hp : PriorityIs (valuesAt "priority" fields) priority?) :
      WrittenAs ⟨name, priority?⟩ (.obj fields)

/-! ## Priorities -/

theorem priorityOfInt?_toInt (priority : Priority) :
    priorityOfInt? priority.toInt = some priority := by
  rw [priorityOfInt?, if_pos ⟨priority.le_toInt, priority.toInt_lt⟩, Int32.ofInt_toInt]

theorem priorityOfInt?_eq_some_iff {n : Int} {priority : Priority} :
    priorityOfInt? n = some priority ↔ n = priority.toInt := by
  constructor
  · intro h
    by_cases hn : -Int.pow 2 31 ≤ n ∧ n < Int.pow 2 31
    · rw [priorityOfInt?, if_pos hn] at h
      cases h
      exact (Int32.toInt_ofInt_of_le hn.1 hn.2).symm
    · rw [priorityOfInt?, if_neg hn] at h
      cases h
  · rintro rfl
    exact priorityOfInt?_toInt priority

theorem priorityOfJson?_eq_some_iff {value : Json} {priority? : Option Priority} :
    priorityOfJson? value = some priority? ↔ value = priorityJson priority? := by
  cases value with
  | int n =>
    cases priority? with
    | none => simp [priorityOfJson?, priorityJson]
    | some priority => simp [priorityOfJson?, priorityJson, priorityOfInt?_eq_some_iff]
  | null => cases priority? <;> simp [priorityOfJson?, priorityJson]
  | bool | float | str | arr | obj => cases priority? <;> simp [priorityOfJson?, priorityJson]

theorem priorityJson_inj {first second : Option Priority} :
    priorityJson first = priorityJson second ↔ first = second := by
  rw [← priorityOfJson?_eq_some_iff, priorityOfJson?_eq_some_iff.2 rfl, Option.some_inj, eq_comm]

/-! ## Objects -/

section ValuesAt

variable {α : Type} [DecidableEq α] {key other : α}

@[simp] theorem valuesAt_nil (key : α) : valuesAt key [] = [] := rfl

@[simp] theorem valuesAt_cons_self (key : α) (value : Json) (rest : List (α × Json)) :
    valuesAt key ((key, value) :: rest) = value :: valuesAt key rest := by
  simp [valuesAt]

theorem valuesAt_cons_of_ne (h : other ≠ key) (value : Json) (rest : List (α × Json)) :
    valuesAt key ((other, value) :: rest) = valuesAt key rest := by
  simp [valuesAt, h]

end ValuesAt

theorem priorityIs_nil {priority? : Option Priority} :
    PriorityIs [] priority? ↔ priority? = none :=
  ⟨fun h => by cases h; rfl, fun h => h ▸ .absent⟩

theorem priorityIs_singleton {value : Json} {priority? : Option Priority} :
    PriorityIs [value] priority? ↔ value = priorityJson priority? :=
  ⟨fun h => by cases h; rfl, fun h => h ▸ .written priority?⟩

theorem PriorityIs.head {value : Json} {rest : List Json} {priority? : Option Priority}
    (h : PriorityIs (value :: rest) priority?) : value = priorityJson priority? := by
  cases h
  rfl

theorem not_priorityIs_of_two {value next : Json} {rest : List Json} {priority? : Option Priority} :
    ¬ PriorityIs (value :: next :: rest) priority? := by
  intro h
  cases h

/-- What was read before counts as a value in front. -/
theorem ofFields?_eq_some_iff {name? : Option String} {priority?? : Option (Option Priority)}
    {fields : List (Field × Json)} {r : Request} :
    ofFields? name? priority?? fields = some r ↔
      name?.toList.map .str ++ valuesAt .name fields = [.str r.name] ∧
        PriorityIs (priority??.toList.map priorityJson ++ valuesAt .priority fields)
          r.priority? := by
  induction fields generalizing name? priority?? with
  | nil =>
    obtain ⟨name, priority?⟩ := r
    cases name? with
    | none => simp [ofFields?]
    | some given =>
      cases priority?? with
      | none => simp [ofFields?, priorityIs_nil, eq_comm]
      | some written => simp [ofFields?, priorityIs_singleton, priorityJson_inj]
  | cons f rest ih =>
    obtain ⟨field, value⟩ := f
    cases field with
    | name =>
      rw [valuesAt_cons_self, valuesAt_cons_of_ne (by decide)]
      cases value with
      | str name =>
        cases name? with
        | none => exact ih
        | some given => simp [ofFields?]
      | null | bool | int | float | arr | obj => cases name? <;> simp [ofFields?]
    | priority =>
      rw [valuesAt_cons_self, valuesAt_cons_of_ne (by decide)]
      cases priority?? with
      | none =>
        cases hv : priorityOfJson? value with
        | none =>
          refine iff_of_false (by simp [ofFields?, hv]) fun h => ?_
          rw [priorityOfJson?_eq_some_iff.2 h.2.head] at hv
          cases hv
        | some written =>
          obtain rfl := priorityOfJson?_eq_some_iff.1 hv
          simp only [ofFields?, hv]
          exact ih
      | some written => simp [ofFields?, not_priorityIs_of_two]
    | other =>
      rw [valuesAt_cons_of_ne (by decide), valuesAt_cons_of_ne (by decide)]
      exact ih

theorem valuesAt_map_ofKey {field : Field} {key : String}
    (h : ∀ other, Field.ofKey other = field ↔ other = key) (fields : Fields) :
    valuesAt field (fields.map fun (key, value) => (Field.ofKey key, value)) =
      valuesAt key fields := by
  simp only [valuesAt, List.filter_map, List.map_map, Function.comp_def, h]

theorem ofKey_eq_name_iff (key : String) : Field.ofKey key = .name ↔ key = "name" := by
  grind [Field.ofKey]

theorem ofKey_eq_priority_iff (key : String) : Field.ofKey key = .priority ↔ key = "priority" := by
  grind [Field.ofKey]

/-- A value is read as a request if it is one of the ways to write it. -/
theorem ofJson?_eq_some_iff {value : Json} {r : Request} :
    ofJson? value = some r ↔ r.WrittenAs value := by
  cases value with
  | str name =>
    constructor
    · intro h
      cases h
      exact .name name
    · rintro ⟨⟩
      rfl
  | obj fields =>
    rw [ofJson?, ofFields?_eq_some_iff, valuesAt_map_ofKey ofKey_eq_name_iff,
      valuesAt_map_ofKey ofKey_eq_priority_iff]
    constructor
    · rintro ⟨hn, hp⟩
      exact .object r.name r.priority? fields hn hp
    · rintro ⟨⟩
      exact ⟨‹_›, ‹_›⟩
  | null | bool | int | float | arr =>
    refine iff_of_false (by simp [ofJson?]) ?_
    rintro ⟨⟩

end ParserPackages.Request
