import ParserPackages.Proofs.Json.Compact

/-!
# Written values are read back

The compact text of a value and its indented text are one text with different gaps. Whatever the
gaps are, the reader takes the text back to the value, if its numbers are integers that fit in a
word and it does not nest too deep.
-/
namespace ParserPackages.Json

mutual
def depth : Json → Nat
  | .arr items => itemsDepth items + 1
  | .obj fields => fieldsDepth fields + 1
  | _ => 0

def itemsDepth : List Json → Nat
  | [] => 0
  | item :: rest => max item.depth (itemsDepth rest)

def fieldsDepth : Fields → Nat
  | [] => 0
  | (_, value) :: rest => max value.depth (fieldsDepth rest)
end

/-- A word of 64 bits holds the integer, with a sign or without one. -/
def FitsWord (n : Int) : Prop := -Int.pow 2 63 ≤ n ∧ n < Int.pow 2 64

instance (n : Int) : Decidable (FitsWord n) := inferInstanceAs (Decidable (_ ∧ _))

theorem fitsWord_iff {n : Int} :
    FitsWord n ↔ -9223372036854775808 ≤ n ∧ n < 18446744073709551616 := Iff.rfl

mutual
def Exact : Json → Prop
  | .int n => FitsWord n
  | .float _ => False
  | .arr items => ItemsExact items
  | .obj fields => FieldsExact fields
  | _ => True

def ItemsExact : List Json → Prop
  | [] => True
  | item :: rest => item.Exact ∧ ItemsExact rest

def FieldsExact : Fields → Prop
  | [] => True
  | (_, value) :: rest => value.Exact ∧ FieldsExact rest
end

theorem itemsExact_iff (items : List Json) : ItemsExact items ↔ ∀ item ∈ items, item.Exact := by
  induction items with
  | nil => simp [ItemsExact]
  | cons item rest ih => simp [ItemsExact, ih]

/-! ## Gaps -/

theorem skipGap_append {gap : List Char} (h : ∀ c ∈ gap, isGap c = true) (cs : List Char) :
    skipGap (gap ++ cs) = skipGap cs :=
  List.dropWhile_append_of_pos h

theorem skipGap_cons {c : Char} (h : isGap c = false) (cs : List Char) :
    skipGap (c :: cs) = c :: cs := by
  simp [skipGap, h]

theorem skipGap_skipGap (cs : List Char) : skipGap (skipGap cs) = skipGap cs := by
  induction cs with
  | nil => rfl
  | cons c cs ih =>
    cases h : isGap c with
    | true => simpa [skipGap, h] using ih
    | false => rw [skipGap_cons h, skipGap_cons h]

theorem readValue_skipGap (fuel depth : Nat) (cs : List Char) :
    readValue fuel depth (skipGap cs) = readValue fuel depth cs := by
  cases fuel with
  | zero => rfl
  | succ fuel => rw [readValue, readValue, skipGap_skipGap]

theorem readItems_skipGap (fuel depth : Nat) (cs : List Char) :
    readItems fuel depth (skipGap cs) = readItems fuel depth cs := by
  cases fuel with
  | zero => rfl
  | succ fuel => rw [readItems, readItems, readValue_skipGap]

theorem readFields_skipGap (fuel depth : Nat) (cs : List Char) :
    readFields fuel depth (skipGap cs) = readFields fuel depth cs := by
  cases fuel with
  | zero => rfl
  | succ fuel => rw [readFields, readFields, skipGap_skipGap]

/-! ## Integers -/

/-- What can follow a value: white space, a comma or a closing bracket. -/
def isDelimiter (c : Char) : Bool := isGap c || c == ',' || c == ']' || c == '\x7d'

def Delimited (rest : List Char) : Prop := ∀ c ∈ rest.head?, isDelimiter c = true

theorem delimited_nil : Delimited [] := by simp [Delimited]

theorem delimited_cons {c : Char} (h : isDelimiter c = true) (rest : List Char) :
    Delimited (c :: rest) := by
  simpa [Delimited] using h

theorem isDelimiter_cases {c : Char} (h : isDelimiter c = true) :
    c = ' ' ∨ c = '\n' ∨ c = '\t' ∨ c = '\r' ∨ c = ',' ∨ c = ']' ∨ c = '\x7d' := by
  simpa [isDelimiter, isGap, or_assoc] using h

theorem Delimited.halts {rest : List Char} (h : Delimited rest) : Halts rest := by
  intro c hc
  rcases isDelimiter_cases (h c hc) with rfl | rfl | rfl | rfl | rfl | rfl | rfl <;> rfl

theorem Delimited.readFraction? {rest : List Char} (h : Delimited rest) :
    readFraction? rest = some (none, rest) := by
  cases rest with
  | nil => rfl
  | cons c rest =>
    rcases isDelimiter_cases (h c rfl) with rfl | rfl | rfl | rfl | rfl | rfl | rfl <;> rfl

theorem Delimited.readExponent? {rest : List Char} (h : Delimited rest) :
    readExponent? rest = some (none, rest) := by
  cases rest with
  | nil => rfl
  | cons c rest =>
    rcases isDelimiter_cases (h c rfl) with rfl | rfl | rfl | rfl | rfl | rfl | rfl <;> rfl

theorem digitsValue_toDigits (n : Nat) : digitsValue (Nat.toDigits 10 n) = n := by
  calc digitsValue (Nat.toDigits 10 n) = Nat.ofDigitChars 10 (Nat.toDigits 10 n) 0 := by
        simp only [digitsValue, digitValue, Nat.ofDigitChars, Nat.mul_comm 10]
        rfl
    _ = n := Nat.ofDigitChars_ten_toDigits

theorem head?_toDigits_ne {n : Nat} (h : 0 < n) : (Nat.toDigits 10 n).head? ≠ some '0' := by
  induction n using Nat.strongRecOn with
  | ind n ih =>
    by_cases hn : n < 10
    · have hdigit : ∀ d < 10, 0 < d → Nat.digitChar d ≠ '0' := by decide
      simpa [Nat.toDigits_of_lt_base hn] using hdigit n hn h
    · rw [Nat.toDigits_of_base_le (by decide) (Nat.le_of_not_lt hn), List.head?_append_of_ne_nil]
      · exact ih (n / 10) (by omega) (by omega)
      · exact Nat.toDigits_ne_nil

theorem toDigits_plain (n : Nat) : ¬ ((Nat.toDigits 10 n).isEmpty ∨
    (Nat.toDigits 10 n).head? = some '0' ∧ 1 < (Nat.toDigits 10 n).length) := by
  rintro (hempty | ⟨hhead, hlength⟩)
  · exact Nat.toDigits_ne_nil (List.isEmpty_iff.1 hempty)
  · cases n with
    | zero => simp at hlength
    | succ n => exact head?_toDigits_ne n.succ_pos hhead

theorem ofWhole?_toDigits {n : Int} (h : FitsWord n) :
    ofWhole? ⟨n < 0, Nat.toDigits 10 n.natAbs, [], 0⟩ = some (.int n) := by
  rw [fitsWord_iff] at h
  simp only [ofWhole?, digitsValue_toDigits, decide_eq_true_eq, Nat.pow_eq]
  split_ifs with hn hsize hsize
  · exact congrArg (some ∘ Json.int) (by omega)
  · omega
  · exact congrArg (some ∘ Json.int) (by omega)
  · omega

theorem readNumber_intText {n : Int} (h : FitsWord n) {rest : List Char}
    (hr : Delimited rest) : readNumber (intText n ++ rest) = some (.int n, rest) := by
  have hspan := spanDigits_append (isDigit_of_mem_toDigits (n := n.natAbs)) hr.halts
  have hplain := toDigits_plain n.natAbs
  have hwhole := ofWhole?_toDigits h
  rw [intText]
  split_ifs with hn
  · rw [List.cons_append, readNumber]
    simp only [hn, decide_true] at hwhole
    simp only [hspan, if_neg hplain, hr.readFraction?, hr.readExponent?, Option.bind_eq_bind,
      Option.bind_some, hwhole, Option.map_some]
  · rw [readNumber]
    · simp only [hn, decide_false] at hwhole
      simp only [hspan, if_neg hplain, hr.readFraction?, hr.readExponent?, Option.bind_eq_bind,
        Option.bind_some, hwhole, Option.map_some]
    · exact fun s => toDigits_append_ne_cons rfl _ rest s

/-! ## Layouts -/

/-- The gaps of a text: one before every item, field and closing bracket, by its level, and one
after colons. -/
structure Layout where
  line : Nat → List Char
  colon : List Char
  isGap_line : ∀ level, ∀ c ∈ line level, isGap c = true
  isGap_colon : ∀ c ∈ colon, isGap c = true

namespace Layout

def tight : Layout := ⟨fun _ => [], [], by simp, by simp⟩

def indented : Layout where
  line := lineStart
  colon := [' ']
  isGap_line level := by
    have hspace : ∀ c ∈ List.replicate (2 * level) ' ', isGap c = true := by
      intro c hc
      rw [List.eq_of_mem_replicate hc]
      rfl
    exact List.forall_mem_cons.2 ⟨rfl, hspace⟩
  isGap_colon := List.forall_mem_singleton.2 rfl

mutual
/-- The text of a value that stands at a level. -/
def text (l : Layout) (level : Nat) : Json → List Char
  | .arr [] => ['[', ']']
  | .arr (item :: rest) => '[' :: l.items (level + 1) (item :: rest) ++ l.line level ++ [']']
  | .obj [] => ['\x7b', '\x7d']
  | .obj (field :: rest) =>
    '\x7b' :: l.fields (level + 1) (field :: rest) ++ l.line level ++ ['\x7d']
  | value => value.compactChars

def items (l : Layout) (level : Nat) : List Json → List Char
  | [] => []
  | [item] => l.line level ++ l.text level item
  | item :: next :: rest =>
    l.line level ++ l.text level item ++ ',' :: l.items level (next :: rest)

def fields (l : Layout) (level : Nat) : Fields → List Char
  | [] => []
  | [(key, value)] => l.line level ++ stringText key ++ ':' :: l.colon ++ l.text level value
  | (key, value) :: next :: rest =>
    l.line level ++ stringText key ++ ':' :: l.colon ++ l.text level value ++
      ',' :: l.fields level (next :: rest)
end

@[simp] theorem line_tight (level : Nat) : tight.line level = [] := rfl

@[simp] theorem colon_tight : tight.colon = [] := rfl

@[simp] theorem line_indented (level : Nat) : indented.line level = lineStart level := rfl

@[simp] theorem colon_indented : indented.colon = [' '] := rfl

mutual
theorem text_tight (level : Nat) : (value : Json) → tight.text level value = value.compactChars
  | .arr [] => rfl
  | .arr (item :: rest) => by simp [text, compactChars, items_tight (level + 1) (item :: rest)]
  | .obj [] => rfl
  | .obj (field :: rest) => by
    simp [text, compactChars, fields_tight (level + 1) (field :: rest)]
  | .null | .bool _ | .int _ | .float _ | .str _ => by simp only [text]

theorem items_tight (level : Nat) : (list : List Json) → tight.items level list = compactItems list
  | [] => rfl
  | [item] => by simp [items, compactItems, text_tight level item]
  | item :: next :: rest => by
    simp [items, compactItems, text_tight level item, items_tight level (next :: rest)]

theorem fields_tight (level : Nat) : (list : Fields) → tight.fields level list = compactFields list
  | [] => rfl
  | [(key, value)] => by simp [fields, compactFields, text_tight level value]
  | (key, value) :: next :: rest => by
    simp [fields, compactFields, text_tight level value, fields_tight level (next :: rest)]
end

mutual
theorem text_indented (level : Nat) :
    (value : Json) → indented.text level value = value.prettyChars level
  | .arr [] => by simp [text, prettyChars]
  | .arr (item :: rest) => by simp [text, prettyChars, items_indented (level + 1) (item :: rest)]
  | .obj [] => by simp [text, prettyChars]
  | .obj (field :: rest) => by
    simp [text, prettyChars, fields_indented (level + 1) (field :: rest)]
  | .null | .int _ | .float _ | .str _ => by simp only [text, compactChars, prettyChars]
  | .bool b => by cases b <;> simp only [text, compactChars, prettyChars]

theorem items_indented (level : Nat) :
    (list : List Json) → indented.items level list = prettyItems level list
  | [] => by simp only [items, prettyItems]
  | [item] => by simp [items, prettyItems, text_indented level item]
  | item :: next :: rest => by
    simp [items, prettyItems, text_indented level item, items_indented level (next :: rest)]

theorem fields_indented (level : Nat) :
    (list : Fields) → indented.fields level list = prettyFields level list
  | [] => by simp only [fields, prettyFields]
  | [(key, value)] => by simp [fields, prettyFields, text_indented level value]
  | (key, value) :: next :: rest => by
    simp [fields, prettyFields, text_indented level value, fields_indented level (next :: rest)]
end

theorem text_lead (l : Layout) (level : Nat) {value : Json} (h : value.Exact) :
    ∃ c rest, l.text level value = c :: rest ∧ Kind.ofLead? c = some value.kind := by
  cases value with
  | arr items => cases items <;> simp only [text] <;> exact ⟨_, _, rfl, rfl⟩
  | obj fields => cases fields <;> simp only [text] <;> exact ⟨_, _, rfl, rfl⟩
  | null | bool | int | float | str =>
    simp only [text]
    exact compactChars_lead (by simp_all [Integral, Exact])

end Layout

/-! ## Reading -/

theorem isGap_eq_false_of_lead {c : Char} {kind : Kind} (h : Kind.ofLead? c = some kind) :
    isGap c = false := by
  cases hg : isGap c with
  | false => rfl
  | true =>
    have hc : c = ' ' ∨ c = '\n' ∨ c = '\t' ∨ c = '\r' := by
      simpa [isGap, or_assoc] using hg
    rcases hc with rfl | rfl | rfl | rfl <;> cases h

theorem delimited_append {gap rest : List Char} (h : ∀ c ∈ gap, isGap c = true)
    (hr : Delimited rest) : Delimited (gap ++ rest) := by
  cases gap with
  | nil => exact hr
  | cons c gap =>
    intro d hd
    obtain rfl : c = d := Option.some.inj hd
    simp [isDelimiter, h c List.mem_cons_self]

theorem readValue_gap {gap : List Char} (h : ∀ c ∈ gap, isGap c = true) (fuel depth : Nat)
    (cs : List Char) : readValue fuel depth (gap ++ cs) = readValue fuel depth cs := by
  rw [← readValue_skipGap, skipGap_append h, readValue_skipGap]

theorem readFields_gap {gap : List Char} (h : ∀ c ∈ gap, isGap c = true) (fuel depth : Nat)
    (cs : List Char) : readFields fuel depth (gap ++ cs) = readFields fuel depth cs := by
  rw [← readFields_skipGap, skipGap_append h, readFields_skipGap]

theorem readValue_of_number {c : Char} (h : Kind.ofLead? c = some .number) (fuel depth : Nat)
    (cs : List Char) : readValue (fuel + 1) depth (c :: cs) = readNumber (c :: cs) := by
  have hgap := skipGap_cons (isGap_eq_false_of_lead h) cs
  rw [readValue, hgap]
  split
  case h_7 => rfl
  -- the other cases begin with a character that begins no number
  all_goals
    rename_i heq
    cases heq
    cases h

theorem stringText_append (s : String) (rest : List Char) :
    stringText s ++ rest = '\x22' :: (s.toList.flatMap escapeChar ++ '\x22' :: rest) := by
  simp [stringText]

theorem readValue_stringText (s : String) (fuel depth : Nat) (rest : List Char) :
    readValue (fuel + 1) depth (stringText s ++ rest) = some (.str s, rest) := by
  rw [stringText_append, readValue, skipGap_cons rfl]
  simp only [readString_flatMap_escapeChar, Option.map_some, String.ofList_toList]

variable {fuel depth : Nat} {cs rest after : List Char} {item value : Json}

theorem readValue_bracket (h : ∀ after, skipGap cs ≠ ']' :: after) :
    readValue (fuel + 1) (depth + 1) ('[' :: cs) =
      (readItems fuel depth cs).map fun (items, after) => (.arr items, after) := by
  rw [readValue, skipGap_cons rfl]
  split
  case h_5 =>
    rename_i heq
    cases heq
    dsimp only
    split
    · rename_i after heq
      exact absurd heq (h after)
    · rw [readItems_skipGap]
  case h_7 hbracket _ => exact (hbracket cs rfl).elim
  all_goals
    rename_i heq
    cases heq

theorem readValue_brace (h : ∀ after, skipGap cs ≠ '\x7d' :: after) :
    readValue (fuel + 1) (depth + 1) ('\x7b' :: cs) =
      (readFields fuel depth cs).map fun (fields, after) => (.obj fields, after) := by
  rw [readValue, skipGap_cons rfl]
  split
  case h_6 =>
    rename_i heq
    cases heq
    dsimp only
    split
    · rename_i after heq
      exact absurd heq (h after)
    · rw [readFields_skipGap]
  case h_7 hbrace => exact (hbrace cs rfl).elim
  all_goals
    rename_i heq
    cases heq

theorem readItems_cons (rest : List Char) (h : readValue fuel depth cs = some (item, ',' :: rest)) :
    readItems (fuel + 1) depth cs =
      (readItems fuel depth rest).map fun (items, after) => (item :: items, after) := by
  rw [readItems, h]
  simp only [skipGap_cons (c := ',') rfl]

theorem readItems_last (rest : List Char) (h : readValue fuel depth cs = some (item, rest))
    (hrest : skipGap rest = ']' :: after) :
    readItems (fuel + 1) depth cs = some ([item], after) := by
  rw [readItems, h]
  simp only [hrest]

theorem readFields_cons (key : String) (rest : List Char)
    (h : readValue fuel depth cs = some (value, ',' :: rest)) :
    readFields (fuel + 1) depth (stringText key ++ ':' :: cs) =
      (readFields fuel depth rest).map fun (fields, after) => ((key, value) :: fields, after) := by
  rw [stringText_append, readFields, skipGap_cons rfl]
  simp only [readString_flatMap_escapeChar, skipGap_cons (c := ':') rfl, h,
    skipGap_cons (c := ',') rfl, String.ofList_toList]

theorem readFields_last (key : String) (rest : List Char)
    (h : readValue fuel depth cs = some (value, rest)) (hrest : skipGap rest = '\x7d' :: after) :
    readFields (fuel + 1) depth (stringText key ++ ':' :: cs) = some ([(key, value)], after) := by
  rw [stringText_append, readFields, skipGap_cons rfl]
  simp only [readString_flatMap_escapeChar, skipGap_cons (c := ':') rfl, h, hrest,
    String.ofList_toList]

namespace Layout

variable (l : Layout)

theorem items_cons (level : Nat) (item : Json) (rest : List Json) :
    ∃ more, l.items level (item :: rest) = l.line level ++ (l.text level item ++ more) := by
  cases rest with
  | nil => exact ⟨[], by rw [items, List.append_nil]⟩
  | cons next rest => exact ⟨_, by rw [items, List.append_assoc]⟩

theorem fields_cons (level : Nat) (key : String) (value : Json) (rest : Fields) :
    ∃ more, l.fields level ((key, value) :: rest) = l.line level ++ '\x22' :: more := by
  cases rest with
  | nil => exact ⟨_, by simp only [fields, List.append_assoc, stringText_append]; rfl⟩
  | cons next rest => exact ⟨_, by simp only [fields, List.append_assoc, stringText_append]; rfl⟩

theorem skipGap_items_ne (level : Nat) {item : Json} (h : item.Exact) (rest : List Json)
    (tail after : List Char) : skipGap (l.items level (item :: rest) ++ tail) ≠ ']' :: after := by
  intro hskip
  obtain ⟨more, hmore⟩ := l.items_cons level item rest
  obtain ⟨c, cs, htext, hlead⟩ := l.text_lead level h
  rw [hmore, List.append_assoc, skipGap_append (l.isGap_line level), htext, List.cons_append,
    List.cons_append, skipGap_cons (isGap_eq_false_of_lead hlead)] at hskip
  cases (List.cons.inj hskip).1
  cases hlead

theorem skipGap_fields_ne (level : Nat) (field : String × Json) (rest : Fields)
    (tail after : List Char) :
    skipGap (l.fields level (field :: rest) ++ tail) ≠ '\x7d' :: after := by
  intro hskip
  obtain ⟨more, hmore⟩ := l.fields_cons level field.1 field.2 rest
  rw [hmore, List.append_assoc, skipGap_append (l.isGap_line level), List.cons_append,
    skipGap_cons rfl] at hskip
  cases (List.cons.inj hskip).1

end Layout

mutual
/-- Values are read back from their text. -/
theorem readValue_text (l : Layout) : (value : Json) → value.Exact →
    ∀ (level : Nat) {fuel depth : Nat} {rest : List Char}, Delimited rest → value.depth ≤ depth →
      (l.text level value).length ≤ fuel →
        readValue fuel depth (l.text level value ++ rest) = some (value, rest)
  | value, he, level, 0, depth, rest, hr, hd, hf => by
    obtain ⟨c, cs, htext, -⟩ := l.text_lead level he
    simp [htext] at hf
  | .null, _, _, fuel + 1, depth, rest, _, _, _ => rfl
  | .bool true, _, _, fuel + 1, depth, rest, _, _, _ => rfl
  | .bool false, _, _, fuel + 1, depth, rest, _, _, _ => rfl
  | .int n, he, level, fuel + 1, depth, rest, hr, _, _ => by
    obtain ⟨c, cs, htext, hlead⟩ := l.text_lead level he
    rw [htext, List.cons_append, readValue_of_number hlead, ← List.cons_append, ← htext]
    exact readNumber_intText he hr
  | .str s, _, _, fuel + 1, depth, rest, _, _, _ => readValue_stringText s fuel depth rest
  | .arr [], _, _, fuel + 1, depth + 1, rest, _, _, _ => by
    rw [Layout.text]
    rfl
  | .obj [], _, _, fuel + 1, depth + 1, rest, _, _, _ => by
    rw [Layout.text]
    rfl
  | .arr (item :: items), he, level, fuel + 1, depth + 1, rest, hr, hd, hf => by
    simp only [Layout.text, List.cons_append, List.append_assoc, List.nil_append,
      List.length_cons, List.length_append, List.length_nil] at hf ⊢
    rw [readValue_bracket (l.skipGap_items_ne (level + 1) he.1 items _),
      readItems_items l (item :: items) (List.cons_ne_nil item items) he (level + 1)
        (l.isGap_line level) (Nat.le_of_succ_le_succ hd) (by omega)]
    rfl
  | .obj (field :: fields), he, level, fuel + 1, depth + 1, rest, hr, hd, hf => by
    simp only [Layout.text, List.cons_append, List.append_assoc, List.nil_append,
      List.length_cons, List.length_append, List.length_nil] at hf ⊢
    rw [readValue_brace (l.skipGap_fields_ne (level + 1) field fields _),
      readFields_fields l (field :: fields) (List.cons_ne_nil field fields) he (level + 1)
        (l.isGap_line level) (Nat.le_of_succ_le_succ hd) (by omega)]
    rfl

theorem readItems_items (l : Layout) : (items : List Json) → items ≠ [] → ItemsExact items →
    ∀ (level : Nat) {fuel depth : Nat} {gap rest : List Char}, (∀ c ∈ gap, isGap c = true) →
      itemsDepth items ≤ depth → (l.items level items).length + 1 ≤ fuel →
        readItems fuel depth (l.items level items ++ (gap ++ ']' :: rest)) = some (items, rest)
  | [], hne, _, _, _, _, _, _, _, _, _ => absurd rfl hne
  | [item], _, he, level, fuel + 1, depth, gap, rest, hg, hd, hf => by
    simp only [Layout.items, List.append_assoc, List.length_append, itemsDepth] at hf hd ⊢
    apply readItems_last (gap ++ ']' :: rest)
    · rw [readValue_gap (l.isGap_line level)]
      exact readValue_text l item he.1 level (delimited_append hg (delimited_cons rfl rest))
        (by omega) (by omega)
    · rw [skipGap_append hg, skipGap_cons rfl]
  | item :: next :: items, _, he, level, fuel + 1, depth, gap, rest, hg, hd, hf => by
    have hnext := List.cons_ne_nil next items
    rw [itemsDepth] at hd
    simp only [Layout.items, List.append_assoc, List.length_append, List.cons_append,
      List.length_cons] at hf ⊢
    rw [readItems_cons (l.items level (next :: items) ++ (gap ++ ']' :: rest)),
      readItems_items l (next :: items) hnext he.2 level hg (by omega) (by omega)]
    · rfl
    · rw [readValue_gap (l.isGap_line level)]
      exact readValue_text l item he.1 level (delimited_cons rfl _) (by omega) (by omega)

theorem readFields_fields (l : Layout) : (fields : Fields) → fields ≠ [] → FieldsExact fields →
    ∀ (level : Nat) {fuel depth : Nat} {gap rest : List Char}, (∀ c ∈ gap, isGap c = true) →
      fieldsDepth fields ≤ depth → (l.fields level fields).length + 1 ≤ fuel →
        readFields fuel depth (l.fields level fields ++ (gap ++ '\x7d' :: rest)) =
          some (fields, rest)
  | [], hne, _, _, _, _, _, _, _, _, _ => absurd rfl hne
  | [(key, value)], _, he, level, fuel + 1, depth, gap, rest, hg, hd, hf => by
    simp only [Layout.fields, List.append_assoc, List.length_append, List.cons_append,
      List.length_cons, fieldsDepth] at hf hd ⊢
    rw [readFields_gap (l.isGap_line level)]
    apply readFields_last key (gap ++ '\x7d' :: rest)
    · rw [readValue_gap l.isGap_colon]
      exact readValue_text l value he.1 level (delimited_append hg (delimited_cons rfl rest))
        (by omega) (by omega)
    · rw [skipGap_append hg, skipGap_cons rfl]
  | (key, value) :: next :: fields, _, he, level, fuel + 1, depth, gap, rest, hg, hd, hf => by
    have hnext := List.cons_ne_nil next fields
    rw [fieldsDepth] at hd
    simp only [Layout.fields, List.append_assoc, List.length_append, List.cons_append,
      List.length_cons] at hf ⊢
    rw [readFields_gap (l.isGap_line level),
      readFields_cons key (l.fields level (next :: fields) ++ (gap ++ '\x7d' :: rest)),
      readFields_fields l (next :: fields) hnext he.2 level hg (by omega) (by omega)]
    · rfl
    · rw [readValue_gap l.isGap_colon]
      exact readValue_text l value he.1 level (delimited_cons rfl _) (by omega) (by omega)
end

/-- A text is read back, whatever its layout. -/
theorem read?_text (l : Layout) (he : value.Exact) (hd : value.depth ≤ depthLimit) :
    read? (String.ofList (l.text 0 value)) = some value := by
  have hfuel : (l.text 0 value).length ≤ 2 * (l.text 0 value).length + 2 := by omega
  have hread := readValue_text l value he 0 delimited_nil hd hfuel
  rw [List.append_nil] at hread
  simp only [read?, String.toList_ofList, hread]
  rfl

theorem read?_compact (he : value.Exact) (hd : value.depth ≤ depthLimit) :
    read? value.compact = some value := by
  rw [compact, ← Layout.text_tight 0]
  exact read?_text .tight he hd

theorem read?_pretty (he : value.Exact) (hd : value.depth ≤ depthLimit) :
    read? value.pretty = some value := by
  rw [pretty, ← Layout.text_indented]
  exact read?_text .indented he hd

end ParserPackages.Json
