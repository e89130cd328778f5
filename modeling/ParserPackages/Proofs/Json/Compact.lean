import Mathlib.Data.List.Basic
import ParserPackages.Json.Printer
import ParserPackages.Json.Reader

/-!
# Compact text determines its value

Strings are read back from their escaped text. Two values without doubles that begin one text are
the same value and leave the same rest, where no digit comes next; a rest is needed because
numbers have no closing character of their own.
-/
namespace ParserPackages.Json

section Induction

variable {motive : Json → Prop} (null : motive .null) (bool : ∀ value, motive (.bool value))
  (int : ∀ value, motive (.int value)) (float : ∀ value, motive (.float value))
  (str : ∀ value, motive (.str value))
  (arr : ∀ items, (∀ item ∈ items, motive item) → motive (.arr items))
  (obj : ∀ fields : Fields, (∀ f ∈ fields, motive f.2) → motive (.obj fields))

include null bool int float str arr obj

@[elab_as_elim]
theorem induct : (value : Json) → motive value
  | .arr items => arr items fun item _ => induct item
  | .obj fields => obj fields fun f _ => induct f.2
  | .null => null
  | .bool value => bool value
  | .int value => int value
  | .float value => float value
  | .str value => str value
decreasing_by
  · decreasing_tactic
  · rename_i hf
    have hsize := List.sizeOf_lt_of_mem hf
    cases f
    simp only [Prod.mk.sizeOf_spec, Json.obj.sizeOf_spec] at hsize ⊢
    omega

end Induction

mutual
/-- Every number in the value is an integer. -/
def Integral : Json → Prop
  | .float _ => False
  | .arr items => ItemsIntegral items
  | .obj fields => FieldsIntegral fields
  | _ => True

def ItemsIntegral : List Json → Prop
  | [] => True
  | item :: rest => item.Integral ∧ ItemsIntegral rest

def FieldsIntegral : Fields → Prop
  | [] => True
  | (_, value) :: rest => value.Integral ∧ FieldsIntegral rest
end

theorem itemsIntegral_iff (items : List Json) :
    ItemsIntegral items ↔ ∀ item ∈ items, item.Integral := by
  induction items with
  | nil => simp [ItemsIntegral]
  | cons item rest ih => simp [ItemsIntegral, ih]

theorem fieldsIntegral_iff (fields : Fields) :
    FieldsIntegral fields ↔ ∀ f ∈ fields, f.2.Integral := by
  induction fields with
  | nil => simp [FieldsIntegral]
  | cons f rest ih => simp [FieldsIntegral, ih]

/-! ## Strings -/

/-- Control characters are read back from their numbers. -/
private theorem hexUnit?_hexByte :
    ∀ n < 0x20, hexUnit? '0' '0' (Nat.digitChar (n / 16)) (Nat.digitChar (n % 16)) = some n := by
  decide

/-- A character whose number is escaped is read as that number, whatever follows. -/
private theorem readString_unit {a b c d : Char} {unit : Nat} (h : hexUnit? a b c d = some unit)
    (hlow : unit < 0x20) (rest : List Char) :
    readString ('\\' :: 'u' :: a :: b :: c :: d :: rest) =
      (readString rest).map fun (s, after) => (Char.ofNat unit :: s, after) := by
  have hl : isLowSurrogate unit = false := by simp [isLowSurrogate]; omega
  have hh : isHighSurrogate unit = false := by simp [isHighSurrogate]; omega
  rw [readString.eq_def]
  split <;> grind

theorem readString_escapeChar (c : Char) (rest : List Char) :
    readString (escapeChar c ++ rest) =
      (readString rest).map fun (s, after) => (c :: s, after) := by
  unfold escapeChar
  split_ifs with h1 h2 h3 h4 h5 h6 h7 h8
  on_goal 9 =>
    rw [List.singleton_append, readString.eq_def]
    split <;> grind
  on_goal 8 =>
    have h := readString_unit (hexUnit?_hexByte c.toNat h8) h8 rest
    rwa [Char.ofNat_toNat] at h
  -- the characters with an escape letter of their own
  all_goals
    subst c
    simp [readString, simpleEscape?]

theorem readString_flatMap_escapeChar (cs rest : List Char) :
    readString (cs.flatMap escapeChar ++ '\x22' :: rest) = some (cs, rest) := by
  induction cs with
  | nil => simp [readString]
  | cons c cs ih => rw [List.flatMap_cons, List.append_assoc, readString_escapeChar, ih]; rfl

theorem stringText_append_inj {s t : String} {r r' : List Char}
    (h : stringText s ++ r = stringText t ++ r') : s = t ∧ r = r' := by
  simp only [stringText, List.cons_append, List.append_assoc, List.nil_append,
    List.cons.injEq, true_and] at h
  have hread := congrArg readString h
  simpa [readString_flatMap_escapeChar, String.toList_inj] using hread

/-! ## Integers -/

def Halts (rest : List Char) : Prop := ∀ c ∈ rest.head?, c.isDigit = false

@[simp] theorem halts_nil : Halts [] := by simp [Halts]

@[simp] theorem halts_cons (c : Char) (rest : List Char) :
    Halts (c :: rest) ↔ c.isDigit = false := by simp [Halts]

theorem spanDigits_append {digits rest : List Char} (hd : ∀ c ∈ digits, c.isDigit = true)
    (hr : Halts rest) : spanDigits (digits ++ rest) = (digits, rest) := by
  rw [spanDigits, List.takeWhile_append_of_pos hd, List.dropWhile_append_of_pos hd]
  cases rest with
  | nil => simp
  | cons c rest => simp [(halts_cons c rest).1 hr]

theorem isDigit_of_mem_toDigits {n : Nat} : ∀ c ∈ Nat.toDigits 10 n, c.isDigit = true :=
  fun _ hc => Nat.isDigit_of_mem_toDigits (by omega) (by omega) hc

theorem toDigits_append_inj {m n : Nat} {r r' : List Char} (hr : Halts r) (hr' : Halts r')
    (h : Nat.toDigits 10 m ++ r = Nat.toDigits 10 n ++ r') : m = n ∧ r = r' := by
  have hspan := congrArg spanDigits h
  rw [spanDigits_append isDigit_of_mem_toDigits hr, spanDigits_append isDigit_of_mem_toDigits hr',
    Prod.mk.injEq] at hspan
  refine ⟨?_, hspan.2⟩
  rw [← Nat.ofDigitChars_ten_toDigits (n := m), hspan.1, Nat.ofDigitChars_ten_toDigits]

theorem toDigits_append_ne_cons {c : Char} (hc : c.isDigit = false) (n : Nat) (r s : List Char) :
    Nat.toDigits 10 n ++ r ≠ c :: s := by
  intro h
  obtain ⟨d, ds, hd⟩ := List.exists_cons_of_ne_nil (Nat.toDigits_ne_nil (n := n) (b := 10))
  have hdigit : d.isDigit = true := isDigit_of_mem_toDigits (n := n) d (by rw [hd]; simp)
  rw [hd, List.cons_append, List.cons.injEq] at h
  rw [h.1, hc] at hdigit
  contradiction

theorem intText_append_inj {m n : Int} {r r' : List Char} (hr : Halts r) (hr' : Halts r')
    (h : intText m ++ r = intText n ++ r') : m = n ∧ r = r' := by
  have hsign : '-'.isDigit = false := by decide
  unfold intText at h
  split_ifs at h with hm hn hn
  · obtain ⟨habs, hrest⟩ := toDigits_append_inj hr hr' (List.cons.inj h).2
    exact ⟨by omega, hrest⟩
  · exact (toDigits_append_ne_cons hsign _ _ _ h.symm).elim
  · exact (toDigits_append_ne_cons hsign _ _ _ h).elim
  · obtain ⟨habs, hrest⟩ := toDigits_append_inj hr hr' h
    exact ⟨by omega, hrest⟩

/-! ## Lists between commas -/

section Listed

variable {α : Type} {text : α → List Char} {close : Char} {r r' : List Char}

/-- What follows an item of a list: the later items, each after a comma, and the closing
character. -/
private def afterItem (text : α → List Char) (close : Char) (r : List Char) : List α → List Char
  | [] => close :: r
  | x :: xs => ',' :: (text x ++ afterItem text close r xs)

private theorem halts_afterItem (hdigit : close.isDigit = false) (xs : List α) :
    Halts (afterItem text close r xs) := by
  cases xs with
  | nil => simpa [afterItem] using hdigit
  | cons x xs => simp [afterItem]

private theorem intercalate_append (x : α) (xs : List α) :
    [','].intercalate ((x :: xs).map text) ++ close :: r =
      text x ++ afterItem text close r xs := by
  induction xs generalizing x with
  | nil => simp [afterItem]
  | cons y ys ih =>
    rw [List.map_cons, List.map_cons, List.intercalate_cons_cons, ← List.map_cons,
      List.append_assoc, ih]
    simp [afterItem]

/-- A closed list determines its items where none can be taken for the end and each is
determined by a text that it begins. -/
theorem intercalate_append_inj (hdigit : close.isDigit = false) (hcomma : close ≠ ',')
    {xs ys : List α} (hx : ∀ x ∈ xs, ∀ s t, text x ++ s ≠ close :: t)
    (hy : ∀ y ∈ ys, ∀ s t, text y ++ s ≠ close :: t)
    (hinj : ∀ x ∈ xs, ∀ y ∈ ys, ∀ {s t}, Halts s → Halts t → text x ++ s = text y ++ t →
      x = y ∧ s = t)
    (h : [','].intercalate (xs.map text) ++ close :: r =
      [','].intercalate (ys.map text) ++ close :: r') : xs = ys ∧ r = r' := by
  have hafter : ∀ (xs' ys' : List α), xs' ⊆ xs → ys' ⊆ ys →
      afterItem text close r xs' = afterItem text close r' ys' → xs' = ys' ∧ r = r' := by
    intro xs'
    induction xs' with
    | nil =>
      rintro (_ | ⟨y, ys'⟩) _ _ h
      · simpa [afterItem] using h
      · exact absurd (List.cons.inj h).1 hcomma
    | cons x xs' ih =>
      rintro (_ | ⟨y, ys'⟩) hxs hys h
      · exact absurd (List.cons.inj h).1.symm hcomma
      · obtain ⟨hx', hxs'⟩ := List.cons_subset.1 hxs
        obtain ⟨hy', hys'⟩ := List.cons_subset.1 hys
        obtain ⟨rfl, hrest⟩ := hinj x hx' y hy' (halts_afterItem hdigit _)
          (halts_afterItem hdigit _) (List.cons.inj h).2
        obtain ⟨rfl, hr⟩ := ih ys' hxs' hys' hrest
        exact ⟨rfl, hr⟩
  obtain _ | ⟨x, xs⟩ := xs <;> obtain _ | ⟨y, ys⟩ := ys
  · simpa using h
  · rw [intercalate_append] at h
    exact (hy y (by simp) _ _ h.symm).elim
  · rw [intercalate_append] at h
    exact (hx x (by simp) _ _ h).elim
  · rw [intercalate_append, intercalate_append] at h
    obtain ⟨rfl, hrest⟩ := hinj x (by simp) y (by simp) (halts_afterItem hdigit _)
      (halts_afterItem hdigit _) h
    obtain ⟨rfl, hr⟩ := hafter xs ys (List.subset_cons_self ..) (List.subset_cons_self ..) hrest
    exact ⟨rfl, hr⟩

end Listed

def fieldText (f : String × Json) : List Char := stringText f.1 ++ ':' :: compactChars f.2

theorem compactItems_eq (items : List Json) :
    compactItems items = [','].intercalate (items.map compactChars) := by
  induction items with
  | nil => rfl
  | cons item rest ih => cases rest <;> simp_all [compactItems]

theorem compactFields_eq (fields : Fields) :
    compactFields fields = [','].intercalate (fields.map fieldText) := by
  induction fields with
  | nil => rfl
  | cons f rest ih => cases rest <;> simp_all [compactFields, fieldText]

/-! ## Values -/

/-- The kinds of values. -/
inductive Kind where
  | null
  | bool
  | number
  | string
  | array
  | object

def kind : Json → Kind
  | .null => .null
  | .bool _ => .bool
  | .int _ => .number
  | .float _ => .number
  | .str _ => .string
  | .arr _ => .array
  | .obj _ => .object

/-- The kind of the values whose texts begin with a character. -/
def Kind.ofLead? (c : Char) : Option Kind :=
  if c = 'n' then some .null
  else if c = 't' ∨ c = 'f' then some .bool
  else if c = '-' ∨ c.isDigit then some .number
  else if c = '\x22' then some .string
  else if c = '[' then some .array
  else if c = '\x7b' then some .object
  else none

theorem Kind.ofLead?_of_isDigit {c : Char} (h : c.isDigit = true) : ofLead? c = some number := by
  have hne {d : Char} (hd : d.isDigit = false) : c ≠ d := by
    rintro rfl
    simp [hd] at h
  rw [ofLead?, if_neg (hne (by decide)), if_neg, if_pos (.inr h)]
  exact not_or.2 ⟨hne (by decide), hne (by decide)⟩

/-- The first character of its text tells the kind of a value. -/
theorem compactChars_lead {value : Json} (h : value.Integral) :
    ∃ c rest, value.compactChars = c :: rest ∧ Kind.ofLead? c = some value.kind := by
  cases value with
  | null | str _ | arr _ | obj _ => exact ⟨_, _, rfl, rfl⟩
  | bool b => cases b <;> exact ⟨_, _, rfl, rfl⟩
  | int n =>
    by_cases hn : n < 0
    · exact ⟨'-', _, by rw [compactChars, intText, if_pos hn], rfl⟩
    · obtain ⟨c, rest, hc⟩ :=
        List.exists_cons_of_ne_nil (Nat.toDigits_ne_nil (n := n.natAbs) (b := 10))
      refine ⟨c, rest, by rw [compactChars, intText, if_neg hn, hc], ?_⟩
      exact Kind.ofLead?_of_isDigit (isDigit_of_mem_toDigits (n := n.natAbs) c (by rw [hc]; simp))
  | float x => exact absurd h (by simp [Integral])

theorem compactChars_append_ne_cons {value : Json} (h : value.Integral) {c : Char}
    (hc : Kind.ofLead? c = none) (r s : List Char) : value.compactChars ++ r ≠ c :: s := by
  intro he
  obtain ⟨d, rest, htext, hd⟩ := compactChars_lead h
  rw [htext, List.cons_append, List.cons.injEq] at he
  rw [he.1, hc] at hd
  contradiction

theorem kind_eq_of_append {v w : Json} (hv : v.Integral) (hw : w.Integral) {r r' : List Char}
    (h : v.compactChars ++ r = w.compactChars ++ r') : v.kind = w.kind := by
  obtain ⟨c, cs, hc, hvk⟩ := compactChars_lead hv
  obtain ⟨d, ds, hd, hwk⟩ := compactChars_lead hw
  rw [hc, hd, List.cons_append, List.cons_append] at h
  rw [← Option.some_inj, ← hvk, ← hwk, (List.cons.inj h).1]

/-- Two values that begin one text are the same. -/
theorem compactChars_append_inj (v w : Json) (hv : v.Integral) (hw : w.Integral)
    {r r' : List Char} (hr : Halts r) (hr' : Halts r')
    (h : v.compactChars ++ r = w.compactChars ++ r') : v = w ∧ r = r' := by
  -- the first characters leave only the pairs of one kind
  induction v using Json.induct generalizing w r r' <;>
    have hkind := kind_eq_of_append hv hw h <;>
    cases w <;> simp only [kind, reduceCtorEq] at hkind
  case null.null => exact ⟨rfl, List.append_cancel_left h⟩
  case bool.bool b b' => cases b <;> cases b' <;> simp_all [compactChars]
  case int.int m n =>
    obtain ⟨rfl, hrest⟩ := intText_append_inj hr hr' h
    exact ⟨rfl, hrest⟩
  case int.float | float.int | float.float => simp [Integral] at hv hw
  case str.str s t =>
    obtain ⟨rfl, hrest⟩ := stringText_append_inj h
    exact ⟨rfl, hrest⟩
  case arr.arr items ih others =>
    have hi := (itemsIntegral_iff items).1 hv
    have ho := (itemsIntegral_iff others).1 hw
    have hitem : ∀ x ∈ items, ∀ y ∈ others, ∀ {s t}, Halts s → Halts t →
        x.compactChars ++ s = y.compactChars ++ t → x = y ∧ s = t := by
      intro x hx y hy s t hs ht he
      exact ih x hx y (hi x hx) (ho y hy) hs ht he
    simp only [compactChars, compactItems_eq, List.cons_append, List.append_assoc,
      List.nil_append, List.cons.injEq, true_and] at h
    obtain ⟨rfl, hrest⟩ := intercalate_append_inj (by decide) (by decide)
      (fun x hx => compactChars_append_ne_cons (hi x hx) (by decide))
      (fun y hy => compactChars_append_ne_cons (ho y hy) (by decide)) hitem h
    exact ⟨rfl, hrest⟩
  case obj.obj fields ih others =>
    have hi := (fieldsIntegral_iff fields).1 hv
    have ho := (fieldsIntegral_iff others).1 hw
    have hfield : ∀ f ∈ fields, ∀ g ∈ others, ∀ {s t}, Halts s → Halts t →
        fieldText f ++ s = fieldText g ++ t → f = g ∧ s = t := by
      rintro ⟨key, value⟩ hf ⟨key', value'⟩ hg s t hs ht he
      simp only [fieldText, List.append_assoc, List.cons_append] at he
      obtain ⟨rfl, hvalue⟩ := stringText_append_inj he
      obtain ⟨rfl, hrest⟩ := ih _ hf value' (hi _ hf) (ho _ hg) hs ht (List.cons.inj hvalue).2
      exact ⟨rfl, hrest⟩
    have hquote (f : String × Json) (s t : List Char) : fieldText f ++ s ≠ '\x7d' :: t := by
      simp [fieldText, stringText]
    simp only [compactChars, compactFields_eq, List.cons_append, List.append_assoc,
      List.nil_append, List.cons.injEq, true_and] at h
    obtain ⟨rfl, hrest⟩ := intercalate_append_inj (by decide) (by decide)
      (fun f _ => hquote f) (fun g _ => hquote g) hfield h
    exact ⟨rfl, hrest⟩

theorem compact_inj {v w : Json} (hv : v.Integral) (hw : w.Integral)
    (h : v.compact = w.compact) : v = w := by
  have hchars : v.compactChars ++ [] = w.compactChars ++ [] := by
    simpa [compact, String.ofList_inj] using h
  exact (compactChars_append_inj v w hv hw halts_nil halts_nil hchars).1

/-! ## One line -/

theorem notMem_escapeChar (c : Char) : '\n' ∉ escapeChar c := by
  unfold escapeChar
  split_ifs with h1 h2 h3 h4 h5 h6 h7 h8
  on_goal 9 => simpa using Ne.symm h5
  on_goal 8 =>
    have hbyte : ∀ n < 0x20, '\n' ∉ hexByte n := by decide
    simpa using hbyte c.toNat h8
  all_goals simp

theorem notMem_stringText (s : String) : '\n' ∉ stringText s := by
  simpa [stringText] using fun c _ => notMem_escapeChar c

theorem mem_intText {n : Int} : ∀ c ∈ intText n, c = '-' ∨ c.isDigit = true := by
  unfold intText
  split
  · exact List.forall_mem_cons.2 ⟨.inl rfl, fun c hc => .inr (isDigit_of_mem_toDigits c hc)⟩
  · exact fun c hc => .inr (isDigit_of_mem_toDigits c hc)

theorem notMem_intText {c : Char} (hsign : c ≠ '-') (hdigit : c.isDigit = false) (n : Int) :
    c ∉ intText n := by
  intro hc
  rcases mem_intText c hc with h | h
  · exact hsign h
  · rw [hdigit] at h
    contradiction

theorem notMem_intercalate {c : Char} (hc : c ≠ ',') {texts : List (List Char)}
    (h : ∀ text ∈ texts, c ∉ text) : c ∉ [','].intercalate texts := by
  induction texts with
  | nil => simp
  | cons text rest ih =>
    obtain ⟨htext, hrest⟩ := List.forall_mem_cons.1 h
    cases rest with
    | nil => simpa using htext
    | cons next rest =>
      rw [List.intercalate_cons_cons]
      simpa [htext, hc] using ih hrest

theorem notMem_toDigits (n : Nat) : '\n' ∉ Nat.toDigits 10 n := fun hc =>
  absurd (isDigit_of_mem_toDigits _ hc) (by decide)

theorem notMem_positional {digits : List Char} (h : '\n' ∉ digits) (point : Int) :
    '\n' ∉ Binary64.positional digits point := by
  have htake (k : Nat) : '\n' ∉ digits.take k := fun hc => h (List.mem_of_mem_take hc)
  have hdrop (k : Nat) : '\n' ∉ digits.drop k := fun hc => h (List.mem_of_mem_drop hc)
  unfold Binary64.positional
  split
  · simp [h]
  · dsimp only
    split
    · simp [h]
    · simp [htake, hdrop]

theorem notMem_scientific {digits : List Char} (h : '\n' ∉ digits) (exponent : Int) :
    '\n' ∉ Binary64.scientific digits exponent := by
  have hlead : '\n' ∉ digits.take 1 := fun hc => h (List.mem_of_mem_take hc)
  have hfraction : '\n' ∉ (if digits.length ≤ 1 then [] else '.' :: digits.drop 1) := by
    split
    · exact List.not_mem_nil
    · exact List.not_mem_cons_of_ne_of_not_mem (by decide) fun hc => h (List.mem_of_mem_drop hc)
  have hexponent : '\n' ∉ ['e', if exponent < 0 then '-' else '+'] := by split <;> decide
  simp only [Binary64.scientific, List.mem_append, not_or]
  exact ⟨⟨⟨hlead, hfraction⟩, hexponent⟩, notMem_toDigits _⟩

theorem notMem_floatText (x : Binary64) : '\n' ∉ x.toText.toList := by
  have hsigned {cs : List Char} (h : '\n' ∉ cs) :
      '\n' ∉ (String.ofList ((if x.isNegative then ['-'] else []) ++ cs)).toList := by
    rw [String.toList_ofList]
    split <;> simpa using h
  have hdigits (n : Nat) :
      '\n' ∉ ((Nat.toDigits 10 n).reverse.dropWhile (· == '0')).reverse := by
    intro hc
    have hsub := List.dropWhile_sublist (· == '0') (l := (Nat.toDigits 10 n).reverse)
    exact notMem_toDigits n (List.mem_reverse.1 (hsub.mem (List.mem_reverse.1 hc)))
  simp only [Binary64.toText]
  split
  · exact hsigned (by decide)
  · split
    · exact hsigned (notMem_positional (hdigits _) _)
    · exact hsigned (notMem_scientific (hdigits _) _)

/-- The compact text has no line feed. -/
theorem notMem_compactChars (v : Json) : '\n' ∉ v.compactChars := by
  induction v using Json.induct with
  | null => decide
  | bool b => cases b <;> decide
  | int n => exact notMem_intText (by decide) (by decide) n
  | float x => exact notMem_floatText x
  | str s => exact notMem_stringText s
  | arr items ih =>
    have hitems : '\n' ∉ compactItems items := by
      rw [compactItems_eq]
      exact notMem_intercalate (by decide) (List.forall_mem_map.2 ih)
    simp [compactChars, hitems]
  | obj fields ih =>
    have hfields : '\n' ∉ compactFields fields := by
      rw [compactFields_eq]
      refine notMem_intercalate (by decide) (List.forall_mem_map.2 fun f hf => ?_)
      simp [fieldText, notMem_stringText, ih f hf]
    simp [compactChars, hfields]

end ParserPackages.Json
