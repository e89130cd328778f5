import ParserPackages.Text.Basic

/-!
# Joining, cutting and reading lines

Cutting at a character undoes joining with it where the character is in none of the parts, and
joining always undoes cutting. The lines of a text are its pieces between line feeds, but for a last
one that is empty and for carriage returns at the ends of the others.
-/
namespace ParserPackages.Text

theorem piecesOf_cons_of_ne {sep c : Char} (h : c ≠ sep) (cs : List Char) :
    ∃ piece rest, piecesOf sep cs = piece :: rest ∧
      piecesOf sep (c :: cs) = (c :: piece) :: rest := by
  rw [piecesOf, if_neg h]
  cases hp : piecesOf sep cs with
  | nil => exact absurd hp (piecesOf_ne_nil sep cs)
  | cons piece rest => exact ⟨piece, rest, rfl, rfl⟩

theorem piecesOf_append_sep (sep : Char) (cs rest : List Char) :
    piecesOf sep (cs ++ sep :: rest) = piecesOf sep cs ++ piecesOf sep rest := by
  induction cs with
  | nil => simp [piecesOf]
  | cons c cs ih =>
    by_cases h : c = sep
    · rw [List.cons_append, piecesOf, if_pos h, ih, piecesOf, if_pos h, List.cons_append]
    · obtain ⟨piece, pieces, hp, hc⟩ := piecesOf_cons_of_ne h cs
      rw [List.cons_append, piecesOf, if_neg h, ih, hc, hp]
      rfl

theorem piecesOf_append_cons {sep : Char} {cs : List Char} (h : sep ∉ cs) (rest : List Char) :
    piecesOf sep (cs ++ sep :: rest) = cs :: piecesOf sep rest := by
  rw [piecesOf_append_sep, piecesOf_of_notMem h, List.singleton_append]

theorem notMem_of_mem_piecesOf {sep : Char} {cs : List Char} :
    ∀ piece ∈ piecesOf sep cs, sep ∉ piece := by
  induction cs with
  | nil => simp [piecesOf]
  | cons c cs ih =>
    by_cases h : c = sep
    · simpa [piecesOf, h] using ih
    · obtain ⟨piece, rest, hp, hc⟩ := piecesOf_cons_of_ne h cs
      rw [hp] at ih
      rw [hc]
      simpa [Ne.symm h] using ih

/-! ## Joining and cutting -/

theorem toList_join_cons (sep s : String) {rest : List String} (h : rest ≠ []) :
    (join sep (s :: rest)).toList = s.toList ++ sep.toList ++ (join sep rest).toList := by
  cases rest with
  | nil => exact absurd rfl h
  | cons t rest => simp [join]

theorem join_concat (sep s t : String) (parts : List String) :
    join sep (s :: (parts ++ [t])) = join sep (s :: parts) ++ sep ++ t := by
  induction parts generalizing s with
  | nil => rfl
  | cons u parts ih => simp [join, ih, String.append_assoc]

theorem notMem_join {c : Char} {sep : String} (hsep : c ∉ sep.toList) {parts : List String}
    (h : ∀ s ∈ parts, c ∉ s.toList) : c ∉ (join sep parts).toList := by
  induction parts with
  | nil => simp [join]
  | cons s rest ih =>
    obtain ⟨hs, hrest⟩ := List.forall_mem_cons.1 h
    cases rest with
    | nil => exact hs
    | cons t rest => simpa [join, hs, hsep] using ih hrest

section Cutting

variable {c : Char} {sep : String} (hsep : sep.toList = [c])

include hsep

/-- The pieces of texts put together are those of each text. -/
theorem split_join_eq_flatMap {parts : List String} (hne : parts ≠ []) :
    split c (join sep parts) = parts.flatMap (split c) := by
  induction parts with
  | nil => exact absurd rfl hne
  | cons s rest ih =>
    by_cases hr : rest = []
    · simp [hr, join]
    · rw [split, toList_join_cons sep s hr, hsep, List.append_assoc, List.singleton_append,
        piecesOf_append_sep, List.map_append, List.flatMap_cons]
      exact congrArg (split c s ++ ·) (ih hr)

omit hsep in
theorem split_of_notMem {s : String} (h : c ∉ s.toList) : split c s = [s] := by
  rw [split, piecesOf_of_notMem h, List.map_singleton, String.ofList_toList]

theorem split_join {parts : List String} (hne : parts ≠ []) (h : ∀ s ∈ parts, c ∉ s.toList) :
    split c (join sep parts) = parts := by
  rw [split_join_eq_flatMap hsep hne, List.flatMap_def,
    List.map_congr_left fun s hs => split_of_notMem (h s hs), ← List.flatMap_def,
    List.flatMap_singleton']

theorem join_split (s : String) : join sep (split c s) = s := by
  rw [← String.toList_inj, split]
  induction s.toList with
  | nil => simp [piecesOf, join]
  | cons d cs ih =>
    by_cases h : d = c
    · rw [piecesOf, if_pos h, List.map_cons, toList_join_cons, ih, hsep, h]
      · simp
      · simpa using piecesOf_ne_nil c cs
    · obtain ⟨piece, rest, hp, hd⟩ := piecesOf_cons_of_ne h cs
      rw [hp, List.map_cons] at ih
      rw [hd, List.map_cons]
      by_cases hr : rest = []
      · simpa [hr, join] using ih
      · rw [toList_join_cons] at ih ⊢
        · simpa using ih
        · simpa using hr
        · simpa using hr

end Cutting

theorem split_injective (c : Char) {s t : String} (h : split c s = split c t) : s = t := by
  have hsep : (String.singleton c).toList = [c] := String.toList_singleton c
  rw [← join_split hsep s, h, join_split hsep]

theorem notMem_of_mem_split {c : Char} {s : String} : ∀ part ∈ split c s, c ∉ part.toList := by
  rw [split, List.forall_mem_map]
  intro piece hp
  rw [String.toList_ofList]
  exact notMem_of_mem_piecesOf piece hp

/-! ## Separators -/

section Separators

variable {c : Char} {sep : String} (hc : c ∈ sep.toList)

include hc

/-- A character of the separator that stands in neither of the first parts tells the parts
apart. -/
theorem append_sep_inj {a b x y : String} (ha : c ∉ a.toList) (hb : c ∉ b.toList)
    (h : a ++ sep ++ x = b ++ sep ++ y) : a = b ∧ x = y := by
  obtain ⟨before, after, hsep, hbefore⟩ := List.eq_append_cons_of_mem hc
  have hcut (u v : String) : (u ++ sep ++ v).toList =
      (u.toList ++ before) ++ c :: (after ++ v.toList) := by simp [hsep]
  have hfirst (u : String) (hu : c ∉ u.toList) : c ∉ u.toList ++ before := by simp [hu, hbefore]
  have hpieces : piecesOf c (a ++ sep ++ x).toList = piecesOf c (b ++ sep ++ y).toList := by rw [h]
  rw [hcut, hcut, piecesOf_append_cons (hfirst a ha), piecesOf_append_cons (hfirst b hb),
    List.cons.injEq, List.append_left_inj, String.toList_inj] at hpieces
  obtain ⟨rfl, -⟩ := hpieces
  exact ⟨rfl, (String.append_right_inj _).1 h⟩

theorem append_append_sep_inj {head a b x y : String} (ha : c ∉ a.toList) (hb : c ∉ b.toList)
    (h : head ++ a ++ sep ++ x = head ++ b ++ sep ++ y) : a = b ∧ x = y := by
  simp only [String.append_assoc, String.append_right_inj] at h
  simp only [← String.append_assoc] at h
  exact append_sep_inj hc ha hb h

theorem mem_join_cons_cons (s t : String) (rest : List String) :
    c ∈ (join sep (s :: t :: rest)).toList := by
  simp [join, hc]

omit hc in
theorem join_cons_ne_empty {s : String} (hs : s ≠ "") (rest : List String) :
    join sep (s :: rest) ≠ "" := by
  cases rest with
  | nil => exact hs
  | cons t rest => simp [join, hs]

/-- Texts put together are told apart where none is empty and a character of the separator stands
in none. -/
theorem join_inj {parts others : List String} (hp : ∀ s ∈ parts, s ≠ "" ∧ c ∉ s.toList)
    (ho : ∀ s ∈ others, s ≠ "" ∧ c ∉ s.toList) (h : join sep parts = join sep others) :
    parts = others := by
  induction parts generalizing others with
  | nil =>
    cases others with
    | nil => rfl
    | cons q others => exact absurd h.symm (join_cons_ne_empty (ho q (by simp)).1 others)
  | cons p parts ih =>
    obtain ⟨⟨hpe, hpc⟩, hparts⟩ := List.forall_mem_cons.1 hp
    cases others with
    | nil => exact absurd h (join_cons_ne_empty hpe parts)
    | cons q others =>
      obtain ⟨⟨hqe, hqc⟩, hothers⟩ := List.forall_mem_cons.1 ho
      cases parts with
      | nil =>
        cases others with
        | nil => exact congrArg ([·]) h
        | cons q' others =>
          have hp' : p = join sep (q :: q' :: others) := h
          exact absurd (hp' ▸ mem_join_cons_cons hc q q' others) hpc
      | cons p' parts =>
        cases others with
        | nil =>
          have hq' : join sep (p :: p' :: parts) = q := h
          exact absurd (hq' ▸ mem_join_cons_cons hc p p' parts) hqc
        | cons q' others =>
          obtain ⟨rfl, hrest⟩ := append_sep_inj hc hpc hqc h
          rw [ih hparts hothers hrest]

end Separators

/-! ## Lines -/

def Clean (line : List Char) : Prop := line ≠ [] ∧ line.getLast? ≠ some '\r'

instance (line : List Char) : Decidable (Clean line) := inferInstanceAs (Decidable (_ ∧ _))

theorem Clean.dropReturn_eq {line : List Char} (h : Clean line) : dropReturn line = line :=
  if_neg h.2

theorem dropReturn_cons {c : Char} (h : c ≠ '\r') (line : List Char) :
    dropReturn (c :: line) = c :: dropReturn line := by
  cases line with
  | nil => simp [dropReturn, h]
  | cons d line =>
    simp only [dropReturn, List.getLast?_cons_cons]
    split <;> simp

theorem linesOfPieces_of_clean {pieces : List (List Char)} (h : ∀ p ∈ pieces, Clean p) :
    linesOfPieces pieces = pieces := by
  induction pieces with
  | nil => rfl
  | cons piece rest ih =>
    obtain ⟨hp, hrest⟩ := List.forall_mem_cons.1 h
    cases rest with
    | nil => simp [linesOfPieces, hp.1]
    | cons next rest => rw [linesOfPieces, hp.dropReturn_eq, ih hrest]; simp

theorem linesOfPieces_concat_nil (pieces : List (List Char)) :
    linesOfPieces (pieces ++ [[]]) = pieces.map dropReturn := by
  induction pieces with
  | nil => simp [linesOfPieces]
  | cons piece rest ih =>
    rw [List.cons_append, linesOfPieces, ih, List.map_cons]
    simp

theorem notMem_of_mem_linesOfPieces {c : Char} {pieces : List (List Char)}
    (h : ∀ p ∈ pieces, c ∉ p) : ∀ line ∈ linesOfPieces pieces, c ∉ line := by
  induction pieces with
  | nil => simp [linesOfPieces]
  | cons piece rest ih =>
    obtain ⟨hp, hrest⟩ := List.forall_mem_cons.1 h
    have hdrop : c ∉ dropReturn piece := by
      unfold dropReturn
      split
      · exact fun hm => hp (List.dropLast_subset _ hm)
      · exact hp
    cases rest with
    | nil => by_cases hl : piece = [] <;> simp [linesOfPieces, hl, hp]
    | cons next rest => simpa [linesOfPieces, hdrop] using ih hrest

theorem notMem_of_mem_lines {s : String} : ∀ line ∈ lines s, '\n' ∉ line.toList := by
  rw [lines, List.forall_mem_map]
  intro line hl
  rw [String.toList_ofList]
  exact notMem_of_mem_linesOfPieces notMem_of_mem_piecesOf line hl

theorem lines_ne_nil {s : String} (h : s ≠ "") : lines s ≠ [] := by
  have hs : s.toList ≠ [] := by simpa using h
  rw [lines, ne_eq, List.map_eq_nil_iff]
  obtain ⟨c, cs, hcs⟩ := List.exists_cons_of_ne_nil hs
  by_cases hc : c = '\n'
  · obtain ⟨p, ps, hp⟩ := List.exists_cons_of_ne_nil (piecesOf_ne_nil '\n' cs)
    simp [hcs, hc, piecesOf, hp, linesOfPieces]
  · obtain ⟨piece, rest, -, hp⟩ := piecesOf_cons_of_ne hc cs
    rw [hcs, hp]
    cases rest <;> simp [linesOfPieces]

theorem piecesOf_terminated {c : Char} {parts : List (List Char)} (h : ∀ p ∈ parts, c ∉ p) :
    piecesOf c (parts.flatMap (· ++ [c])) = parts ++ [[]] := by
  induction parts with
  | nil => rfl
  | cons part rest ih =>
    obtain ⟨hp, hrest⟩ := List.forall_mem_cons.1 h
    rw [List.flatMap_cons, List.append_assoc, List.singleton_append, piecesOf_append_cons hp,
      ih hrest, List.cons_append]

/-- Clean lines are read back from the text that they were joined to. -/
theorem lines_join {parts : List String} (hne : parts ≠ [])
    (h : ∀ s ∈ parts, '\n' ∉ s.toList ∧ Clean s.toList) : lines (join "\n" parts) = parts := by
  have hsplit : split '\n' (join "\n" parts) = parts :=
    split_join rfl hne fun s hs => (h s hs).1
  have hpieces := congrArg (List.map String.toList) hsplit
  simp only [split, List.map_map, Function.comp_def, String.toList_ofList, List.map_id'] at hpieces
  rw [lines, hpieces, linesOfPieces_of_clean]
  · simp
  · simpa using fun s hs => (h s hs).2

end ParserPackages.Text
