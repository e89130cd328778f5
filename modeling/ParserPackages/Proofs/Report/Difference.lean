import Mathlib.Data.List.Basic
import ParserPackages.Report.Difference
import ParserPackages.Proofs.Script.Account
import ParserPackages.Proofs.Text.Lines

/-!
# Both sides of a difference

A difference shows two texts at once: without the lines of one side it is the other side. This
needs no more of the table of lengths than that reading back finds a common subsequence, whatever
the table holds. Two equal texts are read back along the diagonal, where the table is not asked.
-/
namespace ParserPackages.Difference

/-! ## The common subsequence -/

section Common

variable {a b : List String} {t : List (List Nat)}

private theorem cons_sublist_drop {i : Nat} {x : String} {found : List String}
    (hx : a[i]? = some x) (h : found.Sublist (a.drop (i + 1))) :
    (x :: found).Sublist (a.drop i) := by
  obtain ⟨hi, rfl⟩ := List.getElem?_eq_some_iff.1 hx
  rw [List.drop_eq_getElem_cons hi]
  exact h.cons_cons _

private theorem sublist_drop_of_succ {i : Nat} {found : List String}
    (h : found.Sublist (a.drop (i + 1))) : found.Sublist (a.drop i) :=
  h.trans (List.drop_sublist_drop_left a (Nat.le_succ i))

/-- Reading back puts lines in front that stand in both texts before what was found. -/
theorem readBack_sublist {steps i j : Nat} {found : List String}
    (ha : found.Sublist (a.drop (i + 1))) (hb : found.Sublist (b.drop (j + 1))) :
    (readBack a b t steps i j found).Sublist a ∧ (readBack a b t steps i j found).Sublist b := by
  fun_induction readBack a b t steps i j found with
  | case1 | case4 | case6 | case10 =>
    exact ⟨ha.trans (List.drop_sublist ..), hb.trans (List.drop_sublist ..)⟩
  | case2 _ _ _ _ _ hy hx ih => exact ih (cons_sublist_drop hx ha) (cons_sublist_drop hy hb)
  | case3 _ _ _ _ _ hy _ hx =>
    exact ⟨(cons_sublist_drop hx ha).trans (List.drop_sublist ..),
      (cons_sublist_drop hy hb).trans (List.drop_sublist ..)⟩
  | case5 _ _ _ _ _ _ _ _ ih => exact ih ha (sublist_drop_of_succ hb)
  | case7 _ _ _ _ _ _ _ _ _ ih => exact ih (sublist_drop_of_succ ha) hb
  | case8 _ _ _ _ _ _ _ _ _ _ ih => exact ih ha (sublist_drop_of_succ hb)
  | case9 _ _ _ _ _ _ _ _ _ _ ih => exact ih (sublist_drop_of_succ ha) hb

/-- A text is read back against itself line by line. -/
theorem readBack_self {steps i : Nat} (hi : i < a.length) (hs : i < steps) (found : List String) :
    readBack a a t steps i i found = a.take (i + 1) ++ found := by
  induction i generalizing steps found with
  | zero =>
    obtain _ | steps := steps
    · omega
    · rw [readBack.eq_def, List.take_add_one]
      simp [List.getElem?_eq_getElem hi]
  | succ i ih =>
    obtain _ | steps := steps
    · omega
    · rw [readBack.eq_def]
      simp only [List.getElem?_eq_getElem hi, if_true]
      rw [ih (by omega) (by omega), ← List.take_append_getElem hi, List.append_assoc,
        List.singleton_append]

theorem common_sublist (a b : List String) :
    (common a b).Sublist a ∧ (common a b).Sublist b := by
  have hread (steps i j : Nat) : (readBack a b (table a b) steps i j []).Sublist a ∧
      (readBack a b (table a b) steps i j []).Sublist b :=
    readBack_sublist (List.nil_sublist _) (List.nil_sublist _)
  rw [common]
  split
  · exact ⟨List.nil_sublist _, List.nil_sublist _⟩
  · exact hread _ _ _

theorem common_self (ha : a ≠ [""]) : common a a = a := by
  have hread : readBack a a (table a a) (a.length + a.length) (a.length - 1) (a.length - 1) [] =
      a := by
    cases a with
    | nil => rfl
    | cons x rest =>
      rw [readBack_self (by simp) (by simp; omega)]
      simp
  rw [common, hread]
  split
  · contradiction
  · rfl

end Common

/-! ## Marked lines -/

def without (mark : Mark) (lines : List (Mark × String)) : List String :=
  (lines.filter (·.1 ≠ mark)).map (·.2)

theorem without_append (mark : Mark) (first second : List (Mark × String)) :
    without mark (first ++ second) = without mark first ++ without mark second := by
  simp [without]

theorem without_map (mark other : Mark) (lines : List String) :
    without mark (lines.map (other, ·)) = if other = mark then [] else lines := by
  by_cases h : other = mark <;> simp [without, List.filter_map, Function.comp_def, h]

theorem without_cons (mark : Mark) (p : Mark × String) (rest : List (Mark × String)) :
    without mark (p :: rest) =
      if p.1 = mark then without mark rest else p.2 :: without mark rest := by
  by_cases h : p.1 = mark <;> simp [without, h]

/-- A line that both begins the common lines and stands in a text cuts the text in two. -/
private theorem dropWhile_of_sublist {c : String} {rest a : List String}
    (h : (c :: rest).Sublist a) :
    ∃ after, a.dropWhile (· != c) = c :: after ∧ rest.Sublist after := by
  induction a with
  | nil => cases h
  | cons x a ih =>
    by_cases hx : x = c
    · subst hx
      exact ⟨a, by simp, List.cons_sublist_cons.1 h⟩
    · have ha : (c :: rest).Sublist a := by
        cases h with
        | cons _ h => exact h
        | cons_cons => exact absurd rfl hx
      simpa [hx] using ih ha

private theorem takeWhile_append_cons {c : String} {a after : List String}
    (h : a.dropWhile (· != c) = c :: after) : a.takeWhile (· != c) ++ c :: after = a := by
  rw [← h, List.takeWhile_append_dropWhile]

/-- Without the lines of one text, marked lines are the other text. -/
theorem without_marked {a b cs : List String} (ha : cs.Sublist a) (hb : cs.Sublist b) :
    without .added (marked a b cs) = a ∧ without .removed (marked a b cs) = b := by
  induction cs generalizing a b with
  | nil => simp [marked, without_append, without_map]
  | cons c rest ih =>
    obtain ⟨after, hdrop, hafter⟩ := dropWhile_of_sublist ha
    obtain ⟨after', hdrop', hafter'⟩ := dropWhile_of_sublist hb
    obtain ⟨iha, ihb⟩ := ih hafter hafter'
    rw [marked, hdrop, hdrop', List.tail_cons, List.tail_cons]
    have htake := takeWhile_append_cons hdrop
    have htake' := takeWhile_append_cons hdrop'
    simp only [without_append, without_map, without_cons, iha, ihb]
    constructor
    · simpa using htake
    · simpa using htake'

theorem marked_self (a : List String) : marked a a a = a.map (Mark.same, ·) := by
  induction a with
  | nil => rfl
  | cons c rest ih => simp [marked, ih]

/-- No line differs exactly when the texts are the same. -/
theorem marked_all_same_iff {a b : List String} (ha : a ≠ [""]) :
    (∀ p ∈ marked a b (common a b), p.1 = .same) ↔ a = b := by
  constructor
  · intro h
    obtain ⟨hca, hcb⟩ := common_sublist a b
    obtain ⟨hbefore, hafter⟩ := without_marked hca hcb
    have hkeep (mark : Mark) (hm : mark ≠ .same) : without mark (marked a b (common a b)) =
        (marked a b (common a b)).map (·.2) := by
      rw [without, List.filter_eq_self.2]
      intro p hp
      simpa [h p hp] using Ne.symm hm
    calc
      a = without .added (marked a b (common a b)) := hbefore.symm
      _ = (marked a b (common a b)).map (·.2) := hkeep .added nofun
      _ = without .removed (marked a b (common a b)) := (hkeep .removed nofun).symm
      _ = b := hafter
  · rintro rfl
    rw [common_self ha, marked_self]
    simp

/-! ## Chunks -/

theorem flatMap_chunks (lines : List (Mark × String)) :
    ((chunks lines).flatMap fun chunk => chunk.2.map (chunk.1, ·)) = lines := by
  induction lines with
  | nil => rfl
  | cons p rest ih =>
    obtain ⟨mark, line⟩ := p
    rw [chunks]
    split
    · rename_i hc
      rw [hc] at ih
      simpa using ih
    · rename_i next lines others hc
      rw [hc] at ih
      split
      · rename_i hm
        subst hm
        simpa using ih
      · simpa using ih

theorem ne_nil_of_mem_chunks {lines : List (Mark × String)} :
    ∀ chunk ∈ chunks lines, chunk.2 ≠ [] := by
  induction lines with
  | nil => exact List.forall_mem_nil _
  | cons p rest ih =>
    obtain ⟨mark, line⟩ := p
    rw [chunks]
    split
    · simp
    · rename_i next lines others hc
      rw [hc] at ih
      split
      · simpa using (List.forall_mem_cons.1 ih).2
      · simpa using ih

theorem forall_of_mem_chunks {P : Mark → String → Prop} {lines : List (Mark × String)}
    (h : ∀ p ∈ lines, P p.1 p.2) : ∀ chunk ∈ chunks lines, ∀ line ∈ chunk.2, P chunk.1 line := by
  intro chunk hc line hl
  rw [← flatMap_chunks lines] at h
  exact h (chunk.1, line) (List.mem_flatMap.2 ⟨chunk, hc, List.mem_map_of_mem hl⟩)

end ParserPackages.Difference

namespace ParserPackages

/-! ## Output -/

def lineTexts (pieces : List Piece) : List String :=
  pieces.filterMap fun
    | .line text => some text
    | .style _ => none

/-- Without colour, the output is its lines, each ended by a line feed. -/
theorem toList_renderPieces (pieces : List Piece) :
    (renderPieces false pieces).toList =
      ((lineTexts pieces).map String.toList).flatMap (· ++ ['\n']) := by
  have hfrom (text : String) : (pieces.foldl (fun t p => t ++ p.render false) text).toList =
      text.toList ++ ((lineTexts pieces).map String.toList).flatMap (· ++ ['\n']) := by
    induction pieces generalizing text with
    | nil => simp [lineTexts]
    | cons piece rest ih =>
      rw [List.foldl_cons, ih]
      cases piece <;> simp [lineTexts, Piece.render]
  exact hfrom ""

theorem lines_renderPieces {pieces : List Piece}
    (h : ∀ line ∈ lineTexts pieces, '\n' ∉ line.toList) :
    Text.lines (renderPieces false pieces) =
      (lineTexts pieces).map fun line => String.ofList (Text.dropReturn line.toList) := by
  rw [Text.lines, toList_renderPieces, Text.piecesOf_terminated (by simpa using h),
    Text.linesOfPieces_concat_nil, List.map_map, List.map_map]
  rfl

namespace Difference

def shown (p : Mark × String) : String := p.1.sign ++ p.2

theorem lineTexts_report (differences : List (Mark × String)) :
    lineTexts (report differences) =
      differences.flatMap fun d => (Text.lines d.2).map (d.1.sign ++ ·) := by
  induction differences with
  | nil => rfl
  | cons d rest ih =>
    obtain ⟨mark, text⟩ := d
    rw [List.flatMap_cons, ← ih]
    simp [lineTexts, report, List.filterMap_append]

/-- A line that stands as it is in a text and in what is shown of it. -/
def Plain (line : String) : Prop := '\n' ∉ line.toList ∧ Text.Clean line.toList

theorem lineTexts_report_chunks {lines : List (Mark × String)} (h : ∀ p ∈ lines, Plain p.2) :
    lineTexts (report ((chunks lines).map fun chunk => (chunk.1, Text.join "\n" chunk.2))) =
      lines.map shown := by
  rw [lineTexts_report, List.flatMap_map]
  have hread : ∀ chunk ∈ chunks lines, (Text.lines (Text.join "\n" chunk.2)).map
      (chunk.1.sign ++ ·) = (chunk.2.map (chunk.1, ·)).map shown := by
    intro chunk hc
    rw [Text.lines_join (ne_nil_of_mem_chunks chunk hc)
      (forall_of_mem_chunks (P := fun _ line => Plain line) h chunk hc), List.map_map]
    rfl
  calc
    _ = (chunks lines).flatMap fun chunk => (chunk.2.map (chunk.1, ·)).map shown :=
      List.flatMap_congr hread
    _ = lines.map shown := by rw [← List.map_flatMap, flatMap_chunks]

theorem mem_of_mem_marked {a b cs : List String} (ha : cs.Sublist a) (hb : cs.Sublist b) :
    ∀ p ∈ marked a b cs, p.2 ∈ a ∨ p.2 ∈ b := by
  intro p hp
  obtain ⟨hbefore, hafter⟩ := without_marked ha hb
  by_cases hm : p.1 = .added
  · right
    rw [← hafter]
    exact List.mem_map_of_mem (List.mem_filter.2 ⟨hp, by simp [hm]⟩)
  · left
    rw [← hbefore]
    exact List.mem_map_of_mem (List.mem_filter.2 ⟨hp, by simp [hm]⟩)

def Mark.marker : Mark → Char
  | same => ' '
  | removed => '-'
  | added => '+'

theorem toList_shown (p : Mark × String) : (shown p).toList = p.1.marker :: p.2.toList := by
  obtain ⟨mark, line⟩ := p
  cases mark <;> simp [shown, Mark.sign, Mark.marker]

theorem clean_shown {p : Mark × String} (h : Text.Clean p.2.toList) :
    Text.Clean (shown p).toList := by
  rw [toList_shown]
  cases hl : p.2.toList with
  | nil => exact absurd hl h.1
  | cons c rest =>
    rw [hl] at h
    exact ⟨List.cons_ne_nil _ _, by simpa using h.2⟩

/-- The lines of output that have one of these markers, without it. -/
def withMarkers (markers : List Char) (output : List String) : List String :=
  output.filterMap fun line =>
    match line.toList with
    | [] => none
    | c :: rest => if c ∈ markers then some (String.ofList rest) else none

theorem withMarkers_map_shown (markers : List Char) (lines : List (Mark × String)) :
    withMarkers markers (lines.map shown) =
      (lines.filter (·.1.marker ∈ markers)).map (·.2) := by
  induction lines with
  | nil => rfl
  | cons p rest ih =>
    rw [List.map_cons, withMarkers, List.filterMap_cons, toList_shown, ← withMarkers, ih]
    by_cases h : p.1.marker ∈ markers <;> simp [h]

theorem lines_difference {before after : String}
    (hb : ∀ line ∈ Text.split '\n' before, Text.Clean line.toList)
    (ha : ∀ line ∈ Text.split '\n' after, Text.Clean line.toList) :
    let a := Text.split '\n' before
    let b := Text.split '\n' after
    Text.lines (renderPieces false (report (ofTexts before after))) =
      (marked a b (common a b)).map shown := by
  intro a b
  obtain ⟨hca, hcb⟩ := common_sublist a b
  have hplain : ∀ p ∈ marked a b (common a b), Plain p.2 := by
    intro p hp
    rcases mem_of_mem_marked hca hcb p hp with h | h
    · exact ⟨Text.notMem_of_mem_split _ h, hb _ h⟩
    · exact ⟨Text.notMem_of_mem_split _ h, ha _ h⟩
  have htexts : lineTexts (report (ofTexts before after)) = (marked a b (common a b)).map shown :=
    lineTexts_report_chunks hplain
  rw [lines_renderPieces, htexts, List.map_map]
  · refine List.map_congr_left fun p hp => ?_
    change String.ofList (Text.dropReturn (shown p).toList) = shown p
    rw [(clean_shown (hplain p hp).2).dropReturn_eq, String.ofList_toList]
  · rw [htexts, List.forall_mem_map]
    intro p hp
    rw [toList_shown]
    have hm : p.1.marker ≠ '\n' := by cases p.1 <;> decide
    simpa [Ne.symm hm] using (hplain p hp).1

theorem withMarkers_before (lines : List (Mark × String)) :
    withMarkers [' ', '-'] (lines.map shown) = without .added lines := by
  rw [withMarkers_map_shown, without]
  congr 1
  refine List.filter_congr fun p _ => ?_
  cases p.1 <;> decide

theorem withMarkers_after (lines : List (Mark × String)) :
    withMarkers [' ', '+'] (lines.map shown) = without .removed lines := by
  rw [withMarkers_map_shown, without]
  congr 1
  refine List.filter_congr fun p _ => ?_
  cases p.1 <;> decide

theorem lines_report (differences : List (Mark × String)) :
    Text.lines (renderPieces false (report differences)) =
      differences.flatMap fun d => (Text.lines d.2).map fun line =>
        String.ofList (d.1.marker :: Text.dropReturn line.toList) := by
  have hmarker (mark : Mark) : mark.marker ≠ '\n' ∧ mark.marker ≠ '\r' := by
    cases mark <;> decide
  have hshown (mark : Mark) (line : String) :
      (mark.sign ++ line).toList = mark.marker :: line.toList := toList_shown (mark, line)
  rw [lines_renderPieces, lineTexts_report, List.map_flatMap]
  · simp only [List.map_map, Function.comp_def, hshown, Text.dropReturn_cons (hmarker _).2]
  · rw [lineTexts_report]
    intro text ht
    obtain ⟨d, _, ht⟩ := List.mem_flatMap.1 ht
    obtain ⟨line, hl, rfl⟩ := List.mem_map.1 ht
    rw [hshown]
    simpa [Ne.symm (hmarker d.1).1] using Text.notMem_of_mem_lines line hl

/-- No line is marked as removed or added exactly when no chunk with lines is. -/
theorem withMarkers_differing_report {differences : List (Mark × String)}
    (h : ∀ d ∈ differences, d.2 ≠ "") :
    withMarkers ['-', '+'] (Text.lines (renderPieces false (report differences))) = [] ↔
      ∀ d ∈ differences, d.1 = .same := by
  have hmark (mark : Mark) : mark.marker ∈ ['-', '+'] ↔ mark ≠ .same := by cases mark <;> decide
  rw [lines_report, withMarkers, List.filterMap_eq_nil_iff]
  constructor
  · intro hnone d hd
    obtain ⟨line, rest, hl⟩ := List.exists_cons_of_ne_nil (Text.lines_ne_nil (h d hd))
    have hmem : line ∈ Text.lines d.2 := by simp [hl]
    have hline := hnone _ (List.mem_flatMap.2 ⟨d, hd, List.mem_map_of_mem hmem⟩)
    simpa [hmark] using hline
  · intro hsame text ht
    obtain ⟨d, hd, ht⟩ := List.mem_flatMap.1 ht
    obtain ⟨line, hl, rfl⟩ := List.mem_map.1 ht
    simp [hmark, hsame d hd]

theorem forall_chunks_iff {mark : Mark} {lines : List (Mark × String)} :
    (∀ chunk ∈ chunks lines, chunk.1 = mark) ↔ ∀ p ∈ lines, p.1 = mark := by
  constructor
  · intro h p hp
    rw [← flatMap_chunks lines] at hp
    obtain ⟨chunk, hc, hp⟩ := List.mem_flatMap.1 hp
    obtain ⟨line, _, rfl⟩ := List.mem_map.1 hp
    exact h chunk hc
  · intro h chunk hc
    obtain ⟨line, rest, hl⟩ := List.exists_cons_of_ne_nil (ne_nil_of_mem_chunks chunk hc)
    exact forall_of_mem_chunks (P := fun m _ => m = mark) h chunk hc line (by rw [hl]; simp)

/-- Two texts without empty lines differ exactly if a line of their difference is marked. -/
theorem withMarkers_differing_ofTexts {before after : String}
    (hb : ∀ line ∈ Text.split '\n' before, line ≠ "")
    (ha : ∀ line ∈ Text.split '\n' after, line ≠ "") :
    withMarkers ['-', '+'] (Text.lines (renderPieces false (report (ofTexts before after)))) = [] ↔
      before = after := by
  let a := Text.split '\n' before
  let b := Text.split '\n' after
  obtain ⟨hca, hcb⟩ := common_sublist a b
  have hline : ∀ p ∈ marked a b (common a b), p.2 ≠ "" := by
    intro p hp
    exact (mem_of_mem_marked hca hcb p hp).elim (hb p.2) (ha p.2)
  have htext : ∀ d ∈ ofTexts before after, d.2 ≠ "" := by
    rw [ofTexts, List.forall_mem_map]
    rintro ⟨mark, lines⟩ hc
    obtain ⟨line, rest, rfl⟩ := List.exists_cons_of_ne_nil (ne_nil_of_mem_chunks _ hc)
    exact Text.join_cons_ne_empty
      (forall_of_mem_chunks (P := fun _ line => line ≠ "") hline _ hc line (by simp)) rest
  have hne : a ≠ [""] := fun h =>
    hb "" (by rw [show Text.split '\n' before = [""] from h]; simp) rfl
  rw [withMarkers_differing_report htext, ofTexts, List.forall_mem_map]
  refine (forall_chunks_iff.trans (marked_all_same_iff hne)).trans ?_
  exact ⟨Text.split_injective '\n', fun h => congrArg (Text.split '\n') h⟩

end Difference

open Difference

/-- The output of a difference, without colour, where no line of the two texts is empty or ends in a
carriage return. Every line of it has a marker. Those not marked as added are the lines of the first
text, those not marked as removed are the lines of the second, and none is marked as either exactly
when the texts are the same. -/
theorem difference_shows_both_texts (before after : Summary)
    (hb : ∀ line ∈ Text.split '\n' before.toText, Text.Clean line.toList)
    (ha : ∀ line ∈ Text.split '\n' after.toText, Text.Clean line.toList) :
    let output := Text.lines (renderPieces false (before.difference after))
    (∀ line ∈ output, ∃ mark : Mark, line.toList.head? = some mark.marker) ∧
      withMarkers [' ', '-'] output = Text.split '\n' before.toText ∧
      withMarkers [' ', '+'] output = Text.split '\n' after.toText ∧
      (withMarkers ['-', '+'] output = [] ↔ before.toText = after.toText) := by
  intro output
  let a := Text.split '\n' before.toText
  let b := Text.split '\n' after.toText
  have houtput : output = (marked a b (common a b)).map shown := lines_difference hb ha
  obtain ⟨hca, hcb⟩ := common_sublist a b
  obtain ⟨hbefore, hafter⟩ := without_marked hca hcb
  have hnonempty {line : String} (h : Text.Clean line.toList) : line ≠ "" := by
    rintro rfl
    exact h.1 rfl
  refine ⟨?_, ?_, ?_, withMarkers_differing_ofTexts (fun line hl => hnonempty (hb line hl))
    fun line hl => hnonempty (ha line hl)⟩
  · rw [houtput, List.forall_mem_map]
    intro p _
    exact ⟨p.1, by rw [toList_shown, List.head?_cons]⟩
  · rw [houtput, withMarkers_before, hbefore]
  · rw [houtput, withMarkers_after, hafter]

open Sample in
set_option maxRecDepth 10000 in
/-- What the init hook of `core` appends is shown among the lines that stay. -/
theorem difference_of_prepared :
    let before := (Configuration.empty.append core).summary
    let after := prepared.active.summary
    let output := Text.lines (renderPieces false (before.difference after))
    output =
      ["-packages: core", "+packages: core, <local>", " handler character: ",
        " handler delimiter: ", "-handler macro: core-macros",
        "+handler macro: new-Command, core-macros", " handler environment: ",
        "-stack item array: core.ArrayItem", "+stack item array: new.ArrayItem",
        " option width = 1", " preprocessor #0", "+preprocessor #1 priority -1",
        " init hooks: [5]", "-ready hooks: []", "+ready hooks: [-1]"] ∧
      withMarkers [' ', '-'] output = Text.split '\n' before.toText ∧
      withMarkers [' ', '+'] output = Text.split '\n' after.toText ∧
      withMarkers ['-', '+'] output ≠ [] := by
  intro before after output
  have hbefore : Text.split '\n' before.toText = before.textLines :=
    Text.split_join rfl (by decide) (by decide)
  have hafter : Text.split '\n' after.toText = after.textLines :=
    Text.split_join rfl (by decide) (by decide)
  have hb : ∀ line ∈ Text.split '\n' before.toText, Text.Clean line.toList := by
    rw [hbefore]
    decide
  have ha : ∀ line ∈ Text.split '\n' after.toText, Text.Clean line.toList := by
    rw [hafter]
    decide
  obtain ⟨-, hremoved, hadded, hdiffer⟩ := difference_shows_both_texts before after hb ha
  have houtput := lines_difference hb ha
  rw [hbefore, hafter] at houtput
  refine ⟨houtput.trans (by decide), hremoved, hadded, fun h => ?_⟩
  have hsplit := congrArg (Text.split '\n') (hdiffer.1 h)
  rw [hbefore, hafter] at hsplit
  exact absurd hsplit (by decide)

end ParserPackages
