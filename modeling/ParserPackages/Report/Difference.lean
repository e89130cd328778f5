import ParserPackages.Configuration.Summary
import ParserPackages.Report.Description

/-! # Line differences

A common subsequence is read back from the table of lengths, and the lines of both texts are
marked against it. Neighbouring lines with one mark are shown as one chunk of text. -/

namespace ParserPackages

namespace Difference

/-- The row of the table below `above`, for a line of the first text. `diagonal` and `left` are
the lengths before this column, in the row above and in this row. -/
def nextRow (line : String) (diagonal left : Nat) : List String → List Nat → List Nat
  | b :: bs, above :: row =>
    let here := if b = line then diagonal + 1 else max above left
    here :: nextRow line above here bs row
  | _, _ => []

def rowsBelow (b : List String) (above : List Nat) : List String → List (List Nat)
  | [] => []
  | line :: rest =>
    let row := nextRow line 0 0 b above
    row :: rowsBelow b row rest

/-- The table of lengths: at row `i` and column `j` that of a longest common subsequence of the
lines up to and including line `i` of one text and line `j` of the other. -/
def table (a b : List String) : List (List Nat) := rowsBelow b (b.map fun _ => 0) a

def cell (t : List (List Nat)) (row column : Nat) : Nat :=
  ((t[row]?).getD [])[column]?.getD 0

/-- Reads a common subsequence back from row `i` and column `j`, in front of what was found. Where
a column is the first one, the last cell of the row above stands for the cell to its left, and a
step to the left ends the reading. -/
def readBack (a b : List String) (t : List (List Nat)) :
    (steps i j : Nat) → (found : List String) → List String
  | 0, _, _, found => found
  | steps + 1, i, j, found =>
    match a[i]?, b[j]? with
    | some x, some y =>
      if x = y then
        match i, j with
        | i + 1, j + 1 => readBack a b t steps i j (x :: found)
        | _, _ => x :: found
      else
        match i, j with
        | 0, 0 => found
        | 0, j + 1 => readBack a b t steps 0 j found
        | i + 1, 0 =>
          if cell t i 0 < cell t i (b.length - 1) then found else readBack a b t steps i 0 found
        | i + 1, j + 1 =>
          if cell t i (j + 1) < cell t (i + 1) j then readBack a b t steps (i + 1) j found
          else readBack a b t steps i (j + 1) found
    | _, _ => found

/-- The common subsequence that two texts are marked against. A single empty line does not count
as one. -/
def common (a b : List String) : List String :=
  match readBack a b (table a b) (a.length + b.length) (a.length - 1) (b.length - 1) [] with
  | [""] => []
  | lines => lines

inductive Mark where
  | same
  | removed
  | added
  deriving DecidableEq, Repr

/-- Marks the lines of both texts against a common subsequence. -/
def marked (a b : List String) : List String → List (Mark × String)
  | [] => a.map (Mark.removed, ·) ++ b.map (Mark.added, ·)
  | c :: rest =>
    (a.takeWhile (· != c)).map (Mark.removed, ·) ++ (b.takeWhile (· != c)).map (Mark.added, ·) ++
      (Mark.same, c) ::
        marked (a.dropWhile (· != c)).tail (b.dropWhile (· != c)).tail rest

/-- Puts neighbouring lines with one mark together. -/
def chunks : List (Mark × String) → List (Mark × List String)
  | [] => []
  | (mark, line) :: rest =>
    match chunks rest with
    | [] => [(mark, [line])]
    | (next, lines) :: others =>
      if mark = next then (mark, line :: lines) :: others
      else (mark, [line]) :: (next, lines) :: others

def ofTexts (before after : String) : List (Mark × String) :=
  let a := Text.split '\n' before
  let b := Text.split '\n' after
  (chunks (marked a b (common a b))).map fun (mark, lines) => (mark, Text.join "\n" lines)

def Mark.sign : Mark → String
  | same => " "
  | removed => "-"
  | added => "+"

def Mark.style : Mark → Style
  | same => .plain
  | removed => .removed
  | added => .added

/-- The chunks with their signs and styles; every chunk is cut into lines again. -/
def report (differences : List (Mark × String)) : List Piece :=
  differences.flatMap (fun (mark, text) =>
    .style mark.style :: (Text.lines text).map fun line => .line (mark.sign ++ line)) ++
    [.style .plain]

end Difference

def Summary.difference (before after : Summary) : List Piece :=
  Difference.report (Difference.ofTexts before.toText after.toText)

end ParserPackages
