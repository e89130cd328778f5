/-! # Texts

White space, cutting a text at a character, the lines of a text, and replacing one text by
another. -/

namespace ParserPackages.Text

/-! ## White space -/

/-- The twenty-five characters of White_Space. -/
def isSpace (c : Char) : Bool :=
  let n := c.toNat
  (9 ≤ n && n ≤ 13) || n == 0x20 || n == 0x85 || n == 0xA0 || n == 0x1680 ||
    (0x2000 ≤ n && n ≤ 0x200A) || n == 0x2028 || n == 0x2029 || n == 0x202F ||
    n == 0x205F || n == 0x3000

def isBlank (s : String) : Bool := s.toList.all isSpace

def trimEnd (s : String) : String :=
  String.ofList (s.toList.reverse.dropWhile isSpace).reverse

theorem isBlank_iff (s : String) : isBlank s = true ↔ ∀ c ∈ s.toList, isSpace c = true := by
  simp [isBlank]

/-! ## Pieces and lines -/

/-- The pieces between the occurrences of `sep`; there is always at least one. -/
def piecesOf (sep : Char) : List Char → List (List Char)
  | [] => [[]]
  | c :: cs =>
    if c = sep then [] :: piecesOf sep cs
    else match piecesOf sep cs with
      | [] => [[c]]
      | p :: ps => (c :: p) :: ps

def split (sep : Char) (s : String) : List String :=
  (piecesOf sep s.toList).map String.ofList

def join (sep : String) : List String → String
  | [] => ""
  | [s] => s
  | s :: rest => s ++ sep ++ join sep rest

/-- A line without the carriage return that belongs to its line feed. -/
def dropReturn (line : List Char) : List Char :=
  if line.getLast? = some '\r' then line.dropLast else line

/-- Lines with their line ends removed, from pieces cut at line feeds. What follows the last line
feed is a line only if it is not empty, and keeps a final carriage return. -/
def linesOfPieces : List (List Char) → List (List Char)
  | [] => []
  | [last] => if last.isEmpty then [] else [last]
  | piece :: rest => dropReturn piece :: linesOfPieces rest

/-- The lines of a text, ended by a line feed or by a carriage return and a line feed. -/
def lines (s : String) : List String :=
  (linesOfPieces (piecesOf '\n' s.toList)).map String.ofList

/-- Replaces from left to right, passing over the first `skip` characters. The empty pattern
occurs before every character and at the end. -/
def replaceFrom (pattern replacement : List Char) : Nat → List Char → List Char
  | _, [] => if pattern.isEmpty then replacement else []
  | skip + 1, _ :: cs => replaceFrom pattern replacement skip cs
  | 0, c :: cs =>
    if pattern.isEmpty then replacement ++ c :: replaceFrom pattern replacement 0 cs
    else if pattern.isPrefixOf (c :: cs) then
      replacement ++ replaceFrom pattern replacement (pattern.length - 1) cs
    else c :: replaceFrom pattern replacement 0 cs

/-- Every occurrence of `pattern`, found from the left without overlap, becomes `replacement`. -/
def replaceAll (s pattern replacement : String) : String :=
  String.ofList (replaceFrom pattern.toList replacement.toList 0 s.toList)

theorem piecesOf_ne_nil (sep : Char) (cs : List Char) : piecesOf sep cs ≠ [] := by
  cases cs with
  | nil => simp [piecesOf]
  | cons c cs =>
    simp only [piecesOf]
    split
    · simp
    · split <;> simp

theorem piecesOf_of_notMem {sep : Char} {cs : List Char} (h : sep ∉ cs) :
    piecesOf sep cs = [cs] := by
  induction cs with
  | nil => rfl
  | cons c cs ih =>
    have hc : c ≠ sep := fun e => h (by simp [e])
    have hcs : sep ∉ cs := fun e => h (by simp [e])
    simp [piecesOf, hc, ih hcs]

end ParserPackages.Text
