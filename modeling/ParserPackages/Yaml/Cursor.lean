/-! # Positions in a text

What is left of a text, and where in the text that is. Lines end at line feeds, carriage returns,
pairs of both, and three separators of Unicode. -/

namespace ParserPackages.Yaml

def isAllowed (c : Char) : Bool :=
  let n := c.toNat
  n == 0x09 || n == 0x0A || n == 0x0D || (0x20 ≤ n && n ≤ 0x7E) || n == 0x85 ||
    (0xA0 ≤ n && n ≤ 0xD7FF) || (0xE000 ≤ n && n ≤ 0xFFFD) || 0x10000 ≤ n

def isBreak (c : Char) : Bool :=
  c == '\n' || c == '\r' || c == '\x85' || c == '\u2028' || c == '\u2029'

def isBlank (c : Char) : Bool := c == ' ' || c == '\t'

def isWord (c : Char) : Bool := c.isAlphanum || c == '-' || c == '_'

def endsLine : Option Char → Bool
  | none => true
  | some c => isBreak c

/-- White space, or the end of the text. -/
def endsWord : Option Char → Bool
  | none => true
  | some c => isBlank c || isBreak c

def byteCount (cs : List Char) : Nat := cs.foldl (fun n c => n + c.utf8Size) 0

/-- A position: what is left, the number of bytes before it, the line and the column. Columns count
characters. -/
structure Cursor where
  rest : List Char
  index : Nat
  line : Nat
  column : Nat
  deriving DecidableEq, Repr

namespace Cursor

def ofList (cs : List Char) : Cursor := ⟨cs, 0, 0, 0⟩

def peek (c : Cursor) (ahead : Nat) : Option Char := c.rest[ahead]?

def head? (c : Cursor) : Option Char := c.rest.head?

def starts (c : Cursor) (x : Char) : Bool := c.rest.head? == some x

/-- Moves on by characters of the same line. -/
def advance (c : Cursor) (count : Nat) : Cursor :=
  { c with
    rest := c.rest.drop count
    index := c.index + byteCount (c.rest.take count)
    column := c.column + count }

/-- Takes characters of the same line while a test holds. -/
def span (c : Cursor) (p : Char → Bool) : List Char × Cursor :=
  let taken := c.rest.takeWhile p
  (taken, c.advance taken.length)

def skipWhile (c : Cursor) (p : Char → Bool) : Cursor := (c.span p).2

def skipComment (c : Cursor) : Cursor :=
  if c.starts '#' then c.skipWhile (!isBreak ·) else c

/-- Goes to the start of the next line, past a break of so many characters. -/
def nextLine (c : Cursor) (count : Nat) : Cursor :=
  { rest := c.rest.drop count
    index := c.index + byteCount (c.rest.take count)
    line := c.line + 1
    column := 0 }

/-- Takes a line break, which counts as a line feed unless it is a separator of its own. -/
def takeBreak? (c : Cursor) : Option (List Char × Cursor) :=
  match c.rest with
  | '\r' :: '\n' :: _ => some (['\n'], c.nextLine 2)
  | x :: _ =>
    if x == '\u2028' || x == '\u2029' then some ([x], c.nextLine 1)
    else if isBreak x then some (['\n'], c.nextLine 1)
    else none
  | [] => none

def takeBreak (c : Cursor) : List Char × Cursor := c.takeBreak?.getD ([], c)

/-- Three of a character at the start of a line, with nothing but white space behind them. -/
def isMark (c : Cursor) (x : Char) : Bool :=
  c.column == 0 && c.peek 0 == some x && c.peek 1 == some x && c.peek 2 == some x &&
    endsWord (c.peek 3)

def isDocumentMark (c : Cursor) : Bool := c.isMark '-' || c.isMark '.'

end Cursor
end ParserPackages.Yaml
