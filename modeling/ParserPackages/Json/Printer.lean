import ParserPackages.Json.Basic
import ParserPackages.Number.Shortest

/-! # JSON text

The compact text of a value, and the text with one item or field a line, two spaces deeper for
each level. Strings escape the quote, the backslash and the control characters below the space. -/

namespace ParserPackages.Json

/-- Two lower-case hexadecimal digits. -/
def hexByte (n : Nat) : List Char :=
  [Nat.digitChar (n / 16), Nat.digitChar (n % 16)]

def escapeChar (c : Char) : List Char :=
  if c = '\x22' then ['\\', '\x22']
  else if c = '\\' then ['\\', '\\']
  else if c = '\x08' then ['\\', 'b']
  else if c = '\t' then ['\\', 't']
  else if c = '\n' then ['\\', 'n']
  else if c = '\x0c' then ['\\', 'f']
  else if c = '\r' then ['\\', 'r']
  else if c.toNat < 0x20 then ['\\', 'u', '0', '0'] ++ hexByte c.toNat
  else [c]

def stringText (s : String) : List Char :=
  '\x22' :: s.toList.flatMap escapeChar ++ ['\x22']

def intText (n : Int) : List Char :=
  if n < 0 then '-' :: Nat.toDigits 10 n.natAbs else Nat.toDigits 10 n.natAbs

mutual
def compactChars : Json → List Char
  | .null => ['n', 'u', 'l', 'l']
  | .bool true => ['t', 'r', 'u', 'e']
  | .bool false => ['f', 'a', 'l', 's', 'e']
  | .int n => intText n
  | .float x => x.toText.toList
  | .str s => stringText s
  | .arr items => '[' :: compactItems items ++ [']']
  | .obj fields => '\x7b' :: compactFields fields ++ ['\x7d']

def compactItems : List Json → List Char
  | [] => []
  | [item] => compactChars item
  | item :: next :: rest => compactChars item ++ ',' :: compactItems (next :: rest)

def compactFields : Fields → List Char
  | [] => []
  | [(key, value)] => stringText key ++ ':' :: compactChars value
  | (key, value) :: next :: rest =>
    stringText key ++ ':' :: compactChars value ++ ',' :: compactFields (next :: rest)
end

def compact (value : Json) : String := String.ofList value.compactChars

def lineStart (level : Nat) : List Char := '\n' :: List.replicate (2 * level) ' '

mutual
/-- The characters of the indented text of a value that stands at a level. -/
def prettyChars (level : Nat) : Json → List Char
  | .arr [] => ['[', ']']
  | .arr (item :: rest) =>
    '[' :: prettyItems (level + 1) (item :: rest) ++ lineStart level ++ [']']
  | .obj [] => ['\x7b', '\x7d']
  | .obj (field :: rest) =>
    '\x7b' :: prettyFields (level + 1) (field :: rest) ++ lineStart level ++ ['\x7d']
  | .null => ['n', 'u', 'l', 'l']
  | .bool true => ['t', 'r', 'u', 'e']
  | .bool false => ['f', 'a', 'l', 's', 'e']
  | .int n => intText n
  | .float x => x.toText.toList
  | .str s => stringText s

def prettyItems (level : Nat) : List Json → List Char
  | [] => []
  | [item] => lineStart level ++ prettyChars level item
  | item :: next :: rest =>
    lineStart level ++ prettyChars level item ++ ',' :: prettyItems level (next :: rest)

def prettyFields (level : Nat) : Fields → List Char
  | [] => []
  | [(key, value)] => lineStart level ++ stringText key ++ ':' :: ' ' :: prettyChars level value
  | (key, value) :: next :: rest =>
    lineStart level ++ stringText key ++ ':' :: ' ' :: prettyChars level value ++
      ',' :: prettyFields level (next :: rest)
end

def pretty (value : Json) : String := String.ofList (value.prettyChars 0)

end ParserPackages.Json
