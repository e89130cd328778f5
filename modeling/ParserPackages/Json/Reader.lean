import ParserPackages.Json.Basic
import ParserPackages.Number.Numeral

/-! # Reading JSON

A reader takes characters to a value and the characters after it. Arrays and objects nest at most
`depthLimit` deep. Integers of 64 bits stay exact, other numbers become doubles, and a number
beyond the largest double is refused, as are lone surrogates and bare control characters. -/

namespace ParserPackages.Json

/-- How deep arrays and objects may nest. -/
def depthLimit : Nat := 127

def isGap (c : Char) : Bool := c == ' ' || c == '\n' || c == '\t' || c == '\r'

def skipGap (cs : List Char) : List Char := cs.dropWhile isGap

def hexDigit? (c : Char) : Option Nat :=
  if '0' ≤ c ∧ c ≤ '9' then some (c.toNat - 48)
  else if 'a' ≤ c ∧ c ≤ 'f' then some (c.toNat - 87)
  else if 'A' ≤ c ∧ c ≤ 'F' then some (c.toNat - 55)
  else none

def hexUnit? (a b c d : Char) : Option Nat := do
  let a ← hexDigit? a
  let b ← hexDigit? b
  let c ← hexDigit? c
  let d ← hexDigit? d
  return ((a * 16 + b) * 16 + c) * 16 + d

def simpleEscape? (c : Char) : Option Char :=
  if c = '\x22' ∨ c = '\\' ∨ c = '/' then some c
  else if c = 'b' then some '\x08'
  else if c = 'f' then some '\x0c'
  else if c = 'n' then some '\n'
  else if c = 'r' then some '\r'
  else if c = 't' then some '\t'
  else none

def isHighSurrogate (n : Nat) : Bool := 0xD800 ≤ n && n ≤ 0xDBFF

def isLowSurrogate (n : Nat) : Bool := 0xDC00 ≤ n && n ≤ 0xDFFF

/-- The characters of a string up to its closing quote, and what follows it. -/
def readString : List Char → Option (List Char × List Char)
  | [] => none
  | '\\' :: 'u' :: a :: b :: c :: d :: '\\' :: 'u' :: e :: f :: g :: h :: rest =>
    match hexUnit? a b c d with
    | none => none
    | some unit =>
      if isLowSurrogate unit then none
      else if isHighSurrogate unit then
        match hexUnit? e f g h with
        | none => none
        | some low =>
          if isLowSurrogate low then
            let code := 0x10000 + (unit - 0xD800) * 0x400 + (low - 0xDC00)
            (readString rest).map fun (s, after) => (Char.ofNat code :: s, after)
          else none
      else
        (readString ('\\' :: 'u' :: e :: f :: g :: h :: rest)).map fun (s, after) =>
          (Char.ofNat unit :: s, after)
  | '\\' :: 'u' :: a :: b :: c :: d :: rest =>
    match hexUnit? a b c d with
    | none => none
    | some unit =>
      if isLowSurrogate unit || isHighSurrogate unit then none
      else (readString rest).map fun (s, after) => (Char.ofNat unit :: s, after)
  | '\\' :: c :: rest =>
    match simpleEscape? c with
    | none => none
    | some c => (readString rest).map fun (s, after) => (c :: s, after)
  | c :: rest =>
    if c = '\x22' then some ([], rest)
    else if c.toNat < 0x20 ∨ c = '\\' then none
    else (readString rest).map fun (s, after) => (c :: s, after)

/-- The digits at the front, and what follows them. -/
def spanDigits (cs : List Char) : List Char × List Char :=
  (cs.takeWhile Char.isDigit, cs.dropWhile Char.isDigit)

/-- An exponent, if one begins here. At least one digit must follow its mark. -/
def readExponent? : List Char → Option (Option Int × List Char)
  | [] => some (none, [])
  | c :: rest =>
    if c = 'e' ∨ c = 'E' then
      let (negative, rest) := match rest with
        | '-' :: rest => (true, rest)
        | '+' :: rest => (false, rest)
        | rest => (false, rest)
      let (digits, after) := spanDigits rest
      if digits.isEmpty then none
      else
        let size : Int := digitsValue digits
        some (some (if negative then -size else size), after)
    else some (none, c :: rest)

def readFraction? : List Char → Option (Option (List Char) × List Char)
  | '.' :: rest =>
    let (digits, after) := spanDigits rest
    if digits.isEmpty then none else some (some digits, after)
  | cs => some (none, cs)

/-- An integer of 64 bits is exact; any other becomes a double, and so does a negative zero. -/
def ofWhole? (n : Numeral) : Option Json :=
  let size := digitsValue n.whole
  if n.negative then
    if 0 < size ∧ size ≤ Nat.pow 2 63 then some (.int (-(size : Int))) else n.scaled.map .float
  else if size < Nat.pow 2 64 then some (.int size)
  else n.scaled.map .float

/-- A number. No digit may follow a leading zero. -/
def readNumber (cs : List Char) : Option (Json × List Char) := do
  let (negative, cs) := match cs with
    | '-' :: rest => (true, rest)
    | cs => (false, cs)
  let (whole, cs) := spanDigits cs
  if whole.isEmpty ∨ (whole.head? = some '0' ∧ 1 < whole.length) then none
  let (fraction, cs) ← readFraction? cs
  let (exponent, cs) ← readExponent? cs
  match fraction, exponent with
  | none, none => (ofWhole? ⟨negative, whole, [], 0⟩).map fun value => (value, cs)
  | _, _ =>
    let numeral : Numeral := ⟨negative, whole, fraction.getD [], exponent.getD 0⟩
    numeral.scaled.map fun value => (.float value, cs)

mutual
def readValue : (fuel depth : Nat) → List Char → Option (Json × List Char)
  | 0, _, _ => none
  | fuel + 1, depth, cs =>
    match skipGap cs with
    | 'n' :: 'u' :: 'l' :: 'l' :: rest => some (.null, rest)
    | 't' :: 'r' :: 'u' :: 'e' :: rest => some (.bool true, rest)
    | 'f' :: 'a' :: 'l' :: 's' :: 'e' :: rest => some (.bool false, rest)
    | '\x22' :: rest => (readString rest).map fun (s, after) => (.str (String.ofList s), after)
    | '[' :: rest =>
      match depth with
      | 0 => none
      | depth + 1 =>
        match skipGap rest with
        | ']' :: after => some (.arr [], after)
        | rest => (readItems fuel depth rest).map fun (items, after) => (.arr items, after)
    | '\x7b' :: rest =>
      match depth with
      | 0 => none
      | depth + 1 =>
        match skipGap rest with
        | '\x7d' :: after => some (.obj [], after)
        | rest => (readFields fuel depth rest).map fun (fields, after) => (.obj fields, after)
    | cs => readNumber cs

/-- Items up to the closing bracket, at least one. -/
def readItems : (fuel depth : Nat) → List Char → Option (List Json × List Char)
  | 0, _, _ => none
  | fuel + 1, depth, cs =>
    match readValue fuel depth cs with
    | none => none
    | some (item, rest) =>
      match skipGap rest with
      | ',' :: rest => (readItems fuel depth rest).map fun (items, after) => (item :: items, after)
      | ']' :: after => some ([item], after)
      | _ => none

def readFields : (fuel depth : Nat) → List Char → Option (Fields × List Char)
  | 0, _, _ => none
  | fuel + 1, depth, cs =>
    match skipGap cs with
    | '\x22' :: rest =>
      match readString rest with
      | none => none
      | some (key, rest) =>
        match skipGap rest with
        | ':' :: rest =>
          match readValue fuel depth rest with
          | none => none
          | some (value, rest) =>
            let field := (String.ofList key, value)
            match skipGap rest with
            | ',' :: rest =>
              (readFields fuel depth rest).map fun (fields, after) => (field :: fields, after)
            | '\x7d' :: after => some ([field], after)
            | _ => none
        | _ => none
    | _ => none
end

/-- The value of a whole text, with nothing but white space around it. -/
def read? (text : String) : Option Json :=
  let cs := text.toList
  match readValue (2 * cs.length + 2) depthLimit cs with
  | some (value, rest) => if (skipGap rest).isEmpty then some value else none
  | none => none

end ParserPackages.Json
