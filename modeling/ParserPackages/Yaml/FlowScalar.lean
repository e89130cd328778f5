import ParserPackages.Yaml.Cursor

/-! # Plain and quoted scalars

Scalars that may go over several lines, whose line breaks are folded: a single break becomes a
space, and of several breaks all but the first are kept. -/

namespace ParserPackages.Yaml

/-- White space between words: the blanks, or else the first line break and those after it. -/
structure Spacing where
  blanks : List Char := []
  first : List Char := []
  others : List Char := []
  broken : Bool := false

namespace Spacing

def fold (s : Spacing) : List Char :=
  if !s.broken then s.blanks
  else if s.first.head? == some '\n' then
    if s.others.isEmpty then [' '] else s.others
  else s.first ++ s.others

/-- Takes white space. After a line break a tab left of `indent` is refused. -/
def take (indent : Nat) : (steps : Nat) → Spacing → Cursor → Option (Spacing × Cursor)
  | 0, s, c => some (s, c)
  | steps + 1, s, c =>
    match c.takeBreak? with
    | some (text, next) =>
      if s.broken then take indent steps { s with others := s.others ++ text } next
      else take indent steps { s with blanks := [], first := text, broken := true } next
    | none =>
      match c.head? with
      | some x =>
        if !isBlank x then some (s, c)
        else if s.broken then
          if x == '\t' && c.column < indent then none else take indent steps s (c.advance 1)
        else take indent steps { s with blanks := s.blanks ++ [x] } (c.advance 1)
      | none => some (s, c)

end Spacing

def isFlowIndicator (c : Char) : Bool :=
  c == ',' || c == '[' || c == ']' || c == '\x7b' || c == '\x7d'

/-- The characters of a plain scalar up to white space or an indicator. Inside a flow collection a
colon right before an indicator or a question mark is refused. -/
def plainWord (inFlow : Bool) : List Char → Option (List Char)
  | [] => some []
  | x :: rest =>
    if isBlank x || isBreak x then some []
    else if inFlow && x == ':' && rest.head?.any (fun y => isFlowIndicator y || y == '?') then none
    else if (x == ':' && endsWord rest.head?) || (inFlow && isFlowIndicator x) then some []
    else (plainWord inFlow rest).map (x :: ·)

/-- A plain scalar: its text, whether a line break follows it, and the position behind that.
Outside flow collections it ends at a line that is indented less than `indent`. -/
def scanPlain (inFlow : Bool) (indent : Nat) :
    (steps : Nat) → (text : List Char) → Spacing → Cursor → Option (List Char × Bool × Cursor)
  | 0, _, _, _ => none
  | steps + 1, text, spacing, c =>
    if c.isDocumentMark || c.starts '#' then some (text, spacing.broken, c)
    else
      match plainWord inFlow c.rest with
      | none => none
      | some word =>
        let (text, spacing) :=
          if word.isEmpty then (text, spacing) else (text ++ spacing.fold ++ word, {})
        let c := c.advance word.length
        if c.head?.isSome && endsWord c.head? then
          match Spacing.take indent (c.rest.length + 1) {} c with
          | none => none
          | some (spacing, c) =>
            if !inFlow && c.column < indent then some (text, spacing.broken, c)
            else scanPlain inFlow indent steps text spacing c
        else some (text, spacing.broken, c)

def hexValue? (c : Char) : Option Nat :=
  if '0' ≤ c ∧ c ≤ '9' then some (c.toNat - 48)
  else if 'a' ≤ c ∧ c ≤ 'f' then some (c.toNat - 87)
  else if 'A' ≤ c ∧ c ≤ 'F' then some (c.toNat - 55)
  else none

/-- The character of an escape by number: so many digits, and a code point that exists. -/
def numberedEscape? (count : Nat) (cs : List Char) : Option Char := do
  let digits ← (cs.take count).mapM hexValue?
  if digits.length < count then none
  let code := digits.foldl (fun n d => n * 16 + d) 0
  if (0xD800 ≤ code ∧ code ≤ 0xDFFF) ∨ 0x10FFFF < code then none
  return Char.ofNat code

/-- The character of an escape that follows a backslash, and its length. -/
def escape? : List Char → Option (Char × Nat)
  | [] => none
  | x :: rest =>
    match x with
    | '0' => some ('\x00', 1)
    | 'a' => some ('\x07', 1)
    | 'b' => some ('\x08', 1)
    | 't' => some ('\t', 1)
    | '\t' => some ('\t', 1)
    | 'n' => some ('\n', 1)
    | 'v' => some ('\x0b', 1)
    | 'f' => some ('\x0c', 1)
    | 'r' => some ('\r', 1)
    | 'e' => some ('\x1b', 1)
    | ' ' => some (' ', 1)
    | '\x22' => some ('\x22', 1)
    | '/' => some ('/', 1)
    | '\\' => some ('\\', 1)
    | 'N' => some ('\x85', 1)
    | '_' => some ('\xa0', 1)
    | 'L' => some ('\u2028', 1)
    | 'P' => some ('\u2029', 1)
    | 'x' => (numberedEscape? 2 rest).map (·, 3)
    | 'u' => (numberedEscape? 4 rest).map (·, 5)
    | 'U' => (numberedEscape? 8 rest).map (·, 9)
    | _ => none

/-- The characters of a quoted scalar up to white space or the closing quote, and whether an
escaped line break ended them. -/
def quotedWord (single : Bool) : (steps : Nat) → Cursor → Option (List Char × Bool × Cursor)
  | 0, _ => none
  | steps + 1, c =>
    match c.rest with
    | [] => some ([], false, c)
    | x :: rest =>
      let more (y : Char) (length : Nat) : Option (List Char × Bool × Cursor) :=
        (quotedWord single steps (c.advance length)).map fun (text, result) => (y :: text, result)
      if isBlank x || isBreak x then some ([], false, c)
      else if single && x == '\x27' && rest.head? == some '\x27' then more x 2
      else if x == (if single then '\x27' else '\x22') then some ([], false, c)
      else if !single && x == '\\' then
        match (c.advance 1).takeBreak? with
        | some (_, next) => some ([], true, next)
        | none =>
          match escape? rest with
          | none => none
          | some (y, length) => more y (1 + length)
      else more x 1

/-- A quoted scalar behind its opening quote: its text and the position behind the closing one. -/
def scanQuoted (single : Bool) :
    (steps : Nat) → (text : List Char) → Cursor → Option (List Char × Cursor)
  | 0, _, _ => none
  | steps + 1, text, c =>
    if c.isDocumentMark || c.rest.isEmpty then none
    else
      match quotedWord single (c.rest.length + 1) c with
      | none => none
      | some (word, escaped, c) =>
        let text := text ++ word
        if c.starts (if single then '\x27' else '\x22') then some (text, c.advance 1)
        else
          match Spacing.take 0 (c.rest.length + 1) { broken := escaped } c with
          | none => none
          | some (spacing, c) => scanQuoted single steps (text ++ spacing.fold) c

end ParserPackages.Yaml
