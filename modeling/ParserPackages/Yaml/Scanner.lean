import ParserPackages.Yaml.FlowScalar
import ParserPackages.Yaml.BlockScalar

/-! # From text to tokens

Tokens are found from left to right. What may turn out to be a key is kept in mind until its colon
comes, and the tokens that announce the key are then put in front of it. Columns open and close
block collections. -/

namespace ParserPackages.Yaml

/-! ## Tags

A tag names the kind of a node. It is a run of bytes that ends before the first zero; escapes may
spell bytes that encode no text. -/

structure Tag where
  bytes : List UInt8
  deriving DecidableEq, Repr

namespace Tag

def ofBytes (bytes : List UInt8) : Tag := ⟨bytes.takeWhile (· != 0)⟩

def ofString (text : String) : Tag := ofBytes (text.toList.flatMap String.utf8EncodeChar)

instance : Append Tag := ⟨fun t u => ⟨t.bytes ++ u.bytes⟩⟩

def isEmpty (t : Tag) : Bool := t.bytes.isEmpty

def mark : Tag := ofString "!"

/-- A tag of the core schema; without a name, what those tags begin with. -/
def core (name : String) : Tag := ofString ("tag:yaml.org,2002:" ++ name)

def isMarked (t : Tag) : Bool := mark.bytes.isPrefixOf t.bytes

def isText (t : Tag) : Bool := (String.fromUTF8? ⟨t.bytes.toArray⟩).isSome

/-- A tag of the document's own is a text that begins with an exclamation mark. -/
def isLocal (t : Tag) : Bool := t.isMarked && t.isText

end Tag

/-! ## Tokens -/

/-- A token. Block collections have no closing text of their own; their ends follow from the
indentation. -/
inductive Token where
  | versionDirective (major minor : Nat)
  | tagDirective (handle : String) (lead : Tag)
  | documentStart
  | documentEnd
  | blockSequenceStart
  | blockMappingStart
  | blockEnd
  | flowSequenceStart
  | flowSequenceEnd
  | flowMappingStart
  | flowMappingEnd
  | blockEntry
  | flowEntry
  | key
  | value
  /-- A reference to an anchored node. -/
  | reference (name : String)
  | anchor (name : String)
  | tag (handle : String) (suffix : Tag)
  | scalar (plain : Bool) (text : String)
  deriving DecidableEq, Repr

/-! ## The search for tokens -/

/-- A place where a key may have begun. -/
structure PendingKey where
  /-- At the column of the surrounding mapping nothing but a key may stand. -/
  required : Bool
  /-- The number of tokens in front of it. -/
  position : Nat
  start : Cursor

structure Scanner where
  cursor : Cursor
  tokens : Array Token
  /-- How many flow collections are open. -/
  flowDepth : Nat
  /-- The column of the innermost block collection, or -1. -/
  indent : Int
  /-- The columns of those around it. -/
  outer : List Int
  /-- A key may begin here. -/
  keyAllowed : Bool
  /-- The pending keys of the open flow collections, innermost first, and that of the block. -/
  pending : List (Option PendingKey)

namespace Scanner

def ofList (cs : List Char) : Scanner where
  cursor := .ofList cs
  tokens := #[]
  flowDepth := 0
  indent := -1
  outer := []
  keyAllowed := true
  pending := [none]

def inFlow (s : Scanner) : Bool := s.flowDepth != 0

def emit (s : Scanner) (token : Token) : Scanner := { s with tokens := s.tokens.push token }

/-- Puts a token in front of the one at a position. -/
def insertAt (s : Scanner) (position : Nat) (token : Token) : Scanner :=
  { s with tokens :=
      (s.tokens.toList.take position ++ token :: s.tokens.toList.drop position).toArray }

/-- Skips blanks, comments and line breaks. A tab is no blank where it could be taken for the
indentation of a key, and a line break makes room for one. -/
def skipGap (flow : Bool) : (steps : Nat) → (keyAllowed : Bool) → Cursor → Bool × Cursor
  | 0, keyAllowed, c => (keyAllowed, c)
  | steps + 1, keyAllowed, c =>
    let c := if c.column == 0 && c.starts '\ufeff' then c.advance 1 else c
    let c := c.skipWhile fun x => x == ' ' || ((flow || !keyAllowed) && x == '\t')
    let c := c.skipComment
    match c.takeBreak? with
    | some (_, next) => skipGap flow steps (keyAllowed || !flow) next
    | none => (keyAllowed, c)

/-- Forgets keys that have become impossible: a key stays on one line and within 1024 bytes. A
required key must not be forgotten. -/
def dropStale (s : Scanner) : Option Scanner := do
  let pending ← s.pending.mapM fun
    | none => some none
    | some key =>
      if key.start.line < s.cursor.line ∨ key.start.index + 1024 < s.cursor.index then
        if key.required then none else some none
      else some (some key)
  return { s with pending }

/-- Ends the block collections to the right of a column. -/
def unroll (s : Scanner) (column : Int) : Scanner :=
  if s.inFlow then s
  else
    let columns := s.indent :: s.outer
    let closed := columns.takeWhile (column < ·)
    match columns.dropWhile (column < ·) with
    | [] => s
    | indent :: outer =>
      { s with
        tokens := s.tokens ++ (closed.map fun _ => Token.blockEnd)
        indent
        outer }

/-- Opens a block collection at a column right of the current one. Its token goes to a position,
or to the end. -/
def roll (s : Scanner) (column : Nat) (position? : Option Nat) (token : Token) : Scanner :=
  if s.inFlow || (column : Int) ≤ s.indent then s
  else
    let s := { s with indent := column, outer := s.indent :: s.outer }
    match position? with
    | some position => s.insertAt position token
    | none => s.emit token

/-- Gives up the innermost pending key, which must not be required. -/
def removeKey (s : Scanner) : Option Scanner :=
  match s.pending with
  | some key :: rest => if key.required then none else some { s with pending := none :: rest }
  | _ => some s

/-- Keeps the current place in mind as that of a key, if a key may begin here. -/
def saveKey (s : Scanner) : Option Scanner :=
  if !s.keyAllowed then some s
  else do
    let s ← s.removeKey
    let key : PendingKey :=
      { required := !s.inFlow && s.indent == (s.cursor.column : Int)
        position := s.tokens.size
        start := s.cursor }
    return { s with pending := some key :: s.pending.drop 1 }

def step (s : Scanner) (count : Nat) (token : Token) : Scanner :=
  { s with cursor := s.cursor.advance count }.emit token

/-- Ends all blocks and gives up the pending key, as before a directive or a document mark. -/
def resetBlock (s : Scanner) : Option Scanner := do
  let s ← (s.unroll (-1)).removeKey
  return { s with keyAllowed := false }

/-- A number of a version: one to nine digits. -/
def scanVersionNumber (c : Cursor) : Option (Nat × Cursor) :=
  let (digits, c) := c.span Char.isDigit
  if digits.isEmpty ∨ 9 < digits.length then none
  else some (digits.foldl (fun n d => n * 10 + (d.toNat - 48)) 0, c)

/-- A handle of tags: an exclamation mark, or a word between two of them. What looks like the
beginning of one is returned with `false`. -/
def scanTagHandle (c : Cursor) : Option (List Char × Bool × Cursor) :=
  if !c.starts '!' then none
  else
    let (word, c) := (c.advance 1).span isWord
    if c.starts '!' then some ('!' :: word ++ ['!'], true, c.advance 1)
    else some ('!' :: word, word.isEmpty, c)

def escapedByte? (c : Cursor) : Option Nat :=
  if !c.starts '%' then none
  else do
    let high ← hexValue? (← c.peek 1)
    let low ← hexValue? (← c.peek 2)
    return high * 16 + low

/-- The length of the encoded character that begins with a byte. -/
def encodedLength? (byte : Nat) : Option Nat :=
  if byte < 0x80 then some 1
  else if 0xC0 ≤ byte ∧ byte < 0xE0 then some 2
  else if 0xE0 ≤ byte ∧ byte < 0xF0 then some 3
  else if 0xF0 ≤ byte ∧ byte < 0xF8 then some 4
  else none

/-- Bytes that go on an encoded character. -/
def scanTrailBytes : (count : Nat) → Cursor → Option (List UInt8 × Cursor)
  | 0, c => some ([], c)
  | count + 1, c => do
    let byte ← escapedByte? c
    if byte < 0x80 ∨ 0xC0 ≤ byte then none
    let (rest, c) ← scanTrailBytes count (c.advance 3)
    return (UInt8.ofNat byte :: rest, c)

def scanUriEscape (c : Cursor) : Option (List UInt8 × Cursor) := do
  let byte ← escapedByte? c
  let length ← encodedLength? byte
  let (rest, c) ← scanTrailBytes (length - 1) (c.advance 3)
  return (UInt8.ofNat byte :: rest, c)

/-- Characters that a tag may hold; flow indicators only where `anywhere` is set. -/
def isUriChar (anywhere : Bool) (c : Char) : Bool :=
  isWord c || ";/?:@&=+$.%!~*\x27()".toList.contains c ||
    (anywhere && (c == ',' || c == '[' || c == ']'))

def scanUri (anywhere : Bool) : (steps : Nat) → Cursor → Option (List UInt8 × Cursor)
  | 0, c => some ([], c)
  | steps + 1, c =>
    match c.head? with
    | none => some ([], c)
    | some x =>
      if !isUriChar anywhere x then some ([], c)
      else if x == '%' then do
        let (bytes, c) ← scanUriEscape c
        let (rest, c) ← scanUri anywhere steps c
        return (bytes ++ rest, c)
      else do
        let (rest, c) ← scanUri anywhere steps (c.advance 1)
        return (UInt8.ofNat x.toNat :: rest, c)

/-- A directive behind its percent sign, up to the end of its line. -/
def scanDirective (c : Cursor) : Option (Token × Cursor) := do
  let (name, c) := c.span isWord
  if name.isEmpty ∨ !endsWord c.head? then none
  let (token, c) ←
    if name = ['Y', 'A', 'M', 'L'] then do
      let (major, c) ← scanVersionNumber (c.skipWhile isBlank)
      if !c.starts '.' then none
      let (minor, c) ← scanVersionNumber (c.advance 1)
      pure (Token.versionDirective major minor, c)
    else if name = ['T', 'A', 'G'] then do
      let (handle, whole, c) ← scanTagHandle (c.skipWhile isBlank)
      if !whole ∨ !c.head?.any isBlank then none
      let (lead, c) ← scanUri true (c.rest.length + 1) (c.skipWhile isBlank)
      if lead.isEmpty ∨ !endsWord c.head? then none
      pure (Token.tagDirective (String.ofList handle) (.ofBytes lead), c)
    else none
  let c := (c.skipWhile isBlank).skipComment
  if endsLine c.head? then return (token, c.takeBreak.2) else none

def scanTag (flow : Bool) (c : Cursor) : Option (Token × Cursor) := do
  let (token, c) ←
    if c.peek 1 == some '<' then do
      let (suffix, c) ← scanUri true (c.rest.length + 1) (c.advance 2)
      if suffix.isEmpty ∨ !c.starts '>' then none
      pure (Token.tag "" (.ofBytes suffix), c.advance 1)
    else do
      let (handle, whole, c) ← scanTagHandle c
      let (suffix, c) ← scanUri false (c.rest.length + 1) c
      if whole && 1 < handle.length then
        if suffix.isEmpty then none
        pure (Token.tag (String.ofList handle) (.ofBytes suffix), c)
      else
        let suffix := Tag.ofString (String.ofList (handle.drop 1)) ++ Tag.ofBytes suffix
        pure (if suffix.isEmpty then Token.tag "" .mark else Token.tag "!" suffix, c)
  if endsWord c.head? || (flow && c.starts ',') then return (token, c) else none

def scanName (c : Cursor) : Option (String × Cursor) :=
  let (name, c) := c.span isWord
  if name.isEmpty then none
  else if endsWord c.head? || c.head?.any ("?:,]\x7d%@`".toList.contains ·) then
    some (String.ofList name, c)
  else none

/-- Begins a node that may be a key, and no key may follow it right away. -/
def beginNode (s : Scanner) : Option Scanner := do
  let s ← s.saveKey
  return { s with keyAllowed := false }

def scanColon (s : Scanner) : Option Scanner :=
  match s.pending with
  | some key :: rest =>
    let s := s.insertAt key.position .key
    let s := s.roll key.start.column (some key.position) .blockMappingStart
    some ({ s with pending := none :: rest, keyAllowed := false }.step 1 .value)
  | _ =>
    if s.inFlow then some ({ s with keyAllowed := false }.step 1 .value)
    else if !s.keyAllowed then none
    else
      let s := s.roll s.cursor.column none .blockMappingStart
      some ({ s with keyAllowed := true }.step 1 .value)

/-- The characters that cannot begin a plain scalar, a few of which may when a character other
than white space follows. -/
def isIndicator (c : Char) : Bool := "-?:,[]\x7b\x7d#&*!|>\x27\x22%@`".toList.contains c

def startsPlain (s : Scanner) (x : Char) : Bool :=
  let next := s.cursor.peek 1
  !(isBlank x || isBreak x || isIndicator x) || (x == '-' && !next.any isBlank) ||
    (!s.inFlow && (x == '?' || x == ':') && !endsWord next)

def scanToken (s : Scanner) (x : Char) : Option Scanner :=
  let c := s.cursor
  let spaced := endsWord (c.peek 1)
  let size := c.rest.length + 1
  if x == '[' || x == '\x7b' then do
    let s ← s.saveKey
    let s := { s with
      flowDepth := s.flowDepth + 1, pending := none :: s.pending, keyAllowed := true }
    return s.step 1 (if x == '[' then .flowSequenceStart else .flowMappingStart)
  else if x == ']' || x == '\x7d' then do
    let s ← s.removeKey
    let s := if s.inFlow then
        { s with flowDepth := s.flowDepth - 1, pending := s.pending.drop 1 }
      else s
    return { s with keyAllowed := false }.step 1
      (if x == ']' then .flowSequenceEnd else .flowMappingEnd)
  else if x == ',' then do
    let s ← s.removeKey
    return { s with keyAllowed := true }.step 1 .flowEntry
  else if x == '-' && spaced then do
    if !s.inFlow && !s.keyAllowed then none
    let s ← (s.roll c.column none .blockSequenceStart).removeKey
    return { s with keyAllowed := true }.step 1 .blockEntry
  else if x == '?' && (s.inFlow || spaced) then do
    if !s.inFlow && !s.keyAllowed then none
    let s ← (s.roll c.column none .blockMappingStart).removeKey
    return { s with keyAllowed := !s.inFlow }.step 1 .key
  else if x == ':' && (s.inFlow || spaced) then s.scanColon
  else if x == '*' || x == '&' then do
    let s ← s.beginNode
    let (name, cursor) ← scanName (c.advance 1)
    return { s with cursor }.emit (if x == '*' then .reference name else .anchor name)
  else if x == '!' then do
    let s ← s.beginNode
    let (token, cursor) ← scanTag s.inFlow c
    return { s with cursor }.emit token
  else if (x == '|' || x == '>') && !s.inFlow then do
    let s ← s.removeKey
    let (text, cursor) ← scanBlock (x == '|') s.indent (c.advance 1)
    return { s with cursor, keyAllowed := true }.emit (.scalar false (String.ofList text))
  else if x == '\x27' || x == '\x22' then do
    let s ← s.beginNode
    let (text, cursor) ← scanQuoted (x == '\x27') size [] (c.advance 1)
    return { s with cursor }.emit (.scalar false (String.ofList text))
  else if s.startsPlain x then do
    let s ← s.beginNode
    let (text, broken, cursor) ←
      scanPlain s.inFlow (s.indent + 1).toNat size [] {} c
    return { s with cursor, keyAllowed := broken }.emit (.scalar true (String.ofList text))
  else none

/-- Finds all tokens up to the end of the text. Every step takes at least one character. -/
def scanAll : (steps : Nat) → Scanner → Option (List Token)
  | 0, _ => none
  | steps + 1, s => do
    let (keyAllowed, cursor) := skipGap s.inFlow (s.cursor.rest.length + 1) s.keyAllowed s.cursor
    let s ← { s with keyAllowed, cursor }.dropStale
    let s := s.unroll s.cursor.column
    match s.cursor.head? with
    | none => do
      let s ← s.resetBlock
      return s.tokens.toList
    | some x =>
      if s.cursor.column == 0 && x == '%' then do
        let s ← s.resetBlock
        let (token, cursor) ← scanDirective (s.cursor.advance 1)
        scanAll steps ({ s with cursor }.emit token)
      else if s.cursor.isDocumentMark then do
        let s ← s.resetBlock
        scanAll steps (s.step 3 (if x == '-' then .documentStart else .documentEnd))
      else do
        scanAll steps (← s.scanToken x)

end Scanner

/-- The tokens of a text, whose characters must all be allowed. -/
def scan? (text : String) : Option (List Token) :=
  let cs := text.toList
  if cs.all isAllowed then Scanner.scanAll (cs.length + 1) (.ofList cs) else none

end ParserPackages.Yaml
