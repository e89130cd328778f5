import ParserPackages.Yaml.Cursor

/-! # Block scalars

Scalars whose lines are set off by indentation. A literal scalar keeps its line breaks, a folded
one joins lines; the breaks at the end are clipped, stripped or kept. -/

namespace ParserPackages.Yaml

/-- What becomes of the line breaks at the end of a block scalar. -/
inductive Chomping where
  | strip
  | clip
  | keep
  deriving DecidableEq, Repr

def chomping? : Option Char → Option Chomping
  | some '+' => some .keep
  | some '-' => some .strip
  | _ => none

/-- A digit that indents a block scalar; zero is refused. -/
def indentation? (c : Cursor) : Option (Nat × Cursor) :=
  match c.head? with
  | some x =>
    if x == '0' then none
    else if x.isDigit then some (x.toNat - 48, c.advance 1)
    else some (0, c)
  | none => some (0, c)

/-- The header behind the indicator: the chomping and the indentation given, in either order.
Nothing but a comment may follow on the line. -/
def blockHeader? (c : Cursor) : Option (Chomping × Nat × Cursor) := do
  let (chomping, indentation, c) ←
    match chomping? c.head? with
    | some chomping => do
      let (indentation, c) ← indentation? (c.advance 1)
      pure (chomping, indentation, c)
    | none => do
      let (indentation, c) ← indentation? c
      if indentation = 0 then pure (.clip, 0, c)
      else
        match chomping? c.head? with
        | some chomping => pure (chomping, indentation, c.advance 1)
        | none => pure (.clip, indentation, c)
  let c := (c.skipWhile isBlank).skipComment
  if endsLine c.head? then return (chomping, indentation, c.takeBreak.2) else none

/-- Takes empty lines and indentation: the breaks, the widest column and the position. While the
indentation is not known, that is when it is zero, every space belongs to it. -/
def blockBreaks (indent : Nat) :
    (steps : Nat) → (breaks : List Char) → (widest : Nat) → Cursor →
      Option (List Char × Nat × Cursor)
  | 0, _, _, _ => none
  | steps + 1, breaks, widest, c =>
    let spaces := (c.rest.takeWhile (· == ' ')).length
    let c := c.advance (if indent = 0 then spaces else min spaces (indent - c.column))
    let widest := max widest c.column
    if (indent = 0 ∨ c.column < indent) ∧ c.starts '\t' then none
    else
      match c.takeBreak? with
      | none => some (breaks, widest, c)
      | some (text, c) => blockBreaks indent steps (breaks ++ text) widest c

/-- The lines of a block scalar. `lead` is the break before the next line, `breaks` the empty
lines after it, and `led` says whether the last line began with a blank. -/
def blockLines (literal : Bool) (indent : Nat) :
    (steps : Nat) → (text lead breaks : List Char) → (led : Bool) → Cursor →
      Option (List Char × List Char × List Char × Cursor)
  | 0, _, _, _, _, _ => none
  | steps + 1, text, lead, breaks, led, c =>
    if c.column = indent ∧ c.rest ≠ [] then
      let blank := c.head?.any isBlank
      let joined :=
        if !literal && lead.head? == some '\n' && !led && !blank then
          if breaks.isEmpty then [' '] else []
        else lead
      let (line, c) := c.span (!isBreak ·)
      let (lead, c) := c.takeBreak
      match blockBreaks indent (c.rest.length + 1) [] 0 c with
      | none => none
      | some (next, _, c) =>
        blockLines literal indent steps (text ++ joined ++ breaks ++ line) lead next blank c
    else some (text, lead, breaks, c)

/-- A block scalar behind its indicator, in a block indented by `parent`. -/
def scanBlock (literal : Bool) (parent : Int) (c : Cursor) : Option (List Char × Cursor) := do
  let (chomping, indentation, c) ← blockHeader? c
  let given := if indentation = 0 then 0 else indentation + parent.toNat
  let (breaks, widest, c) ← blockBreaks given (c.rest.length + 1) [] 0 c
  let indent := if given = 0 then max (max widest (parent + 1).toNat) 1 else given
  let (text, lead, breaks, c) ←
    blockLines literal indent (c.rest.length + 1) [] [] breaks false c
  return (match chomping with
    | .strip => text
    | .clip => text ++ lead
    | .keep => text ++ lead ++ breaks, c)

end ParserPackages.Yaml
