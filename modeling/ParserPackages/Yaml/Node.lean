import ParserPackages.Yaml.Scanner

/-! # From tokens to nodes

A document is a tree of scalars, sequences and mappings. Anchored nodes are numbered in the order
in which they begin, and references are kept as they are. -/

namespace ParserPackages.Yaml

inductive Node where
  | scalar (tag? : Option Tag) (plain : Bool) (text : String)
  | sequence (tag? : Option Tag) (items : List Node)
  | mapping (tag? : Option Tag) (pairs : List (Node × Node))
  | reference (anchor : Nat)
  deriving Inhabited

def Node.nothing : Node := .scalar none true ""

/-- Anchors. A name stands for a number, a number for the place of the node that begins last under
it, and the place for the node. -/
structure Anchors where
  numbers : List (String × Nat)
  places : List (Nat × Nat)
  nodes : List (Nat × Node)
  next : Nat

namespace Anchors

def empty : Anchors := ⟨[], [], [], 0⟩

/-- Names a node that begins here. The number is the count of different names so far. -/
def start (a : Anchors) (name : String) : Anchors :=
  let number := a.numbers.length
  { a with
    numbers := (name, number) :: a.numbers.filter (·.1 != name)
    places := (number, a.next) :: a.places
    next := a.next + 1 }

def finish (a : Anchors) (place : Nat) (node : Node) : Anchors :=
  { a with nodes := (place, node) :: a.nodes }

def node? (a : Anchors) (number : Nat) : Option Node := do
  a.nodes.lookup (← a.places.lookup number)

end Anchors

/-- What is left to be read, and what was declared on the way. -/
structure Reading where
  tokens : List Token
  /-- The beginnings that tag handles stand for. -/
  handles : List (String × Tag)
  anchors : Anchors

/-- A part of a document is read from the tokens, or there is none. -/
abbrev Reader := StateT Reading Option

namespace Reader

def peek : Reader (Option Token) := do return (← get).tokens.head?

def skip : Reader Unit := modify fun r => { r with tokens := r.tokens.drop 1 }

def refuse {α : Type} : Reader α := fun _ => none

def expect (token : Token) : Reader Unit := do
  if (← peek) == some token then skip else refuse

def resolveTag (handle : String) (suffix : Tag) : Reader Tag := do
  if handle.isEmpty then return suffix
  match (← get).handles.lookup handle with
  | some lead => return lead ++ suffix
  | none => refuse

def anchor? : Reader (Option String) := do
  match ← peek with
  | some (.anchor name) => do skip; return some name
  | _ => return none

def tag? : Reader (Option (String × Tag)) := do
  match ← peek with
  | some (.tag handle suffix) => do skip; return some (handle, suffix)
  | _ => return none

/-- An anchor and a tag, in either order, neither of which need be there. -/
def properties : Reader (Option String × Option Tag) := do
  let first ← anchor?
  let tag ← tag?
  let second ← if first.isNone && tag.isSome then anchor? else pure none
  let resolved ←
    match tag with
    | some (handle, suffix) => some <$> resolveTag handle suffix
    | none => pure none
  return (first.or second, resolved)

def startAnchor : Option String → Reader (Option Nat)
  | none => return none
  | some name => do
    let r ← get
    set { r with anchors := r.anchors.start name }
    return some r.anchors.next

def finishAnchor (place? : Option Nat) (node : Node) : Reader Node := do
  match place? with
  | none => return node
  | some place => do
    modify fun r => { r with anchors := r.anchors.finish place node }
    return node

def reference (name : String) : Reader Node := do
  match (← get).anchors.numbers.lookup name with
  | some number => return .reference number
  | none => refuse

mutual
/-- A node. Block collections may begin here if `block` is set, and entries without indentation of
their own if `bare` is set. -/
def node : (fuel : Nat) → (block bare : Bool) → Reader Node
  | 0, _, _ => refuse
  | fuel + 1, block, bare => do
    match ← peek with
    | some (.reference name) => do skip; reference name
    | _ => do
      let (anchor?, tag?) ← properties
      match ← peek with
      | some (.scalar plain text) => do
        skip
        finishAnchor (← startAnchor anchor?) (.scalar tag? plain text)
      | some .flowSequenceStart => do
        skip
        let place ← startAnchor anchor?
        finishAnchor place (.sequence tag? (← flowItems fuel true))
      | some .flowMappingStart => do
        skip
        let place ← startAnchor anchor?
        finishAnchor place (.mapping tag? (← flowPairs fuel true))
      | next =>
        if bare && next == some .blockEntry then do
          let place ← startAnchor anchor?
          finishAnchor place (.sequence tag? (← bareItems fuel))
        else if block && next == some .blockSequenceStart then do
          skip
          let place ← startAnchor anchor?
          finishAnchor place (.sequence tag? (← blockItems fuel))
        else if block && next == some .blockMappingStart then do
          skip
          let place ← startAnchor anchor?
          finishAnchor place (.mapping tag? (← blockPairs fuel))
        else if anchor?.isSome || tag?.isSome then do
          finishAnchor (← startAnchor anchor?) (.scalar tag? true "")
        else refuse

def blockItems : (fuel : Nat) → Reader (List Node)
  | 0 => refuse
  | fuel + 1 => do
    match ← peek with
    | some .blockEntry => do
      skip
      let item ←
        match ← peek with
        | some .blockEntry | some .blockEnd => pure Node.nothing
        | _ => node fuel true false
      return item :: (← blockItems fuel)
    | some .blockEnd => do skip; return []
    | _ => refuse

/-- The entries of a sequence that has no indentation of its own. -/
def bareItems : (fuel : Nat) → Reader (List Node)
  | 0 => refuse
  | fuel + 1 => do
    match ← peek with
    | some .blockEntry => do
      skip
      let item ←
        match ← peek with
        | some .blockEntry | some .key | some .value | some .blockEnd => pure Node.nothing
        | _ => node fuel true false
      return item :: (← bareItems fuel)
    | _ => return []

/-- A key or value of a block mapping, if anything is written. -/
def blockPart : (fuel : Nat) → Reader Node
  | 0 => refuse
  | fuel + 1 => do
    match ← peek with
    | some .key | some .value | some .blockEnd => return Node.nothing
    | _ => node fuel true true

def blockPairs : (fuel : Nat) → Reader (List (Node × Node))
  | 0 => refuse
  | fuel + 1 => do
    match ← peek with
    | some .key => do
      skip
      let key ← blockPart fuel
      let value ←
        match ← peek with
        | some .value => do skip; blockPart fuel
        | _ => pure Node.nothing
      return (key, value) :: (← blockPairs fuel)
    | some .blockEnd => do skip; return []
    | _ => refuse

/-- The value of a pair in a flow collection, if a colon and anything behind it is written. -/
def flowValue : (fuel : Nat) → (close : Token) → Reader Node
  | 0, _ => refuse
  | fuel + 1, close => do
    match ← peek with
    | some .value => do
      skip
      let next ← peek
      if next == some .flowEntry || next == some close then return Node.nothing
      else node fuel false false
    | _ => return Node.nothing

/-- The items of a flow sequence up to its bracket. A key begins a mapping of one pair. -/
def flowItems : (fuel : Nat) → (first : Bool) → Reader (List Node)
  | 0, _ => refuse
  | fuel + 1, first => do
    if (← peek) == some .flowSequenceEnd then do skip; return []
    else do
      if !first then expect .flowEntry
      match ← peek with
      | some .flowSequenceEnd => do skip; return []
      | some .key => do
        skip
        let key ←
          match ← peek with
          | some .value | some .flowEntry | some .flowSequenceEnd => do
            skip
            pure Node.nothing
          | _ => node fuel false false
        let value ← flowValue fuel .flowSequenceEnd
        return .mapping none [(key, value)] :: (← flowItems fuel false)
      | _ => do
        let item ← node fuel false false
        return item :: (← flowItems fuel false)

def flowPairs : (fuel : Nat) → (first : Bool) → Reader (List (Node × Node))
  | 0, _ => refuse
  | fuel + 1, first => do
    if (← peek) == some .flowMappingEnd then do skip; return []
    else do
      if !first then expect .flowEntry
      match ← peek with
      | some .flowMappingEnd => do skip; return []
      | some .key => do
        skip
        let key ←
          match ← peek with
          | some .value | some .flowEntry | some .flowMappingEnd => pure Node.nothing
          | _ => node fuel false false
        let value ← flowValue fuel .flowMappingEnd
        return (key, value) :: (← flowPairs fuel false)
      | _ => do
        let key ← node fuel false false
        return (key, Node.nothing) :: (← flowPairs fuel false)
end

/-- The directives in front of a document: at most one version, of 1.1 or 1.2, and no handle
twice. -/
def directives : (versioned : Bool) → List Token → Option (List (String × Tag) × List Token)
  | versioned, .versionDirective major minor :: rest =>
    if versioned ∨ major ≠ 1 ∨ (minor ≠ 1 ∧ minor ≠ 2) then none else directives true rest
  | versioned, .tagDirective handle lead :: rest => do
    let (handles, rest) ← directives versioned rest
    if (handles.lookup handle).isSome then none else some ((handle, lead) :: handles, rest)
  | _, rest => some ([], rest)

def defaultHandles : List (String × Tag) := [("!", .mark), ("!!", .core "")]

/-- The document begins with this token by itself. -/
def beginsBare : Option Token → Bool
  | none => false
  | some (.versionDirective ..) => false
  | some (.tagDirective ..) => false
  | some .documentStart => false
  | some _ => true

def content (fuel : Nat) : Reader Node := do
  match ← peek with
  | none | some (.versionDirective ..) | some (.tagDirective ..) | some .documentStart
  | some .documentEnd => return Node.nothing
  | _ => node fuel true false

end Reader

structure Document where
  root : Node
  anchors : Anchors

/-- The only document among tokens: `some none` where there is none at all. -/
def Document.ofTokens? (tokens : List Token) : Option (Option Document) := do
  if tokens.isEmpty then return none
  let fuel := 4 * tokens.length + 4
  let (root, reading) ←
    if Reader.beginsBare tokens.head? then
      (Reader.node fuel true false).run ⟨tokens, Reader.defaultHandles, .empty⟩
    else do
      let (handles, rest) ← Reader.directives false tokens
      match rest with
      | .documentStart :: rest =>
        (Reader.content fuel).run ⟨rest, handles ++ Reader.defaultHandles, .empty⟩
      | _ => none
  if reading.tokens.all (· == .documentEnd) then return some ⟨root, reading.anchors⟩ else none

end ParserPackages.Yaml
