import ParserPackages.Rule

/-! # Handler lookup

The handler lists with only the first occurrence of every name, which is what a lookup walks, and
the outcome of looking a token up. -/

namespace ParserPackages

/-- Keeps the first occurrence of every name that was not `seen`. -/
def firstOccurrences (seen : List String) : List String → List String
  | [] => []
  | name :: rest =>
    if name ∈ seen then firstOccurrences seen rest
    else name :: firstOccurrences (name :: seen) rest

/-- Handler maps for each category, in lookup order and without repetition. -/
structure HandlerIndex where
  maps : HandlerLists
  deriving DecidableEq, Repr

/-- Tells whether a handler map claims a token. -/
abbrev Claims := (map token : String) → Bool

inductive Resolution where
  /-- The first handler map that claims the token. -/
  | map (name : String)
  /-- No map claims it; the rule of the category applies. -/
  | fallback (rule : Rule)
  | unhandled
  deriving DecidableEq, Repr

namespace Resolution

def mapName? : Resolution → Option String
  | map name => some name
  | _ => none

def rule? : Resolution → Option Rule
  | fallback rule => some rule
  | _ => none

def isHandled : Resolution → Bool
  | unhandled => false
  | _ => true

end Resolution

namespace HandlerIndex

def empty : HandlerIndex := ⟨.empty⟩

def ofLists (lists : HandlerLists) : HandlerIndex := ⟨lists.map (firstOccurrences [])⟩

/-- The first of the named maps that claims the token, else the rule of the category. -/
def resolveIn (names : List String) (claims : Claims) (token : String) (rule? : Option Rule) :
    Resolution :=
  match names.find? (claims · token) with
  | some name => .map name
  | none =>
    match rule? with
    | some rule => .fallback rule
    | none => .unhandled

def resolve (index : HandlerIndex) (category : Category) (token : String) (claims : Claims)
    (fallbacks : Fallbacks) : Resolution :=
  resolveIn (index.maps.get category) claims token (fallbacks.get category)

end HandlerIndex

/-- Handler maps held in memory: the tokens that each one claims. -/
structure HandlerMaps where
  tokens : KeyMap (List String)

namespace HandlerMaps

def empty : HandlerMaps := ⟨.empty⟩

def define (m : HandlerMaps) (name : String) (tokens : List String) : HandlerMaps :=
  ⟨m.tokens.insert name ((m.tokens.get? name).getD [] ++ tokens)⟩

def contains (m : HandlerMaps) (name : String) : Bool := m.tokens.contains name

def claims (m : HandlerMaps) : Claims := fun name token =>
  ((m.tokens.get? name).getD []).contains token

end HandlerMaps
end ParserPackages
