/-! # Handler categories

The classes of tokens that a parser dispatches on, and values kept for each of them. -/

namespace ParserPackages

/-- A class of tokens; `command` is the class of macros. -/
inductive Category where
  | character
  | delimiter
  | command
  | environment
  deriving DecidableEq, Repr

namespace Category

def all : List Category := [character, delimiter, command, environment]

def name : Category → String
  | character => "character"
  | delimiter => "delimiter"
  | command => "macro"
  | environment => "environment"

def index : Category → Nat
  | character => 0
  | delimiter => 1
  | command => 2
  | environment => 3

def ofName? (name : String) : Option Category := all.find? (·.name == name)

def unknownMessage (name : String) : String :=
  "unknown handler category '" ++ name ++ "'"

theorem mem_all (c : Category) : c ∈ all := by cases c <;> decide

@[simp] theorem ofName?_name (c : Category) : ofName? c.name = some c := by cases c <;> decide

end Category

/-- A value for every category. -/
structure ByCategory (α : Type) where
  character : α
  delimiter : α
  command : α
  environment : α
  deriving DecidableEq, Repr

namespace ByCategory

variable {α β : Type}

def get (v : ByCategory α) : Category → α
  | .character => v.character
  | .delimiter => v.delimiter
  | .command => v.command
  | .environment => v.environment

def ofFn (f : Category → α) : ByCategory α :=
  ⟨f .character, f .delimiter, f .command, f .environment⟩

def replicate (a : α) : ByCategory α := ofFn fun _ => a

def set (v : ByCategory α) (c : Category) (a : α) : ByCategory α :=
  ofFn fun d => if d = c then a else v.get d

def map (f : α → β) (v : ByCategory α) : ByCategory β := ofFn fun c => f (v.get c)

def toList (v : ByCategory α) : List (Category × α) := Category.all.map fun c => (c, v.get c)

@[simp] theorem get_ofFn (f : Category → α) (c : Category) : (ofFn f).get c = f c := by
  cases c <;> rfl

@[simp] theorem get_replicate (a : α) (c : Category) : (replicate a).get c = a := by
  simp [replicate]

@[simp] theorem get_map (f : α → β) (v : ByCategory α) (c : Category) :
    (v.map f).get c = f (v.get c) := by simp [map]

@[simp] theorem get_set_self (v : ByCategory α) (c : Category) (a : α) :
    (v.set c a).get c = a := by simp [set]

theorem get_set_of_ne {c d : Category} (h : d ≠ c) (v : ByCategory α) (a : α) :
    (v.set c a).get d = v.get d := by simp [set, h]

@[ext] theorem ext {v w : ByCategory α} (h : ∀ c, v.get c = w.get c) : v = w := by
  have h1 := h .character
  have h2 := h .delimiter
  have h3 := h .command
  have h4 := h .environment
  cases v; cases w
  simp only [get] at h1 h2 h3 h4
  simp [h1, h2, h3, h4]

end ByCategory

/-- The names of handler maps for each category; earlier names are consulted first. -/
abbrev HandlerLists := ByCategory (List String)

namespace HandlerLists

def empty : HandlerLists := .replicate []

/-- Adds names behind those of a category. -/
def extend (lists : HandlerLists) (c : Category) (names : List String) : HandlerLists :=
  lists.set c (lists.get c ++ names)

def isEmpty (lists : HandlerLists) : Bool := lists.toList.all (·.2.isEmpty)

end HandlerLists
end ParserPackages
