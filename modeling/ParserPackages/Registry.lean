import ParserPackages.Package.Draft

/-! # Registries

Packages by the name they are registered under. Registering a name again replaces what it held. -/

namespace ParserPackages

structure Registry (H F : Type) where
  entries : KeyMap (Package H F)

namespace Registry

variable {H F : Type}

def empty : Registry H F := ⟨.empty⟩

instance : Inhabited (Registry H F) := ⟨empty⟩

def lookup? (r : Registry H F) (name : String) : Option (Package H F) := r.entries.get? name

def contains (r : Registry H F) (name : String) : Bool := r.entries.contains name

def names (r : Registry H F) : List String := r.entries.keys

/-- The packages with their registered names, in the order of names. -/
def toPairs (r : Registry H F) : List (String × Package H F) := r.entries.pairs

def size (r : Registry H F) : Nat := r.entries.size

def isEmpty (r : Registry H F) : Bool := r.entries.isEmpty

/-- Registers a package under a name, and returns what was registered there before. -/
def register (r : Registry H F) (name : String) (package : Package H F) :
    Except Fault (Option (Package H F) × Registry H F) := do
  Fault.requireName name .registry
  return (r.lookup? name, ⟨r.entries.insert name package⟩)

def add (r : Registry H F) (package : Package H F) :
    Except Fault (Option (Package H F) × Registry H F) :=
  r.register package.name package

def define (r : Registry H F) (draft : Draft H F) (serial : Nat) :
    Except Fault (Package H F × Registry H F) := do
  let package ← draft.build serial
  let (_, registry) ← r.add package
  return (package, registry)

end Registry
end ParserPackages
