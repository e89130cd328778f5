import ParserPackages.Flow
import ParserPackages.Fault
import ParserPackages.OptionTree.Overlay

/-! # Host engines

What a configuration needs of the engine that drives the parser: two chains of filters, and a step
that lays the options of the user over the declared ones. -/

namespace ParserPackages

structure FilterData where
  input : String
  properties : OptionTree

namespace FilterData

def ofInput (input : String) : FilterData := ⟨input, .empty⟩

end FilterData

/-- An engine with its filters, the options of the user so far and the resolved options. -/
structure Engine (F : Type) where
  before : Chain F
  after : Chain F
  userOptions : OptionTree
  options : OptionTree

namespace Engine

variable {F : Type}

/-- An engine that lays these options over every default it receives. -/
def ofUserOptions (userOptions : OptionTree) : Engine F := ⟨.empty, .empty, userOptions, .empty⟩

def empty : Engine F := ofUserOptions .empty

instance : Inhabited (Engine F) := ⟨empty⟩

/-- Adds missing defaults to the options, then applies the options of the user; overrides join
those first. Nothing changes when some option is undeclared. -/
def applyOptions (e : Engine F) (defaults : OptionTree) (overrides : Option OptionTree) :
    Except Fault (Engine F) :=
  let user := match overrides with
    | some extra => e.userOptions.overlay extra
    | none => e.userOptions
  match (e.options.fill defaults).applyUser user with
  | .error path => .error (.unknownOption path)
  | .ok options => .ok { e with userOptions := user, options }

def addBefore (e : Engine F) (filter : F) (priority : Priority) : Engine F :=
  { e with before := e.before.insert filter priority }

def addAfter (e : Engine F) (filter : F) (priority : Priority) : Engine F :=
  { e with after := e.after.insert filter priority }

end Engine
end ParserPackages
