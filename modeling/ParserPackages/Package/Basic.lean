import ParserPackages.Flow
import ParserPackages.Rule
import ParserPackages.OptionTree.Basic

/-! # Packages

A package is a named bundle of everything it contributes to a parser. Its callables are of types
chosen by the host: `H` for hooks and `F` for filters. -/

namespace ParserPackages

/-- A hook that runs once the engine exists, by the arguments it is given. -/
inductive ReadyHook (H : Type) where
  /-- Gets the configuration only. -/
  | configuration (hook : H)
  /-- Gets the configuration and the engine. -/
  | engine (hook : H)
  deriving DecidableEq, Repr

def ReadyHook.argumentCount {H : Type} : ReadyHook H → Nat
  | configuration _ => 1
  | engine _ => 2

/-- A filter to install before or after parsing, with a priority of its own or none. -/
structure Processor (F : Type) where
  filter : F
  priority? : Option Priority
  deriving DecidableEq, Repr

def Processor.installPriority {F : Type} (p : Processor F) : Priority :=
  p.priority?.getD defaultPriority

def defaultParser : String := "tex"

/-- The name of packages that are never registered. -/
def localName : String := "<local>"

/-- Everything that one package contributes. The serial number tells apart packages that were
built separately. -/
structure Package (H F : Type) where
  serial : Nat
  name : String
  parser : String
  priority : Priority
  handlers : HandlerLists
  fallbacks : Fallbacks
  stackItems : RuleMap
  tags : RuleMap
  nodeFactories : RuleMap
  options : OptionTree
  preprocessors : List (Processor F)
  postprocessors : List (Processor F)
  init? : Option (Ranked H)
  ready? : Option (Ranked (ReadyHook H))

def Package.sameAs {H F : Type} (p q : Package H F) : Bool := p.serial == q.serial

end ParserPackages
