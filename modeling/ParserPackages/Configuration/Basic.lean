import ParserPackages.Package.Basic
import ParserPackages.Configuration.Index

/-! # Configurations

Everything that the selected packages contributed, put together. The index reflects the handler
lists as of the last time it was rebuilt. -/

namespace ParserPackages

/-- The merged state of one parser. -/
structure Configuration (H F : Type) where
  handlers : HandlerLists
  fallbacks : Fallbacks
  stackItems : RuleMap
  tags : RuleMap
  nodeFactories : RuleMap
  options : OptionTree
  preprocessors : List (Processor F)
  postprocessors : List (Processor F)
  initChain : Chain H
  readyChain : Chain (ReadyHook H)
  /-- The names of the packages merged, in order. -/
  packages : List String
  index : HandlerIndex

namespace Configuration

variable {H F : Type}

def empty : Configuration H F where
  handlers := .empty
  fallbacks := .empty
  stackItems := .empty
  tags := .empty
  nodeFactories := .empty
  options := .empty
  preprocessors := []
  postprocessors := []
  initChain := .empty
  readyChain := .empty
  packages := []
  index := .empty

instance : Inhabited (Configuration H F) := ⟨empty⟩

def containsPackage (c : Configuration H F) (name : String) : Bool := c.packages.contains name

def rebuildIndex (c : Configuration H F) : Configuration H F :=
  { c with index := .ofLists c.handlers }

def resolve (c : Configuration H F) (category : Category) (token : String) (claims : Claims) :
    Resolution :=
  c.index.resolve category token claims c.fallbacks

end Configuration
end ParserPackages
