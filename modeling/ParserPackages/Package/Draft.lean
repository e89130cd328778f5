import ParserPackages.Package.Basic
import ParserPackages.Fault

/-! # Drafts of packages

A package is described step by step and checked once, when it is built. A hook that was given no
priority takes that of the package, whatever it is by then. -/

namespace ParserPackages

inductive Stage where
  | before
  | after
  deriving DecidableEq, Repr

structure Draft (H F : Type) where
  name : String
  parser : String := defaultParser
  priority : Priority := defaultPriority
  handlers : HandlerLists := .empty
  fallbacks : Fallbacks := .empty
  stackItems : RuleMap := .empty
  tags : RuleMap := .empty
  nodeFactories : RuleMap := .empty
  options : OptionTree := .empty
  preprocessors : List (Processor F) := []
  postprocessors : List (Processor F) := []
  init? : Option (H × Option Priority) := none
  ready? : Option (ReadyHook H × Option Priority) := none

namespace Draft

variable {H F : Type}

def ofName (name : String) : Draft H F := { name }

/-- A draft of a package that hooks append by themselves. -/
def ofLocal : Draft H F := ofName localName

def withPriority (d : Draft H F) (priority : Priority) : Draft H F := { d with priority }

def withParser (d : Draft H F) (parser : String) : Draft H F := { d with parser }

def addHandlers (d : Draft H F) (category : Category) (names : List String) : Draft H F :=
  { d with handlers := d.handlers.extend category names }

def setFallback (d : Draft H F) (category : Category) (rule : Rule) : Draft H F :=
  { d with fallbacks := d.fallbacks.set category (some rule) }

def setStackItem (d : Draft H F) (kind : String) (rule : Rule) : Draft H F :=
  { d with stackItems := d.stackItems.insert kind rule }

def setTag (d : Draft H F) (scheme : String) (rule : Rule) : Draft H F :=
  { d with tags := d.tags.insert scheme rule }

def setNodeFactory (d : Draft H F) (kind : String) (rule : Rule) : Draft H F :=
  { d with nodeFactories := d.nodeFactories.insert kind rule }

def setOption (d : Draft H F) (name : String) (value : Json) : Draft H F :=
  { d with options := d.options.set name value }

def setOptions (d : Draft H F) (options : OptionTree) : Draft H F :=
  { d with options := d.options.overwrite options }

def addProcessor (d : Draft H F) (stage : Stage) (processor : Processor F) : Draft H F :=
  match stage with
  | .before => { d with preprocessors := d.preprocessors ++ [processor] }
  | .after => { d with postprocessors := d.postprocessors ++ [processor] }

def setInit (d : Draft H F) (hook : H) (priority? : Option Priority) : Draft H F :=
  { d with init? := some (hook, priority?) }

def setReady (d : Draft H F) (hook : ReadyHook H) (priority? : Option Priority) : Draft H F :=
  { d with ready? := some (hook, priority?) }

/-- The first blank name among the handler maps, by category and position. -/
def blankHandlerMap? (handlers : HandlerLists) : Option Defect :=
  handlers.toList.findSome? fun (category, names) =>
    (names.findIdx? Text.isBlank).map (.blankHandlerMap category)

/-- The first thing that is wrong with a draft of a named package. -/
def defect? (d : Draft H F) : Option Defect :=
  if Text.isBlank d.parser then some .blankParser
  else match blankHandlerMap? d.handlers with
    | some defect => some defect
    | none =>
      if d.stackItems.keys.any Text.isBlank then some .blankStackItem
      else if d.tags.keys.any Text.isBlank then some .blankTagScheme
      else if d.nodeFactories.keys.any Text.isBlank then some .blankNodeFactory
      else if d.options.names.any Text.isBlank then some .blankOption
      else none

def build (d : Draft H F) (serial : Nat) : Except Fault (Package H F) := do
  Fault.requireName d.name .package
  match d.defect? with
  | some defect => throw (.malformed d.name defect)
  | none =>
    return {
      serial
      name := d.name
      parser := d.parser
      priority := d.priority
      handlers := d.handlers
      fallbacks := d.fallbacks
      stackItems := d.stackItems
      tags := d.tags
      nodeFactories := d.nodeFactories
      options := d.options
      preprocessors := d.preprocessors
      postprocessors := d.postprocessors
      init? := d.init?.map fun (hook, priority?) => ⟨hook, priority?.getD d.priority⟩
      ready? := d.ready?.map fun (hook, priority?) => ⟨hook, priority?.getD d.priority⟩ }

end Draft
end ParserPackages
