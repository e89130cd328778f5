import ParserPackages.Configuration.Basic

/-! # Merging

A package is merged slot by slot. Each slot has a policy, and for each shape of contribution a
policy either lets the incoming part come first or lets it come second. -/

namespace ParserPackages

/-- How an incoming contribution meets what is there. -/
inductive Policy where
  /-- Incoming items go in front, in their own order. -/
  | prepend
  /-- Incoming items go behind, in their own order. -/
  | append
  /-- Incoming values replace those of the same key. -/
  | lastWins
  /-- Only values of new keys are added. -/
  | firstWins
  deriving DecidableEq, Repr

namespace Policy

/-- Sequences go in front and keyed values replace. -/
def incomingFirst : Policy → Bool
  | prepend | lastWins => true
  | append | firstWins => false

def mergeList {α : Type} (p : Policy) (present incoming : List α) : List α :=
  if p.incomingFirst then incoming ++ present else present ++ incoming

def mergeMap {α : Type} (p : Policy) (present incoming : KeyMap α) : KeyMap α :=
  if p.incomingFirst then present.overwrite incoming else present.fill incoming

def mergeFallbacks (p : Policy) (present incoming : Fallbacks) : Fallbacks :=
  .ofFn fun c =>
    if p.incomingFirst then (incoming.get c).or (present.get c)
    else (present.get c).or (incoming.get c)

def mergeHandlers (p : Policy) (present incoming : HandlerLists) : HandlerLists :=
  .ofFn fun c => p.mergeList (present.get c) (incoming.get c)

def mergeOptions (p : Policy) (present incoming : OptionTree) : OptionTree :=
  if p.incomingFirst then present.overwrite incoming else present.fill incoming

/-- Adds a hook to a chain. Its own priority places it, whatever the policy. -/
def mergeHook {κ : Type} (_ : Policy) (chain : Chain κ) (hook : Ranked κ) : Chain κ :=
  chain.insertEntry hook

def mergeHook? {κ : Type} (p : Policy) (chain : Chain κ) : Option (Ranked κ) → Chain κ
  | none => chain
  | some hook => p.mergeHook chain hook

end Policy

inductive Slot where
  | handlers
  | fallbacks
  | stackItems
  | tags
  | nodeFactories
  | options
  | preprocessors
  | postprocessors
  | initHook
  | readyHook
  deriving DecidableEq, Repr

namespace Slot

def all : List Slot :=
  [handlers, fallbacks, stackItems, tags, nodeFactories, options, preprocessors, postprocessors,
    initHook, readyHook]

def name : Slot → String
  | handlers => "handlers"
  | fallbacks => "fallbacks"
  | stackItems => "stack_items"
  | tags => "tags"
  | nodeFactories => "node_factories"
  | options => "options"
  | preprocessors => "preprocessors"
  | postprocessors => "postprocessors"
  | initHook => "init_hook"
  | readyHook => "ready_hook"

def ofName? (name : String) : Option Slot := all.find? (·.name == name)

end Slot

structure MergeStep where
  slot : Slot
  policy : Policy
  deriving DecidableEq, Repr

/-- The steps of a merge, in order. Handlers of the latest package come first, while the first
default of an option stays. -/
def mergeOrder : List MergeStep :=
  [⟨.handlers, .prepend⟩,
    ⟨.fallbacks, .lastWins⟩,
    ⟨.stackItems, .lastWins⟩,
    ⟨.tags, .lastWins⟩,
    ⟨.nodeFactories, .lastWins⟩,
    ⟨.options, .firstWins⟩,
    ⟨.preprocessors, .append⟩,
    ⟨.postprocessors, .append⟩,
    ⟨.initHook, .append⟩,
    ⟨.readyHook, .append⟩]

def Slot.policy (slot : Slot) : Policy :=
  ((mergeOrder.find? (·.slot == slot)).map (·.policy)).getD .append

namespace Configuration

variable {H F : Type}

def applyStep (c : Configuration H F) (step : MergeStep) (package : Package H F) :
    Configuration H F :=
  let p := step.policy
  match step.slot with
  | .handlers => { c with handlers := p.mergeHandlers c.handlers package.handlers }
  | .fallbacks => { c with fallbacks := p.mergeFallbacks c.fallbacks package.fallbacks }
  | .stackItems => { c with stackItems := p.mergeMap c.stackItems package.stackItems }
  | .tags => { c with tags := p.mergeMap c.tags package.tags }
  | .nodeFactories => { c with nodeFactories := p.mergeMap c.nodeFactories package.nodeFactories }
  | .options => { c with options := p.mergeOptions c.options package.options }
  | .preprocessors =>
    { c with preprocessors := p.mergeList c.preprocessors package.preprocessors }
  | .postprocessors =>
    { c with postprocessors := p.mergeList c.postprocessors package.postprocessors }
  | .initHook => { c with initChain := p.mergeHook? c.initChain package.init? }
  | .readyHook => { c with readyChain := p.mergeHook? c.readyChain package.ready? }

def fold (c : Configuration H F) (package : Package H F) : Configuration H F :=
  mergeOrder.foldl (fun c step => c.applyStep step package) c

/-- Merges a package and notes its name. Its hooks are queued, not run. -/
def append (c : Configuration H F) (package : Package H F) : Configuration H F :=
  let merged := c.fold package
  { merged with packages := merged.packages ++ [package.name] }

end Configuration
end ParserPackages
