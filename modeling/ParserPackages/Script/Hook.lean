import ParserPackages.Parser.Running
import ParserPackages.Json.Printer

/-! # Hooks and filters as data

A filter is a list of edits of the input, after which it goes on or stops. A hook is the number of a
script, so that two hooks are the same exactly when their numbers agree. Scripts are kept in a
library, together with the packages that they find by name. What both note down is kept in a list
of notes. -/

namespace ParserPackages

/-! ## Filters -/

inductive Edit where
  | push (text : String)
  | prepend (text : String)
  | replace (pattern replacement : String)
  | property (key : String) (value : Json)
  | clear
  | note (text : String)
  /-- Drops the white space at the end. -/
  | trimEnd

structure Filter where
  edits : List Edit
  flow : Flow

namespace Edit

def run : Edit → FilterData × List String → FilterData × List String
  | push text, (data, notes) => ({ data with input := data.input ++ text }, notes)
  | prepend text, (data, notes) => ({ data with input := text ++ data.input }, notes)
  | replace pattern replacement, (data, notes) =>
    ({ data with input := Text.replaceAll data.input pattern replacement }, notes)
  | property key value, (data, notes) =>
    ({ data with properties := data.properties.set key value }, notes)
  | clear, (data, notes) => ({ data with input := "" }, notes)
  | note text, (data, notes) => (data, notes ++ [text])
  | trimEnd, (data, notes) => ({ data with input := Text.trimEnd data.input }, notes)

end Edit

def Filter.run (filter : Filter) (s : FilterData × List String) :
    Flow × (FilterData × List String) :=
  (filter.flow, filter.edits.foldl (fun s edit => edit.run s) s)

/-! ## Hooks -/

structure Hook where
  serial : Nat
  deriving DecidableEq, Repr

/-- A package whose callables are data. -/
abbrev ScriptedPackage := Package Hook Filter

inductive Observation where
  | packages
  | options
  | index
  | commands
  | hooks
  deriving DecidableEq, Repr

/-- One action of a hook. The last three need an engine and do nothing without one. -/
inductive Action where
  | note (text : String)
  | append (package : ScriptedPackage)
  /-- Appends the package of that name, found when the hook runs. -/
  | appendNamed (name : String)
  | setOption (name : String) (value : Json)
  | overlay (options : OptionTree)
  | applyUser (options : OptionTree)
  | rebuildIndex
  | observe (what : Observation)
  | addFilter (stage : Stage) (filter : Filter) (priority? : Option Priority)
  | applyOptions (defaults : OptionTree) (overrides : Option OptionTree)
  | countFilters

structure Script where
  actions : List Action
  flow : Flow

/-- Scripts by number, and packages that scripts find by name. -/
structure ScriptLibrary where
  script? : Hook → Option Script
  package? : String → Option ScriptedPackage

structure Scene where
  configuration : Configuration Hook Filter
  engine? : Option (Engine Filter)
  notes : List String

namespace Scene

def note (s : Scene) (text : String) : Scene := { s with notes := s.notes ++ [text] }

/-- Notes how an attempt ended, and goes on from what it made. -/
def attempt {α : Type} (s : Scene) (what : String) (result : Except Fault α)
    (update : α → Scene) : Scene :=
  match result with
  | .ok a => (update a).note (what ++ " ok")
  | .error fault => s.note (what ++ ": " ++ fault.message)

def withOptions (s : Scene) (options : OptionTree) : Scene :=
  { s with configuration := { s.configuration with options } }

end Scene

def Observation.text (c : Configuration Hook Filter) : Observation → String
  | packages => "packages: " ++ Text.join "," c.packages
  | options => "options: " ++ c.options.toJson.compact
  | index => "index macro: " ++ Text.join "," (c.index.maps.get .command)
  | commands => "macro: " ++ Text.join "," (c.handlers.get .command)
  | hooks => "hooks: " ++ toString c.initChain.size ++ " " ++ toString c.readyChain.size

namespace Action

def run (library : ScriptLibrary) (s : Scene) : Action → Scene
  | note text => s.note text
  | append package => { s with configuration := s.configuration.append package }
  | appendNamed name =>
    match library.package? name with
    | some package => { s with configuration := s.configuration.append package }
    | none => s.note "no such entry"
  | setOption name value => s.withOptions (s.configuration.options.set name value)
  | overlay options => s.withOptions (s.configuration.options.overlay options)
  | applyUser options =>
    s.attempt "apply_user" ((s.configuration.options.applyUser options).mapError .unknownOption)
      s.withOptions
  | rebuildIndex => { s with configuration := s.configuration.rebuildIndex }
  | observe what => s.note (what.text s.configuration)
  | addFilter stage filter priority? =>
    let priority := priority?.getD defaultPriority
    match stage with
    | .before => { s with engine? := s.engine?.map (·.addBefore filter priority) }
    | .after => { s with engine? := s.engine?.map (·.addAfter filter priority) }
  | applyOptions defaults overrides =>
    match s.engine? with
    | none => s
    | some engine =>
      s.attempt "apply_options" (engine.applyOptions defaults overrides)
        fun engine => { s with engine? := some engine }
  | countFilters =>
    match s.engine? with
    | none => s
    | some engine =>
      s.note ("filters: " ++ toString engine.before.size ++ " " ++ toString engine.after.size)

end Action

namespace Script

def run (library : ScriptLibrary) (script : Script) (s : Scene) : Scene :=
  script.actions.foldl (fun s action => action.run library s) s

end Script

namespace ScriptLibrary

/-- Runs the script of a hook; a hook without script does nothing. -/
def runHook (library : ScriptLibrary) (hook : Hook) (s : Scene) : Flow × Scene :=
  match library.script? hook with
  | none => (.proceed, s)
  | some script => (script.flow, script.run library s)

/-- What hooks and filters do, given a library; the world is a list of notes. -/
def behaviour (library : ScriptLibrary) : Behaviour Hook Filter (List String) where
  onConfiguration hook s :=
    let (flow, scene) := library.runHook hook ⟨s.1, none, s.2⟩
    (flow, (scene.configuration, scene.notes))
  onEngine hook s :=
    let (flow, scene) := library.runHook hook ⟨s.configuration, some s.engine, s.world⟩
    (flow, ⟨scene.configuration, scene.engine?.getD s.engine, scene.notes⟩)
  onData filter s := filter.run s

end ScriptLibrary
end ParserPackages
