import ParserPackages.Script.Hook
import ParserPackages.Proofs.Configuration.Reached

/-!
# The account of scripted hooks

What a script does to a configuration is fixed by its actions: each of them makes at most one
change, so every library of scripts has an account. A small library with overlapping packages
stands at the end; theorems on parsers are tried on it.
-/
namespace ParserPackages

/-- The changes that an action makes to a configuration. -/
def Action.changes (library : ScriptLibrary) : Action → List (Change Hook Filter)
  | append package => [.append package]
  | appendNamed name => (library.package? name).toList.map .append
  | setOption name value => [.editOptions (·.set name value)]
  | overlay options => [.editOptions (·.overlay options)]
  | applyUser options => [.editOptions fun t => (t.applyUser options).toOption.getD t]
  | rebuildIndex => [.rebuildIndex]
  | note _ | observe _ | addFilter .. | applyOptions .. | countFilters => []

def Script.changes (library : ScriptLibrary) (script : Script) : List (Change Hook Filter) :=
  script.actions.flatMap (·.changes library)

theorem Action.run_configuration (library : ScriptLibrary) (action : Action) (s : Scene) :
    (action.run library s).configuration = s.configuration.applyAll (action.changes library) := by
  cases action with
  | appendNamed name =>
    simp only [run, changes]
    cases library.package? name <;> rfl
  | applyUser options =>
    simp only [run, changes, Scene.attempt, Configuration.applyAll_cons, Configuration.applyAll_nil,
      Change.apply]
    cases s.configuration.options.applyUser options <;> rfl
  | addFilter stage => cases stage <;> rfl
  | applyOptions defaults overrides =>
    simp only [run, changes, Configuration.applyAll_nil]
    cases s.engine? with
    | none => rfl
    | some engine =>
      simp only [Scene.attempt]
      cases engine.applyOptions defaults overrides <;> rfl
  | countFilters =>
    simp only [run, changes, Configuration.applyAll_nil]
    cases s.engine? <;> rfl
  | note | append | setOption | overlay | rebuildIndex | observe => rfl

theorem Script.run_configuration (library : ScriptLibrary) (script : Script) (s : Scene) :
    (script.run library s).configuration = s.configuration.applyAll (script.changes library) := by
  obtain ⟨actions, flow⟩ := script
  simp only [run, changes]
  induction actions generalizing s with
  | nil => rfl
  | cons action rest ih =>
    rw [List.foldl_cons, ih, List.flatMap_cons, Configuration.applyAll_append,
      Action.run_configuration]

namespace ScriptLibrary

def changes (library : ScriptLibrary) (hook : Hook) : List (Change Hook Filter) :=
  (library.script? hook).toList.flatMap (·.changes library)

theorem runHook_configuration (library : ScriptLibrary) (hook : Hook) (s : Scene) :
    (library.runHook hook s).2.configuration =
      s.configuration.applyAll (library.changes hook) := by
  simp only [runHook, changes]
  cases library.script? hook with
  | none => rfl
  | some script => simpa using script.run_configuration library s

/-- What the hooks of a library do to configurations. -/
def account (library : ScriptLibrary) : Account library.behaviour where
  onConfiguration hook _ := library.changes hook
  onEngine hook _ := library.changes hook
  onConfiguration_eq hook s := library.runHook_configuration hook ⟨s.1, none, s.2⟩
  onEngine_eq hook s := library.runHook_configuration hook ⟨s.configuration, some s.engine, s.world⟩

theorem onlyMakes {library : ScriptLibrary} {P : Change Hook Filter → Prop}
    (h : ∀ hook, ∀ change ∈ library.changes hook, P change) : library.account.OnlyMakes P :=
  ⟨fun hook _ => h hook, fun hook _ => h hook⟩

end ScriptLibrary

/-! ## A sample library -/

namespace Sample

def bare (name : String) : ScriptedPackage where
  serial := 0
  name := name
  parser := defaultParser
  priority := defaultPriority
  handlers := .empty
  fallbacks := .empty
  stackItems := .empty
  tags := .empty
  nodeFactories := .empty
  options := .empty
  preprocessors := []
  postprocessors := []
  init? := none
  ready? := none

def pushing (text : String) : Filter := ⟨[.push text], .proceed⟩

/-- The hook that `core` and `extra` run as they are merged. -/
def initHook : Hook := ⟨0⟩

def readyHook : Hook := ⟨1⟩

def stoppingHook : Hook := ⟨2⟩

def definitions : ScriptedPackage :=
  { bare localName with
    handlers := ⟨[], [], ["new-Command"], []⟩
    stackItems := KeyMap.empty.insert "array" (.named 2 "new.ArrayItem")
    preprocessors := [⟨pushing "n", some (-1)⟩]
    ready? := some ⟨.configuration readyHook, -1⟩ }

def lateDefinitions : ScriptedPackage :=
  { bare localName with preprocessors := [⟨pushing "l", none⟩] }

def core : ScriptedPackage :=
  { bare "core" with
    handlers := ⟨[], [], ["core-macros"], []⟩
    stackItems := KeyMap.empty.insert "array" (.named 0 "core.ArrayItem")
    options := OptionTree.empty.set "width" (.int 1)
    preprocessors := [⟨pushing "c", none⟩]
    init? := some ⟨initHook, 5⟩ }

/-- A package that overlaps with `core` and queues hooks of its own. -/
def extra : ScriptedPackage :=
  { bare "extra" with
    handlers := ⟨[], [], ["extra-macros"], []⟩
    stackItems := KeyMap.empty.insert "array" (.named 1 "extra.ArrayItem")
    options := OptionTree.empty.set "width" (.int 2)
    init? := some ⟨initHook, 5⟩
    ready? := some ⟨.engine stoppingHook, 5⟩ }

def script? (hook : Hook) : Option Script :=
  if hook = initHook then some ⟨[.note "init", .append definitions, .rebuildIndex], .proceed⟩
  else if hook = readyHook then some ⟨[.note "ready", .append lateDefinitions], .proceed⟩
  else if hook = stoppingHook then some ⟨[.note "stopped"], .stop⟩
  else none

theorem script?_cases (hook : Hook) :
    script? hook = some ⟨[.note "init", .append definitions, .rebuildIndex], .proceed⟩ ∨
      script? hook = some ⟨[.note "ready", .append lateDefinitions], .proceed⟩ ∨
      script? hook = some ⟨[.note "stopped"], .stop⟩ ∨ script? hook = none := by
  simp only [script?]
  split
  · exact .inl rfl
  split
  · exact .inr (.inl rfl)
  split
  · exact .inr (.inr (.inl rfl))
  · exact .inr (.inr (.inr rfl))

def library : ScriptLibrary := ⟨script?, fun _ => none⟩

def registry : Registry Hook Filter := ⟨(KeyMap.empty.insert "core" core).insert "extra" extra⟩

def prepared : Prepared Hook Filter :=
  ⟨((Configuration.empty.append core).runInit library.behaviour []).2.1.rebuildIndex,
    [defaultParser]⟩

/-- The engine that `prepared` has configured. -/
def engine : Engine Filter := (prepared.configure library.behaviour .empty []).2.1

def running : Running Hook Filter :=
  ⟨(prepared.active.append lateDefinitions), [defaultParser]⟩

theorem ofRequests_core : (Prepared.ofRequests library.behaviour registry [.ofName "core"]
    [defaultParser] []).1 = .ok prepared := rfl

theorem configure_prepared : (prepared.configure library.behaviour .empty []).1 = .ok running := rfl

end Sample
end ParserPackages
