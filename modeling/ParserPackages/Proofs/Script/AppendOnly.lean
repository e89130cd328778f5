import ParserPackages.Proofs.Parser.AppendOnly

/-!
# Scripts that only append

Scripts that append packages and note things down are hooks that only append. What they note may
depend on the index and on the filters of the engine, but nothing else does.
-/
namespace ParserPackages

def Action.OnlyAppends : Action → Prop
  | append _ | appendNamed _ | note _ | observe _ | countFilters => True
  | setOption .. | overlay .. | applyUser .. | rebuildIndex | addFilter .. | applyOptions .. =>
    False

/-- What came of a scene once packages were appended and notes taken. -/
structure Scene.Appended (s : Scene) (packages : List ScriptedPackage) (t : Scene) : Prop where
  configuration : t.configuration = s.configuration.appendAll packages
  engine? : t.engine? = s.engine?

theorem Action.run_onlyAppends (library : ScriptLibrary) {action : Action}
    (h : action.OnlyAppends) (s : Scene) :
    s.Appended (Change.appended (action.changes library)) (action.run library s) := by
  cases action with
  | append | note | observe => exact ⟨rfl, rfl⟩
  | appendNamed name =>
    simp only [run, changes]
    cases library.package? name <;> exact ⟨rfl, rfl⟩
  | countFilters =>
    obtain ⟨c, engine?, notes⟩ := s
    cases engine? <;> exact ⟨rfl, rfl⟩
  | setOption | overlay | applyUser | rebuildIndex | addFilter | applyOptions => exact h.elim

theorem Script.run_onlyAppends (library : ScriptLibrary) (script : Script)
    (h : ∀ action ∈ script.actions, action.OnlyAppends) (s : Scene) :
    s.Appended (Change.appended (script.changes library)) (script.run library s) := by
  obtain ⟨actions, flow⟩ := script
  simp only [run, changes]
  induction actions generalizing s with
  | nil => exact ⟨rfl, rfl⟩
  | cons action rest ih =>
    obtain ⟨haction, hrest⟩ := List.forall_mem_cons.1 h
    obtain ⟨hc, he⟩ := Action.run_onlyAppends library haction s
    obtain ⟨hc', he'⟩ := ih (action.run library s) hrest
    refine ⟨?_, he'.trans he⟩
    rw [List.foldl_cons, List.flatMap_cons, Change.appended_append,
      Configuration.appendAll_append, ← hc, hc']

namespace ScriptLibrary

variable {library : ScriptLibrary} {hooks : Hook → Prop}

theorem runHook_onlyAppends (hook : Hook)
    (h : ∀ script, library.script? hook = some script →
      ∀ action ∈ script.actions, action.OnlyAppends) :
    ∃ flow, ∀ s, (library.runHook hook s).1 = flow ∧
      s.Appended (Change.appended (library.changes hook)) (library.runHook hook s).2 := by
  simp only [runHook, changes]
  cases hs : library.script? hook with
  | none => exact ⟨.proceed, fun s => ⟨rfl, rfl, rfl⟩⟩
  | some script =>
    refine ⟨script.flow, fun s => ⟨rfl, ?_⟩⟩
    simpa using script.run_onlyAppends library (h script hs) s

theorem callReady_onlyAppends (hook : ReadyHook Hook)
    (h : ∀ script, library.script? hook.callable = some script →
      ∀ action ∈ script.actions, action.OnlyAppends) :
    ∃ flow, ∀ s, ∃ notes, library.behaviour.callReady hook s =
      (flow, s.appended (Change.appended (library.changes hook.callable)) notes) := by
  cases hook with
  | configuration hook =>
    obtain ⟨flow, hrun⟩ := runHook_onlyAppends hook h
    refine ⟨flow, fun s => ?_⟩
    obtain ⟨hflow, hc, -⟩ := hrun ⟨s.configuration, none, s.world⟩
    refine ⟨(library.behaviour.callReady (.configuration hook) s).2.world, Prod.ext hflow ?_⟩
    simp only [Hosted.appended, ReadyHook.callable, ← hc]
    rfl
  | engine hook =>
    obtain ⟨flow, hrun⟩ := runHook_onlyAppends hook h
    refine ⟨flow, fun s => ?_⟩
    obtain ⟨hflow, hc, he⟩ := hrun ⟨s.configuration, some s.engine, s.world⟩
    refine ⟨(library.behaviour.callReady (.engine hook) s).2.world, Prod.ext hflow ?_⟩
    simp only [Behaviour.callReady, behaviour, Hosted.appended, ReadyHook.callable, ← hc, he]
    rfl

theorem appendOnly
    (h : ∀ hook script, hooks hook → library.script? hook = some script →
      ∀ action ∈ script.actions, action.OnlyAppends)
    (hp : ∀ hook, hooks hook →
      ∀ package ∈ Change.appended (library.changes hook), package.Calls hooks) :
    library.behaviour.AppendOnly (fun _ _ => True) hooks := by
  intro hook s t hh _
  obtain ⟨flow, hcall⟩ := callReady_onlyAppends hook fun script => h hook.callable script hh
  obtain ⟨notes, hs⟩ := hcall s
  obtain ⟨notes', ht⟩ := hcall t
  rw [hs, ht]
  exact .appended flow (hp hook.callable hh) trivial

end ScriptLibrary

namespace Sample

/-- The sample hooks, with scripts that append and note things down only. -/
def appending : ScriptLibrary where
  script? hook :=
    if hook = initHook then some ⟨[.note "init", .append definitions], .proceed⟩
    else if hook = readyHook then some ⟨[.observe .index, .append lateDefinitions], .proceed⟩
    else if hook = stoppingHook then some ⟨[.note "stopped", .countFilters], .stop⟩
    else none
  package? _ := none

theorem appendOnly_appending :
    appending.behaviour.AppendOnly (fun _ _ => True) (fun _ => True) := by
  refine ScriptLibrary.appendOnly (fun hook script _ hs => ?_) fun _ _ _ _ =>
    ⟨fun _ _ => trivial, fun _ _ => trivial⟩
  simp only [appending] at hs
  split at hs
  · cases hs; simp [Action.OnlyAppends]
  split at hs
  · cases hs; simp [Action.OnlyAppends]
  split at hs
  · cases hs; simp [Action.OnlyAppends]
  · cases hs

end Sample
end ParserPackages
