import ParserPackages.Proofs.Configuration.Kept
import ParserPackages.Proofs.Engine.Hooks
import ParserPackages.Proofs.Script.Account

/-!
# What scripts can do

To a configuration scripts make plain changes only. To the engine, where they are given it, they
add filters and they call its option step, and do nothing else whatever calls are refused.
-/
namespace ParserPackages

/-- The engine is at hand, and has come about from this one by adding filters and calling the
option step. -/
def Scene.Serves (s : Scene) (start : Engine Filter) : Prop :=
  ∃ e, s.engine? = some e ∧ start.Served e

theorem Action.run_serves (library : ScriptLibrary) (action : Action) {s : Scene}
    {start : Engine Filter} (h : s.Serves start) : (action.run library s).Serves start := by
  obtain ⟨e, he, hserved⟩ := h
  obtain ⟨c, _, notes⟩ := s
  obtain rfl := he
  cases action with
  | appendNamed name =>
    simp only [run]
    cases library.package? name <;> exact ⟨e, rfl, hserved⟩
  | applyUser options =>
    simp only [run, Scene.attempt]
    cases (c.options.applyUser options).mapError Fault.unknownOption <;> exact ⟨e, rfl, hserved⟩
  | addFilter stage filter priority? =>
    cases stage with
    | before => exact ⟨_, rfl, hserved.addBefore filter (priority?.getD defaultPriority)⟩
    | after => exact ⟨_, rfl, hserved.addAfter filter (priority?.getD defaultPriority)⟩
  | applyOptions defaults overrides =>
    have hcall := hserved.afterCall ⟨defaults, overrides⟩
    simp only [Engine.afterCall] at hcall
    simp only [run, Scene.attempt]
    cases ho : e.applyOptions defaults overrides with
    | error fault => exact ⟨e, rfl, hserved⟩
    | ok e' =>
      rw [ho] at hcall
      exact ⟨e', rfl, hcall⟩
  | note | append | setOption | overlay | rebuildIndex | observe | countFilters =>
    exact ⟨e, rfl, hserved⟩

theorem Script.run_serves (library : ScriptLibrary) (script : Script) {s : Scene}
    {start : Engine Filter} (h : s.Serves start) : (script.run library s).Serves start := by
  obtain ⟨actions, flow⟩ := script
  simp only [run]
  induction actions generalizing s with
  | nil => exact h
  | cons action rest ih => exact ih (action.run_serves library h)

theorem Action.plain_changes (library : ScriptLibrary) (action : Action) :
    ∀ change ∈ action.changes library, change.Plain := by
  cases action with
  | append => exact List.forall_mem_singleton.2 trivial
  | appendNamed name =>
    simp only [changes]
    cases library.package? name with
    | none => exact List.forall_mem_nil _
    | some package => exact List.forall_mem_singleton.2 trivial
  | setOption name value => exact List.forall_mem_singleton.2 (.set name value)
  | overlay options => exact List.forall_mem_singleton.2 (.overlay options)
  | applyUser options => exact List.forall_mem_singleton.2 (.applyUser options)
  | rebuildIndex => exact List.forall_mem_singleton.2 trivial
  | note | observe | addFilter | applyOptions | countFilters => exact List.forall_mem_nil _

namespace ScriptLibrary

theorem onlyMakes_plain (library : ScriptLibrary) : library.account.OnlyMakes Change.Plain := by
  refine onlyMakes fun hook change hmem => ?_
  obtain ⟨script, -, hmem⟩ := List.mem_flatMap.1 hmem
  obtain ⟨action, -, hmem⟩ := List.mem_flatMap.1 hmem
  exact action.plain_changes library change hmem

theorem servesEngine (library : ScriptLibrary) : library.behaviour.ServesEngine where
  onEngine hook s := by
    have hstart : Scene.Serves ⟨s.configuration, some s.engine, s.world⟩ s.engine :=
      ⟨s.engine, rfl, .refl _⟩
    have hrun : (library.runHook hook ⟨s.configuration, some s.engine, s.world⟩).2.Serves
        s.engine := by
      simp only [runHook]
      cases library.script? hook with
      | none => exact hstart
      | some script => exact script.run_serves library hstart
    obtain ⟨e, he, hserved⟩ := hrun
    simp only [behaviour, he]
    exact hserved

end ScriptLibrary
end ParserPackages
