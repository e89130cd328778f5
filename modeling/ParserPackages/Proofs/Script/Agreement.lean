import ParserPackages.Script.Hook
import ParserPackages.Proofs.Parser.Agreement

/-!
# Scripts do not read their notes

Scripts write notes but no action depends on them, so hooks that are scripts do the same whatever
has been noted down before.
-/
namespace ParserPackages

/-- Scenes that differ in their notes at most. -/
structure Scene.Alike (s t : Scene) : Prop where
  configuration : s.configuration = t.configuration
  engine? : s.engine? = t.engine?

theorem Scene.Alike.attempt {α : Type} {s t : Scene} (h : s.Alike t) (what : String)
    (result : Except Fault α) {update update' : α → Scene}
    (hu : ∀ a, (update a).Alike (update' a)) :
    (s.attempt what result update).Alike (t.attempt what result update') := by
  cases result with
  | ok a => exact ⟨(hu a).configuration, (hu a).engine?⟩
  | error fault => exact ⟨h.configuration, h.engine?⟩

theorem Action.run_alike (library : ScriptLibrary) (action : Action) {s t : Scene}
    (h : s.Alike t) : (action.run library s).Alike (action.run library t) := by
  obtain ⟨c, engine?, notes⟩ := s
  obtain ⟨c', engine?', notes'⟩ := t
  obtain ⟨rfl, rfl⟩ : c = c' ∧ engine? = engine?' := ⟨h.configuration, h.engine?⟩
  cases action with
  | appendNamed name =>
    simp only [run]
    cases library.package? name <;> exact ⟨rfl, rfl⟩
  | applyUser options => exact h.attempt _ _ fun _ => ⟨rfl, rfl⟩
  | addFilter stage => cases stage <;> exact ⟨rfl, rfl⟩
  | applyOptions defaults overrides =>
    cases engine? with
    | none => exact h
    | some engine => exact h.attempt _ _ fun _ => ⟨rfl, rfl⟩
  | countFilters => cases engine? <;> exact ⟨rfl, rfl⟩
  | note | append | setOption | overlay | rebuildIndex | observe => exact ⟨rfl, rfl⟩

theorem Script.run_alike (library : ScriptLibrary) (script : Script) {s t : Scene}
    (h : s.Alike t) : (script.run library s).Alike (script.run library t) := by
  obtain ⟨actions, flow⟩ := script
  simp only [run]
  induction actions generalizing s t with
  | nil => exact h
  | cons action rest ih => exact ih (action.run_alike library h)

namespace ScriptLibrary

theorem runHook_alike (library : ScriptLibrary) (hook : Hook) {s t : Scene} (h : s.Alike t) :
    (library.runHook hook s).1 = (library.runHook hook t).1 ∧
      (library.runHook hook s).2.Alike (library.runHook hook t).2 := by
  simp only [runHook]
  cases library.script? hook with
  | none => exact ⟨rfl, h⟩
  | some script => exact ⟨rfl, script.run_alike library h⟩

/-- Hooks of a library do the same with any notes. -/
theorem agree_any_notes (library : ScriptLibrary) :
    Behaviour.Agree (fun _ _ => True) library.behaviour library.behaviour where
  onConfiguration hook s t h := by
    obtain ⟨hflow, hs⟩ := library.runHook_alike hook (s := ⟨s.1, none, s.2⟩)
      (t := ⟨t.1, none, t.2⟩) ⟨h.1, rfl⟩
    exact ⟨hflow, hs.configuration, trivial⟩
  onEngine hook s t h := by
    obtain ⟨hflow, hs⟩ := library.runHook_alike hook
      (s := ⟨s.configuration, some s.engine, s.world⟩)
      (t := ⟨t.configuration, some t.engine, t.world⟩) ⟨h.configuration, congrArg some h.engine⟩
    refine ⟨hflow, hs.configuration, ?_, trivial⟩
    simp only [behaviour]
    rw [hs.engine?, h.engine]

end ScriptLibrary
end ParserPackages
