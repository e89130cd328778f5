import ParserPackages.Proofs.Parser.Calls

/-!
# Hooks that only append

Some hooks do nothing but append packages and write to the outside world. From situations that
differ in the index, in the filters of the engine and in what was written, such hooks go on alike,
and so do passes over them.
-/
namespace ParserPackages

variable {H F σ : Type}

def ReadyHook.callable : ReadyHook H → H
  | configuration hook => hook
  | engine hook => hook

structure Package.Calls (package : Package H F) (hooks : H → Prop) : Prop where
  init? : ∀ hook ∈ package.init?, hooks hook.item
  ready? : ∀ hook ∈ package.ready?, hooks hook.item.callable

namespace Hosted

/-- The same situation with packages appended, in another world. -/
def appended (s : Hosted H F σ) (packages : List (Package H F)) (world : σ) : Hosted H F σ :=
  { s with configuration := s.configuration.appendAll packages, world }

@[simp] theorem appended_appended (s : Hosted H F σ) (first second : List (Package H F))
    (w v : σ) : (s.appended first w).appended second v = s.appended (first ++ second) v := by
  rw [appended, appended, appended, Configuration.appendAll_append]

/-- The same but for the index, the filters of the engine and worlds that are related. -/
structure Akin (R : σ → σ → Prop) (s t : Hosted H F σ) : Prop where
  configuration : s.configuration.rebuildIndex = t.configuration.rebuildIndex
  userOptions : s.engine.userOptions = t.engine.userOptions
  options : s.engine.options = t.engine.options
  world : R s.world t.world

/-- Starting from either situation, the same was reported, and the same packages were appended and
nothing else changed but the world. -/
inductive GoOnAlike (R : σ → σ → Prop) (hooks : H → Prop) (s t : Hosted H F σ) :
    Flow × Hosted H F σ → Flow × Hosted H F σ → Prop
  | appended (flow : Flow) {packages : List (Package H F)} {w v : σ}
      (hp : ∀ package ∈ packages, package.Calls hooks) (hr : R w v) :
      GoOnAlike R hooks s t (flow, s.appended packages w) (flow, t.appended packages v)

variable {R : σ → σ → Prop} {s t : Hosted H F σ}

theorem Akin.appended (h : s.Akin R t) (packages : List (Package H F)) {w v : σ} (hr : R w v) :
    (s.appended packages w).Akin R (t.appended packages v) where
  configuration := by
    simp only [Hosted.appended]
    rw [← Configuration.rebuildIndex_appendAll, h.configuration,
      Configuration.rebuildIndex_appendAll]
  userOptions := h.userOptions
  options := h.options
  world := hr

end Hosted

namespace Behaviour

/-- Hooks of this kind append packages and do nothing else but to the world. From situations that
are akin they go on alike. The packages that they append have hooks of this kind only. -/
def AppendOnly (b : Behaviour H F σ) (R : σ → σ → Prop) (hooks : H → Prop) : Prop :=
  ∀ (hook : ReadyHook H) (s t : Hosted H F σ), hooks hook.callable → s.Akin R t →
    s.GoOnAlike R hooks t (b.callReady hook s) (b.callReady hook t)

variable {b : Behaviour H F σ} {R : σ → σ → Prop} {hooks : H → Prop}

theorem AppendOnly.runAll (hb : b.AppendOnly R hooks) {items : List (ReadyHook H)}
    (hi : ∀ hook ∈ items, hooks hook.callable) {s t : Hosted H F σ} (h : s.Akin R t) :
    s.GoOnAlike R hooks t (runAll b.callReady items s) (runAll b.callReady items t) := by
  induction items generalizing s t with
  | nil =>
    have hnil : ∀ package ∈ ([] : List (Package H F)), package.Calls hooks := List.forall_mem_nil _
    exact .appended .proceed hnil h.world
  | cons hook rest ih =>
    obtain ⟨hhook, hrest⟩ := List.forall_mem_cons.1 hi
    have hstep := hb hook s t hhook h
    simp only [ParserPackages.runAll]
    generalize b.callReady hook s = first, b.callReady hook t = second at hstep ⊢
    cases hstep with
    | @appended flow packages w v hp hr =>
      cases flow with
      | stop => exact .appended .stop hp hr
      | proceed =>
        have hpass := ih hrest (h.appended packages hr)
        simp only
        generalize ParserPackages.runAll b.callReady rest (s.appended packages w) = first,
          ParserPackages.runAll b.callReady rest (t.appended packages v) = second at hpass ⊢
        cases hpass with
        | @appended flow packages' w' v' hp' hr' =>
          rw [Hosted.appended_appended, Hosted.appended_appended]
          exact .appended flow (List.forall_mem_append.2 ⟨hp, hp'⟩) hr'

/-- A package with such hooks joins alike whatever the index says. -/
theorem AppendOnly.join (hb : b.AppendOnly R hooks) {package : Package H F}
    (hq : package.Calls hooks) {c c' : Configuration H F}
    (hc : c.rebuildIndex = c'.rebuildIndex) {w v : σ} (hr : R w v) :
    ∃ packages w' v', (∀ p ∈ packages, p.Calls hooks) ∧ R w' v' ∧
      c.join b package w = (c.appendAll (package :: packages), w') ∧
      c'.join b package v = (c'.appendAll (package :: packages), v') := by
  simp only [Configuration.join]
  cases hi : package.init? with
  | none => exact ⟨[], w, v, List.forall_mem_nil _, hr, rfl, rfl⟩
  | some hook =>
    have happend : (c.append package).rebuildIndex = (c'.append package).rebuildIndex := by
      rw [← Configuration.rebuildIndex_append, hc, Configuration.rebuildIndex_append]
    -- an init hook is called as a ready hook that is given the configuration only
    have hstep := hb (.configuration hook.item) ⟨c.append package, .empty, w⟩
      ⟨c'.append package, .empty, v⟩ (hq.init? hook hi) ⟨happend, rfl, rfl, hr⟩
    generalize hfirst : b.callReady (.configuration hook.item) ⟨c.append package, .empty, w⟩ =
      first, hsecond : b.callReady (.configuration hook.item) ⟨c'.append package, .empty, v⟩ =
      second at hstep
    cases hstep with
    | @appended flow packages w' v' hp hr' =>
      exact ⟨packages, w', v', hp, hr',
        congrArg (fun run => (run.2.configuration, run.2.world)) hfirst,
        congrArg (fun run => (run.2.configuration, run.2.world)) hsecond⟩

theorem recording_callReady_eq (b : Behaviour H F σ) (hook : ReadyHook H)
    (s : Hosted H F (σ × Record H)) :
    b.recording.callReady hook s =
      let run := b.callReady hook ⟨s.configuration, s.engine, s.world.1⟩
      (run.1, ⟨run.2.configuration, run.2.engine, run.2.world, s.world.2 ++ [(hook, run.1)]⟩) := by
  cases hook <;> rfl

theorem AppendOnly.recording (hb : b.AppendOnly R hooks) :
    b.recording.AppendOnly (fun w v => R w.1 v.1 ∧ w.2 = v.2) hooks := by
  intro hook s t hh h
  have hstep := hb hook ⟨s.configuration, s.engine, s.world.1⟩
    ⟨t.configuration, t.engine, t.world.1⟩ hh
    ⟨h.configuration, h.userOptions, h.options, h.world.1⟩
  rw [recording_callReady_eq, recording_callReady_eq]
  generalize b.callReady hook ⟨s.configuration, s.engine, s.world.1⟩ = first,
    b.callReady hook ⟨t.configuration, t.engine, t.world.1⟩ = second at hstep ⊢
  cases hstep with
  | appended flow hp hr => exact .appended flow hp ⟨hr, by rw [h.world.2]⟩

end Behaviour
end ParserPackages
