import ParserPackages.Configuration.Hooks
import ParserPackages.Proofs.Engine.OptionCalls
import ParserPackages.Proofs.Flow

/-!
# What hooks do to the engine

Hooks see the engine through its filter chains and its option step. What becomes of an engine in
their hands is told by a relation between engines, and a pass over ready hooks is in the relation
as soon as each hook that is given the engine is.
-/
namespace ParserPackages

variable {H F σ : Type} {b : Behaviour H F σ}

theorem Behaviour.runAll_engine {P : Engine F → Prop}
    (h : ∀ hook s, P s.engine → P (b.onEngine hook s).2.engine) (hooks : List (ReadyHook H))
    {s : Hosted H F σ} (hs : P s.engine) : P (runAll b.callReady hooks s).2.engine := by
  refine runAll_keeps (P := fun t : Hosted H F σ => P t.engine) (fun hook t ht => ?_) hooks hs
  cases hook with
  | configuration => exact ht
  | engine hook => exact h hook t ht

namespace Engine

/-- Both engines have the same options, those of the user included. -/
structure SameOptions (e e' : Engine F) : Prop where
  userOptions : e'.userOptions = e.userOptions
  options : e'.options = e.options

/-- The engine has come to another by adding filters and by calls of the option step. -/
inductive Served : Engine F → Engine F → Prop
  | refl (e : Engine F) : Served e e
  | addBefore {e e' : Engine F} (h : Served e e') (filter : F) (priority : Priority) :
      Served e (e'.addBefore filter priority)
  | addAfter {e e' : Engine F} (h : Served e e') (filter : F) (priority : Priority) :
      Served e (e'.addAfter filter priority)
  | afterCall {e e' : Engine F} (h : Served e e') (call : OptionCall) :
      Served e (e'.afterCall call)

theorem SameOptions.refl (e : Engine F) : e.SameOptions e := ⟨rfl, rfl⟩

theorem SameOptions.trans {e e' e'' : Engine F} (h : e.SameOptions e') (h' : e'.SameOptions e'') :
    e.SameOptions e'' :=
  ⟨h'.userOptions.trans h.userOptions, h'.options.trans h.options⟩

theorem SameOptions.settled {e e' : Engine F} (h : e.SameOptions e') (hs : e.Settled) :
    e'.Settled := by
  rw [Settled, h.options, h.userOptions]
  exact hs

/-- Filters do not matter to the option step. -/
theorem SameOptions.afterCall {e e' : Engine F} (h : e.SameOptions e') (call : OptionCall) :
    (e.afterCall call).SameOptions (e'.afterCall call) := by
  obtain ⟨before, after, user, options⟩ := e
  obtain ⟨before', after', user', options'⟩ := e'
  obtain ⟨rfl, rfl⟩ : user' = user ∧ options' = options := ⟨h.userOptions, h.options⟩
  simp only [Engine.afterCall, applyOptions]
  cases (options'.fill call.defaults).applyUser _ <;> exact ⟨rfl, rfl⟩

theorem sameOptions_install (e : Engine F) (before after : List (Processor F)) :
    e.SameOptions (e.install before after) :=
  ⟨rfl, rfl⟩

/-- Apart from its filters, an engine comes to another by calls only. -/
theorem Served.exists_calls {e e' : Engine F} (h : e.Served e') :
    ∃ calls, (e.afterCalls calls).SameOptions e' := by
  induction h with
  | refl => exact ⟨[], .refl e⟩
  | addBefore _ filter priority ih => exact ih.imp fun calls hs => ⟨hs.userOptions, hs.options⟩
  | addAfter _ filter priority ih => exact ih.imp fun calls hs => ⟨hs.userOptions, hs.options⟩
  | afterCall _ call ih =>
    obtain ⟨calls, hs⟩ := ih
    refine ⟨calls ++ [call], ?_⟩
    rw [afterCalls, List.foldl_append]
    exact hs.afterCall call

end Engine

structure Behaviour.CallsOptionStep (b : Behaviour H F σ) : Prop where
  onEngine : ∀ (hook : H) (s : Hosted H F σ), ∃ calls,
    (s.engine.afterCalls calls).SameOptions (b.onEngine hook s).2.engine

structure Behaviour.KeepsOptions (b : Behaviour H F σ) : Prop where
  onEngine : ∀ (hook : H) (s : Hosted H F σ), s.engine.SameOptions (b.onEngine hook s).2.engine

/-- Hooks add filters to the engine and call its option step, and do nothing else to it. -/
structure Behaviour.ServesEngine (b : Behaviour H F σ) : Prop where
  onEngine : ∀ (hook : H) (s : Hosted H F σ), s.engine.Served (b.onEngine hook s).2.engine

namespace Behaviour

theorem ServesEngine.callsOptionStep (h : b.ServesEngine) : b.CallsOptionStep where
  onEngine hook s := (h.onEngine hook s).exists_calls

theorem CallsOptionStep.settled_runAll (h : b.CallsOptionStep) (hooks : List (ReadyHook H))
    {s : Hosted H F σ} (hs : s.engine.Settled) : (runAll b.callReady hooks s).2.engine.Settled := by
  refine runAll_engine (fun hook s hs => ?_) hooks hs
  obtain ⟨calls, hsame⟩ := h.onEngine hook s
  exact hsame.settled (hs.afterCalls calls)

end Behaviour
end ParserPackages
