import ParserPackages.Configuration.Hooks
import ParserPackages.Proofs.Configuration.MergeLaw
import ParserPackages.Proofs.Flow

/-!
# Reachable configurations

Hooks work on a configuration by making changes to it. An account names these changes, so that
every configuration that calls and hooks lead to comes with the history of all changes made to it,
and is what the packages appended in that history amount to.
-/
namespace ParserPackages

variable {H F σ : Type} {b : Behaviour H F σ}

/-- For every hook and every situation it is called in, the changes that it makes to the
configuration, in order. Nothing else happens to the configuration. -/
structure Account (b : Behaviour H F σ) where
  onConfiguration : H → Configuration H F × σ → List (Change H F)
  onEngine : H → Hosted H F σ → List (Change H F)
  onConfiguration_eq : ∀ hook s,
    (b.onConfiguration hook s).2.1 = s.1.applyAll (onConfiguration hook s)
  onEngine_eq : ∀ hook s,
    (b.onEngine hook s).2.configuration = s.configuration.applyAll (onEngine hook s)

namespace Account

def callReady (account : Account b) (hook : ReadyHook H) (s : Hosted H F σ) :
    List (Change H F) :=
  match hook with
  | .configuration hook => account.onConfiguration hook (s.configuration, s.world)
  | .engine hook => account.onEngine hook s

def initPass (account : Account b) : List H → Configuration H F × σ → List (Change H F) :=
  logAll b.onConfiguration account.onConfiguration

def readyPass (account : Account b) : List (ReadyHook H) → Hosted H F σ → List (Change H F) :=
  logAll b.callReady account.callReady

theorem callReady_eq (account : Account b) (hook : ReadyHook H) (s : Hosted H F σ) :
    (b.callReady hook s).2.configuration =
      s.configuration.applyAll (account.callReady hook s) := by
  cases hook with
  | configuration hook => exact account.onConfiguration_eq hook (s.configuration, s.world)
  | engine hook => exact account.onEngine_eq hook s

/-- A pass makes the changes that its hooks make, one after the other. -/
theorem runAll_eq_applyAll {α τ : Type} {view : τ → Configuration H F} {step : α → τ → Flow × τ}
    {log : α → τ → List (Change H F)}
    (h : ∀ a s, view (step a s).2 = (view s).applyAll (log a s)) (items : List α) (s : τ) :
    view (runAll step items s).2 = (view s).applyAll (logAll step log items s) := by
  induction items generalizing s with
  | nil => rfl
  | cons a rest ih =>
    have hstep := h a s
    simp only [runAll, logAll]
    rcases he : step a s with ⟨flow, s'⟩
    rw [he] at hstep
    cases flow with
    | stop => exact hstep
    | proceed => rw [Configuration.applyAll_append, ← hstep]; exact ih s'

theorem initPass_eq (account : Account b) (hooks : List H) (s : Configuration H F × σ) :
    (runAll b.onConfiguration hooks s).2.1 = s.1.applyAll (account.initPass hooks s) :=
  runAll_eq_applyAll account.onConfiguration_eq hooks s

theorem readyPass_eq (account : Account b) (hooks : List (ReadyHook H)) (s : Hosted H F σ) :
    (runAll b.callReady hooks s).2.configuration =
      s.configuration.applyAll (account.readyPass hooks s) :=
  runAll_eq_applyAll account.callReady_eq hooks s

structure OnlyMakes (account : Account b) (P : Change H F → Prop) : Prop where
  onConfiguration : ∀ hook s, ∀ change ∈ account.onConfiguration hook s, P change
  onEngine : ∀ hook s, ∀ change ∈ account.onEngine hook s, P change

namespace OnlyMakes

variable {account : Account b} {P : Change H F → Prop}

theorem initPass (h : account.OnlyMakes P) (hooks : List H) (s : Configuration H F × σ) :
    ∀ change ∈ account.initPass hooks s, P change :=
  forall_mem_logAll h.onConfiguration hooks s

theorem readyPass (h : account.OnlyMakes P) (hooks : List (ReadyHook H)) (s : Hosted H F σ) :
    ∀ change ∈ account.readyPass hooks s, P change := by
  refine forall_mem_logAll (fun hook s => ?_) hooks s
  cases hook with
  | configuration hook => exact h.onConfiguration hook (s.configuration, s.world)
  | engine hook => exact h.onEngine hook s

end OnlyMakes
end Account

/-- The configurations that can come about, each with all changes made to it since it was empty.
A pass is over any hooks, in any world and with any engine: over a whole chain, over the hook of
the package that joins, or over the hooks that it queued. -/
inductive Reached (account : Account b) : Configuration H F → List (Change H F) → Prop
  | empty : Reached account .empty []
  | change {c : Configuration H F} {history : List (Change H F)} (h : Reached account c history)
      (change : Change H F) : Reached account (change.apply c) (history ++ [change])
  | initPass {c : Configuration H F} {history : List (Change H F)} (h : Reached account c history)
      (hooks : List H) (world : σ) :
      Reached account (runAll b.onConfiguration hooks (c, world)).2.1
        (history ++ account.initPass hooks (c, world))
  | readyPass {c : Configuration H F} {history : List (Change H F)} (h : Reached account c history)
      (hooks : List (ReadyHook H)) (engine : Engine F) (world : σ) :
      Reached account (runAll b.callReady hooks ⟨c, engine, world⟩).2.configuration
        (history ++ account.readyPass hooks ⟨c, engine, world⟩)

namespace Reached

variable {account : Account b} {c : Configuration H F} {history : List (Change H F)}

theorem eq_applyAll (h : Reached account c history) : c = Configuration.empty.applyAll history := by
  induction h with
  | empty => rfl
  | change _ change ih => rw [Configuration.applyAll_append, ← ih]; rfl
  | initPass _ hooks world ih => rw [account.initPass_eq, Configuration.applyAll_append, ← ih]
  | readyPass _ hooks engine world ih =>
    rw [account.readyPass_eq, Configuration.applyAll_append, ← ih]

theorem applyAll (h : Reached account c history) (changes : List (Change H F)) :
    Reached account (c.applyAll changes) (history ++ changes) := by
  induction changes generalizing c history with
  | nil => simpa using h
  | cons change rest ih => simpa using ih (h.change change)

theorem runInit (h : Reached account c history) (world : σ) :
    Reached account (c.runInit b world).2.1
      (history ++ account.initPass c.initChain.items (c, world)) :=
  h.initPass c.initChain.items world

theorem runReady (h : Reached account c history) (engine : Engine F) (world : σ) :
    Reached account (Configuration.runReady b ⟨c, engine, world⟩).2.configuration
      (history ++ account.readyPass c.readyChain.items ⟨c, engine, world⟩) :=
  h.readyPass c.readyChain.items engine world

/-- A reachable configuration is what the packages of its history amount to. -/
theorem isMergeOf (h : Reached account c history) : c.IsMergeOf (Change.appended history) := by
  rw [h.eq_applyAll]
  exact (Configuration.growsBy_applyAll _ history).isMergeOf

theorem get?_options (h : Reached account c history) {name : String}
    (hs : Change.Spares history name) :
    c.options.get? name = (Change.appended history).findSome? (·.options.get? name) := by
  rw [h.eq_applyAll, Configuration.get?_options_applyAll _ hs]
  rfl

end Reached
end ParserPackages
