import ParserPackages.Proofs.Parser.Extension

/-!
# Hooks that agree

Two behaviours agree when related worlds make no difference to what hooks report and to what they
leave of the configuration and the engine. Preparing, configuring and extending then make no
difference either. So a parser can be compared with itself in another world, and with one whose
hooks keep a record.
-/
namespace ParserPackages

variable {H F σ τ : Type}

def Configuration.Alike (R : σ → τ → Prop) (s : Configuration H F × σ)
    (t : Configuration H F × τ) : Prop :=
  s.1 = t.1 ∧ R s.2 t.2

structure Hosted.Alike (R : σ → τ → Prop) (s : Hosted H F σ) (t : Hosted H F τ) : Prop where
  configuration : s.configuration = t.configuration
  engine : s.engine = t.engine
  world : R s.world t.world

structure Step.Alike {α : Type} (R : σ → τ → Prop) (s : Step H F σ α) (t : Step H F τ α) :
    Prop where
  outcome : s.outcome = t.outcome
  parser : s.parser = t.parser
  engine : s.engine = t.engine
  world : R s.world t.world

/-- Every hook reports the same from alike situations and leaves alike situations behind. -/
structure Behaviour.Agree (R : σ → τ → Prop) (b : Behaviour H F σ) (b' : Behaviour H F τ) :
    Prop where
  onConfiguration : ∀ hook s t, Configuration.Alike R s t →
    (b.onConfiguration hook s).1 = (b'.onConfiguration hook t).1 ∧
      Configuration.Alike R (b.onConfiguration hook s).2 (b'.onConfiguration hook t).2
  onEngine : ∀ hook s t, Hosted.Alike R s t →
    (b.onEngine hook s).1 = (b'.onEngine hook t).1 ∧
      Hosted.Alike R (b.onEngine hook s).2 (b'.onEngine hook t).2

namespace Behaviour

variable {R : σ → τ → Prop} {b : Behaviour H F σ} {b' : Behaviour H F τ}

theorem Agree.callReady (h : Agree R b b') (hook : ReadyHook H) {s : Hosted H F σ}
    {t : Hosted H F τ} (hst : s.Alike R t) :
    (b.callReady hook s).1 = (b'.callReady hook t).1 ∧
      (b.callReady hook s).2.Alike R (b'.callReady hook t).2 := by
  cases hook with
  | configuration hook =>
    obtain ⟨hflow, hc, hw⟩ := h.onConfiguration hook (s.configuration, s.world)
      (t.configuration, t.world) ⟨hst.configuration, hst.world⟩
    exact ⟨hflow, hc, hst.engine, hw⟩
  | engine hook => exact h.onEngine hook s t hst

theorem Agree.join (h : Agree R b b') (c : Configuration H F) (package : Package H F) {w : σ}
    {v : τ} (hr : R w v) : Configuration.Alike R (c.join b package w) (c.join b' package v) := by
  simp only [Configuration.join]
  cases package.init? with
  | none => exact ⟨rfl, hr⟩
  | some hook =>
    exact (h.onConfiguration hook.item (c.append package, w) (c.append package, v) ⟨rfl, hr⟩).2

theorem Agree.settle [DecidableEq H] (h : Agree R b b') (c : Configuration H F)
    (package : Package H F) (applied : Engine F) {w : σ} {v : τ} (hr : R w v) :
    (c.settle b package applied w).Alike R (c.settle b' package applied v) := by
  obtain ⟨hc, hw⟩ := h.join c package hr
  simp only [Configuration.settle, ← hc]
  refine (runAll_rel (fun hook s t hst => h.callReady hook hst) _ ?_).2
  exact ⟨rfl, rfl, hw⟩

theorem Agree.ofRequests (h : Agree R b b') (registry : Registry H F) (requests : List Request)
    (parsers : List String) {w : σ} {v : τ} (hr : R w v) :
    (Prepared.ofRequests b registry requests parsers w).1 =
        (Prepared.ofRequests b' registry requests parsers v).1 ∧
      R (Prepared.ofRequests b registry requests parsers w).2
        (Prepared.ofRequests b' registry requests parsers v).2 := by
  simp only [Prepared.ofRequests]
  cases registry.select parsers [] requests with
  | error fault => exact ⟨rfl, hr⟩
  | ok selected =>
    let merged := Configuration.empty.appendAll (RankedList.ofEntries selected).items
    have hrun : Configuration.Alike R (merged.runInit b w).2 (merged.runInit b' v).2 :=
      (runAll_rel h.onConfiguration _ ⟨rfl, hr⟩).2
    let indexed (c : Configuration H F) : Prepared H F := ⟨c.rebuildIndex, parsers⟩
    exact ⟨congrArg (Except.ok <| indexed ·) hrun.1, hrun.2⟩

theorem Agree.configure (h : Agree R b b') (prepared : Prepared H F) (engine : Engine F) {w : σ}
    {v : τ} (hr : R w v) :
    (prepared.configure b engine w).1 = (prepared.configure b' engine v).1 ∧
      (prepared.configure b engine w).2.1 = (prepared.configure b' engine v).2.1 ∧
      R (prepared.configure b engine w).2.2 (prepared.configure b' engine v).2.2 := by
  simp only [Prepared.configure]
  cases engine.applyOptions prepared.active.options none with
  | error fault => exact ⟨rfl, rfl, hr⟩
  | ok applied =>
    have hrun : (Configuration.runReady b ⟨prepared.active, applied, w⟩).2.Alike R
        (Configuration.runReady b' ⟨prepared.active, applied, v⟩).2 :=
      (runAll_rel (fun hook s t hst => h.callReady hook hst) _ ⟨rfl, rfl, hr⟩).2
    simp only [hrun.configuration, hrun.engine]
    exact ⟨trivial, trivial, hrun.world⟩

theorem Agree.extend [DecidableEq H] (h : Agree R b b') (parser : Running H F)
    (registry : Registry H F) (name : String) (engine : Engine F) (overrides : Option OptionTree)
    {w : σ} {v : τ} (hr : R w v) :
    (parser.extend b registry name engine overrides w).Alike R
      (parser.extend b' registry name engine overrides v) := by
  have he := Running.extended b parser registry name engine overrides w
  generalize parser.extend b registry name engine overrides w = step at he ⊢
  cases he with
  | unknown hl =>
    simp only [Running.extend, hl]
    exact ⟨rfl, rfl, rfl, hr⟩
  | present hl hp =>
    simp only [Running.extend, hl, hp, if_true]
    exact ⟨rfl, rfl, rfl, hr⟩
  | foreign hl hp hf =>
    simp only [Running.extend, hl, hp, Package.requireParser_eq, if_neg hf]
    exact ⟨rfl, rfl, rfl, hr⟩
  | @undeclared package path hl hp hf ho =>
    obtain ⟨hc, hw⟩ := h.join parser.active package hr
    rw [hc] at ho
    rw [Running.extend_eq_of_accepted hl hp hf, ho]
    exact ⟨rfl, rfl, rfl, hw⟩
  | @added package applied hosted hl hp hf ho hs =>
    obtain ⟨hc, -⟩ := h.join parser.active package hr
    rw [hc] at ho
    rw [Running.extend_eq_of_accepted hl hp hf, ho]
    obtain ⟨hc', he', hw'⟩ := hs ▸ h.settle parser.active package applied hr
    exact ⟨rfl, by simp only [hc'], by simp only [hc', he'], hw'⟩

end Behaviour
end ParserPackages
