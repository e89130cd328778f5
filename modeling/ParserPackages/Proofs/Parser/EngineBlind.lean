import Mathlib.Data.List.Forall2
import ParserPackages.Proofs.Parser.Rollback

/-!
# Options of users stay with the engine

Configuring and extending give the options of a configuration to the engine and take none back.
Two runs that differ in their engines, in the options of their users and in the overrides may
differ in whether a call succeeds. While all succeed they build the same configurations, as long as
what hooks do to a configuration does not depend on the engine.
-/
namespace ParserPackages

variable {H F σ : Type}

structure Hosted.AlikeBut (R : σ → σ → Prop) (s t : Hosted H F σ) : Prop where
  configuration : s.configuration = t.configuration
  world : R s.world t.world

/-- What a hook does to the configuration, and whether it ends the pass, does not depend on the
engine. Nor does it depend on the world, as far as `R` goes: hooks pass nothing on by that way. -/
structure Behaviour.EngineBlind (R : σ → σ → Prop) (b : Behaviour H F σ) : Prop where
  onConfiguration : ∀ hook s t, Configuration.Alike R s t →
    (b.onConfiguration hook s).1 = (b.onConfiguration hook t).1 ∧
      Configuration.Alike R (b.onConfiguration hook s).2 (b.onConfiguration hook t).2
  onEngine : ∀ hook s t, Hosted.AlikeBut R s t →
    (b.onEngine hook s).1 = (b.onEngine hook t).1 ∧
      Hosted.AlikeBut R (b.onEngine hook s).2 (b.onEngine hook t).2

namespace Behaviour.EngineBlind

variable {R : σ → σ → Prop} {b : Behaviour H F σ} {w v : σ}

theorem agree (h : b.EngineBlind R) :
    Agree R { b with onEngine := fun _ s => (.proceed, s) }
      { b with onEngine := fun _ s => (.proceed, s) } where
  onConfiguration := h.onConfiguration
  onEngine _ _ _ hst := ⟨rfl, hst⟩

theorem callReady (h : b.EngineBlind R) (hook : ReadyHook H) (s t : Hosted H F σ)
    (hst : s.AlikeBut R t) :
    (b.callReady hook s).1 = (b.callReady hook t).1 ∧
      (b.callReady hook s).2.AlikeBut R (b.callReady hook t).2 := by
  cases hook with
  | configuration hook =>
    obtain ⟨hflow, hc, hw⟩ := h.onConfiguration hook (s.configuration, s.world)
      (t.configuration, t.world) ⟨hst.configuration, hst.world⟩
    exact ⟨hflow, hc, hw⟩
  | engine hook => exact h.onEngine hook s t hst

theorem ofRequests (h : b.EngineBlind R) (registry : Registry H F) (requests : List Request)
    (parsers : List String) (hr : R w v) :
    (Prepared.ofRequests b registry requests parsers w).1 =
        (Prepared.ofRequests b registry requests parsers v).1 ∧
      R (Prepared.ofRequests b registry requests parsers w).2
        (Prepared.ofRequests b registry requests parsers v).2 :=
  h.agree.ofRequests registry requests parsers hr

theorem join (h : b.EngineBlind R) (c : Configuration H F) (package : Package H F) (hr : R w v) :
    Configuration.Alike R (c.join b package w) (c.join b package v) :=
  h.agree.join c package hr

theorem settle [DecidableEq H] (h : b.EngineBlind R) (c : Configuration H F)
    (package : Package H F) (applied applied' : Engine F) (hr : R w v) :
    (c.settle b package applied w).AlikeBut R (c.settle b package applied' v) := by
  obtain ⟨hc, hw⟩ := h.join c package hr
  simp only [Configuration.settle, ← hc]
  refine (runAll_rel h.callReady _ ?_).2
  exact ⟨rfl, hw⟩

/-- Configuring with two engines leads to the same parser when both accept the options. -/
theorem configure (h : b.EngineBlind R) (prepared : Prepared H F) {engine engine' : Engine F}
    (hr : R w v) {parser parser' : Running H F}
    (hc : (prepared.configure b engine w).1 = .ok parser)
    (hc' : (prepared.configure b engine' v).1 = .ok parser') :
    parser = parser' ∧
      R (prepared.configure b engine w).2.2 (prepared.configure b engine' v).2.2 := by
  simp only [Prepared.configure] at hc hc' ⊢
  cases ha : engine.applyOptions prepared.active.options none with
  | error fault => rw [ha] at hc; cases hc
  | ok applied =>
    cases ha' : engine'.applyOptions prepared.active.options none with
    | error fault => rw [ha'] at hc'; cases hc'
    | ok applied' =>
      rw [ha] at hc
      rw [ha'] at hc'
      have hrun : Hosted.AlikeBut R (Configuration.runReady b ⟨prepared.active, applied, w⟩).2
          (Configuration.runReady b ⟨prepared.active, applied', v⟩).2 := by
        refine (runAll_rel h.callReady _ ?_).2
        exact ⟨rfl, hr⟩
      cases hc
      cases hc'
      exact ⟨by rw [hrun.configuration], hrun.world⟩

theorem extend [DecidableEq H] (h : b.EngineBlind R) (parser : Running H F)
    (registry : Registry H F) (name : String) (engine engine' : Engine F)
    (overrides overrides' : Option OptionTree) (hr : R w v)
    (ho : (parser.extend b registry name engine overrides w).outcome.isOk =
      (parser.extend b registry name engine' overrides' v).outcome.isOk) :
    (parser.extend b registry name engine overrides w).parser =
        (parser.extend b registry name engine' overrides' v).parser ∧
      R (parser.extend b registry name engine overrides w).world
        (parser.extend b registry name engine' overrides' v).world := by
  cases hl : registry.lookup? name with
  | none =>
    simp only [Running.extend, hl]
    exact ⟨trivial, hr⟩
  | some package =>
    cases hp : parser.active.containsPackage package.name with
    | true =>
      simp only [Running.extend, hl, hp, if_true]
      exact ⟨trivial, hr⟩
    | false =>
      by_cases hf : package.parser ∈ parser.parsers
      · obtain ⟨hc, hw⟩ := h.join parser.active package hr
        rw [Running.extend_eq_of_accepted hl hp hf, Running.extend_eq_of_accepted hl hp hf,
          ← hc] at ho ⊢
        generalize engine.applyOptions (parser.active.join b package w).1.options overrides = first
          at ho ⊢
        generalize engine'.applyOptions (parser.active.join b package w).1.options overrides' =
          second at ho ⊢
        cases first with
        | error fault =>
          cases second with
          | error fault' => exact ⟨rfl, hw⟩
          | ok applied' => cases ho
        | ok applied =>
          cases second with
          | error fault' => cases ho
          | ok applied' =>
            have hs := h.settle parser.active package applied applied' hr
            exact ⟨congrArg (Running.mk · parser.parsers) hs.configuration, hs.world⟩
      · simp only [Running.extend, hl, hp, Package.requireParser_eq, if_neg hf]
        exact ⟨rfl, hr⟩

end Behaviour.EngineBlind

/-! ## Whole runs -/

structure Conducted (H F σ : Type) where
  prepared : Prepared H F
  parser : Running H F
  steps : List (Step H F σ Bool)

def Conducted.configurations (run : Conducted H F σ) : List (Configuration H F) :=
  run.prepared.active :: run.parser.active :: run.steps.map (·.parser.active)

/-- Prepares a configuration, hands it to an engine and extends the parser, one call after the
other in one world. The fault is that of preparing or configuring; every extension has its own
outcome. -/
def conduct [DecidableEq H] (b : Behaviour H F σ) (registry : Registry H F)
    (requests : List Request) (parsers : List String) (engine : Engine F)
    (extensions : List (Extension H F)) (world : σ) : Except Fault (Conducted H F σ) :=
  match Prepared.ofRequests b registry requests parsers world with
  | (.error fault, _) => .error fault
  | (.ok prepared, world) =>
    match prepared.configure b engine world with
    | (.error fault, _) => .error fault
    | (.ok parser, engine, world) =>
      .ok ⟨prepared, parser, parser.extendAll b engine world extensions⟩

section Runs

variable [DecidableEq H] {R : σ → σ → Prop} {b : Behaviour H F σ}

theorem conduct_eq_ok {registry : Registry H F} {requests : List Request} {parsers : List String}
    {engine : Engine F} {extensions : List (Extension H F)} {world : σ} {run : Conducted H F σ}
    (h : conduct b registry requests parsers engine extensions world = .ok run) :
    ∃ prepared parser,
      let start := (Prepared.ofRequests b registry requests parsers world).2
      let configured := prepared.configure b engine start
      (Prepared.ofRequests b registry requests parsers world).1 = .ok prepared ∧
        configured.1 = .ok parser ∧
        run = ⟨prepared, parser, parser.extendAll b configured.2.1 configured.2.2 extensions⟩ := by
  rw [conduct] at h
  rcases hp : Prepared.ofRequests b registry requests parsers world with ⟨_ | prepared, start⟩
  · rw [hp] at h
    cases h
  · rw [hp] at h
    rcases hc : prepared.configure b engine start with ⟨_ | parser, configured, rest⟩
    · simp only [hc] at h
      cases h
    · simp only [hc] at h
      cases h
      exact ⟨prepared, parser, rfl, by rw [hc], by rw [hc]⟩

theorem length_extendAll (parser : Running H F) (engine : Engine F) (world : σ)
    (extensions : List (Extension H F)) :
    (parser.extendAll b engine world extensions).length = extensions.length := by
  induction extensions generalizing parser engine world with
  | nil => rfl
  | cons e rest ih => rw [Running.extendAll, List.length_cons, ih, List.length_cons]

def Extension.SameTarget (e e' : Extension H F) : Prop :=
  e.registry = e'.registry ∧ e.name = e'.name

theorem Behaviour.EngineBlind.extendAll (h : b.EngineBlind R)
    {extensions extensions' : List (Extension H F)}
    (hsame : List.Forall₂ Extension.SameTarget extensions extensions') (parser : Running H F)
    (engine engine' : Engine F) {w v : σ} (hr : R w v)
    (ho : (parser.extendAll b engine w extensions).map (·.outcome.isOk) =
      (parser.extendAll b engine' v extensions').map (·.outcome.isOk)) :
    (parser.extendAll b engine w extensions).map (·.parser) =
      (parser.extendAll b engine' v extensions').map (·.parser) := by
  induction hsame generalizing parser engine engine' w v with
  | nil => rfl
  | @cons e e' _ _ htarget _ ih =>
    obtain ⟨registry, name, overrides⟩ := e
    obtain ⟨registry', name', overrides'⟩ := e'
    obtain ⟨rfl, rfl⟩ : registry = registry' ∧ name = name' := htarget
    simp only [Running.extendAll, List.map_cons, List.cons.injEq] at ho ⊢
    obtain ⟨hp, hw⟩ := h.extend parser registry name engine engine' overrides overrides' hr ho.1
    refine ⟨hp, ?_⟩
    rw [← hp] at ho ⊢
    exact ih _ _ _ hw ho.2

omit [DecidableEq H] in
private theorem map_isOk_eq_replicate {steps : List (Step H F σ Bool)}
    (h : ∀ step ∈ steps, step.outcome.isOk = true) :
    steps.map (·.outcome.isOk) = List.replicate steps.length true :=
  List.eq_replicate_iff.2 ⟨List.length_map .., List.forall_mem_map.2 h⟩

/-- Two runs prepare the same requests from the same registry and extend by the same packages. They
may differ in their engines, so in the options of their users, and in the overrides. If every call
succeeds in both, the configurations are the same after every call. -/
theorem user_options_stay_outside (h : b.EngineBlind R) (registry : Registry H F)
    (requests : List Request) (parsers : List String) {engine engine' : Engine F}
    {extensions extensions' : List (Extension H F)}
    (hsame : List.Forall₂ Extension.SameTarget extensions extensions') {w v : σ} (hr : R w v)
    {run run' : Conducted H F σ}
    (hrun : conduct b registry requests parsers engine extensions w = .ok run)
    (hrun' : conduct b registry requests parsers engine' extensions' v = .ok run')
    (hok : ∀ step ∈ run.steps, step.outcome.isOk)
    (hok' : ∀ step ∈ run'.steps, step.outcome.isOk) :
    run.configurations = run'.configurations := by
  obtain ⟨prepared, parser, hp, hc, rfl⟩ := conduct_eq_ok hrun
  obtain ⟨prepared', parser', hp', hc', rfl⟩ := conduct_eq_ok hrun'
  obtain ⟨hprepared, hstart⟩ := h.ofRequests registry requests parsers hr
  obtain rfl : prepared = prepared' := Except.ok.inj (hp.symm.trans (hprepared.trans hp'))
  obtain ⟨rfl, hworld⟩ := h.configure prepared hstart hc hc'
  have hboth := map_isOk_eq_replicate hok
  rw [length_extendAll, hsame.length_eq, ← length_extendAll, ← map_isOk_eq_replicate hok'] at hboth
  have hsteps := congrArg (List.map (·.active)) (h.extendAll hsame parser _ _ hworld hboth)
  rw [List.map_map, List.map_map] at hsteps
  exact congrArg (prepared.active :: parser.active :: ·) hsteps

end Runs

theorem ScriptLibrary.engineBlind (library : ScriptLibrary) :
    library.behaviour.EngineBlind fun _ _ => True where
  onConfiguration hook s t hst := by
    have halike : Scene.Alike ⟨s.1, none, s.2⟩ ⟨t.1, none, t.2⟩ := ⟨hst.1, rfl⟩
    obtain ⟨hflow, hs⟩ := library.runHook_alike hook halike
    exact ⟨hflow, hs.configuration, trivial⟩
  onEngine hook s t hst := by
    refine ⟨?_, ?_, trivial⟩
    · simp only [behaviour, runHook]
      cases library.script? hook <;> rfl
    · simp only [behaviour, runHook_configuration, hst.configuration]

open Sample in
/-- `extra` joins `core` twice: with an engine that has no options, and with one that has options of
a user and gets overrides. The engines resolve `width` differently, the configurations agree. -/
theorem extra_joins_any_engine :
    let conducted (engine : Engine Filter) (overrides : Option OptionTree) (world : List String) :=
      conduct library.behaviour registry [.ofName "core"] [defaultParser] engine
        [⟨registry, "extra", overrides⟩] world
    ∃ run run',
      conducted .empty none [] = .ok run ∧
      conducted (.ofUserOptions (.set .empty "width" (.int 9)))
        (some (.set .empty "width" (.int 3))) ["noted before"] = .ok run' ∧
      run.steps.map (fun step => (step.outcome, step.engine.options.get? "width")) =
        [(.ok true, some (.int 1))] ∧
      run'.steps.map (fun step => (step.outcome, step.engine.options.get? "width")) =
        [(.ok true, some (.int 3))] ∧
      run.configurations = run'.configurations := by
  intro conducted
  have hrun : conducted .empty none [] = .ok _ := rfl
  have hrun' : conducted (.ofUserOptions (.set .empty "width" (.int 9)))
    (some (.set .empty "width" (.int 3))) ["noted before"] = .ok _ := rfl
  refine ⟨_, _, hrun, hrun', rfl, rfl, ?_⟩
  have hsame : List.Forall₂ Extension.SameTarget [⟨registry, "extra", none⟩]
      [⟨registry, "extra", some (.set .empty "width" (.int 3))⟩] := .cons ⟨rfl, rfl⟩ .nil
  exact user_options_stay_outside library.engineBlind registry _ _ hsame trivial hrun hrun'
    (List.forall_mem_singleton.2 rfl) (List.forall_mem_singleton.2 rfl)

end ParserPackages
