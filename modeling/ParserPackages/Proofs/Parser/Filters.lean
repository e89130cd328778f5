import ParserPackages.Proofs.Engine.Hooks
import ParserPackages.Proofs.Parser.History

/-!
# The filters of a live parser

Configuring installs all processors at once and each extension installs those that it brought, but
ranked lists do not tell one from the other. So the filter chains of the engine always are the
processors of the configuration, sorted, as long as hooks leave these chains alone.
-/
namespace ParserPackages

variable {H F σ : Type} {b : Behaviour H F σ}

/-- The parsers and engines that preparing, configuring a fresh engine and extending lead to. Each
step may meet another registry and another world, and an extension may fail or add nothing. -/
inductive Live [DecidableEq H] (b : Behaviour H F σ) : Running H F → Engine F → Prop
  | configured {registry : Registry H F} {requests : List Request} {parsers : List String}
      {world start : σ} {prepared : Prepared H F} {user : OptionTree} {parser : Running H F}
      (hp : (Prepared.ofRequests b registry requests parsers world).1 = .ok prepared)
      (hc : (prepared.configure b (.ofUserOptions user) start).1 = .ok parser) :
      Live b parser (prepared.configure b (.ofUserOptions user) start).2.1
  | extended {parser : Running H F} {engine : Engine F} (h : Live b parser engine)
      (registry : Registry H F) (name : String) (overrides : Option OptionTree) (world : σ) :
      Live b (parser.extend b registry name engine overrides world).parser
        (parser.extend b registry name engine overrides world).engine

def Processor.ranked (p : Processor F) : Ranked F := ⟨p.filter, p.installPriority⟩

namespace Engine

def SameFilters (e e' : Engine F) : Prop := e'.before = e.before ∧ e'.after = e.after

/-- The filters of the engine are these processors, installed in order. -/
structure Installed (e : Engine F) (before after : List (Processor F)) : Prop where
  before : e.before = .ofEntries (before.map (·.ranked))
  after : e.after = .ofEntries (after.map (·.ranked))

theorem SameFilters.trans {e e' e'' : Engine F} (h : e.SameFilters e') (h' : e'.SameFilters e'') :
    e.SameFilters e'' :=
  ⟨h'.1.trans h.1, h'.2.trans h.2⟩

theorem installed_ofUserOptions (user : OptionTree) :
    (ofUserOptions user : Engine F).Installed [] [] :=
  ⟨rfl, rfl⟩

theorem Installed.congr {e e' : Engine F} {before after : List (Processor F)}
    (h : e.Installed before after) (hs : e.SameFilters e') : e'.Installed before after :=
  ⟨hs.1.trans h.before, hs.2.trans h.after⟩

/-- Processors are installed as entries of a chain are inserted. -/
theorem install_eq (e : Engine F) (before after : List (Processor F)) :
    e.install before after =
      { e with
        before := e.before.insertAll (before.map (·.ranked))
        after := e.after.insertAll (after.map (·.ranked)) } := by
  rw [RankedList.insertAll, RankedList.insertAll, List.foldl_map, List.foldl_map]
  rfl

theorem Installed.install {e : Engine F} {before after : List (Processor F)}
    (h : e.Installed before after) (before' after' : List (Processor F)) :
    (e.install before' after').Installed (before ++ before') (after ++ after') where
  before := by rw [install_eq, h.before, List.map_append, RankedList.ofEntries_append]
  after := by rw [install_eq, h.after, List.map_append, RankedList.ofEntries_append]

end Engine

/-- Hooks add no filters to the engine and take none away. -/
structure Behaviour.KeepsFilters (b : Behaviour H F σ) : Prop where
  onEngine : ∀ (hook : H) (s : Hosted H F σ), s.engine.SameFilters (b.onEngine hook s).2.engine

theorem Behaviour.KeepsFilters.runAll (hk : b.KeepsFilters) (hooks : List (ReadyHook H))
    (s : Hosted H F σ) : s.engine.SameFilters (runAll b.callReady hooks s).2.engine :=
  runAll_engine (fun hook t ht => ht.trans (hk.onEngine hook t)) hooks ⟨rfl, rfl⟩

/-- What settles besides the package comes behind the processors that were there. -/
theorem Account.settle_growsBy [DecidableEq H] (account : Account b) (c : Configuration H F)
    (package : Package H F) (applied : Engine F) (world : σ) :
    c.GrowsBy (Change.appended (account.settle c package applied world))
      (c.settle b package applied world).configuration := by
  rw [account.settle_eq]
  exact c.growsBy_applyAll _

/-- All processors of a live parser are installed, and nothing else is. -/
theorem Live.installed [DecidableEq H] (account : Account b) (hk : b.KeepsFilters)
    {parser : Running H F} {engine : Engine F} (h : Live b parser engine) :
    engine.Installed parser.active.preprocessors parser.active.postprocessors := by
  induction h with
  | @configured _ _ _ _ start prepared user parser hp hc =>
    obtain ⟨applied, ha, rfl, he⟩ := Prepared.configure_eq_ok hc
    rw [he]
    have hfilters : (Engine.ofUserOptions user).SameFilters
        (Configuration.runReady b ⟨prepared.active, applied, start⟩).2.engine :=
      Engine.SameFilters.trans (Engine.applyOptions_filters ha) (hk.runAll _ _)
    exact ((Engine.installed_ofUserOptions user).congr hfilters).install _ _
  | @extended parser engine h registry name overrides world ih =>
    have he := Running.extended b parser registry name engine overrides world
    generalize parser.extend b registry name engine overrides world = step at he ⊢
    cases he with
    | unknown | present | foreign | undeclared => exact ih
    | @added package applied hosted _ _ _ ho hs =>
      have hgrows := account.settle_growsBy parser.active package applied world
      have hfilters : engine.SameFilters hosted.engine := by
        rw [← hs]
        exact Engine.SameFilters.trans (Engine.applyOptions_filters ho) (hk.runAll _ _)
      rw [hs] at hgrows
      have hinstalled := (ih.congr hfilters).install
        (hosted.configuration.preprocessors.drop parser.active.preprocessors.length)
        (hosted.configuration.postprocessors.drop parser.active.postprocessors.length)
      -- what is dropped is what was installed before
      rwa [List.prefix_iff_eq_append.1 ⟨_, hgrows.preprocessors.symm⟩,
        List.prefix_iff_eq_append.1 ⟨_, hgrows.postprocessors.symm⟩] at hinstalled

/-- After a fresh engine has been configured, and after every later extension, whatever came of it,
each filter chain of the engine is the list of processors of that stage, sorted by the priorities
at which they are installed, with equal priorities in the order of merging. -/
theorem filters_eq_sort_processors [DecidableEq H] (account : Account b) (hk : b.KeepsFilters)
    {parser : Running H F} {engine : Engine F} (h : Live b parser engine) :
    engine.before.entries = Ranked.sort (parser.active.preprocessors.map (·.ranked)) ∧
      engine.after.entries = Ranked.sort (parser.active.postprocessors.map (·.ranked)) := by
  have hinstalled := h.installed account hk
  rw [hinstalled.before, hinstalled.after]
  exact ⟨RankedList.entries_ofEntries _, RankedList.entries_ofEntries _⟩

theorem Sample.keepsFilters : library.behaviour.KeepsFilters where
  onEngine hook s := by
    simp only [ScriptLibrary.behaviour, ScriptLibrary.runHook, library]
    rcases script?_cases hook with h | h | h | h <;> rw [h] <;> exact ⟨rfl, rfl⟩

open Sample in
/-- After an extension that is undone, `extra` is added. -/
theorem extra_filters_installed :
    let misspelt := OptionTree.empty.set "widht" (.int 3)
    let undone := running.extend library.behaviour registry "extra" engine (some misspelt) []
    let added := running.extend library.behaviour registry "extra" engine none []
    (undone.outcome = .error (.unknownOption "widht") ∧ undone.parser = running ∧
        undone.engine = engine) ∧
      added.outcome = .ok true ∧
      added.parser.active.preprocessors.map (·.filter) =
        [pushing "c", pushing "n", pushing "l", pushing "n", pushing "l"] ∧
      added.engine.before.items =
        [pushing "n", pushing "n", pushing "c", pushing "l", pushing "l"] ∧
      Live library.behaviour added.parser added.engine ∧
      added.engine.before.entries =
        Ranked.sort (added.parser.active.preprocessors.map (·.ranked)) := by
  intro misspelt undone added
  have hrun : Live library.behaviour running engine :=
    .configured ofRequests_core configure_prepared
  have hundone : Live library.behaviour undone.parser undone.engine :=
    hrun.extended registry "extra" (some misspelt) []
  have hlive : Live library.behaviour added.parser added.engine :=
    hundone.extended registry "extra" none []
  exact ⟨⟨rfl, rfl, rfl⟩, rfl, rfl, rfl, hlive,
    (filters_eq_sort_processors library.account keepsFilters hlive).1⟩

end ParserPackages
