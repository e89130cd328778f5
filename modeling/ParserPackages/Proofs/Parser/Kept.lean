import ParserPackages.Proofs.Parser.Filters
import ParserPackages.Proofs.Script.Served

/-!
# What an extension keeps

An extension counts the processors that are there before it starts, runs hooks, and installs what
comes behind. That works since nothing that a hook can do to the configuration or the engine
takes anything away or moves it.
-/
namespace ParserPackages

variable {H F σ : Type} {b : Behaviour H F σ}

namespace Engine

/-- The second engine has the filters of the first in the same order, and all its options by
name. -/
structure KeptIn (e e' : Engine F) : Prop where
  before : e.before.entries.Sublist e'.before.entries
  after : e.after.entries.Sublist e'.after.entries
  userOptions : e.userOptions.NamesIn e'.userOptions
  options : e.options.NamesIn e'.options

theorem KeptIn.refl (e : Engine F) : e.KeptIn e :=
  ⟨.refl _, .refl _, .refl _, .refl _⟩

theorem KeptIn.trans {e e' e'' : Engine F} (h : e.KeptIn e') (h' : e'.KeptIn e'') :
    e.KeptIn e'' :=
  ⟨h.before.trans h'.before, h.after.trans h'.after, h.userOptions.trans h'.userOptions,
    h.options.trans h'.options⟩

theorem keptIn_install (e : Engine F) (before after : List (Processor F)) :
    e.KeptIn (e.install before after) := by
  rw [install_eq]
  exact ⟨e.before.sublist_insertAll _, e.after.sublist_insertAll _, .refl _, .refl _⟩

theorem keptIn_of_applyOptions (call : OptionCall) {e e' : Engine F}
    (h : e.applyOptions call.defaults call.overrides = .ok e') : e.KeptIn e' := by
  obtain ⟨options, hu, rfl⟩ := (applyOptions_eq_ok_iff call).1 h
  exact ⟨.refl _, .refl _, call.namesIn_join e.userOptions,
    (e.options.namesIn_fill call.defaults).trans (OptionTree.namesIn_applyUser hu)⟩

theorem keptIn_afterCall (e : Engine F) (call : OptionCall) : e.KeptIn (e.afterCall call) := by
  rw [afterCall]
  split
  · rename_i ho
    exact keptIn_of_applyOptions call ho
  · exact .refl e

theorem Served.keptIn {e e' : Engine F} (h : e.Served e') : e.KeptIn e' := by
  induction h with
  | refl => exact .refl e
  | @addBefore e' _ filter priority ih =>
    exact ih.trans ⟨RankedList.sublist_place _ _, .refl _, .refl _, .refl _⟩
  | @addAfter e' _ filter priority ih =>
    exact ih.trans ⟨.refl _, RankedList.sublist_place _ _, .refl _, .refl _⟩
  | @afterCall e' _ call ih => exact ih.trans (e'.keptIn_afterCall call)

end Engine

theorem Behaviour.ServesEngine.keptIn_runAll (hb : b.ServesEngine) (hooks : List (ReadyHook H))
    (s : Hosted H F σ) : s.engine.KeptIn (runAll b.callReady hooks s).2.engine :=
  runAll_engine (fun hook t ht => ht.trans (hb.onEngine hook t).keptIn) hooks (.refl s.engine)

/-- Hooks append packages, rebuild the index, set options by name, add filters to the engine and
call its option step. Then an extension keeps what the configuration and the engine had, whatever
comes of it: packages and processors stay in front, handler maps behind, the entries of all chains
in order, and rules and options keep their names. So no more processors were counted before the
hooks ran than there are when those that came are installed. -/
theorem extension_keeps_prior_state [DecidableEq H] (account : Account b)
    (hp : account.OnlyMakes Change.Plain) (hb : b.ServesEngine) (parser : Running H F)
    (registry : Registry H F) (name : String) (engine : Engine F) (overrides : Option OptionTree)
    (world : σ) :
    let step := parser.extend b registry name engine overrides world
    parser.active.KeptIn step.parser.active ∧ engine.KeptIn step.engine ∧
      parser.active.preprocessors.length ≤ step.parser.active.preprocessors.length ∧
      parser.active.postprocessors.length ≤ step.parser.active.postprocessors.length := by
  intro step
  have hkept : parser.active.KeptIn step.parser.active ∧ engine.KeptIn step.engine := by
    have he : Running.Extended b parser registry name engine overrides world step :=
      Running.extended b parser registry name engine overrides world
    generalize step = step at he ⊢
    cases he with
    | unknown | present | foreign | undeclared => exact ⟨.refl _, .refl _⟩
    | @added package applied hosted _ _ _ ho hs =>
      subst hs
      refine ⟨?_, ?_⟩
      · obtain ⟨changes, hsettle, hplain⟩ := hp.settle trivial parser.active package applied world
        rw [account.settle_eq, hsettle]
        exact parser.active.keptIn_applyAll (List.forall_mem_cons.2 ⟨trivial, hplain⟩)
      · -- the engine is given to the option step, to the hooks and to the processors in turn
        have happlied : engine.KeptIn applied :=
          Engine.keptIn_of_applyOptions ⟨_, overrides⟩ ho
        have hrun : applied.KeptIn (parser.active.settle b package applied world).engine :=
          hb.keptIn_runAll _ ⟨_, applied, _⟩
        exact (happlied.trans hrun).trans (Engine.keptIn_install _ _ _)
  exact ⟨hkept.1, hkept.2, hkept.1.preprocessors.length_le, hkept.1.postprocessors.length_le⟩

namespace Sample

/-- The sample hooks, with scripts that do all there is to do. -/
def meddling : ScriptLibrary where
  script? hook :=
    if hook = initHook then
      some ⟨[.append definitions, .setOption "width" (.int 9), .overlay amsDefaults,
        .applyUser narrow, .rebuildIndex], .proceed⟩
    else
      some ⟨[.append lateDefinitions, .addFilter .before (pushing "x") (some (-7)),
        .applyOptions tagDefaults (some indented),
        .applyOptions .empty (some (.set .empty "widht" (.int 3)))], .proceed⟩
  package? _ := none

end Sample

open Sample in
/-- `extra` joins, and its hooks put a filter in front of all others and set options anew. -/
theorem meddling_hooks_keep_core :
    let step := running.extend meddling.behaviour registry "extra" engine none []
    step.outcome = .ok true ∧
      step.world = ["apply_user ok", "apply_options ok",
        "apply_options: invalid option 'widht'"] ∧
      step.parser.active.packages =
        running.active.packages ++ ["extra", localName, localName, localName] ∧
      (engine.before.items = [pushing "n", pushing "c", pushing "l"] ∧
        step.engine.before.items = [pushing "x", pushing "n", pushing "n", pushing "c",
          pushing "l", pushing "l", pushing "l"]) ∧
      (running.active.options.get? "width" = some (.int 1) ∧
        step.parser.active.options.get? "width" = some (.int 9)) ∧
      running.active.KeptIn step.parser.active ∧ engine.KeptIn step.engine ∧
      running.active.preprocessors.length ≤ step.parser.active.preprocessors.length ∧
      running.active.postprocessors.length ≤ step.parser.active.postprocessors.length := by
  intro step
  have hkept := extension_keeps_prior_state meddling.account meddling.onlyMakes_plain
    meddling.servesEngine running registry "extra" engine none []
  exact ⟨rfl, rfl, rfl, ⟨rfl, rfl⟩, ⟨rfl, rfl⟩, hkept⟩

end ParserPackages
