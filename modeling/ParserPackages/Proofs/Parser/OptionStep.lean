import ParserPackages.Proofs.Parser.Extension
import ParserPackages.Proofs.Script.Account
import ParserPackages.Proofs.Script.Served

/-!
# Later defaults

An engine that has accepted a call of its option step is settled: the options of the user make no
difference to options that they have been applied to. So it takes any defaults after that. They
join its options without changing any, and an extension without overrides cannot fail for them.
-/
namespace ParserPackages

variable {H F σ : Type} {b : Behaviour H F σ}

/-- The engines that a parser has been configured with. After that, any parser may have been
extended with the engine and its option step may have been called, and either may have failed. -/
inductive Engine.Attached [DecidableEq H] (b : Behaviour H F σ) : Engine F → Prop
  | configured {prepared : Prepared H F} {engine : Engine F} {world : σ} {parser : Running H F}
      (h : (prepared.configure b engine world).1 = .ok parser) :
      Attached b (prepared.configure b engine world).2.1
  | extended {engine : Engine F} (h : Attached b engine) (parser : Running H F)
      (registry : Registry H F) (name : String) (overrides : Option OptionTree) (world : σ) :
      Attached b (parser.extend b registry name engine overrides world).engine
  | called {engine : Engine F} (h : Attached b engine) (call : OptionCall) :
      Attached b (engine.afterCall call)

/-- An engine is settled once a parser is attached to it. -/
theorem Engine.Attached.settled [DecidableEq H] (hb : b.CallsOptionStep) {engine : Engine F}
    (h : Attached b engine) : engine.Settled := by
  induction h with
  | @configured prepared engine world parser h =>
    obtain ⟨applied, ha, -, he⟩ := Prepared.configure_eq_ok h
    -- the option step comes before all hooks, and installing filters does not matter
    have hsettled := settled_of_applyOptions (.ofDefaults prepared.active.options) ha
    rw [he]
    exact (sameOptions_install _ _ _).settled (hb.settled_runAll _ hsettled)
  | @extended engine h parser registry name overrides world ih =>
    have he := Running.extended b parser registry name engine overrides world
    generalize parser.extend b registry name engine overrides world = step at he ⊢
    cases he with
    | unknown | present | foreign | undeclared => exact ih
    | @added package applied hosted _ _ _ ho hs =>
      have hsettled := settled_of_applyOptions ⟨_, overrides⟩ ho
      rw [← hs]
      exact (sameOptions_install _ _ _).settled (hb.settled_runAll _ hsettled)
  | called _ call ih => exact ih.afterCall call

/-- After a call of the option step has been accepted, calls without overrides are, too: they keep
the options of the user and every option there is, and add the options whose names are missing. So
what overrides have set once is set after any later defaults. And where hooks reach the options of
the engine through its option step only, no extension without overrides is refused for its options
after a parser has been configured. -/
theorem overrides_survive_later_defaults [DecidableEq H] (b : Behaviour H F σ) :
    (∀ (start : Engine F) (calls : List OptionCall), start.accepted calls ≠ [] →
      ∀ defaults : OptionTree,
        let e := start.afterCalls calls
        ∃ options, e.applyOptions defaults none = .ok { e with options } ∧
          ∀ name, options.get? name = (e.options.get? name).or (defaults.get? name)) ∧
    (∀ (start e : Engine F) (defaults overrides : OptionTree),
      start.applyOptions defaults (some overrides) = .ok e → ∀ later : List OptionTree,
        let calls := later.map OptionCall.ofDefaults
        let e' := e.afterCalls calls
        e.accepted calls = calls ∧ e'.userOptions = e.userOptions ∧
          (∀ name, e'.options.get? name =
            (e.options.get? name).or (later.findSome? (·.get? name))) ∧
          ∀ path leaf, OptionTree.descend overrides.toJson path = some leaf →
            (∀ fields, leaf ≠ .obj fields) →
              OptionTree.descend e'.options.toJson path = some leaf) ∧
    (b.CallsOptionStep → ∀ engine, Engine.Attached b engine →
      ∀ (parser : Running H F) (registry : Registry H F) (name : String) (world : σ)
        (path : String),
        (parser.extend b registry name engine none world).outcome ≠
          .error (.unknownOption path)) := by
  refine ⟨fun start calls h defaults => ?_, fun start e defaults overrides ho later => ?_,
    fun hb engine h parser registry name world path hp => ?_⟩
  · have hsettled := Engine.settled_of_accepted h
    exact ⟨_, hsettled.applyOptions_none defaults, OptionTree.get?_fill _ defaults⟩
  · intro calls e'
    have hsettled := Engine.settled_of_applyOptions ⟨defaults, some overrides⟩ ho
    have hlater : e' = { e with options := later.foldl OptionTree.fill e.options } :=
      hsettled.afterCalls_ofDefaults later
    have hget (name : String) : e'.options.get? name =
        (e.options.get? name).or (later.findSome? (·.get? name)) := by
      rw [hlater]
      exact OptionTree.get?_foldl_fill later e.options name
    refine ⟨hsettled.accepted_ofDefaults later, by rw [hlater], hget, fun path leaf hd hl => ?_⟩
    have hkept (name : String) (value : Json) (hv : e.options.get? name = some value) :
        e'.options.get? name = some value := by
      rw [hget, hv]
      rfl
    exact OptionTree.descend_of_extends hkept (Engine.descend_of_applyOptions ho hd hl) hl
  · have he := Running.extended b parser registry name engine none world
    generalize parser.extend b registry name engine none world = step at he hp
    cases he with
    | unknown | present | foreign | added => cases hp
    | undeclared _ _ _ ho =>
      rw [(h.settled hb).applyOptions_none] at ho
      cases ho

namespace Sample

def flatDefaults : OptionTree := .set (.set .empty "ams" (.bool true)) "tagSide" (.str "right")

def seven : OptionTree := .set .empty "width" (.int 7)

end Sample

open Sample in
/-- What `narrow` has set below `ams` is set after defaults that have no sub-tree there, and the
width stays when `extra` joins after an extension that is undone. -/
theorem narrow_survives_flat_defaults :
    let e := (Engine.ofUserOptions narrow : Engine Filter).afterCalls amsCalls
    let e' := (⟨.empty, .empty, narrow, amsDefaults.overlay narrow⟩ : Engine Filter).afterCalls
      [.ofDefaults flatDefaults, .ofDefaults tagDefaults]
    let configured := (prepared.configure library.behaviour (.ofUserOptions seven) []).2.1
    let undone := running.extend library.behaviour registry "extra" configured (some narrow) []
    let added := running.extend library.behaviour registry "extra" undone.engine none []
    (∃ options, e.applyOptions flatDefaults none = .ok { e with options } ∧
        options.get? "ams" = e.options.get? "ams" ∧
        options.get? "tagSide" = some (.str "right")) ∧
      (e'.userOptions = narrow ∧
        OptionTree.descend e'.options.toJson ["ams", "multlineWidth"] = some (.str "85%")) ∧
      undone.outcome = .error (.unknownOption "ams") ∧
      (∀ path, added.outcome ≠ .error (.unknownOption path)) ∧
      added.outcome = .ok true ∧ added.engine.options.get? "width" = some (.int 7) := by
  intro e e' configured undone added
  obtain ⟨hcalls, hlater, hextend⟩ := overrides_survive_later_defaults library.behaviour
  obtain ⟨options, hok, hget⟩ := hcalls (.ofUserOptions narrow) amsCalls (by decide) flatDefaults
  obtain ⟨-, huser, -, hset⟩ := hlater .empty ⟨.empty, .empty, narrow, amsDefaults.overlay narrow⟩
    amsDefaults narrow rfl [flatDefaults, tagDefaults]
  have hconfigured : (prepared.configure library.behaviour (.ofUserOptions seven) []).1 =
      .ok running := rfl
  have hattached : Engine.Attached library.behaviour undone.engine :=
    .extended (.configured hconfigured) running registry "extra" (some narrow) []
  have hadded := hextend library.servesEngine.callsOptionStep undone.engine hattached running
    registry "extra" []
  exact ⟨⟨options, hok, (hget "ams").trans rfl, (hget "tagSide").trans rfl⟩,
    ⟨huser, hset ["ams", "multlineWidth"] (.str "85%") rfl nofun⟩, rfl, hadded, rfl, rfl⟩

end ParserPackages
