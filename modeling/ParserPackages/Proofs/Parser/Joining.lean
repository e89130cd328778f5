import ParserPackages.Settings.Basic
import ParserPackages.Proofs.Engine.OptionCalls
import ParserPackages.Proofs.Parser.HookFree
import ParserPackages.Proofs.Script.AppendOnly

/-!
# Joining late

A package can be selected with others from the start, or it can extend the parser that the others
make up. Both come to the same where the others have no hooks, the package is merged behind them
in either case, and its hooks only append.
-/
namespace ParserPackages

variable {H F σ : Type} {b : Behaviour H F σ}

namespace Engine

theorem install_install (e : Engine F) (before after before' after' : List (Processor F)) :
    (e.install before after).install before' after' =
      e.install (before ++ before') (after ++ after') := by
  simp only [install, List.foldl_append]

/-- Installing what is new besides what is installed is installing everything. -/
theorem install_rest (e : Engine F) {before after before' after' : List (Processor F)}
    (hb : before <+: before') (ha : after <+: after') :
    (e.install before after).install (before'.drop before.length) (after'.drop after.length) =
      e.install before' after' := by
  rw [install_install, List.prefix_iff_eq_append.1 hb, List.prefix_iff_eq_append.1 ha]

end Engine

namespace Configuration

/-- Where no init hook waits, the init chain is that of the package that was appended last. -/
theorem runInit_append {c : Configuration H F} (h : c.initChain = .empty) (package : Package H F)
    (world : σ) : ((c.append package).runInit b world).2 = c.join b package world := by
  have hchain : (c.append package).initChain = .ofEntries package.init?.toList := by
    rw [append_eq, h]
    rfl
  simp only [runInit, join, hchain]
  cases package.init? with
  | none => rfl
  | some hook =>
    change (runAll b.onConfiguration [hook.item] (c.append package, world)).2 = _
    simp only [runAll]
    rcases b.onConfiguration hook.item (c.append package, world) with ⟨flow, run⟩
    cases flow <;> rfl

theorem get?_options_appendAll (c : Configuration H F) (packages : List (Package H F))
    (name : String) : (c.appendAll packages).options.get? name =
      (c.options.get? name).or (packages.findSome? (·.options.get? name)) := by
  rw [options_appendAll, OptionTree.get?_foldl_fill, List.findSome?_map]
  rfl

theorem preprocessors_prefix (c : Configuration H F) (packages : List (Package H F)) :
    c.preprocessors <+: (c.appendAll packages).preprocessors :=
  ⟨_, (c.growsBy_appendAll packages).preprocessors.symm⟩

theorem postprocessors_prefix (c : Configuration H F) (packages : List (Package H F)) :
    c.postprocessors <+: (c.appendAll packages).postprocessors :=
  ⟨_, (c.growsBy_appendAll packages).postprocessors.symm⟩

theorem forall_readyChain_appendAll {c : Configuration H F} (h : c.readyChain = .empty)
    {hooks : H → Prop} {packages : List (Package H F)}
    (hp : ∀ package ∈ packages, package.Calls hooks) :
    ∀ hook ∈ (c.appendAll packages).readyChain.items, hooks hook.callable := by
  rw [(c.growsBy_appendAll packages).readyChain, h]
  change ∀ hook ∈ (RankedList.ofEntries _).items, _
  rw [RankedList.items_ofEntries]
  intro hook hh
  obtain ⟨e, he, rfl⟩ := List.mem_map.1 hh
  obtain ⟨package, hmem, hready⟩ := List.mem_filterMap.1 (Ranked.mem_sort.1 he)
  exact (hp package hmem).ready? e hready

end Configuration

theorem Running.extend_of_join [DecidableEq H] {parser : Running H F} {registry : Registry H F}
    {name : String} {package : Package H F} {engine applied : Engine F} {world start : σ}
    {joined : Configuration H F} (hl : registry.lookup? name = some package)
    (hn : parser.active.containsPackage package.name = false)
    (hp : package.parser ∈ parser.parsers) (hr : parser.active.readyChain = .empty)
    (hj : parser.active.join b package world = (joined, start))
    (ho : engine.applyOptions joined.options none = .ok applied) :
    parser.extend b registry name engine none world =
      let hosted := (Configuration.runReady b ⟨joined.rebuildIndex, applied, start⟩).2
      ⟨.ok true, ⟨hosted.configuration, parser.parsers⟩,
        hosted.engine.install
          (hosted.configuration.preprocessors.drop parser.active.preprocessors.length)
          (hosted.configuration.postprocessors.drop parser.active.postprocessors.length),
        hosted.world⟩ := by
  have hsettle : parser.active.settle b package applied world =
      (Configuration.runReady b ⟨joined.rebuildIndex, applied, start⟩).2 := by
    simp only [Configuration.settle, hj, hr, Chain.queuedSince_empty]
    rfl
  rw [extend_eq_of_accepted hl hn hp, hj]
  simp only [ho, hsettle]

/-- The request selects a package behind all that other requests select: none of these has its
name, and none has a higher priority. -/
structure Registry.SelectsLast (registry : Registry H F) (requests : List Request)
    (request : Request) (package : Package H F) : Prop where
  lookup : registry.lookup? request.name = some package
  name : ∀ e ∈ registry.selection requests, e.item.name ≠ package.name
  priority : ∀ e ∈ registry.selection requests,
    e.priority ≤ request.priority?.getD package.priority

namespace Registry.SelectsLast

variable {registry : Registry H F} {requests : List Request} {request : Request}
  {package : Package H F}

theorem selection_concat (h : registry.SelectsLast requests request package) :
    registry.selection (requests ++ [request]) =
      registry.selection requests ++ [⟨package, request.priority?.getD package.priority⟩] := by
  have hheld : registry.held (requests ++ [request]) =
      registry.held requests ++ [⟨package, request.priority?.getD package.priority⟩] := by
    simp [held, h.lookup]
  rw [selection, hheld]
  exact firstOfEachName_concat h.name

theorem ordered_concat (h : registry.SelectsLast requests request package) :
    registry.ordered (requests ++ [request]) = registry.ordered requests ++ [package] := by
  let last : Ranked (Package H F) := ⟨package, request.priority?.getD package.priority⟩
  have hlast : ∀ e ∈ registry.selection requests, e.priority ≤ last.priority := h.priority
  rw [ordered, h.selection_concat, Ranked.sort_concat hlast, List.map_append]
  rfl

end Registry.SelectsLast

namespace Settings

variable {s : Settings} {registry : Registry H F} {parser : Running H F} {engine : Engine F}

structure HookFree (s : Settings) (registry : Registry H F) (parser : Running H F)
    (engine : Engine F) : Prop where
  hookFree : ∀ e ∈ registry.selection s.packages, e.item.HookFree
  accepted : ∀ e ∈ registry.selection s.packages, e.item.parser ∈ s.parsers
  parser_eq : parser =
    ⟨(Configuration.empty.appendAll (registry.ordered s.packages)).rebuildIndex, s.parsers⟩
  engine_eq : ∃ options, parser.active.options.applyUser s.options = .ok options ∧
    engine = (⟨.empty, .empty, s.options, options⟩ : Engine F).install
      parser.active.preprocessors parser.active.postprocessors

theorem hookFree_of_resolve {world world' : σ}
    (hf : ∀ e ∈ registry.selection s.packages, e.item.HookFree)
    (hs : s.resolve b registry world = (.ok (parser, engine), world')) :
    s.HookFree registry parser engine ∧ world' = world := by
  simp only [resolve, prepare] at hs
  rcases hprepared : Prepared.ofRequests b registry s.packages s.parsers world with ⟨outcome, start⟩
  rw [hprepared] at hs
  cases outcome with
  | error fault => cases hs
  | ok prepared =>
    have hok := congrArg Prod.fst hprepared
    obtain ⟨rfl, hstart⟩ := Prepared.ofRequests_hookFree hf hok
    obtain rfl : start = world := (congrArg Prod.snd hprepared).symm.trans hstart
    have hchain := Configuration.readyChain_appendAll (.empty : Configuration H F)
      (Registry.hookFree_ordered hf)
    simp only at hs
    rcases hconfigured : Prepared.configure b _ s.engine start with ⟨outcome, rest⟩
    rw [hconfigured] at hs
    cases outcome with
    | error fault => cases hs
    | ok parser' =>
      cases hs
      obtain ⟨applied, happly, hparser, hengine⟩ :=
        Prepared.configure_hookFree hchain (congrArg Prod.fst hconfigured)
      rw [hconfigured] at hengine
      rw [Settings.engine, Engine.applyOptions_ofUserOptions] at happly
      split at happly
      · cases happly
      · rename_i options hoptions
        cases happly
        cases hengine
        cases hparser
        exact ⟨⟨hf, Prepared.accepted_of_ofRequests hok, rfl, options, hoptions, rfl⟩, rfl⟩

theorem resolve_of_prepare {world start : σ} {prepared : Prepared H F} {applied : Engine F}
    (hp : s.prepare b registry world = (.ok prepared, start))
    (ho : (s.engine : Engine F).applyOptions prepared.active.options none = .ok applied) :
    s.resolve b registry world =
      let hosted := (Configuration.runReady b ⟨prepared.active, applied, start⟩).2
      (.ok (⟨hosted.configuration, prepared.parsers⟩, hosted.engine.install
        hosted.configuration.preprocessors hosted.configuration.postprocessors), hosted.world) := by
  simp only [resolve, hp, Prepared.configure, ho]

def adding (s : Settings) (request : Request) : Settings :=
  { s with packages := s.packages ++ [request] }

end Settings

theorem Behaviour.Agree.resolve {τ : Type} {b' : Behaviour H F τ} {R : σ → τ → Prop}
    (h : Agree R b b') (s : Settings) (registry : Registry H F) {w : σ} {v : τ} (hr : R w v) :
    (s.resolve b registry w).1 = (s.resolve b' registry v).1 ∧
      R (s.resolve b registry w).2 (s.resolve b' registry v).2 := by
  obtain ⟨hprepared, hstart⟩ := h.ofRequests registry s.packages s.parsers hr
  simp only [Settings.resolve, Settings.prepare]
  generalize Prepared.ofRequests b registry s.packages s.parsers w = first,
    Prepared.ofRequests b' registry s.packages s.parsers v = second at hprepared hstart ⊢
  obtain ⟨outcome, start⟩ := first
  obtain ⟨outcome', start'⟩ := second
  obtain rfl : outcome = outcome' := hprepared
  cases outcome with
  | error fault => exact ⟨rfl, hstart⟩
  | ok prepared =>
    obtain ⟨hparser, hengine, hworld⟩ := h.configure prepared s.engine hstart
    simp only
    generalize prepared.configure b s.engine start = first,
      prepared.configure b' s.engine start' = second at hparser hengine hworld ⊢
    obtain ⟨outcome, engine, w⟩ := first
    obtain ⟨outcome', engine', v⟩ := second
    obtain ⟨rfl, rfl⟩ : outcome = outcome' ∧ engine = engine' := ⟨hparser, hengine⟩
    cases outcome <;> exact ⟨rfl, hworld⟩

section Joining

variable {s : Settings} {registry : Registry H F} {parser : Running H F} {engine : Engine F}
  {request : Request} {package : Package H F}

theorem Settings.HookFree.applyOptions (h : s.HookFree registry parser engine)
    (packages : List (Package H F)) :
    let more := (parser.active.appendAll packages).options
    ∃ options, (s.engine : Engine F).applyOptions more none =
        .ok ⟨.empty, .empty, s.options, options⟩ ∧
      engine.applyOptions more none =
        .ok ((⟨.empty, .empty, s.options, options⟩ : Engine F).install
          parser.active.preprocessors parser.active.postprocessors) := by
  intro more
  obtain ⟨options, hoptions, rfl⟩ := h.engine_eq
  have hmore : ∀ name value, parser.active.options.get? name = some value →
      more.get? name = some value := by
    intro name value hv
    rw [Configuration.get?_options_appendAll, hv]
    rfl
  have honce := OptionTree.applyUser_of_extends hoptions hmore
  have htwice := OptionTree.applyUser_fill (OptionTree.applyUser_again hoptions) more
  refine ⟨options.fill more, ?_, ?_⟩
  · rw [Settings.engine, Engine.applyOptions_ofUserOptions, honce]
  · simp only [Engine.applyOptions, Engine.install, htwice]

theorem Settings.HookFree.containsPackage_eq_false (h : s.HookFree registry parser engine)
    (hl : registry.SelectsLast s.packages request package) :
    parser.active.containsPackage package.name = false := by
  have hpackages : parser.active.packages = (registry.ordered s.packages).map (·.name) := by
    rw [h.parser_eq]
    exact (Configuration.empty.growsBy_appendAll _).packages
  rw [Configuration.containsPackage, hpackages, ← Bool.not_eq_true, List.contains_iff_mem,
    List.mem_map]
  rintro ⟨other, hother, hname⟩
  obtain ⟨e, he, rfl⟩ := Registry.mem_ordered.1 hother
  exact hl.name e he hname

theorem Settings.HookFree.prepare_adding (h : s.HookFree registry parser engine)
    (hl : registry.SelectsLast s.packages request package) (hp : package.parser ∈ s.parsers)
    (world : σ) :
    (s.adding request).prepare b registry world =
      let joined := (Configuration.empty.appendAll (registry.ordered s.packages)).join b package
        world
      (.ok ⟨joined.1.rebuildIndex, s.parsers⟩, joined.2) := by
  have haccepted : ∀ e ∈ registry.selection (s.packages ++ [request]),
      e.item.parser ∈ s.parsers := by
    rw [hl.selection_concat]
    exact List.forall_mem_append.2 ⟨h.accepted, List.forall_mem_singleton.2 hp⟩
  have hchain := Configuration.initChain_appendAll (.empty : Configuration H F)
    (Registry.hookFree_ordered h.hookFree)
  change Prepared.ofRequests b registry (s.packages ++ [request]) s.parsers world = _
  rw [Prepared.ofRequests_of_accepted haccepted, hl.ordered_concat,
    Configuration.appendAll_append, ← Configuration.runInit_append hchain]
  rfl

theorem Settings.HookFree.resolve_adding_of_foreign (h : s.HookFree registry parser engine)
    (hl : registry.SelectsLast s.packages request package) (hp : package.parser ∉ s.parsers)
    (world : σ) :
    (s.adding request).resolve b registry world =
      (.error (.wrongParser package.name package.parser s.parsers), world) := by
  have hfind : (registry.selection (s.packages ++ [request])).find? (·.item.parser ∉ s.parsers) =
      some ⟨package, request.priority?.getD package.priority⟩ := by
    have hnone : (registry.selection s.packages).find? (·.item.parser ∉ s.parsers) = none :=
      List.find?_eq_none.2 fun e he => by simpa using h.accepted e he
    rw [hl.selection_concat, List.find?_append, hnone]
    simp [hp]
  have hprepare : (s.adding request).prepare b registry world =
      (.error (.wrongParser package.name package.parser s.parsers), world) := by
    change Prepared.ofRequests b registry (s.packages ++ [request]) s.parsers world = _
    rw [Prepared.ofRequests_eq, hfind]
  simp only [resolve, hprepare]

variable [DecidableEq H] {R : σ → σ → Prop} {hooks : H → Prop}

theorem Settings.HookFree.extend_of_foreign (h : s.HookFree registry parser engine)
    (hl : registry.SelectsLast s.packages request package) (hp : package.parser ∉ s.parsers)
    (world : σ) :
    parser.extend b registry request.name engine none world =
      ⟨.error (.wrongParser package.name package.parser s.parsers), parser, engine, world⟩ := by
  have hparsers : parser.parsers = s.parsers := by rw [h.parser_eq]
  have hnew := h.containsPackage_eq_false hl
  simp only [Running.extend, hl.lookup, hnew, Package.requireParser_eq, hparsers, if_neg hp]
  rfl

/-- A package that is accepted joins late as it is there from the start. -/
theorem Behaviour.AppendOnly.joins (hb : b.AppendOnly R hooks)
    (h : s.HookFree registry parser engine)
    (hl : registry.SelectsLast s.packages request package) (hq : package.Calls hooks)
    (hp : package.parser ∈ s.parsers) {world : σ} (hw : R world world) :
    ∃ parser' engine' w v, R w v ∧
      parser.extend b registry request.name engine none world = ⟨.ok true, parser', engine', w⟩ ∧
      (s.adding request).resolve b registry world = (.ok (parser', engine'), v) := by
  have hparsers : parser.parsers = s.parsers := by rw [h.parser_eq]
  have hchain : parser.active.readyChain = .empty := by
    rw [h.parser_eq]
    exact Configuration.readyChain_appendAll .empty (Registry.hookFree_ordered h.hookFree)
  have hindex : parser.active.rebuildIndex =
      (Configuration.empty.appendAll (registry.ordered s.packages)).rebuildIndex := by
    rw [h.parser_eq]
    rfl
  obtain ⟨packages, w, v, hcalls, hr, hjoin, hjoin'⟩ := hb.join hq hindex hw
  let joined := (parser.active.appendAll (package :: packages)).rebuildIndex
  have hjoined : joined = ((Configuration.empty.appendAll (registry.ordered s.packages)).appendAll
      (package :: packages)).rebuildIndex := by
    rw [← Configuration.rebuildIndex_appendAll, ← hindex, Configuration.rebuildIndex_appendAll]
  obtain ⟨options, honce, htwice⟩ := h.applyOptions (package :: packages)
  let fresh : Engine F := ⟨.empty, .empty, s.options, options⟩
  let used := fresh.install parser.active.preprocessors parser.active.postprocessors
  -- either way the ready chain runs as a whole, on engines that differ in what is installed
  have hextend := Running.extend_of_join hl.lookup (h.containsPackage_eq_false hl) (hparsers ▸ hp)
    hchain hjoin htwice
  have hprepare : (s.adding request).prepare b registry world = (.ok ⟨joined, s.parsers⟩, v) := by
    rw [h.prepare_adding hl hp, hjoin', hjoined]
  have hresolve := Settings.resolve_of_prepare hprepare honce
  have hcallable := Configuration.forall_readyChain_appendAll hchain
    (List.forall_mem_cons.2 ⟨hq, hcalls⟩)
  have hrun : Hosted.GoOnAlike R hooks ⟨joined, used, w⟩ ⟨joined, fresh, v⟩
      (Configuration.runReady b ⟨joined, used, w⟩) (Configuration.runReady b ⟨joined, fresh, v⟩) :=
    hb.runAll hcallable ⟨rfl, rfl, rfl, hr⟩
  rw [hextend, hresolve, hparsers]
  generalize Configuration.runReady b ⟨joined, used, w⟩ = first,
    Configuration.runReady b ⟨joined, fresh, v⟩ = second at hrun ⊢
  cases hrun with
  | @appended flow more w' v' hmore hr' =>
    refine ⟨_, _, _, _, hr', rfl, ?_⟩
    -- what the others had installed before is not installed again
    have hinstalled := fresh.install_rest
      ((parser.active.preprocessors_prefix _).trans (joined.preprocessors_prefix more))
      ((parser.active.postprocessors_prefix _).trans (joined.postprocessors_prefix more))
    simp only [Hosted.appended]
    rw [hinstalled]

/-- Settings select packages without hooks and are resolved. One more request selects a package
behind these, whose hooks only append. Then the package can be added to the parser, or the request
to the settings: one succeeds if the other does and fails with the same fault otherwise, and when
both succeed, the parsers and the engines are the same and the same hooks were called in order. -/
theorem extend_eq_resolve_adding {world world' : σ}
    (hf : ∀ e ∈ registry.selection s.packages, e.item.HookFree)
    (hs : s.resolve b registry world = (.ok (parser, engine), world'))
    (hl : registry.SelectsLast s.packages request package) (hb : b.AppendOnly R hooks)
    (hq : package.Calls hooks) (hw : R world world) :
    let extended := parser.extend b registry request.name engine none world'
    let resolved := (s.adding request).resolve b registry world
    let recorded := parser.extend b.recording registry request.name engine none (world', [])
    let recorded' := (s.adding request).resolve b.recording registry (world, [])
    extended.outcome = resolved.1.map (fun _ => true) ∧
      (∀ result, resolved.1 = .ok result →
        extended.parser = result.1 ∧ extended.engine = result.2 ∧ R extended.world resolved.2) ∧
      recorded.Alike (fun w v => w.1 = v) extended ∧
      (recorded'.1 = resolved.1 ∧ recorded'.2.1 = resolved.2) ∧
      (extended.outcome = .ok true → recorded.world.2 = recorded'.2.2) := by
  intro extended resolved recorded recorded'
  obtain ⟨h, rfl⟩ := Settings.hookFree_of_resolve hf hs
  have hextended : recorded.Alike (fun w v => w.1 = v) extended :=
    b.recording_agree.extend parser registry request.name engine none rfl
  have hresolved : recorded'.1 = resolved.1 ∧ recorded'.2.1 = resolved.2 :=
    b.recording_agree.resolve (s.adding request) registry rfl
  by_cases hp : package.parser ∈ s.parsers
  · obtain ⟨_, _, w, v, hr, (he : extended = _), (hs' : resolved = _)⟩ := hb.joins h hl hq hp hw
    have hw' : (fun w v : σ × Record H => R w.1 v.1 ∧ w.2 = v.2) (world', []) (world', []) :=
      ⟨hw, rfl⟩
    obtain ⟨_, _, _, _, ⟨-, hsame⟩, (hrecorded : recorded = _), (hrecorded' : recorded' = _)⟩ :=
      hb.recording.joins h hl hq hp hw'
    refine ⟨?_, fun result hok => ?_, hextended, hresolved, fun _ => ?_⟩
    · rw [he, hs']
      rfl
    · rw [hs'] at hok ⊢
      cases hok
      rw [he]
      exact ⟨rfl, rfl, hr⟩
    · rw [hrecorded, hrecorded']
      exact hsame
  · have he : extended = _ := h.extend_of_foreign hl hp world'
    have hs' : resolved = _ := h.resolve_adding_of_foreign hl hp world'
    refine ⟨?_, fun result hok => ?_, hextended, hresolved, fun hok => ?_⟩
    · rw [he, hs']
      rfl
    · rw [hs'] at hok
      cases hok
    · rw [he] at hok
      cases hok

end Joining

namespace Sample

def joiningRegistry : Registry Hook Filter :=
  ⟨(KeyMap.empty.insert "base" base).insert "extra" extra⟩

def wide : Settings := ⟨[.ofName "base"], [defaultParser], OptionTree.empty.set "width" (.int 7)⟩

def wideParser : Running Hook Filter :=
  ⟨(Configuration.empty.append base).rebuildIndex, [defaultParser]⟩

def wideEngine : Engine Filter :=
  (⟨.empty, .empty, wide.options, wide.options⟩ : Engine Filter).install base.preprocessors []

theorem resolve_wide : wide.resolve appending.behaviour joiningRegistry [] =
    (.ok (wideParser, wideEngine), []) := rfl

end Sample

open Sample in
/-- `extra` joins `base`, and its hooks are called, and the one that they queue. -/
theorem extra_joins_base :
    let widened := wide.adding (.ofName "extra")
    let extended := wideParser.extend appending.behaviour joiningRegistry "extra" wideEngine none []
    let recorded := wideParser.extend appending.behaviour.recording joiningRegistry "extra"
      wideEngine none ([], [])
    extended.outcome = .ok true ∧
      (widened.resolve appending.behaviour joiningRegistry []).1 =
        .ok (extended.parser, extended.engine) ∧
      extended.parser.active.packages = ["base", "extra", localName, localName] ∧
      extended.engine.options.get? "width" = some (.int 7) ∧
      recorded.world.2.map (·.1) =
        [.configuration initHook, .configuration readyHook, .engine stoppingHook] ∧
      recorded.world.2 =
        (widened.resolve appending.behaviour.recording joiningRegistry ([], [])).2.2 := by
  intro widened extended recorded
  have hselection : joiningRegistry.selection wide.packages = [⟨base, 5⟩] := rfl
  have hf : ∀ e ∈ joiningRegistry.selection wide.packages, e.item.HookFree := by
    rw [hselection]
    exact List.forall_mem_singleton.2 ⟨rfl, rfl⟩
  have hl : joiningRegistry.SelectsLast wide.packages (.ofName "extra") extra := by
    refine ⟨rfl, ?_, ?_⟩ <;> rw [hselection] <;> decide
  have hq : extra.Calls fun _ => True := ⟨fun _ _ => trivial, fun _ _ => trivial⟩
  obtain ⟨-, hsame, -, -, hrecord⟩ :=
    extend_eq_resolve_adding hf resolve_wide hl appendOnly_appending hq trivial
  have hresolved : ∃ result, (widened.resolve appending.behaviour joiningRegistry []).1 =
      .ok result := ⟨_, rfl⟩
  obtain ⟨result, hresult⟩ := hresolved
  obtain ⟨hparser, hengine, -⟩ := hsame result hresult
  have hequal : result = (extended.parser, extended.engine) :=
    Prod.ext hparser.symm hengine.symm
  exact ⟨rfl, hresult.trans (congrArg _ hequal), rfl, rfl, rfl, hrecord rfl⟩

end ParserPackages
