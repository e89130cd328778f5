import ParserPackages.Proofs.Parser.Agreement
import ParserPackages.Proofs.Parser.History
import ParserPackages.Proofs.Parser.Queued

/-!
# The hooks that an extension calls

Calls show in a record that every hook writes to as it is called. Recording changes nothing else.
The record of an extension begins with the init hook of its package and goes on with the ready
hooks that joining added to the chain, up to the first that stops.
-/
namespace ParserPackages

variable {H F σ : Type}

/-- Hooks that were called, in order, and what each of them reported. -/
abbrev Record (H : Type) := List (ReadyHook H × Flow)

/-- The same hooks, each noting in the world that it was called and what it reported. -/
def Behaviour.recording (b : Behaviour H F σ) : Behaviour H F (σ × Record H) where
  onConfiguration hook s :=
    let (flow, c, world) := b.onConfiguration hook (s.1, s.2.1)
    (flow, c, world, s.2.2 ++ [(.configuration hook, flow)])
  onEngine hook s :=
    let (flow, hosted) := b.onEngine hook ⟨s.configuration, s.engine, s.world.1⟩
    (flow, ⟨hosted.configuration, hosted.engine, hosted.world, s.world.2 ++ [(.engine hook, flow)]⟩)
  onData filter s :=
    let (flow, data, world) := b.onData filter (s.1, s.2.1)
    (flow, data, world, s.2.2)

/-- Apart from the record, hooks do what they did. -/
theorem Behaviour.recording_agree (b : Behaviour H F σ) :
    Agree (fun w v => w.1 = v) b.recording b where
  onConfiguration hook s t h := by
    obtain ⟨c, w, log⟩ := s
    obtain ⟨c', v⟩ := t
    obtain ⟨rfl, rfl⟩ : c = c' ∧ w = v := h
    exact ⟨rfl, rfl, rfl⟩
  onEngine hook s t h := by
    obtain ⟨c, e, w, log⟩ := s
    obtain ⟨c', e', v⟩ := t
    obtain ⟨rfl, rfl, rfl⟩ : c = c' ∧ e = e' ∧ w = v := ⟨h.configuration, h.engine, h.world⟩
    exact ⟨rfl, rfl, rfl, rfl⟩

theorem Behaviour.recording_callReady (b : Behaviour H F σ) (hook : ReadyHook H)
    (s : Hosted H F (σ × Record H)) :
    (b.recording.callReady hook s).2.world.2 =
      s.world.2 ++ [(hook, (b.recording.callReady hook s).1)] := by
  cases hook <;> rfl

theorem Configuration.recording_join (b : Behaviour H F σ) (c : Configuration H F)
    (package : Package H F) (world : σ) :
    ((c.join b.recording package (world, [])).2.2).map (·.1) =
      (package.init?.map fun hook => .configuration hook.item).toList := by
  simp only [Configuration.join]
  cases package.init? <;> rfl

variable {b : Behaviour H F σ}

theorem Reached.queuedSince_join [DecidableEq H] {account : Account b} {c : Configuration H F}
    {history : List (Change H F)} (h : Reached account c history) (package : Package H F)
    (world : σ)
    (hc : Ranked.Consistent ((Change.appended history ++
      Change.appended (account.join c package world)).filterMap (·.ready?))) :
    Chain.queuedSince c.readyChain (c.join b package world).1.readyChain =
      .ofEntries ((Change.appended (account.join c package world)).filterMap (·.ready?)) := by
  rw [account.join_eq, (c.growsBy_applyAll _).readyChain, queuedSince_insertAll]
  intro e he e' he'
  have hmem : ∀ x ∈ c.readyChain.entries ++
      (Change.appended (account.join c package world)).filterMap (·.ready?),
      x ∈ (Change.appended history ++
        Change.appended (account.join c package world)).filterMap (·.ready?) := by
    intro x hx
    rwa [h.isMergeOf.readyChain, List.mem_append, Ranked.mem_sort, ← List.mem_append,
      ← List.filterMap_append] at hx
  exact hc e (hmem e he) e' (hmem e' he')

/-- A recorded settling calls the init hook, then the queued ready hooks. -/
theorem Configuration.recording_settle [DecidableEq H] (c : Configuration H F)
    (package : Package H F) (applied : Engine F) (world : σ) :
    ∃ started ran,
      (c.settle b.recording package applied (world, [])).world.2 = started ++ ran ∧
      started.map (·.1) = (package.init?.map fun hook => .configuration hook.item).toList ∧
      Pass (Chain.queuedSince c.readyChain (c.join b package world).1.readyChain).items ran := by
  have hjoin : (c.join b.recording package (world, [])).1 = (c.join b package world).1 :=
    (b.recording_agree.join c package rfl).1
  obtain ⟨ran, hpass, hran, -⟩ := exists_pass id (fun s : Hosted H F (σ × Record H) => s.world.2)
    b.recording_callReady
    (Chain.queuedSince c.readyChain (c.join b package world).1.readyChain).items
    ⟨(c.join b package world).1.rebuildIndex, applied, (c.join b.recording package (world, [])).2⟩
  simp only [id, List.map_id'] at hran
  refine ⟨_, ran, ?_, c.recording_join b package world, hpass⟩
  simp only [Configuration.settle, hjoin]
  exact hran

/-- An extension that adds its package calls the init hook of the package once and no other init
hook. Then it calls the ready hooks that joining added, those of lower priorities first and equal
priorities in the order of adding, up to the first that stops, each as often as it was added at
most. So no hook is called for an entry that was on the chain. -/
theorem extend_calls_added_hooks [DecidableEq H] (account : Account b) {parser : Running H F}
    {history : List (Change H F)} (h : Reached account parser.active history)
    {registry : Registry H F} {name : String} {package : Package H F}
    (hl : registry.lookup? name = some package) {engine : Engine F}
    {overrides : Option OptionTree} {world : σ}
    (ho : (parser.extend b registry name engine overrides world).outcome = .ok true)
    (hc : Ranked.Consistent ((Change.appended history ++
      Change.appended (account.join parser.active package world)).filterMap (·.ready?))) :
    let recorded := parser.extend b.recording registry name engine overrides (world, [])
    let added :=
      (Change.appended (account.join parser.active package world)).filterMap (·.ready?)
    recorded.Alike (fun w v => w.1 = v) (parser.extend b registry name engine overrides world) ∧
      ∃ started ran, recorded.world.2 = started ++ ran ∧
        started.map (·.1) = (package.init?.map fun hook => .configuration hook.item).toList ∧
        Pass ((Ranked.sort added).map (·.item)) ran ∧
        ∀ hook, (ran.map (·.1)).count hook ≤ (added.map (·.item)).count hook := by
  intro recorded added
  have halike : recorded.Alike (fun w v => w.1 = v)
      (parser.extend b registry name engine overrides world) :=
    b.recording_agree.extend parser registry name engine overrides rfl
  have he : Running.Extended b.recording parser registry name engine overrides (world, [])
      recorded := Running.extended b.recording parser registry name engine overrides (world, [])
  refine ⟨halike, ?_⟩
  have hrec : recorded.outcome = .ok true := halike.outcome.trans ho
  generalize recorded = step at he hrec ⊢
  cases he with
  | unknown | present | foreign | undeclared => cases hrec
  | @added package' applied hosted hl' _ _ _ hs =>
    obtain rfl : package = package' := Option.some.inj (hl.symm.trans hl')
    obtain ⟨started, ran, hworld, hstarted, hpass⟩ :=
      parser.active.recording_settle (b := b) package applied world
    rw [h.queuedSince_join package world hc, RankedList.items, RankedList.entries_ofEntries]
      at hpass
    refine ⟨started, ran, by rw [← hs]; exact hworld, hstarted, hpass, fun hook => ?_⟩
    calc (ran.map (·.1)).count hook
        ≤ ((Ranked.sort added).map (·.item)).count hook := hpass.prefix_of.sublist.count_le hook
      _ = (added.map (·.item)).count hook := ((Ranked.sort_perm added).map _).count_eq hook

open Sample in
/-- The hook that `definitions` had queued before is called for its second entry only, and `extra`
stops the pass. -/
theorem extra_calls_added_hooks :
    let recorded := running.extend library.behaviour.recording registry "extra" engine none ([], [])
    running.active.readyChain.items = [.configuration readyHook] ∧
      recorded.outcome = .ok true ∧
      recorded.world.2 = [(.configuration initHook, .proceed), (.configuration readyHook, .proceed),
        (.engine stoppingHook, .stop)] ∧
      ∃ started ran, recorded.world.2 = started ++ ran ∧
        started.map (·.1) = [.configuration initHook] ∧
        Pass [.configuration readyHook, .engine stoppingHook] ran ∧
        ∀ hook, (ran.map (·.1)).count hook ≤
          [ReadyHook.engine stoppingHook, .configuration readyHook].count hook := by
  intro recorded
  have h : Reached library.account running.active
      [.append core, .append definitions, .rebuildIndex, .rebuildIndex, .append lateDefinitions] :=
    (Reached.prepare library.account ofRequests_core).configure configure_prepared
  have hl : registry.lookup? "extra" = some extra := rfl
  have ho : (running.extend library.behaviour registry "extra" engine none []).outcome =
      .ok true := rfl
  obtain ⟨halike, started, ran, hworld, hstarted, hpass, hcount⟩ :=
    extend_calls_added_hooks library.account h hl ho (by decide)
  rw [← RankedList.entries_ofEntries] at hpass
  exact ⟨rfl, halike.outcome, rfl, started, ran, hworld, hstarted, hpass, hcount⟩

end ParserPackages
