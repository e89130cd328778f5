import ParserPackages.Proofs.Parser.Calls

/-!
# Passes over the chains of a configuration

A pass calls the hooks that are on its chain when it begins. Hooks may append packages to the
configuration at hand, the one that they belong to included, and what these bring waits on the
chain. So a pass makes no more calls than there were hooks, and the chain that it leaves behind is
the old one with the new entries sorted in.
-/
namespace ParserPackages

variable {H F κ σ : Type} {b : Behaviour H F σ}

/-- A pass over a chain has made these calls and reported this. -/
structure Chain.PassedOver (chain : Chain κ) (called : List (κ × Flow)) (flow : Flow) : Prop where
  /-- Hooks of the chain as it was are called in its order, up to the first that stops. -/
  pass : Pass chain.items called
  length_le : called.length ≤ chain.size
  /-- The pass is stopped exactly if one of the hooks stops it. -/
  flow : flow = .stop ↔ ∃ hook, (hook, Flow.stop) ∈ called

theorem Pass.length_le {items : List κ} {called : List (κ × Flow)} (h : Pass items called) :
    called.length ≤ items.length := by
  simpa using h.prefix_of.length_le

theorem Pass.passedOver {chain : Chain κ} {called : List (κ × Flow)} {flow : Flow}
    (h : Pass chain.items called) (hflow : flow = .stop ↔ ∃ hook, (hook, Flow.stop) ∈ called) :
    chain.PassedOver called flow where
  pass := h
  length_le := by simpa [RankedList.items, RankedList.size] using h.length_le
  flow := hflow

theorem Behaviour.recording_onConfiguration (b : Behaviour H F σ) (hook : H)
    (s : Configuration H F × (σ × Record H)) :
    (b.recording.onConfiguration hook s).2.2.2 =
      s.2.2 ++ [(.configuration hook, (b.recording.onConfiguration hook s).1)] := rfl

/-- Recording makes no difference to a pass over the init chain. -/
theorem Configuration.recording_runInit (b : Behaviour H F σ) (c : Configuration H F) (world : σ) :
    (c.runInit b.recording (world, [])).1 = (c.runInit b world).1 ∧
      Configuration.Alike (fun w v => w.1 = v) (c.runInit b.recording (world, [])).2
        (c.runInit b world).2 :=
  runAll_rel b.recording_agree.onConfiguration c.initChain.items ⟨rfl, rfl⟩

theorem Configuration.recording_runReady (b : Behaviour H F σ) (c : Configuration H F)
    (engine : Engine F) (world : σ) :
    let recorded := Configuration.runReady b.recording ⟨c, engine, world, []⟩
    let run := Configuration.runReady b ⟨c, engine, world⟩
    recorded.1 = run.1 ∧ recorded.2.Alike (fun w v => w.1 = v) run.2 :=
  runAll_rel (fun hook _ _ hst => b.recording_agree.callReady hook hst) c.readyChain.items
    ⟨rfl, rfl, rfl⟩

/-- What a pass over the init chain calls shows in its record. -/
theorem Configuration.passedOver_runInit (b : Behaviour H F σ) (c : Configuration H F)
    (world : σ) :
    ∃ called, (c.runInit b.recording (world, [])).2.2.2 =
        called.map (fun call => (.configuration call.1, call.2)) ∧
      c.initChain.PassedOver called (c.runInit b world).1 := by
  obtain ⟨called, hpass, hrecord, hflow⟩ := exists_pass ReadyHook.configuration
    (fun s : Configuration H F × (σ × Record H) => s.2.2) b.recording_onConfiguration
    c.initChain.items (c, world, [])
  refine ⟨called, hrecord, hpass.passedOver ?_⟩
  rw [← (c.recording_runInit b world).1]
  exact hflow

theorem Configuration.passedOver_runReady (b : Behaviour H F σ) (c : Configuration H F)
    (engine : Engine F) (world : σ) :
    c.readyChain.PassedOver (Configuration.runReady b.recording ⟨c, engine, world, []⟩).2.world.2
      (Configuration.runReady b ⟨c, engine, world⟩).1 := by
  obtain ⟨called, hpass, hrecord, hflow⟩ := exists_pass id
    (fun s : Hosted H F (σ × Record H) => s.world.2) b.recording_callReady c.readyChain.items
    ⟨c, engine, world, []⟩
  simp only [id, List.map_id', List.nil_append] at hrecord
  have hcalled : (Configuration.runReady b.recording ⟨c, engine, world, []⟩).2.world.2 = called :=
    hrecord
  rw [hcalled, ← (c.recording_runReady b engine world).1]
  exact hpass.passedOver hflow

namespace Account

/-- The changes of a pass put the hooks of the packages that they append on the chains. -/
theorem initChain_runInit (account : Account b) (c : Configuration H F) (world : σ) :
    (c.runInit b world).2.1.initChain.entries = Ranked.sort (c.initChain.entries ++
      (Change.appended (account.initPass c.initChain.items (c, world))).filterMap (·.init?)) := by
  rw [show (c.runInit b world).2.1 = _ from account.initPass_eq c.initChain.items (c, world),
    (c.growsBy_applyAll _).initChain, RankedList.entries_insertAll]

theorem readyChain_runReady (account : Account b) (s : Hosted H F σ) :
    (Configuration.runReady b s).2.configuration.readyChain.entries =
      Ranked.sort (s.configuration.readyChain.entries ++
        (Change.appended (account.readyPass s.configuration.readyChain.items s)).filterMap
          (·.ready?)) := by
  rw [show (Configuration.runReady b s).2.configuration = _ from
      account.readyPass_eq s.configuration.readyChain.items s,
    (s.configuration.growsBy_applyAll _).readyChain, RankedList.entries_insertAll]

end Account

/-- A pass over a chain ends after hooks of the chain as it found it: each is called once and in its
turn, up to the first that stops, and the pass reports a stop if there is such a hook. What hooks
put on the chain in the meantime is not called, even if it would come first. Calls show in a record,
and recording changes nothing else. Where the changes that hooks make are known, so are the chains:
those of a reachable configuration hold the hooks of the packages appended to it, in ascending
order of priority and equal priorities in the order of appending, and what is put on a chain during
a pass is sorted in behind what was there. -/
theorem passes_call_hooks_queued_before (b : Behaviour H F σ) :
    (∀ (c : Configuration H F) (world : σ),
      let recorded := c.runInit b.recording (world, [])
      let run := c.runInit b world
      recorded.1 = run.1 ∧ Configuration.Alike (fun w v => w.1 = v) recorded.2 run.2 ∧
        ∃ called, recorded.2.2.2 = called.map (fun call => (.configuration call.1, call.2)) ∧
          c.initChain.PassedOver called run.1) ∧
    (∀ (c : Configuration H F) (engine : Engine F) (world : σ),
      let recorded := Configuration.runReady b.recording ⟨c, engine, world, []⟩
      let run := Configuration.runReady b ⟨c, engine, world⟩
      recorded.1 = run.1 ∧ recorded.2.Alike (fun w v => w.1 = v) run.2 ∧
        c.readyChain.PassedOver recorded.2.world.2 run.1) ∧
    ∀ account : Account b,
      (∀ c history, Reached account c history →
        c.initChain.entries = Ranked.sort ((Change.appended history).filterMap (·.init?)) ∧
          c.readyChain.entries = Ranked.sort ((Change.appended history).filterMap (·.ready?))) ∧
      (∀ (c : Configuration H F) (world : σ),
        (c.runInit b world).2.1.initChain.entries = Ranked.sort (c.initChain.entries ++
          (Change.appended (account.initPass c.initChain.items (c, world))).filterMap
            (·.init?))) ∧
      ∀ (c : Configuration H F) (engine : Engine F) (world : σ),
        (Configuration.runReady b ⟨c, engine, world⟩).2.configuration.readyChain.entries =
          Ranked.sort (c.readyChain.entries ++
            (Change.appended (account.readyPass c.readyChain.items ⟨c, engine, world⟩)).filterMap
              (·.ready?)) := by
  refine ⟨fun c world => ?_, fun c engine world => ?_, fun account =>
    ⟨fun c history h => ⟨h.isMergeOf.initChain, h.isMergeOf.readyChain⟩,
      account.initChain_runInit,
      fun c engine world => account.readyChain_runReady ⟨c, engine, world⟩⟩⟩
  · obtain ⟨hflow, halike⟩ := c.recording_runInit b world
    exact ⟨hflow, halike, c.passedOver_runInit b world⟩
  · obtain ⟨hflow, halike⟩ := c.recording_runReady b engine world
    exact ⟨hflow, halike, c.passedOver_runReady b engine world⟩

namespace Sample

def echoHook : Hook := ⟨3⟩

def queueing (hook : Hook) (priority : Priority) : ScriptedPackage :=
  { bare "queueing" with
    init? := some ⟨hook, priority⟩
    ready? := some ⟨.engine hook, priority⟩ }

/-- `echoHook` appends the package that it belongs to, and another with itself in front. -/
def echoing : ScriptLibrary :=
  ⟨fun hook =>
    if hook = echoHook then
      some ⟨[.append (queueing echoHook 5), .append (queueing echoHook (-9))], .proceed⟩
    else script? hook,
    fun _ => none⟩

/-- Hooks that wait, the one with the lowest priority last. -/
def queued : Configuration Hook Filter :=
  .appendAll .empty [queueing initHook 7, queueing stoppingHook 6, queueing echoHook 5]

end Sample

open Sample in
/-- On both chains `echoHook` is called once, `stoppingHook` stops the pass and `initHook` is not
called. -/
theorem echo_called_once :
    let added : List (Ranked Hook) := [⟨echoHook, 5⟩, ⟨echoHook, -9⟩]
    let run := queued.runInit echoing.behaviour []
    let ready := Configuration.runReady echoing.behaviour ⟨queued, .empty, []⟩
    queued.initChain.entries =
        Ranked.sort [⟨initHook, 7⟩, ⟨stoppingHook, 6⟩, ⟨echoHook, 5⟩] ∧
      queued.initChain.items = [echoHook, stoppingHook, initHook] ∧
      queued.initChain.PassedOver [(echoHook, .proceed), (stoppingHook, .stop)] run.1 ∧
      run.2.1.initChain.entries = Ranked.sort (queued.initChain.entries ++ added) ∧
      run.2.1.initChain.entries =
        [⟨echoHook, -9⟩, ⟨echoHook, 5⟩, ⟨echoHook, 5⟩, ⟨stoppingHook, 6⟩, ⟨initHook, 7⟩] ∧
      queued.readyChain.PassedOver [(.engine echoHook, .proceed), (.engine stoppingHook, .stop)]
        ready.1 ∧
      ready.2.configuration.readyChain.entries = Ranked.sort (queued.readyChain.entries ++
        added.map fun hook => ⟨.engine hook.item, hook.priority⟩) ∧
      ready.2.configuration.readyChain.items =
        [.engine echoHook, .engine echoHook, .engine echoHook, .engine stoppingHook,
          .engine initHook] := by
  intro added run ready
  obtain ⟨hinit, hready, hchains⟩ := passes_call_hooks_queued_before echoing.behaviour
  obtain ⟨hreached, hafterInit, hafterReady⟩ := hchains echoing.account
  have hqueued : Reached echoing.account queued _ :=
    Reached.empty.applyAll [.append (queueing initHook 7), .append (queueing stoppingHook 6),
      .append (queueing echoHook 5)]
  obtain ⟨-, -, called, hrecord, hpass⟩ := hinit queued []
  obtain rfl : called = [(echoHook, .proceed), (stoppingHook, .stop)] := by
    refine List.map_inj_right (fun call call' h => ?_) |>.1 (hrecord.symm.trans rfl)
    simpa [Prod.ext_iff] using h
  exact ⟨(hreached _ _ hqueued).1, rfl, hpass, hafterInit queued [], rfl,
    (hready queued .empty []).2.2, hafterReady queued .empty [], rfl⟩

end ParserPackages
