import ParserPackages.Proofs.Configuration.Lookup
import ParserPackages.Proofs.Parser.History

/-!
# The index of a parser in use

Preparing ends with rebuilding the index, but configuring and extending call ready hooks after the
index was rebuilt. So the index of a parser lags behind by what the ready hooks of the latest call
appended and did not index, and it is up to date if they append no handler maps or rebuild it
themselves.
-/
namespace ParserPackages

variable {H F σ : Type} {b : Behaviour H F σ}

/-- The parsers that preparing, configuring and extending lead to, each with the changes made to
its configuration since it was empty. Each call may be handed another registry, another engine and
another world. -/
inductive Course [DecidableEq H] (account : Account b) :
    Running H F → List (Change H F) → Prop
  | configured {registry : Registry H F} {requests : List Request} {parsers : List String}
      {world start : σ} {prepared : Prepared H F} {engine : Engine F} {parser : Running H F}
      (hp : (Prepared.ofRequests b registry requests parsers world).1 = .ok prepared)
      (hc : (prepared.configure b engine start).1 = .ok parser) :
      Course account parser (account.prepare registry requests parsers world ++
        account.configure prepared engine start)
  | extended {parser : Running H F} {history : List (Change H F)}
      (h : Course account parser history) (registry : Registry H F) (name : String)
      (engine : Engine F) (overrides : Option OptionTree) (world : σ) :
      Course account (parser.extend b registry name engine overrides world).parser
        (history ++ account.extend parser registry name engine overrides world)

theorem Course.reached [DecidableEq H] {account : Account b} {parser : Running H F}
    {history : List (Change H F)} (h : Course account parser history) :
    Reached account parser.active history := by
  induction h with
  | configured hp hc => exact (Reached.prepare account hp).configure hc
  | extended _ registry name engine overrides world ih =>
    exact ih.extend registry name engine overrides world

namespace Account

variable {account : Account b}

/-- Preparing leaves nothing unindexed. -/
theorem unindexed_prepare (account : Account b) (registry : Registry H F)
    (requests : List Request) (parsers : List String) (world : σ) :
    Change.unindexed (account.prepare registry requests parsers world) = [] := by
  simp only [prepare]
  split
  · rfl
  · rw [Change.unindexed_append]
    rfl

/-- What each ready hook leaves unindexed is all that a pass leaves unindexed. -/
theorem forall_unindexed_readyPass {P : Package H F → Prop}
    (h : ∀ hook s, ∀ package ∈ Change.unindexed (account.callReady hook s), P package)
    (hooks : List (ReadyHook H)) (s : Hosted H F σ) :
    ∀ package ∈ Change.unindexed (account.readyPass hooks s), P package := by
  induction hooks generalizing s with
  | nil => exact List.forall_mem_nil P
  | cons hook rest ih =>
    simp only [readyPass, logAll] at ih ⊢
    rcases b.callReady hook s with ⟨flow, s'⟩
    cases flow with
    | stop => exact h hook s
    | proceed => exact Change.forall_unindexed_append (h hook s) (ih s')

/-- An extension rebuilds the index before it calls ready hooks. -/
theorem forall_unindexed_extend [DecidableEq H] {P : Package H F → Prop}
    (h : ∀ hook s, ∀ package ∈ Change.unindexed (account.callReady hook s), P package)
    (parser : Running H F) (registry : Registry H F) (name : String) (engine : Engine F)
    (overrides : Option OptionTree) (world : σ) :
    ∀ package ∈ Change.unindexed (account.extend parser registry name engine overrides world),
      P package := by
  simp only [extend]
  split
  · split
    · rw [settle, Change.unindexed_append]
      exact forall_unindexed_readyPass h _ _
    · exact List.forall_mem_nil P
  · exact List.forall_mem_nil P

end Account

/-- Only ready hooks leave packages unindexed. -/
theorem Course.forall_unindexed [DecidableEq H] {account : Account b} {P : Package H F → Prop}
    (h : ∀ hook s, ∀ package ∈ Change.unindexed (account.callReady hook s), P package)
    {parser : Running H F} {history : List (Change H F)} (hc : Course account parser history) :
    ∀ package ∈ Change.unindexed history, P package := by
  induction hc with
  | configured =>
    refine Change.forall_unindexed_append ?_ ?_
    · rw [account.unindexed_prepare]
      exact List.forall_mem_nil P
    · simp only [Account.configure]
      split
      · exact List.forall_mem_nil P
      · exact Account.forall_unindexed_readyPass h _ _
  | extended _ registry name engine overrides world ih =>
    exact Change.forall_unindexed_append ih
      (Account.forall_unindexed_extend h _ registry name engine overrides world)

/-- A prepared configuration has a fresh index. The index of a parser is that of the handler lists
without the packages that were appended since it was rebuilt. So it is fresh, and lookups walk the
present lists, if every ready hook that appends handler maps rebuilds the index behind them. -/
theorem index_lags_behind_ready_hooks [DecidableEq H] (account : Account b) :
    (∀ registry requests parsers world prepared,
      (Prepared.ofRequests b registry requests parsers world).1 = .ok prepared →
        prepared.active.IndexFresh) ∧
    (∀ parser history, Course account parser history →
      parser.active.IndexedBefore (Change.unindexed history)) ∧
    ((∀ hook s, ∀ package ∈ Change.unindexed (account.callReady hook s),
        package.handlers = .empty) →
      ∀ parser history, Course account parser history →
        parser.active.IndexFresh ∧ ∀ category token claims,
          parser.active.resolve category token claims =
            HandlerIndex.resolveIn (parser.active.handlers.get category) claims token
              (parser.active.fallbacks.get category)) := by
  refine ⟨?_, fun parser history h => h.reached.indexedBefore, fun hready parser history h => ?_⟩
  · intro registry requests parsers world prepared h
    obtain ⟨selected, -, rfl⟩ := Prepared.ofRequests_eq_ok h
    exact Configuration.indexFresh_rebuildIndex _
  · have hfresh : parser.active.IndexFresh :=
      h.reached.indexedBefore.indexFresh (h.forall_unindexed hready)
    exact ⟨hfresh, hfresh.resolve_eq⟩

theorem Sample.handlers_of_unindexed (hook : ReadyHook Hook)
    (s : Hosted Hook Filter (List String)) :
    ∀ package ∈ Change.unindexed (library.account.callReady hook s),
      package.handlers = .empty := by
  have hchanges (hook : Hook) : ∀ package ∈ Change.unindexed (library.changes hook),
      package.handlers = .empty := by
    simp only [ScriptLibrary.changes, library]
    rcases script?_cases hook with h | h | h | h <;> rw [h]
    · exact List.forall_mem_nil _
    · exact List.forall_mem_singleton.2 rfl
    · exact List.forall_mem_nil _
    · exact List.forall_mem_nil _
  cases hook <;> exact hchanges _

open Sample in
/-- `extra` joins `core`, and its handler maps and those that its hooks append are found. -/
theorem extra_index_fresh :
    let c := (running.extend library.behaviour registry "extra" engine none []).parser.active
    (∃ history, Course library.account
        (running.extend library.behaviour registry "extra" engine none []).parser history) ∧
      prepared.active.IndexFresh ∧ c.IndexFresh ∧
      c.resolve .command "let" (fun name _ => name == "extra-macros") = .map "extra-macros" := by
  intro c
  obtain ⟨hprepared, -, hcourse⟩ := index_lags_behind_ready_hooks library.account
  have h : Course library.account
      (running.extend library.behaviour registry "extra" engine none []).parser _ :=
    Course.extended (.configured ofRequests_core configure_prepared) registry "extra" engine none []
  exact ⟨⟨_, h⟩, hprepared _ _ _ _ _ ofRequests_core,
    (hcourse handlers_of_unindexed _ _ h).1, rfl⟩

namespace Sample

/-- `readyHook` appends handler maps and leaves the index alone. -/
def forgetful : ScriptLibrary :=
  ⟨fun hook => if hook = readyHook then some ⟨[.append definitions], .proceed⟩ else none,
    fun _ => none⟩

def late : ScriptedPackage := { bare "late" with ready? := some ⟨.configuration readyHook, 5⟩ }

end Sample

open Sample in
/-- After `late` is prepared and configured, its handler map is on the list but not found. -/
theorem late_map_not_found :
    ∃ prepared parser,
      (Prepared.ofRequests forgetful.behaviour ⟨KeyMap.empty.insert "late" late⟩ [.ofName "late"]
        [defaultParser] []).1 = .ok prepared ∧
      (prepared.configure forgetful.behaviour .empty []).1 = .ok parser ∧
      parser.active.handlers.get .command = ["new-Command"] ∧
      ¬ parser.active.IndexFresh ∧
      parser.active.resolve .command "newcommand" (fun name _ => name == "new-Command") =
        .unhandled := by
  refine ⟨_, _, rfl, rfl, rfl, ?_, rfl⟩
  intro h
  exact absurd (congrArg (fun index => index.maps.get .command) h) (by decide)

end ParserPackages
