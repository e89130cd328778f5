import ParserPackages.Proofs.Parser.Extension
import ParserPackages.Proofs.Script.Account

/-!
# The history of a parser

Preparing, configuring and extending make changes to a configuration that the packages and the
account of their hooks determine. So what they make of a reachable configuration is reachable, and
is the merge of the packages appended up to then.
-/
namespace ParserPackages

variable {H F σ : Type} {b : Behaviour H F σ}

/-- The changes that a package makes as it joins: it is appended and its own init hook runs. -/
def Account.join (account : Account b) (c : Configuration H F) (package : Package H F)
    (world : σ) : List (Change H F) :=
  .append package :: match package.init? with
    | none => []
    | some hook => account.onConfiguration hook.item (c.append package, world)

theorem Account.join_eq (account : Account b) (c : Configuration H F) (package : Package H F)
    (world : σ) :
    (c.join b package world).1 = c.applyAll (account.join c package world) := by
  simp only [Configuration.join, Account.join, Configuration.applyAll_cons]
  cases package.init? with
  | none => rfl
  | some hook => exact account.onConfiguration_eq hook.item (c.append package, world)

/-- The changes that lead to a prepared configuration: the selected packages are appended in the
order of their priorities, the init chain runs and the index is rebuilt. -/
def Account.prepare (account : Account b) (registry : Registry H F) (requests : List Request)
    (parsers : List String) (world : σ) : List (Change H F) :=
  match registry.select parsers [] requests with
  | .error _ => []
  | .ok selected =>
    let packages := (RankedList.ofEntries selected).items
    let merged := Configuration.empty.appendAll packages
    packages.map .append ++ account.initPass merged.initChain.items (merged, world) ++
      [.rebuildIndex]

def Account.configure (account : Account b) (prepared : Prepared H F) (engine : Engine F)
    (world : σ) : List (Change H F) :=
  match engine.applyOptions prepared.active.options none with
  | .error _ => []
  | .ok applied =>
    account.readyPass prepared.active.readyChain.items ⟨prepared.active, applied, world⟩

/-- The changes of a package that joins and of the ready hooks that it queued. -/
def Account.settle [DecidableEq H] (account : Account b) (c : Configuration H F)
    (package : Package H F) (applied : Engine F) (world : σ) : List (Change H F) :=
  let joined := c.join b package world
  account.join c package world ++ .rebuildIndex ::
    account.readyPass (Chain.queuedSince c.readyChain joined.1.readyChain).items
      ⟨joined.1.rebuildIndex, applied, joined.2⟩

theorem Account.settle_eq [DecidableEq H] (account : Account b) (c : Configuration H F)
    (package : Package H F) (applied : Engine F) (world : σ) :
    (c.settle b package applied world).configuration =
      c.applyAll (account.settle c package applied world) := by
  simp only [Configuration.settle, Account.settle]
  rw [Configuration.applyAll_append, Configuration.applyAll_cons, ← account.join_eq]
  exact account.readyPass_eq _ _

/-- Joining begins with appending the package, and goes on with changes of its hook. -/
theorem Account.OnlyMakes.join {account : Account b} {P : Change H F → Prop}
    (h : account.OnlyMakes P) (c : Configuration H F) (package : Package H F) (world : σ) :
    ∃ changes, account.join c package world = .append package :: changes ∧
      ∀ change ∈ changes, P change := by
  refine ⟨_, rfl, ?_⟩
  cases package.init? with
  | none => exact List.forall_mem_nil P
  | some hook => exact h.onConfiguration hook.item _

theorem Account.OnlyMakes.settle [DecidableEq H] {account : Account b} {P : Change H F → Prop}
    (h : account.OnlyMakes P) (hi : P .rebuildIndex) (c : Configuration H F)
    (package : Package H F) (applied : Engine F) (world : σ) :
    ∃ changes, account.settle c package applied world = .append package :: changes ∧
      ∀ change ∈ changes, P change := by
  obtain ⟨changes, hjoin, hchanges⟩ := h.join c package world
  simp only [Account.settle, hjoin, List.cons_append]
  exact ⟨_, rfl, List.forall_mem_append.2 ⟨hchanges, List.forall_mem_cons.2 ⟨hi, h.readyPass _ _⟩⟩⟩

/-- The changes that an extension makes: none unless the package is added. -/
def Account.extend [DecidableEq H] (account : Account b) (parser : Running H F)
    (registry : Registry H F) (name : String) (engine : Engine F) (overrides : Option OptionTree)
    (world : σ) : List (Change H F) :=
  match (parser.extend b registry name engine overrides world).outcome, registry.lookup? name with
  | .ok true, some package =>
    match engine.applyOptions (parser.active.join b package world).1.options overrides with
    | .ok applied => account.settle parser.active package applied world
    | .error _ => []
  | _, _ => []

namespace Reached

variable {account : Account b} {c : Configuration H F} {history : List (Change H F)}

theorem settle [DecidableEq H] (h : Reached account c history) (package : Package H F)
    (applied : Engine F) (world : σ) :
    Reached account (c.settle b package applied world).configuration
      (history ++ account.settle c package applied world) := by
  rw [account.settle_eq]
  exact h.applyAll _

theorem prepare (account : Account b) {registry : Registry H F} {requests : List Request}
    {parsers : List String} {world : σ} {prepared : Prepared H F}
    (h : (Prepared.ofRequests b registry requests parsers world).1 = .ok prepared) :
    Reached account prepared.active (account.prepare registry requests parsers world) := by
  obtain ⟨selected, hs, rfl⟩ := Prepared.ofRequests_eq_ok h
  have hempty : Reached account Configuration.empty [] := .empty
  have hr := (hempty.applyAll ((RankedList.ofEntries selected).items.map .append)).runInit world
  rw [List.nil_append, ← Configuration.appendAll_eq_applyAll] at hr
  simp only [Account.prepare, hs]
  exact hr.change .rebuildIndex

theorem configure {prepared : Prepared H F} (h : Reached account prepared.active history)
    {engine : Engine F} {world : σ} {parser : Running H F}
    (hc : (prepared.configure b engine world).1 = .ok parser) :
    Reached account parser.active (history ++ account.configure prepared engine world) := by
  obtain ⟨applied, ha, rfl, -⟩ := Prepared.configure_eq_ok hc
  simp only [Account.configure, ha]
  exact h.runReady applied world

theorem extend [DecidableEq H] {parser : Running H F} (h : Reached account parser.active history)
    (registry : Registry H F) (name : String) (engine : Engine F) (overrides : Option OptionTree)
    (world : σ) :
    Reached account (parser.extend b registry name engine overrides world).parser.active
      (history ++ account.extend parser registry name engine overrides world) := by
  have hsame : Reached account parser.active (history ++ []) := by simpa using h
  have he := Running.extended b parser registry name engine overrides world
  simp only [Account.extend]
  generalize parser.extend b registry name engine overrides world = step at he ⊢
  cases he with
  | unknown | present | foreign | undeclared => exact hsame
  | added hl _ _ ho hs =>
    simp only [hl, ho]
    rw [← hs]
    exact h.settle _ _ world

end Reached

/-- Every reachable configuration is what the packages appended to it amount to, in the order of
their appending, and an option that no edit touches has its first default. Preparing, configuring
and extending keep a configuration reachable. -/
theorem reached_is_merge_of_appended [DecidableEq H] (account : Account b) :
    (∀ c history, Reached account c history →
      c.IsMergeOf (Change.appended history) ∧
        ∀ name, Change.Spares history name →
          c.options.get? name = (Change.appended history).findSome? (·.options.get? name)) ∧
    (∀ registry requests parsers world prepared,
      (Prepared.ofRequests b registry requests parsers world).1 = .ok prepared →
        Reached account prepared.active (account.prepare registry requests parsers world)) ∧
    (∀ prepared history engine world parser, Reached account prepared.active history →
      (prepared.configure b engine world).1 = .ok parser →
        Reached account parser.active (history ++ account.configure prepared engine world)) ∧
    ∀ parser history registry name engine overrides world, Reached account parser.active history →
      Reached account (parser.extend b registry name engine overrides world).parser.active
        (history ++ account.extend parser registry name engine overrides world) := by
  refine ⟨fun c history h => ⟨h.isMergeOf, fun name hs => h.get?_options hs⟩, ?_, ?_, ?_⟩
  · intro registry requests parsers world prepared h
    exact Reached.prepare account h
  · intro prepared history engine world parser h hc
    exact h.configure hc
  · intro parser history registry name engine overrides world h
    exact h.extend registry name engine overrides world

open Sample in
/-- `core` is prepared and configured and `extra` joins it, and their hooks append more. -/
theorem core_extra_merge :
    let c := (running.extend library.behaviour registry "extra" engine none []).parser.active
    Reached library.account c
        [.append core, .append definitions, .rebuildIndex, .rebuildIndex, .append lateDefinitions,
          .append extra, .append definitions, .rebuildIndex, .rebuildIndex,
          .append lateDefinitions] ∧
      c.handlers.get .command = ["new-Command", "extra-macros", "new-Command", "core-macros"] ∧
      c.stackItems.get? "array" = some (.named 2 "new.ArrayItem") ∧
      c.packages = ["core", localName, localName, "extra", localName, localName] ∧
      c.options.get? "width" = some (.int 1) := by
  intro c
  obtain ⟨hmerge, hprepare, hconfigure, hextend⟩ := reached_is_merge_of_appended library.account
  have hp := hprepare _ _ _ _ _ ofRequests_core
  have hc := hconfigure _ _ _ _ _ hp configure_prepared
  have he : Reached library.account c
      [.append core, .append definitions, .rebuildIndex, .rebuildIndex, .append lateDefinitions,
        .append extra, .append definitions, .rebuildIndex, .rebuildIndex,
        .append lateDefinitions] :=
    hextend _ _ registry "extra" engine none [] hc
  obtain ⟨hm, ho⟩ := hmerge _ _ he
  refine ⟨he, (hm.handlers .command).trans rfl, (hm.stackItems "array").trans rfl,
    hm.packages.trans rfl, (ho "width" ?_).trans rfl⟩
  intro edit he
  simp at he

end ParserPackages
