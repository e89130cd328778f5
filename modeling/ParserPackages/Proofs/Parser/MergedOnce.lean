import ParserPackages.Proofs.Parser.Indexing
import ParserPackages.Proofs.Parser.Selection

/-!
# Names of merged packages

A selection has one package for each name, and an extension adds no package whose name is there.
Both go by the name that a package has and not by the one that it was asked for by. So a name
other than that of local packages is there once at most, as long as hooks append local packages
only.
-/
namespace ParserPackages

variable {H F σ : Type} {b : Behaviour H F σ}

/-- If the change appends a package, it is a local one. -/
def Change.AppendsLocal (change : Change H F) : Prop :=
  ∀ package ∈ change.package?, package.name = localName

namespace Configuration

/-- Only local packages share their name. -/
def MergedOnce (c : Configuration H F) : Prop :=
  ∀ name, name ≠ localName → c.packages.count name ≤ 1

/-- Local packages do not count. -/
theorem count_packages_applyAll (c : Configuration H F) {changes : List (Change H F)}
    (h : ∀ change ∈ changes, change.AppendsLocal) {name : String} (hn : name ≠ localName) :
    (c.applyAll changes).packages.count name = c.packages.count name := by
  have hlocal : ((Change.appended changes).map (·.name)).count name = 0 := by
    rw [List.count_eq_zero, List.mem_map]
    rintro ⟨package, hp, rfl⟩
    obtain ⟨change, hc, hpackage⟩ := List.mem_filterMap.1 hp
    exact hn (h change hc package hpackage)
  rw [(c.growsBy_applyAll changes).packages, List.count_append, hlocal, Nat.add_zero]

theorem count_packages_append (c : Configuration H F) (package : Package H F) (name : String) :
    (c.append package).packages.count name =
      c.packages.count name + if package.name = name then 1 else 0 := by
  rw [append_eq, List.count_append, List.count_singleton]
  simp

theorem count_packages_of_not_contains {c : Configuration H F} {name : String}
    (h : c.containsPackage name = false) : c.packages.count name = 0 := by
  simpa [containsPackage, List.count_eq_zero] using h

end Configuration

/-- What an extension adds to the names: that of its package, and that of local packages. -/
theorem Account.OnlyMakes.count_settle [DecidableEq H] {account : Account b}
    (h : account.OnlyMakes Change.AppendsLocal) (c : Configuration H F) (package : Package H F)
    (applied : Engine F) (world : σ) {name : String} (hn : name ≠ localName) :
    (c.settle b package applied world).configuration.packages.count name =
      c.packages.count name + if package.name = name then 1 else 0 := by
  obtain ⟨changes, hsettle, hlocal⟩ := h.settle (by simp [Change.AppendsLocal, Change.package?])
    c package applied world
  rw [account.settle_eq, hsettle, Configuration.applyAll_cons,
    Configuration.count_packages_applyAll _ hlocal hn]
  exact c.count_packages_append package name

theorem Account.OnlyMakes.count_ofRequests {account : Account b}
    (h : account.OnlyMakes Change.AppendsLocal) {registry : Registry H F}
    {requests : List Request} {parsers : List String} {world : σ} {prepared : Prepared H F}
    (hp : (Prepared.ofRequests b registry requests parsers world).1 = .ok prepared)
    {name : String} (hn : name ≠ localName) :
    prepared.active.packages.count name =
      ((registry.ordered requests).map (·.name)).count name := by
  rw [Prepared.ofRequests_of_accepted (Prepared.accepted_of_ofRequests hp)] at hp
  obtain rfl := Except.ok.inj hp
  let merged : Configuration H F := .appendAll .empty (registry.ordered requests)
  calc (merged.runInit b world).2.1.packages.count name
      = merged.packages.count name := by
        rw [show (merged.runInit b world).2.1 = _ from account.initPass_eq _ _]
        exact merged.count_packages_applyAll (h.initPass _ _) hn
    _ = ((registry.ordered requests).map (·.name)).count name :=
        congrArg _ (Configuration.empty.growsBy_appendAll (registry.ordered requests)).packages

theorem Account.OnlyMakes.count_configure {account : Account b}
    (h : account.OnlyMakes Change.AppendsLocal) {prepared : Prepared H F} {engine : Engine F}
    {world : σ} {parser : Running H F}
    (hc : (prepared.configure b engine world).1 = .ok parser) {name : String}
    (hn : name ≠ localName) :
    parser.active.packages.count name = prepared.active.packages.count name := by
  obtain ⟨applied, -, rfl, -⟩ := Prepared.configure_eq_ok hc
  have hrun := account.readyPass_eq prepared.active.readyChain.items
    ⟨prepared.active, applied, world⟩
  exact (congrArg (·.packages.count name) hrun).trans
    (prepared.active.count_packages_applyAll (h.readyPass _ _) hn)

/-- The name of a package that an extension adds was not there before. -/
theorem Account.OnlyMakes.mergedOnce_extend [DecidableEq H] {account : Account b}
    (h : account.OnlyMakes Change.AppendsLocal) {parser : Running H F}
    (hp : parser.active.MergedOnce) (registry : Registry H F) (name : String) (engine : Engine F)
    (overrides : Option OptionTree) (world : σ) :
    (parser.extend b registry name engine overrides world).parser.active.MergedOnce := by
  have he := Running.extended b parser registry name engine overrides world
  generalize parser.extend b registry name engine overrides world = step at he ⊢
  cases he with
  | unknown | present | foreign | undeclared => exact hp
  | @added package applied hosted _ hnew _ _ hs =>
    intro other hn
    rw [← hs, h.count_settle _ _ _ _ hn]
    by_cases ho : package.name = other
    · rw [← ho, Configuration.count_packages_of_not_contains hnew]
      simp
    · rw [if_neg ho]
      exact hp other hn

/-- A package whose name is there is not added, whatever it was asked for by. -/
theorem Running.extend_of_merged [DecidableEq H] {parser : Running H F} {registry : Registry H F}
    {name : String} {package : Package H F} (hl : registry.lookup? name = some package)
    (hm : package.name ∈ parser.active.packages) (engine : Engine F)
    (overrides : Option OptionTree) (world : σ) :
    parser.extend b registry name engine overrides world = ⟨.ok false, parser, engine, world⟩ := by
  simp [extend, hl, Configuration.containsPackage, hm]

theorem Account.OnlyMakes.count_extend [DecidableEq H] {account : Account b}
    (h : account.OnlyMakes Change.AppendsLocal) {parser : Running H F} {registry : Registry H F}
    {name : String} {package : Package H F} (hl : registry.lookup? name = some package)
    {engine : Engine F} {overrides : Option OptionTree} {world : σ}
    (ho : (parser.extend b registry name engine overrides world).outcome = .ok true) :
    package.name ∉ parser.active.packages ∧ ∀ other, other ≠ localName →
      (parser.extend b registry name engine overrides world).parser.active.packages.count other =
        parser.active.packages.count other + if package.name = other then 1 else 0 := by
  have he := Running.extended b parser registry name engine overrides world
  generalize parser.extend b registry name engine overrides world = step at he ho ⊢
  cases he with
  | unknown | present | foreign | undeclared => cases ho
  | @added package' applied hosted hl' hnew _ _ hs =>
    obtain rfl : package = package' := Option.some.inj (hl.symm.trans hl')
    refine ⟨by simpa [Configuration.containsPackage] using hnew, fun other hn => ?_⟩
    rw [← hs]
    exact h.count_settle _ _ _ _ hn

/-- As long as hooks append local packages only, no other name occurs twice among the packages of a
prepared configuration, and none among those of a parser after any extensions, whatever registries
these are handed and whatever comes of them. Preparing merges the names that are selected. An
extension goes by the name that its package has: it adds the package if that name is missing, and
nothing if it is there. -/
theorem packages_merged_once [DecidableEq H] (account : Account b)
    (h : account.OnlyMakes Change.AppendsLocal) :
    (∀ registry requests parsers world prepared,
      (Prepared.ofRequests b registry requests parsers world).1 = .ok prepared →
        ∀ name, name ≠ localName → prepared.active.packages.count name =
          if ∃ e ∈ registry.selection requests, e.item.name = name then 1 else 0) ∧
    (∀ parser history, Course account parser history →
      ∀ name, name ≠ localName → parser.active.packages.count name ≤ 1) ∧
    ∀ (parser : Running H F) (registry : Registry H F) (name : String) (engine : Engine F)
        (overrides : Option OptionTree) (world : σ) (package : Package H F),
      registry.lookup? name = some package →
        let step := parser.extend b registry name engine overrides world
        (package.name ∈ parser.active.packages →
          step.outcome = .ok false ∧ step.parser = parser) ∧
        (step.outcome = .ok true → package.name ∉ parser.active.packages ∧
          ∀ other, other ≠ localName → step.parser.active.packages.count other =
            parser.active.packages.count other + if package.name = other then 1 else 0) := by
  refine ⟨fun registry requests parsers world prepared hp name hn => ?_,
    fun parser history hc => ?_, fun parser registry name engine overrides world package hl => ?_⟩
  · rw [h.count_ofRequests hp hn, (registry.nodup_ordered requests).count]
    simp [Registry.ordered, Ranked.mem_sort]
  · change parser.active.MergedOnce
    induction hc with
    | @configured registry requests _ _ _ prepared _ _ hp hc =>
      intro name hn
      rw [h.count_configure hc hn, h.count_ofRequests hp hn]
      exact List.nodup_iff_count.1 (registry.nodup_ordered requests) name
    | extended _ registry name engine overrides world ih =>
      exact h.mergedOnce_extend ih registry name engine overrides world
  · intro step
    refine ⟨fun hm => ?_, fun ho => h.count_extend hl ho⟩
    have hstep : step = _ := Running.extend_of_merged hl hm engine overrides world
    rw [hstep]
    exact ⟨rfl, rfl⟩

namespace Sample

def rival : ScriptedPackage := { extra with name := "core", init? := none }

/-- `core` has a second key, and `rival` has one. -/
def rivals : Registry Hook Filter :=
  ⟨(registry.entries.insert "kernel" core).insert "rival" rival⟩

/-- The key of `core` has been given to `rival`, and that of `extra` to `core`. -/
def exchanged : Registry Hook Filter :=
  ⟨(rivals.entries.insert "core" rival).insert "extra" core⟩

theorem onlyMakes_appendsLocal : library.account.OnlyMakes Change.AppendsLocal := by
  refine ScriptLibrary.onlyMakes fun hook => ?_
  simp only [ScriptLibrary.changes, library]
  rcases script?_cases hook with h | h | h | h <;> rw [h] <;>
    simp [Script.changes, Action.changes, Change.AppendsLocal, Change.package?, definitions,
      lateDefinitions, bare]

end Sample

open Sample in
/-- `core` is prepared under two of its keys and `rival` under its own. Then `core` is asked for by
each key that it has or had, in between `extra` joins, and it is asked for, too. -/
theorem rival_not_merged :
    let requests : List Request := [.ofName "kernel", .ofName "rival", .ofName "core"]
    let extend (parser : Running Hook Filter) (registry : Registry Hook Filter) (name : String) :=
      parser.extend library.behaviour registry name engine none []
    let renamed := extend running exchanged "extra"
    let added := extend renamed.parser rivals "extra"
    let again := extend added.parser exchanged "rival"
    (∃ prepared, (Prepared.ofRequests library.behaviour rivals requests [defaultParser] []).1 =
        .ok prepared ∧ prepared.active.packages.count "core" = 1 ∧
        prepared.active.packages.count "extra" = 0) ∧
      renamed.outcome = .ok false ∧ added.outcome = .ok true ∧ again.outcome = .ok false ∧
      again.parser.active.packages =
        ["core", localName, localName, "extra", localName, localName] ∧
      "core" ≠ localName ∧ again.parser.active.packages.count "core" ≤ 1 := by
  intro requests extend renamed added again
  obtain ⟨hprepared, hcourse, hextend⟩ := packages_merged_once library.account
    onlyMakes_appendsLocal
  have hrun : Course library.account again.parser _ :=
    (((Course.configured ofRequests_core configure_prepared).extended exchanged "extra" engine none
      []).extended rivals "extra" engine none []).extended exchanged "rival" engine none []
  have hcount := hprepared rivals requests [defaultParser] [] _ rfl
  exact ⟨⟨_, rfl, (hcount "core" (by decide)).trans rfl, (hcount "extra" (by decide)).trans rfl⟩,
    ((hextend running exchanged "extra" engine none [] core rfl).1 (by decide)).1, rfl, rfl, rfl,
    by decide, hcourse _ _ hrun "core" (by decide)⟩

end ParserPackages
