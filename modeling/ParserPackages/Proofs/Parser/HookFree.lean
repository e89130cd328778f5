import ParserPackages.Proofs.Configuration.Lookup
import ParserPackages.Proofs.Parser.Selection

/-!
# Packages without hooks

Where no package has hooks, preparing, configuring and extending come to appending packages one
after the other and rebuilding the index. So what a lookup finds can be said of these packages: the
latest that claims the token wins.
-/
namespace ParserPackages

variable {H F σ : Type} {b : Behaviour H F σ}

structure Package.HookFree (package : Package H F) : Prop where
  init? : package.init? = none
  ready? : package.ready? = none

namespace Configuration

variable {packages : List (Package H F)}

theorem initChain_appendAll (c : Configuration H F)
    (h : ∀ package ∈ packages, package.HookFree) :
    (c.appendAll packages).initChain = c.initChain := by
  have hnone : packages.filterMap (·.init?) = [] :=
    List.filterMap_eq_nil_iff.2 fun package hp => (h package hp).init?
  rw [(c.growsBy_appendAll packages).initChain, hnone]
  rfl

theorem readyChain_appendAll (c : Configuration H F)
    (h : ∀ package ∈ packages, package.HookFree) :
    (c.appendAll packages).readyChain = c.readyChain := by
  have hnone : packages.filterMap (·.ready?) = [] :=
    List.filterMap_eq_nil_iff.2 fun package hp => (h package hp).ready?
  rw [(c.growsBy_appendAll packages).readyChain, hnone]
  rfl

/-- A package without hooks joins and is indexed, and that is all. -/
theorem settle_hookFree [DecidableEq H] (c : Configuration H F) {package : Package H F}
    (h : package.HookFree) (applied : Engine F) (world : σ) :
    c.settle b package applied world = ⟨(c.append package).rebuildIndex, applied, world⟩ := by
  have hjoin : c.join b package world = (c.append package, world) := by
    simp only [join, h.init?]
  have hchain : (c.append package).readyChain = c.readyChain := by
    rw [append_eq, h.ready?]
    rfl
  simp only [settle, hjoin, hchain, Chain.queuedSince_self]
  rfl

end Configuration

theorem Registry.hookFree_ordered {registry : Registry H F} {requests : List Request}
    (h : ∀ e ∈ registry.selection requests, e.item.HookFree) :
    ∀ package ∈ registry.ordered requests, package.HookFree := by
  intro package hp
  obtain ⟨e, he, rfl⟩ := mem_ordered.1 hp
  exact h e he

theorem Prepared.ofRequests_hookFree {registry : Registry H F} {requests : List Request}
    {parsers : List String} {world : σ} {prepared : Prepared H F}
    (hf : ∀ e ∈ registry.selection requests, e.item.HookFree)
    (hp : (ofRequests b registry requests parsers world).1 = .ok prepared) :
    prepared = ⟨(Configuration.empty.appendAll (registry.ordered requests)).rebuildIndex,
        parsers⟩ ∧
      (ofRequests b registry requests parsers world).2 = world := by
  have hrun : (Configuration.empty.appendAll (registry.ordered requests)).runInit b world =
      (.proceed, Configuration.empty.appendAll (registry.ordered requests), world) := by
    simp only [Configuration.runInit,
      Configuration.initChain_appendAll _ (Registry.hookFree_ordered hf)]
    rfl
  have haccepted := accepted_of_ofRequests hp
  rw [ofRequests_of_accepted haccepted] at hp ⊢
  simp only [hrun] at hp ⊢
  exact ⟨(Except.ok.inj hp).symm, trivial⟩

theorem Prepared.configure_hookFree {prepared : Prepared H F} {engine : Engine F} {world : σ}
    {parser : Running H F} (hr : prepared.active.readyChain = .empty)
    (hc : (prepared.configure b engine world).1 = .ok parser) :
    ∃ applied, engine.applyOptions prepared.active.options none = .ok applied ∧
      parser = ⟨prepared.active, prepared.parsers⟩ ∧
      (prepared.configure b engine world).2 =
        (applied.install prepared.active.preprocessors prepared.active.postprocessors, world) := by
  obtain ⟨applied, ha, -, -⟩ := configure_eq_ok hc
  have hrun : Configuration.runReady b ⟨prepared.active, applied, world⟩ =
      (.proceed, ⟨prepared.active, applied, world⟩) := by
    simp only [Configuration.runReady, hr]
    rfl
  simp only [configure, ha, hrun] at hc ⊢
  exact ⟨applied, rfl, (Except.ok.inj hc).symm, rfl⟩

/-- The parsers that come about where no package has hooks, each with the packages merged into it,
in order. Extensions that add nothing may come in between. -/
inductive HookFreeCourse [DecidableEq H] (b : Behaviour H F σ) :
    Running H F → List (Package H F) → Prop
  | configured {registry : Registry H F} {requests : List Request} {parsers : List String}
      {world start : σ} {prepared : Prepared H F} {engine : Engine F} {parser : Running H F}
      (hf : ∀ e ∈ registry.selection requests, e.item.HookFree)
      (hp : (Prepared.ofRequests b registry requests parsers world).1 = .ok prepared)
      (hc : (prepared.configure b engine start).1 = .ok parser) :
      HookFreeCourse b parser (registry.ordered requests)
  | extended {parser : Running H F} {packages : List (Package H F)}
      (h : HookFreeCourse b parser packages) {registry : Registry H F} {name : String}
      {package : Package H F} {engine : Engine F} {overrides : Option OptionTree} {world : σ}
      (hl : registry.lookup? name = some package) (hf : package.HookFree)
      (ho : (parser.extend b registry name engine overrides world).outcome = .ok true) :
      HookFreeCourse b (parser.extend b registry name engine overrides world).parser
        (packages ++ [package])
  | unextended {parser : Running H F} {packages : List (Package H F)}
      (h : HookFreeCourse b parser packages) {registry : Registry H F} {name : String}
      {engine : Engine F} {overrides : Option OptionTree} {world : σ}
      (ho : (parser.extend b registry name engine overrides world).outcome ≠ .ok true) :
      HookFreeCourse b (parser.extend b registry name engine overrides world).parser packages

/-- Without hooks a parser is what its packages amount to, with a fresh index. -/
theorem HookFreeCourse.active_eq [DecidableEq H] {parser : Running H F}
    {packages : List (Package H F)} (h : HookFreeCourse b parser packages) :
    parser.active = (Configuration.empty.appendAll packages).rebuildIndex := by
  induction h with
  | @configured registry requests _ _ _ prepared _ _ hf hp hc =>
    obtain ⟨rfl, -⟩ := Prepared.ofRequests_hookFree hf hp
    have hchain := Configuration.readyChain_appendAll (.empty : Configuration H F)
      (Registry.hookFree_ordered hf)
    obtain ⟨applied, -, rfl, -⟩ := Prepared.configure_hookFree hchain hc
    rfl
  | @extended parser packages h registry name package engine overrides world hl hf ho ih =>
    have he := Running.extended b parser registry name engine overrides world
    generalize parser.extend b registry name engine overrides world = step at he ho ⊢
    cases he with
    | unknown | present | foreign | undeclared => cases ho
    | @added package' applied hosted hl' _ _ _ hs =>
      obtain rfl : package = package' := Option.some.inj (hl.symm.trans hl')
      rw [← hs, Configuration.settle_hookFree _ hf, ih, Configuration.rebuildIndex_append,
        Configuration.appendAll_append]
      rfl
  | @unextended parser packages h registry name engine overrides world ho ih =>
    have he := Running.extended b parser registry name engine overrides world
    generalize parser.extend b registry name engine overrides world = step at he ho ⊢
    cases he with
    | unknown | present | foreign | undeclared => exact ih
    | added => exact absurd rfl ho

private theorem findSome?_reverse_eq_none_iff {α β : Type} {f : α → Option β} {l : List α} :
    l.reverse.findSome? f = none ↔ ∀ x ∈ l, f x = none := by
  simp

private theorem findSome?_reverse_of_latest {α β : Type} {f : α → Option β}
    {l earlier later : List α} {a : α} {v : β} (h : l = earlier ++ a :: later)
    (hl : ∀ x ∈ later, f x = none) (ha : f a = some v) : l.reverse.findSome? f = some v := by
  have hnone : later.reverse.findSome? f = none := findSome?_reverse_eq_none_iff.2 hl
  rw [h, List.reverse_append, List.reverse_cons, List.append_assoc, List.findSome?_append, hnone]
  simp [ha]

theorem HookFreeCourse.resolve_eq [DecidableEq H] {parser : Running H F}
    {packages : List (Package H F)} (h : HookFreeCourse b parser packages) (category : Category)
    (token : String) (claims : Claims) :
    parser.active.resolve category token claims =
      match packages.reverse.findSome? fun p =>
          (p.handlers.get category).find? (claims · token) with
      | some map => .map map
      | none =>
        match packages.reverse.findSome? (·.fallbacks.get category) with
        | some rule => .fallback rule
        | none => .unhandled := by
  have hgrows := Configuration.empty.growsBy_appendAll packages
  have hhandlers : parser.active.handlers.get category =
      packages.reverse.flatMap (·.handlers.get category) := by
    rw [h.active_eq]
    exact hgrows.isMergeOf.handlers category
  have hfallbacks : parser.active.fallbacks.get category =
      packages.reverse.findSome? (·.fallbacks.get category) := by
    rw [h.active_eq]
    exact hgrows.isMergeOf.fallbacks category
  have hfresh : parser.active.IndexFresh := by
    rw [h.active_eq]
    exact Configuration.indexFresh_rebuildIndex _
  have hmaps : (packages.reverse.flatMap (·.handlers.get category)).find? (claims · token) =
      packages.reverse.findSome? fun p => (p.handlers.get category).find? (claims · token) :=
    List.find?_flatMap
  rw [hfresh.resolve_eq, hhandlers, hfallbacks, ← hmaps]
  rfl

/-- Without hooks, a lookup finds the first map that claims the token among those of the latest
package that has such a map for the category. If no package has one, it finds the rule of the
latest package that has a rule for the category, and nothing exactly if there is none either. -/
theorem resolve_latest_claiming [DecidableEq H] {parser : Running H F}
    {packages : List (Package H F)} (h : HookFreeCourse b parser packages) (category : Category)
    (token : String) (claims : Claims) :
    let found := parser.active.resolve category token claims
    parser.active.packages = packages.map (·.name) ∧
      (∀ earlier package later map, packages = earlier ++ package :: later →
        (∀ p ∈ later, ∀ m ∈ p.handlers.get category, claims m token = false) →
        (package.handlers.get category).find? (claims · token) = some map →
        found = .map map) ∧
      ((∀ p ∈ packages, ∀ m ∈ p.handlers.get category, claims m token = false) →
        ∀ earlier package later rule, packages = earlier ++ package :: later →
          (∀ p ∈ later, p.fallbacks.get category = none) →
          package.fallbacks.get category = some rule → found = .fallback rule) ∧
      (found = .unhandled ↔ ∀ p ∈ packages,
        (∀ m ∈ p.handlers.get category, claims m token = false) ∧
          p.fallbacks.get category = none) := by
  intro found
  have hfound : found = _ := h.resolve_eq category token claims
  have hnone (p : Package H F) : (p.handlers.get category).find? (claims · token) = none ↔
      ∀ m ∈ p.handlers.get category, claims m token = false := by simp
  refine ⟨?_, fun earlier package later map hl hlater hmap => ?_,
    fun hmaps earlier package later rule hl hlater hrule => ?_, ?_⟩
  · rw [h.active_eq]
    exact (Configuration.empty.growsBy_appendAll packages).packages
  · rw [hfound, findSome?_reverse_of_latest hl (fun p hp => (hnone p).2 (hlater p hp)) hmap]
  · have hnomap : packages.reverse.findSome? (fun p =>
        (p.handlers.get category).find? (claims · token)) = none :=
      findSome?_reverse_eq_none_iff.2 fun p hp => (hnone p).2 (hmaps p hp)
    rw [hfound, hnomap, findSome?_reverse_of_latest hl hlater hrule]
  · have hall : (∀ p ∈ packages, (∀ m ∈ p.handlers.get category, claims m token = false) ∧
          p.fallbacks.get category = none) ↔
        packages.reverse.findSome? (fun p =>
          (p.handlers.get category).find? (claims · token)) = none ∧
        packages.reverse.findSome? (·.fallbacks.get category) = none := by
      rw [findSome?_reverse_eq_none_iff, findSome?_reverse_eq_none_iff]
      exact ⟨fun h => ⟨fun p hp => (hnone p).2 (h p hp).1, fun p hp => (h p hp).2⟩,
        fun h p hp => ⟨(hnone p).1 (h.1 p hp), h.2 p hp⟩⟩
    rw [hfound, hall]
    cases packages.reverse.findSome? fun p => (p.handlers.get category).find? (claims · token) with
    | some map => simp
    | none => cases packages.reverse.findSome? (·.fallbacks.get category) <;> simp

namespace Sample

def base : ScriptedPackage :=
  { bare "base" with
    handlers := ⟨[], [], ["macros", "shared"], []⟩
    fallbacks := ⟨none, none, some (.named 0 "base.undefined"), none⟩
    options := OptionTree.empty.set "width" (.int 1)
    preprocessors := [⟨pushing "b", none⟩] }

def ams : ScriptedPackage :=
  { bare "ams" with handlers := ⟨[], [], ["ams-macros", "shared"], []⟩ }

def tikz : ScriptedPackage :=
  { bare "tikz" with
    handlers := ⟨[], [], [], ["tikz-environments"]⟩
    fallbacks := ⟨none, none, some (.named 1 "tikz.undefined"), none⟩ }

def hookFreeRegistry : Registry Hook Filter :=
  ⟨((KeyMap.empty.insert "ams" ams).insert "base" base).insert "tikz" tikz⟩

/-- Both maps of `base` claim `frac`, and one of them claims `let`. -/
def fracClaims : Claims := fun map token =>
  token == "frac" && (map == "macros" || map == "shared") || token == "let" && map == "macros"

/-- `ams` is merged behind `base`, although it was asked for first. -/
def hookFreeRequests : List Request := [⟨"ams", some 6⟩, .ofName "base"]

def hookFree : Prepared Hook Filter :=
  ⟨((Configuration.empty.append base).append ams).rebuildIndex, [defaultParser]⟩

theorem hookFreeCourse : HookFreeCourse library.behaviour ⟨hookFree.active, [defaultParser]⟩
    [base, ams] := by
  have hselection : hookFreeRegistry.selection hookFreeRequests = [⟨ams, 6⟩, ⟨base, 5⟩] := rfl
  have hf : ∀ e ∈ hookFreeRegistry.selection hookFreeRequests, e.item.HookFree := by
    rw [hselection]
    exact List.forall_mem_cons.2 ⟨⟨rfl, rfl⟩, List.forall_mem_singleton.2 ⟨rfl, rfl⟩⟩
  have hp : (Prepared.ofRequests library.behaviour hookFreeRegistry hookFreeRequests
      [defaultParser] []).1 = .ok hookFree := rfl
  have hc : (hookFree.configure library.behaviour .empty []).1 =
      .ok ⟨hookFree.active, [defaultParser]⟩ := rfl
  have horder : hookFreeRegistry.ordered hookFreeRequests = [base, ams] :=
    (RankedList.items_ofEntries _).symm.trans rfl
  rw [← horder]
  exact .configured hf hp hc

end Sample

open Sample in
/-- `tikz` joins `base` and `ams`, after a failed attempt to add a package that nobody has. The map
that `ams` shares with `base` is asked before the other map of `base`. -/
theorem ams_shadows_base :
    let attempt := Running.extend library.behaviour ⟨hookFree.active, [defaultParser]⟩
      hookFreeRegistry "missing" .empty none []
    let extension := attempt.parser.extend library.behaviour hookFreeRegistry "tikz" .empty none []
    let parser := extension.parser
    HookFreeCourse library.behaviour parser [base, ams, tikz] ∧
      attempt.outcome = .error (.unknownPackage "missing") ∧
      extension.outcome = .ok true ∧
      parser.active.packages = ["base", "ams", "tikz"] ∧
      parser.active.resolve .command "frac" fracClaims = .map "shared" ∧
      parser.active.resolve .command "let" fracClaims = .map "macros" ∧
      parser.active.resolve .command "foo" fracClaims = .fallback (.named 1 "tikz.undefined") ∧
      parser.active.resolve .environment "foo" fracClaims = .unhandled := by
  intro attempt extension parser
  have hmissing : attempt.outcome = .error (.unknownPackage "missing") := rfl
  have hkept : HookFreeCourse library.behaviour attempt.parser [base, ams] :=
    hookFreeCourse.unextended (by rw [hmissing]; rintro ⟨⟩)
  have hl : hookFreeRegistry.lookup? "tikz" = some tikz := rfl
  have ho : extension.outcome = .ok true := rfl
  have h : HookFreeCourse library.behaviour parser [base, ams, tikz] :=
    hkept.extended hl ⟨rfl, rfl⟩ ho
  have hcommand := resolve_latest_claiming h .command
  obtain ⟨hpackages, hfrac, -, -⟩ := hcommand "frac" fracClaims
  obtain ⟨-, hlet, -, -⟩ := hcommand "let" fracClaims
  obtain ⟨-, -, hfoo, -⟩ := hcommand "foo" fracClaims
  obtain ⟨-, -, -, hnone⟩ := resolve_latest_claiming h .environment "foo" fracClaims
  refine ⟨h, hmissing, ho, hpackages, ?_, ?_, ?_, ?_⟩
  · exact hfrac [base] ams [tikz] "shared" rfl (by decide) rfl
  · exact hlet [] base [ams, tikz] "macros" rfl (by decide) rfl
  · exact hfoo (by decide) [base, ams] tikz [] _ rfl (by decide) rfl
  · exact hnone.2 (by decide)

end ParserPackages
