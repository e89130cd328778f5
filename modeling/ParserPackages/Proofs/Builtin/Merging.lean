import ParserPackages.Proofs.Builtin.Library
import ParserPackages.Proofs.Parser.History
import ParserPackages.Proofs.Parser.Selection

/-!
# What parsers of built-in packages amount to

The init hooks of the built-in packages all have the default priority and there are no ready hooks.
So preparing merges the selected packages and then what each of them appends by its hook, in the
same order, and every later package is followed by what its own hook appends. The index is fresh.
-/
namespace ParserPackages.Builtin

variable {registry : Registry Hook Filter} {requests : List Request} {serial : Nat}

/-- The local packages that a package appends by its init hook. -/
def locals (package : ScriptedPackage) : List ScriptedPackage :=
  package.init?.toList.flatMap fun hook => appendedBy hook.item

def localsOf (name : String) : List ScriptedPackage :=
  if name = "ams" then [operators]
  else if name = "newcommand" then [definitions]
  else []

/-- The package has no ready hook, its init hook is called in the order of merging, and its name
tells what the hook appends. -/
structure Ordinary (package : ScriptedPackage) : Prop where
  init? : ∀ hook ∈ package.init?, hook.priority = defaultPriority
  ready? : package.ready? = none
  locals_eq : locals package = localsOf package.name

theorem ordinary_frozen {draft : Draft Hook Filter} (hd : draft ∈ drafts serial) (n : Nat) :
    Ordinary (draft.frozen n) := by
  simp only [drafts, List.mem_cons, List.not_mem_nil, or_false] at hd
  rcases hd with rfl | rfl | rfl | rfl
  · exact ⟨fun hook hh => absurd hh (Option.not_mem_none hook), rfl, rfl⟩
  · exact ⟨fun hook hh => Option.some.inj hh ▸ rfl, rfl, rfl⟩
  · exact ⟨fun hook hh => Option.some.inj hh ▸ rfl, rfl, rfl⟩
  · exact ⟨fun hook hh => absurd hh (Option.not_mem_none hook), rfl, rfl⟩

theorem from_of_register (hr : register .empty serial = .ok registry) {name : String}
    {package : ScriptedPackage} (hl : registry.lookup? name = some package) :
    From (drafts serial) name package :=
  (lookup?_addAll hr name package hl).resolve_left nofun

def Held (registry : Registry Hook Filter) (package : ScriptedPackage) : Prop :=
  ∃ name, registry.lookup? name = some package

theorem Held.ordinary (hr : register .empty serial = .ok registry) {package : ScriptedPackage}
    (h : Held registry package) : Ordinary package := by
  obtain ⟨name, hl⟩ := h
  obtain ⟨draft, hd, -, n, rfl⟩ := from_of_register hr hl
  exact ordinary_frozen hd n

theorem ordinary_locals {package appended : ScriptedPackage} (h : appended ∈ locals package) :
    Ordinary appended := by
  obtain ⟨hook, -, hl⟩ := List.mem_flatMap.1 h
  rcases mem_appendedBy hl with rfl | rfl
  · exact ⟨nofun, rfl, rfl⟩
  · exact ⟨nofun, rfl, rfl⟩

/-! ## Hooks -/

theorem onConfiguration_eq (hook : Hook) (s : Configuration Hook Filter × List String) :
    library.behaviour.onConfiguration hook s =
      (.proceed, (s.1.appendAll (appendedBy hook), s.2)) := by
  simp only [ScriptLibrary.behaviour, runHook_eq]

theorem runAll_onConfiguration (hooks : List Hook) (c : Configuration Hook Filter)
    (world : List String) :
    runAll library.behaviour.onConfiguration hooks (c, world) =
      (.proceed, (c.appendAll (hooks.flatMap appendedBy), world)) := by
  induction hooks generalizing c with
  | nil => rfl
  | cons hook rest ih =>
    rw [runAll, onConfiguration_eq, List.flatMap_cons, Configuration.appendAll_append]
    exact ih _

theorem readyChain_appendAll {c : Configuration Hook Filter} (hc : c.readyChain = .empty)
    {packages : List ScriptedPackage} (hp : ∀ package ∈ packages, Ordinary package) :
    (c.appendAll packages).readyChain = .empty := by
  have hnone : packages.filterMap (·.ready?) = [] :=
    List.filterMap_eq_nil_iff.2 fun package hmem => (hp package hmem).ready?
  rw [(c.growsBy_appendAll packages).readyChain, hnone, hc]
  rfl

theorem flatMap_locals (packages : List ScriptedPackage) :
    ((packages.filterMap (·.init?)).map (·.item)).flatMap appendedBy = packages.flatMap locals := by
  induction packages with
  | nil => rfl
  | cons package rest ih =>
    rw [List.filterMap_cons, List.flatMap_cons, ← ih, locals]
    cases package.init? with
    | none => rfl
    | some hook => simp

/-- With equal priorities, init hooks are called in the order of merging. -/
theorem initChain_appendAll {packages : List ScriptedPackage}
    (hp : ∀ package ∈ packages, Ordinary package) :
    ((Configuration.empty.appendAll packages).initChain.items).flatMap appendedBy =
      packages.flatMap locals := by
  have hsame : (packages.filterMap (·.init?)).Pairwise fun a b => a.priority ≤ b.priority := by
    refine List.pairwise_of_forall_mem_list fun e he e' he' => ?_
    obtain ⟨package, hmem, hinit⟩ := List.mem_filterMap.1 he
    obtain ⟨package', hmem', hinit'⟩ := List.mem_filterMap.1 he'
    rw [(hp package hmem).init? e hinit, (hp package' hmem').init? e' hinit']
    exact Int32.le_refl _
  have hchain : (Configuration.empty.appendAll packages).initChain.entries =
      packages.filterMap (·.init?) := by
    rw [(Configuration.empty.growsBy_appendAll packages).initChain,
      RankedList.entries_insertAll]
    exact Ranked.sort_of_pairwise hsame
  rw [RankedList.items, hchain, flatMap_locals]

/-! ## Runs -/

/-- The parsers that preparing some of the packages and configuring lead to, with the packages that
extensions have added since then. Extensions may fail or find their package merged already, and
engines, overrides and worlds are arbitrary. -/
inductive Run (registry : Registry Hook Filter) (requests : List Request) :
    Running Hook Filter → List ScriptedPackage → Prop
  | configured {parsers : List String} {world start : List String}
      {prepared : Prepared Hook Filter} {engine : Engine Filter} {parser : Running Hook Filter}
      (hp : (Prepared.ofRequests library.behaviour registry requests parsers world).1 =
        .ok prepared)
      (hc : (prepared.configure library.behaviour engine start).1 = .ok parser) :
      Run registry requests parser []
  | added {parser : Running Hook Filter} {added : List ScriptedPackage}
      (h : Run registry requests parser added) {name : String} {package : ScriptedPackage}
      (hl : registry.lookup? name = some package) {engine : Engine Filter}
      {overrides : Option OptionTree} {world : List String}
      (ho : (parser.extend library.behaviour registry name engine overrides world).outcome =
        .ok true) :
      Run registry requests
        (parser.extend library.behaviour registry name engine overrides world).parser
        (added ++ [package])
  | unchanged {parser : Running Hook Filter} {added : List ScriptedPackage}
      (h : Run registry requests parser added) {name : String} {engine : Engine Filter}
      {overrides : Option OptionTree} {world : List String}
      (ho : (parser.extend library.behaviour registry name engine overrides world).outcome ≠
        .ok true) :
      Run registry requests
        (parser.extend library.behaviour registry name engine overrides world).parser added

/-- The packages of a parser in the order of merging: what was selected, what that appends, and what
was added, each package followed by what it appends. -/
def merged (selected added : List ScriptedPackage) : List ScriptedPackage :=
  selected ++ selected.flatMap locals ++ added.flatMap fun package => package :: locals package

theorem merged_concat (selected added : List ScriptedPackage) (package : ScriptedPackage) :
    merged selected (added ++ [package]) =
      merged selected added ++ package :: locals package := by
  simp [merged]

theorem Run.held {parser : Running Hook Filter} {added : List ScriptedPackage}
    (h : Run registry requests parser added) : ∀ package ∈ added, Held registry package := by
  induction h with
  | configured => exact List.forall_mem_nil _
  | added _ hl _ ih => exact List.forall_mem_append.2 ⟨ih, List.forall_mem_singleton.2 ⟨_, hl⟩⟩
  | unchanged _ _ ih => exact ih

theorem ordinary_ordered (hr : register .empty serial = .ok registry) (requests : List Request) :
    ∀ package ∈ registry.ordered requests, Ordinary package :=
  fun _ hmem => Held.ordinary hr (Registry.lookup?_of_mem_ordered hmem)

theorem ordinary_merged {selected added : List ScriptedPackage} (hs : ∀ p ∈ selected, Ordinary p)
    (ha : ∀ p ∈ added, Ordinary p) : ∀ p ∈ merged selected added, Ordinary p := by
  refine List.forall_mem_append.2 ⟨List.forall_mem_append.2 ⟨hs, ?_⟩, ?_⟩
  · intro p hp
    obtain ⟨package, -, hl⟩ := List.mem_flatMap.1 hp
    exact ordinary_locals hl
  · intro p hp
    obtain ⟨package, hmem, hl⟩ := List.mem_flatMap.1 hp
    rcases List.mem_cons.1 hl with rfl | hl
    · exact ha p hmem
    · exact ordinary_locals hl

theorem readyChain_merged (hr : register .empty serial = .ok registry) (requests : List Request)
    {added : List ScriptedPackage} (ha : ∀ package ∈ added, Held registry package) :
    (Configuration.empty.appendAll
      (merged (registry.ordered requests) added)).rebuildIndex.readyChain = .empty :=
  readyChain_appendAll rfl
    (ordinary_merged (ordinary_ordered hr requests) fun _ hmem => (ha _ hmem).ordinary hr)

theorem join_eq (c : Configuration Hook Filter) (package : ScriptedPackage)
    (world : List String) :
    (c.join library.behaviour package world).1 = c.appendAll (package :: locals package) := by
  rw [Configuration.appendAll_cons, locals, Configuration.join]
  cases package.init? with
  | none => rfl
  | some hook =>
    simp only [onConfiguration_eq, Option.toList_some, List.flatMap_cons, List.flatMap_nil,
      List.append_nil]

/-- Without ready hooks, nothing happens once a package has joined. -/
theorem settle_eq {c : Configuration Hook Filter} (hc : c.readyChain = .empty)
    {package : ScriptedPackage} (hp : Ordinary package) (applied : Engine Filter)
    (world : List String) :
    (c.settle library.behaviour package applied world).configuration =
      (c.appendAll (package :: locals package)).rebuildIndex := by
  have hready : (c.join library.behaviour package world).1.readyChain = .empty := by
    rw [join_eq]
    exact readyChain_appendAll hc (List.forall_mem_cons.2 ⟨hp, fun _ => ordinary_locals⟩)
  rw [Configuration.settle, hready, join_eq]
  rfl

theorem active_ofRequests (hr : register .empty serial = .ok registry) {parsers : List String}
    {world : List String} {prepared : Prepared Hook Filter}
    (hp : (Prepared.ofRequests library.behaviour registry requests parsers world).1 =
      .ok prepared) :
    prepared.active =
      (Configuration.empty.appendAll (merged (registry.ordered requests) [])).rebuildIndex := by
  rw [Prepared.ofRequests_of_accepted (Prepared.accepted_of_ofRequests hp)] at hp
  obtain rfl := Except.ok.inj hp
  simp only [Configuration.runInit, Chain.execute, runAll_onConfiguration,
    initChain_appendAll (ordinary_ordered hr _), ← Configuration.appendAll_append]
  simp [merged]

/-- A parser is what its packages amount to, with a fresh index. -/
theorem Run.active_eq (hr : register .empty serial = .ok registry) {parser : Running Hook Filter}
    {added : List ScriptedPackage} (h : Run registry requests parser added) :
    parser.active =
      (Configuration.empty.appendAll (merged (registry.ordered requests) added)).rebuildIndex := by
  induction h with
  | @configured parsers world start prepared engine parser hp hc =>
    have hactive := active_ofRequests hr hp
    have hready : prepared.active.readyChain = .empty := by
      rw [hactive]
      exact readyChain_merged hr requests (List.forall_mem_nil _)
    obtain ⟨applied, -, rfl, -⟩ := Prepared.configure_eq_ok hc
    simp only [Configuration.runReady, Chain.execute, hready]
    exact hactive
  | @added parser added h name package hl engine overrides world ho ih =>
    have he := Running.extended library.behaviour parser registry name engine overrides world
    generalize parser.extend library.behaviour registry name engine overrides world = step
      at he ho ⊢
    cases he with
    | unknown | present | foreign | undeclared => cases ho
    | @added package' applied hosted hl' _ _ _ hs =>
      obtain rfl : package = package' := Option.some.inj (hl.symm.trans hl')
      have hready : parser.active.readyChain = .empty := by
        rw [ih]
        exact readyChain_merged hr requests h.held
      rw [← hs, settle_eq hready (Held.ordinary hr ⟨name, hl⟩), ih,
        Configuration.rebuildIndex_appendAll, ← Configuration.appendAll_append, merged_concat]
  | @unchanged parser added h name engine overrides world ho ih =>
    have he := Running.extended library.behaviour parser registry name engine overrides world
    generalize parser.extend library.behaviour registry name engine overrides world = step
      at he ho ⊢
    cases he with
    | unknown | present | foreign | undeclared => exact ih
    | added => exact absurd rfl ho

theorem Run.packages_eq (hr : register .empty serial = .ok registry)
    {parser : Running Hook Filter} {added : List ScriptedPackage}
    (h : Run registry requests parser added) :
    parser.active.packages = (merged (registry.ordered requests) added).map (·.name) := by
  rw [h.active_eq hr]
  exact (Configuration.empty.growsBy_appendAll _).packages

end ParserPackages.Builtin
