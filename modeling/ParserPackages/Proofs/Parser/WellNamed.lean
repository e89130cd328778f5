import ParserPackages.Proofs.Builtin.Library
import ParserPackages.Proofs.Parser.Selection

/-!
# Names that parsers and engines know

Whatever parsers are made of comes from registries or is appended by hooks, so none of their names
is blank if the registries were filled as usual and hooks append what they have built. The options
of an engine come from its parsers: users can set options in many ways, but they cannot add any.
-/
namespace ParserPackages

variable {H F σ : Type} {b : Behaviour H F σ}

theorem Registry.lookup?_of_select {r : Registry H F} {accepted chosen : List String}
    {requests : List Request} {selected : List (Ranked (Package H F))}
    (h : r.select accepted chosen requests = .ok selected) :
    ∀ e ∈ selected, ∃ name, r.lookup? name = some e.item := by
  intro e he
  rw [select_eq, requireParsers] at h
  split at h
  · cases h
  · cases h
    exact lookup?_of_mem_held ((sublist_firstOfEachName _).subset (List.mem_filter.1 he).1)

/-! ## Changes of one kind -/

namespace Account.OnlyMakes

variable {account : Account b} {P : Change H F → Prop}

theorem forall_prepare (h : account.OnlyMakes P) (hi : P .rebuildIndex) {registry : Registry H F}
    (hr : ∀ name package, registry.lookup? name = some package → P (.append package))
    (requests : List Request) (parsers : List String) (world : σ) :
    ∀ change ∈ account.prepare registry requests parsers world, P change := by
  simp only [Account.prepare]
  split
  · exact List.forall_mem_nil P
  · rename_i selected hs
    refine List.forall_mem_append.2
      ⟨List.forall_mem_append.2 ⟨?_, h.initPass _ _⟩, List.forall_mem_singleton.2 hi⟩
    intro change hc
    obtain ⟨package, hp, rfl⟩ := List.mem_map.1 hc
    rw [RankedList.items_ofEntries] at hp
    obtain ⟨e, he, rfl⟩ := List.mem_map.1 hp
    obtain ⟨name, hl⟩ := Registry.lookup?_of_select hs e (Ranked.mem_sort.1 he)
    exact hr name e.item hl

theorem forall_configure (h : account.OnlyMakes P) (prepared : Prepared H F) (engine : Engine F)
    (world : σ) : ∀ change ∈ account.configure prepared engine world, P change := by
  simp only [Account.configure]
  split
  · exact List.forall_mem_nil P
  · exact h.readyPass _ _

theorem forall_extend [DecidableEq H] (h : account.OnlyMakes P) (hi : P .rebuildIndex)
    {registry : Registry H F}
    (hr : ∀ name package, registry.lookup? name = some package → P (.append package))
    (parser : Running H F) (name : String) (engine : Engine F) (overrides : Option OptionTree)
    (world : σ) :
    ∀ change ∈ account.extend parser registry name engine overrides world, P change := by
  simp only [Account.extend]
  split
  · rename_i package _ hl
    split
    · obtain ⟨changes, hsettle, hrest⟩ := h.settle hi parser.active package _ world
      rw [hsettle]
      exact List.forall_mem_cons.2 ⟨hr name package hl, hrest⟩
    · exact List.forall_mem_nil P
  · exact List.forall_mem_nil P

end Account.OnlyMakes

/-! ## Options of engines -/

/-- A call of the option step adds the names of the defaults, and users add none. -/
theorem Engine.contains_applyOptions {e e' : Engine F} {defaults : OptionTree}
    {overrides : Option OptionTree} (h : e.applyOptions defaults overrides = .ok e')
    (name : String) :
    e'.options.contains name = (e.options.contains name || defaults.contains name) := by
  obtain ⟨options, hu, rfl⟩ := (applyOptions_eq_ok_iff ⟨defaults, overrides⟩).1 h
  rw [OptionTree.contains_applyUser hu, OptionTree.contains, OptionTree.get?_fill, Option.isSome_or]
  rfl

theorem Engine.noneBlank_applyOptions {e e' : Engine F} {defaults : OptionTree}
    {overrides : Option OptionTree} (h : e.applyOptions defaults overrides = .ok e')
    (he : NoneBlank e.options.names) (hd : NoneBlank defaults.names) :
    NoneBlank e'.options.names := by
  intro name hn
  rw [OptionTree.mem_names, contains_applyOptions h, Bool.or_eq_true_iff] at hn
  exact hn.elim (fun hc => he name (OptionTree.mem_names.2 hc))
    fun hc => hd name (OptionTree.mem_names.2 hc)

structure Behaviour.AddsNoOption (b : Behaviour H F σ) : Prop where
  onEngine : ∀ (hook : H) (s : Hosted H F σ),
    (b.onEngine hook s).2.engine.options.NamesIn s.engine.options

theorem Behaviour.KeepsOptions.addsNoOption (h : b.KeepsOptions) : b.AddsNoOption where
  onEngine hook s name hn := by rwa [(h.onEngine hook s).options] at hn

theorem Behaviour.AddsNoOption.noneBlank_runAll (hb : b.AddsNoOption) (hooks : List (ReadyHook H))
    {s : Hosted H F σ} (h : NoneBlank s.engine.options.names) :
    NoneBlank (runAll b.callReady hooks s).2.engine.options.names := by
  refine runAll_engine (P := fun e : Engine F => NoneBlank e.options.names)
    (fun hook t ht name hn => ?_) hooks h
  exact ht name (OptionTree.mem_names.2 (hb.onEngine hook t name (OptionTree.mem_names.1 hn)))

/-! ## Runs -/

/-- The parsers that preparing, configuring and extending lead to, each with the changes made to its
configuration since it was empty. Each call may be handed another registry, filled in whatever way,
another engine and another world. -/
inductive Supplied [DecidableEq H] (account : Account b) :
    Running H F → List (Change H F) → Prop
  | configured {registry : Registry H F} (hr : registry.Stocked) {requests : List Request}
      {parsers : List String} {world start : σ} {prepared : Prepared H F} {engine : Engine F}
      {parser : Running H F}
      (hp : (Prepared.ofRequests b registry requests parsers world).1 = .ok prepared)
      (hc : (prepared.configure b engine start).1 = .ok parser) :
      Supplied account parser (account.prepare registry requests parsers world ++
        account.configure prepared engine start)
  | extended {parser : Running H F} {history : List (Change H F)}
      (h : Supplied account parser history) {registry : Registry H F} (hr : registry.Stocked)
      (name : String) (engine : Engine F) (overrides : Option OptionTree) (world : σ) :
      Supplied account (parser.extend b registry name engine overrides world).parser
        (history ++ account.extend parser registry name engine overrides world)

namespace Supplied

variable [DecidableEq H] {account : Account b} {parser : Running H F}
  {history : List (Change H F)}

theorem reached (h : Supplied account parser history) :
    Reached account parser.active history := by
  induction h with
  | configured _ hp hc => exact (Reached.prepare account hp).configure hc
  | extended _ _ name engine overrides world ih => exact ih.extend _ name engine overrides world

/-- Every change is appending a package that was built, rebuilding the index or one of the hooks. -/
theorem forall_history {P : Change H F → Prop} (hm : account.OnlyMakes P) (hi : P .rebuildIndex)
    (ha : ∀ package : Package H F, package.Built → P (.append package))
    (h : Supplied account parser history) : ∀ change ∈ history, P change := by
  have hstock {registry : Registry H F} (hr : registry.Stocked) :
      ∀ name package, registry.lookup? name = some package → P (.append package) :=
    fun name package hl => ha package (hr.lookup name package hl).2
  induction h with
  | configured hr hp hc =>
    exact List.forall_mem_append.2 ⟨hm.forall_prepare hi (hstock hr) _ _ _,
      hm.forall_configure _ _ _⟩
  | extended _ hr name engine overrides world ih =>
    exact List.forall_mem_append.2 ⟨ih, hm.forall_extend hi (hstock hr) _ _ _ _ _⟩

theorem appendsBuilt (ha : account.OnlyMakes Change.AppendsBuilt)
    (h : Supplied account parser history) : ∀ change ∈ history, change.AppendsBuilt :=
  h.forall_history ha trivial fun _ hp => hp

theorem addsNoOption (hs : account.OnlyMakes Change.AddsNoOption)
    (h : Supplied account parser history) : ∀ change ∈ history, change.AddsNoOption :=
  h.forall_history hs trivial fun _ _ => trivial

end Supplied

theorem Account.OnlyMakes.noneBlank_prepare {account : Account b}
    (ha : account.OnlyMakes Change.AppendsBuilt) {registry : Registry H F} (hr : registry.Stocked)
    {requests : List Request} {parsers : List String} {world : σ} {prepared : Prepared H F}
    (hp : (Prepared.ofRequests b registry requests parsers world).1 = .ok prepared) :
    prepared.active.WellNamed ∧
      (account.OnlyMakes Change.AddsNoOption → NoneBlank prepared.active.options.names) := by
  have hreached := Reached.prepare account hp
  have hbuilt := ha.forall_prepare trivial (fun _ _ hl => (hr.lookup _ _ hl).2) requests parsers
    world
  exact ⟨hreached.wellNamed (Change.wellNamed_appended hbuilt), fun hs =>
    hreached.noneBlank_options hbuilt (hs.forall_prepare trivial (fun _ _ _ => trivial) _ _ _)⟩

theorem Supplied.noneBlank_join [DecidableEq H] {account : Account b}
    (ha : account.OnlyMakes Change.AppendsBuilt) (hs : account.OnlyMakes Change.AddsNoOption)
    {parser : Running H F} {history : List (Change H F)} (h : Supplied account parser history)
    {package : Package H F} (hp : package.Built) (world : σ) :
    NoneBlank (parser.active.join b package world).1.options.names := by
  obtain ⟨changes, hjoin, hbuilt⟩ := ha.join parser.active package world
  obtain ⟨changes', hjoin', hnone⟩ := hs.join parser.active package world
  obtain rfl : changes = changes' := (List.cons.inj (hjoin.symm.trans hjoin')).2
  rw [account.join_eq, hjoin]
  exact (h.reached.applyAll _).noneBlank_options
    (List.forall_mem_append.2 ⟨h.appendsBuilt ha, List.forall_mem_cons.2 ⟨hp, hbuilt⟩⟩)
    (List.forall_mem_append.2 ⟨h.addsNoOption hs, List.forall_mem_cons.2 ⟨trivial, hnone⟩⟩)

theorem Behaviour.AddsNoOption.noneBlank_configure (hb : b.AddsNoOption) {prepared : Prepared H F}
    (hp : NoneBlank prepared.active.options.names) {engine : Engine F}
    (he : NoneBlank engine.options.names) (world : σ) :
    NoneBlank (prepared.configure b engine world).2.1.options.names := by
  cases hc : (prepared.configure b engine world).1 with
  | error =>
    rw [Prepared.configure_eq_error hc]
    exact he
  | ok =>
    obtain ⟨applied, happly, -, hengine⟩ := Prepared.configure_eq_ok hc
    rw [hengine]
    exact hb.noneBlank_runAll _ (Engine.noneBlank_applyOptions happly he hp)

theorem Supplied.noneBlank_extend [DecidableEq H] {account : Account b}
    (ha : account.OnlyMakes Change.AppendsBuilt) (hs : account.OnlyMakes Change.AddsNoOption)
    (hb : b.AddsNoOption) {parser : Running H F} {history : List (Change H F)}
    (h : Supplied account parser history) {registry : Registry H F} (hr : registry.Stocked)
    (name : String) {engine : Engine F} (he : NoneBlank engine.options.names)
    (overrides : Option OptionTree) (world : σ) :
    NoneBlank (parser.extend b registry name engine overrides world).engine.options.names := by
  have hstep := Running.extended b parser registry name engine overrides world
  generalize parser.extend b registry name engine overrides world = step at hstep ⊢
  cases hstep with
  | unknown | present | foreign | undeclared => exact he
  | @added package applied hosted hl _ _ happly hsettle =>
    have hdeclared := h.noneBlank_join ha hs (hr.lookup _ _ hl).2 world
    rw [← hsettle]
    exact hb.noneBlank_runAll _ (Engine.noneBlank_applyOptions happly he hdeclared)

/-- Registries are filled by registering packages that were built, and hooks append such packages.
Then no name in a registry is blank, and neither is a name of a prepared configuration or of a
parser after any extensions: of a package, of a handler map on the lists or in the index, of a stack
item, a tag or a node. Where hooks add no options, every option of a parser is declared by a package
appended to it, no option of a configuration has a blank name, and neither configuring nor extending
gives the engine one. For options of a user add no names: a call of the option step adds the names
of the defaults to those that the engine has, and no others. -/
theorem merged_names_not_blank [DecidableEq H] (account : Account b)
    (ha : account.OnlyMakes Change.AppendsBuilt) :
    (∀ registry : Registry H F, registry.Stocked → NoneBlank registry.names) ∧
    (∀ (registry : Registry H F) requests parsers world prepared, registry.Stocked →
      (Prepared.ofRequests b registry requests parsers world).1 = .ok prepared →
        prepared.active.WellNamed ∧
          (account.OnlyMakes Change.AddsNoOption → NoneBlank prepared.active.options.names ∧
            (b.AddsNoOption → ∀ (engine : Engine F) (start : σ), NoneBlank engine.options.names →
              NoneBlank (prepared.configure b engine start).2.1.options.names))) ∧
    (∀ parser history, Supplied account parser history →
      parser.active.WellNamed ∧
        (account.OnlyMakes Change.AddsNoOption → NoneBlank parser.active.options.names ∧
          (∀ name ∈ parser.active.options.names, ∃ package ∈ Change.appended history,
            name ∈ package.options.names) ∧
          (b.AddsNoOption → ∀ (registry : Registry H F) name (engine : Engine F) overrides world,
            registry.Stocked → NoneBlank engine.options.names →
              NoneBlank
                (parser.extend b registry name engine overrides world).engine.options.names))) ∧
    ∀ (engine applied : Engine F) (defaults : OptionTree) (overrides : Option OptionTree),
      engine.applyOptions defaults overrides = .ok applied → ∀ name,
        applied.options.contains name =
          (engine.options.contains name || defaults.contains name) := by
  refine ⟨fun registry hr => hr.noneBlank_names, ?_, ?_,
    fun engine applied defaults overrides h name => Engine.contains_applyOptions h name⟩
  · intro registry requests parsers world prepared hr hp
    obtain ⟨hnamed, hoptions⟩ := ha.noneBlank_prepare hr hp
    exact ⟨hnamed, fun hs => ⟨hoptions hs, fun hb engine start he =>
      hb.noneBlank_configure (hoptions hs) he start⟩⟩
  · intro parser history h
    have hbuilt := h.appendsBuilt ha
    refine ⟨h.reached.wellNamed (Change.wellNamed_appended hbuilt), fun hs => ?_⟩
    have hnone := h.addsNoOption hs
    exact ⟨h.reached.noneBlank_options hbuilt hnone, h.reached.declares_options hnone,
      fun hb registry name engine overrides world hr he =>
        h.noneBlank_extend ha hs hb hr name he overrides world⟩

def Sample.blank : OptionTree := (OptionTree.empty.set "tagSide" (.str "left")).set " " (.int 1)

open Builtin in
/-- `ams` joins `base` and `newcommand`. An option of the user with a blank name is refused, and
after that the other one is accepted. -/
theorem blank_override_refused :
    ∃ prepared parser,
      let b := library.behaviour
      let configured := prepared.configure b .empty []
      let extend (engine : Engine Filter) (overrides : OptionTree) :=
        parser.extend b stock "ams" engine (some overrides) []
      let refused := extend configured.2.1 Sample.blank
      let added := extend refused.engine (OptionTree.empty.set "tagSide" (.str "left"))
      (Builtin.registry = .ok stock ∧ (Prepared.ofRequests b stock
          [.ofName "base", .ofName "newcommand"] [defaultParser] []).1 = .ok prepared ∧
        configured.1 = .ok parser) ∧
        refused.outcome = .error (.unknownOption " ") ∧ added.outcome = .ok true ∧
        NoneBlank stock.names ∧ added.parser.active.WellNamed ∧
        NoneBlank added.parser.active.options.names ∧ NoneBlank added.engine.options.names := by
  have hp : (Prepared.ofRequests library.behaviour stock [.ofName "base", .ofName "newcommand"]
      [defaultParser] []).1 = .ok _ := rfl
  refine ⟨_, _, ⟨register_empty, hp, rfl⟩, rfl, rfl, ?_⟩
  obtain ⟨hregistry, hprepared, hsupplied, -⟩ := merged_names_not_blank library.account
    onlyMakes_appendsBuilt
  have hb : library.behaviour.AddsNoOption := keepsOptions.addsNoOption
  have hs : library.account.OnlyMakes Change.AddsNoOption := onlyMakes trivial trivial
  have hstock : stock.Stocked := stocked_register .empty register_empty
  have hparser : Supplied library.account _ _ := .configured hstock hp
    (show (Prepared.configure library.behaviour _ .empty []).1 = .ok _ from rfl)
  have hconfigured := ((hprepared stock _ _ _ _ hstock hp).2 hs).2 hb .empty [] nofun
  have hrefused := ((hsupplied _ _ hparser).2 hs).2.2 hb _ "ams" _ (some Sample.blank) [] hstock
    hconfigured
  have hadded := ((hsupplied _ _ hparser).2 hs).2.2 hb _ "ams" _
    (some (OptionTree.empty.set "tagSide" (.str "left"))) [] hstock hrefused
  obtain ⟨hnamed, hoptions⟩ := hsupplied _ _ (hparser.extended hstock "ams" _
    (some (OptionTree.empty.set "tagSide" (.str "left"))) [])
  exact ⟨hregistry _ hstock, hnamed, (hoptions hs).1, hadded⟩

end ParserPackages
