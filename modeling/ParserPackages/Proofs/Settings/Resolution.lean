import ParserPackages.Settings.Basic
import ParserPackages.Proofs.OptionTree.Layers
import ParserPackages.Proofs.Parser.Selection
import ParserPackages.Proofs.Script.Served

/-!
# Which settings can be resolved

Settings can be resolved if all that they select is for an accepted parser and the options of the
user are declared. An option is declared by the first package that is merged with a default for it,
and the sub-trees of that default alone say what can be set below. Hooks do not matter as long as
they leave options alone.
-/
namespace ParserPackages

variable {H F σ : Type} {b : Behaviour H F σ}

def Change.OptionFree : Change H F → Prop
  | append package => package.options = .empty
  | rebuildIndex => True
  | editOptions _ => False

theorem Configuration.options_applyAll (c : Configuration H F) {changes : List (Change H F)}
    (h : ∀ change ∈ changes, change.OptionFree) : (c.applyAll changes).options = c.options := by
  induction changes generalizing c with
  | nil => rfl
  | cons change rest ih =>
    obtain ⟨hchange, hrest⟩ := List.forall_mem_cons.1 h
    rw [applyAll_cons, ih _ hrest]
    cases change with
    | append package =>
      have hnone : package.options = .empty := hchange
      simp only [Change.apply, append_eq, hnone, OptionTree.fill_empty]
    | rebuildIndex => rfl
    | editOptions => exact hchange.elim

/-- The options that the selected packages declare, where the first to be merged counts. -/
def Settings.declared (s : Settings) (registry : Registry H F) : OptionTree :=
  .firstOf ((registry.ordered s.packages).map (·.options))

namespace Account.OnlyMakes

variable {account : Account b}

theorem options_runInit (h : account.OnlyMakes Change.OptionFree) (c : Configuration H F)
    (world : σ) : (c.runInit b world).2.1.options = c.options := by
  have hrun : (c.runInit b world).2.1 = _ := account.initPass_eq c.initChain.items (c, world)
  rw [hrun]
  exact c.options_applyAll (h.initPass _ _)

theorem options_runReady (h : account.OnlyMakes Change.OptionFree) (s : Hosted H F σ) :
    (Configuration.runReady b s).2.configuration.options = s.configuration.options := by
  have hrun : (Configuration.runReady b s).2.configuration = _ :=
    account.readyPass_eq s.configuration.readyChain.items s
  rw [hrun]
  exact s.configuration.options_applyAll (h.readyPass _ _)

/-- Preparing succeeds for accepted packages, with the options that these declare. -/
theorem prepare (h : account.OnlyMakes Change.OptionFree) {s : Settings}
    {registry : Registry H F} (hs : ∀ e ∈ registry.selection s.packages, e.item.parser ∈ s.parsers)
    (world : σ) :
    ∃ prepared, (s.prepare b registry world).1 = .ok prepared ∧
      prepared.active.options = s.declared registry := by
  rw [Settings.prepare, Prepared.ofRequests_of_accepted hs]
  refine ⟨_, rfl, ?_⟩
  calc (Configuration.runInit b _ world).2.1.options
      = (Configuration.empty.appendAll (registry.ordered s.packages)).options :=
        h.options_runInit _ world
    _ = s.declared registry := Configuration.options_appendAll _ _

end Account.OnlyMakes

theorem Behaviour.KeepsOptions.runReady (h : b.KeepsOptions) (s : Hosted H F σ) :
    s.engine.SameOptions (Configuration.runReady b s).2.engine :=
  runAll_engine (fun hook t ht => ht.trans (h.onEngine hook t)) _ (.refl s.engine)

theorem Prepared.configure_fresh {account : Account b} (h : account.OnlyMakes Change.OptionFree)
    (hb : b.KeepsOptions) (prepared : Prepared H F) (user : OptionTree) (world : σ) :
    let configured := prepared.configure b (.ofUserOptions user) world
    (∀ path, prepared.active.options.applyUser user = .error path →
      configured.1 = .error (.unknownOption path)) ∧
    ∀ options, prepared.active.options.applyUser user = .ok options →
      ∃ parser, configured.1 = .ok parser ∧ parser.active.options = prepared.active.options ∧
        configured.2.1.options = options := by
  intro configured
  have happly := Engine.applyOptions_ofUserOptions (F := F) user prepared.active.options
  refine ⟨fun path hu => ?_, fun options hu => ?_⟩
  · rw [hu] at happly
    simp only [configured, configure, happly]
  · rw [hu] at happly
    simp only [configured, configure, happly]
    refine ⟨_, rfl, h.options_runReady _, ?_⟩
    exact ((hb.runReady _).trans (Engine.sameOptions_install _ _ _)).options

namespace Settings

variable {account : Account b} {s : Settings} {registry : Registry H F}

theorem resolve_of_accepted (h : account.OnlyMakes Change.OptionFree) (hb : b.KeepsOptions)
    (hs : ∀ e ∈ registry.selection s.packages, e.item.parser ∈ s.parsers) (world : σ) :
    (∀ path, (s.declared registry).applyUser s.options = .error path →
      (s.resolve b registry world).1 = .error (.unknownOption path)) ∧
    ∀ options, (s.declared registry).applyUser s.options = .ok options →
      ∃ parser engine, (s.resolve b registry world).1 = .ok (parser, engine) ∧
        parser.active.options = s.declared registry ∧ engine.options = options := by
  obtain ⟨prepared, hok, hdeclared⟩ := h.prepare hs world
  obtain ⟨herror, happlied⟩ :=
    prepared.configure_fresh h hb s.options (s.prepare b registry world).2
  rw [hdeclared] at herror happlied
  simp only [resolve, engine]
  generalize s.prepare b registry world = first at hok herror happlied ⊢
  obtain ⟨outcome, start⟩ := first
  obtain rfl : outcome = .ok prepared := hok
  simp only at herror happlied ⊢
  generalize prepared.configure b (.ofUserOptions s.options) start = second
    at herror happlied ⊢
  obtain ⟨outcome, engine, world'⟩ := second
  refine ⟨fun path hu => ?_, fun options hu => ?_⟩
  · obtain rfl : outcome = .error (.unknownOption path) := herror path hu
    rfl
  · obtain ⟨parser, rfl, hparser, hengine⟩ := happlied options hu
    exact ⟨parser, engine, rfl, hparser, hengine⟩

theorem resolve_of_foreign {e : Ranked (Package H F)}
    (he : e ∈ registry.selection s.packages) (hp : e.item.parser ∉ s.parsers) (world : σ) :
    ∃ fault, (s.resolve b registry world).1 = .error fault := by
  obtain ⟨fault, hf⟩ := Prepared.ofRequests_of_foreign (b := b) he hp world
  simp only [resolve, prepare, hf]
  exact ⟨fault, rfl⟩

end Settings

/-- Where hooks leave the options alone and append no package that declares any, settings can be
resolved if and only if all selected packages are for accepted parsers and the options of the user
are declared by the defaults of these packages, where for each name the first package to be merged
that has a default for it counts. Then the engine has these defaults with the options of the user
over them, and the configuration still has the defaults. -/
theorem resolves_iff_declared (account : Account b) (h : account.OnlyMakes Change.OptionFree)
    (hb : b.KeepsOptions) (s : Settings) (registry : Registry H F) (world : σ) :
    let declared := s.declared registry
    let resolved := (s.resolve b registry world).1
    (∀ name, declared.get? name =
        (registry.ordered s.packages).findSome? (·.options.get? name)) ∧
      ((∃ result, resolved = .ok result) ↔
        (∀ e ∈ registry.selection s.packages, e.item.parser ∈ s.parsers) ∧
          declared.Declares s.options) ∧
      ∀ parser engine, resolved = .ok (parser, engine) →
        declared.applyUser s.options = .ok engine.options ∧ parser.active.options = declared := by
  intro declared resolved
  have haccepted (result : Running H F × Engine F) (hok : resolved = .ok result) :
      ∀ e ∈ registry.selection s.packages, e.item.parser ∈ s.parsers := by
    intro e he
    refine Decidable.byContradiction fun hp => ?_
    obtain ⟨fault, hf⟩ := Settings.resolve_of_foreign (b := b) he hp world
    cases hf.symm.trans hok
  have happlied (parser : Running H F) (engine : Engine F)
      (hok : resolved = .ok (parser, engine)) :
      declared.applyUser s.options = .ok engine.options ∧ parser.active.options = declared := by
    obtain ⟨herror, happlied⟩ :=
      Settings.resolve_of_accepted h hb (haccepted _ hok) world
    cases hu : declared.applyUser s.options with
    | error path => cases (herror path hu).symm.trans hok
    | ok options =>
      obtain ⟨_, _, hok', hparser, hengine⟩ := happlied options hu
      cases hok'.symm.trans hok
      exact ⟨congrArg Except.ok hengine.symm, hparser⟩
  refine ⟨fun name => ?_, ⟨?_, ?_⟩, happlied⟩
  · exact (OptionTree.get?_firstOf _ name).trans (List.findSome?_map ..)
  · rintro ⟨⟨parser, engine⟩, hok⟩
    exact ⟨haccepted _ hok, (OptionTree.applyUser_eq_ok_iff_declares.1 (happlied _ _ hok).1).1⟩
  · rintro ⟨hs, hd⟩
    obtain ⟨parser, engine, hok, -⟩ := (Settings.resolve_of_accepted h hb hs world).2 _
      (OptionTree.applyUser_eq_ok_iff_declares.2 ⟨hd, rfl⟩)
    exact ⟨(parser, engine), hok⟩

namespace Sample

theorem onlyMakes_optionFree : library.account.OnlyMakes Change.OptionFree := by
  refine ScriptLibrary.onlyMakes fun hook => ?_
  simp only [ScriptLibrary.changes, library]
  rcases script?_cases hook with h | h | h | h <;> rw [h]
  · exact List.forall_mem_cons.2 ⟨rfl, List.forall_mem_singleton.2 trivial⟩
  · exact List.forall_mem_singleton.2 rfl
  · exact List.forall_mem_nil _
  · exact List.forall_mem_nil _

theorem keepsOptions : library.behaviour.KeepsOptions where
  onEngine hook s := by
    simp only [ScriptLibrary.behaviour, ScriptLibrary.runHook, library]
    rcases script?_cases hook with h | h | h | h <;> rw [h] <;> exact .refl s.engine

/-- A package that declares `ams` as a sub-tree, and whose hooks append and index. -/
def nested : ScriptedPackage :=
  { bare "nested" with
    options := amsDefaults
    init? := some ⟨initHook, 5⟩
    ready? := some ⟨.configuration readyHook, 5⟩ }

def flat : ScriptedPackage := { bare "flat" with options := .set .empty "ams" (.bool true) }

def shapes : Registry Hook Filter := ⟨(KeyMap.empty.insert "nested" nested).insert "flat" flat⟩

/-- The user sets an option below `ams` that `nested` does not declare. -/
def below (packages : List Request) : Settings :=
  ⟨packages, [defaultParser], .set .empty "ams" (.obj [("width", .int 1)])⟩

end Sample

open Sample in
/-- The value that `flat` declares can be replaced by any sub-tree, while `nested` says which
options there are in its own. So the priority of `flat` decides whether the settings are good. -/
theorem order_of_packages_decides :
    let flatFirst := below [.ofName "nested", ⟨"flat", some (-1)⟩]
    let nestedFirst := below [.ofName "nested", ⟨"flat", some 9⟩]
    ((flatFirst.declared shapes).get? "ams" = some (.bool true) ∧
        ∃ parser engine, (flatFirst.resolve library.behaviour shapes []).1 = .ok (parser, engine) ∧
          engine.options = flatFirst.options ∧
          parser.active.options = flatFirst.declared shapes) ∧
      (nestedFirst.resolve library.behaviour shapes []).1 = .error (.unknownOption "ams.width") ∧
      ¬ (nestedFirst.declared shapes).Declares nestedFirst.options := by
  intro flatFirst nestedFirst
  obtain ⟨hfirst, hiff, happlied⟩ := resolves_iff_declared library.account onlyMakes_optionFree
    keepsOptions flatFirst shapes []
  obtain ⟨-, hiff', -⟩ := resolves_iff_declared library.account onlyMakes_optionFree
    keepsOptions nestedFirst shapes []
  have haccepted : (∀ e ∈ shapes.selection flatFirst.packages, e.item.parser ∈ [defaultParser]) ∧
      ∀ e ∈ shapes.selection nestedFirst.packages, e.item.parser ∈ [defaultParser] := by decide
  have hordered : shapes.ordered flatFirst.packages = [flat, nested] := by
    rw [Registry.ordered, ← RankedList.items_ofEntries]
    rfl
  have huser : (flatFirst.declared shapes).applyUser flatFirst.options =
      .ok flatFirst.options := by
    rw [Settings.declared, hordered]
    rfl
  have hrefused : (nestedFirst.resolve library.behaviour shapes []).1 =
      .error (.unknownOption "ams.width") := rfl
  obtain ⟨⟨parser, engine⟩, hok⟩ :=
    hiff.2 ⟨haccepted.1, (OptionTree.applyUser_eq_ok_iff_declares.1 huser).1⟩
  obtain ⟨hengine, hparser⟩ := happlied parser engine hok
  refine ⟨⟨by rw [hfirst, hordered]; rfl, parser, engine, hok, ?_, hparser⟩, hrefused, fun hd => ?_⟩
  · exact Except.ok.inj (hengine.symm.trans huser)
  · obtain ⟨result, hok'⟩ := hiff'.2 ⟨haccepted.2, hd⟩
    cases hrefused.symm.trans hok'

end ParserPackages
