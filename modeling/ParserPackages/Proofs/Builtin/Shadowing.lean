import ParserPackages.Proofs.Builtin.Merging
import ParserPackages.Proofs.Configuration.Lookup

/-!
# Which maps stand before those of user macros

The maps of user macros are merged by the init hook of `newcommand`, behind all selected packages.
So they stand before every macro map that was merged up to then. But later packages come first: the
map that `ams` appends if its hook is called later, and all maps of packages that are added once the
parser is configured.
-/
namespace ParserPackages.Builtin

variable {registry : Registry Hook Filter} {requests : List Request} {serial : Nat}

def commandMaps (packages : List ScriptedPackage) : List String :=
  packages.reverse.flatMap (·.handlers.get .command)

/-- The macro map that the hook of `ams` brings. -/
def operatorMaps (package : ScriptedPackage) : List String :=
  if package.name = "ams" then ["AMSmath-operator"] else []

/-- The macro maps that come before those of `newcommand`: of packages that are added later, with
what they append, and before that of `ams` if it is merged behind `newcommand`. -/
def laterMaps (behind added : List ScriptedPackage) : List String :=
  (added.reverse.flatMap fun package => operatorMaps package ++ package.handlers.get .command) ++
    behind.reverse.flatMap operatorMaps

theorem commandMaps_append (first second : List ScriptedPackage) :
    commandMaps (first ++ second) = commandMaps second ++ commandMaps first := by
  simp [commandMaps]

theorem commandMaps_cons (package : ScriptedPackage) (rest : List ScriptedPackage) :
    commandMaps (package :: rest) = commandMaps rest ++ package.handlers.get .command := by
  simp [commandMaps]

theorem commandMaps_flatMap {packages : List ScriptedPackage}
    {f : ScriptedPackage → List ScriptedPackage} {maps : ScriptedPackage → List String}
    (h : ∀ package ∈ packages, commandMaps (f package) = maps package) :
    commandMaps (packages.flatMap f) = packages.reverse.flatMap maps := by
  induction packages with
  | nil => rfl
  | cons package rest ih =>
    obtain ⟨hhead, hrest⟩ := List.forall_mem_cons.1 h
    simp [commandMaps_append, ih hrest, hhead]

theorem Ordinary.commandMaps_locals {package : ScriptedPackage} (h : Ordinary package)
    (hn : package.name ≠ "newcommand") : commandMaps (locals package) = operatorMaps package := by
  rw [h.locals_eq, localsOf, operatorMaps, if_neg hn]
  split <;> rfl

theorem Ordinary.commandMaps_newcommand {package : ScriptedPackage} (h : Ordinary package)
    (hn : package.name = "newcommand") :
    commandMaps (locals package) = ["new-Delimiter", "new-Command"] := by
  rw [h.locals_eq, hn]
  rfl

theorem exists_newcommand (hr : register .empty serial = .ok registry)
    (hn : "newcommand" ∈ requests.map (·.name)) :
    ∃ newcommand ∈ registry.ordered requests, newcommand.name = "newcommand" := by
  obtain ⟨request, hmem, hname⟩ := List.mem_map.1 hn
  have hdraft : "newcommand" ∈ (drafts serial).map (·.name) :=
    List.mem_map.2 ⟨newcommandDraft (serial + 23), by simp [drafts], rfl⟩
  obtain ⟨package, hl⟩ := exists_lookup?_addAll hr (.inl hdraft)
  obtain ⟨draft, -, hd, n, rfl⟩ := from_of_register hr hl
  obtain ⟨newcommand, hordered, heq⟩ := Registry.exists_mem_ordered hmem (hname ▸ hl)
  exact ⟨newcommand, hordered, heq.trans hd⟩

theorem Run.ne_newcommand (hr : register .empty serial = .ok registry)
    {newcommand : ScriptedPackage} (hmem : newcommand ∈ registry.ordered requests)
    (hn : newcommand.name = "newcommand") {parser : Running Hook Filter}
    {added : List ScriptedPackage} (h : Run registry requests parser added) :
    ∀ package ∈ added, package.name ≠ "newcommand" := by
  induction h with
  | configured => exact List.forall_mem_nil _
  | @added parser added h name package hl engine overrides world ho ih =>
    refine List.forall_mem_append.2 ⟨ih, List.forall_mem_singleton.2 fun heq => ?_⟩
    have hmerged : package.name ∈ parser.active.packages := by
      rw [h.packages_eq hr, heq, ← hn]
      exact List.mem_map_of_mem (List.mem_append_left _ (List.mem_append_left _ hmem))
    have he := Running.extended library.behaviour parser registry name engine overrides world
    generalize parser.extend library.behaviour registry name engine overrides world = step
      at he ho
    cases he with
    | unknown | present | foreign | undeclared => cases ho
    | added hl' hnew =>
      obtain rfl := Option.some.inj (hl.symm.trans hl')
      simp [Configuration.containsPackage, hmerged] at hnew
  | unchanged _ _ ih => exact ih

/-- The maps of `newcommand` stand right behind the later ones. -/
theorem commandMaps_merged {before behind added : List ScriptedPackage}
    {newcommand : ScriptedPackage} (hn : newcommand.name = "newcommand")
    (hs : ∀ package ∈ before ++ newcommand :: behind, Ordinary package)
    (hb : ∀ package ∈ behind, package.name ≠ "newcommand")
    (ha : ∀ package ∈ added, Ordinary package ∧ package.name ≠ "newcommand") :
    ∃ earlier, commandMaps (merged (before ++ newcommand :: behind) added) =
      laterMaps behind added ++ "new-Delimiter" :: "new-Command" :: earlier := by
  obtain ⟨hnew, hbehind⟩ := List.forall_mem_cons.1 (List.forall_mem_append.1 hs).2
  have hadded : commandMaps (added.flatMap fun package => package :: locals package) =
      added.reverse.flatMap fun package =>
        operatorMaps package ++ package.handlers.get .command := by
    refine commandMaps_flatMap fun package hmem => ?_
    obtain ⟨hordinary, hne⟩ := ha package hmem
    rw [commandMaps_cons, hordinary.commandMaps_locals hne]
  have hoperators : commandMaps (behind.flatMap locals) = behind.reverse.flatMap operatorMaps :=
    commandMaps_flatMap fun package hmem =>
      (hbehind package hmem).commandMaps_locals (hb package hmem)
  refine ⟨commandMaps (before.flatMap locals) ++ commandMaps (before ++ newcommand :: behind), ?_⟩
  rw [merged, commandMaps_append, commandMaps_append, hadded, List.flatMap_append,
    List.flatMap_cons, commandMaps_append, commandMaps_append, hoperators,
    hnew.commandMaps_newcommand hn, laterMaps]
  simp

/-- A token of user macros goes to the first later map that claims it, and to their own maps if
there is none. -/
theorem resolve_definitions {c : Configuration Hook Filter} (hf : c.IndexFresh)
    {later earlier : List String}
    (hc : c.handlers.get .command = later ++ "new-Delimiter" :: "new-Command" :: earlier)
    {claims : Claims} {token : String}
    (h : claims "new-Delimiter" token = true ∨ claims "new-Command" token = true) :
    c.resolve .command token claims = .map ((later.find? (claims · token)).getD
      (if claims "new-Delimiter" token = true then "new-Delimiter" else "new-Command")) := by
  rw [hf.resolve_eq, hc]
  simp only [HandlerIndex.resolveIn, List.find?_append]
  cases later.find? (claims · token) with
  | some map => rfl
  | none =>
    by_cases hd : claims "new-Delimiter" token = true
    · simp [hd]
    · simp [hd, h.resolve_left hd]

/-- Built-in packages are prepared, `newcommand` among them, and after an engine has been
configured, extensions add others. In the order of lookup, the maps of user macros stand behind the
macro maps of all packages that were added, each with the operator map if it is `ams`, and behind
the operator map if `ams` was merged behind `newcommand`. All other macro maps come after them. So
user macros shadow the maps that were merged before them, and later maps shadow user macros. -/
theorem user_macros_shadow_earlier_maps (hr : register .empty serial = .ok registry)
    (hn : "newcommand" ∈ requests.map (·.name)) :
    (∃ before newcommand behind, registry.ordered requests = before ++ newcommand :: behind ∧
      newcommand.name = "newcommand") ∧
    ∀ before newcommand behind, registry.ordered requests = before ++ newcommand :: behind →
      newcommand.name = "newcommand" → ∀ parser added, Run registry requests parser added →
        let later := laterMaps behind added
        (∃ earlier, parser.active.handlers.get .command =
          later ++ "new-Delimiter" :: "new-Command" :: earlier) ∧
        ∀ (claims : Claims) (token : String),
          claims "new-Delimiter" token = true ∨ claims "new-Command" token = true →
            parser.active.resolve .command token claims =
              .map ((later.find? (claims · token)).getD
                (if claims "new-Delimiter" token = true then "new-Delimiter"
                  else "new-Command")) := by
  refine ⟨?_, fun before newcommand behind hsplit hname parser added h => ?_⟩
  · obtain ⟨newcommand, hmem, hname⟩ := exists_newcommand hr hn
    obtain ⟨before, behind, hsplit⟩ := List.append_of_mem hmem
    exact ⟨before, newcommand, behind, hsplit, hname⟩
  · have hmem : newcommand ∈ registry.ordered requests := by simp [hsplit]
    -- no two selected packages have the same name
    have hbehind : ∀ package ∈ behind, package.name ≠ "newcommand" := by
      intro package hp heq
      have hnodup := registry.nodup_ordered requests
      rw [hsplit, List.map_append, List.nodup_append, List.map_cons, List.nodup_cons] at hnodup
      exact hnodup.2.1.1 (List.mem_map.2 ⟨package, hp, heq.trans hname.symm⟩)
    have hordered := ordinary_ordered hr requests
    rw [hsplit] at hordered
    obtain ⟨earlier, hmaps⟩ := commandMaps_merged hname hordered hbehind fun package hp =>
      ⟨(h.held package hp).ordinary hr, h.ne_newcommand hr hmem hname package hp⟩
    have hactive := h.active_eq hr
    rw [hsplit] at hactive
    have hhandlers : parser.active.handlers.get .command =
        laterMaps behind added ++ "new-Delimiter" :: "new-Command" :: earlier := by
      rw [hactive, ← hmaps, Configuration.rebuildIndex,
        (Configuration.empty.growsBy_appendAll _).handlers]
      exact List.append_nil _
    have hfresh : parser.active.IndexFresh := by
      rw [hactive]
      exact Configuration.indexFresh_rebuildIndex _
    exact ⟨⟨earlier, hhandlers⟩, fun claims token hclaimed =>
      resolve_definitions hfresh hhandlers hclaimed⟩

/-- The user defines `foo`, which is an operator, too, and `let`, which `base` knows. -/
def userMacros : HandlerMaps :=
  ((HandlerMaps.empty.define "new-Command" ["foo", "let"]).define "AMSmath-operator"
    ["foo"]).define "macros" ["let"]

/-- `newcommand` is prepared behind `ams`, so that `foo` is what the user defined. When `base` is
added, `let` goes to its map, and `foo` stays. -/
theorem foo_defined_behind_ams :
    ∃ ams newcommand prepared parser,
      let b := library.behaviour
      let requests : List Request := [.ofName "ams", .ofName "newcommand"]
      let extended := parser.extend b stock "base" .empty none []
      (register .empty 0 = .ok stock ∧ "newcommand" ∈ requests.map (·.name) ∧
        stock.ordered requests = [ams] ++ newcommand :: [] ∧
        newcommand.name = "newcommand") ∧
      (Prepared.ofRequests b stock requests [defaultParser] []).1 = .ok prepared ∧
      (prepared.configure b .empty []).1 = .ok parser ∧ extended.outcome = .ok true ∧
      parser.active.resolve .command "foo" userMacros.claims = .map "new-Command" ∧
      parser.active.resolve .command "let" userMacros.claims = .map "new-Command" ∧
      extended.parser.active.resolve .command "foo" userMacros.claims = .map "new-Command" ∧
      extended.parser.active.resolve .command "let" userMacros.claims = .map "macros" := by
  have hordered : stock.ordered [.ofName "ams", .ofName "newcommand"] =
      [(amsDraft 20).frozen 26] ++ (newcommandDraft 23).frozen 27 :: [] := by
    rw [Registry.ordered, ← RankedList.items_ofEntries]
    rfl
  have hrequested : "newcommand" ∈ [Request.ofName "ams", .ofName "newcommand"].map (·.name) := by
    decide
  obtain ⟨-, hshadow⟩ := user_macros_shadow_earlier_maps register_empty hrequested
  have hp : (Prepared.ofRequests library.behaviour stock [.ofName "ams", .ofName "newcommand"]
      [defaultParser] []).1 = .ok _ := rfl
  have hrun := Run.configured hp
    (show (Prepared.configure library.behaviour _ .empty []).1 = .ok _ from rfl)
  have hadded := hrun.added (show stock.lookup? "base" = some _ from rfl)
    (show (Running.extend library.behaviour _ stock "base" .empty none []).outcome = _ from rfl)
  obtain ⟨-, hprepared⟩ := hshadow _ _ _ hordered rfl _ _ hrun
  obtain ⟨-, hextended⟩ := hshadow _ _ _ hordered rfl _ _ hadded
  exact ⟨_, _, _, _, ⟨register_empty, hrequested, hordered, rfl⟩, hp, rfl, rfl,
    (hprepared userMacros.claims "foo" (.inr rfl)).trans rfl,
    (hprepared userMacros.claims "let" (.inr rfl)).trans rfl,
    (hextended userMacros.claims "foo" (.inr rfl)).trans rfl,
    (hextended userMacros.claims "let" (.inr rfl)).trans rfl⟩

/-- If the order is the other way, `foo` goes to the operators, and when `base` is added, `let` goes
to its map. In both cases a map of user macros claims the token, too. -/
theorem later_maps_shadow_user_macros :
    ∃ prepared parser,
      let b := library.behaviour
      let requests : List Request := [.ofName "newcommand", .ofName "ams"]
      let extended := parser.extend b stock "base" .empty none []
      register .empty 0 = .ok stock ∧ "newcommand" ∈ requests.map (·.name) ∧
        (Prepared.ofRequests b stock requests [defaultParser] []).1 = .ok prepared ∧
        (prepared.configure b .empty []).1 = .ok parser ∧ extended.outcome = .ok true ∧
        userMacros.claims "new-Command" "foo" = true ∧
        parser.active.resolve .command "foo" userMacros.claims = .map "AMSmath-operator" ∧
        userMacros.claims "new-Command" "let" = true ∧
        extended.parser.active.resolve .command "let" userMacros.claims = .map "macros" :=
  ⟨_, _, register_empty, by decide, rfl, rfl, rfl, rfl, rfl, rfl, rfl⟩

end ParserPackages.Builtin
