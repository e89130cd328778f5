import ParserPackages.Builtin
import ParserPackages.Proofs.Configuration.WellNamed
import ParserPackages.Proofs.Engine.Hooks
import ParserPackages.Proofs.Script.Account

/-!
# What the built-in packages do

Registration builds the drafts one by one, so what the registry holds was built from one of them.
There are two hooks, and each of them appends one local package and does nothing else.
-/
namespace ParserPackages.Builtin

variable {registry r : Registry Hook Filter} {serial : Nat}

/-- The local package that `ams` appends. -/
def operators : ScriptedPackage := operatorsDraft.frozen 0

def definitions : ScriptedPackage := definitionsDraft.frozen 0

theorem build_operatorsDraft : operatorsDraft.build 0 = .ok operators := rfl

theorem build_definitionsDraft : definitionsDraft.build 0 = .ok definitions := rfl

def appendedBy (hook : Hook) : List ScriptedPackage :=
  if hook = operatorsHook then [operators]
  else if hook = definitionsHook then [definitions]
  else []

theorem script?_cases (hook : Hook) :
    (library.script? hook = none ∧ appendedBy hook = []) ∨
      ∃ package, library.script? hook = some ⟨[.append package], .proceed⟩ ∧
        appendedBy hook = [package] := by
  by_cases ho : hook = operatorsHook
  · subst ho
    exact .inr ⟨operators, rfl, rfl⟩
  by_cases hd : hook = definitionsHook
  · subst hd
    exact .inr ⟨definitions, rfl, rfl⟩
  · exact .inl ⟨by simp only [library, script?, ho, hd, if_false],
      by simp only [appendedBy, ho, hd, if_false]⟩

/-- Hooks go on, and do nothing but append packages. -/
theorem runHook_eq (hook : Hook) (s : Scene) :
    library.runHook hook s =
      (.proceed, { s with configuration := s.configuration.appendAll (appendedBy hook) }) := by
  rcases script?_cases hook with ⟨hs, ha⟩ | ⟨package, hs, ha⟩ <;>
  · rw [ScriptLibrary.runHook, hs, ha]
    rfl

theorem changes_eq (hook : Hook) : library.changes hook = (appendedBy hook).map .append := by
  rcases script?_cases hook with ⟨hs, ha⟩ | ⟨package, hs, ha⟩ <;>
  · rw [ScriptLibrary.changes, hs, ha]
    rfl

theorem mem_appendedBy {hook : Hook} {package : ScriptedPackage} (h : package ∈ appendedBy hook) :
    package = operators ∨ package = definitions := by
  simp only [appendedBy] at h
  split at h
  · exact .inl (List.mem_singleton.1 h)
  split at h
  · exact .inr (List.mem_singleton.1 h)
  · cases h

theorem onlyMakes {P : Change Hook Filter → Prop} (ho : P (.append operators))
    (hd : P (.append definitions)) : library.account.OnlyMakes P := by
  refine ScriptLibrary.onlyMakes fun hook change hc => ?_
  rw [changes_eq] at hc
  obtain ⟨package, hp, rfl⟩ := List.mem_map.1 hc
  rcases mem_appendedBy hp with rfl | rfl
  · exact ho
  · exact hd

theorem onlyMakes_appendsBuilt : library.account.OnlyMakes Change.AppendsBuilt :=
  onlyMakes ⟨_, _, build_operatorsDraft⟩ ⟨_, _, build_definitionsDraft⟩

theorem keepsOptions : library.behaviour.KeepsOptions where
  onEngine hook s := by
    simp only [ScriptLibrary.behaviour, runHook_eq]
    exact .refl s.engine

/-! ## Registration -/

theorem addAll_cons {draft : Draft Hook Filter} (hn : Text.isBlank draft.name = false)
    (hd : draft.defect? = none) (rest : List (Draft Hook Filter)) :
    addAll r serial (draft :: rest) =
      addAll ⟨r.entries.insert draft.name (draft.frozen serial)⟩ (serial + 1) rest := by
  have hb : draft.build serial = .ok (draft.frozen serial) :=
    Draft.build_eq_ok_iff.2 ⟨hn, hd, rfl⟩
  have hr : r.register (draft.frozen serial).name (draft.frozen serial) =
      .ok (r.lookup? draft.name, ⟨r.entries.insert draft.name (draft.frozen serial)⟩) :=
    Registry.register_eq_ok_iff.2 ⟨hn, rfl, rfl⟩
  simp only [addAll, Registry.define, Registry.add, hb, bind, Except.bind, hr]
  rfl

theorem addAll_cons_eq_ok {draft : Draft Hook Filter} {rest : List (Draft Hook Filter)}
    (h : addAll r serial (draft :: rest) = .ok registry) :
    ∃ package r', r.define draft serial = .ok (package, r') ∧
      addAll r' (serial + 1) rest = .ok registry := by
  simp only [addAll] at h
  cases hd : r.define draft serial with
  | error fault => rw [hd] at h; cases h
  | ok defined =>
    rw [hd] at h
    exact ⟨defined.1, defined.2, rfl, h⟩

theorem stocked_addAll {drafts : List (Draft Hook Filter)} (hr : r.Stocked)
    (h : addAll r serial drafts = .ok registry) : registry.Stocked := by
  induction drafts generalizing r serial with
  | nil => cases h; exact hr
  | cons draft rest ih =>
    obtain ⟨package, r', hd, hrest⟩ := addAll_cons_eq_ok h
    exact ih (hr.define hd) hrest

theorem stocked_register (hr : r.Stocked) (h : register r serial = .ok registry) :
    registry.Stocked :=
  stocked_addAll hr h

/-- The registry of the built-in packages, with the numbers that they have in it. -/
def stock : Registry Hook Filter :=
  ⟨(((KeyMap.empty.insert "base" ((baseDraft 0).frozen 25)).insert
    "ams" ((amsDraft 20).frozen 26)).insert
    "newcommand" ((newcommandDraft 23).frozen 27)).insert
    "noundefined" ((noundefinedDraft 24).frozen 28)⟩

theorem register_empty : register .empty 0 = .ok stock := by
  rw [register, drafts, addAll_cons rfl rfl, addAll_cons rfl rfl, addAll_cons rfl rfl,
    addAll_cons rfl rfl]
  rfl

/-- The package comes from one of these drafts and is found by its name. -/
def From (drafts : List (Draft Hook Filter)) (name : String) (package : ScriptedPackage) : Prop :=
  ∃ draft ∈ drafts, draft.name = name ∧ ∃ n, package = draft.frozen n

/-- What is found once drafts have been added was found before or comes from a draft. -/
theorem lookup?_addAll {drafts : List (Draft Hook Filter)}
    (h : addAll r serial drafts = .ok registry) :
    ∀ name package, registry.lookup? name = some package →
      r.lookup? name = some package ∨ From drafts name package := by
  induction drafts generalizing r serial with
  | nil => cases h; exact fun _ _ hl => .inl hl
  | cons draft rest ih =>
    obtain ⟨built, r', hd, hrest⟩ := addAll_cons_eq_ok h
    obtain ⟨hb, hr⟩ := Registry.define_eq_ok hd
    obtain ⟨-, -, rfl⟩ := Draft.build_eq_ok_iff.1 hb
    intro name package hl
    rcases ih hrest name package hl with hfirst | ⟨other, hmem, hother⟩
    · refine Registry.forall_lookup?_register (P := fun name package =>
        r.lookup? name = some package ∨ From (draft :: rest) name package)
        (fun _ _ h => .inl h) ?_ hr name package hfirst
      exact .inr ⟨draft, List.mem_cons_self .., rfl, serial, rfl⟩
    · exact .inr ⟨other, List.mem_cons_of_mem _ hmem, hother⟩

theorem exists_lookup?_addAll {drafts : List (Draft Hook Filter)}
    (h : addAll r serial drafts = .ok registry) {name : String}
    (hn : name ∈ drafts.map (·.name) ∨ r.contains name = true) :
    ∃ package, registry.lookup? name = some package := by
  induction drafts generalizing r serial with
  | nil =>
    cases h
    exact Option.isSome_iff_exists.1 (hn.resolve_left List.not_mem_nil)
  | cons draft rest ih =>
    obtain ⟨built, r', hd, hrest⟩ := addAll_cons_eq_ok h
    obtain ⟨hb, hr⟩ := Registry.define_eq_ok hd
    obtain ⟨-, -, rfl⟩ := Draft.build_eq_ok_iff.1 hb
    refine ih hrest ?_
    rw [Registry.contains_register hr, Bool.or_eq_true_iff, decide_eq_true_eq]
    rw [List.map_cons, List.mem_cons, or_assoc] at hn
    rcases hn with hself | hother | hbefore
    · exact .inr (.inl hself)
    · exact .inl hother
    · exact .inr (.inr hbefore)

end ParserPackages.Builtin
