import ParserPackages.Registry
import ParserPackages.Proofs.Keyed

/-!
# Packages without blank names

A draft is checked for blank names once, when it is built, and a registry registers nothing under a
blank name. So no package has a blank name in it, and neither has a registry.
-/
namespace ParserPackages

variable {H F α : Type}

def NoneBlank (names : List String) : Prop := ∀ name ∈ names, Text.isBlank name = false

theorem noneBlank_iff_any {names : List String} :
    NoneBlank names ↔ names.any Text.isBlank = false := by
  simp [NoneBlank]

theorem Keyed.mem_keys_iff {pairs : List (String × α)} {key : String} :
    key ∈ pairs.map (·.1) ↔ (pairs.lookup key).isSome = true := by
  rw [List.lookup_isSome_iff, List.mem_map]
  exact exists_congr fun p => and_congr_right fun _ => by rw [beq_iff_eq, eq_comm]

theorem KeyMap.mem_keys {m : KeyMap α} {key : String} : key ∈ m.keys ↔ m.contains key = true :=
  Keyed.mem_keys_iff

theorem OptionTree.mem_names {t : OptionTree} {name : String} :
    name ∈ t.names ↔ t.contains name = true :=
  Keyed.mem_keys_iff

def Package.Built (package : Package H F) : Prop :=
  ∃ (draft : Draft H F) (serial : Nat), draft.build serial = .ok package

/-- Neither the package nor anything that it contributes has a blank name. -/
structure Package.WellNamed (package : Package H F) : Prop where
  name : Text.isBlank package.name = false
  handlers : ∀ category, NoneBlank (package.handlers.get category)
  stackItems : NoneBlank package.stackItems.keys
  tags : NoneBlank package.tags.keys
  nodeFactories : NoneBlank package.nodeFactories.keys
  options : NoneBlank package.options.names

theorem Fault.requireName_eq_ok_iff (name : String) (what : Named) :
    Fault.requireName name what = .ok () ↔ Text.isBlank name = false := by
  rw [Fault.requireName]
  cases Text.isBlank name <;> simp

namespace Draft

def frozen (d : Draft H F) (serial : Nat) : Package H F where
  serial := serial
  name := d.name
  parser := d.parser
  priority := d.priority
  handlers := d.handlers
  fallbacks := d.fallbacks
  stackItems := d.stackItems
  tags := d.tags
  nodeFactories := d.nodeFactories
  options := d.options
  preprocessors := d.preprocessors
  postprocessors := d.postprocessors
  init? := d.init?.map fun (hook, priority?) => ⟨hook, priority?.getD d.priority⟩
  ready? := d.ready?.map fun (hook, priority?) => ⟨hook, priority?.getD d.priority⟩

variable {d : Draft H F}

theorem build_eq_ok_iff {serial : Nat} {package : Package H F} :
    d.build serial = .ok package ↔
      Text.isBlank d.name = false ∧ d.defect? = none ∧ package = d.frozen serial := by
  rw [← Fault.requireName_eq_ok_iff d.name .package, build]
  cases Fault.requireName d.name .package with
  | error fault => simp [bind, Except.bind]
  | ok =>
    cases d.defect? with
    | some defect => simp [bind, Except.bind]
    | none => simp [bind, Except.bind, pure, Except.pure, frozen, eq_comm]

theorem blankHandlerMap?_eq_none_iff {handlers : HandlerLists} :
    blankHandlerMap? handlers = none ↔ ∀ category, NoneBlank (handlers.get category) := by
  rw [blankHandlerMap?, List.findSome?_eq_none_iff]
  simp only [ByCategory.toList, List.mem_map, Option.map_eq_none_iff, List.findIdx?_eq_none_iff]
  constructor
  · intro h category
    exact h _ ⟨category, Category.mem_all category, rfl⟩
  · rintro h _ ⟨category, -, rfl⟩
    exact h category

private theorem checked_iff {p : Bool} {defect : Defect} {rest : Option Defect} :
    (if p = true then some defect else rest) = none ↔ p = false ∧ rest = none := by
  cases p <;> simp

theorem noneBlank_of_defect? (h : d.defect? = none) :
    (∀ category, NoneBlank (d.handlers.get category)) ∧ NoneBlank d.stackItems.keys ∧
      NoneBlank d.tags.keys ∧ NoneBlank d.nodeFactories.keys ∧ NoneBlank d.options.names := by
  simp only [defect?] at h
  cases hhandlers : blankHandlerMap? d.handlers with
  | some defect => simp [hhandlers, checked_iff] at h
  | none =>
    simp only [hhandlers, checked_iff] at h
    obtain ⟨-, hstack, htags, hnodes, hoptions, -⟩ := h
    exact ⟨blankHandlerMap?_eq_none_iff.1 hhandlers, noneBlank_iff_any.2 hstack,
      noneBlank_iff_any.2 htags, noneBlank_iff_any.2 hnodes, noneBlank_iff_any.2 hoptions⟩

theorem wellNamed_of_build {serial : Nat} {package : Package H F}
    (h : d.build serial = .ok package) : package.WellNamed := by
  obtain ⟨hname, hdefect, rfl⟩ := build_eq_ok_iff.1 h
  obtain ⟨hhandlers, hstack, htags, hnodes, hoptions⟩ := noneBlank_of_defect? hdefect
  exact ⟨hname, hhandlers, hstack, htags, hnodes, hoptions⟩

end Draft

theorem Package.Built.wellNamed {package : Package H F} (h : package.Built) :
    package.WellNamed := by
  obtain ⟨_, _, hd⟩ := h
  exact Draft.wellNamed_of_build hd

namespace Registry

/-- The registries that come about by registering packages and by defining them. -/
inductive Stocked : Registry H F → Prop
  | empty : Stocked .empty
  | register {r r' : Registry H F} (h : Stocked r) {name : String} {package : Package H F}
      (hp : package.Built) {previous : Option (Package H F)}
      (hr : r.register name package = .ok (previous, r')) : Stocked r'
  | define {r r' : Registry H F} (h : Stocked r) {draft : Draft H F} {serial : Nat}
      {package : Package H F} (hd : r.define draft serial = .ok (package, r')) : Stocked r'

theorem register_eq_ok_iff {r r' : Registry H F} {name : String} {package : Package H F}
    {previous : Option (Package H F)} :
    r.register name package = .ok (previous, r') ↔
      Text.isBlank name = false ∧ previous = r.lookup? name ∧
        r' = ⟨r.entries.insert name package⟩ := by
  rw [← Fault.requireName_eq_ok_iff name .registry, register]
  cases Fault.requireName name .registry with
  | error fault => simp [bind, Except.bind]
  | ok => simp [bind, Except.bind, pure, Except.pure, eq_comm]

/-- Defining a package builds it and registers it under its own name. -/
theorem define_eq_ok {r r' : Registry H F} {draft : Draft H F} {serial : Nat}
    {package : Package H F} (h : r.define draft serial = .ok (package, r')) :
    draft.build serial = .ok package ∧
      r.register package.name package = .ok (r.lookup? package.name, r') := by
  simp only [define] at h
  cases hb : draft.build serial with
  | error fault => rw [hb] at h; cases h
  | ok built =>
    rw [hb] at h
    cases ha : r.add built with
    | error fault => simp [ha, bind, Except.bind] at h
    | ok added =>
      obtain ⟨previous, registry⟩ := added
      simp only [ha, bind, Except.bind, pure, Except.pure, Except.ok.injEq, Prod.mk.injEq] at h
      obtain ⟨rfl, rfl⟩ := h
      obtain ⟨hname, rfl, rfl⟩ := register_eq_ok_iff.1 ha
      exact ⟨rfl, ha⟩

theorem contains_register {r r' : Registry H F} {name : String} {package : Package H F}
    {previous : Option (Package H F)} (hr : r.register name package = .ok (previous, r'))
    (other : String) : r'.contains other = (decide (other = name) || r.contains other) := by
  obtain ⟨-, -, rfl⟩ := register_eq_ok_iff.1 hr
  rw [contains, KeyMap.contains, KeyMap.get?_insert]
  by_cases h : other = name
  · simp [h]
  · simp only [h, if_false, decide_false, Bool.false_or, Option.none_or]
    rfl

theorem forall_lookup?_register {P : String → Package H F → Prop} {r r' : Registry H F}
    (h : ∀ name package, r.lookup? name = some package → P name package) {name : String}
    {package : Package H F} (hp : P name package) {previous : Option (Package H F)}
    (hr : r.register name package = .ok (previous, r')) :
    ∀ other found, r'.lookup? other = some found → P other found := by
  intro other found hl
  obtain ⟨-, -, rfl⟩ := register_eq_ok_iff.1 hr
  rw [lookup?, KeyMap.get?_insert] at hl
  by_cases ho : other = name
  · rw [if_pos ho] at hl
    cases hl
    exact ho ▸ hp
  · rw [if_neg ho] at hl
    exact h other found hl

/-- Whatever is found in a registry was built, and is found by a name that is not blank. -/
theorem Stocked.lookup {r : Registry H F} (h : r.Stocked) :
    ∀ name package, r.lookup? name = some package → Text.isBlank name = false ∧ package.Built := by
  induction h with
  | empty => exact fun _ _ hl => nomatch hl
  | register _ hp hr ih => exact forall_lookup?_register ih ⟨(register_eq_ok_iff.1 hr).1, hp⟩ hr
  | define _ hd ih =>
    obtain ⟨hb, hr⟩ := define_eq_ok hd
    exact forall_lookup?_register ih ⟨(register_eq_ok_iff.1 hr).1, _, _, hb⟩ hr

/-- So no name in a registry is blank. -/
theorem Stocked.noneBlank_names {r : Registry H F} (h : r.Stocked) : NoneBlank r.names := by
  intro name hn
  obtain ⟨package, hl⟩ := Option.isSome_iff_exists.1 (KeyMap.mem_keys.1 hn)
  exact (h.lookup name package hl).1

end Registry
end ParserPackages
