import ParserPackages.Script.Hook
import ParserPackages.Proofs.OptionTree.Layers

/-!
# Calls of the option step

An engine may be asked to apply options again and again. What its options come to is the defaults
of the accepted calls with the options of the user over them, where overrides are laid on in the
order in which they arrived. Laying them on at once can come to something else: a value that was
put in the place of a declared object hides what was declared below it, even after a later override
has opened the object again. Calls without overrides add missing defaults and do nothing else.
-/
namespace ParserPackages

variable {F : Type}

structure OptionCall where
  defaults : OptionTree
  overrides : Option OptionTree

namespace OptionCall

def ofDefaults (defaults : OptionTree) : OptionCall := ⟨defaults, none⟩

/-- The options of a user once the overrides of a call have joined them. -/
def join (call : OptionCall) (user : OptionTree) : OptionTree :=
  call.overrides.toList.foldl OptionTree.overlay user

theorem namesIn_join (call : OptionCall) (user : OptionTree) : user.NamesIn (call.join user) := by
  obtain ⟨defaults, overrides⟩ := call
  cases overrides with
  | none => exact .refl user
  | some extra => exact user.namesIn_overlay extra

def overridesOf (calls : List OptionCall) : List OptionTree :=
  calls.flatMap (·.overrides.toList)

theorem overridesOf_cons (call : OptionCall) (rest : List OptionCall) :
    overridesOf (call :: rest) = call.overrides.toList ++ overridesOf rest := List.flatMap_cons

end OptionCall

namespace Engine

/-- The engine after a call; a refused call changes nothing. -/
def afterCall (e : Engine F) (call : OptionCall) : Engine F :=
  match e.applyOptions call.defaults call.overrides with
  | .ok e' => e'
  | .error _ => e

def afterCalls (e : Engine F) (calls : List OptionCall) : Engine F := calls.foldl afterCall e

/-- Those of the calls that are accepted when they are made one by one. -/
def accepted (e : Engine F) : List OptionCall → List OptionCall
  | [] => []
  | call :: rest =>
    match e.applyOptions call.defaults call.overrides with
    | .ok e' => call :: e'.accepted rest
    | .error _ => e.accepted rest

/-- A call is accepted if the options of the user, overrides included, are declared by the options
so far and the new defaults. -/
theorem applyOptions_eq_ok_iff (call : OptionCall) {e e' : Engine F} :
    e.applyOptions call.defaults call.overrides = .ok e' ↔
      ∃ options, (e.options.fill call.defaults).applyUser (call.join e.userOptions) = .ok options ∧
        e' = { e with userOptions := call.join e.userOptions, options } := by
  obtain ⟨defaults, overrides⟩ := call
  cases overrides <;>
  · simp only [applyOptions, OptionCall.join, Option.toList_none, Option.toList_some,
      List.foldl_nil, List.foldl_cons]
    split
    · rename_i hu
      simp [hu]
    · rename_i options hu
      simp [hu, eq_comm]

theorem applyOptions_ofUserOptions (user defaults : OptionTree) :
    (ofUserOptions user : Engine F).applyOptions defaults none =
      match defaults.applyUser user with
      | .error path => .error (.unknownOption path)
      | .ok options => .ok ⟨.empty, .empty, user, options⟩ := by
  cases hu : defaults.applyUser user <;>
    simp only [applyOptions, ofUserOptions, OptionTree.empty_fill, hu]

/-- The options of the user have been applied to the options. -/
def Settled (e : Engine F) : Prop := e.options.applyUser e.userOptions = .ok e.options

/-- Whatever the engine was, an accepted call settles it. -/
theorem settled_of_applyOptions (call : OptionCall) {e e' : Engine F}
    (h : e.applyOptions call.defaults call.overrides = .ok e') : e'.Settled := by
  obtain ⟨options, hu, rfl⟩ := (applyOptions_eq_ok_iff call).1 h
  exact OptionTree.applyUser_again hu

/-- A settled engine takes all defaults, and adds those that are missing. -/
theorem Settled.applyOptions_none {e : Engine F} (h : e.Settled) (defaults : OptionTree) :
    e.applyOptions defaults none = .ok { e with options := e.options.fill defaults } :=
  (applyOptions_eq_ok_iff (.ofDefaults defaults)).2
    ⟨_, OptionTree.applyUser_fill h defaults, rfl⟩

theorem descend_of_applyOptions {e e' : Engine F} {defaults overrides : OptionTree}
    (h : e.applyOptions defaults (some overrides) = .ok e') {path : List String} {leaf : Json}
    (hd : OptionTree.descend overrides.toJson path = some leaf)
    (hl : ∀ fields, leaf ≠ .obj fields) :
    OptionTree.descend e'.options.toJson path = some leaf := by
  obtain ⟨options, hu, rfl⟩ := (applyOptions_eq_ok_iff ⟨defaults, some overrides⟩).1 h
  obtain ⟨-, rfl⟩ := OptionTree.applyUser_eq_ok_iff_declares.1 hu
  exact OptionTree.descend_overlay (OptionTree.descend_overlay hd hl _) hl _

theorem Settled.afterCall {e : Engine F} (h : e.Settled) (call : OptionCall) :
    (e.afterCall call).Settled := by
  rw [Engine.afterCall]
  split
  · rename_i ho
    exact settled_of_applyOptions call ho
  · exact h

theorem Settled.afterCalls {e : Engine F} (h : e.Settled) (calls : List OptionCall) :
    (e.afterCalls calls).Settled := by
  induction calls generalizing e with
  | nil => exact h
  | cons call rest ih => exact ih (h.afterCall call)

/-- One accepted call is enough. -/
theorem settled_of_accepted {e : Engine F} {calls : List OptionCall} (h : e.accepted calls ≠ []) :
    (e.afterCalls calls).Settled := by
  induction calls generalizing e with
  | nil => exact absurd rfl h
  | cons call rest ih =>
    rw [Engine.afterCalls, List.foldl_cons, Engine.afterCall]
    rw [accepted] at h
    split at h
    · rename_i e' ho
      exact (settled_of_applyOptions call ho).afterCalls rest
    · exact ih h

theorem Settled.accepted_ofDefaults {e : Engine F} (h : e.Settled) (later : List OptionTree) :
    e.accepted (later.map .ofDefaults) = later.map .ofDefaults := by
  induction later generalizing e with
  | nil => rfl
  | cons defaults rest ih =>
    have hnone := h.applyOptions_none defaults
    have hcall : e.applyOptions (OptionCall.ofDefaults defaults).defaults
        (OptionCall.ofDefaults defaults).overrides = _ := hnone
    rw [List.map_cons, accepted, hcall]
    exact congrArg _ (ih (settled_of_applyOptions (.ofDefaults defaults) hnone))

theorem Settled.afterCalls_ofDefaults {e : Engine F} (h : e.Settled) (later : List OptionTree) :
    e.afterCalls (later.map .ofDefaults) =
      { e with options := later.foldl OptionTree.fill e.options } := by
  induction later generalizing e with
  | nil => rfl
  | cons defaults rest ih =>
    have hnone := h.applyOptions_none defaults
    have hcall : e.afterCall (.ofDefaults defaults) =
        { e with options := e.options.fill defaults } := by
      simp only [Engine.afterCall, OptionCall.ofDefaults, hnone]
    rw [List.map_cons, Engine.afterCalls, List.foldl_cons, hcall]
    exact ih (settled_of_applyOptions (.ofDefaults defaults) hnone)

/-- The options of the engine are these defaults with first these options of the user and then
later overrides laid over them, one by one. -/
structure Layered (e : Engine F) (defaults initial : OptionTree) (later : List OptionTree) :
    Prop where
  userOptions : e.userOptions = later.foldl OptionTree.overlay initial
  options : (initial :: later).foldlM OptionTree.applyUser defaults = .ok e.options
  settled : e.Settled

namespace Layered

variable {e e' : Engine F} {defaults initial : OptionTree} {later : List OptionTree}

/-- The first accepted call lays the options of the user over its defaults. -/
theorem first {user : OptionTree} {call : OptionCall}
    (h : (ofUserOptions user : Engine F).applyOptions call.defaults call.overrides = .ok e) :
    e.Layered call.defaults (call.join user) [] := by
  have hsettled := settled_of_applyOptions call h
  obtain ⟨options, hu, rfl⟩ := (applyOptions_eq_ok_iff call).1 h
  rw [ofUserOptions, OptionTree.empty_fill] at hu
  exact ⟨rfl, OptionTree.foldlM_applyUser_cons.2 ⟨options, hu, rfl⟩, hsettled⟩

/-- A call that is accepted later lays its overrides on top. -/
theorem applyOptions (h : e.Layered defaults initial later) {call : OptionCall}
    (ho : e.applyOptions call.defaults call.overrides = .ok e') :
    e'.Layered (defaults.fill call.defaults) initial (later ++ call.overrides.toList) := by
  have hsettled := settled_of_applyOptions call ho
  obtain ⟨options, hu, rfl⟩ := (applyOptions_eq_ok_iff call).1 ho
  have hbelow := OptionTree.foldlM_applyUser_fill h.options call.defaults
  have happlied := OptionTree.applyUser_fill h.settled call.defaults
  refine ⟨?_, ?_, hsettled⟩
  · rw [List.foldl_append, ← h.userOptions]
    rfl
  · -- the options of the user so far have been applied, so the overrides are laid on alone
    have htop : call.overrides.toList.foldlM OptionTree.applyUser
        (e.options.fill call.defaults) = .ok options := by
      rw [OptionCall.join] at hu
      cases hc : call.overrides with
      | none =>
        rw [hc] at hu
        exact congrArg Except.ok (Except.ok.inj (happlied.symm.trans hu))
      | some extra =>
        rw [hc] at hu
        exact OptionTree.foldlM_applyUser_cons.2
          ⟨options, OptionTree.applyUser_of_applied happlied hu, rfl⟩
    rw [← List.cons_append, List.foldlM_append, hbelow]
    exact htop

theorem afterCalls (h : e.Layered defaults initial later) (calls : List OptionCall) :
    (e.afterCalls calls).Layered
      (((e.accepted calls).map (·.defaults)).foldl .fill defaults) initial
      (later ++ OptionCall.overridesOf (e.accepted calls)) := by
  induction calls generalizing e defaults later with
  | nil => simpa [Engine.afterCalls, accepted, OptionCall.overridesOf] using h
  | cons call rest ih =>
    rw [Engine.afterCalls, List.foldl_cons, accepted, Engine.afterCall]
    split
    · rename_i e' ho
      have hrest := ih (h.applyOptions ho)
      rwa [List.append_assoc, ← OptionCall.overridesOf_cons] at hrest
    · exact ih h

/-- From the first accepted call on, the options of a fresh engine are layered. -/
theorem ofUserOptions {user : OptionTree} {calls : List OptionCall} {first : OptionCall}
    {rest : List OptionCall} (h : (ofUserOptions user : Engine F).accepted calls = first :: rest) :
    ((ofUserOptions user : Engine F).afterCalls calls).Layered
      (.firstOf ((first :: rest).map (·.defaults))) (first.join user)
      (OptionCall.overridesOf rest) := by
  induction calls with
  | nil => cases h
  | cons call more ih =>
    rw [Engine.afterCalls, List.foldl_cons, Engine.afterCall]
    rw [accepted] at h
    split at h
    · rename_i e ho
      obtain ⟨rfl, rfl⟩ := List.cons.inj h
      rw [List.map_cons, OptionTree.firstOf_cons]
      exact (Layered.first ho).afterCalls more
    · exact ih h

end Layered

/-- The options of an engine that accepts calls are the defaults of these calls with layers over
them: the options of the user as they were at the first accepted call, and then the overrides of
later ones in the order of their arrival. Where no layer obstructs a declared object that a later
one opens again, a fresh engine with the accumulated options of the user comes to the same by one
call with the accumulated defaults. -/
theorem options_layered_in_turn (user : OptionTree) (calls : List OptionCall) {first : OptionCall}
    {rest : List OptionCall} (h : (ofUserOptions user : Engine F).accepted calls = first :: rest) :
    let e := (ofUserOptions user : Engine F).afterCalls calls
    let defaults := OptionTree.firstOf ((first :: rest).map (·.defaults))
    let initial := first.join user
    let later := OptionCall.overridesOf rest
    e.userOptions = later.foldl .overlay initial ∧
      (initial :: later).foldlM OptionTree.applyUser defaults = .ok e.options ∧
      ((∀ before extra after, later = before ++ extra :: after →
          defaults.Unobstructed (before.foldl .overlay initial) extra) →
        ∃ fresh, (ofUserOptions e.userOptions : Engine F).applyOptions defaults none = .ok fresh ∧
          fresh.options = e.options ∧ fresh.userOptions = e.userOptions) := by
  intro e defaults initial later
  have hlayered : e.Layered defaults initial later := .ofUserOptions h
  refine ⟨hlayered.userOptions, hlayered.options, fun hu => ?_⟩
  have hat_once := OptionTree.applyUser_foldl_overlay hlayered.options hu
  refine ⟨⟨.empty, .empty, e.userOptions, e.options⟩, ?_, rfl, rfl⟩
  rw [applyOptions_ofUserOptions, hlayered.userOptions, hat_once]

end Engine

namespace Sample

def amsDefaults : OptionTree :=
  .set .empty "ams" (.obj [("multlineIndent", .str "1em"), ("multlineWidth", .str "100%")])

def narrow : OptionTree := .set .empty "ams" (.obj [("multlineWidth", .str "85%")])

def indented : OptionTree := .set .empty "ams" (.obj [("multlineIndent", .str "2em")])

def closing : OptionTree := .set .empty "ams" .null

def tagDefaults : OptionTree := .set .empty "tags" (.str "none")

/-- The options of the user are undeclared at first, and so are the last overrides. -/
def amsCalls : List OptionCall :=
  [.ofDefaults .empty, .ofDefaults amsDefaults, ⟨tagDefaults, some indented⟩,
    ⟨.empty, some (.set .empty "amsmath" .null)⟩]

theorem unobstructed_indented (declared : OptionTree) :
    declared.Unobstructed narrow indented := by
  intro path inner incoming under _ hextra huser
  cases path with
  | nil => exact ⟨narrow.fields, (Option.some.inj huser).symm⟩
  | cons name path =>
    obtain ⟨_, value, ⟨⟩, hvalue, hextra⟩ := OptionTree.descend_cons_eq_some hextra
    cases List.mem_singleton.1 (Keyed.mem_of_lookup hvalue)
    cases path with
    | nil => exact ⟨_, (Option.some.inj huser).symm⟩
    | cons name path =>
      -- below, the overrides have no object
      obtain ⟨_, value, ⟨⟩, hvalue, hextra⟩ := OptionTree.descend_cons_eq_some hextra
      cases List.mem_singleton.1 (Keyed.mem_of_lookup hvalue)
      cases path <;> cases hextra

end Sample

open Sample in
/-- Both overrides reach the sub-tree, in two steps or at once. -/
theorem narrow_indented_in_turn :
    let e := (Engine.ofUserOptions narrow : Engine Filter).afterCalls amsCalls
    (Engine.ofUserOptions narrow : Engine Filter).accepted amsCalls =
        [.ofDefaults amsDefaults, ⟨tagDefaults, some indented⟩] ∧
      [narrow, indented].foldlM OptionTree.applyUser (.firstOf [amsDefaults, tagDefaults]) =
        .ok e.options ∧
      e.options.getPath? "ams.multlineWidth" = some (.str "85%") ∧
      e.options.getPath? "ams.multlineIndent" = some (.str "2em") ∧
      ∃ fresh, (Engine.ofUserOptions e.userOptions : Engine Filter).applyOptions
          (.firstOf [amsDefaults, tagDefaults]) none = .ok fresh ∧ fresh.options = e.options := by
  intro e
  have haccepted : (Engine.ofUserOptions narrow : Engine Filter).accepted amsCalls =
      [.ofDefaults amsDefaults, ⟨tagDefaults, some indented⟩] := rfl
  obtain ⟨-, hlayers, hfresh⟩ := Engine.options_layered_in_turn narrow amsCalls haccepted
  obtain ⟨fresh, hok, hsame, -⟩ := hfresh fun before extra after hl => by
    rcases List.append_eq_singleton_iff.1 hl.symm with ⟨rfl, hcons⟩ | ⟨-, hcons⟩
    · cases hcons
      exact unobstructed_indented _
    · cases hcons
  exact ⟨haccepted, hlayers, rfl, rfl, fresh, hok, hsame⟩

open Sample in
/-- Overrides put a value in the place of a sub-tree and open it again. The option that they do not
name is lost, while a fresh engine with the same options of the user has its default. -/
theorem reopened_object_loses_defaults :
    let calls : List OptionCall := [⟨amsDefaults, some closing⟩, ⟨.empty, some narrow⟩]
    let e := (Engine.ofUserOptions .empty : Engine Filter).afterCalls calls
    (Engine.ofUserOptions .empty : Engine Filter).accepted calls = calls ∧
      e.options = narrow ∧ e.userOptions = narrow ∧
      ∃ fresh, (Engine.ofUserOptions e.userOptions : Engine Filter).applyOptions
          (.firstOf (calls.map (·.defaults))) none = .ok fresh ∧
        fresh.options.getPath? "ams.multlineIndent" = some (.str "1em") ∧
        fresh.options ≠ e.options := by
  intro calls e
  refine ⟨rfl, rfl, rfl, _, rfl, rfl, fun h => ?_⟩
  have hpath := congrArg (·.getPath? "ams.multlineIndent") h
  cases hpath

end ParserPackages
