import ParserPackages.Proofs.OptionTree.Paths
import ParserPackages.Proofs.Text.ByteOrder
import ParserPackages.Proofs.Text.Lines
import ParserPackages.Script.Hook

/-!
# Undeclared options

Options of a user are compared with declared ones wherever objects lead to them on both sides. They
are refused exactly if one of them is missing there, and what is reported is the first such path in
depth-first order. As long as no key has a dot in it, the reported path can be followed in the
options of the user, but not in the declared ones.
-/
namespace ParserPackages

open OptionTree (descend)

/-- Depth-first order of paths, with keys in the order of their bytes: a path comes before those
that go on from it, and otherwise the first keys that differ decide. -/
def Before (path other : List String) : Prop :=
  List.Lex (fun key next => Text.bytes key < Text.bytes next) path other

namespace Json

open OptionTree (descend_obj_cons descend_cons_of_lookup descend_cons_eq_some)

variable {declared user : Json} {inner incoming : Fields} {name : String} {path : List String}

/-- Objects lead to the end of the path: there is one at every shorter beginning. -/
def Opens (value : Json) (path : List String) : Prop :=
  ∀ above key below, path = above ++ key :: below → value.ObjectAt above

/-- The path leads to a value of the user, and on both sides objects lead there. -/
structure Meets (declared user : Json) (path : List String) : Prop where
  given : (descend user path).isSome
  user_opens : user.Opens path
  declared_opens : declared.Opens path

/-- The path leads to a value of the user that is compared with declared ones and not found. -/
structure Undeclared (declared user : Json) (path : List String) : Prop where
  meets : declared.Meets user path
  missing : descend declared path = none

structure FirstUndeclared (declared user : Json) (path : List String) : Prop where
  undeclared : declared.Undeclared user path
  first : ∀ other, declared.Undeclared user other → other = path ∨ Before path other

/-! ## Paths through fields -/

theorem objectAt_cons :
    (Json.obj incoming).ObjectAt (name :: path) ↔
      ∃ value, incoming.lookup name = some value ∧ value.ObjectAt path := by
  simp only [ObjectAt, descend_obj_cons]
  cases incoming.lookup name <;> simp

theorem opens_nil (value : Json) : value.Opens [] := by
  intro above key below h
  simp at h

theorem opens_cons :
    (Json.obj incoming).Opens (name :: path) ↔
      path = [] ∨ ∃ value, incoming.lookup name = some value ∧ value.Opens path := by
  constructor
  · intro h
    cases path with
    | nil => exact .inl rfl
    | cons next rest =>
      right
      obtain ⟨value, hvalue, -⟩ := objectAt_cons.1 (h [name] next rest rfl)
      refine ⟨value, hvalue, fun above key below hp => ?_⟩
      obtain ⟨same, hsame, hobject⟩ :=
        objectAt_cons.1 (h (name :: above) key below (congrArg (name :: ·) hp))
      obtain rfl : value = same := Option.some.inj (hvalue.symm.trans hsame)
      exact hobject
  · rintro h (_ | ⟨first, above⟩) key below hp
    · exact ⟨incoming, rfl⟩
    · obtain ⟨rfl, rfl⟩ := List.cons.inj hp
      rcases h with h | ⟨value, hvalue, hopens⟩
      · simp at h
      · exact objectAt_cons.2 ⟨value, hvalue, hopens above key below rfl⟩

theorem opens_of_found {value : Json} (h : (descend value path).isSome) : value.Opens path := by
  induction path generalizing value with
  | nil => exact opens_nil value
  | cons name path ih =>
    obtain ⟨found, hfound⟩ := Option.isSome_iff_exists.1 h
    obtain ⟨fields, next, rfl, hnext, hpath⟩ := descend_cons_eq_some hfound
    exact opens_cons.2 (.inr ⟨next, hnext, ih (Option.isSome_iff_exists.2 ⟨found, hpath⟩)⟩)

/-- What is undeclared at a name is the name itself or something below it. -/
theorem undeclared_cons :
    (Json.obj inner).Undeclared (.obj incoming) (name :: path) ↔
      ∃ value, incoming.lookup name = some value ∧
        ((inner.lookup name = none ∧ path = []) ∨
          ∃ old, inner.lookup name = some old ∧ old.Undeclared value path) := by
  constructor
  · rintro ⟨⟨hgiven, huser, hdeclared⟩, hmissing⟩
    rw [descend_obj_cons] at hgiven hmissing
    cases hvalue : incoming.lookup name with
    | none => rw [hvalue] at hgiven; cases hgiven
    | some value =>
      rw [hvalue] at hgiven
      refine ⟨value, rfl, ?_⟩
      cases hold : inner.lookup name with
      | none =>
        left
        rcases opens_cons.1 hdeclared with hpath | ⟨old, hsome, -⟩
        · exact ⟨rfl, hpath⟩
        · rw [hold] at hsome; cases hsome
      | some old =>
        right
        rw [hold] at hmissing
        refine ⟨old, rfl, ⟨hgiven, opens_of_found hgiven, ?_⟩, hmissing⟩
        rcases opens_cons.1 hdeclared with rfl | ⟨same, hsame, hopens⟩
        · exact opens_nil old
        · rw [hold] at hsame
          cases hsame
          exact hopens
  · rintro ⟨value, hvalue, hcases⟩
    have hgiven (h : (descend value path).isSome) :
        (descend (.obj incoming) (name :: path)).isSome := by
      rwa [descend_cons_of_lookup hvalue]
    rcases hcases with ⟨hnone, rfl⟩ | ⟨old, hold, hundeclared⟩
    · refine ⟨⟨hgiven rfl, opens_of_found (hgiven rfl), opens_cons.2 (.inl rfl)⟩, ?_⟩
      rw [descend_obj_cons, hnone]
      rfl
    · obtain ⟨⟨hfound, -, hopens⟩, hmissing⟩ := hundeclared
      refine ⟨⟨hgiven hfound, opens_of_found (hgiven hfound),
        opens_cons.2 (.inr ⟨old, hold, hopens⟩)⟩, ?_⟩
      rwa [descend_cons_of_lookup hold]

/-- Below a declared name the values are compared. -/
theorem undeclared_cons_of_declared {value old : Json} (hvalue : incoming.lookup name = some value)
    (hold : inner.lookup name = some old) :
    (Json.obj inner).Undeclared (.obj incoming) (name :: path) ↔ old.Undeclared value path := by
  simp [undeclared_cons, hvalue, hold]

/-- Nothing below a name that is not declared is looked at. -/
theorem undeclared_cons_of_lacks {value : Json} (hvalue : incoming.lookup name = some value)
    (hnone : inner.lookup name = none) :
    (Json.obj inner).Undeclared (.obj incoming) (name :: path) ↔ path = [] := by
  simp [undeclared_cons, hvalue, hnone]

theorem not_undeclared_nil : ¬ declared.Undeclared user [] := by
  intro h
  cases h.missing

theorem Undeclared.exists_fields (h : declared.Undeclared user path) :
    ∃ inner incoming name rest,
      declared = .obj inner ∧ user = .obj incoming ∧ path = name :: rest := by
  obtain ⟨⟨-, huser, hdeclared⟩, hmissing⟩ := h
  cases path with
  | nil => cases hmissing
  | cons name rest =>
    obtain ⟨inner, hinner⟩ := hdeclared [] name rest rfl
    obtain ⟨incoming, hincoming⟩ := huser [] name rest rfl
    exact ⟨inner, incoming, name, rest, Option.some.inj hinner, Option.some.inj hincoming, rfl⟩

theorem declares_iff_not_undeclared (hu : user.Normal) :
    declared.Declares user ↔ ∀ path, ¬ declared.Undeclared user path := by
  induction user using objectInduction generalizing declared with
  | other value hvalue =>
    refine ⟨fun _ path h => ?_, fun _ => declares_of_ne_obj hvalue declared⟩
    obtain ⟨_, incoming, _, _, _, he, _⟩ := h.exists_fields
    exact hvalue incoming he
  | obj incoming ih =>
    cases declared with
    | obj inner =>
      have hnormal {key value} (h : incoming.lookup key = some value) : value.Normal :=
        normal_of_lookup hu h
      rw [Declares, declaresFields_iff_lookup (ascending_of_normal hu)]
      constructor
      · intro h path hundeclared
        obtain ⟨_, _, name, rest, ⟨⟩, ⟨⟩, rfl⟩ := hundeclared.exists_fields
        obtain ⟨value, hvalue, -⟩ := undeclared_cons.1 hundeclared
        obtain ⟨old, hold, hdeclares⟩ := h name value hvalue
        exact (ih _ (Keyed.mem_of_lookup hvalue) (hnormal hvalue)).1 hdeclares rest
          ((undeclared_cons_of_declared hvalue hold).1 hundeclared)
      · intro h key value hvalue
        cases hold : inner.lookup key with
        | none => exact absurd ((undeclared_cons_of_lacks hvalue hold).2 rfl) (h [key])
        | some old =>
          have hbelow : old.Declares value ↔ ∀ path, ¬ old.Undeclared value path :=
            ih _ (Keyed.mem_of_lookup hvalue) (hnormal hvalue)
          refine ⟨old, rfl, hbelow.2 fun path hp => ?_⟩
          exact h (key :: path) ((undeclared_cons_of_declared hvalue hold).2 hp)
    | null | bool | int | float | str | arr =>
      refine ⟨fun _ path h => ?_, fun _ => trivial⟩
      obtain ⟨_, _, _, _, he, _⟩ := h.exists_fields
      cases he

/-! ## The first undeclared path -/

variable {key : String} {value old new : Json} {target rest : Fields} {above reported : String}

/-- The first field that is not accepted has the first undeclared path. -/
theorem firstUndeclared_head (hi : Keyed.Ascending ((key, value) :: rest))
    (h : (target.lookup key = none ∧ path = []) ∨
      ∃ old, target.lookup key = some old ∧ old.FirstUndeclared value path) :
    (Json.obj target).FirstUndeclared (.obj ((key, value) :: rest)) (key :: path) := by
  obtain ⟨hhead, -⟩ := List.pairwise_cons.1 hi
  have hvalue : ((key, value) :: rest).lookup key = some value := List.lookup_cons_self
  constructor
  · rcases h with ⟨hnone, hpath⟩ | ⟨old, hold, hfirst⟩
    · exact (undeclared_cons_of_lacks hvalue hnone).2 hpath
    · exact (undeclared_cons_of_declared hvalue hold).2 hfirst.undeclared
  · intro other hother
    obtain ⟨_, _, name, below, ⟨⟩, ⟨⟩, rfl⟩ := hother.exists_fields
    by_cases hname : name = key
    · subst hname
      rcases h with ⟨hnone, rfl⟩ | ⟨old, hold, hfirst⟩
      · exact .inl (congrArg (name :: ·) ((undeclared_cons_of_lacks hvalue hnone).1 hother))
      · have hbelow := hfirst.first below ((undeclared_cons_of_declared hvalue hold).1 hother)
        exact hbelow.imp (congrArg (name :: ·)) List.Lex.cons
    · obtain ⟨found, hfound, -⟩ := undeclared_cons.1 hother
      rw [List.lookup_cons, beq_eq_false_iff_ne.2 hname] at hfound
      have hless := hhead _ (Keyed.mem_of_lookup hfound)
      exact .inr (List.Lex.rel (Text.bytes_lt_of_lt hless))

/-- A field that is accepted leaves the undeclared paths of the others as they were. -/
theorem undeclared_tail (hi : Keyed.Ascending ((key, value) :: rest)) (hv : value.Normal)
    (hold : target.lookup key = some old) (hd : old.Declares value) (new : Json) :
    (Json.obj target).Undeclared (.obj ((key, value) :: rest)) path ↔
      (Json.obj (Keyed.put key new target)).Undeclared (.obj rest) path := by
  obtain ⟨hhead, -⟩ := List.pairwise_cons.1 hi
  cases path with
  | nil => exact iff_of_false not_undeclared_nil not_undeclared_nil
  | cons name below =>
    rw [undeclared_cons, undeclared_cons, List.lookup_cons]
    by_cases hname : name = key
    · subst hname
      have hrest : rest.lookup name = none := Keyed.lookup_eq_none_of_lt hhead
      have hbelow := (declares_iff_not_undeclared hv).1 hd below
      simp [hrest, hold, hbelow]
    · rw [beq_eq_false_iff_ne.2 hname, Keyed.lookup_put_of_ne hname]

theorem overrideFields_error (hi : FieldsNormal incoming)
    (h : ∀ f ∈ incoming, ∀ above old reported, override above old f.2 = .error reported →
      ∃ path, old.FirstUndeclared f.2 path ∧ reported = path.foldl dotted above)
    (he : overrideFields above target incoming = .error reported) :
    ∃ path, (Json.obj target).FirstUndeclared (.obj incoming) path ∧
      reported = path.foldl dotted above := by
  induction incoming generalizing target with
  | nil => cases he
  | cons f rest ih =>
    obtain ⟨key, value⟩ := f
    obtain ⟨hvalue, hrest⟩ := List.forall_mem_cons.1 h
    have hasc := ascending_of_normal hi
    rw [overrideFields] at he
    cases hold : target.lookup key with
    | none =>
      rw [hold] at he
      cases he
      exact ⟨[key], firstUndeclared_head hasc (.inl ⟨hold, rfl⟩), rfl⟩
    | some old =>
      simp only [hold] at he
      cases hnew : override (dotted above key) old value with
      | error missing =>
        simp only [hnew] at he
        cases he
        obtain ⟨path, hfirst, rfl⟩ := hvalue _ old _ hnew
        exact ⟨key :: path, firstUndeclared_head hasc (.inr ⟨old, hold, hfirst⟩), rfl⟩
      | ok new =>
        simp only [hnew] at he
        obtain ⟨hd, -⟩ := (override_eq_ok_iff hi.2.1).1 hnew
        obtain ⟨path, ⟨hundeclared, hfirst⟩, hreported⟩ := ih hi.2.2 hrest he
        have htail (path : List String) :
            (Json.obj target).Undeclared (.obj ((key, value) :: rest)) path ↔
              (Json.obj (Keyed.put key new target)).Undeclared (.obj rest) path :=
          undeclared_tail hasc hi.2.1 hold hd new
        exact ⟨path, ⟨(htail path).2 hundeclared,
          fun other ho => hfirst other ((htail other).1 ho)⟩, hreported⟩

/-- What is reported is the first undeclared path, behind the path at which it is looked for. -/
theorem override_error (hv : value.Normal) (he : override above old value = .error reported) :
    ∃ path, old.FirstUndeclared value path ∧ reported = path.foldl dotted above := by
  induction value using objectInduction generalizing above old reported with
  | other value h =>
    cases value with
    | obj fields => exact absurd rfl (h fields)
    | null | bool | int | float | str | arr => cases he
  | obj incoming ih =>
    cases old with
    | obj inner =>
      rw [override] at he
      cases hf : overrideFields above inner incoming with
      | ok fields => rw [hf] at he; cases he
      | error missing =>
        rw [hf] at he
        cases he
        exact overrideFields_error hv (fun f hm _ _ _ hfe =>
          ih f hm (((fieldsNormal_iff incoming).1 hv).2 f hm) hfe) hf
    | null | bool | int | float | str | arr => cases he

end Json

theorem foldl_dotted {above : String} (h : above ≠ "") (path : List String) :
    path.foldl dotted above = Text.join "." (above :: path) := by
  induction path generalizing above with
  | nil => rfl
  | cons name rest ih =>
    have hdotted : dotted above name = above ++ "." ++ name := by simp [dotted, h]
    have hne : above ++ "." ++ name ≠ "" := by simp
    rw [List.foldl_cons, hdotted, ih hne]
    cases rest with
    | nil => rfl
    | cons next rest => simp [Text.join, String.append_assoc]

namespace OptionTree

variable {declared user : OptionTree} {path : List String} {reported : String}

theorem applyUser_eq_error_iff :
    declared.applyUser user = .error reported ↔
      Json.overrideFields "" declared.fields user.fields = .error reported := by
  rw [applyUser]
  split <;> rename_i hf <;> simp [hf]

/-- The options of a user that are refused are reported by their first undeclared path. -/
theorem exists_firstUndeclared (hroot : declared.contains "" = false)
    (h : declared.applyUser user = .error reported) :
    ∃ path, declared.toJson.FirstUndeclared user.toJson path ∧ path ≠ [] ∧
      reported = Text.join "." path := by
  have hfields := ((Json.fieldsNormal_iff user.fields).1 user.normal).2
  obtain ⟨path, hfirst, rfl⟩ := Json.overrideFields_error user.normal
    (fun f hf _ _ _ he => Json.override_error (hfields f hf) he) (applyUser_eq_error_iff.1 h)
  obtain ⟨_, _, name, rest, ⟨⟩, ⟨⟩, rfl⟩ := hfirst.undeclared.exists_fields
  refine ⟨name :: rest, hfirst, List.cons_ne_nil _ _, ?_⟩
  rw [List.foldl_cons]
  by_cases hname : name = ""
  · -- the empty name is not declared, so nothing below it is looked at
    subst hname
    have hnone : declared.get? "" = none := by simpa [contains] using hroot
    obtain ⟨value, hvalue, -⟩ := Json.undeclared_cons.1 hfirst.undeclared
    obtain rfl := (Json.undeclared_cons_of_lacks hvalue hnone).1 hfirst.undeclared
    rfl
  · exact foldl_dotted hname rest

/-- A path whose keys have no dot is followed by the text that puts it together with dots. -/
theorem getPath?_join (t : OptionTree) (hne : path ≠ []) (h : ∀ key ∈ path, '.' ∉ key.toList) :
    t.getPath? (Text.join "." path) = descend t.toJson path := by
  rw [getPath?, Text.split_join rfl hne h]

end OptionTree

theorem Action.run_applyUser_of_error {library : ScriptLibrary} {scene : Scene}
    {user : OptionTree} {reported : String}
    (h : scene.configuration.options.applyUser user = .error reported) :
    (applyUser user).run library scene =
      scene.note ("apply_user: " ++ (Fault.unknownOption reported).message) := by
  rw [run, h]
  rfl

/-- The options of a user can be applied if and only if each of them that is looked at is declared.
Otherwise nothing changes but for a note of the fault, which reports the first undeclared path in
depth-first order, put together with dots. Where its keys have no dot, it leads to a value of the
user and to no declared one. -/
theorem first_undeclared_reported (declared user : OptionTree)
    (hroot : declared.contains "" = false) :
    ((∃ t, declared.applyUser user = .ok t) ↔
      ∀ path, declared.toJson.Meets user.toJson path → (descend declared.toJson path).isSome) ∧
    ∀ reported, declared.applyUser user = .error reported →
      (∀ (library : ScriptLibrary) (scene : Scene), scene.configuration.options = declared →
        (Action.applyUser user).run library scene =
          scene.note ("apply_user: " ++ (Fault.unknownOption reported).message)) ∧
      ∃ path, declared.toJson.FirstUndeclared user.toJson path ∧
        reported = Text.join "." path ∧
        ((∀ key ∈ path, '.' ∉ key.toList) →
          (user.getPath? reported).isSome ∧ declared.getPath? reported = none) := by
  have hundeclared : declared.Declares user ↔
      ∀ path, ¬ declared.toJson.Undeclared user.toJson path :=
    Json.declares_iff_not_undeclared user.normal_toJson
  refine ⟨⟨?_, fun h => ?_⟩, fun reported he => ⟨?_, ?_⟩⟩
  · rintro ⟨t, ht⟩ path hmeets
    have hd := (OptionTree.applyUser_eq_ok_iff_declares.1 ht).1
    rw [Option.isSome_iff_ne_none]
    exact fun hmissing => hundeclared.1 hd path ⟨hmeets, hmissing⟩
  · have hd : declared.Declares user := by
      refine hundeclared.2 fun path hp => ?_
      have hfound := h path hp.meets
      rw [hp.missing] at hfound
      cases hfound
    exact ⟨_, OptionTree.applyUser_eq_ok_iff_declares.2 ⟨hd, rfl⟩⟩
  · rintro library scene rfl
    exact Action.run_applyUser_of_error he
  · obtain ⟨path, hfirst, hne, rfl⟩ := OptionTree.exists_firstUndeclared hroot he
    refine ⟨path, hfirst, rfl, fun hdots => ?_⟩
    rw [OptionTree.getPath?_join _ hne hdots, OptionTree.getPath?_join _ hne hdots]
    exact ⟨hfirst.undeclared.meets.given, hfirst.undeclared.missing⟩

namespace Sample

def misspelt : OptionTree :=
  .set .empty "ams" (.obj [("unit", .obj [("em", .int 1)]), ("zoom", .int 2)])

theorem undeclared_misspelt {path : List String}
    (h : layout.toJson.Undeclared misspelt.toJson path) :
    path = ["ams", "unit"] ∨ path = ["ams", "zoom"] := by
  obtain ⟨_, _, name, below, ⟨⟩, ⟨⟩, rfl⟩ := h.exists_fields
  obtain ⟨value, hvalue, hcases⟩ := Json.undeclared_cons.1 h
  cases List.mem_singleton.1 (Keyed.mem_of_lookup hvalue)
  rcases hcases with ⟨hnone, -⟩ | ⟨old, hold, hbelow⟩
  · cases hnone
  · cases hold
    obtain ⟨_, _, name, rest, ⟨⟩, ⟨⟩, rfl⟩ := hbelow.exists_fields
    obtain ⟨value, hvalue, hcases⟩ := Json.undeclared_cons.1 hbelow
    have hname : name = "unit" ∨ name = "zoom" := by
      have hmem : (name, value) ∈ [("unit", Json.obj [("em", .int 1)]), ("zoom", .int 2)] :=
        Keyed.mem_of_lookup hvalue
      rcases List.mem_cons.1 hmem with h | h
      · exact .inl (Prod.mk.inj h).1
      · exact .inr (Prod.mk.inj (List.mem_singleton.1 h)).1
    have hnone : ∀ key, key = "unit" ∨ key = "zoom" →
        List.lookup key [("multlineIndent", Json.str "1em"), ("multlineWidth", .str "100%")] =
          none := by
      rintro key (rfl | rfl) <;> rfl
    rcases hcases with ⟨-, rfl⟩ | ⟨old, hold, -⟩
    · simpa using hname
    · cases (hnone name hname).symm.trans hold

end Sample

open Sample in
/-- Below `ams` the path `unit` comes before `zoom`, and what is below it is not looked at. -/
theorem unit_reported :
    layout.contains "" = false ∧ layout.applyUser misspelt = .error "ams.unit" ∧
      ¬ (∀ path, layout.toJson.Meets misspelt.toJson path →
        (descend layout.toJson path).isSome) ∧
      (∃ path, layout.toJson.FirstUndeclared misspelt.toJson path ∧
        "ams.unit" = Text.join "." path) ∧
      (misspelt.getPath? "ams.unit").isSome ∧ layout.getPath? "ams.unit" = none := by
  have hroot : layout.contains "" = false := rfl
  have he : layout.applyUser misspelt = .error "ams.unit" := rfl
  obtain ⟨hiff, hreported⟩ := first_undeclared_reported layout misspelt hroot
  obtain ⟨-, path, hfirst, hpath, hdots⟩ := hreported _ he
  have hno : ∀ key ∈ path, '.' ∉ key.toList := by
    rcases undeclared_misspelt hfirst.undeclared with rfl | rfl <;> decide
  obtain ⟨hgiven, hmissing⟩ := hdots hno
  refine ⟨hroot, he, fun h => ?_, ⟨path, hfirst, hpath⟩, hgiven, hmissing⟩
  obtain ⟨t, ht⟩ := hiff.2 h
  rw [he] at ht
  cases ht

end ParserPackages
