import ParserPackages.OptionTree.Overlay
import ParserPackages.Proofs.Keyed

/-!
# Laws of overlays

Overriding a value succeeds exactly if every name that is laid over it is declared there, and then
it is an overlay. So what several layers come to is a matter of overlays: a layer that has been
laid before adds nothing, and two layers can be laid as one unless the lower one has a value that
is no object where the upper one opens a declared object again.
-/
namespace ParserPackages

namespace OptionTree

theorem descend_cons_of_lookup {fields : Fields} {name : String} {inner : Json}
    (h : fields.lookup name = some inner) (path : List String) :
    descend (.obj fields) (name :: path) = descend inner path := by
  rw [descend, h]

theorem descend_cons_eq_some {outer value : Json} {name : String} {path : List String}
    (h : descend outer (name :: path) = some value) :
    ∃ fields inner, outer = .obj fields ∧ fields.lookup name = some inner ∧
      descend inner path = some value := by
  simp only [descend] at h
  split at h
  · rename_i fields
    split at h
    · rename_i inner hl
      exact ⟨fields, inner, rfl, hl, h⟩
    · cases h
  · cases h

end OptionTree

namespace Json

theorem ascending_of_normal {fields : Fields} (h : FieldsNormal fields) :
    Keyed.Ascending fields :=
  ((fieldsNormal_iff fields).1 h).1

section Induction

variable {P : Json → Prop}

mutual
/-- Induction over the objects inside a value. -/
@[elab_as_elim]
theorem objectInduction (obj : ∀ fields, (∀ f ∈ fields, P f.2) → P (.obj fields))
    (other : ∀ value, (∀ fields, value ≠ .obj fields) → P value) : (value : Json) → P value
  | .obj fields => obj fields (forall_objectInduction obj other fields)
  | .null => other _ nofun
  | .bool _ => other _ nofun
  | .int _ => other _ nofun
  | .float _ => other _ nofun
  | .str _ => other _ nofun
  | .arr _ => other _ nofun

theorem forall_objectInduction (obj : ∀ fields, (∀ f ∈ fields, P f.2) → P (.obj fields))
    (other : ∀ value, (∀ fields, value ≠ .obj fields) → P value) :
    (fields : Fields) → ∀ f ∈ fields, P f.2
  | [] => List.forall_mem_nil _
  | (_, value) :: rest => List.forall_mem_cons.2
    ⟨objectInduction obj other value, forall_objectInduction obj other rest⟩
end

end Induction

/-! ## Overlays name by name -/

@[simp] theorem overlay_none (value : Json) : overlay none value = value := by
  cases value <;> rfl

theorem overlay_of_ne_obj {value : Json} (h : ∀ fields, value ≠ .obj fields) (old : Option Json) :
    overlay old value = value := by
  cases value with
  | obj fields => exact absurd rfl (h fields)
  | null | bool | int | float | str | arr => rfl

theorem overlay_obj_obj (inner incoming : Fields) :
    overlay (some (.obj inner)) (.obj incoming) = .obj (overlayFields inner incoming) := rfl

theorem lookup_overlayFields {incoming : Fields} (h : Keyed.Ascending incoming) (target : Fields)
    (key : String) : (overlayFields target incoming).lookup key =
      ((incoming.lookup key).map (overlay (target.lookup key))).or (target.lookup key) := by
  induction incoming generalizing target with
  | nil => rfl
  | cons f rest ih =>
    obtain ⟨name, value⟩ := f
    obtain ⟨hhead, htail⟩ := List.pairwise_cons.1 h
    rw [overlayFields, ih htail, Keyed.lookup_put, List.lookup_cons]
    by_cases hk : key = name
    · subst hk
      have hrest : rest.lookup key = none := Keyed.lookup_eq_none_of_lt hhead
      simp [hrest]
    · rw [if_neg hk, beq_eq_false_iff_ne.2 hk]

theorem overlayFields_eq_self {target incoming : Fields} (ht : FieldsNormal target)
    (hi : FieldsNormal incoming)
    (h : ∀ key value, incoming.lookup key = some value →
      ∃ inner, target.lookup key = some inner ∧ overlay (some inner) value = inner) :
    overlayFields target incoming = target := by
  refine Keyed.ext_lookup (ascending_of_normal (fieldsNormal_overlayFields ht incoming hi))
    (ascending_of_normal ht) fun key => ?_
  rw [lookup_overlayFields (ascending_of_normal hi)]
  cases hl : incoming.lookup key with
  | none => rfl
  | some value =>
    obtain ⟨inner, hinner, hsame⟩ := h key value hl
    simp [hinner, hsame]

/-- An object leaves an object, in which each of its fields was laid over something. -/
theorem overlay_obj {incoming : Fields} (hi : Keyed.Ascending incoming) {old : Option Json}
    (ho : ∀ o, old = some o → o.Normal) :
    ∃ fields, overlay old (.obj incoming) = .obj fields ∧
      ∀ key value, incoming.lookup key = some value → ∃ inner,
        (∀ o, inner = some o → o.Normal) ∧ fields.lookup key = some (overlay inner value) := by
  cases old with
  | none => exact ⟨incoming, rfl, fun key value hl => ⟨none, nofun, by rw [hl, overlay_none]⟩⟩
  | some old =>
    cases old with
    | obj inner =>
      refine ⟨overlayFields inner incoming, rfl, fun key value hl =>
        ⟨inner.lookup key, fun o => normal_of_lookup (ho _ rfl), ?_⟩⟩
      rw [lookup_overlayFields hi, hl]
      rfl
    | null | bool | int | float | str | arr =>
      exact ⟨incoming, rfl, fun key value hl => ⟨none, nofun, by rw [hl, overlay_none]⟩⟩

theorem descend_overlay {value leaf : Json} (hv : value.Normal) {path : List String}
    (h : OptionTree.descend value path = some leaf) (hl : ∀ fields, leaf ≠ .obj fields)
    (old : Option Json) : OptionTree.descend (overlay old value) path = some leaf := by
  induction path generalizing value old with
  | nil =>
    obtain rfl : value = leaf := Option.some.inj h
    rw [overlay_of_ne_obj hl]
    rfl
  | cons name path ih =>
    obtain ⟨incoming, inner, rfl, hinner, hpath⟩ := OptionTree.descend_cons_eq_some h
    cases old with
    | none => exact h
    | some old =>
      cases old with
      | obj fields =>
        have hname : (overlayFields fields incoming).lookup name =
            some (overlay (fields.lookup name) inner) := by
          rw [lookup_overlayFields (ascending_of_normal hv), hinner]
          rfl
        rw [overlay_obj_obj, OptionTree.descend_cons_of_lookup hname]
        exact ih (normal_of_lookup hv hinner) hpath _
      | null | bool | int | float | str | arr => exact h

/-! ## Declared names -/

mutual
/-- Every name of the value is there in the old one, at every depth at which both are objects. -/
def Declares (old : Json) : Json → Prop
  | .obj incoming =>
    match old with
    | .obj inner => DeclaresFields inner incoming
    | _ => True
  | _ => True

def DeclaresFields (target : Fields) : Fields → Prop
  | [] => True
  | (key, value) :: rest =>
    (∃ old, target.lookup key = some old ∧ old.Declares value) ∧ DeclaresFields target rest
end

theorem declaresFields_iff {target incoming : Fields} :
    DeclaresFields target incoming ↔
      ∀ f ∈ incoming, ∃ old, target.lookup f.1 = some old ∧ old.Declares f.2 := by
  induction incoming with
  | nil => simp [DeclaresFields]
  | cons f rest ih => rw [DeclaresFields, ih, List.forall_mem_cons]

theorem declaresFields_iff_lookup {target incoming : Fields} (h : Keyed.Ascending incoming) :
    DeclaresFields target incoming ↔ ∀ key value, incoming.lookup key = some value →
      ∃ old, target.lookup key = some old ∧ old.Declares value := by
  rw [declaresFields_iff]
  constructor
  · intro hall key value hl
    exact hall (key, value) (Keyed.mem_of_lookup hl)
  · intro hall f hf
    exact hall f.1 f.2 (Keyed.lookup_of_mem h hf)

theorem declares_of_ne_obj {value : Json} (h : ∀ fields, value ≠ .obj fields) (old : Json) :
    old.Declares value := by
  cases value with
  | obj fields => exact absurd rfl (h fields)
  | null | bool | int | float | str | arr => trivial

theorem declaresFields_put {target rest : Fields} {key : String} (h : ∀ f ∈ rest, f.1 ≠ key)
    (value : Json) :
    DeclaresFields (Keyed.put key value target) rest ↔ DeclaresFields target rest := by
  rw [declaresFields_iff, declaresFields_iff]
  refine forall₂_congr fun f hf => ?_
  rw [Keyed.lookup_put_of_ne (h f hf)]

theorem overrideFields_eq_ok_iff {incoming : Fields} (hi : Keyed.Ascending incoming)
    (h : ∀ f ∈ incoming, ∀ path old new, override path old f.2 = .ok new ↔
      old.Declares f.2 ∧ new = overlay (some old) f.2) {path : String} {target fields : Fields} :
    overrideFields path target incoming = .ok fields ↔
      DeclaresFields target incoming ∧ fields = overlayFields target incoming := by
  induction incoming generalizing target with
  | nil => simp [overrideFields, DeclaresFields, overlayFields, eq_comm]
  | cons f rest ih =>
    obtain ⟨key, value⟩ := f
    obtain ⟨hvalue, hrest⟩ := List.forall_mem_cons.1 h
    obtain ⟨hhead, htail⟩ := List.pairwise_cons.1 hi
    have hne : ∀ f ∈ rest, f.1 ≠ key := fun f hf => (String.ne_of_lt (hhead f hf)).symm
    rw [overrideFields, DeclaresFields, overlayFields]
    cases hl : target.lookup key with
    | none => simp
    | some old =>
      cases ho : override (dotted path key) old value with
      | error missing =>
        have hdeclares : ¬ old.Declares value := by
          intro hd
          rw [(hvalue _ old _).2 ⟨hd, rfl⟩] at ho
          cases ho
        simp [ho, hdeclares]
      | ok new =>
        obtain ⟨hd, rfl⟩ := (hvalue _ old new).1 ho
        simp only [ho, ih htail hrest, declaresFields_put hne, Option.some.injEq, exists_eq_left',
          hd, true_and]

/-- Overriding succeeds exactly if every name is declared, and then it is an overlay. -/
theorem override_eq_ok_iff {value : Json} (hv : value.Normal) {path : String} {old new : Json} :
    override path old value = .ok new ↔ old.Declares value ∧ new = overlay (some old) value := by
  induction value using objectInduction generalizing path old new with
  | obj incoming ih =>
    have hnormal := ((fieldsNormal_iff incoming).1 hv).2
    cases old with
    | obj inner =>
      have hfields (fields : Fields) : overrideFields path inner incoming = .ok fields ↔
          DeclaresFields inner incoming ∧ fields = overlayFields inner incoming :=
        overrideFields_eq_ok_iff (ascending_of_normal hv) fun f hf _ _ _ => ih f hf (hnormal f hf)
      rw [override, Declares, overlay_obj_obj]
      cases ho : overrideFields path inner incoming with
      | error missing =>
        have hdeclares : ¬ DeclaresFields inner incoming := by
          intro hd
          rw [(hfields _).2 ⟨hd, rfl⟩] at ho
          cases ho
        simp [Except.map, hdeclares]
      | ok fields =>
        obtain ⟨hd, rfl⟩ := (hfields fields).1 ho
        simp [Except.map, hd, eq_comm]
    | null | bool | int | float | str | arr => simp [override, Declares, overlay, eq_comm]
  | other value h =>
    have hvalue : override path old value = .ok value := by
      cases value with
      | obj fields => exact absurd rfl (h fields)
      | null | bool | int | float | str | arr => rfl
    simp [hvalue, declares_of_ne_obj h, overlay_of_ne_obj h, eq_comm]

/-! ## Several layers -/

/-- A value that has been laid over another is declared by the result. -/
theorem declares_overlay_self {value : Json} (hv : value.Normal) {old : Option Json}
    (ho : ∀ o, old = some o → o.Normal) : (overlay old value).Declares value := by
  induction value using objectInduction generalizing old with
  | other value h => exact declares_of_ne_obj h _
  | obj incoming ih =>
    have hasc := ascending_of_normal hv
    obtain ⟨fields, hfields, hlookup⟩ := overlay_obj hasc ho
    rw [hfields]
    refine (declaresFields_iff_lookup hasc).2 fun key value hl => ?_
    obtain ⟨inner, hinner, hfield⟩ := hlookup key value hl
    exact ⟨_, hfield, ih _ (Keyed.mem_of_lookup hl) (normal_of_lookup hv hl) hinner⟩

/-- It can be laid over the result without a change. -/
theorem overlay_again {value : Json} (hv : value.Normal) {old : Option Json}
    (ho : ∀ o, old = some o → o.Normal) :
    overlay (some (overlay old value)) value = overlay old value := by
  induction value using objectInduction generalizing old with
  | other value h => rw [overlay_of_ne_obj h, overlay_of_ne_obj h]
  | obj incoming ih =>
    have hnormal := normal_overlay ho _ hv
    obtain ⟨fields, hfields, hlookup⟩ := overlay_obj (ascending_of_normal hv) ho
    rw [hfields] at hnormal ⊢
    refine congrArg Json.obj (overlayFields_eq_self hnormal hv fun key value hl => ?_)
    obtain ⟨inner, hinner, hfield⟩ := hlookup key value hl
    exact ⟨_, hfield, ih _ (Keyed.mem_of_lookup hl) (normal_of_lookup hv hl) hinner⟩

/-- What has absorbed an object is an object, and has absorbed its fields one by one. -/
theorem absorbed_obj {old : Json} {under : Fields} (hu : Keyed.Ascending under)
    (h : overlay (some old) (.obj under) = old) :
    ∃ fields, old = .obj fields ∧ ∀ key value, under.lookup key = some value →
      ∃ inner, fields.lookup key = some inner ∧ overlay (some inner) value = inner := by
  cases old with
  | obj fields =>
    refine ⟨fields, rfl, fun key value hl => ?_⟩
    have habsorbed : overlayFields fields under = fields := Json.obj.inj h
    have hkey := lookup_overlayFields hu fields key
    rw [habsorbed, hl] at hkey
    exact ⟨_, hkey, congrArg (overlay · value) hkey.symm⟩
  | null | bool | int | float | str | arr => cases h

/-- A value that has absorbed a layer meets the next one alone. -/
theorem overlay_absorbed {old user value : Json} (ho : old.Normal) (hu : user.Normal)
    (hv : value.Normal) (h : overlay (some old) user = old) :
    overlay (some old) (overlay (some user) value) = overlay (some old) value := by
  induction value using objectInduction generalizing old user with
  | other value hvalue => rw [overlay_of_ne_obj hvalue (some user)]
  | obj incoming ih =>
    cases user with
    | obj under =>
      obtain ⟨fields, rfl, hfields⟩ := absorbed_obj (ascending_of_normal hu) h
      have hunder : FieldsNormal (overlayFields under incoming) :=
        fieldsNormal_overlayFields hu _ hv
      simp only [overlay_obj_obj]
      refine congrArg Json.obj (Keyed.ext_lookup
        (ascending_of_normal (fieldsNormal_overlayFields ho _ hunder))
        (ascending_of_normal (fieldsNormal_overlayFields ho _ hv)) fun key => ?_)
      rw [lookup_overlayFields (ascending_of_normal hunder),
        lookup_overlayFields (ascending_of_normal hv),
        lookup_overlayFields (ascending_of_normal hv)]
      -- what the user has at a name was absorbed by what is there, so the argument goes down
      cases hl : under.lookup key with
      | none => cases incoming.lookup key <;> simp
      | some inner =>
        obtain ⟨kept, hkept, habsorbed⟩ := hfields key inner hl
        cases hvalue : incoming.lookup key with
        | none => simp [hkept, habsorbed]
        | some value =>
          have hmem := Keyed.mem_of_lookup hvalue
          have hih := ih _ hmem (normal_of_lookup ho hkept) (normal_of_lookup hu hl)
            (normal_of_lookup hv hvalue) habsorbed
          simp [hkept, hih]
    | null | bool | int | float | str | arr => rfl

/-- A value that has absorbed a layer need not declare it again. -/
theorem declares_of_absorbed {old user value : Json} (ho : old.Normal) (hu : user.Normal)
    (hv : value.Normal) (h : overlay (some old) user = old)
    (hd : old.Declares (overlay (some user) value)) : old.Declares value := by
  induction value using objectInduction generalizing old user with
  | other value hvalue => exact declares_of_ne_obj hvalue old
  | obj incoming ih =>
    cases user with
    | obj under =>
      obtain ⟨fields, rfl, hfields⟩ := absorbed_obj (ascending_of_normal hu) h
      have hasc := ascending_of_normal (fieldsNormal_overlayFields hu _ hv)
      have hall := (declaresFields_iff_lookup hasc).1 hd
      refine (declaresFields_iff_lookup (ascending_of_normal hv)).2 fun key value hvalue => ?_
      have hkey : (overlayFields under incoming).lookup key =
          some (overlay (under.lookup key) value) := by
        rw [lookup_overlayFields (ascending_of_normal hv), hvalue]
        rfl
      obtain ⟨kept, hkept, hdeclares⟩ := hall key _ hkey
      refine ⟨kept, hkept, ?_⟩
      cases hl : under.lookup key with
      | none => rwa [hl, overlay_none] at hdeclares
      | some inner =>
        obtain ⟨same, hsame, habsorbed⟩ := hfields key inner hl
        obtain rfl : kept = same := Option.some.inj (hkept.symm.trans hsame)
        rw [hl] at hdeclares
        exact ih _ (Keyed.mem_of_lookup hvalue) (normal_of_lookup ho hkept)
          (normal_of_lookup hu hl) (normal_of_lookup hv hvalue) habsorbed hdeclares
    | null | bool | int | float | str | arr => exact hd

/-- Wherever the declared value and the incoming one both have an object, whatever the user has
there is an object, too. -/
def Unobstructed (declared user value : Json) : Prop :=
  ∀ path inner incoming under, OptionTree.descend declared path = some (.obj inner) →
    OptionTree.descend value path = some (.obj incoming) →
    OptionTree.descend user path = some under → ∃ fields, under = .obj fields

theorem Unobstructed.root {inner incoming : Fields} {user : Json}
    (h : Unobstructed (.obj inner) user (.obj incoming)) : ∃ fields, user = .obj fields :=
  h [] inner incoming user rfl rfl rfl

theorem Unobstructed.field {inner under incoming : Fields}
    (h : Unobstructed (.obj inner) (.obj under) (.obj incoming)) {key : String}
    {declared user value : Json} (hd : inner.lookup key = some declared)
    (hu : under.lookup key = some user) (hv : incoming.lookup key = some value) :
    Unobstructed declared user value := by
  intro path fields more found hdeclared hvalue huser
  refine h (key :: path) fields more found ?_ ?_ ?_
  · rwa [OptionTree.descend_cons_of_lookup hd]
  · rwa [OptionTree.descend_cons_of_lookup hv]
  · rwa [OptionTree.descend_cons_of_lookup hu]

/-- Two layers are laid one after the other as they are laid at once. -/
theorem overlay_overlay {declared user value : Json} (hd : declared.Normal) (hu : user.Normal)
    (hv : value.Normal) (h : Unobstructed declared user value) :
    overlay (some declared) (overlay (some user) value) =
      overlay (some (overlay (some declared) user)) value := by
  induction value using objectInduction generalizing declared user with
  | other value hvalue =>
    rw [overlay_of_ne_obj hvalue (some user), overlay_of_ne_obj hvalue, overlay_of_ne_obj hvalue]
  | obj incoming ih =>
    cases declared with
    | obj inner =>
      obtain ⟨under, rfl⟩ := h.root
      have hlower : FieldsNormal (overlayFields inner under) := fieldsNormal_overlayFields hd _ hu
      have hupper : FieldsNormal (overlayFields under incoming) :=
        fieldsNormal_overlayFields hu _ hv
      simp only [overlay_obj_obj]
      refine congrArg Json.obj (Keyed.ext_lookup
        (ascending_of_normal (fieldsNormal_overlayFields hd _ hupper))
        (ascending_of_normal (fieldsNormal_overlayFields hlower _ hv)) fun key => ?_)
      rw [lookup_overlayFields (ascending_of_normal hupper),
        lookup_overlayFields (ascending_of_normal hv),
        lookup_overlayFields (ascending_of_normal hv),
        lookup_overlayFields (ascending_of_normal hu)]
      -- the order of layers matters only for names that all three have
      cases hvalue : incoming.lookup key with
      | none => simp
      | some value =>
        cases hl : under.lookup key with
        | none => simp
        | some user =>
          cases hdeclared : inner.lookup key with
          | none => simp
          | some declared =>
            have hih := ih _ (Keyed.mem_of_lookup hvalue) (normal_of_lookup hd hdeclared)
              (normal_of_lookup hu hl) (normal_of_lookup hv hvalue) (h.field hdeclared hl hvalue)
            simp [hih]
    | null | bool | int | float | str | arr =>
      cases user <;> rfl

theorem declares_overlay {declared user value : Json} (hu : user.Normal) (hv : value.Normal)
    (h : Unobstructed declared user value) (hd : declared.Declares user)
    (hdv : (overlay (some declared) user).Declares value) :
    declared.Declares (overlay (some user) value) := by
  induction value using objectInduction generalizing declared user with
  | other value hvalue =>
    rw [overlay_of_ne_obj hvalue]
    exact declares_of_ne_obj hvalue declared
  | obj incoming ih =>
    cases declared with
    | obj inner =>
      obtain ⟨under, rfl⟩ := h.root
      have hasc := ascending_of_normal hu
      have hlower := (declaresFields_iff_lookup hasc).1 hd
      have hupper := (declaresFields_iff_lookup (ascending_of_normal hv)).1 hdv
      refine (declaresFields_iff_lookup
        (ascending_of_normal (fieldsNormal_overlayFields hu _ hv))).2 fun key new hnew => ?_
      rw [lookup_overlayFields (ascending_of_normal hv)] at hnew
      cases hvalue : incoming.lookup key with
      | none =>
        rw [hvalue] at hnew
        exact hlower key new hnew
      | some value =>
        obtain ⟨old, hold, hdeclares⟩ := hupper key value hvalue
        rw [lookup_overlayFields hasc] at hold
        rw [hvalue] at hnew
        obtain rfl : overlay (under.lookup key) value = new := Option.some.inj hnew
        cases hl : under.lookup key with
        | none =>
          rw [hl] at hold
          exact ⟨old, hold, by rwa [overlay_none]⟩
        | some user =>
          obtain ⟨declared, hdeclared, huser⟩ := hlower key user hl
          rw [hl, hdeclared] at hold
          obtain rfl : overlay (some declared) user = old := Option.some.inj hold
          exact ⟨declared, hdeclared, ih _ (Keyed.mem_of_lookup hvalue) (normal_of_lookup hu hl)
            (normal_of_lookup hv hvalue) (h.field hdeclared hl hvalue) huser hdeclares⟩
    | null | bool | int | float | str | arr =>
      cases user <;> trivial

end Json
end ParserPackages
