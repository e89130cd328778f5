import ParserPackages.Proofs.OptionTree.OverlayLaws

/-!
# Layers of options

Defaults come first, and options of a user are laid over them in one layer or in several. Defaults
that come later join those below all layers. Layers can be laid as one where none of them obstructs
a declared sub-tree that a later one opens again.
-/
namespace ParserPackages

namespace OptionTree

variable {declared user extra t t' : OptionTree}

theorem ext_get? (h : ∀ name, t.get? name = t'.get? name) : t = t' :=
  ext (Keyed.ext_lookup (Json.ascending_of_normal t.normal) (Json.ascending_of_normal t'.normal) h)

theorem get?_overwrite (t other : OptionTree) (name : String) :
    (t.overwrite other).get? name = (other.get? name).or (t.get? name) :=
  Keyed.lookup_putAll (Json.ascending_of_normal other.normal) t.fields name

/-! ## Defaults -/

theorem empty_fill (t : OptionTree) : empty.fill t = t :=
  ext_get? fun name => get?_fill empty t name

theorem fill_empty (t : OptionTree) : t.fill .empty = t := rfl

/-- The options of several trees, where the first value for each name stays. -/
def firstOf (trees : List OptionTree) : OptionTree := trees.foldl fill .empty

theorem get?_foldl_fill (trees : List OptionTree) (t : OptionTree) (name : String) :
    (trees.foldl fill t).get? name = (t.get? name).or (trees.findSome? (·.get? name)) := by
  induction trees generalizing t with
  | nil => exact Option.or_none.symm
  | cons tree rest ih =>
    rw [List.foldl_cons, ih, get?_fill, Option.or_assoc, List.findSome?_cons]
    cases tree.get? name <;> rfl

theorem get?_firstOf (trees : List OptionTree) (name : String) :
    (firstOf trees).get? name = trees.findSome? (·.get? name) :=
  get?_foldl_fill trees .empty name

theorem firstOf_cons (tree : OptionTree) (rest : List OptionTree) :
    firstOf (tree :: rest) = rest.foldl fill tree := by
  rw [firstOf, List.foldl_cons, empty_fill]

theorem get?_fill_of_some {name : String} {value : Json} (h : t.get? name = some value)
    (defaults : OptionTree) : (t.fill defaults).get? name = some value := by
  rw [get?_fill, h]
  rfl

theorem fill_assoc (t more most : OptionTree) : (t.fill more).fill most = t.fill (more.fill most) :=
  ext_get? fun name => by simp only [get?_fill, Option.or_assoc]

/-- Defaults add nothing where no name is missing. -/
theorem fill_of_contains (h : ∀ name, t.contains name = t'.contains name) : t.fill t' = t := by
  refine ext_get? fun name => ?_
  have hname := h name
  rw [get?_fill]
  cases ht : t.get? name with
  | some value => rfl
  | none =>
    rw [contains, ht] at hname
    exact Option.not_isSome_iff_eq_none.1 (Bool.eq_false_iff.1 hname.symm)

/-! ## Options of a user -/

/-- Every option of the user is declared, sub-trees included. -/
def Declares (declared user : OptionTree) : Prop := declared.toJson.Declares user.toJson

/-- Wherever declared options and extra ones both have a sub-tree, whatever the user has there is a
sub-tree, too. -/
def Unobstructed (declared user extra : OptionTree) : Prop :=
  Json.Unobstructed declared.toJson user.toJson extra.toJson

theorem toJson_injective (h : t.toJson = t'.toJson) : t = t' := ext (Json.obj.inj h)

theorem normal_toJson (t : OptionTree) : t.toJson.Normal := t.normal

theorem get?_overlay (t other : OptionTree) (name : String) :
    (t.overlay other).get? name =
      ((other.get? name).map (Json.overlay (t.get? name))).or (t.get? name) :=
  Json.lookup_overlayFields (Json.ascending_of_normal other.normal) t.fields name

theorem descend_overlay {path : List String} {leaf : Json}
    (h : descend extra.toJson path = some leaf) (hl : ∀ fields, leaf ≠ .obj fields)
    (t : OptionTree) : descend (t.overlay extra).toJson path = some leaf :=
  Json.descend_overlay extra.normal_toJson h hl (some t.toJson)

/-- More options at the top level hide no value that is no sub-tree. -/
theorem descend_of_extends (hm : ∀ name value, t.get? name = some value → t'.get? name = some value)
    {path : List String} {leaf : Json} (h : descend t.toJson path = some leaf)
    (hl : ∀ fields, leaf ≠ .obj fields) : descend t'.toJson path = some leaf := by
  cases path with
  | nil => exact absurd (Option.some.inj h).symm (hl t.fields)
  | cons name path =>
    obtain ⟨fields, inner, ⟨⟩, hinner, hpath⟩ := descend_cons_eq_some h
    rwa [toJson, descend_cons_of_lookup (hm name inner hinner)]

theorem applyUser_eq_ok_iff :
    declared.applyUser user = .ok t ↔
      Json.overrideFields "" declared.fields user.fields = .ok t.fields := by
  rw [applyUser]
  split
  · rename_i hf
    simp [hf]
  · rename_i fields hf
    constructor
    · intro h
      cases h
      exact hf
    · intro h
      exact congrArg Except.ok (ext (Except.ok.inj (hf.symm.trans h)))

/-- The options of a user are accepted if they are declared, and then they are an overlay. -/
theorem applyUser_eq_ok_iff_declares :
    declared.applyUser user = .ok t ↔ declared.Declares user ∧ t = declared.overlay user := by
  have hnormal := ((Json.fieldsNormal_iff user.fields).1 user.normal).2
  rw [applyUser_eq_ok_iff, Json.overrideFields_eq_ok_iff (Json.ascending_of_normal user.normal)
    fun f hf _ _ _ => Json.override_eq_ok_iff (hnormal f hf)]
  exact and_congr_right fun _ => ⟨fun h => ext h, fun h => congrArg fields h⟩

theorem declares_iff : declared.Declares user ↔ ∀ name value, user.get? name = some value →
    ∃ old, declared.get? name = some old ∧ old.Declares value :=
  Json.declaresFields_iff_lookup (Json.ascending_of_normal user.normal)

theorem contains_applyUser (h : declared.applyUser user = .ok t) (name : String) :
    t.contains name = declared.contains name := by
  obtain ⟨hd, rfl⟩ := applyUser_eq_ok_iff_declares.1 h
  rw [contains, contains, get?_overlay]
  cases hu : user.get? name with
  | none => rfl
  | some value =>
    obtain ⟨old, hold, -⟩ := declares_iff.1 hd name value hu
    rw [hold]
    rfl

/-- Options of a user that have been applied change nothing when they are applied again. -/
theorem applyUser_again (h : declared.applyUser user = .ok t) : t.applyUser user = .ok t := by
  obtain ⟨-, rfl⟩ := applyUser_eq_ok_iff_declares.1 h
  have hnormal : ∀ o, some declared.toJson = some o → o.Normal := by
    rintro _ ⟨⟩
    exact declared.normal_toJson
  have hagain : (declared.overlay user).overlay user = declared.overlay user :=
    toJson_injective (Json.overlay_again user.normal_toJson hnormal)
  exact applyUser_eq_ok_iff_declares.2
    ⟨Json.declares_overlay_self user.normal_toJson hnormal, hagain.symm⟩

theorem applyUser_of_extends {more : OptionTree} (h : declared.applyUser user = .ok t)
    (hm : ∀ name value, declared.get? name = some value → more.get? name = some value) :
    more.applyUser user = .ok (t.fill more) := by
  obtain ⟨hd, rfl⟩ := applyUser_eq_ok_iff_declares.1 h
  refine applyUser_eq_ok_iff_declares.2 ⟨declares_iff.2 fun name value hu => ?_,
    ext_get? fun name => ?_⟩
  · obtain ⟨old, hold, hvalue⟩ := declares_iff.1 hd name value hu
    exact ⟨old, hm name old hold, hvalue⟩
  · rw [get?_fill, get?_overlay, get?_overlay]
    cases hu : user.get? name with
    | none =>
      cases hold : declared.get? name with
      | none => rfl
      | some old => exact (hm name old hold).symm
    | some value =>
      obtain ⟨old, hold, -⟩ := declares_iff.1 hd name value hu
      rw [hold, hm name old hold]
      rfl

/-! ## Names -/

def NamesIn (t t' : OptionTree) : Prop := ∀ name, t.contains name = true → t'.contains name = true

theorem NamesIn.refl (t : OptionTree) : t.NamesIn t := fun _ h => h

theorem NamesIn.trans {t'' : OptionTree} (h : t.NamesIn t') (h' : t'.NamesIn t'') :
    t.NamesIn t'' :=
  fun name hn => h' name (h name hn)

theorem namesIn_fill (t defaults : OptionTree) : t.NamesIn (t.fill defaults) := by
  intro name hn
  rw [contains, get?_fill, Option.isSome_or]
  exact Bool.or_eq_true_iff.2 (.inl hn)

theorem namesIn_set (t : OptionTree) (name : String) (value : Json) :
    t.NamesIn (t.set name value) := by
  intro other hn
  have hput : (t.set name value).get? other = _ :=
    Keyed.lookup_put name other value.normalize t.fields
  rw [contains, hput]
  split
  · rfl
  · exact hn

theorem namesIn_overlay (t other : OptionTree) : t.NamesIn (t.overlay other) := by
  intro name hn
  rw [contains, get?_overlay, Option.isSome_or]
  exact Bool.or_eq_true_iff.2 (.inr hn)

theorem namesIn_applyUser (h : declared.applyUser user = .ok t) : declared.NamesIn t := by
  intro name hn
  rwa [contains_applyUser h]

/-! ## Layers over layers -/

/-- More defaults are kept beside what the options of a user make of the former ones. -/
theorem applyUser_fill (h : declared.applyUser user = .ok t) (defaults : OptionTree) :
    (declared.fill defaults).applyUser user = .ok (t.fill defaults) := by
  have hmore : ∀ name value, declared.get? name = some value →
      (declared.fill defaults).get? name = some value := fun _ _ hv => get?_fill_of_some hv defaults
  rw [applyUser_of_extends h hmore, ← fill_assoc, fill_of_contains (contains_applyUser h)]

/-- Once the options of a user have been applied, only what extra ones add to them counts. -/
theorem applyUser_of_applied (h : t.applyUser user = .ok t)
    (he : t.applyUser (user.overlay extra) = .ok t') : t.applyUser extra = .ok t' := by
  obtain ⟨-, happlied⟩ := applyUser_eq_ok_iff_declares.1 h
  have habsorbed : Json.overlay (some t.toJson) user.toJson = t.toJson :=
    congrArg toJson happlied.symm
  obtain ⟨hd, rfl⟩ := applyUser_eq_ok_iff_declares.1 he
  refine applyUser_eq_ok_iff_declares.2 ⟨Json.declares_of_absorbed t.normal_toJson
    user.normal_toJson extra.normal_toJson habsorbed hd, ?_⟩
  exact toJson_injective
    (Json.overlay_absorbed t.normal_toJson user.normal_toJson extra.normal_toJson habsorbed)

/-- Unless a value of the user obstructs a declared sub-tree that extra options open again, these
can be laid over the options of the user first. -/
theorem applyUser_overlay (h : declared.applyUser user = .ok t) (he : t.applyUser extra = .ok t')
    (hu : declared.Unobstructed user extra) :
    declared.applyUser (user.overlay extra) = .ok t' := by
  obtain ⟨hd, rfl⟩ := applyUser_eq_ok_iff_declares.1 h
  obtain ⟨hde, rfl⟩ := applyUser_eq_ok_iff_declares.1 he
  refine applyUser_eq_ok_iff_declares.2
    ⟨Json.declares_overlay user.normal_toJson extra.normal_toJson hu hd hde, ?_⟩
  exact toJson_injective (Json.overlay_overlay declared.normal_toJson user.normal_toJson
    extra.normal_toJson hu).symm

theorem foldlM_applyUser_cons {layers : List OptionTree} :
    (user :: layers).foldlM applyUser declared = .ok t ↔
      ∃ first, declared.applyUser user = .ok first ∧ layers.foldlM applyUser first = .ok t := by
  rw [List.foldlM_cons]
  cases declared.applyUser user with
  | error path => exact ⟨nofun, by rintro ⟨_, ⟨⟩, _⟩⟩
  | ok first => exact ⟨fun h => ⟨first, rfl, h⟩, by rintro ⟨_, ⟨⟩, h⟩; exact h⟩

/-- Layers that do not obstruct each other can be laid as one. -/
theorem applyUser_foldl_overlay {layers : List OptionTree}
    (h : (user :: layers).foldlM applyUser declared = .ok t)
    (hu : ∀ before extra after, layers = before ++ extra :: after →
      declared.Unobstructed (before.foldl overlay user) extra) :
    declared.applyUser (layers.foldl overlay user) = .ok t := by
  induction layers generalizing user with
  | nil =>
    obtain ⟨first, hfirst, ⟨⟩⟩ := foldlM_applyUser_cons.1 h
    exact hfirst
  | cons extra rest ih =>
    obtain ⟨first, hfirst, hrest⟩ := foldlM_applyUser_cons.1 h
    obtain ⟨second, hsecond, hrest⟩ := foldlM_applyUser_cons.1 hrest
    have hboth := applyUser_overlay hfirst hsecond (hu [] extra rest rfl)
    exact ih (foldlM_applyUser_cons.2 ⟨second, hboth, hrest⟩) fun before more after hl =>
      hu (extra :: before) more after (congrArg (extra :: ·) hl)

theorem foldlM_applyUser_fill {layers : List OptionTree}
    (h : layers.foldlM applyUser declared = .ok t) (defaults : OptionTree) :
    layers.foldlM applyUser (declared.fill defaults) = .ok (t.fill defaults) := by
  induction layers generalizing declared with
  | nil => cases h; rfl
  | cons user rest ih =>
    obtain ⟨first, hfirst, hrest⟩ := foldlM_applyUser_cons.1 h
    exact foldlM_applyUser_cons.2 ⟨_, applyUser_fill hfirst defaults, ih hrest⟩

end OptionTree
end ParserPackages
