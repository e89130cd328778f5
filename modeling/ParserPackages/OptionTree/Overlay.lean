import ParserPackages.OptionTree.Basic

/-! # Overlays and user options

Two ways of laying one tree over another. Both merge objects into objects and replace anything
else; `overlay` adds unknown names, while `applyUser` refuses them and names the first one by its
dotted path. -/

namespace ParserPackages

mutual
/-- The value left where `old` stood, once the other value is laid over it. -/
def Json.overlay (old : Option Json) : Json → Json
  | .obj incoming =>
    match old with
    | some (.obj inner) => .obj (Json.overlayFields inner incoming)
    | _ => .obj incoming
  | value => value

def Json.overlayFields (target : Fields) : Fields → Fields
  | [] => target
  | (key, value) :: rest =>
    Json.overlayFields (Keyed.put key (Json.overlay (target.lookup key) value) target) rest
end

/-- The dotted path of a name below `above`; the empty path is the root. -/
def dotted (above name : String) : String :=
  if above.isEmpty then name else above ++ "." ++ name

mutual
/-- Like `overlay`, but every name must be there; else the path of the first one that is not. -/
def Json.override (path : String) (old : Json) : Json → Except String Json
  | .obj incoming =>
    match old with
    | .obj inner => (Json.overrideFields path inner incoming).map .obj
    | _ => .ok (.obj incoming)
  | value => .ok value

def Json.overrideFields (path : String) (target : Fields) : Fields → Except String Fields
  | [] => .ok target
  | (key, value) :: rest =>
    match target.lookup key with
    | none => .error (dotted path key)
    | some old =>
      match Json.override (dotted path key) old value with
      | .error missing => .error missing
      | .ok new => Json.overrideFields path (Keyed.put key new target) rest
end

namespace Json

mutual
theorem normal_overlay {old : Option Json} (h : ∀ o, old = some o → o.Normal) :
    (value : Json) → value.Normal → (Json.overlay old value).Normal
  | .obj incoming, hv => by
    simp only [Json.overlay]
    split
    · rename_i inner
      exact fieldsNormal_overlayFields (h _ rfl) incoming hv
    · exact hv
  | .null, _ => trivial
  | .bool _, _ => trivial
  | .int _, _ => trivial
  | .float _, _ => trivial
  | .str _, _ => trivial
  | .arr _, hv => hv

theorem fieldsNormal_overlayFields {target : Fields} (h : FieldsNormal target) :
    (incoming : Fields) → FieldsNormal incoming → FieldsNormal (overlayFields target incoming)
  | [], _ => h
  | (key, value) :: rest, hi =>
    fieldsNormal_overlayFields
      (fieldsNormal_put h key
        (normal_overlay (fun _ ho => normal_of_lookup h ho) value hi.2.1)) rest hi.2.2
end

mutual
theorem normal_override {path : String} {old new : Json} (h : old.Normal) :
    (value : Json) → value.Normal → Json.override path old value = .ok new → new.Normal
  | .obj incoming, hv, he => by
    simp only [Json.override] at he
    split at he
    · rename_i inner
      match hf : Json.overrideFields path inner incoming, he with
      | .ok fields, he =>
        cases he
        exact fieldsNormal_overrideFields h incoming hv hf
    · cases he; exact hv
  | .null, _, he => by cases he; trivial
  | .bool _, _, he => by cases he; trivial
  | .int _, _, he => by cases he; trivial
  | .float _, _, he => by cases he; trivial
  | .str _, _, he => by cases he; trivial
  | .arr _, hv, he => by cases he; exact hv

theorem fieldsNormal_overrideFields {path : String} {target fields : Fields}
    (h : FieldsNormal target) : (incoming : Fields) → FieldsNormal incoming →
    Json.overrideFields path target incoming = .ok fields → FieldsNormal fields
  | [], _, he => by cases he; exact h
  | (key, value) :: rest, hi, he => by
    simp only [Json.overrideFields] at he
    split at he
    · cases he
    · rename_i old hold
      split at he
      · cases he
      · rename_i new hnew
        exact fieldsNormal_overrideFields
          (fieldsNormal_put h key (normal_override (normal_of_lookup h hold) value hi.2.1 hnew))
          rest hi.2.2 he
end

end Json

namespace OptionTree

/-- Lays `other` over the tree at every depth, adding unknown names. -/
def overlay (t other : OptionTree) : OptionTree :=
  ⟨Json.overlayFields t.fields other.fields,
    Json.fieldsNormal_overlayFields t.normal other.fields other.normal⟩

/-- Lays the options of a user over declared ones. An undeclared name is an error, which carries
the dotted path of the first one in order. -/
def applyUser (declared user : OptionTree) : Except String OptionTree :=
  match h : Json.overrideFields "" declared.fields user.fields with
  | .error path => .error path
  | .ok fields =>
    .ok ⟨fields, Json.fieldsNormal_overrideFields declared.normal user.fields user.normal h⟩

end OptionTree
end ParserPackages
