import ParserPackages.Settings.File
import ParserPackages.Proofs.Json.Reading
import ParserPackages.Proofs.Keyed
import ParserPackages.Proofs.OptionTree.OverlayLaws
import ParserPackages.Proofs.Parser.Requests

/-!
# Written settings are loaded again

Settings written as JSON are loaded from a file as they were, with the packages they ask for, the
parsers they extend and their options. Requests are written as objects, but can be read from their
names alone too.
-/
namespace ParserPackages

namespace Json

mutual
theorem normalize_of_normal : (value : Json) → value.Normal → value.normalize = value
  | .null, _ | .bool _, _ | .int _, _ | .float _, _ | .str _, _ => rfl
  | .arr items, h => congrArg Json.arr (normalizeItems_of_normal items h)
  | .obj fields, h => by
    have hasc := ascending_of_normal h
    have hput : Keyed.putAll [] fields = fields := by
      refine Keyed.ext_lookup (Keyed.ascending_putAll List.Pairwise.nil fields) hasc fun key => ?_
      rw [Keyed.lookup_putAll hasc, List.lookup_nil, Option.or_none]
    rw [normalize, normalizeFields_of_normal fields [] h, hput]

theorem normalizeItems_of_normal : (items : List Json) → ItemsNormal items →
    normalizeItems items = items
  | [], _ => rfl
  | item :: rest, h => by
    rw [normalizeItems, normalize_of_normal item h.1, normalizeItems_of_normal rest h.2]

theorem normalizeFields_of_normal : (fields done : Fields) → FieldsNormal fields →
    normalizeFields done fields = Keyed.putAll done fields
  | [], _, _ => rfl
  | (key, value) :: rest, done, h => by
    rw [normalizeFields, normalize_of_normal value h.2.1, normalizeFields_of_normal rest _ h.2.2]
    rfl
end

end Json

theorem OptionTree.ofJson?_toJson (t : OptionTree) : ofJson? t.toJson = some t := by
  have h := Json.normalize_of_normal t.toJson t.normal
  refine congrArg some (OptionTree.ext ?_)
  exact Json.obj.inj h

namespace Request

theorem writtenAs_toJson (r : Request) : r.WrittenAs r.toJson := by
  obtain ⟨name, priority?⟩ := r
  cases priority? with
  | none => exact .object name none _ rfl .absent
  | some priority => exact .object name (some priority) _ rfl (.written (some priority))

theorem exact_toJson (r : Request) : r.toJson.Exact := by
  obtain ⟨name, priority?⟩ := r
  cases priority? with
  | none => exact ⟨trivial, trivial⟩
  | some priority =>
    have hle := priority.le_toInt
    have hlt := priority.toInt_lt
    have hfits : Json.FitsWord priority.toInt := by
      rw [Json.fitsWord_iff]
      omega
    exact ⟨trivial, hfits, trivial⟩

end Request

namespace Settings

theorem mapM_map {α β : Type} {write : α → β} {read : β → Option α}
    (h : ∀ a, read (write a) = some a) (items : List α) :
    (items.map write).mapM read = some items := by
  induction items with
  | nil => rfl
  | cons item rest ih => simp [List.mapM_cons, h, ih]

theorem ofJson?_toJson (s : Settings) : ofJson? s.toJson = some s := by
  have hpackages : Request.listOfJson? (.arr (s.packages.map Request.toJson)) = some s.packages :=
    mapM_map (fun r => Request.ofJson?_eq_some_iff.2 r.writtenAs_toJson) s.packages
  have htext : ∀ text, textOfJson? (.str text) = some text := fun _ => rfl
  have hparsers : textsOfJson? (.arr (s.parsers.map .str)) = some s.parsers :=
    mapM_map htext s.parsers
  have hoptions := s.options.ofJson?_toJson
  simp [ofJson?, toJson, Decoder.ofFields?, Part.ofKey?, Decoder.readParts?, Decoder.read?,
    jsonDecoder, hpackages, hparsers, hoptions]

/-- Requests and parsers have no numbers but priorities. -/
theorem exact_toJson {s : Settings} (h : s.options.toJson.Exact) : s.toJson.Exact := by
  have hpackages : Json.ItemsExact (s.packages.map Request.toJson) := by
    rw [Json.itemsExact_iff, List.forall_mem_map]
    exact fun r _ => r.exact_toJson
  have hparsers : Json.ItemsExact (s.parsers.map .str) := by
    rw [Json.itemsExact_iff, List.forall_mem_map]
    exact fun _ _ => trivial
  exact ⟨hpackages, hparsers, h, trivial⟩

theorem ofFile_eq_ok {s : Settings} {path text : String} (hpath : isJsonPath path = true)
    (h : Json.read? text = some s.toJson) : ofFile path (some text.toUTF8) = .ok s := by
  have hbytes : String.fromUTF8? text.toUTF8 = some text := dif_pos text.isValidUTF8
  have htext : ofText? path text = some s := by
    rw [ofText?, if_pos hpath, h]
    exact s.ofJson?_toJson
  simp only [ofFile, Option.bind_some, hbytes, htext]

end Settings

/-- Settings without doubles are loaded from a file with either of their texts, unless they nest
too deep. A request can be read from what is one of the ways to write it and from nothing else, and
an object without a priority means the same as the name alone. -/
theorem written_settings_loaded :
    (∀ (s : Settings) (path : String), Settings.isJsonPath path = true →
      s.options.toJson.Exact → s.toJson.depth ≤ Json.depthLimit →
        Settings.ofFile path (some s.toJson.compact.toUTF8) = .ok s ∧
          Settings.ofFile path (some s.toJson.pretty.toUTF8) = .ok s) ∧
      (∀ value r, Request.ofJson? value = some r ↔ r.WrittenAs value) ∧
      ∀ name fields, Request.valuesAt "name" fields = [.str name] →
        Request.PriorityIs (Request.valuesAt "priority" fields) none →
          Request.ofJson? (.obj fields) = Request.ofJson? (.str name) := by
  refine ⟨fun s path hpath hexact hdepth => ?_, fun value r => Request.ofJson?_eq_some_iff,
    fun name fields hn hp => ?_⟩
  · have he := Settings.exact_toJson hexact
    exact ⟨Settings.ofFile_eq_ok hpath (Json.read?_compact he hdepth),
      Settings.ofFile_eq_ok hpath (Json.read?_pretty he hdepth)⟩
  · exact Request.ofJson?_eq_some_iff.2 (.object name none fields hn hp)

namespace Sample

/-- Settings with the least priority and the greatest and the least integer of 64 bits. -/
def extremes : Settings where
  packages := [⟨"ams", some (-2147483648)⟩, .ofName "base"]
  parsers := ["tex"]
  options := .set (.set .empty "limit" (.int 18446744073709551615)) "ams"
    (.obj [("depth", .arr [.int (-9223372036854775808), .null])])

end Sample

open Sample in
/-- `extremes` are loaded again, and one of their requests can be written in other ways. -/
theorem extremes_loaded :
    Settings.ofFile "a.b/settings.Json" (some extremes.toJson.compact.toUTF8) = .ok extremes ∧
      Settings.ofFile "a.b/settings.Json" (some extremes.toJson.pretty.toUTF8) = .ok extremes ∧
      Request.ofJson? (.str "base") = some (.ofName "base") ∧
      Request.ofJson? (.obj [("note", .int 1), ("priority", .null), ("name", .str "base")]) =
        some (.ofName "base") := by
  obtain ⟨hloaded, hrequests, hsame⟩ := written_settings_loaded
  have hpath : Settings.isJsonPath "a.b/settings.Json" = true := by decide
  have hleast : Json.FitsWord (-9223372036854775808) := by decide
  have hgreatest : Json.FitsWord 18446744073709551615 := by decide
  have hexact : extremes.options.toJson.Exact :=
    ⟨⟨⟨hleast, trivial, trivial⟩, trivial⟩, hgreatest, trivial⟩
  have hdepth : extremes.toJson.depth = 4 := rfl
  obtain ⟨hcompact, hpretty⟩ := hloaded extremes _ hpath hexact (hdepth ▸ by decide)
  have hname := (hrequests _ _).2 (.name "base")
  have hobject := hsame "base" [("note", .int 1), ("priority", .null), ("name", .str "base")] rfl
    (.written none)
  exact ⟨hcompact, hpretty, hname, hobject.trans hname⟩

end ParserPackages
