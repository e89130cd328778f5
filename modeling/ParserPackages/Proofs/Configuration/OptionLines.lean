import ParserPackages.Proofs.Configuration.SummaryText
import ParserPackages.Proofs.OptionTree.LeafPaths

/-!
# Options in the text of summaries

The part of the text between the rules and the processors has one line for every leaf of the
options, in depth-first order. A line never takes up two, for in the text of a value all line feeds
are escaped. As long as no key has a dot in it, the path in a line can be looked up, and it leads to
the leaf that the line shows.
-/
namespace ParserPackages

open OptionTree (descend)

namespace Summary

/-- The lines that the facts of some sections take up in the text. -/
def linesOf (s : Summary) (sections : List Section) : List String :=
  sections.flatMap fun k => (s.sectionLines k).flatMap (Text.split '\n')

theorem linesOf_append (s : Summary) (first second : List Section) :
    s.linesOf (first ++ second) = s.linesOf first ++ s.linesOf second :=
  List.flatMap_append

theorem split_toText_eq_linesOf (s : Summary) :
    Text.split '\n' s.toText = s.linesOf Section.all := by
  have hne : s.textLines ≠ [] := by simp [textLines]
  rw [toText, Text.split_join_eq_flatMap rfl hne, textLines_eq_flatMap, linesOf,
    List.flatMap_assoc]

/-- Facts without line feeds take up a line each. -/
theorem linesOf_eq_flatMap {s : Summary} {sections : List Section}
    (h : ∀ k ∈ sections, ∀ line ∈ s.sectionLines k, '\n' ∉ line.toList) :
    s.linesOf sections = sections.flatMap s.sectionLines := by
  refine List.flatMap_congr fun k hk => ?_
  rw [List.flatMap_congr fun line hl => Text.split_of_notMem (h k hk line hl),
    List.flatMap_singleton']

theorem notMem_options {s : Summary} (h : s.options.PlainKeys) :
    ∀ line ∈ s.sectionLines .options, '\n' ∉ line.toList := by
  rw [sectionLines, optionLines_eq, List.forall_mem_map]
  exact fun leaf hl => notMem_leafLine fun key hk => (s.options.plainKeys_iff.1 h leaf hl key hk).2

theorem linesOf_options {s : Summary} (h : s.options.PlainKeys) :
    s.linesOf [.options] = s.options.leaves.map leafLine := by
  rw [linesOf_eq_flatMap (List.forall_mem_singleton.2 (notMem_options h)), List.flatMap_singleton,
    sectionLines, optionLines_eq]

end Summary

/-- Paths without dots are told apart by their dotted texts. -/
theorem OptionTree.nodup_dotted {t : OptionTree} (h : t.PlainKeys) :
    (t.leaves.map fun leaf => Text.join "." leaf.path).Nodup := by
  refine List.pairwise_map.2 (t.pairwise_leaves.imp_of_mem fun {a b} ha hb hbefore hjoin => ?_)
  have hsplit {leaf : Leaf} (hl : leaf ∈ t.leaves) :
      Text.split '.' (Text.join "." leaf.path) = leaf.path :=
    Text.split_join rfl (mem_leaves_iff.1 hl).1 fun key hk => (t.plainKeys_iff.1 h leaf hl key hk).1
  exact hbefore.ne (by rw [← hsplit ha, hjoin, hsplit hb])

open Summary in
/-- Where no key has a dot or a line feed in it, the options take up exactly one line of the text
for every leaf, in depth-first order: a value at which a path ends, shown with its dotted path and
its compact text. No two of these paths are the same, and each of them leads to its leaf when it is
looked up. If nothing else in the text has a line feed, these are the lines that begin as those of
options do. -/
theorem options_shown_leaf_by_leaf (s : Summary) (h : s.options.PlainKeys) :
    (∀ path value, ⟨path, value⟩ ∈ s.options.leaves ↔
      path ≠ [] ∧ descend s.options.toJson path = some value ∧ value.Ends) ∧
    s.options.leaves.Pairwise (fun a b => Before a.path b.path) ∧
    Text.split '\n' s.toText =
      s.linesOf [.packages, .handlers, .fallbacks, .stackItems, .tags, .nodeFactories] ++
        s.options.leaves.map leafLine ++
        s.linesOf [.preprocessors, .postprocessors, .initHooks, .readyHooks] ∧
    (s.options.leaves.map fun leaf => Text.join "." leaf.path).Nodup ∧
    (∀ leaf ∈ s.options.leaves,
      s.options.getPath? (Text.join "." leaf.path) = some leaf.value ∧
        '\n' ∉ (leafLine leaf).toList) ∧
    ((∀ k, k ≠ .options → ∀ line ∈ s.sectionLines k, '\n' ∉ line.toList) →
      (Text.split '\n' s.toText).filter (fun line => "option ".toList <+: line.toList) =
        s.options.leaves.map leafLine) := by
  refine ⟨fun path value => OptionTree.mem_leaves_iff, s.options.pairwise_leaves, ?_,
    OptionTree.nodup_dotted h, fun leaf hl => ?_, fun hothers => ?_⟩
  · rw [split_toText_eq_linesOf, ← linesOf_options h, ← linesOf_append, ← linesOf_append]
    rfl
  · obtain ⟨hne, hfound, -⟩ := OptionTree.mem_leaves_iff.1 hl
    have hkeys := s.options.plainKeys_iff.1 h leaf hl
    rw [OptionTree.getPath?_join _ hne fun key hk => (hkeys key hk).1]
    exact ⟨hfound, notMem_leafLine fun key hk => (hkeys key hk).2⟩
  · have hplain : ∀ k ∈ Section.all, ∀ line ∈ s.sectionLines k, '\n' ∉ line.toList := by
      intro k _
      by_cases hk : k = .options
      · exact hk ▸ notMem_options h
      · exact hothers k hk
    rw [split_toText_eq_linesOf, linesOf_eq_flatMap hplain, ← textLines_eq_flatMap]
    exact (s.filter_textLines .options).trans (optionLines_eq s.options)

namespace Sample

/-- Empty keys, an empty object, an object in an array, a text of two lines and a fraction. -/
def uneven : OptionTree :=
  .ofFields [("ams", .obj [("tags", .obj []), ("", .obj [("", .null)])]),
    ("list", .arr [.obj [("a.b", .str "x\ny")], .float ⟨0x3FE0000000000000⟩]), ("", .int 1)]

end Sample

open Sample Summary in
set_option maxRecDepth 10000 in
/-- The path of an empty key ends in a dot, and is looked up all the same. -/
theorem uneven_shown_leaf_by_leaf :
    let s := prepared.active.summary.withOptions uneven
    s.options.PlainKeys ∧
      (Text.split '\n' s.toText).filter (fun line => "option ".toList <+: line.toList) =
        ["option  = 1", "option ams.. = null", "option ams.tags = \x7b\x7d",
          "option list = [\x7b\"a.b\":\"x\\ny\"\x7d,0.5]"] ∧
      s.options.getPath? "" = some (.int 1) ∧ s.options.getPath? "ams.." = some .null ∧
      s.options.getPath? "ams.tags" = some (.obj []) := by
  intro s
  have h : s.options.PlainKeys := by decide
  obtain ⟨-, -, -, -, hlooked, hlines⟩ := options_shown_leaf_by_leaf s h
  have hothers : ∀ k, k ≠ Section.options → ∀ line ∈ s.sectionLines k, '\n' ∉ line.toList := by
    have hall : ∀ k ∈ Section.all, k ≠ .options →
      ∀ line ∈ s.sectionLines k, '\n' ∉ line.toList := by decide
    exact fun k => hall k (Section.mem_all k)
  have hleaves : s.options.leaves = [⟨[""], .int 1⟩, ⟨["ams", "", ""], .null⟩,
      ⟨["ams", "tags"], .obj []⟩,
      ⟨["list"], .arr [.obj [("a.b", .str "x\ny")], .float ⟨0x3FE0000000000000⟩]⟩] := rfl
  rw [hleaves] at hlooked hlines
  simp only [List.forall_mem_cons] at hlooked
  obtain ⟨⟨hempty, -⟩, ⟨hnull, -⟩, ⟨hobject, -⟩, -⟩ := hlooked
  exact ⟨h, (hlines hothers).trans (by decide +kernel), hempty, hnull, hobject⟩

end ParserPackages
