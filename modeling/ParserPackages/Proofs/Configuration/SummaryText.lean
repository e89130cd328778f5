import ParserPackages.Proofs.Json.Compact
import ParserPackages.Proofs.OptionTree.Leaves
import ParserPackages.Proofs.Report.Difference

/-!
# Reading summaries back

The text of a summary tells all that the summary holds, where no name, key or label has a character
that separates it from what follows. Every line begins with the heading of its section and no
heading begins another, so the lines fall back into sections, and each section is read back on its
own.
-/
namespace ParserPackages

structure Listable (name : String) : Prop where
  not_blank : Text.isBlank name = false
  comma : ',' ∉ name.toList
  line_feed : '\n' ∉ name.toList

instance (name : String) : Decidable (Listable name) :=
  decidable_of_iff (Text.isBlank name = false ∧ ',' ∉ name.toList ∧ '\n' ∉ name.toList)
    ⟨fun h => ⟨h.1, h.2.1, h.2.2⟩, fun h => ⟨h.1, h.2, h.3⟩⟩

structure Writable (labels : KeyMap String) : Prop where
  colon : ∀ p ∈ labels.pairs, ':' ∉ p.1.toList
  line_feed : ∀ p ∈ labels.pairs, '\n' ∉ p.1.toList ∧ '\n' ∉ p.2.toList

instance (labels : KeyMap String) : Decidable (Writable labels) :=
  decidable_of_iff ((∀ p ∈ labels.pairs, ':' ∉ p.1.toList) ∧
      ∀ p ∈ labels.pairs, '\n' ∉ p.1.toList ∧ '\n' ∉ p.2.toList)
    ⟨fun h => ⟨h.1, h.2⟩, fun h => ⟨h.1, h.2⟩⟩

/-- A leaf whose path can be written with dots and whose value has no doubles. Every key of a tree
is on the path of some leaf; keys inside arrays are written as strings and may hold anything. -/
structure Leaf.Legible (leaf : Leaf) : Prop where
  dot : ∀ key ∈ leaf.path, '.' ∉ key.toList
  equals : ∀ key ∈ leaf.path, '=' ∉ key.toList
  line_feed : ∀ key ∈ leaf.path, '\n' ∉ key.toList
  integral : leaf.value.Integral

structure Summary.Legible (s : Summary) : Prop where
  packages : ∀ name ∈ s.packages, Listable name
  handlers : ∀ c, ∀ name ∈ s.handlers.get c, Listable name
  fallbacks : ∀ c, ∀ label ∈ s.fallbacks.get c, '\n' ∉ label.toList
  stackItems : Writable s.stackItems
  tags : Writable s.tags
  nodeFactories : Writable s.nodeFactories
  options : ∀ leaf ∈ s.options.leaves, leaf.Legible

theorem Category.name_inj {c d : Category} (h : c.name = d.name) : c = d := by
  have hname := Category.ofName?_name c
  rw [h, Category.ofName?_name] at hname
  exact (Option.some.inj hname).symm

namespace Summary

/-! ## Sections -/

/-- The parts of a text, in order. -/
inductive Section where
  | packages
  | handlers
  | fallbacks
  | stackItems
  | tags
  | nodeFactories
  | options
  | preprocessors
  | postprocessors
  | initHooks
  | readyHooks
  deriving DecidableEq

namespace Section

def all : List Section :=
  [packages, handlers, fallbacks, stackItems, tags, nodeFactories, options, preprocessors,
    postprocessors, initHooks, readyHooks]

theorem mem_all (k : Section) : k ∈ all := by cases k <;> decide

def heading : Section → String
  | packages => "packages: "
  | handlers => "handler "
  | fallbacks => "fallback "
  | stackItems => "stack item "
  | tags => "tags "
  | nodeFactories => "node "
  | options => "option "
  | preprocessors => "preprocessor #"
  | postprocessors => "postprocessor #"
  | initHooks => "init hooks: "
  | readyHooks => "ready hooks: "

theorem eq_of_heading_prefix {k l : Section} (h : k.heading.toList <+: l.heading.toList) :
    k = l := by
  have hall : ∀ k ∈ all, ∀ l ∈ all, k.heading.toList <+: l.heading.toList → k = l := by decide
  exact hall k (mem_all k) l (mem_all l) h

theorem heading_ne_empty (k : Section) : k.heading ≠ "" := by cases k <;> decide

end Section

def sectionLines (s : Summary) : Section → List String
  | .packages => ["packages: " ++ Text.join ", " s.packages]
  | .handlers => s.handlers.toList.map fun (category, names) =>
      "handler " ++ category.name ++ ": " ++ Text.join ", " names
  | .fallbacks => fallbackLines s.fallbacks
  | .stackItems => labelLines "stack item" s.stackItems
  | .tags => labelLines "tags" s.tags
  | .nodeFactories => labelLines "node" s.nodeFactories
  | .options => optionLines s.options
  | .preprocessors => processorLines "preprocessor" 0 s.preprocessors
  | .postprocessors => processorLines "postprocessor" 0 s.postprocessors
  | .initHooks => ["init hooks: " ++ priorityList s.initHooks]
  | .readyHooks => ["ready hooks: " ++ priorityList s.readyHooks]

theorem textLines_eq_flatMap (s : Summary) :
    s.textLines = Section.all.flatMap s.sectionLines := by
  simp [textLines, Section.all, sectionLines]

def leafLine (leaf : Leaf) : String :=
  "option " ++ Text.join "." leaf.path ++ " = " ++ leaf.value.compact

theorem leafLinesOfFields_eq_flatMap (path : String) (fields : Fields) :
    leafLinesOfFields path fields = fields.flatMap fun f => leafLines (path ++ "." ++ f.1) f.2 := by
  induction fields with
  | nil => rfl
  | cons f rest ih => rw [leafLinesOfFields, ih, List.flatMap_cons]

theorem leafLines_eq (key : String) (before : List String) (value : Json) :
    leafLines (Text.join "." (key :: before)) value =
      value.leaves.map fun leaf => leafLine ⟨key :: (before ++ leaf.path), leaf.value⟩ := by
  induction value using Json.objectInduction generalizing before with
  | other value h =>
    cases value with
    | obj fields => exact absurd rfl (h fields)
    | _ => simp [leafLines, Json.leaves, leafLine]
  | obj fields ih =>
    cases fields with
    | nil => simp [leafLines, Json.leaves, leafLine]
    | cons f rest =>
      rw [leafLines, leafLinesOfFields_eq_flatMap, Json.leaves, Json.leavesOfFields_eq_flatMap,
        List.map_flatMap]
      refine List.flatMap_congr fun g hg => ?_
      rw [← Text.join_concat, ih g hg, List.map_map]
      simp [Function.comp_def, Leaf.under]

theorem optionLines_eq (t : OptionTree) : optionLines t = t.leaves.map leafLine := by
  rw [optionLines, OptionTree.leaves, Json.leavesOfFields_eq_flatMap, List.map_flatMap]
  refine List.flatMap_congr fun f _ => ?_
  rw [List.map_map]
  exact leafLines_eq f.1 [] f.2

theorem processorLines_heading (stage : String) (start : Nat)
    (priorities : List (Option Priority)) :
    ∀ line ∈ processorLines stage start priorities, ∃ rest, line = stage ++ " #" ++ rest := by
  induction priorities generalizing start with
  | nil => exact List.forall_mem_nil _
  | cons priority? priorities ih =>
    cases priority? with
    | none => exact List.forall_mem_cons.2 ⟨⟨_, rfl⟩, ih _⟩
    | some priority =>
      exact List.forall_mem_cons.2 ⟨⟨_, by simp only [String.append_assoc]; rfl⟩, ih _⟩

theorem sectionLines_heading (s : Summary) (k : Section) :
    ∀ line ∈ s.sectionLines k, ∃ rest, line = k.heading ++ rest := by
  have hlabels (what : String) (labels : KeyMap String) :
      ∀ line ∈ labelLines what labels, ∃ rest, line = what ++ " " ++ rest :=
    List.forall_mem_map.2 fun p _ => ⟨_, by simp only [String.append_assoc]; rfl⟩
  cases k with
  | packages | initHooks | readyHooks => exact List.forall_mem_singleton.2 ⟨_, rfl⟩
  | handlers => exact List.forall_mem_map.2 fun p _ => ⟨_, by simp only [String.append_assoc]; rfl⟩
  | fallbacks =>
    intro line hl
    obtain ⟨⟨category, label?⟩, _, hlabel⟩ := List.mem_filterMap.1 hl
    obtain ⟨label, _, rfl⟩ := Option.map_eq_some_iff.1 hlabel
    exact ⟨_, by simp only [String.append_assoc]; rfl⟩
  | stackItems => exact hlabels _ _
  | tags => exact hlabels _ _
  | nodeFactories => exact hlabels _ _
  | options =>
    rw [sectionLines, optionLines_eq]
    exact List.forall_mem_map.2 fun leaf _ =>
      ⟨_, by simp only [leafLine, String.append_assoc]; rfl⟩
  | preprocessors => exact processorLines_heading _ _ _
  | postprocessors => exact processorLines_heading _ _ _

theorem heading_prefix (s : Summary) (k : Section) :
    ∀ line ∈ s.sectionLines k, k.heading.toList <+: line.toList := by
  intro line hl
  obtain ⟨rest, rfl⟩ := s.sectionLines_heading k line hl
  rw [String.toList_append]
  exact List.prefix_append _ _

/-- The lines of a section are those that begin with its heading. -/
theorem filter_textLines (s : Summary) (k : Section) :
    s.textLines.filter (fun line => k.heading.toList <+: line.toList) = s.sectionLines k := by
  have hfilter (l : Section) :
      (s.sectionLines l).filter (fun line => k.heading.toList <+: line.toList) =
        if l = k then s.sectionLines k else [] := by
    by_cases h : l = k
    · subst h
      simpa using s.heading_prefix l
    · rw [if_neg h, List.filter_eq_nil_iff]
      intro line hl hk
      -- two headings of one line would be comparable
      rcases List.prefix_or_prefix_of_prefix (of_decide_eq_true hk)
        (s.heading_prefix l line hl) with hp | hp
      · exact h (Section.eq_of_heading_prefix hp).symm
      · exact h (Section.eq_of_heading_prefix hp)
  rw [textLines_eq_flatMap, List.filter_flatMap]
  simp only [hfilter]
  cases k <;> simp [Section.all]

theorem sectionLines_eq {s t : Summary} (h : s.textLines = t.textLines) (k : Section) :
    s.sectionLines k = t.sectionLines k := by
  rw [← filter_textLines, h, filter_textLines]

/-! ## Names and priorities -/

theorem ne_empty_of_listable {name : String} (h : Listable name) : name ≠ "" := by
  rintro rfl
  exact absurd h.not_blank (by decide)

theorem names_inj {names others : List String} (hn : ∀ name ∈ names, Listable name)
    (ho : ∀ name ∈ others, Listable name)
    (h : Text.join ", " names = Text.join ", " others) : names = others :=
  Text.join_inj (c := ',') (by decide)
    (fun name hm => ⟨ne_empty_of_listable (hn name hm), (hn name hm).comma⟩)
    (fun name hm => ⟨ne_empty_of_listable (ho name hm), (ho name hm).comma⟩) h

theorem toList_toString_priority (p : Priority) :
    (toString p).toList = Json.intText p.toInt := by
  change p.toInt.repr.toList = _
  rw [Int.repr_eq_if, Json.intText]
  by_cases h : p.toInt < 0
  · rw [if_neg (by omega), if_pos h, show (-p.toInt).toNat = p.toInt.natAbs by omega]
    simp [Nat.repr_eq_ofList_toDigits]
  · rw [if_pos (by omega), if_neg h, show p.toInt.toNat = p.toInt.natAbs by omega]
    simp [Nat.repr_eq_ofList_toDigits]

theorem toString_priority_inj {p q : Priority} (h : toString p = toString q) : p = q := by
  have htext : Json.intText p.toInt ++ [] = Json.intText q.toInt ++ [] := by
    rw [← toList_toString_priority, h, toList_toString_priority]
  exact Int32.toInt_inj.1 (Json.intText_append_inj Json.halts_nil Json.halts_nil htext).1

theorem toString_priority_ne_empty (p : Priority) : toString p ≠ "" := by
  rw [ne_eq, ← String.toList_eq_nil_iff, toList_toString_priority, Json.intText]
  split
  · exact List.cons_ne_nil _ _
  · exact Nat.toDigits_ne_nil

theorem notMem_toString_priority {c : Char} (hsign : c ≠ '-') (hdigit : c.isDigit = false)
    (p : Priority) : c ∉ (toString p).toList := by
  rw [toList_toString_priority]
  exact Json.notMem_intText hsign hdigit _

theorem priorityList_inj {ps qs : List Priority} (h : priorityList ps = priorityList qs) :
    ps = qs := by
  have hitem (ps : List Priority) : ∀ s ∈ ps.map toString, s ≠ "" ∧ ',' ∉ s.toList :=
    List.forall_mem_map.2 fun p _ =>
      ⟨toString_priority_ne_empty p, notMem_toString_priority (by decide) (by decide) p⟩
  rw [priorityList, priorityList, String.append_left_inj, String.append_right_inj] at h
  have hmap := Text.join_inj (c := ',') (by decide) (hitem ps) (hitem qs) h
  exact List.map_injective_iff.2 (fun _ _ => toString_priority_inj) hmap

def priorityPart : Option Priority → String
  | none => ""
  | some priority => " priority " ++ toString priority

theorem priorityPart_inj {p? q? : Option Priority} (h : priorityPart p? = priorityPart q?) :
    p? = q? := by
  cases p? <;> cases q?
  case none.none => rfl
  case none.some | some.none => simp [priorityPart] at h
  case some.some p q =>
    exact congrArg some (toString_priority_inj ((String.append_right_inj _).1 h))

theorem processorLines_cons (stage : String) (start : Nat) (p? : Option Priority)
    (rest : List (Option Priority)) :
    processorLines stage start (p? :: rest) =
      (stage ++ " #" ++ toString start ++ priorityPart p?) ::
        processorLines stage (start + 1) rest := by
  cases p? <;> simp [processorLines, priorityPart, String.append_assoc]

theorem processorLines_inj {stage : String} {start : Nat} {ps qs : List (Option Priority)}
    (h : processorLines stage start ps = processorLines stage start qs) : ps = qs := by
  induction ps generalizing start qs with
  | nil =>
    cases qs with
    | nil => rfl
    | cons q? qs => simp [processorLines_cons, processorLines] at h
  | cons p? ps ih =>
    cases qs with
    | nil => simp [processorLines_cons, processorLines] at h
    | cons q? qs =>
      rw [processorLines_cons, processorLines_cons, List.cons.injEq, String.append_right_inj] at h
      rw [priorityPart_inj h.1, ih h.2]

/-! ## Labels -/

private theorem eq_of_map_eq {α β : Type} {f : α → β} {xs ys : List α}
    (hf : ∀ x ∈ xs, ∀ y ∈ ys, f x = f y → x = y) (h : xs.map f = ys.map f) : xs = ys := by
  induction xs generalizing ys with
  | nil => simpa using h.symm
  | cons x xs ih =>
    cases ys with
    | nil => simp at h
    | cons y ys =>
      obtain ⟨hhead, htail⟩ := List.cons.inj h
      rw [hf x (by simp) y (by simp) hhead,
        ih (fun x hx y hy => hf x (by simp [hx]) y (by simp [hy])) htail]

theorem labelLines_inj {what : String} {labels others : KeyMap String} (hl : Writable labels)
    (ho : Writable others) (h : labelLines what labels = labelLines what others) :
    labels = others := by
  refine KeyMap.ext (eq_of_map_eq ?_ h)
  rintro ⟨key, label⟩ hp ⟨key', label'⟩ hq he
  obtain ⟨rfl, rfl⟩ :=
    Text.append_append_sep_inj (c := ':') (by decide) (hl.colon _ hp) (ho.colon _ hq) he
  rfl

theorem mem_fallbackLines (fallbacks : ByCategory (Option String)) (c : Category) (label : String) :
    "fallback " ++ c.name ++ ": " ++ label ∈ fallbackLines fallbacks ↔
      fallbacks.get c = some label := by
  have hcolon (c : Category) : ':' ∉ c.name.toList := by cases c <;> decide
  simp only [fallbackLines, List.mem_filterMap, Prod.exists, Option.map_eq_some_iff]
  constructor
  · rintro ⟨d, label?, hd, label', rfl, he⟩
    obtain ⟨hname, rfl⟩ :=
      Text.append_append_sep_inj (c := ':') (by decide) (hcolon d) (hcolon c) he
    obtain rfl := Category.name_inj hname
    simpa [ByCategory.toList, Category.mem_all] using hd
  · intro h
    refine ⟨c, some label, ?_, label, rfl, rfl⟩
    simpa [ByCategory.toList, Category.mem_all] using h

theorem fallbackLines_inj {fallbacks others : ByCategory (Option String)}
    (h : fallbackLines fallbacks = fallbackLines others) : fallbacks = others := by
  ext c label
  rw [← mem_fallbackLines, h, mem_fallbackLines]

theorem handlers_inj {lists others : HandlerLists}
    (hl : ∀ c, ∀ name ∈ lists.get c, Listable name) (ho : ∀ c, ∀ name ∈ others.get c, Listable name)
    (h : lists.toList.map (fun (category, names) =>
        "handler " ++ category.name ++ ": " ++ Text.join ", " names) =
      others.toList.map fun (category, names) =>
        "handler " ++ category.name ++ ": " ++ Text.join ", " names) : lists = others := by
  simp only [ByCategory.toList, List.map_map] at h
  ext1 c
  have hline := List.map_inj_left.1 h c (Category.mem_all c)
  exact names_inj (hl c) (ho c) ((String.append_right_inj _).1 hline)

/-! ## Options -/

theorem leafLine_inj {leaf other : Leaf} (hl : leaf.Legible) (ho : other.Legible)
    (hlp : leaf.path ≠ []) (hop : other.path ≠ []) (h : leafLine leaf = leafLine other) :
    leaf = other := by
  have hequals {leaf : Leaf} (h : leaf.Legible) : '=' ∉ (Text.join "." leaf.path).toList :=
    Text.notMem_join (by decide) h.equals
  obtain ⟨hpath, hvalue⟩ :=
    Text.append_append_sep_inj (c := '=') (by decide) (hequals hl) (hequals ho) h
  have hkeys := congrArg (Text.split '.') hpath
  rw [Text.split_join rfl hlp hl.dot, Text.split_join rfl hop ho.dot] at hkeys
  obtain ⟨path, value⟩ := leaf
  obtain rfl : path = other.path := hkeys
  obtain rfl : value = other.value := Json.compact_inj hl.integral ho.integral hvalue
  rfl

theorem optionLines_inj {options others : OptionTree} (hl : ∀ leaf ∈ options.leaves, leaf.Legible)
    (ho : ∀ leaf ∈ others.leaves, leaf.Legible) (h : optionLines options = optionLines others) :
    options = others := by
  rw [optionLines_eq, optionLines_eq] at h
  refine OptionTree.leaves_inj (eq_of_map_eq (fun leaf hleaf other hother => ?_) h)
  exact leafLine_inj (hl leaf hleaf) (ho other hother) (Json.path_ne_nil_of_mem hleaf)
    (Json.path_ne_nil_of_mem hother)

/-! ## Lines without line feeds -/

theorem notMem_names {names : List String} (h : ∀ name ∈ names, Listable name) :
    '\n' ∉ (Text.join ", " names).toList :=
  Text.notMem_join (by decide) fun name hm => (h name hm).line_feed

theorem notMem_priorityList (ps : List Priority) : '\n' ∉ (priorityList ps).toList := by
  have hitems : '\n' ∉ (Text.join ", " (ps.map toString)).toList :=
    Text.notMem_join (by decide)
      (List.forall_mem_map.2 fun p _ => notMem_toString_priority (by decide) (by decide) p)
  simp [priorityList, hitems]

theorem notMem_labelLines {what : String} (hwhat : '\n' ∉ what.toList) {labels : KeyMap String}
    (h : Writable labels) : ∀ line ∈ labelLines what labels, '\n' ∉ line.toList := by
  refine List.forall_mem_map.2 fun p hp => ?_
  simp [hwhat, h.line_feed p hp]

theorem notMem_processorLines {stage : String} (hstage : '\n' ∉ stage.toList) (start : Nat)
    (ps : List (Option Priority)) : ∀ line ∈ processorLines stage start ps, '\n' ∉ line.toList := by
  have hpart (p? : Option Priority) : '\n' ∉ (priorityPart p?).toList := by
    cases p? with
    | none => decide
    | some p =>
      have hp := notMem_toString_priority (c := '\n') (by decide) (by decide) p
      simp [priorityPart, hp]
  induction ps generalizing start with
  | nil => exact List.forall_mem_nil _
  | cons p? ps ih =>
    rw [processorLines_cons]
    refine List.forall_mem_cons.2 ⟨?_, ih _⟩
    simp [hstage, Json.notMem_toDigits, hpart]

theorem notMem_leafLine {leaf : Leaf} (h : ∀ key ∈ leaf.path, '\n' ∉ key.toList) :
    '\n' ∉ (leafLine leaf).toList := by
  have hpath : '\n' ∉ (Text.join "." leaf.path).toList := Text.notMem_join (by decide) h
  have hvalue : '\n' ∉ leaf.value.compact.toList := by
    rw [Json.compact, String.toList_ofList]
    exact Json.notMem_compactChars _
  simp [leafLine, hpath, hvalue]

theorem notMem_sectionLines {s : Summary} (h : s.Legible) (k : Section) :
    ∀ line ∈ s.sectionLines k, '\n' ∉ line.toList := by
  have hname (c : Category) : '\n' ∉ c.name.toList := by cases c <;> decide
  cases k with
  | packages => simp [sectionLines, notMem_names h.packages]
  | handlers =>
    simp only [sectionLines, ByCategory.toList, List.map_map]
    refine List.forall_mem_map.2 fun c _ => ?_
    simp [hname, notMem_names (h.handlers c)]
  | fallbacks =>
    intro line hl
    obtain ⟨⟨category, label?⟩, hc, hlabel⟩ := List.mem_filterMap.1 hl
    obtain ⟨label, rfl, rfl⟩ := Option.map_eq_some_iff.1 hlabel
    obtain ⟨c, _, hc⟩ := List.mem_map.1 hc
    obtain ⟨rfl, hget⟩ := Prod.mk.inj hc
    simp [hname, h.fallbacks c label hget]
  | stackItems => exact notMem_labelLines (by decide) h.stackItems
  | tags => exact notMem_labelLines (by decide) h.tags
  | nodeFactories => exact notMem_labelLines (by decide) h.nodeFactories
  | options =>
    rw [sectionLines, optionLines_eq]
    exact List.forall_mem_map.2 fun leaf hl => notMem_leafLine (h.options leaf hl).line_feed
  | preprocessors => exact notMem_processorLines (by decide) _ _
  | postprocessors => exact notMem_processorLines (by decide) _ _
  | initHooks => simp [sectionLines, notMem_priorityList]
  | readyHooks => simp [sectionLines, notMem_priorityList]

theorem notMem_textLines {s : Summary} (h : s.Legible) :
    ∀ line ∈ s.textLines, '\n' ∉ line.toList := by
  rw [textLines_eq_flatMap]
  intro line hl
  obtain ⟨k, _, hl⟩ := List.mem_flatMap.1 hl
  exact notMem_sectionLines h k line hl

/-! ## Summaries -/

/-- Legible summaries with the same lines are the same. -/
theorem textLines_inj {s t : Summary} (hs : s.Legible) (ht : t.Legible)
    (h : s.textLines = t.textLines) : s = t := by
  have hsection := sectionLines_eq h
  have hpackages := names_inj hs.packages ht.packages
    ((String.append_right_inj _).1 (List.singleton_inj.1 (hsection .packages)))
  have hinit := priorityList_inj
    ((String.append_right_inj _).1 (List.singleton_inj.1 (hsection .initHooks)))
  have hready := priorityList_inj
    ((String.append_right_inj _).1 (List.singleton_inj.1 (hsection .readyHooks)))
  have hhandlers := handlers_inj hs.handlers ht.handlers (hsection .handlers)
  have hfallbacks := fallbackLines_inj (hsection .fallbacks)
  have hstack := labelLines_inj hs.stackItems ht.stackItems (hsection .stackItems)
  have htags := labelLines_inj hs.tags ht.tags (hsection .tags)
  have hnodes := labelLines_inj hs.nodeFactories ht.nodeFactories (hsection .nodeFactories)
  have hoptions := optionLines_inj hs.options ht.options (hsection .options)
  have hbefore := processorLines_inj (hsection .preprocessors)
  have hafter := processorLines_inj (hsection .postprocessors)
  cases s
  cases t
  simp_all

theorem split_toText {s : Summary} (h : s.Legible) : Text.split '\n' s.toText = s.textLines := by
  refine Text.split_join rfl ?_ (notMem_textLines h)
  simp [textLines]

theorem ne_empty_of_mem_textLines {s : Summary} : ∀ line ∈ s.textLines, line ≠ "" := by
  rw [textLines_eq_flatMap]
  intro line hl
  obtain ⟨k, _, hl⟩ := List.mem_flatMap.1 hl
  obtain ⟨rest, rfl⟩ := s.sectionLines_heading k line hl
  simp [k.heading_ne_empty]

end Summary

open Difference

/-- Two legible summaries have one text only if they are the same summary, and only then is no line
of their difference marked as removed or added. -/
theorem text_determines_summary (s t : Summary) (hs : s.Legible) (ht : t.Legible) :
    (s.toText = t.toText ↔ s = t) ∧
      (withMarkers ['-', '+'] (Text.lines (renderPieces false (s.difference t))) = [] ↔ s = t) := by
  have htext : s.toText = t.toText ↔ s = t := by
    constructor
    · intro h
      have hlines := congrArg (Text.split '\n') h
      rw [Summary.split_toText hs, Summary.split_toText ht] at hlines
      exact Summary.textLines_inj hs ht hlines
    · rintro rfl
      rfl
  have hnonempty {s : Summary} (h : s.Legible) : ∀ line ∈ Text.split '\n' s.toText, line ≠ "" := by
    rw [Summary.split_toText h]
    exact Summary.ne_empty_of_mem_textLines
  exact ⟨htext, (withMarkers_differing_ofTexts (hnonempty hs) (hnonempty ht)).trans htext⟩

open Sample in
set_option maxRecDepth 10000 in
/-- Options in place of the merged ones are seen in the text, empty objects among them. -/
theorem prepared_text_shows_options :
    let s := prepared.active.summary
    let t := s.withOptions
      (.ofFields [("width", .int 1), ("ams", .obj [("indent", .str "1em"), ("tags", .obj [])])])
    s.Legible ∧ t.Legible ∧ s.sectionLines .options = ["option width = 1"] ∧
      t.sectionLines .options =
        ["option ams.indent = \"1em\"", "option ams.tags = \x7b\x7d", "option width = 1"] ∧
      s.toText ≠ t.toText ∧
      withMarkers ['-', '+'] (Text.lines (renderPieces false (s.difference t))) ≠ [] := by
  intro s t
  have hs : s.Legible :=
    { packages := by decide
      handlers := by rintro (_ | _) <;> decide
      fallbacks := by rintro (_ | _) <;> decide
      stackItems := by decide
      tags := by decide
      nodeFactories := by decide
      options := by
        change ∀ leaf ∈ [⟨["width"], .int 1⟩], Leaf.Legible leaf
        rw [List.forall_mem_singleton]
        exact ⟨by decide, by decide, by decide, trivial⟩ }
  have ht : t.Legible := { hs with
    options := by
      change ∀ leaf ∈ [⟨["ams", "indent"], .str "1em"⟩, ⟨["ams", "tags"], .obj []⟩,
        ⟨["width"], .int 1⟩], Leaf.Legible leaf
      simp only [List.forall_mem_cons, List.not_mem_nil, false_imp_iff, implies_true, and_true]
      exact ⟨⟨by decide, by decide, by decide, trivial⟩, ⟨by decide, by decide, by decide, trivial⟩,
        ⟨by decide, by decide, by decide, trivial⟩⟩ }
  have hne : s ≠ t := fun h => absurd (congrArg (·.options.size) h) (by decide)
  obtain ⟨htext, hdiffer⟩ := text_determines_summary s t hs ht
  exact ⟨hs, ht, rfl, rfl, mt htext.1 hne, mt hdiffer.1 hne⟩

end ParserPackages
