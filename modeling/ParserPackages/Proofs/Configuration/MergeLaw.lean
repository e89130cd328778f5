import ParserPackages.Configuration.Merge
import ParserPackages.Proofs.Ranked.StableSort
import ParserPackages.Proofs.Keyed

/-!
# What merged packages amount to

The state of a configuration is a function of the packages appended to it, in order: handler lists
put the latest package first, rules are those of the latest package that has one, option defaults
those of the first, processors are listed in order, and hooks are sorted by priority. One append
preserves this, and so does any sequence of changes.
-/
namespace ParserPackages

variable {H F : Type}

private theorem findSome?_cons_or {α β : Type} (f : α → Option β) (a : α) (l : List α) :
    (a :: l).findSome? f = (f a).or (l.findSome? f) := by
  rw [List.findSome?_cons]
  cases f a <;> rfl

private theorem findSome?_reverse_concat {α β : Type} (f : α → Option β) (l : List α) (a : α) :
    (l ++ [a]).reverse.findSome? f = (f a).or (l.reverse.findSome? f) := by
  rw [List.reverse_append, List.reverse_singleton, List.singleton_append, findSome?_cons_or]

/-- One change to a configuration, as callers and hooks can make it. -/
inductive Change (H F : Type) where
  | append (package : Package H F)
  | rebuildIndex
  /-- Edits the merged options. -/
  | editOptions (edit : OptionTree → OptionTree)

namespace Change

def apply (c : Configuration H F) : Change H F → Configuration H F
  | append package => c.append package
  | rebuildIndex => c.rebuildIndex
  | editOptions edit => { c with options := edit c.options }

def package? : Change H F → Option (Package H F)
  | append package => some package
  | rebuildIndex | editOptions _ => none

def appended (changes : List (Change H F)) : List (Package H F) := changes.filterMap package?

/-- The edits of the options among changes all leave the option of that name alone. -/
def Spares (changes : List (Change H F)) (name : String) : Prop :=
  ∀ edit, editOptions edit ∈ changes → ∀ t : OptionTree, (edit t).get? name = t.get? name

@[simp] theorem appended_nil : appended ([] : List (Change H F)) = [] := rfl

@[simp] theorem appended_append (first second : List (Change H F)) :
    appended (first ++ second) = appended first ++ appended second := List.filterMap_append ..

@[simp] theorem appended_cons (change : Change H F) (rest : List (Change H F)) :
    appended (change :: rest) = change.package?.toList ++ appended rest := by
  cases change <;> rfl

@[simp] theorem appended_map_append (packages : List (Package H F)) :
    appended (packages.map append) = packages := by
  induction packages with
  | nil => rfl
  | cons package rest ih => rw [List.map_cons, appended_cons, ih]; rfl

end Change

namespace Configuration

def applyAll (c : Configuration H F) (changes : List (Change H F)) : Configuration H F :=
  changes.foldl Change.apply c

@[simp] theorem applyAll_nil (c : Configuration H F) : c.applyAll [] = c := rfl

@[simp] theorem applyAll_cons (c : Configuration H F) (change : Change H F)
    (rest : List (Change H F)) : c.applyAll (change :: rest) = (change.apply c).applyAll rest := rfl

theorem applyAll_append (c : Configuration H F) (first second : List (Change H F)) :
    c.applyAll (first ++ second) = (c.applyAll first).applyAll second := List.foldl_append ..

theorem append_eq (c : Configuration H F) (package : Package H F) :
    c.append package =
      { handlers := .ofFn fun category => package.handlers.get category ++ c.handlers.get category
        fallbacks := .ofFn fun category =>
          (package.fallbacks.get category).or (c.fallbacks.get category)
        stackItems := c.stackItems.overwrite package.stackItems
        tags := c.tags.overwrite package.tags
        nodeFactories := c.nodeFactories.overwrite package.nodeFactories
        options := c.options.fill package.options
        preprocessors := c.preprocessors ++ package.preprocessors
        postprocessors := c.postprocessors ++ package.postprocessors
        initChain := c.initChain.insertAll package.init?.toList
        readyChain := c.readyChain.insertAll package.ready?.toList
        packages := c.packages ++ [package.name]
        index := c.index } := by
  obtain ⟨_, _, _, _, _, _, _, _, _, _, _, _, init?, ready?⟩ := package
  cases init? <;> cases ready? <;> rfl

/-- The second configuration has, besides what the first has, what these packages contribute when
they are appended in order. -/
structure GrowsBy (c : Configuration H F) (packages : List (Package H F))
    (c' : Configuration H F) : Prop where
  handlers : ∀ category, c'.handlers.get category =
    packages.reverse.flatMap (·.handlers.get category) ++ c.handlers.get category
  fallbacks : ∀ category, c'.fallbacks.get category =
    (packages.reverse.findSome? (·.fallbacks.get category)).or (c.fallbacks.get category)
  stackItems : ∀ kind, c'.stackItems.get? kind =
    (packages.reverse.findSome? (·.stackItems.get? kind)).or (c.stackItems.get? kind)
  tags : ∀ scheme, c'.tags.get? scheme =
    (packages.reverse.findSome? (·.tags.get? scheme)).or (c.tags.get? scheme)
  nodeFactories : ∀ kind, c'.nodeFactories.get? kind =
    (packages.reverse.findSome? (·.nodeFactories.get? kind)).or (c.nodeFactories.get? kind)
  preprocessors : c'.preprocessors = c.preprocessors ++ packages.flatMap (·.preprocessors)
  postprocessors : c'.postprocessors = c.postprocessors ++ packages.flatMap (·.postprocessors)
  initChain : c'.initChain = c.initChain.insertAll (packages.filterMap (·.init?))
  readyChain : c'.readyChain = c.readyChain.insertAll (packages.filterMap (·.ready?))
  packages : c'.packages = c.packages ++ packages.map (·.name)

theorem growsBy_nil (c : Configuration H F) : c.GrowsBy [] c where
  handlers _ := rfl
  fallbacks _ := rfl
  stackItems _ := rfl
  tags _ := rfl
  nodeFactories _ := rfl
  preprocessors := (List.append_nil _).symm
  postprocessors := (List.append_nil _).symm
  initChain := rfl
  readyChain := rfl
  packages := (List.append_nil _).symm

namespace GrowsBy

variable {c c' : Configuration H F} {packages : List (Package H F)}

theorem append (h : c.GrowsBy packages c') (package : Package H F) :
    c.GrowsBy (packages ++ [package]) (c'.append package) where
  handlers category := by simp [append_eq, h.handlers]
  fallbacks category := by
    rw [append_eq, ByCategory.get_ofFn, h.fallbacks, findSome?_reverse_concat, Option.or_assoc]
  stackItems kind := by
    rw [append_eq, KeyMap.get?_overwrite, h.stackItems, findSome?_reverse_concat, Option.or_assoc]
  tags scheme := by
    rw [append_eq, KeyMap.get?_overwrite, h.tags, findSome?_reverse_concat, Option.or_assoc]
  nodeFactories kind := by
    rw [append_eq, KeyMap.get?_overwrite, h.nodeFactories, findSome?_reverse_concat,
      Option.or_assoc]
  preprocessors := by simp [append_eq, h.preprocessors]
  postprocessors := by simp [append_eq, h.postprocessors]
  initChain := by
    rw [append_eq, h.initChain, ← RankedList.insertAll_append, List.filterMap_append]
    cases hi : package.init? <;> simp [hi]
  readyChain := by
    rw [append_eq, h.readyChain, ← RankedList.insertAll_append, List.filterMap_append]
    cases hr : package.ready? <;> simp [hr]
  packages := by simp [append_eq, h.packages]

theorem change (h : c.GrowsBy packages c') (change : Change H F) :
    c.GrowsBy (packages ++ change.package?.toList) (change.apply c') := by
  cases change with
  | append package => exact h.append package
  | rebuildIndex => rw [Change.package?, Option.toList_none, List.append_nil]; exact { h with }
  | editOptions edit => rw [Change.package?, Option.toList_none, List.append_nil]; exact { h with }

end GrowsBy

/-- A configuration grows by what is appended to it. -/
theorem growsBy_applyAll (c : Configuration H F) (changes : List (Change H F)) :
    c.GrowsBy (Change.appended changes) (c.applyAll changes) := by
  suffices h : ∀ packages c', c.GrowsBy packages c' →
      c.GrowsBy (packages ++ Change.appended changes) (c'.applyAll changes) from
    h [] c c.growsBy_nil
  induction changes with
  | nil => intro packages c' h; simpa using h
  | cons change rest ih =>
    intro packages c' h
    rw [Change.appended_cons, ← List.append_assoc, applyAll_cons]
    exact ih _ _ (h.change change)

theorem get?_options_applyAll (c : Configuration H F) {changes : List (Change H F)} {name : String}
    (h : Change.Spares changes name) :
    (c.applyAll changes).options.get? name =
      (c.options.get? name).or ((Change.appended changes).findSome? (·.options.get? name)) := by
  induction changes generalizing c with
  | nil => simp
  | cons change rest ih =>
    have hrest : Change.Spares rest name := fun edit he => h edit (List.mem_cons_of_mem _ he)
    rw [applyAll_cons, ih _ hrest, Change.appended_cons]
    cases change with
    | append package =>
      simp only [Change.apply, append_eq, OptionTree.get?_fill, Change.package?]
      rw [Option.toList_some, List.singleton_append, findSome?_cons_or, Option.or_assoc]
    | rebuildIndex => rfl
    | editOptions edit =>
      have hedit := h edit (List.mem_cons_self ..) c.options
      simp only [Change.apply, hedit]
      rfl

/-- The configuration is what these packages, appended in order, amount to. -/
structure IsMergeOf (c : Configuration H F) (packages : List (Package H F)) : Prop where
  /-- The handler maps of later packages come first. -/
  handlers : ∀ category,
    c.handlers.get category = packages.reverse.flatMap (·.handlers.get category)
  /-- The last package that has a rule provides it. -/
  fallbacks : ∀ category,
    c.fallbacks.get category = packages.reverse.findSome? (·.fallbacks.get category)
  stackItems : ∀ kind, c.stackItems.get? kind = packages.reverse.findSome? (·.stackItems.get? kind)
  tags : ∀ scheme, c.tags.get? scheme = packages.reverse.findSome? (·.tags.get? scheme)
  nodeFactories : ∀ kind,
    c.nodeFactories.get? kind = packages.reverse.findSome? (·.nodeFactories.get? kind)
  preprocessors : c.preprocessors = packages.flatMap (·.preprocessors)
  postprocessors : c.postprocessors = packages.flatMap (·.postprocessors)
  initChain : c.initChain.entries = Ranked.sort (packages.filterMap (·.init?))
  readyChain : c.readyChain.entries = Ranked.sort (packages.filterMap (·.ready?))
  packages : c.packages = packages.map (·.name)

theorem GrowsBy.isMergeOf {c : Configuration H F} {packages : List (Package H F)}
    (h : empty.GrowsBy packages c) : c.IsMergeOf packages where
  handlers category := by simp [h.handlers, empty, HandlerLists.empty]
  fallbacks category := by simp [h.fallbacks, empty, Fallbacks.empty]
  stackItems kind := by rw [h.stackItems]; exact Option.or_none
  tags scheme := by rw [h.tags]; exact Option.or_none
  nodeFactories kind := by rw [h.nodeFactories]; exact Option.or_none
  preprocessors := h.preprocessors
  postprocessors := h.postprocessors
  initChain := by rw [h.initChain]; exact RankedList.entries_ofEntries _
  readyChain := by rw [h.readyChain]; exact RankedList.entries_ofEntries _
  packages := h.packages

end Configuration
end ParserPackages
