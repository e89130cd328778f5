import ParserPackages.Proofs.Configuration.Lookup
import ParserPackages.Proofs.OptionTree.Layers
import ParserPackages.Proofs.Package.WellNamed

/-!
# Configurations without blank names

Merging makes up no names: what a configuration or its index names, some package names that was
appended. So nothing is named by a blank text as long as the packages are built from drafts. The
same goes for options unless they are edited.
-/
namespace ParserPackages

variable {H F α σ : Type} {b : Behaviour H F σ}

namespace Change

def AppendsBuilt : Change H F → Prop
  | append package => package.Built
  | rebuildIndex | editOptions _ => True

/-- The change brings no option but those of the package that it appends. -/
def AddsNoOption : Change H F → Prop
  | append _ | rebuildIndex => True
  | editOptions edit => ∀ t, (edit t).NamesIn t

theorem wellNamed_appended {changes : List (Change H F)}
    (h : ∀ change ∈ changes, change.AppendsBuilt) :
    ∀ package ∈ appended changes, package.WellNamed := by
  intro package hp
  obtain ⟨change, hc, hpackage⟩ := List.mem_filterMap.1 hp
  cases change with
  | append =>
    cases hpackage
    exact Package.Built.wellNamed (h _ hc)
  | rebuildIndex | editOptions => cases hpackage

end Change

namespace Configuration

/-- Neither a package that was merged nor anything that the configuration or its index holds under
a name has a blank one, options apart. -/
structure WellNamed (c : Configuration H F) : Prop where
  packages : NoneBlank c.packages
  handlers : ∀ category, NoneBlank (c.handlers.get category)
  index : ∀ category, NoneBlank (c.index.maps.get category)
  stackItems : NoneBlank c.stackItems.keys
  tags : NoneBlank c.tags.keys
  nodeFactories : NoneBlank c.nodeFactories.keys

end Configuration

theorem KeyMap.noneBlank_keys {m : KeyMap α} {rules : Package H F → KeyMap α}
    {packages : List (Package H F)}
    (hm : ∀ key, m.get? key = packages.reverse.findSome? fun package => (rules package).get? key)
    (h : ∀ package ∈ packages, NoneBlank (rules package).keys) : NoneBlank m.keys := by
  intro key hk
  rw [mem_keys, contains, hm, List.findSome?_isSome_iff] at hk
  obtain ⟨package, hp, hkey⟩ := hk
  exact h package (List.mem_reverse.1 hp) key (mem_keys.2 hkey)

/-- What is merged from well-named packages is well-named, and the index is that of some of it. -/
theorem Reached.wellNamed {account : Account b} {c : Configuration H F}
    {history : List (Change H F)} (h : Reached account c history)
    (hp : ∀ package ∈ Change.appended history, package.WellNamed) : c.WellNamed := by
  have hm := h.isMergeOf
  have hhandlers (category : Category) : NoneBlank (c.handlers.get category) := by
    intro map hmap
    rw [hm.handlers, List.mem_flatMap] at hmap
    obtain ⟨package, hmem, hmap⟩ := hmap
    exact (hp package (List.mem_reverse.1 hmem)).handlers category map hmap
  refine ⟨?_, hhandlers, fun category => ?_, KeyMap.noneBlank_keys hm.stackItems ?_,
    KeyMap.noneBlank_keys hm.tags ?_, KeyMap.noneBlank_keys hm.nodeFactories ?_⟩
  · intro name hn
    rw [hm.packages, List.mem_map] at hn
    obtain ⟨package, hmem, rfl⟩ := hn
    exact (hp package hmem).name
  · intro map hmap
    obtain ⟨lists, hindex, hlists⟩ := h.indexedBefore
    rw [hindex, HandlerIndex.ofLists, ByCategory.get_map] at hmap
    refine hhandlers category map ?_
    rw [hlists]
    exact List.mem_append_right _ (mem_firstOccurrences.1 hmap).1
  · exact fun package hmem => (hp package hmem).stackItems
  · exact fun package hmem => (hp package hmem).tags
  · exact fun package hmem => (hp package hmem).nodeFactories

theorem Configuration.contains_options_applyAll (c : Configuration H F)
    {changes : List (Change H F)} (h : ∀ change ∈ changes, change.AddsNoOption) {name : String}
    (hn : (c.applyAll changes).options.contains name = true) :
    c.options.contains name = true ∨
      ∃ package ∈ Change.appended changes, package.options.contains name = true := by
  induction changes generalizing c with
  | nil => exact .inl hn
  | cons change rest ih =>
    obtain ⟨hchange, hrest⟩ := List.forall_mem_cons.1 h
    rw [Change.appended_cons]
    rcases ih (change.apply c) hrest hn with hstep | ⟨package, hp, hdeclared⟩
    · cases change with
      | append package =>
        rw [Change.apply, append_eq, OptionTree.contains, OptionTree.get?_fill, Option.isSome_or,
          Bool.or_eq_true_iff] at hstep
        exact hstep.imp id fun hdeclared => ⟨package, List.mem_cons_self .., hdeclared⟩
      | rebuildIndex => exact .inl hstep
      | editOptions edit => exact .inl (hchange c.options name hstep)
    · exact .inr ⟨package, List.mem_append_right _ hp, hdeclared⟩

theorem Reached.declares_options {account : Account b} {c : Configuration H F}
    {history : List (Change H F)} (h : Reached account c history)
    (hs : ∀ change ∈ history, change.AddsNoOption) :
    ∀ name ∈ c.options.names, ∃ package ∈ Change.appended history,
      name ∈ package.options.names := by
  intro name hn
  simp only [OptionTree.mem_names] at hn ⊢
  rw [h.eq_applyAll] at hn
  exact (Configuration.empty.contains_options_applyAll hs hn).resolve_left nofun

theorem Reached.noneBlank_options {account : Account b} {c : Configuration H F}
    {history : List (Change H F)} (h : Reached account c history)
    (hb : ∀ change ∈ history, change.AppendsBuilt)
    (hs : ∀ change ∈ history, change.AddsNoOption) : NoneBlank c.options.names := by
  intro name hn
  obtain ⟨package, hp, hdeclared⟩ := h.declares_options hs name hn
  exact (Change.wellNamed_appended hb package hp).options name hdeclared

end ParserPackages
