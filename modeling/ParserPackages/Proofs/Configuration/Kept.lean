import ParserPackages.Proofs.Configuration.MergeLaw
import ParserPackages.Proofs.OptionTree.Layers

/-!
# What changes keep

Whatever is appended to a configuration and however its options are set, nothing that was merged
before is lost or moved: lists grow at one end, chains in between, and rules and options may get
other values but keep their names.
-/
namespace ParserPackages

variable {H F : Type}

/-- Ways to edit a tree of options that lose no name. User options that are refused change
nothing. -/
inductive OptionTree.Edit : (OptionTree → OptionTree) → Prop
  | set (name : String) (value : Json) : Edit (·.set name value)
  | overlay (options : OptionTree) : Edit (·.overlay options)
  | applyUser (options : OptionTree) : Edit fun t => (t.applyUser options).toOption.getD t

theorem OptionTree.Edit.namesIn {edit : OptionTree → OptionTree} (h : Edit edit)
    (t : OptionTree) : t.NamesIn (edit t) := by
  cases h with
  | set name value => exact t.namesIn_set name value
  | overlay options => exact t.namesIn_overlay options
  | applyUser options =>
    change t.NamesIn ((t.applyUser options).toOption.getD t)
    cases hu : t.applyUser options with
    | error => exact .refl t
    | ok => exact namesIn_applyUser hu

def Change.Plain : Change H F → Prop
  | append _ | rebuildIndex => True
  | editOptions edit => OptionTree.Edit edit

def KeyMap.KeysIn {α : Type} (m m' : KeyMap α) : Prop :=
  ∀ key, m.contains key = true → m'.contains key = true

theorem KeyMap.keysIn_overwrite {α : Type} (m incoming : KeyMap α) :
    m.KeysIn (m.overwrite incoming) := by
  intro key hk
  rw [contains, get?_overwrite, Option.isSome_or]
  exact Bool.or_eq_true_iff.2 (.inr hk)

namespace Configuration

/-- All that was merged into the first configuration is in the second, in the same order. -/
structure KeptIn (c c' : Configuration H F) : Prop where
  packages : c.packages <+: c'.packages
  preprocessors : c.preprocessors <+: c'.preprocessors
  postprocessors : c.postprocessors <+: c'.postprocessors
  handlers : ∀ category, c.handlers.get category <:+ c'.handlers.get category
  initChain : c.initChain.entries.Sublist c'.initChain.entries
  readyChain : c.readyChain.entries.Sublist c'.readyChain.entries
  fallbacks : ∀ category,
    (c.fallbacks.get category).isSome = true → (c'.fallbacks.get category).isSome = true
  stackItems : c.stackItems.KeysIn c'.stackItems
  tags : c.tags.KeysIn c'.tags
  nodeFactories : c.nodeFactories.KeysIn c'.nodeFactories
  options : c.options.NamesIn c'.options

theorem KeptIn.refl (c : Configuration H F) : c.KeptIn c where
  packages := List.prefix_rfl
  preprocessors := List.prefix_rfl
  postprocessors := List.prefix_rfl
  handlers _ := List.suffix_rfl
  initChain := .refl _
  readyChain := .refl _
  fallbacks _ h := h
  stackItems _ h := h
  tags _ h := h
  nodeFactories _ h := h
  options := .refl _

theorem KeptIn.trans {c c' c'' : Configuration H F} (h : c.KeptIn c') (h' : c'.KeptIn c'') :
    c.KeptIn c'' where
  packages := h.packages.trans h'.packages
  preprocessors := h.preprocessors.trans h'.preprocessors
  postprocessors := h.postprocessors.trans h'.postprocessors
  handlers category := (h.handlers category).trans (h'.handlers category)
  initChain := h.initChain.trans h'.initChain
  readyChain := h.readyChain.trans h'.readyChain
  fallbacks category hf := h'.fallbacks category (h.fallbacks category hf)
  stackItems key hk := h'.stackItems key (h.stackItems key hk)
  tags key hk := h'.tags key (h.tags key hk)
  nodeFactories key hk := h'.nodeFactories key (h.nodeFactories key hk)
  options := h.options.trans h'.options

theorem keptIn_append (c : Configuration H F) (package : Package H F) :
    c.KeptIn (c.append package) := by
  rw [append_eq]
  exact {
    packages := List.prefix_append ..
    preprocessors := List.prefix_append ..
    postprocessors := List.prefix_append ..
    handlers := fun category => by
      rw [ByCategory.get_ofFn]
      exact List.suffix_append ..
    initChain := c.initChain.sublist_insertAll _
    readyChain := c.readyChain.sublist_insertAll _
    fallbacks := fun category hf => by
      rw [ByCategory.get_ofFn, Option.isSome_or]
      exact Bool.or_eq_true_iff.2 (.inr hf)
    stackItems := c.stackItems.keysIn_overwrite _
    tags := c.tags.keysIn_overwrite _
    nodeFactories := c.nodeFactories.keysIn_overwrite _
    options := c.options.namesIn_fill _ }

theorem keptIn_change (c : Configuration H F) {change : Change H F} (h : change.Plain) :
    c.KeptIn (change.apply c) := by
  cases change with
  | append package => exact c.keptIn_append package
  | rebuildIndex => exact { KeptIn.refl c with }
  | editOptions edit => exact { KeptIn.refl c with options := h.namesIn c.options }

theorem keptIn_applyAll (c : Configuration H F) {changes : List (Change H F)}
    (h : ∀ change ∈ changes, change.Plain) : c.KeptIn (c.applyAll changes) := by
  induction changes generalizing c with
  | nil => exact .refl c
  | cons change rest ih =>
    obtain ⟨hchange, hrest⟩ := List.forall_mem_cons.1 h
    exact (c.keptIn_change hchange).trans (ih (change.apply c) hrest)

end Configuration
end ParserPackages
