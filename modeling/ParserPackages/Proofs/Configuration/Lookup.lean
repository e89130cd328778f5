import ParserPackages.Proofs.Configuration.Flattening
import ParserPackages.Proofs.Configuration.Reached

/-!
# What the index knows

A lookup in an index answers like a walk over the lists that it was made of, repetitions included.
So a lookup is up to date when the index is that of the present lists. Which packages an index does
not know of can be read off the changes that were made since it was last rebuilt.
-/
namespace ParserPackages

variable {H F σ : Type} {b : Behaviour H F σ}

namespace Change

def rebuilds : List (Change H F) → Bool
  | [] => false
  | rebuildIndex :: _ => true
  | _ :: rest => rebuilds rest

/-- The packages that changes append after the last time that they rebuild the index. -/
def unindexed : List (Change H F) → List (Package H F)
  | [] => []
  | append package :: rest =>
    if rebuilds rest then unindexed rest else package :: unindexed rest
  | _ :: rest => unindexed rest

theorem rebuilds_append (first second : List (Change H F)) :
    rebuilds (first ++ second) = (rebuilds first || rebuilds second) := by
  induction first with
  | nil => rfl
  | cons change rest ih =>
    cases change with
    | rebuildIndex => rfl
    | append | editOptions => exact ih

theorem unindexed_append (first second : List (Change H F)) :
    unindexed (first ++ second) =
      (if rebuilds second then [] else unindexed first) ++ unindexed second := by
  induction first with
  | nil => simp [unindexed]
  | cons change rest ih =>
    cases change with
    | append package =>
      simp only [List.cons_append, unindexed, rebuilds_append, ih]
      cases rebuilds rest <;> cases rebuilds second <;> rfl
    | rebuildIndex | editOptions => exact ih

/-- What first changes leave unindexed, later ones may take up. -/
theorem forall_unindexed_append {P : Package H F → Prop} {first second : List (Change H F)}
    (hf : ∀ package ∈ unindexed first, P package)
    (hs : ∀ package ∈ unindexed second, P package) :
    ∀ package ∈ unindexed (first ++ second), P package := by
  rw [unindexed_append]
  split
  · exact hs
  · exact List.forall_mem_append.2 ⟨hf, hs⟩

end Change

namespace Configuration

def IndexFresh (c : Configuration H F) : Prop := c.index = .ofLists c.handlers

/-- The index is that of the handler lists as they were before these packages were appended. -/
def IndexedBefore (c : Configuration H F) (packages : List (Package H F)) : Prop :=
  ∃ lists, c.index = .ofLists lists ∧ ∀ category, c.handlers.get category =
    packages.reverse.flatMap (·.handlers.get category) ++ lists.get category

theorem indexFresh_rebuildIndex (c : Configuration H F) : c.rebuildIndex.IndexFresh := rfl

theorem IndexFresh.resolve_eq {c : Configuration H F} (h : c.IndexFresh) (category : Category)
    (token : String) (claims : Claims) :
    c.resolve category token claims =
      HandlerIndex.resolveIn (c.handlers.get category) claims token
        (c.fallbacks.get category) := by
  rw [resolve, h, HandlerIndex.resolve_ofLists]

namespace IndexedBefore

variable {c : Configuration H F} {packages : List (Package H F)}

/-- Packages without handler maps need no index. -/
theorem indexFresh (h : c.IndexedBefore packages)
    (hp : ∀ package ∈ packages, package.handlers = .empty) : c.IndexFresh := by
  obtain ⟨lists, hindex, hlists⟩ := h
  have heq : c.handlers = lists := by
    ext1 category
    have hnone : packages.reverse.flatMap (·.handlers.get category) = [] := by
      rw [List.flatMap_eq_nil_iff]
      intro package hmem
      rw [hp package (List.mem_reverse.1 hmem)]
      exact ByCategory.get_replicate [] category
    rw [hlists, hnone, List.nil_append]
  rw [IndexFresh, hindex, heq]

/-- The index lags behind by what changes leave unindexed, and by what it did not know of unless
they rebuild it. -/
theorem applyAll (h : c.IndexedBefore packages) (changes : List (Change H F)) :
    (c.applyAll changes).IndexedBefore
      ((if Change.rebuilds changes then [] else packages) ++ Change.unindexed changes) := by
  induction changes generalizing c packages with
  | nil => simpa [Change.rebuilds, Change.unindexed] using h
  | cons change rest ih =>
    obtain ⟨lists, hindex, hlists⟩ := h
    rw [applyAll_cons]
    cases change with
    | append package =>
      have hstep : (c.append package).IndexedBefore (packages ++ [package]) := by
        refine ⟨lists, by rw [append_eq]; exact hindex, fun category => ?_⟩
        simp [append_eq, hlists]
      have hrest := ih hstep
      simp only [Change.rebuilds, Change.unindexed, Change.apply]
      by_cases hr : Change.rebuilds rest = true
      · simpa [hr] using hrest
      · simpa [hr] using hrest
    | rebuildIndex =>
      have hstep : c.rebuildIndex.IndexedBefore [] := ⟨c.handlers, rfl, fun _ => rfl⟩
      simpa [Change.rebuilds, Change.unindexed, Change.apply] using ih hstep
    | editOptions edit => exact ih ⟨lists, hindex, hlists⟩

end IndexedBefore

end Configuration

theorem Reached.indexedBefore {account : Account b} {c : Configuration H F}
    {history : List (Change H F)} (h : Reached account c history) :
    c.IndexedBefore (Change.unindexed history) := by
  have hempty : (Configuration.empty : Configuration H F).IndexedBefore [] :=
    ⟨.empty, rfl, fun _ => rfl⟩
  rw [h.eq_applyAll]
  simpa using hempty.applyAll history

end ParserPackages
