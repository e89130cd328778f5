import ParserPackages.Proofs.Script.Account

/-!
# The order of the steps of a merge

Each step of a merge reads and writes the field of its own slot and no other. So two steps on
different slots can change places, and the steps of a merge, which all have slots of their own, can
be made in any order. Precedence between packages comes from the policies, not from this order.
-/
namespace ParserPackages

variable {H F : Type}

abbrev Slot.Content (H F : Type) : Slot → Type
  | handlers => HandlerLists
  | fallbacks => Fallbacks
  | stackItems | tags | nodeFactories => RuleMap
  | options => OptionTree
  | preprocessors | postprocessors => List (Processor F)
  | initHook => Chain H
  | readyHook => Chain (ReadyHook H)

namespace Configuration

def field (c : Configuration H F) : (slot : Slot) → slot.Content H F
  | .handlers => c.handlers
  | .fallbacks => c.fallbacks
  | .stackItems => c.stackItems
  | .tags => c.tags
  | .nodeFactories => c.nodeFactories
  | .options => c.options
  | .preprocessors => c.preprocessors
  | .postprocessors => c.postprocessors
  | .initHook => c.initChain
  | .readyHook => c.readyChain

/-- Besides the fields of the slots there are the names of the packages and the index. -/
theorem ext_field {c c' : Configuration H F} (h : ∀ slot, c.field slot = c'.field slot)
    (hpackages : c.packages = c'.packages) (hindex : c.index = c'.index) : c = c' := by
  cases c
  cases c'
  rw [mk.injEq]
  exact ⟨h .handlers, h .fallbacks, h .stackItems, h .tags, h .nodeFactories, h .options,
    h .preprocessors, h .postprocessors, h .initHook, h .readyHook, hpackages, hindex⟩

@[simp] theorem packages_applyStep (c : Configuration H F) (step : MergeStep)
    (package : Package H F) : (c.applyStep step package).packages = c.packages := by
  obtain ⟨slot, policy⟩ := step
  cases slot <;> rfl

@[simp] theorem index_applyStep (c : Configuration H F) (step : MergeStep)
    (package : Package H F) : (c.applyStep step package).index = c.index := by
  obtain ⟨slot, policy⟩ := step
  cases slot <;> rfl

theorem field_applyStep_of_ne {step : MergeStep} {slot : Slot} (h : slot ≠ step.slot)
    (c : Configuration H F) (package : Package H F) :
    (c.applyStep step package).field slot = c.field slot := by
  obtain ⟨own, policy⟩ := step
  cases own <;> cases slot <;> try rfl
  all_goals exact absurd rfl h

/-- What a step makes of its own field depends on that field only. -/
theorem field_applyStep_self {step : MergeStep} {c c' : Configuration H F}
    (h : c.field step.slot = c'.field step.slot) (package : Package H F) :
    (c.applyStep step package).field step.slot = (c'.applyStep step package).field step.slot := by
  obtain ⟨slot, policy⟩ := step
  cases slot <;> simp only [field, applyStep] at h ⊢ <;> rw [h]

/-- Steps on different slots can change places. -/
theorem applyStep_comm {s t : MergeStep} (h : s.slot ≠ t.slot) (c : Configuration H F)
    (package : Package H F) :
    (c.applyStep s package).applyStep t package = (c.applyStep t package).applyStep s package := by
  -- each field is seen by one of the steps at most, which finds it as it was in `c`
  refine ext_field (fun slot => ?_) (by simp) (by simp)
  by_cases hs : slot = s.slot
  · subst hs
    rw [field_applyStep_of_ne h]
    exact field_applyStep_self (field_applyStep_of_ne h c package).symm package
  · rw [field_applyStep_of_ne hs]
    by_cases ht : slot = t.slot
    · subst ht
      exact field_applyStep_self (field_applyStep_of_ne hs c package) package
    · rw [field_applyStep_of_ne ht, field_applyStep_of_ne ht, field_applyStep_of_ne hs]

theorem eq_of_mem_mergeOrder :
    ∀ s ∈ mergeOrder, ∀ t ∈ mergeOrder, s.slot = t.slot → s = t := by decide

/-- A package is merged alike in every order of the steps of a merge, and no step, whatever its
policy, changes a field that is not its own: neither that of another slot nor the names of the
packages nor the index. -/
theorem steps_in_any_order (c : Configuration H F) (package : Package H F)
    (steps : List MergeStep) (h : steps.Perm mergeOrder) :
    steps.foldl (fun c step => c.applyStep step package) c = c.fold package ∧
      ∀ (before : Configuration H F) (step : MergeStep),
        (∀ slot, slot ≠ step.slot →
          (before.applyStep step package).field slot = before.field slot) ∧
        (before.applyStep step package).packages = before.packages ∧
        (before.applyStep step package).index = before.index := by
  refine ⟨h.foldl_eq' (fun s hs t ht c => ?_) c, fun before step => ?_⟩
  · by_cases hslot : s.slot = t.slot
    · rw [eq_of_mem_mergeOrder s (h.mem_iff.1 hs) t (h.mem_iff.1 ht) hslot]
    · exact applyStep_comm hslot c package
  · exact ⟨fun slot hne => field_applyStep_of_ne hne before package,
      packages_applyStep before step package, index_applyStep before step package⟩

open Sample in
/-- `extra` is merged into what `core` has left, with the steps from the last to the first. -/
theorem extra_merged_backwards :
    let c : Configuration Hook Filter := (empty.append core).rebuildIndex
    let merged := mergeOrder.reverse.foldl (fun c step => c.applyStep step extra) c
    mergeOrder.reverse.Perm mergeOrder ∧
      mergeOrder.reverse ≠ mergeOrder ∧
      merged = c.fold extra ∧
      merged.handlers.get .command = ["extra-macros", "core-macros"] ∧
      merged.options.get? "width" = some (.int 1) ∧
      merged.initChain.items = [initHook, initHook] ∧
      (merged.readyChain.items, merged.packages) = ([.engine stoppingHook], ["core"]) := by
  intro c merged
  have hperm : mergeOrder.reverse.Perm mergeOrder := List.reverse_perm mergeOrder
  obtain ⟨hmerged, -⟩ := steps_in_any_order c extra mergeOrder.reverse hperm
  exact ⟨hperm, by decide, hmerged, rfl, rfl, rfl, rfl⟩

end Configuration
end ParserPackages
