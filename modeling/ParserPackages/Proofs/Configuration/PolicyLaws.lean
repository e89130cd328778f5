import ParserPackages.Configuration.Merge
import ParserPackages.Proofs.OptionTree.Layers

/-!
# What all policies have in common

Seen place by place, every shape of contribution is merged by putting the incoming part in front of
what is there or behind it: lists by concatenation, maps and trees by taking the first value that
there is. So merging is associative whatever the policy, empty contributions change nothing, and
letting the incoming part come first is the same as merging the other way round and letting it come
second.
-/
namespace ParserPackages

namespace Policy

variable {α β ι : Type}

/-- Merging is associative, the empty value is an identity on both sides, and the policies are
mirror images of each other: one that lets the incoming value come first does what one that lets it
come second does with the two values exchanged. -/
structure Lawful (merge : Policy → α → α → α) (empty : α) : Prop where
  assoc : ∀ p a b c, merge p (merge p a b) c = merge p a (merge p b c)
  empty_merge : ∀ p a, merge p empty a = a
  merge_empty : ∀ p a, merge p a empty = a
  mirror : ∀ first ∈ [prepend, lastWins], ∀ second ∈ [append, firstWins], ∀ a b,
    merge first a b = merge second b a

def combine (op : β → β → β) (p : Policy) (present incoming : β) : β :=
  if p.incomingFirst then op incoming present else op present incoming

theorem lawful_combine (op : β → β → β) (unit : β) [Std.Associative op]
    [Std.LawfulIdentity op unit] : Lawful (combine op) unit where
  assoc p a b c := by
    simp only [combine]
    cases p.incomingFirst with
    | true => exact (Std.Associative.assoc c b a).symm
    | false => exact Std.Associative.assoc a b c
  empty_merge p a := by
    simp only [combine]
    cases p.incomingFirst with
    | true => exact Std.LawfulRightIdentity.right_id a
    | false => exact Std.LawfulLeftIdentity.left_id a
  merge_empty p a := by
    simp only [combine]
    cases p.incomingFirst with
    | true => exact Std.LawfulLeftIdentity.left_id a
    | false => exact Std.LawfulRightIdentity.right_id a
  mirror first hfirst second hsecond a b := by
    simp only [List.mem_cons, List.not_mem_nil, or_false] at hfirst hsecond
    rcases hfirst with rfl | rfl <;> rcases hsecond with rfl | rfl <;> rfl

/-- Merging is lawful if it is so at every place at which values can be told apart. -/
theorem Lawful.of_places {merge : Policy → α → α → α} {empty : α} {place : Policy → β → β → β}
    {unit : β} (h : Lawful place unit) (view : α → ι → β)
    (hext : ∀ a b, (∀ i, view a i = view b i) → a = b) (hempty : ∀ i, view empty i = unit)
    (hmerge : ∀ p a b i, view (merge p a b) i = place p (view a i) (view b i)) :
    Lawful merge empty where
  assoc p a b c := hext _ _ fun i => by simp only [hmerge, h.assoc]
  empty_merge p a := hext _ _ fun i => by rw [hmerge, hempty, h.empty_merge]
  merge_empty p a := hext _ _ fun i => by rw [hmerge, hempty, h.merge_empty]
  mirror first hfirst second hsecond a b := hext _ _ fun i => by
    rw [hmerge, hmerge, h.mirror first hfirst second hsecond]

/-! ## The shapes -/

theorem get?_mergeMap (p : Policy) (present incoming : KeyMap α) (key : String) :
    (p.mergeMap present incoming).get? key =
      p.combine Option.or (present.get? key) (incoming.get? key) := by
  rw [mergeMap, combine]
  split
  · exact present.get?_overwrite incoming key
  · exact present.get?_fill incoming key

theorem get?_mergeOptions (p : Policy) (present incoming : OptionTree) (name : String) :
    (p.mergeOptions present incoming).get? name =
      p.combine Option.or (present.get? name) (incoming.get? name) := by
  rw [mergeOptions, combine]
  split
  · exact present.get?_overwrite incoming name
  · exact present.get?_fill incoming name

theorem get_mergeFallbacks (p : Policy) (present incoming : Fallbacks) (category : Category) :
    (p.mergeFallbacks present incoming).get category =
      p.combine Option.or (present.get category) (incoming.get category) :=
  ByCategory.get_ofFn ..

theorem get_mergeHandlers (p : Policy) (present incoming : HandlerLists) (category : Category) :
    (p.mergeHandlers present incoming).get category =
      p.combine (· ++ ·) (present.get category) (incoming.get category) :=
  ByCategory.get_ofFn ..

theorem lawful_mergeList : Lawful (@mergeList α) [] := lawful_combine (· ++ ·) []

theorem lawful_or : Lawful (combine (Option.or (α := α))) none := lawful_combine Option.or none

/-- Sequences, maps by name and by category, handler lists and option trees are all merged
lawfully. -/
theorem every_shape_merges_lawfully :
    (∀ α : Type, Lawful (@mergeList α) []) ∧
      (∀ α : Type, Lawful (@mergeMap α) .empty) ∧
      Lawful mergeFallbacks .empty ∧
      Lawful mergeHandlers .empty ∧
      Lawful mergeOptions .empty := by
  refine ⟨fun α => lawful_mergeList, fun α => ?_, ?_, ?_, ?_⟩
  · exact lawful_or.of_places KeyMap.get? (fun _ _ => KeyMap.ext_get?) (fun _ => rfl) get?_mergeMap
  · exact lawful_or.of_places ByCategory.get (fun _ _ => ByCategory.ext)
      (ByCategory.get_replicate none) get_mergeFallbacks
  · exact lawful_mergeList.of_places ByCategory.get (fun _ _ => ByCategory.ext)
      (ByCategory.get_replicate []) get_mergeHandlers
  · exact lawful_or.of_places OptionTree.get? (fun _ _ => OptionTree.ext_get?) (fun _ => rfl)
      get?_mergeOptions

end Policy
end ParserPackages
