import ParserPackages.Configuration.Index

/-!
# Flattened handler lists

An index holds each handler list with only the first occurrence of every name. A flattened list has
the names of the list it was made of, once each and in the order in which they first occur, so that
nothing is left to flatten. Looking a token up in the index answers like a walk over the list as it
was.
-/
namespace ParserPackages

theorem mem_firstOccurrences {name : String} {seen names : List String} :
    name ∈ firstOccurrences seen names ↔ name ∈ names ∧ name ∉ seen := by
  induction names generalizing seen with
  | nil => simp [firstOccurrences]
  | cons first rest ih =>
    rw [firstOccurrences]
    by_cases hfirst : first ∈ seen
    · rw [if_pos hfirst, ih, List.mem_cons]
      refine and_congr_left fun hname => ?_
      have hne : name ≠ first := fun h => hname (h ▸ hfirst)
      exact (or_iff_right hne).symm
    · rw [if_neg hfirst, List.mem_cons, ih, List.mem_cons, List.mem_cons]
      by_cases hname : name = first
      · subst hname
        simp [hfirst]
      · simp [hname]

private theorem idxOf_cons_of_ne {first name : String} (h : first ≠ name) (rest : List String) :
    (first :: rest).idxOf name = rest.idxOf name + 1 := by
  rw [List.idxOf_cons, beq_eq_false_iff_ne.2 h, cond_false]

/-- Of two names in a flattened list, the one in front occurs first in the list. -/
theorem pairwise_firstOccurrences (seen names : List String) :
    (firstOccurrences seen names).Pairwise fun a b => names.idxOf a < names.idxOf b := by
  induction names generalizing seen with
  | nil => exact List.Pairwise.nil
  | cons first rest ih =>
    -- behind the first name, occurrences are found one place further on
    have hrest (seen' : List String) (h : first ∈ seen') :
        (firstOccurrences seen' rest).Pairwise fun a b =>
          (first :: rest).idxOf a < (first :: rest).idxOf b := by
      refine (ih seen').imp_of_mem fun {a b} ha hb hlt => ?_
      have hne (name : String) (hname : name ∈ firstOccurrences seen' rest) : first ≠ name :=
        fun he => (mem_firstOccurrences.1 hname).2 (he ▸ h)
      rw [idxOf_cons_of_ne (hne a ha), idxOf_cons_of_ne (hne b hb)]
      exact Nat.succ_lt_succ hlt
    rw [firstOccurrences]
    by_cases hfirst : first ∈ seen
    · rw [if_pos hfirst]
      exact hrest seen hfirst
    · rw [if_neg hfirst]
      refine List.pairwise_cons.2 ⟨fun b hb => ?_, hrest _ List.mem_cons_self⟩
      have hne : first ≠ b := fun he => (mem_firstOccurrences.1 hb).2 (he ▸ List.mem_cons_self)
      rw [List.idxOf_cons_self, idxOf_cons_of_ne hne]
      exact Nat.succ_pos _

theorem nodup_firstOccurrences (seen names : List String) :
    (firstOccurrences seen names).Nodup := by
  refine (pairwise_firstOccurrences seen names).imp ?_
  rintro a b hlt rfl
  exact Nat.lt_irrefl _ hlt

theorem firstOccurrences_of_nodup {seen names : List String} (hn : names.Nodup)
    (hs : ∀ name ∈ names, name ∉ seen) : firstOccurrences seen names = names := by
  induction names generalizing seen with
  | nil => rfl
  | cons first rest ih =>
    obtain ⟨hfirst, hrest⟩ := List.nodup_cons.1 hn
    obtain ⟨hseen, hseen'⟩ := List.forall_mem_cons.1 hs
    rw [firstOccurrences, if_neg hseen, ih hrest]
    intro name hname
    rw [List.mem_cons, not_or]
    exact ⟨fun he => hfirst (he ▸ hname), hseen' name hname⟩

theorem firstOccurrences_idem (names : List String) :
    firstOccurrences [] (firstOccurrences [] names) = firstOccurrences [] names :=
  firstOccurrences_of_nodup (nodup_firstOccurrences [] names) fun _ _ => List.not_mem_nil

example : firstOccurrences [] ["new-Command", "AMSmath-macros", "macros", "new-Command"] =
    ["new-Command", "AMSmath-macros", "macros"] := by decide

theorem find?_firstOccurrences (p : String → Bool) {seen : List String} (names : List String)
    (h : ∀ name ∈ seen, p name = false) :
    (firstOccurrences seen names).find? p = names.find? p := by
  induction names generalizing seen with
  | nil => rfl
  | cons name rest ih =>
    rw [firstOccurrences, List.find?_cons]
    by_cases hs : name ∈ seen
    · rw [if_pos hs, h name hs]
      exact ih h
    · rw [if_neg hs, List.find?_cons]
      cases hp : p name with
      | true => rfl
      | false => exact ih (List.forall_mem_cons.2 ⟨hp, h⟩)

namespace HandlerIndex

/-- An index finds what is found in the lists that it was made of. -/
theorem resolve_ofLists (lists : HandlerLists) (category : Category) (token : String)
    (claims : Claims) (fallbacks : Fallbacks) :
    (ofLists lists).resolve category token claims fallbacks =
      resolveIn (lists.get category) claims token (fallbacks.get category) := by
  have hfind := find?_firstOccurrences (claims · token) (lists.get category)
    (List.forall_mem_nil (p := fun name => claims name token = false))
  simp only [resolve, resolveIn, ofLists, ByCategory.get_map, hfind]

/-- Walks over names: the first map that claims the token handles it, and the rule of the category
if none does. -/
def scan (claims : Claims) (token : String) (rule? : Option Rule) : List String → Resolution
  | [] => rule?.elim .unhandled .fallback
  | name :: rest => if claims name token then .map name else scan claims token rule? rest

theorem resolveIn_eq_scan (names : List String) (claims : Claims) (token : String)
    (rule? : Option Rule) : resolveIn names claims token rule? = scan claims token rule? names := by
  induction names with
  | nil => cases rule? <;> rfl
  | cons name rest ih =>
    simp only [scan, ← ih, resolveIn, List.find?_cons]
    cases claims name token <;> rfl

theorem ofLists_maps (lists : HandlerLists) : ofLists (ofLists lists).maps = ofLists lists := by
  refine congrArg HandlerIndex.mk (ByCategory.ext fun category => ?_)
  simp only [ofLists, ByCategory.get_map, firstOccurrences_idem]

/-- The index of handler lists answers every lookup like a walk over the list of the category, and
holds the names of that list once each, in the order in which they first occur. Making an index of
what it holds gives it back. -/
theorem flattened_lists_answer_alike (lists : HandlerLists) (category : Category) :
    let raw := lists.get category
    let flat := (ofLists lists).maps.get category
    (∀ token claims fallbacks, (ofLists lists).resolve category token claims fallbacks =
        scan claims token (fallbacks.get category) raw) ∧
      flat.Nodup ∧
      (∀ name, name ∈ flat ↔ name ∈ raw) ∧
      flat.Pairwise (fun a b => raw.idxOf a < raw.idxOf b) ∧
      ofLists (ofLists lists).maps = ofLists lists := by
  intro raw flat
  have hflat : flat = firstOccurrences [] raw := ByCategory.get_map ..
  refine ⟨fun token claims fallbacks => ?_, ?_, fun name => ?_, ?_, ofLists_maps lists⟩
  · rw [resolve_ofLists, resolveIn_eq_scan]
  · rw [hflat]
    exact nodup_firstOccurrences [] raw
  · rw [hflat, mem_firstOccurrences]
    exact and_iff_left List.not_mem_nil
  · rw [hflat]
    exact pairwise_firstOccurrences [] raw

end HandlerIndex
end ParserPackages
