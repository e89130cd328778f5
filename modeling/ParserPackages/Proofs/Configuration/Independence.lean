import ParserPackages.Proofs.Configuration.Lookup
import ParserPackages.Proofs.Parser.HookFree

/-!
# Packages that do not interfere

Two packages are apart if nothing is provided by both of them: no token is claimed by maps of both,
and no rule or option has a name in both. Their lists may have names in common. Main statement: in
whatever order packages that are apart from each other are appended, everything that is looked up by
token or by key is the same, though the order shows in the handler lists themselves. So two of them
commute.
-/
namespace ParserPackages

variable {H F : Type}

/-- A choice between two values does not matter if they are not both there. -/
theorem or_left_comm_of_eq_none {α : Type} {a b : Option α} (h : a = none ∨ b = none)
    (rest : Option α) : a.or (b.or rest) = b.or (a.or rest) := by
  rcases h with rfl | rfl <;> rfl

theorem or_right_comm_of_eq_none {α : Type} {a b : Option α} (h : a = none ∨ b = none)
    (front : Option α) : (front.or a).or b = (front.or b).or a := by
  rcases h with rfl | rfl <;> simp

/-- Neither of two packages provides anything that the other one provides. -/
structure Package.Apart (claims : Claims) (p q : Package H F) : Prop where
  claimed : ∀ category token, ∀ name ∈ p.handlers.get category,
    ∀ other ∈ q.handlers.get category, ¬ (claims name token ∧ claims other token)
  fallbacks : ∀ category, p.fallbacks.get category = none ∨ q.fallbacks.get category = none
  stackItems : ∀ kind, p.stackItems.get? kind = none ∨ q.stackItems.get? kind = none
  tags : ∀ scheme, p.tags.get? scheme = none ∨ q.tags.get? scheme = none
  nodeFactories : ∀ kind, p.nodeFactories.get? kind = none ∨ q.nodeFactories.get? kind = none
  options : ∀ name, p.options.get? name = none ∨ q.options.get? name = none

namespace Package.Apart

variable {claims : Claims} {p q : Package H F}

theorem symm (h : p.Apart claims q) : q.Apart claims p where
  claimed category token name hname other hother hclaims :=
    h.claimed category token other hother name hname hclaims.symm
  fallbacks category := (h.fallbacks category).symm
  stackItems kind := (h.stackItems kind).symm
  tags scheme := (h.tags scheme).symm
  nodeFactories kind := (h.nodeFactories kind).symm
  options name := (h.options name).symm

/-- At most one of them has a map that claims a token. -/
theorem find?_handlers (h : p.Apart claims q) (category : Category) (token : String) :
    (p.handlers.get category).find? (claims · token) = none ∨
      (q.handlers.get category).find? (claims · token) = none := by
  by_cases hp : ∃ name ∈ p.handlers.get category, claims name token
  · obtain ⟨name, hname, hclaims⟩ := hp
    right
    simp only [List.find?_eq_none]
    exact fun other hother ho => h.claimed category token name hname other hother ⟨hclaims, ho⟩
  · left
    simp only [List.find?_eq_none]
    exact fun name hname hclaims => hp ⟨name, hname, hclaims⟩

end Package.Apart

namespace Configuration

/-- Two configurations are alike in everything that is looked up by token or by key. -/
structure SameLookups (claims : Claims) (c c' : Configuration H F) : Prop where
  claiming : ∀ category token, (c.handlers.get category).find? (claims · token) =
    (c'.handlers.get category).find? (claims · token)
  fallbacks : ∀ category, c.fallbacks.get category = c'.fallbacks.get category
  stackItems : ∀ kind, c.stackItems.get? kind = c'.stackItems.get? kind
  tags : ∀ scheme, c.tags.get? scheme = c'.tags.get? scheme
  nodeFactories : ∀ kind, c.nodeFactories.get? kind = c'.nodeFactories.get? kind
  options : ∀ name, c.options.get? name = c'.options.get? name

namespace SameLookups

variable {claims : Claims} {c c' c'' : Configuration H F} {p q : Package H F}

theorem refl (claims : Claims) (c : Configuration H F) : c.SameLookups claims c where
  claiming _ _ := rfl
  fallbacks _ := rfl
  stackItems _ := rfl
  tags _ := rfl
  nodeFactories _ := rfl
  options _ := rfl

theorem trans (h : c.SameLookups claims c') (h' : c'.SameLookups claims c'') :
    c.SameLookups claims c'' where
  claiming category token := (h.claiming category token).trans (h'.claiming category token)
  fallbacks category := (h.fallbacks category).trans (h'.fallbacks category)
  stackItems kind := (h.stackItems kind).trans (h'.stackItems kind)
  tags scheme := (h.tags scheme).trans (h'.tags scheme)
  nodeFactories kind := (h.nodeFactories kind).trans (h'.nodeFactories kind)
  options name := (h.options name).trans (h'.options name)

theorem append (h : c.SameLookups claims c') (package : Package H F) :
    (c.append package).SameLookups claims (c'.append package) where
  claiming category token := by simp [append_eq, h.claiming]
  fallbacks category := by simp [append_eq, h.fallbacks]
  stackItems kind := by simp only [append_eq, KeyMap.get?_overwrite, h.stackItems]
  tags scheme := by simp only [append_eq, KeyMap.get?_overwrite, h.tags]
  nodeFactories kind := by simp only [append_eq, KeyMap.get?_overwrite, h.nodeFactories]
  options name := by simp only [append_eq, OptionTree.get?_fill, h.options]

/-- Two packages that are apart change places. What was there before comes last in every lookup
but that of options, where it comes first. -/
theorem swap (h : p.Apart claims q) (c : Configuration H F) :
    ((c.append p).append q).SameLookups claims ((c.append q).append p) where
  claiming category token := by
    simp only [append_eq, ByCategory.get_ofFn, List.find?_append]
    exact or_left_comm_of_eq_none (h.symm.find?_handlers category token) _
  fallbacks category := by
    simp only [append_eq, ByCategory.get_ofFn]
    exact or_left_comm_of_eq_none (h.symm.fallbacks category) _
  stackItems kind := by
    simp only [append_eq, KeyMap.get?_overwrite]
    exact or_left_comm_of_eq_none (h.symm.stackItems kind) _
  tags scheme := by
    simp only [append_eq, KeyMap.get?_overwrite]
    exact or_left_comm_of_eq_none (h.symm.tags scheme) _
  nodeFactories kind := by
    simp only [append_eq, KeyMap.get?_overwrite]
    exact or_left_comm_of_eq_none (h.symm.nodeFactories kind) _
  options name := by
    simp only [append_eq, OptionTree.get?_fill]
    exact or_right_comm_of_eq_none (h.options name) _

theorem appendAll (h : c.SameLookups claims c') (packages : List (Package H F)) :
    (c.appendAll packages).SameLookups claims (c'.appendAll packages) := by
  induction packages generalizing c c' with
  | nil => exact h
  | cons package rest ih => exact ih (h.append package)

/-- Packages that are apart from each other can be appended in any order: a permutation swaps
neighbours, and neighbours are apart. -/
theorem appendAll_perm {packages others : List (Package H F)} (hp : packages.Perm others)
    (h : packages.Pairwise (Package.Apart claims)) (c : Configuration H F) :
    (c.appendAll packages).SameLookups claims (c.appendAll others) := by
  induction hp generalizing c with
  | nil => exact .refl claims _
  | cons package hp ih => exact ih (List.Pairwise.of_cons h) (c.append package)
  | swap p q rest =>
    have hqp : q.Apart claims p := List.rel_of_pairwise_cons h List.mem_cons_self
    exact (SameLookups.swap hqp c).appendAll rest
  | trans hp _ ih ih' =>
    have h' := (hp.pairwise_iff Package.Apart.symm).1 h
    exact (ih h c).trans (ih' h' c)

theorem rebuildIndex (h : c.SameLookups claims c') :
    c.rebuildIndex.SameLookups claims c'.rebuildIndex := { h with }

theorem resolve_eq (h : c.SameLookups claims c') (category : Category) (token : String) :
    c.rebuildIndex.resolve category token claims =
      c'.rebuildIndex.resolve category token claims := by
  rw [c.indexFresh_rebuildIndex.resolve_eq, c'.indexFresh_rebuildIndex.resolve_eq]
  simp only [HandlerIndex.resolveIn, h.rebuildIndex.claiming, h.rebuildIndex.fallbacks]

end SameLookups

end Configuration

/-- Packages that are apart can be appended in either order: with the index rebuilt, every token is
handled alike and every key has the same rule or option. -/
theorem apart_packages_commute (c : Configuration H F) (p q : Package H F) (claims : Claims)
    (h : p.Apart claims q) :
    let first := ((c.append p).append q).rebuildIndex
    let second := ((c.append q).append p).rebuildIndex
    (∀ category token,
        first.resolve category token claims = second.resolve category token claims) ∧
      (∀ category, first.fallbacks.get category = second.fallbacks.get category) ∧
      (∀ kind, first.stackItems.get? kind = second.stackItems.get? kind) ∧
      (∀ scheme, first.tags.get? scheme = second.tags.get? scheme) ∧
      (∀ kind, first.nodeFactories.get? kind = second.nodeFactories.get? kind) ∧
      (∀ name, first.options.get? name = second.options.get? name) := by
  intro first second
  have hsame : ((c.append p).append q).SameLookups claims ((c.append q).append p) :=
    Configuration.SameLookups.appendAll_perm (.swap q p []) (List.pairwise_pair.2 h) c
  have hrebuilt : first.SameLookups claims second := hsame.rebuildIndex
  exact ⟨hsame.resolve_eq, hrebuilt.fallbacks, hrebuilt.stackItems, hrebuilt.tags,
    hrebuilt.nodeFactories, hrebuilt.options⟩

namespace Sample

/-- A map of `base` and a map of `ams` claim a token each, the map that they share claims none. -/
def apartClaims : Claims := fun map token =>
  map == "macros" && token == "let" || map == "ams-macros" && token == "frac"

def wideAms : ScriptedPackage :=
  { ams with options := OptionTree.empty.set "depth" (.int 2) }

theorem apart_base_wideAms : base.Apart apartClaims wideAms where
  claimed category token name hname other hother := by
    cases category with
    | command =>
      have hn : name = "macros" ∨ name = "shared" := by
        simpa [base, ByCategory.get] using hname
      have ho : other = "ams-macros" ∨ other = "shared" := by
        simpa [wideAms, ams, ByCategory.get] using hother
      rcases hn with rfl | rfl <;> rcases ho with rfl | rfl <;> simp [apartClaims]
      rintro rfl
      decide
    | character | delimiter | environment => cases hname
  fallbacks category := .inr (by cases category <;> rfl)
  stackItems _ := .inl rfl
  tags _ := .inl rfl
  nodeFactories _ := .inl rfl
  options name := by
    by_cases hname : name = "width"
    · subst hname
      exact .inr rfl
    · exact .inl (Keyed.lookup_put_of_ne hname (Json.int 1) [])

end Sample

open Sample in
/-- `base` and `wideAms` share a map, and a package before them has a map and an option in common
with them. The handler lists tell the orders apart, lookups do not. -/
theorem base_wideAms_in_either_order :
    let earlier : ScriptedPackage :=
      { bare "earlier" with
        handlers := ⟨[], [], ["macros"], []⟩
        options := OptionTree.empty.set "width" (.int 7) }
    let c := (Configuration.empty : Configuration Hook Filter).append earlier
    let first := ((c.append base).append wideAms).rebuildIndex
    let second := ((c.append wideAms).append base).rebuildIndex
    base.Apart apartClaims wideAms ∧
      first.handlers.get .command = ["ams-macros", "shared", "macros", "shared", "macros"] ∧
      second.handlers.get .command = ["macros", "shared", "ams-macros", "shared", "macros"] ∧
      second.resolve .command "let" apartClaims = .map "macros" ∧
      first.resolve .command "let" apartClaims = .map "macros" ∧
      second.options.get? "width" = some (.int 7) ∧
      first.options.get? "width" = some (.int 7) := by
  intro earlier c first second
  obtain ⟨hresolve, -, -, -, -, hoptions⟩ :=
    apart_packages_commute c base wideAms apartClaims apart_base_wideAms
  have hlet : second.resolve .command "let" apartClaims = .map "macros" := rfl
  have hwidth : second.options.get? "width" = some (.int 7) := rfl
  exact ⟨apart_base_wideAms, rfl, rfl, hlet, (hresolve .command "let").trans hlet, hwidth,
    (hoptions "width").trans hwidth⟩

end ParserPackages
