import ParserPackages.Proofs.Parser.Calls

/-!
# What requests select

The packages that a registry holds for requests, in the order of the requests and the first for
each package name only, are all that matters: the first of them that is for another parser is
refused, and otherwise all of them are merged in the stable order of their priorities.
-/
namespace ParserPackages

variable {H F σ : Type} {b : Behaviour H F σ}

/-- The packages held for requests, in order. The priority that a request gives counts before that
of its package. -/
def Registry.held (r : Registry H F) (requests : List Request) : List (Ranked (Package H F)) :=
  requests.filterMap fun request =>
    (r.lookup? request.name).map fun package =>
      ⟨package, request.priority?.getD package.priority⟩

def firstOfEachName : List (Ranked (Package H F)) → List (Ranked (Package H F))
  | [] => []
  | e :: rest => e :: (firstOfEachName rest).filter (·.item.name ≠ e.item.name)

def Registry.selection (r : Registry H F) (requests : List Request) :
    List (Ranked (Package H F)) :=
  firstOfEachName (r.held requests)

/-- Packages in the order in which requests have them merged: the stable order of priorities. -/
def Registry.ordered (r : Registry H F) (requests : List Request) : List (Package H F) :=
  (Ranked.sort (r.selection requests)).map (·.item)

theorem Registry.mem_ordered {r : Registry H F} {requests : List Request}
    {package : Package H F} :
    package ∈ r.ordered requests ↔ ∃ e ∈ r.selection requests, e.item = package := by
  simp [ordered, Ranked.mem_sort]

theorem mem_firstOfEachName {e : Ranked (Package H F)} {l : List (Ranked (Package H F))} :
    e ∈ firstOfEachName l ↔
      ∃ before after, l = before ++ e :: after ∧ ∀ e' ∈ before, e'.item.name ≠ e.item.name := by
  induction l with
  | nil => simp [firstOfEachName]
  | cons x rest ih =>
    rw [firstOfEachName, List.mem_cons, List.mem_filter, ih, decide_eq_true_eq]
    constructor
    · rintro (rfl | ⟨⟨before, after, rfl, hb⟩, hne⟩)
      · exact ⟨[], rest, rfl, by simp⟩
      · exact ⟨x :: before, after, rfl, List.forall_mem_cons.2 ⟨Ne.symm hne, hb⟩⟩
    · rintro ⟨before, after, hl, hb⟩
      cases before with
      | nil => exact .inl (List.cons.inj hl).1.symm
      | cons y before =>
        obtain ⟨rfl, hrest⟩ := List.cons.inj hl
        obtain ⟨hne, hb'⟩ := List.forall_mem_cons.1 hb
        exact .inr ⟨⟨before, after, hrest, hb'⟩, Ne.symm hne⟩

theorem sublist_firstOfEachName (l : List (Ranked (Package H F))) :
    (firstOfEachName l).Sublist l := by
  induction l with
  | nil => exact List.Sublist.refl []
  | cons e rest ih => exact (List.filter_sublist.trans ih).cons_cons e

theorem nodup_firstOfEachName (l : List (Ranked (Package H F))) :
    ((firstOfEachName l).map (·.item.name)).Nodup := by
  induction l with
  | nil => exact List.nodup_nil
  | cons e rest ih =>
    rw [firstOfEachName, List.map_cons, List.nodup_cons]
    refine ⟨?_, ih.sublist (List.filter_sublist.map _)⟩
    simp

/-- No name is lost. -/
theorem exists_mem_firstOfEachName {e : Ranked (Package H F)} {l : List (Ranked (Package H F))}
    (h : e ∈ l) : ∃ x ∈ firstOfEachName l, x.item.name = e.item.name := by
  induction l with
  | nil => exact absurd h List.not_mem_nil
  | cons x rest ih =>
    by_cases hx : x.item.name = e.item.name
    · exact ⟨x, List.mem_cons_self .., hx⟩
    · obtain ⟨y, hy, hye⟩ := ih ((List.mem_cons.1 h).resolve_left fun he => hx (he ▸ rfl))
      refine ⟨y, List.mem_cons_of_mem _ (List.mem_filter.2 ⟨hy, ?_⟩), hye⟩
      simpa [hye] using Ne.symm hx

theorem Registry.lookup?_of_mem_held {r : Registry H F} {requests : List Request}
    {e : Ranked (Package H F)} (h : e ∈ r.held requests) :
    ∃ name, r.lookup? name = some e.item := by
  obtain ⟨request, -, hrequest⟩ := List.mem_filterMap.1 h
  obtain ⟨package, hl, rfl⟩ := Option.map_eq_some_iff.1 hrequest
  exact ⟨request.name, hl⟩

theorem Registry.lookup?_of_mem_ordered {r : Registry H F} {requests : List Request}
    {package : Package H F} (h : package ∈ r.ordered requests) :
    ∃ name, r.lookup? name = some package := by
  obtain ⟨e, he, rfl⟩ := mem_ordered.1 h
  exact lookup?_of_mem_held ((sublist_firstOfEachName _).subset he)

/-- What a request finds is merged, or else a package of the same name is. -/
theorem Registry.exists_mem_ordered {r : Registry H F} {requests : List Request}
    {request : Request} (hr : request ∈ requests) {package : Package H F}
    (hl : r.lookup? request.name = some package) :
    ∃ merged ∈ r.ordered requests, merged.name = package.name := by
  have hheld : (⟨package, request.priority?.getD package.priority⟩ : Ranked (Package H F)) ∈
      r.held requests := List.mem_filterMap.2 ⟨request, hr, by rw [hl]; rfl⟩
  obtain ⟨e, he, hname⟩ := exists_mem_firstOfEachName hheld
  exact ⟨e.item, mem_ordered.2 ⟨e, he, rfl⟩, hname⟩

/-- A name that is new comes last. -/
theorem firstOfEachName_concat {l : List (Ranked (Package H F))} {e : Ranked (Package H F)}
    (h : ∀ x ∈ firstOfEachName l, x.item.name ≠ e.item.name) :
    firstOfEachName (l ++ [e]) = firstOfEachName l ++ [e] := by
  induction l with
  | nil => rfl
  | cons x rest ih =>
    obtain ⟨hx, hrest⟩ := List.forall_mem_cons.1 h
    have hnew : ∀ y ∈ firstOfEachName rest, y.item.name ≠ e.item.name := by
      intro y hy
      by_cases hxy : y.item.name = x.item.name
      · rwa [hxy]
      · exact hrest y (List.mem_filter.2 ⟨hy, by simpa using hxy⟩)
    rw [List.cons_append, firstOfEachName, firstOfEachName, ih hnew, List.filter_append,
      List.cons_append]
    simp [hx.symm]

theorem Registry.perm_ordered (r : Registry H F) (requests : List Request) :
    (r.ordered requests).Perm ((r.selection requests).map (·.item)) :=
  (Ranked.sort_perm _).map _

theorem Registry.nodup_ordered (r : Registry H F) (requests : List Request) :
    ((r.ordered requests).map (·.name)).Nodup := by
  refine ((r.perm_ordered requests).map _).nodup_iff.2 ?_
  rw [List.map_map]
  exact nodup_firstOfEachName _

theorem Registry.selection_cons_none {r : Registry H F} {request : Request}
    (h : r.lookup? request.name = none) (rest : List Request) :
    r.selection (request :: rest) = r.selection rest := by
  rw [selection, held, List.filterMap_cons, h]
  rfl

theorem Registry.selection_cons_some {r : Registry H F} {request : Request}
    {package : Package H F} (h : r.lookup? request.name = some package) (rest : List Request) :
    r.selection (request :: rest) =
      ⟨package, request.priority?.getD package.priority⟩ ::
        (r.selection rest).filter (·.item.name ≠ package.name) := by
  rw [selection, held, List.filterMap_cons, h]
  rfl

def requireParsers (accepted : List String) (l : List (Ranked (Package H F))) :
    Except Fault (List (Ranked (Package H F))) :=
  match l.find? (·.item.parser ∉ accepted) with
  | some e => .error (.wrongParser e.item.name e.item.parser accepted)
  | none => .ok l

theorem requireParsers_cons_of_mem {accepted : List String} {e : Ranked (Package H F)}
    (h : e.item.parser ∈ accepted) (rest : List (Ranked (Package H F))) :
    requireParsers accepted (e :: rest) = (requireParsers accepted rest).map (e :: ·) := by
  simp only [requireParsers, List.find?_cons, h, not_true_eq_false, decide_false]
  cases rest.find? (·.item.parser ∉ accepted) <;> rfl

theorem requireParsers_cons_of_notMem {accepted : List String} {e : Ranked (Package H F)}
    (h : e.item.parser ∉ accepted) (rest : List (Ranked (Package H F))) :
    requireParsers accepted (e :: rest) =
      .error (.wrongParser e.item.name e.item.parser accepted) := by
  simp only [requireParsers, List.find?_cons, h, not_false_eq_true, decide_true]

/-- A run that passes over the names chosen before checks what is left of the selection. -/
theorem Registry.select_eq (r : Registry H F) (accepted chosen : List String)
    (requests : List Request) :
    r.select accepted chosen requests =
      requireParsers accepted ((r.selection requests).filter (·.item.name ∉ chosen)) := by
  induction requests generalizing chosen with
  | nil => rfl
  | cons request rest ih =>
    simp only [select]
    cases hl : r.lookup? request.name with
    | none => rw [selection_cons_none hl]; exact ih chosen
    | some package =>
      rw [selection_cons_some hl, List.filter_cons, List.filter_filter]
      dsimp only
      by_cases hc : package.name ∈ chosen
      · rw [if_pos hc, if_neg (by simpa using hc), ih]
        -- whatever else has this name was chosen before, too
        refine congrArg _ (List.filter_congr fun e _ => ?_)
        by_cases he : e.item.name = package.name <;> simp [he, hc]
      · rw [if_neg hc, if_pos (by simpa using hc), Package.requireParser_eq]
        have hrest : (r.selection rest).filter (fun e => decide (e.item.name ∉ chosen) &&
            decide (e.item.name ≠ package.name)) =
            (r.selection rest).filter (·.item.name ∉ package.name :: chosen) :=
          List.filter_congr fun e _ => by simp [Bool.and_comm]
        by_cases hp : package.parser ∈ accepted
        · rw [requireParsers_cons_of_mem hp, hrest, ← ih, if_pos hp]
          cases r.select accepted (package.name :: chosen) rest <;> rfl
        · rw [requireParsers_cons_of_notMem hp, if_neg hp]

/-- Preparing checks the selection before anything else and merges it in the order of its
priorities. -/
theorem Prepared.ofRequests_eq (b : Behaviour H F σ) (registry : Registry H F)
    (requests : List Request) (parsers : List String) (world : σ) :
    ofRequests b registry requests parsers world =
      match (registry.selection requests).find? (·.item.parser ∉ parsers) with
      | some e => (.error (.wrongParser e.item.name e.item.parser parsers), world)
      | none =>
        let run := (Configuration.empty.appendAll (registry.ordered requests)).runInit b world
        (.ok ⟨run.2.1.rebuildIndex, parsers⟩, run.2.2) := by
  have hnone : (registry.selection requests).filter (·.item.name ∉ ([] : List String)) =
      registry.selection requests := by simp
  simp only [ofRequests, Registry.select_eq, hnone, requireParsers]
  cases (registry.selection requests).find? (·.item.parser ∉ parsers) with
  | some e => rfl
  | none => simp only [RankedList.items_ofEntries, Registry.ordered]

theorem Prepared.ofRequests_of_accepted {registry : Registry H F} {requests : List Request}
    {parsers : List String} (h : ∀ e ∈ registry.selection requests, e.item.parser ∈ parsers)
    (world : σ) :
    ofRequests b registry requests parsers world =
      let run := (Configuration.empty.appendAll (registry.ordered requests)).runInit b world
      (.ok ⟨run.2.1.rebuildIndex, parsers⟩, run.2.2) := by
  have hf : (registry.selection requests).find? (·.item.parser ∉ parsers) = none :=
    List.find?_eq_none.2 fun e he => by simpa using h e he
  rw [ofRequests_eq, hf]

theorem Prepared.ofRequests_of_foreign {registry : Registry H F} {requests : List Request}
    {parsers : List String} {e : Ranked (Package H F)} (he : e ∈ registry.selection requests)
    (hp : e.item.parser ∉ parsers) (world : σ) :
    ∃ fault, ofRequests b registry requests parsers world = (.error fault, world) := by
  rw [ofRequests_eq]
  cases hf : (registry.selection requests).find? (·.item.parser ∉ parsers) with
  | some e => exact ⟨_, rfl⟩
  | none => exact absurd (List.find?_eq_none.1 hf e he) (by simpa using hp)

/-- Preparing succeeds only if all that is selected is accepted. -/
theorem Prepared.accepted_of_ofRequests {registry : Registry H F} {requests : List Request}
    {parsers : List String} {world : σ} {prepared : Prepared H F}
    (h : (ofRequests b registry requests parsers world).1 = .ok prepared) :
    ∀ e ∈ registry.selection requests, e.item.parser ∈ parsers := by
  intro e he
  refine Decidable.byContradiction fun hp => ?_
  obtain ⟨fault, hf⟩ := ofRequests_of_foreign (b := b) he hp world
  rw [hf] at h
  cases h

theorem Account.packages_runInit (account : Account b) (c : Configuration H F) (world : σ) :
    (c.runInit b world).2.1.packages =
      c.packages ++ (Change.appended (account.initPass c.initChain.items (c, world))).map
        (·.name) := by
  have hgrows := c.growsBy_applyAll (account.initPass c.initChain.items (c, world))
  have hrun := account.initPass_eq c.initChain.items (c, world)
  rw [← hgrows.packages, ← hrun]
  rfl

/-- Requests select the first package of each name among those held for them, in their order. The
selection is refused for the first package in it that is for another parser, before any hook is
called. Otherwise it is merged in the order of the priorities, with equal priorities in the order
of the requests and each package once, and init hooks append behind it. -/
theorem ofRequests_merges_selection (b : Behaviour H F σ) (registry : Registry H F)
    (requests : List Request) (parsers : List String) (world : σ) :
    let selection := registry.selection requests
    let prepared := Prepared.ofRequests b registry requests parsers world
    let recorded := Prepared.ofRequests b.recording registry requests parsers (world, [])
    (selection.Sublist (registry.held requests) ∧
        ∀ e, e ∈ selection ↔ ∃ before after, registry.held requests = before ++ e :: after ∧
          ∀ e' ∈ before, e'.item.name ≠ e.item.name) ∧
      ((∃ fault, prepared.1 = .error fault) ↔ ∃ e ∈ selection, e.item.parser ∉ parsers) ∧
      (∀ e, selection.find? (·.item.parser ∉ parsers) = some e →
        prepared = (.error (.wrongParser e.item.name e.item.parser parsers), world) ∧
          recorded.2 = (world, [])) ∧
      ((∀ e ∈ selection, e.item.parser ∈ parsers) →
        let order := registry.ordered requests
        let merged := Configuration.empty.appendAll order
        let active := (merged.runInit b world).2.1.rebuildIndex
        prepared.1 = .ok ⟨active, parsers⟩ ∧
          order.Perm (selection.map (·.item)) ∧ (order.map (·.name)).Nodup ∧
          ∀ account : Account b, active.packages = order.map (·.name) ++
            (Change.appended (account.initPass merged.initChain.items (merged, world))).map
              (·.name)) := by
  intro selection prepared recorded
  have hprepared : prepared = _ := Prepared.ofRequests_eq b registry requests parsers world
  have hrecorded : recorded = _ :=
    Prepared.ofRequests_eq b.recording registry requests parsers (world, [])
  refine ⟨⟨sublist_firstOfEachName _, fun e => mem_firstOfEachName⟩, ⟨?_, ?_⟩, fun e he => ?_,
    fun h => ?_⟩
  · rintro ⟨fault, hfault⟩
    by_cases hall : ∀ e ∈ selection, e.item.parser ∈ parsers
    · have hok : prepared = _ := Prepared.ofRequests_of_accepted hall world
      rw [hok] at hfault
      cases hfault
    · simpa using hall
  · rintro ⟨e, he, hp⟩
    obtain ⟨fault, hf⟩ := Prepared.ofRequests_of_foreign (b := b) he hp world
    exact ⟨fault, congrArg Prod.fst hf⟩
  · rw [hprepared, hrecorded, he]
    exact ⟨rfl, rfl⟩
  · intro order merged active
    have hmerged : merged.packages = order.map (·.name) :=
      (Configuration.empty.growsBy_appendAll order).packages
    refine ⟨congrArg Prod.fst (Prepared.ofRequests_of_accepted h world),
      registry.perm_ordered requests, registry.nodup_ordered requests, fun account => ?_⟩
    rw [← hmerged]
    exact account.packages_runInit merged world

namespace Sample

def foreign : ScriptedPackage := { bare "foreign" with parser := "mathml", priority := -20 }

/-- Has `core` under a second name, and a package for another parser. -/
def aliased : Registry Hook Filter :=
  ⟨(registry.entries.insert "kernel" core).insert "foreign" foreign⟩

/-- `core` is asked for twice, first by its second name, and `missing` is held by nobody. -/
def repeated : List Request :=
  [⟨"kernel", some 7⟩, ⟨"missing", some (-9)⟩, ⟨"extra", some (-1)⟩, ⟨"core", some (-9)⟩]

end Sample

open Sample in
/-- The priority of the first request for `core` counts, and `foreign` spoils everything. -/
theorem repeated_requests_merge_once :
    let prepared := Prepared.ofRequests library.behaviour aliased repeated [defaultParser] []
    let spoiled := Prepared.ofRequests library.behaviour aliased (repeated ++ [.ofName "foreign"])
      [defaultParser] []
    (aliased.selection repeated).map (·.item.name) = ["core", "extra"] ∧
      (∀ e ∈ aliased.selection repeated, e.item.parser ∈ [defaultParser]) ∧
      (∃ active, prepared.1 = .ok ⟨active, [defaultParser]⟩ ∧
        active.packages = ["extra", "core"] ++ [localName, localName]) ∧
      spoiled = (.error (.wrongParser "foreign" "mathml" [defaultParser]), []) := by
  intro prepared spoiled
  obtain ⟨-, -, -, haccepted⟩ :=
    ofRequests_merges_selection library.behaviour aliased repeated [defaultParser] []
  obtain ⟨-, -, hforeign, -⟩ := ofRequests_merges_selection library.behaviour aliased
    (repeated ++ [.ofName "foreign"]) [defaultParser] []
  have hall : ∀ e ∈ aliased.selection repeated, e.item.parser ∈ [defaultParser] := by decide
  have horder : aliased.ordered repeated = [extra, core] :=
    (RankedList.items_ofEntries _).symm.trans rfl
  obtain ⟨hprepared, -, -, hpackages⟩ := haccepted hall
  refine ⟨rfl, hall, ⟨_, hprepared, ?_⟩, (hforeign ⟨foreign, -20⟩ rfl).1⟩
  rw [hpackages library.account, horder]
  rfl

end ParserPackages
