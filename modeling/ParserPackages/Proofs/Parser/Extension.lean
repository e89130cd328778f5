import ParserPackages.Parser.Running
import ParserPackages.Proofs.Configuration.Reached

/-!
# The phases of preparing and extending

What preparing, configuring and extending do, said once: an extension joins the package, offers
its options to the engine and settles the ready hooks that joining queued. Each way in which an
extension can end is a case of `Extended`, with the step that it leads to.
-/
namespace ParserPackages

variable {H F σ : Type}

namespace Configuration

/-- The configuration and the world once a package is appended and its own init hook has run. -/
def join (b : Behaviour H F σ) (c : Configuration H F) (package : Package H F) (world : σ) :
    Configuration H F × σ :=
  match package.init? with
  | none => (c.append package, world)
  | some hook => (b.onConfiguration hook.item (c.append package, world)).2

/-- Everything once the ready hooks that a package queued as it joined have run too. -/
def settle [DecidableEq H] (b : Behaviour H F σ) (c : Configuration H F) (package : Package H F)
    (applied : Engine F) (world : σ) : Hosted H F σ :=
  let joined := c.join b package world
  ((Chain.queuedSince c.readyChain joined.1.readyChain).execute b.callReady
    ⟨joined.1.rebuildIndex, applied, joined.2⟩).2

theorem appendAll_eq_applyAll (c : Configuration H F) (packages : List (Package H F)) :
    c.appendAll packages = c.applyAll (packages.map .append) := by
  rw [appendAll, applyAll, List.foldl_map]
  rfl

theorem appendAll_cons (c : Configuration H F) (package : Package H F)
    (rest : List (Package H F)) :
    c.appendAll (package :: rest) = (c.append package).appendAll rest := rfl

theorem appendAll_append (c : Configuration H F) (first second : List (Package H F)) :
    c.appendAll (first ++ second) = (c.appendAll first).appendAll second := List.foldl_append ..

/-- Appending does not look at the index. -/
theorem rebuildIndex_append (c : Configuration H F) (package : Package H F) :
    (c.rebuildIndex.append package).rebuildIndex = (c.append package).rebuildIndex := by
  simp only [append_eq, rebuildIndex]

theorem rebuildIndex_appendAll (c : Configuration H F) (packages : List (Package H F)) :
    (c.rebuildIndex.appendAll packages).rebuildIndex = (c.appendAll packages).rebuildIndex := by
  induction packages generalizing c with
  | nil => rfl
  | cons package rest ih =>
    rw [appendAll_cons, appendAll_cons, ← ih, rebuildIndex_append, ih]

/-- The first default of an option stays. -/
theorem options_appendAll (c : Configuration H F) (packages : List (Package H F)) :
    (c.appendAll packages).options = (packages.map (·.options)).foldl .fill c.options := by
  induction packages generalizing c with
  | nil => rfl
  | cons package rest ih => rw [appendAll_cons, ih, append_eq, List.map_cons, List.foldl_cons]

theorem growsBy_appendAll (c : Configuration H F) (packages : List (Package H F)) :
    c.GrowsBy packages (c.appendAll packages) := by
  have h := c.growsBy_applyAll (packages.map .append)
  rwa [Change.appended_map_append, ← appendAll_eq_applyAll] at h

end Configuration

theorem Package.requireParser_eq (package : Package H F) (accepted : List String) :
    package.requireParser accepted =
      if package.parser ∈ accepted then .ok ()
      else .error (.wrongParser package.name package.parser accepted) := by
  simp [requireParser]

theorem Engine.applyOptions_error {e : Engine F} {defaults : OptionTree}
    {overrides : Option OptionTree} {fault : Fault}
    (h : e.applyOptions defaults overrides = .error fault) :
    ∃ path, fault = .unknownOption path := by
  simp only [applyOptions] at h
  split at h
  · exact ⟨_, (Except.error.inj h).symm⟩
  · cases h

theorem Engine.applyOptions_filters {e e' : Engine F} {defaults : OptionTree}
    {overrides : Option OptionTree} (h : e.applyOptions defaults overrides = .ok e') :
    e'.before = e.before ∧ e'.after = e.after := by
  simp only [applyOptions] at h
  split at h
  · cases h
  · cases h; exact ⟨rfl, rfl⟩

/-- A successful preparation merges what was selected, runs the init chain and rebuilds the
index. -/
theorem Prepared.ofRequests_eq_ok {b : Behaviour H F σ} {registry : Registry H F}
    {requests : List Request} {parsers : List String} {world : σ} {prepared : Prepared H F}
    (h : (Prepared.ofRequests b registry requests parsers world).1 = .ok prepared) :
    ∃ selected, registry.select parsers [] requests = .ok selected ∧
      prepared = ⟨((Configuration.empty.appendAll (RankedList.ofEntries selected).items).runInit b
        world).2.1.rebuildIndex, parsers⟩ := by
  simp only [ofRequests] at h
  split at h
  · cases h
  · rename_i selected hs
    exact ⟨selected, hs, (Except.ok.inj h).symm⟩

theorem Prepared.configure_eq_error {b : Behaviour H F σ} {prepared : Prepared H F}
    {engine : Engine F} {world : σ} {fault : Fault}
    (h : (prepared.configure b engine world).1 = .error fault) :
    (prepared.configure b engine world).2 = (engine, world) := by
  simp only [configure] at h ⊢
  cases ha : engine.applyOptions prepared.active.options none with
  | error fault => rfl
  | ok applied => rw [ha] at h; cases h

theorem Prepared.configure_eq_ok {b : Behaviour H F σ} {prepared : Prepared H F}
    {engine : Engine F} {world : σ} {parser : Running H F}
    (h : (prepared.configure b engine world).1 = .ok parser) :
    ∃ applied, engine.applyOptions prepared.active.options none = .ok applied ∧
      let hosted := (Configuration.runReady b ⟨prepared.active, applied, world⟩).2
      parser = ⟨hosted.configuration, prepared.parsers⟩ ∧
        (prepared.configure b engine world).2.1 = hosted.engine.install
          hosted.configuration.preprocessors hosted.configuration.postprocessors := by
  simp only [configure] at h ⊢
  split at h
  · cases h
  · rename_i applied ha
    rw [ha]
    exact ⟨applied, rfl, (Except.ok.inj h).symm, rfl⟩

namespace Running

variable [DecidableEq H]

/-- The ways in which an extension can end, each with its step. -/
inductive Extended (b : Behaviour H F σ) (parser : Running H F) (registry : Registry H F)
    (name : String) (engine : Engine F) (overrides : Option OptionTree) (world : σ) :
    Step H F σ Bool → Prop
  | unknown (h : registry.lookup? name = none) :
      Extended b parser registry name engine overrides world
        ⟨.error (.unknownPackage name), parser, engine, world⟩
  | present {package : Package H F} (h : registry.lookup? name = some package)
      (hp : parser.active.containsPackage package.name = true) :
      Extended b parser registry name engine overrides world ⟨.ok false, parser, engine, world⟩
  | foreign {package : Package H F} (h : registry.lookup? name = some package)
      (hp : parser.active.containsPackage package.name = false)
      (hf : package.parser ∉ parser.parsers) :
      Extended b parser registry name engine overrides world
        ⟨.error (.wrongParser package.name package.parser parser.parsers), parser, engine, world⟩
  | undeclared {package : Package H F} {path : String} (h : registry.lookup? name = some package)
      (hp : parser.active.containsPackage package.name = false)
      (hf : package.parser ∈ parser.parsers)
      (ho : engine.applyOptions (parser.active.join b package world).1.options overrides =
        .error (.unknownOption path)) :
      Extended b parser registry name engine overrides world
        ⟨.error (.unknownOption path), parser, engine, (parser.active.join b package world).2⟩
  | added {package : Package H F} {applied : Engine F} {hosted : Hosted H F σ}
      (h : registry.lookup? name = some package)
      (hp : parser.active.containsPackage package.name = false)
      (hf : package.parser ∈ parser.parsers)
      (ho : engine.applyOptions (parser.active.join b package world).1.options overrides =
        .ok applied)
      (hs : parser.active.settle b package applied world = hosted) :
      Extended b parser registry name engine overrides world
        ⟨.ok true, ⟨hosted.configuration, parser.parsers⟩,
          hosted.engine.install
            (hosted.configuration.preprocessors.drop parser.active.preprocessors.length)
            (hosted.configuration.postprocessors.drop parser.active.postprocessors.length),
          hosted.world⟩

/-- What an extension comes to once nothing speaks against its package. -/
theorem extend_eq_of_accepted {b : Behaviour H F σ} {parser : Running H F}
    {registry : Registry H F} {name : String} {package : Package H F}
    (h : registry.lookup? name = some package)
    (hp : parser.active.containsPackage package.name = false)
    (hf : package.parser ∈ parser.parsers) (engine : Engine F) (overrides : Option OptionTree)
    (world : σ) :
    parser.extend b registry name engine overrides world =
      match engine.applyOptions (parser.active.join b package world).1.options overrides with
      | .error fault => ⟨.error fault, parser, engine, (parser.active.join b package world).2⟩
      | .ok applied =>
        let hosted := parser.active.settle b package applied world
        ⟨.ok true, ⟨hosted.configuration, parser.parsers⟩,
          hosted.engine.install
            (hosted.configuration.preprocessors.drop parser.active.preprocessors.length)
            (hosted.configuration.postprocessors.drop parser.active.postprocessors.length),
          hosted.world⟩ := by
  simp only [extend, h, hp, Package.requireParser_eq, if_pos hf]
  rfl

theorem extended (b : Behaviour H F σ) (parser : Running H F) (registry : Registry H F)
    (name : String) (engine : Engine F) (overrides : Option OptionTree) (world : σ) :
    Extended b parser registry name engine overrides world
      (parser.extend b registry name engine overrides world) := by
  cases h : registry.lookup? name with
  | none => simp only [extend, h]; exact .unknown h
  | some package =>
    cases hp : parser.active.containsPackage package.name with
    | true => simp only [extend, h, hp, if_true]; exact .present h hp
    | false =>
      by_cases hf : package.parser ∈ parser.parsers
      · rw [extend_eq_of_accepted h hp hf]
        cases ho : engine.applyOptions (parser.active.join b package world).1.options overrides with
        | error fault =>
          obtain ⟨path, rfl⟩ := Engine.applyOptions_error ho
          exact .undeclared h hp hf ho
        | ok applied => exact .added h hp hf ho rfl
      · simp only [extend, h, hp, Package.requireParser_eq, if_neg hf]
        exact .foreign h hp hf

end Running
end ParserPackages
