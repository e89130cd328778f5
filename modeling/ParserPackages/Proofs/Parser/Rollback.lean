import ParserPackages.Proofs.Parser.Agreement
import ParserPackages.Proofs.Script.Agreement
import ParserPackages.Proofs.Script.Account

/-!
# Failed extensions

An extension works on a copy of the configuration and gives the engine nothing before the last
step that can fail. What it leaves behind unless the package is added is at most a trace in the
outside world, and whoever does not look there finds everything as it was.
-/
namespace ParserPackages

variable {H F σ : Type}

structure Extension (H F : Type) where
  registry : Registry H F
  name : String
  overrides : Option OptionTree

def Step.result {α : Type} (s : Step H F σ α) : Except Fault α × Running H F × Engine F :=
  (s.outcome, s.parser, s.engine)

def Running.extendAll [DecidableEq H] (b : Behaviour H F σ) (parser : Running H F)
    (engine : Engine F) (world : σ) : List (Extension H F) → List (Step H F σ Bool)
  | [] => []
  | e :: rest =>
    let step := parser.extend b e.registry e.name engine e.overrides world
    step :: step.parser.extendAll b step.engine step.world rest

variable [DecidableEq H]

/-- A run of extensions does not depend on the world if its hooks do not. -/
theorem Behaviour.Agree.extendAll {τ : Type} {R : σ → τ → Prop} {b : Behaviour H F σ}
    {b' : Behaviour H F τ} (h : Agree R b b') (extensions : List (Extension H F))
    (parser : Running H F) (engine : Engine F) {w : σ} {v : τ} (hr : R w v) :
    (parser.extendAll b engine w extensions).map Step.result =
      (parser.extendAll b' engine v extensions).map Step.result := by
  induction extensions generalizing parser engine w v with
  | nil => rfl
  | cons e rest ih =>
    obtain ⟨ho, hp, he, hw⟩ := h.extend parser e.registry e.name engine e.overrides hr
    simp only [Running.extendAll, List.map_cons, Step.result, ho, hp, he]
    rw [ih _ _ hw]

namespace Running.Extended

variable {b : Behaviour H F σ} {parser : Running H F} {registry : Registry H F} {name : String}
  {engine : Engine F} {overrides : Option OptionTree} {world : σ} {step : Step H F σ Bool}

theorem refusal (h : Extended b parser registry name engine overrides world step)
    (hs : step.outcome ≠ .ok true) :
    step.outcome = .ok false ∨ step.outcome = .error (.unknownPackage name) ∨
      (∃ package, registry.lookup? name = some package ∧
        step.outcome = .error (.wrongParser package.name package.parser parser.parsers)) ∨
      ∃ path, step.outcome = .error (.unknownOption path) := by
  cases h with
  | unknown => exact .inr (.inl rfl)
  | present => exact .inl rfl
  | foreign hl => exact .inr (.inr (.inl ⟨_, hl, rfl⟩))
  | undeclared => exact .inr (.inr (.inr ⟨_, rfl⟩))
  | added => exact absurd rfl hs

/-- Whatever the reason, the parser and the engine stay. -/
theorem unchanged (h : Extended b parser registry name engine overrides world step)
    (hs : step.outcome ≠ .ok true) : step.parser = parser ∧ step.engine = engine := by
  cases h with
  | unknown | present | foreign | undeclared => exact ⟨rfl, rfl⟩
  | added => exact absurd rfl hs

/-- Hooks have run only if options were refused. -/
theorem world_eq (h : Extended b parser registry name engine overrides world step)
    (hs : step.outcome ≠ .ok true) (ho : ∀ path, step.outcome ≠ .error (.unknownOption path)) :
    step.world = world := by
  cases h with
  | unknown | present | foreign => rfl
  | undeclared => exact absurd rfl (ho _)
  | added => exact absurd rfl hs

end Running.Extended

/-- An extension that does not add its package says why, and keeps the parser and the engine. As
long as hooks do not look at what it left in the world, later extensions come out as if it had not
been tried. Configuring keeps the engine, too, when it fails. -/
theorem unchanged_unless_added (b : Behaviour H F σ) :
    (∀ (parser : Running H F) (registry : Registry H F) (name : String) (engine : Engine F)
        (overrides : Option OptionTree) (world : σ),
      let step := parser.extend b registry name engine overrides world
      step.outcome ≠ .ok true →
        (step.outcome = .ok false ∨ step.outcome = .error (.unknownPackage name) ∨
          (∃ package, registry.lookup? name = some package ∧
            step.outcome =
              .error (.wrongParser package.name package.parser parser.parsers)) ∨
          ∃ path, step.outcome = .error (.unknownOption path)) ∧
        step.parser = parser ∧ step.engine = engine ∧
        ((∀ path, step.outcome ≠ .error (.unknownOption path)) → step.world = world) ∧
        ∀ R : σ → σ → Prop, Behaviour.Agree R b b → R step.world world →
          ∀ later : List (Extension H F),
            (step.parser.extendAll b step.engine step.world later).map Step.result =
              (parser.extendAll b engine world later).map Step.result) ∧
    ∀ (prepared : Prepared H F) (engine : Engine F) (world : σ) (fault : Fault),
      (prepared.configure b engine world).1 = .error fault →
        (prepared.configure b engine world).2 = (engine, world) := by
  refine ⟨?_, fun _ _ _ _ h => Prepared.configure_eq_error h⟩
  intro parser registry name engine overrides world step hs
  have he : Running.Extended b parser registry name engine overrides world step :=
    Running.extended b parser registry name engine overrides world
  obtain ⟨hparser, hengine⟩ := he.unchanged hs
  refine ⟨he.refusal hs, hparser, hengine, he.world_eq hs, fun R ha hr later => ?_⟩
  rw [hparser, hengine]
  exact ha.extendAll later parser engine hr

open Sample in
/-- Overrides that name no option undo the extension after its init hook has run. -/
theorem misspelt_override_undone :
    let misspelt := OptionTree.empty.set "widht" (.int 3)
    let step := running.extend library.behaviour registry "extra" engine (some misspelt) []
    let retry : List (Extension Hook Filter) :=
      [⟨registry, "extra", some (.set .empty "width" (.int 3))⟩]
    step.outcome = .error (.unknownOption "widht") ∧ step.world = ["init"] ∧
      step.parser = running ∧ step.engine = engine ∧
      (step.parser.extendAll library.behaviour step.engine step.world retry).map Step.result =
        (running.extendAll library.behaviour engine [] retry).map Step.result ∧
      (prepared.configure library.behaviour (.ofUserOptions misspelt) []).2 =
        (.ofUserOptions misspelt, []) := by
  intro misspelt step retry
  obtain ⟨hextend, hconfigure⟩ := unchanged_unless_added library.behaviour
  have ho : step.outcome = .error (.unknownOption "widht") := rfl
  obtain ⟨-, hp, he, -, hlater⟩ :=
    hextend running registry "extra" engine (some misspelt) [] (by rw [ho]; nofun)
  exact ⟨ho, rfl, hp, he, hlater _ library.agree_any_notes trivial retry,
    hconfigure prepared _ [] (.unknownOption "widht") rfl⟩

end ParserPackages
