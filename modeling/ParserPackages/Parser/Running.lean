import ParserPackages.Parser.Prepared

/-! # Running parsers

A prepared configuration is handed to an engine, and from then on packages can be added one at a
time. What fails leaves the parser and the engine as they were. -/

namespace ParserPackages

variable {H F σ : Type}

/-- A configuration attached to an engine. -/
structure Running (H F : Type) where
  active : Configuration H F
  parsers : List String

/-- The parser, the engine and the outside world after a step, with what came of it. -/
structure Step (H F σ α : Type) where
  outcome : Except Fault α
  parser : Running H F
  engine : Engine F
  world : σ

/-- Hands a configuration to an engine: options first, then the ready chain, then processors.
Returns the engine in any case. -/
def Prepared.configure (b : Behaviour H F σ) (prepared : Prepared H F) (engine : Engine F)
    (world : σ) : Except Fault (Running H F) × Engine F × σ :=
  match engine.applyOptions prepared.active.options none with
  | .error fault => (.error fault, engine, world)
  | .ok applied =>
    let (_, hosted) := Configuration.runReady b ⟨prepared.active, applied, world⟩
    let active := hosted.configuration
    (.ok ⟨active, prepared.parsers⟩,
      hosted.engine.install active.preprocessors active.postprocessors, hosted.world)

/-- The entries of a chain that are left over when each known callable accounts for one. -/
def unaccounted {α : Type} [DecidableEq α] (known : List α) : List (Ranked α) → List (Ranked α)
  | [] => []
  | entry :: rest =>
    if entry.item ∈ known then unaccounted (known.erase entry.item) rest
    else entry :: unaccounted known rest

/-- The entries of a chain that were not on it before. -/
def Chain.queuedSince {κ : Type} [DecidableEq κ] (before after : Chain κ) : Chain κ :=
  .ofEntries (unaccounted before.items after.entries)

namespace Running

/-- Adds a package to a running parser. Its own init hook runs, the options reach the engine with
the overrides, the ready hooks queued on the way run, and the processors that came are installed.
A package that is merged already changes nothing. -/
def extend [DecidableEq H] (b : Behaviour H F σ) (parser : Running H F) (registry : Registry H F)
    (name : String) (engine : Engine F) (overrides : Option OptionTree) (world : σ) :
    Step H F σ Bool :=
  match registry.lookup? name with
  | none => ⟨.error (.unknownPackage name), parser, engine, world⟩
  | some package =>
    if parser.active.containsPackage package.name then ⟨.ok false, parser, engine, world⟩
    else
      match package.requireParser parser.parsers with
      | .error fault => ⟨.error fault, parser, engine, world⟩
      | .ok () =>
        let appended := parser.active.append package
        let (initialized, world) :=
          match package.init? with
          | none => (appended, world)
          | some hook => (b.onConfiguration hook.item (appended, world)).2
        let indexed := initialized.rebuildIndex
        match engine.applyOptions indexed.options overrides with
        | .error fault => ⟨.error fault, parser, engine, world⟩
        | .ok applied =>
          let queued := Chain.queuedSince parser.active.readyChain indexed.readyChain
          let (_, hosted) := queued.execute b.callReady ⟨indexed, applied, world⟩
          let active := hosted.configuration
          let installed := hosted.engine.install
            (active.preprocessors.drop parser.active.preprocessors.length)
            (active.postprocessors.drop parser.active.postprocessors.length)
          ⟨.ok true, ⟨active, parser.parsers⟩, installed, hosted.world⟩

end Running
end ParserPackages
