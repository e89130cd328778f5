import ParserPackages.Configuration.Merge
import ParserPackages.Engine

/-! # Running hooks

Hooks and filters are values of unspecified types. A `Behaviour` gives them meaning as functions
on what they are handed and on a state `σ` of the outside world. -/

namespace ParserPackages

/-- A configuration with its engine and the outside world. -/
structure Hosted (H F σ : Type) where
  configuration : Configuration H F
  engine : Engine F
  world : σ

/-- What callables do. -/
structure Behaviour (H F σ : Type) where
  /-- A hook that is given the configuration. -/
  onConfiguration : H → Configuration H F × σ → Flow × (Configuration H F × σ)
  /-- A hook that is given the configuration and the engine. -/
  onEngine : H → Hosted H F σ → Flow × Hosted H F σ
  /-- A filter. -/
  onData : F → FilterData × σ → Flow × (FilterData × σ)

namespace Behaviour

variable {H F σ : Type}

def callReady (b : Behaviour H F σ) (hook : ReadyHook H) (s : Hosted H F σ) :
    Flow × Hosted H F σ :=
  match hook with
  | .configuration hook =>
    let (flow, configuration, world) := b.onConfiguration hook (s.configuration, s.world)
    (flow, { s with configuration, world })
  | .engine hook => b.onEngine hook s

def runFilters (b : Behaviour H F σ) (chain : Chain F) (data : FilterData) (world : σ) :
    Flow × (FilterData × σ) :=
  chain.execute b.onData (data, world)

end Behaviour

namespace Configuration

variable {H F σ : Type}

/-- Runs the init chain as it stands. Hooks added on the way wait for a later pass. -/
def runInit (b : Behaviour H F σ) (c : Configuration H F) (world : σ) :
    Flow × (Configuration H F × σ) :=
  c.initChain.execute b.onConfiguration (c, world)

def runReady (b : Behaviour H F σ) (s : Hosted H F σ) : Flow × Hosted H F σ :=
  s.configuration.readyChain.execute b.callReady s

end Configuration

namespace Engine

variable {F : Type}

def install (e : Engine F) (before after : List (Processor F)) : Engine F :=
  { e with
    before := before.foldl (fun chain p => chain.insert p.filter p.installPriority) e.before
    after := after.foldl (fun chain p => chain.insert p.filter p.installPriority) e.after }

end Engine
end ParserPackages
