import ParserPackages.Ranked

/-! # Chains of callables

A chain is a ranked list of callables. Each one reports whether the pass goes on, and the first
that stops it is the last to run. -/

namespace ParserPackages

inductive Flow where
  | proceed
  | stop
  deriving DecidableEq, Repr

namespace Flow

/-- Truth goes on, falsity stops. -/
def ofBool : Bool → Flow
  | true => proceed
  | false => stop

end Flow

/-- Runs a step on every item up to the first that stops. -/
def runAll {α σ : Type} (step : α → σ → Flow × σ) : List α → σ → Flow × σ
  | [], s => (.proceed, s)
  | a :: rest, s =>
    match step a s with
    | (.stop, s') => (.stop, s')
    | (.proceed, s') => runAll step rest s'

/-- Callables in the order in which they run. -/
abbrev Chain (κ : Type) := RankedList κ

namespace Chain

variable {κ σ : Type}

/-- Runs a pass over a chain; `invoke` says how a callable gets its arguments. -/
def execute (chain : Chain κ) (invoke : κ → σ → Flow × σ) (s : σ) : Flow × σ :=
  runAll invoke chain.items s

end Chain
end ParserPackages
