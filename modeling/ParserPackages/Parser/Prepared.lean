import ParserPackages.Parser.Request
import ParserPackages.Configuration.Hooks
import ParserPackages.Registry

/-! # Prepared configurations

Requested packages are looked up, checked and ordered by priority. They are merged in that order,
and the init chain runs once. What results waits for an engine. -/

namespace ParserPackages

variable {H F σ : Type}

/-- Refuses packages for other parsers than those accepted. -/
def Package.requireParser (package : Package H F) (accepted : List String) : Except Fault Unit :=
  if accepted.contains package.parser then .ok ()
  else .error (.wrongParser package.name package.parser accepted)

/-- The packages that requests select, each with its priority. Unknown names are passed over, and
so are packages whose own name was `chosen` before. -/
def Registry.select (r : Registry H F) (accepted : List String) :
    (chosen : List String) → List Request → Except Fault (List (Ranked (Package H F)))
  | _, [] => .ok []
  | chosen, request :: rest =>
    match r.lookup? request.name with
    | none => select r accepted chosen rest
    | some package =>
      if package.name ∈ chosen then select r accepted chosen rest
      else
        match package.requireParser accepted with
        | .error fault => .error fault
        | .ok () =>
          match select r accepted (package.name :: chosen) rest with
          | .error fault => .error fault
          | .ok selected =>
            .ok (⟨package, request.priority?.getD package.priority⟩ :: selected)

def Configuration.appendAll (c : Configuration H F) (packages : List (Package H F)) :
    Configuration H F :=
  packages.foldl append c

/-- A configuration that has no engine yet, and the parsers its packages may extend. -/
structure Prepared (H F : Type) where
  active : Configuration H F
  parsers : List String

namespace Prepared

def ofRequests (b : Behaviour H F σ) (registry : Registry H F) (requests : List Request)
    (parsers : List String) (world : σ) : Except Fault (Prepared H F) × σ :=
  match registry.select parsers [] requests with
  | .error fault => (.error fault, world)
  | .ok selected =>
    let merged := Configuration.empty.appendAll (RankedList.ofEntries selected).items
    let (_, active, world) := merged.runInit b world
    (.ok ⟨active.rebuildIndex, parsers⟩, world)

def ofDefaultParser (b : Behaviour H F σ) (registry : Registry H F) (requests : List Request)
    (world : σ) : Except Fault (Prepared H F) × σ :=
  ofRequests b registry requests [defaultParser] world

end Prepared
end ParserPackages
