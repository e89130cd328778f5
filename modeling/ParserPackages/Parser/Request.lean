import ParserPackages.Ranked
import ParserPackages.Json.Basic

/-! # Package requests

A request names a package and may give it a priority. It is written as the name alone or as an
object with the two fields; other fields are passed over, but neither of the two may repeat. -/

namespace ParserPackages

/-- The package asked for, and the priority it is to have, if not its own. -/
structure Request where
  name : String
  priority? : Option Priority
  deriving DecidableEq, Repr

namespace Request

def ofName (name : String) : Request := ⟨name, none⟩

inductive Field where
  | name
  | priority
  | other
  deriving DecidableEq, Repr

def Field.ofKey (key : String) : Field :=
  if key = "name" then .name else if key = "priority" then .priority else .other

def priorityOfInt? (n : Int) : Option Priority :=
  if -Int.pow 2 31 ≤ n ∧ n < Int.pow 2 31 then some (Int32.ofInt n) else none

/-- A priority field: null stands for none. -/
def priorityOfJson? : Json → Option (Option Priority)
  | .null => some none
  | .int n => (priorityOfInt? n).map some
  | _ => none

/-- Reads the fields of a request object, given what was read before. -/
def ofFields? (name? : Option String) (priority? : Option (Option Priority)) :
    List (Field × Json) → Option Request
  | [] => name?.map fun name => ⟨name, priority?.getD none⟩
  | (.name, .str name) :: rest =>
    if name?.isSome then none else ofFields? (some name) priority? rest
  | (.name, _) :: _ => none
  | (.priority, value) :: rest =>
    match priority?, priorityOfJson? value with
    | none, some priority => ofFields? name? (some priority) rest
    | _, _ => none
  | (.other, _) :: rest => ofFields? name? priority? rest

def ofJson? : Json → Option Request
  | .str name => some (ofName name)
  | .obj fields => ofFields? none none (fields.map fun (key, value) => (Field.ofKey key, value))
  | _ => none

def listOfJson? : Json → Option (List Request)
  | .arr items => items.mapM ofJson?
  | _ => none

def toJson (r : Request) : Json :=
  .obj (("name", .str r.name) ::
    match r.priority? with
    | none => []
    | some priority => [("priority", .int priority.toInt)])

end Request
end ParserPackages
