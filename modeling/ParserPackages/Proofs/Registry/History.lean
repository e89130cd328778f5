import Mathlib.Data.List.Forall2
import Mathlib.Data.List.Induction
import ParserPackages.Proofs.Package.WellNamed
import ParserPackages.Proofs.Text.ByteOrder

/-!
# What registries remember

Registries are made empty or copied from others, and from then on each goes its own way. What one
of them holds under a name is the package that the last successful call of its history stored
there; the history of a copy begins with the calls made on the original before.
-/
namespace ParserPackages

variable {H F : Type}

namespace Registry

inductive Call (H F : Type) where
  | register (name : String) (package : Package H F)
  | add (package : Package H F)
  | define (draft : Draft H F) (serial : Nat)

inductive Answer (H F : Type) where
  /-- The package that was registered under the name before. -/
  | previous (package? : Option (Package H F))
  /-- The package that was built. -/
  | built (package : Package H F)

def call (r : Registry H F) : Call H F → Except Fault (Answer H F × Registry H F)
  | .register name package =>
    (r.register name package).map fun (previous?, r') => (.previous previous?, r')
  | .add package => (r.add package).map fun (previous?, r') => (.previous previous?, r')
  | .define draft serial => (r.define draft serial).map fun (package, r') => (.built package, r')

/-- The registry after a call. There is no other one than before when the call fails. -/
def after (r : Registry H F) (c : Call H F) : Registry H F :=
  match r.call c with
  | .ok (_, r') => r'
  | .error _ => r

namespace Call

/-- The name and the package that a call stores, or what is wrong with it: a blank name or a
malformed draft. -/
def entry : Call H F → Except Fault (String × Package H F)
  | register name package =>
    if Text.isBlank name then .error (.emptyName .registry) else .ok (name, package)
  | add package =>
    if Text.isBlank package.name then .error (.emptyName .registry)
    else .ok (package.name, package)
  | define draft serial => (draft.build serial).map fun package => (package.name, package)

def answer (package : Package H F) (previous? : Option (Package H F)) : Call H F → Answer H F
  | register .. | add _ => .previous previous?
  | define .. => .built package

def storedAt? (c : Call H F) (name : String) : Option (Package H F) :=
  match c.entry with
  | .ok (key, package) => if name = key then some package else none
  | .error _ => none

end Call

/-- What can be done with registries, which are numbered in the order of their making. -/
inductive Command (H F : Type) where
  | create
  | copy (number : Nat)
  | call (number : Nat) (call : Call H F)

namespace Command

def run (registries : List (Registry H F)) : Command H F → List (Registry H F)
  | create => registries ++ [.empty]
  | copy number => registries ++ registries[number]?.toList
  | call number c => registries.modify number (·.after c)

/-- The calls on each registry after a command. A copy begins with the history of the original. -/
def record (histories : List (List (Call H F))) : Command H F → List (List (Call H F))
  | create => histories ++ [[]]
  | copy number => histories ++ histories[number]?.toList
  | call number c => histories.modify number (· ++ [c])

def runAll (commands : List (Command H F)) : List (Registry H F) := commands.foldl run []

def histories (commands : List (Command H F)) : List (List (Call H F)) := commands.foldl record []

end Command

/-! ## One call -/

theorem register_eq (r : Registry H F) (name : String) (package : Package H F) :
    r.register name package =
      if Text.isBlank name then .error (.emptyName .registry)
      else .ok (r.lookup? name, ⟨r.entries.insert name package⟩) := by
  rw [register, Fault.requireName]
  split <;> rfl

theorem define_eq (r : Registry H F) (draft : Draft H F) (serial : Nat) :
    r.define draft serial =
      (draft.build serial).map fun package =>
        (package, ⟨r.entries.insert package.name package⟩) := by
  rw [define]
  cases hb : draft.build serial with
  | error fault => rfl
  | ok package =>
    have hname : Text.isBlank package.name = false := (Draft.wellNamed_of_build hb).name
    simp [add, register_eq, hname, bind, Except.bind, pure, Except.pure, Except.map]

/-- A call fails by itself, whatever the registry, or else stores its package. -/
theorem call_eq (r : Registry H F) (c : Call H F) :
    r.call c = c.entry.map fun (name, package) =>
      (c.answer package (r.lookup? name), ⟨r.entries.insert name package⟩) := by
  cases c with
  | register name package => rw [call, Call.entry, register_eq]; split <;> rfl
  | add package => rw [call, Call.entry, add, register_eq]; split <;> rfl
  | define draft serial =>
    rw [call, Call.entry, define_eq]
    cases draft.build serial <;> rfl

theorem lookup?_after (r : Registry H F) (c : Call H F) (name : String) :
    (r.after c).lookup? name = (c.storedAt? name).or (r.lookup? name) := by
  rw [after, call_eq, Call.storedAt?]
  cases c.entry with
  | error fault => rfl
  | ok entry =>
    obtain ⟨key, package⟩ := entry
    exact r.entries.get?_insert key name package

/-! ## Histories -/

def replay (calls : List (Call H F)) : Registry H F := calls.foldl after .empty

theorem lookup?_replay (calls : List (Call H F)) (name : String) :
    (replay calls).lookup? name = calls.reverse.findSome? (·.storedAt? name) := by
  induction calls using List.reverseRecOn with
  | nil => rfl
  | append_singleton calls c ih =>
    rw [replay, List.foldl_concat, ← replay, lookup?_after, ih, List.reverse_concat,
      List.findSome?_cons]
    cases c.storedAt? name <;> rfl

theorem Command.run_map_replay (histories : List (List (Call H F))) (command : Command H F) :
    command.run (histories.map replay) = (command.record histories).map replay := by
  cases command with
  | create => simp [run, record, replay]
  | copy number =>
    simp only [run, record, List.map_append, List.getElem?_map]
    cases histories[number]? <;> rfl
  | call number c =>
    refine List.ext_getElem? fun i => ?_
    simp only [run, record, List.getElem?_modify, List.getElem?_map]
    cases histories[i]? with
    | none => simp
    | some calls => by_cases h : number = i <;> simp [h, replay]

/-- Every registry is what the calls of its history make of an empty one. -/
theorem Command.runAll_eq (commands : List (Command H F)) :
    runAll commands = (histories commands).map replay := by
  induction commands using List.reverseRecOn with
  | nil => rfl
  | append_singleton commands command ih =>
    rw [runAll, histories, List.foldl_concat, List.foldl_concat, ← runAll, ← histories, ih,
      run_map_replay]

/-! ## Listings -/

theorem mem_toPairs (r : Registry H F) {name : String} {package : Package H F} :
    (name, package) ∈ r.toPairs ↔ r.lookup? name = some package :=
  ⟨Keyed.lookup_of_mem r.entries.ascending, Keyed.mem_of_lookup⟩

theorem map_fst_toPairs (r : Registry H F) : r.toPairs.map (·.1) = r.names := rfl

theorem pairwise_toPairs (r : Registry H F) :
    r.toPairs.Pairwise fun p q => Text.bytes p.1 < Text.bytes q.1 :=
  r.entries.ascending.imp Text.bytes_lt_of_lt

theorem nodup_names (r : Registry H F) : r.names.Nodup := by
  rw [← map_fst_toPairs, List.Nodup, List.pairwise_map]
  exact r.entries.ascending.imp fun h => String.ne_of_lt h

/-- Whatever is done with registries, each holds under a name the package that the last successful
call of its history stored there, and nothing if there is none. A call fails for what is wrong with
it and leaves the registry as it was; else it answers with what was found under its name, or with
the package that it built. The names and the entries of a registry are those that are found, in
strictly ascending order of their bytes, and its size is their number. -/
theorem holds_last_stored :
    (∀ commands : List (Command H F), List.Forall₂
      (fun (r : Registry H F) calls => ∀ name,
        r.lookup? name = calls.reverse.findSome? (·.storedAt? name))
      (Command.runAll commands) (Command.histories commands)) ∧
    (∀ (r : Registry H F) (c : Call H F),
      match c.entry with
      | .error fault => r.call c = .error fault ∧ r.after c = r
      | .ok (name, package) =>
        r.call c = .ok (c.answer package (r.lookup? name), r.after c)) ∧
    ∀ r : Registry H F,
      (∀ name, name ∈ r.names ↔ (r.lookup? name).isSome) ∧
      (∀ name package, (name, package) ∈ r.toPairs ↔ r.lookup? name = some package) ∧
      r.toPairs.map (·.1) = r.names ∧
      r.toPairs.Pairwise (fun p q => Text.bytes p.1 < Text.bytes q.1) ∧
      r.names.Nodup ∧ r.size = r.names.length := by
  refine ⟨fun commands => ?_, fun r c => ?_, fun r => ⟨fun name => KeyMap.mem_keys,
    fun name package => r.mem_toPairs, r.map_fst_toPairs, r.pairwise_toPairs, r.nodup_names,
    List.length_map .. |>.symm⟩⟩
  · rw [Command.runAll_eq, List.forall₂_map_left_iff, List.forall₂_same]
    exact fun calls _ name => lookup?_replay calls name
  · have hcall := r.call_eq c
    cases he : c.entry with
    | error fault =>
      rw [he] at hcall
      exact ⟨hcall, by rw [after, hcall]; rfl⟩
    | ok entry =>
      obtain ⟨name, package⟩ := entry
      rw [he] at hcall
      change r.call c = _
      rw [after, hcall]
      rfl

end Registry
end ParserPackages
