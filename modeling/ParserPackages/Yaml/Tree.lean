import ParserPackages.Yaml.Node

/-! # Documents without references

References are replaced by what they stand for. Collections nest at most `depthLimit` deep, which
also ends references into a node from inside it, and there are at most a hundred references for
each event of the document. -/

namespace ParserPackages.Yaml

/-- A node without references. -/
inductive Tree where
  | scalar (tag? : Option Tag) (plain : Bool) (text : String)
  | sequence (tag? : Option Tag) (items : List Tree)
  | mapping (tag? : Option Tag) (pairs : List (Tree × Tree))
  deriving Inhabited

def depthLimit : Nat := 128

mutual
/-- The events that a node consists of: one for a scalar or a reference, and two around the parts
of a collection. -/
def Node.eventCount : Node → Nat
  | .scalar .. => 1
  | .reference _ => 1
  | .sequence _ items => 2 + Node.eventCountOfItems items
  | .mapping _ pairs => 2 + Node.eventCountOfPairs pairs

def Node.eventCountOfItems : List Node → Nat
  | [] => 0
  | item :: rest => item.eventCount + Node.eventCountOfItems rest

def Node.eventCountOfPairs : List (Node × Node) → Nat
  | [] => 0
  | (key, value) :: rest => key.eventCount + value.eventCount + Node.eventCountOfPairs rest
end

/-- Counts the references left to follow. -/
abbrev Unfolding := StateT Nat Option

namespace Unfolding

def refuse {α : Type} : Unfolding α := fun _ => none

def follow : Unfolding Unit := fun left => if left = 0 then none else some ((), left - 1)

end Unfolding

/-- Replaces the references in a node whose collections may still nest so deep. -/
def Node.unfold (anchors : Anchors) : (depth : Nat) → Node → Unfolding Tree
  | depth, .reference number => do
    Unfolding.follow
    match anchors.node? number, depth with
    | some (.scalar tag? plain text), _ => return .scalar tag? plain text
    | some (.sequence tag? items), depth + 1 =>
      return .sequence tag? (← items.mapM (unfold anchors depth))
    | some (.mapping tag? pairs), depth + 1 =>
      return .mapping tag? (← pairs.mapM fun (key, value) => do
        return (← unfold anchors depth key, ← unfold anchors depth value))
    | _, _ => Unfolding.refuse
  | _, .scalar tag? plain text => return .scalar tag? plain text
  | depth + 1, .sequence tag? items =>
    return .sequence tag? (← items.mapM (unfold anchors depth))
  | depth + 1, .mapping tag? pairs =>
    return .mapping tag? (← pairs.mapM fun (key, value) => do
      return (← unfold anchors depth key, ← unfold anchors depth value))
  | 0, _ => Unfolding.refuse

def Document.tree? (d : Document) : Option Tree :=
  ((d.root.unfold d.anchors depthLimit).run (100 * d.root.eventCount)).map (·.1)

/-- The tree that a text holds: `some none` if the text holds no document, `none` if it is not a
text of one document. -/
def read? (text : String) : Option (Option Tree) := do
  match ← Document.ofTokens? (← scan? text) with
  | none => return none
  | some document => return some (← document.tree?)

end ParserPackages.Yaml
