import Abacus.Forest.Basic

/-!
# Outlines

A node with everything below it as a plain tree, the nodes numbered in the order of a walk that goes
through the parts of a node left to right and then through its tables, innermost first.  A node that
is reached twice keeps its first number.

* `Outline`            the tree;
* `Forest.outline`     the outline of what a reference stands for.
-/

namespace Abacus

inductive Outline where
  | other (typeName : String)
  /-- a node with the number of the node around it, its parts, and the bound nodes of its tables -/
  | node (number : Nat) (parent : Option Nat) (shape : Shape) (parts : List Outline)
      (scope : List (List (Binding × Outline)))

namespace Forest

def numberOf (id : NodeId) : StateM (List NodeId) Nat := do
  let seen ← get
  match seen.findIdx? (· == id) with
  | some n => return n
  | none =>
    set (seen ++ [id])
    return seen.length

def outlineUpTo (f : Forest) : Nat → Ref → StateM (List NodeId) Outline
  | 0, ref => return .other (f.typeName ref)
  | depth + 1, ref =>
    match ref.node?, ref.node?.bind f.node? with
    | some id, some node => do
      let number ← numberOf id
      let seen ← get
      let parent := node.parent.bind fun p => seen.findIdx? (· == p)
      let parts ← node.shape.children.mapM (outlineUpTo f depth)
      let scope ← (f.tablesOf node).mapM fun t =>
        (f.bindingsOf t).mapM fun (_, b) => do
          let below ← outlineUpTo f depth b.body
          return (b, below)
      return .node number parent node.shape parts scope
    | _, _ => return .other (f.typeName ref)

def outline (f : Forest) (ref : Ref) : Outline :=
  ((f.outlineUpTo (f.nodes.size + 1) ref).run []).1

end Forest

end Abacus
