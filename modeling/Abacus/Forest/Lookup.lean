import Abacus.Forest.Basic

/-!
# Static lookup

The binding that a name denotes at a node, read off the forest alone: a node sees all of its tables,
innermost first; the value of a binding sees its own table and those around it; then the node around
is asked.

* `Forest.owningTable?`     the table of a node that binds a given node;
* `Forest.resolve?`         the binding that a name denotes at a node.
-/

namespace Abacus

namespace Forest

def owningTable? (f : Forest) (node : Node) (child : NodeId) : Option TableId :=
  (f.tablesOf node).find? fun t => (f.bindingsOf t).any (·.2.body == .node child)

def findIn? (f : Forest) (ident : String) : List TableId → Option (BindingId × Binding)
  | [] => none
  | t :: rest =>
    match f.find? t ident with
    | some found => some found
    | none => findIn? f ident rest

/-- the tables that a name is looked for in at a node, coming up from one of its bound nodes or
parts, or starting there -/
def visibleTables (f : Forest) (node : Node) (child : Option NodeId) : List TableId :=
  match child.bind (f.owningTable? node) with
  | some table => f.tablesFrom (some table)
  | none => f.tablesOf node

def resolveUpTo (f : Forest) (ident : String) :
    Nat → NodeId → Option NodeId → Option (BindingId × Binding)
  | 0, _, _ => none
  | steps + 1, id, child =>
    match f.node? id with
    | none => none
    | some node =>
      match f.findIn? ident (f.visibleTables node child) with
      | some found => some found
      | none =>
        match node.parent with
        | some parent => resolveUpTo f ident steps parent (some id)
        | none => none

/-- **The binding that a name denotes at a node.**  A walk that has not found it after one step more
than there are nodes goes in a circle. -/
def resolve? (f : Forest) (id : NodeId) (ident : String) : Option (BindingId × Binding) :=
  f.resolveUpTo ident (f.nodes.size + 1) id none

end Forest

end Abacus
