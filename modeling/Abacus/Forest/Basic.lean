import Abacus.Builtin
import Abacus.Number

/-!
# The forest of nodes

A program is a tree of nodes.  Nodes have an identity: a node may own scope tables, a table holds
bindings whose values are nodes again, and every node knows the node around it.  A forest keeps
nodes, tables and bindings under their identities, so that several programs and parts built by hand
can share them.

* `NodeId`, `TableId`, `BindingId`   identities;
* `Ref`              what stands where a node is expected;
* `Shape`, `Node`, `Role`, `Binding`, `Table`, `Forest`;
* `Forest.tablesFrom`, `Forest.tablesOf`   the tables of a node, innermost first;
* `Forest.chain?`    the tables from one on outward, if there is an end to them;
* `Forest.find?`     the first binding of a name in a table.
-/

namespace Abacus

/-! ## Identities -/

structure NodeId where
  index : Nat
  deriving DecidableEq, Repr

structure TableId where
  index : Nat
  deriving DecidableEq, Repr

structure BindingId where
  index : Nat
  deriving DecidableEq, Repr

inductive Ref where
  | node (id : NodeId)
  | absent
  /-- a thing that is no node, known by the name of its type and a number of its own -/
  | foreign (typeName : String) (serial : Nat)
  deriving DecidableEq, Repr

def Ref.node? : Ref → Option NodeId
  | .node id => some id
  | _ => none

/-! ## Nodes, bindings and tables -/

inductive Shape where
  | number (value : Number)
  | symbol (ident : String)
  /-- a call; a checked one has had its operands counted when it was made -/
  | call (operator : Operator) (ident : Option String) (operands : List Ref) (checked : Bool)
  | choice (test ifTrue ifFalse : Ref)
  deriving DecidableEq

def Shape.children : Shape → List Ref
  | .number _ => []
  | .symbol _ => []
  | .call _ _ operands _ => operands
  | .choice test ifTrue ifFalse => [test, ifTrue, ifFalse]

def Shape.typeName : Shape → String
  | .number _ => "NumberNode"
  | .symbol _ => "SymbolNode"
  | .call .. => "CallNode"
  | .choice .. => "CondNode"

def callName (operator : Operator) (ident : Option String) : String :=
  match operator with
  | .builtin b => b.name
  | .custom =>
    match ident with
    | some name => if name.isEmpty then "<anonymous>" else name
    | none => "<anonymous>"

structure Node where
  shape : Shape
  scope : Option TableId
  parent : Option NodeId
  deriving DecidableEq

inductive Role where
  | value
  | function (parameters : List String)
  deriving DecidableEq, Repr

structure Binding where
  ident : String
  kind : Option Kind
  body : Ref
  role : Role
  deriving DecidableEq, Repr

/-- bindings in order, the table around this one on the same node, and that node -/
structure Table where
  bindings : List BindingId
  enclosing : Option TableId
  owner : Option NodeId
  deriving DecidableEq, Repr

/-! ## The forest -/

structure Forest where
  nodes : Array Node
  tables : Array Table
  bindings : Array Binding

namespace Forest

def empty : Forest := ⟨#[], #[], #[]⟩

instance : Inhabited Forest := ⟨empty⟩

def node? (f : Forest) (id : NodeId) : Option Node := f.nodes[id.index]?

def table? (f : Forest) (id : TableId) : Option Table := f.tables[id.index]?

def binding? (f : Forest) (id : BindingId) : Option Binding := f.bindings[id.index]?

def bindingsOf (f : Forest) (id : TableId) : List (BindingId × Binding) :=
  match f.table? id with
  | some table => table.bindings.filterMap fun b => (f.binding? b).map (b, ·)
  | none => []

def idents (f : Forest) (id : TableId) : List String := (f.bindingsOf id).map (·.2.ident)

def find? (f : Forest) (id : TableId) (ident : String) : Option (BindingId × Binding) :=
  (f.bindingsOf id).find? (·.2.ident == ident)

def tablesUpTo (f : Forest) : Nat → Option TableId → List TableId
  | 0, _ => []
  | _, none => []
  | count + 1, some id => id :: tablesUpTo f count ((f.table? id).bind (·.enclosing))

def tablesFrom (f : Forest) (start : Option TableId) : List TableId :=
  f.tablesUpTo f.tables.size start

def tablesOf (f : Forest) (node : Node) : List TableId := f.tablesFrom node.scope

/-- the tables from one on outward, if at most `count` of them lead to the end -/
def chainUpTo (f : Forest) : Nat → Option TableId → Option (List TableId)
  | _, none => some []
  | 0, some _ => none
  | count + 1, some id =>
    match f.table? id with
    | some table => (chainUpTo f count table.enclosing).map (id :: ·)
    | none => none

/-- the tables from one on outward, if there is an end to them: a row longer than there are tables
goes in a circle -/
def chain? (f : Forest) (start : Option TableId) : Option (List TableId) :=
  f.chainUpTo f.tables.size start

def typeName (f : Forest) : Ref → String
  | .node id => ((f.node? id).map (·.shape.typeName)).getD "NoneType"
  | .absent => "NoneType"
  | .foreign name _ => name

end Forest

end Abacus
