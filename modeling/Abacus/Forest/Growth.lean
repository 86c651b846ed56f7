import Abacus.Diagnostic
import Abacus.Fault
import Abacus.Forest.Basic

/-!
# Growing a forest

New nodes, bindings and tables.  Making a node links its children to it, attaching a table to a node
links the bound nodes to that node.  Growing may stop with a fault and leaves remarks.

* `Growth`            growing with faults and remarks;
* `newNumber`, `newSymbol`, `newCall`, `newRawCall`, `newChoice`;
* `newVariable`, `newFunction`;
* `insert`, `newTable`, `attach`.
-/

namespace Abacus

/-- a forest that grows, with the remarks made on the way -/
structure Draft where
  forest : Forest
  remarks : List Remark

abbrev Growth := ExceptT Fault (StateM Draft)

namespace Growth

def remark (r : Remark) : Growth Unit := modify fun d => { d with remarks := d.remarks ++ [r] }

def forest : Growth Forest := return (← get).forest

def change (step : Forest → Forest) : Growth Unit :=
  modify fun d => { d with forest := step d.forest }

/-! ## Placing -/

def place (node : Node) : Growth NodeId := do
  let id : NodeId := ⟨(← forest).nodes.size⟩
  change fun f => { f with nodes := f.nodes.push node }
  return id

def placeShape (shape : Shape) : Growth NodeId := place ⟨shape, none, none⟩

def placeBinding (binding : Binding) : Growth BindingId := do
  let id : BindingId := ⟨(← forest).bindings.size⟩
  change fun f => { f with bindings := f.bindings.push binding }
  return id

def placeTable : Growth TableId := do
  let id : TableId := ⟨(← forest).tables.size⟩
  change fun f => { f with tables := f.tables.push ⟨[], none, none⟩ }
  return id

def changeNode (id : NodeId) (step : Node → Node) : Growth Unit :=
  change fun f => { f with nodes := f.nodes.modify id.index step }

def changeTable (id : TableId) (step : Table → Table) : Growth Unit :=
  change fun f => { f with tables := f.tables.modify id.index step }

/-- the node around another one is set; what is no node has none around it -/
def adopt (parent : NodeId) : Ref → Growth Unit
  | .node child => changeNode child fun n => { n with parent := some parent }
  | _ => pure ()

def adoptAll (parent : NodeId) : List Ref → Growth Unit
  | [] => pure ()
  | child :: rest => do
    adopt parent child
    adoptAll parent rest

/-! ## Nodes -/

def newNumber (amount : Amount) (kind : Kind) : Growth NodeId :=
  placeShape (.number (.make amount kind))

def newSymbol (ident : String) : Growth NodeId := placeShape (.symbol ident)

/-- a count of operands against a built-in operator: too few are a fault, surplus ones a remark -/
def checkOperands (b : Builtin) (count : Int) : Except Fault (Option Remark) :=
  if count < b.arity.least then .error (.tooFewOperands b.name b.arity.least count)
  else match b.arity.most? with
    | some most =>
      if most < count then .ok (some (.surplusOperands b.name most count)) else .ok none
    | none => .ok none

theorem checkOperands_eq_error {b : Builtin} {count : Int} {fault : Fault}
    (h : checkOperands b count = .error fault) :
    count < b.arity.least ∧ fault = .tooFewOperands b.name b.arity.least count := by
  unfold checkOperands at h
  split at h
  · next hlt =>
    cases h
    exact ⟨hlt, rfl⟩
  · split at h
    · split at h <;> cases h
    · cases h

theorem checkOperands_eq_some {b : Builtin} {count : Int} {r : Remark}
    (h : checkOperands b count = .ok (some r)) :
    ∃ most, b.arity.most? = some most ∧ most < count ∧ r = .surplusOperands b.name most count := by
  unfold checkOperands at h
  split at h
  · cases h
  · split at h
    · next most hmost =>
      split at h
      · next hlt =>
        cases h
        exact ⟨most, hmost, hlt, rfl⟩
      · cases h
    · cases h

def newCall (name : String) (operands : List Ref) : Growth NodeId := do
  let operator := Operator.ofName name
  match operator with
  | .builtin b =>
    match ← (checkOperands b operands.length : Except Fault (Option Remark)) with
    | some r => remark r
    | none => pure ()
  | .custom => pure ()
  let ident := if operator = .custom then some name else none
  let id ← placeShape (.call operator ident operands true)
  adoptAll id operands
  return id

def newRawCall (operator : Operator) (ident : Option String) (operands : List Ref) :
    Growth NodeId :=
  placeShape (.call operator ident operands false)

def newChoice (test ifTrue ifFalse : Ref) : Growth NodeId := do
  let id ← placeShape (.choice test ifTrue ifFalse)
  adoptAll id [test, ifTrue, ifFalse]
  return id

/-! ## Bindings and tables -/

def newVariable (ident : String) (value : Ref) (kind : Option Kind) : Growth BindingId :=
  placeBinding ⟨ident, kind, value, .value⟩

/-- a remark for each parameter that occurs earlier in the list -/
def repeatedParameters (ident : String) : List String → List String → List Remark
  | _, [] => []
  | seen, p :: rest =>
    if seen.contains p then .repeatedParameter p ident :: repeatedParameters ident seen rest
    else repeatedParameters ident (p :: seen) rest

def remarkAll : List Remark → Growth Unit
  | [] => pure ()
  | r :: rest => do
    remark r
    remarkAll rest

def newFunction (ident : String) (body : Ref) (kind : Option Kind) (parameters : List String) :
    Growth BindingId := do
  remarkAll (repeatedParameters ident [] parameters)
  placeBinding ⟨ident, kind, body, .function parameters⟩

/-- a binding goes to the end of a table, even where its name is bound already; the bound node is
linked to the owner of the table -/
def insertInto (table : TableId) (binding : BindingId) : Growth Unit := do
  let f ← forest
  match f.binding? binding with
  | none => pure ()
  | some b => do
    if (f.find? table b.ident).isSome then remark (.conflictingDefinition b.ident)
    changeTable table fun t => { t with bindings := t.bindings ++ [binding] }
    match (f.table? table).bind (·.owner) with
    | some owner => adopt owner b.body
    | none => pure ()

def insert (table : Option TableId) (binding : BindingId) : Growth TableId := do
  let id ← match table with
    | some id => pure id
    | none => placeTable
  insertInto id binding
  return id

def insertAll (table : TableId) : List BindingId → Growth Unit
  | [] => pure ()
  | b :: rest => do
    insertInto table b
    insertAll table rest

def newTable (bindings : List BindingId) : Growth TableId := do
  let id ← placeTable
  insertAll id bindings
  return id

/-- a table becomes the outermost one of a node, and the bound nodes are linked to the node; a table
that another node owns is refused -/
def attach (node : NodeId) (table : TableId) : Growth Unit := do
  let f ← forest
  match (f.table? table).bind (·.owner) with
  | some owner => if owner ≠ node then throw .tableTaken
  | none => pure ()
  changeTable table fun t => { t with owner := some node }
  match (f.node? node).bind (·.scope) with
  | none => changeNode node fun n => { n with scope := some table }
  | some innermost =>
    if innermost ≠ table then
      match (f.tablesFrom (some innermost)).getLast? with
      | some outermost => changeTable outermost fun t => { t with enclosing := some table }
      | none => pure ()
  adoptAll node ((f.bindingsOf table).map (·.2.body))

end Growth

end Abacus
