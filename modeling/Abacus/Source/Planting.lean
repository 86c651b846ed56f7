import Abacus.Amount.Numeral
import Abacus.Forest.Growth
import Abacus.Source.Parser

/-!
# Planting forms

A form becomes nodes, from the leaves up and left to right: the parts of a construct first, then the
construct with its remarks.  A scoped form becomes the node of its body with one more table on it.

* `plantForm`, `plantDefinition`   the nodes of a form and the binding of a definition;
* `plantSource`                    the nodes of a source.
-/

namespace Abacus

open Growth

/-- the kind that the type of a definition names; an unknown one is remarked on and left out -/
def plantType : Option String → Growth (Option Kind)
  | none => pure none
  | some name =>
    match Kind.ofName? name with
    | some kind => pure (some kind)
    | none => do
      remark (.unknownType name)
      return none

/-- the bindings go to one new table in turn, which is attached to the node -/
def plantScope (body : NodeId) (bindings : List BindingId) : Growth Unit := do
  if bindings.isEmpty then return
  let table ← newTable bindings
  attach body table

mutual

def plantForm : Form → Growth NodeId
  | .numeral kind text => newNumber (.ofNumeral text) kind
  | .symbol name => newSymbol name
  | .call name operands => do
    let nodes ← plantForms operands
    newCall name (nodes.map .node)
  | .choice test ifTrue ifFalse => do
    let test ← plantForm test
    let ifTrue ← plantForm ifTrue
    let ifFalse ← plantForm ifFalse
    newChoice (.node test) (.node ifTrue) (.node ifFalse)
  | .scoped definitions body => do
    let bindings ← plantDefinitions definitions
    let body ← plantForm body
    plantScope body bindings
    return body

def plantForms : List Form → Growth (List NodeId)
  | [] => pure []
  | form :: rest => do
    let node ← plantForm form
    let nodes ← plantForms rest
    return node :: nodes

def plantDefinition : Definition → Growth BindingId
  | .value name body type => do
    let node ← plantForm body
    let kind ← plantType type
    newVariable name (.node node) kind
  | .function name parameters body type => do
    let node ← plantForm body
    let kind ← plantType type
    newFunction name (.node node) kind parameters

def plantDefinitions : List Definition → Growth (List BindingId)
  | [] => pure []
  | definition :: rest => do
    let binding ← plantDefinition definition
    let bindings ← plantDefinitions rest
    return binding :: bindings

end

/-- **The node of a source.**  A syntactic fault comes before anything is planted. -/
def plantSource (source : String) : Growth NodeId := do
  let form ← (parseForm source.toList : Except Fault Form)
  plantForm form

end Abacus
