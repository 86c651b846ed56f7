import Abacus.Display
import Abacus.Evaluation.Prompt
import Abacus.Evaluation.Run
import Abacus.Forest.Growth
import Abacus.Operation

/-!
# Evaluation

The value of a node in an environment, by name: a parameter is evaluated again, where the call was
made, each time it is referred to.  A node that owns tables is evaluated inside one new frame for
each of them, the outermost first.  A function is called in a frame inside the one that holds its
definition.  The depth of nested evaluations is limited.

* `enter`             the frames for the tables of a node;
* `evalSymbol`, `evalVariable`   a name, and a variable found in a table;
* `evalCall`          a call of a function of the program;
* `evalBuiltin`       a call of a built-in operator;
* `evalChoice`        a conditional;
* `evalNode`          a node, to a limited depth;
* `evaluate`          a node, to the depth that programs run with.
-/

namespace Abacus

open Run

abbrev Evaluator := Ref → Env → Run Value

/-! ## Frames -/

/-- one new frame for each table, the first of them outermost -/
def pushTables : List TableId → Env → Run Env
  | [], env => pure env
  | table :: inner, env => do
    let serial ← fresh
    pushTables inner (.frame serial none [] (some table) env)

def enter (f : Forest) (node : Node) (env : Env) : Run Env :=
  pushTables (f.tablesOf node).reverse env

/-! ## Declared kinds -/

/-- a value as a declared kind has it; a floating-point number made an integer is reported -/
def coerce (env : Env) (declared : Option Kind) (ident : String) (value : Value) : Run Value :=
  match declared, value with
  | some kind, some v =>
    if v.kind = kind then pure (some v)
    else do
      if kind = .int then report env (.precisionLoss v.amount ident)
      return some (.make v.amount kind)
  | _, _ => pure value

/-! ## Names -/

/-- a name without a meaning: a fault in a strict run, else a report and a missing value -/
def unresolved (env : Env) (ident : String) (r : Remark) : Run Value :=
  if env.policy.strict then throw (.unresolved ident)
  else do
    report env r
    return none

/-- the value of a variable in the frame that binds it; needing it again before it is found is a
fault -/
def evalVariable (ev : Evaluator) (id : BindingId) (b : Binding) (owner : Env) : Run Value := do
  let mark : Mark := (id, owner.serial)
  let value ←
    if owner.policy.guarded then do
      if (← get).active.contains mark then throw (.circular b.ident)
      marked mark (ev b.body owner)
    else ev b.body owner
  coerce owner b.kind b.ident value

def evalSymbol (f : Forest) (ev : Evaluator) (ident : String) (env : Env) : Run Value :=
  match env.lookup? f ident with
  | none => unresolved env ident (.undefinedSymbol ident)
  | some (.thunk ref caller, _) => ev ref caller
  | some (.binding id b, owner) =>
    match b.role with
    | .value => evalVariable ev id b owner
    | .function _ => throw (.notVariable ident)

/-! ## Calls of functions -/

def checkArguments (env : Env) (ident : String) (expected count : Nat) : Run Unit :=
  if count < expected then throw (.tooFewArguments ident expected count)
  else if expected < count then report env (.surplusArguments ident expected count)
  else pure ()

def applyFunction (ev : Evaluator) (b : Binding) (parameters : List String) (operands : List Ref)
    (owner env : Env) : Run Value := do
  checkArguments env b.ident parameters.length operands.length
  let serial ← fresh
  let activation : Env :=
    .frame serial (some b.ident) (Env.bind env parameters operands) none owner
  let value ← ev b.body activation
  coerce env b.kind b.ident value

def evalCall (f : Forest) (ev : Evaluator) (ident : Option String) (operands : List Ref)
    (env : Env) : Run Value :=
  match ident with
  | none => throw .namelessCall
  | some name =>
    match env.lookup? f name with
    | none => unresolved env name (.undefinedFunction name)
    | some (.thunk .., _) => throw (.notFunction name)
    | some (.binding _ b, owner) =>
      match b.role with
      | .value => throw (.notFunction name)
      | .function parameters => applyFunction ev b parameters operands owner env

/-! ## Calls of built-in operators -/

/-- the operands of a call put together by hand are counted once in a run -/
def countOperands (id : NodeId) (b : Builtin) (count : Int) (env : Env) : Run Unit := do
  let key := (env.context, id)
  if (← get).counted.contains key then return
  match Growth.checkOperands b count with
  | .error fault => throw fault
  | .ok none => pure ()
  | .ok (some r) => report env r
  modify fun s => { s with counted := key :: s.counted }

/-- the values of operands, left to right; all of them, even after a missing one -/
def evalOperands (ev : Evaluator) (env : Env) : List Ref → Run (List Value)
  | [] => pure []
  | ref :: rest => do
    let value ← ev ref env
    let values ← evalOperands ev env rest
    return value :: values

def present? : List Value → Option (List Number)
  | [] => some []
  | value :: rest =>
    match value, present? rest with
    | some v, some vs => some (v :: vs)
    | _, _ => none

def readNumber (env : Env) : Run Value := do
  let answer := awaitNumber (← get).input
  modify fun s => { s with input := answer.rest }
  write answer.prompts
  answer.refused.forM fun line => report env (.invalidLine (strip (String.ofList line)))
  match answer.amount with
  | some amount => return some (.make amount .float)
  | none => throw .inputEnd

def applyBuiltin (b : Builtin) (env : Env) (args : List Number) : Run Value :=
  match b with
  | .read => readNumber env
  | .rand => do
    let amount ← draw env
    return some (.make amount .float)
  | _ =>
    match rule? b with
    | some rule => return some (← (rule.apply args : Except Fault Number))
    | none => return none

/-- operands printed one by one, each on a line right after it is evaluated; the last value -/
def printOperands (ev : Evaluator) (env : Env) : Value → List Ref → Run Value
  | last, [] => pure last
  | _, ref :: rest => do
    let value ← ev ref env
    let text ← (value.render env.policy.places : Except Fault String)
    write (text ++ "\n")
    printOperands ev env value rest

def usedOperands (b : Builtin) (operands : List Ref) : List Ref :=
  match b.arity.most? with
  | some most => operands.take most
  | none => operands

/-- the value of a call of a built-in operator; missing as soon as one operand is, except for the
operator that prints -/
def evalBuiltin (ev : Evaluator) (id : NodeId) (b : Builtin) (operands : List Ref) (checked : Bool)
    (env : Env) : Run Value := do
  if !checked then countOperands id b operands.length env
  if b.isLazy then printOperands ev env none operands
  else
    let values ← evalOperands ev env (usedOperands b operands)
    match present? values with
    | some args => applyBuiltin b env args
    | none => return none

/-! ## Nodes -/

/-- the value of a conditional: of the third part if the first is zero, else of the second -/
def evalChoice (ev : Evaluator) (test ifTrue ifFalse : Ref) (env : Env) : Run Value := do
  match ← ev test env with
  | none => return none
  | some v => if v.amount.isZero then ev ifFalse env else ev ifTrue env

def evalShape (f : Forest) (ev : Evaluator) (id : NodeId) (shape : Shape) (env : Env) :
    Run Value :=
  match shape with
  | .number v => pure (some v)
  | .symbol ident => evalSymbol f ev ident env
  | .call .custom ident operands _ => evalCall f ev ident operands env
  | .call (.builtin b) _ operands checked => evalBuiltin ev id b operands checked env
  | .choice test ifTrue ifFalse => evalChoice ev test ifTrue ifFalse env

/-- **The value of a node**, with at most so many evaluations inside one another -/
def evalNode (f : Forest) : Nat → Evaluator
  | 0, _, _ => throw .tooDeep
  | limit + 1, ref, env =>
    match ref with
    | .absent => pure none
    | .foreign typeName _ => throw (.notNode typeName)
    | .node id =>
      match f.node? id with
      | none => pure none
      | some node => do
        let inner ← enter f node env
        evalShape f (evalNode f limit) id node.shape inner

def depthLimit : Nat := 1000

def evaluate (f : Forest) (ref : Ref) (env : Env) : Run Value := evalNode f depthLimit ref env

end Abacus
