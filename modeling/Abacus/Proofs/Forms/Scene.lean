import Abacus.Evaluation.Evaluate
import Abacus.Source.Form

/-!
# The values of forms

A form has a value of its own, without nodes and serial numbers: names are looked up in a scene, in
which the scopes and calls around the form stand with their definitions and arguments, and with the
variables whose values are being found.

* `Scene`             what stands around a form when it is evaluated;
* `Meaning`           what a name means in a scene;
* `Scene.find?`       the meaning of a name;
* `formValue`         the value of a form, given those of the forms evaluated for it;
* `evalForm`          the value of a form, to a limited depth.
-/

namespace Abacus

open Run

/-! ## Scenes -/

inductive Scene where
  | top
  /-- inside a scope, in which the values of some names are being found -/
  | scope (definitions : List Definition) (finding : List String) (around : Scene)
  /-- inside the body of a function that is called with arguments from another scene -/
  | call (arguments : List (String × Form)) (caller around : Scene)

/-- what a name means, with the scene in which its form is evaluated -/
inductive Meaning where
  | argument (form : Form) (caller : Scene)
  /-- a variable; a busy one has its value being found -/
  | value (body : Form) (type : Option String) (busy : Bool) (inside : Scene)
  | function (parameters : List String) (body : Form) (type : Option String) (inside : Scene)

def Definition.meaning (definitions : List Definition) (finding : List String) (around : Scene) :
    Definition → Meaning
  | .value name body type =>
    .value body type (finding.contains name) (.scope definitions (name :: finding) around)
  | .function _ parameters body type =>
    .function parameters body type (.scope definitions finding around)

/-- **The meaning of a name**: the first definition in the innermost scope, or the argument of the
innermost call, that has the name -/
def Scene.find? (name : String) : Scene → Option Meaning
  | .top => none
  | .scope definitions finding around =>
    match definitions.find? (·.name == name) with
    | some definition => some (definition.meaning definitions finding around)
    | none => around.find? name
  | .call arguments caller around =>
    match arguments.lookup name with
    | some form => some (.argument form caller)
    | none => around.find? name

/-! ## Evaluation -/

abbrev FormEvaluator := Form → Scene → Run Value

section
variable (policy : Policy) (ev : FormEvaluator) (scene : Scene)

def symbolValue (name : String) : Run Value :=
  match scene.find? name with
  | none => unresolved (.root 0 policy) name (.undefinedSymbol name)
  | some (.argument form caller) => ev form caller
  | some (.value body type busy inside) =>
    (if busy then throw (.circular name) else ev body inside) >>=
      coerce (.root 0 policy) (type.bind Kind.ofName?) name
  | some (.function ..) => throw (.notVariable name)

/-- the arguments of a call under the names of parameters, the last of a repeated one first -/
def pairArguments (parameters : List String) (operands : List Form) : List (String × Form) :=
  (parameters.zip operands).reverse

def callValue (name : String) (operands : List Form) : Run Value :=
  match scene.find? name with
  | none => unresolved (.root 0 policy) name (.undefinedFunction name)
  | some (.function parameters body type inside) => do
    checkArguments (.root 0 policy) name parameters.length operands.length
    let value ← ev body (.call (pairArguments parameters operands) scene inside)
    coerce (.root 0 policy) (type.bind Kind.ofName?) name value
  | some _ => throw (.notFunction name)

def operandValues : List Form → Run (List Value)
  | [] => pure []
  | form :: rest => do
    let value ← ev form scene
    let values ← operandValues rest
    return value :: values

def printedValue : Value → List Form → Run Value
  | last, [] => pure last
  | _, form :: rest => do
    let value ← ev form scene
    let text ← (value.render policy.places : Except Fault String)
    write (text ++ "\n")
    printedValue value rest

def builtinValue (b : Builtin) (operands : List Form) : Run Value :=
  if b.isLazy then printedValue policy ev scene none operands
  else do
    let values ← operandValues ev scene ((b.arity.most?.map operands.take).getD operands)
    match present? values with
    | some args => applyBuiltin b (.root 0 policy) args
    | none => return none

def choiceValue (test ifTrue ifFalse : Form) : Run Value := do
  match ← ev test scene with
  | none => return none
  | some v => if v.amount.isZero then ev ifFalse scene else ev ifTrue scene

end

/-- the value of a form, given the values of the forms that are evaluated for it; a scope is not
evaluated itself, but stands around its body -/
def formValue (policy : Policy) (ev : FormEvaluator) : FormEvaluator
  | .numeral kind text, _ => pure (some (.make (.ofNumeral text) kind))
  | .symbol name, scene => symbolValue policy ev scene name
  | .call name operands, scene =>
    match Builtin.ofName? name with
    | some b => builtinValue policy ev scene b operands
    | none => callValue policy ev scene name operands
  | .choice test ifTrue ifFalse, scene => choiceValue ev scene test ifTrue ifFalse
  | .scoped definitions body, scene => formValue policy ev body (.scope definitions [] scene)

/-- **The value of a form in a scene**, with at most so many evaluations inside one another -/
def evalForm (policy : Policy) : Nat → FormEvaluator
  | 0, _, _ => throw .tooDeep
  | limit + 1, form, scene => formValue policy (evalForm policy limit) form scene

theorem evalForm_scoped (policy : Policy) (limit : Nat) (definitions : List Definition)
    (body : Form) (scene : Scene) : evalForm policy limit (.scoped definitions body) scene
      = evalForm policy limit body (.scope definitions [] scene) := by
  cases limit with
  | zero => rfl
  | succ limit => rw [evalForm, formValue, evalForm]

theorem evalForm_call {name : String} (h : Builtin.ofName? name = none) (policy : Policy)
    (limit : Nat) (operands : List Form) (scene : Scene) :
    evalForm policy (limit + 1) (.call name operands) scene
      = callValue policy (evalForm policy limit) scene name operands := by
  simp only [evalForm, formValue, h]

theorem evalForm_builtin {name : String} {b : Builtin} (h : Builtin.ofName? name = some b)
    (policy : Policy) (limit : Nat) (operands : List Form) (scene : Scene) :
    evalForm policy (limit + 1) (.call name operands) scene
      = builtinValue policy (evalForm policy limit) scene b operands := by
  simp only [evalForm, formValue, h]

end Abacus
