import Abacus.Forest.Basic

/-!
# Environments

An environment is a chain of frames.  A frame binds the parameters of a call to unevaluated
arguments, or points to the scope table of a node, and goes on in the frame around it; the chain
ends in a root, which carries the policy of the run.  Every frame has a serial number of its own.

* `Policy`          what a run does with names without a meaning, reports and random numbers;
* `Env`             the chain;
* `Env.lookup?`     what a name denotes in an environment, with the frame that binds it;
* `Env.bind`        parameters paired with arguments.
-/

namespace Abacus

inductive Channel where
  /-- to the sink that the caller gave -/
  | caller
  /-- to the sink used where none is given -/
  | surroundings
  deriving DecidableEq, Repr

structure Policy where
  /-- a name without a meaning stops the run -/
  strict : Bool
  /-- a variable whose value needs the variable itself stops the run -/
  guarded : Bool := true
  /-- places after the point of printed floating-point numbers -/
  places : Nat := 6
  channel : Channel := .caller
  /-- which generator random numbers are drawn from -/
  source : Nat := 0
  deriving DecidableEq, Repr

inductive Env where
  | root (serial : Nat) (policy : Policy)
  | frame (serial : Nat) (label : Option String) (parameters : List (String × Ref × Env))
      (table : Option TableId) (parent : Env)

/-- an argument with the environment in which it is evaluated -/
abbrev Thunk := Ref × Env

namespace Env

/-! ## Parts -/

def serial : Env → Nat
  | .root n _ => n
  | .frame n .. => n

def depth : Env → Nat
  | .root .. => 0
  | .frame _ _ _ _ parent => parent.depth + 1

def policy : Env → Policy
  | .root _ policy => policy
  | .frame _ _ _ _ parent => parent.policy

def context : Env → Nat
  | .root n _ => n
  | .frame _ _ _ _ parent => parent.context

def chain : Env → List Env
  | .root n policy => [.root n policy]
  | .frame n label parameters table parent => .frame n label parameters table parent :: parent.chain

def label? : Env → Option String
  | .root .. => none
  | .frame _ label _ _ _ => label

def names (f : Forest) : Env → List String
  | .root .. => []
  | .frame _ _ parameters table _ =>
    parameters.map (·.1) ++ ((table.map f.idents).getD [])

@[simp] theorem policy_frame (n : Nat) (label : Option String)
    (parameters : List (String × Ref × Env)) (table : Option TableId) (parent : Env) :
    (frame n label parameters table parent).policy = parent.policy := rfl

@[simp] theorem context_frame (n : Nat) (label : Option String)
    (parameters : List (String × Ref × Env)) (table : Option TableId) (parent : Env) :
    (frame n label parameters table parent).context = parent.context := rfl

/-! ## Lookup -/

inductive Found where
  | thunk (ref : Ref) (env : Env)
  | binding (id : BindingId) (binding : Binding)

def here? (f : Forest) (ident : String) : Env → Option Found
  | .root .. => none
  | .frame _ _ parameters table _ =>
    match parameters.lookup ident with
    | some (ref, env) => some (.thunk ref env)
    | none => (table.bind (f.find? · ident)).map fun (id, b) => .binding id b

/-- **What a name denotes**, with the frame that binds it: the parameters of a frame, then its table,
then the frames around -/
def lookup? (f : Forest) (ident : String) : Env → Option (Found × Env)
  | .root .. => none
  | .frame n label parameters table parent =>
    let env : Env := .frame n label parameters table parent
    match env.here? f ident with
    | some found => some (found, env)
    | none => parent.lookup? f ident

/-! ## Binding parameters -/

/-- a name is set in a list; a name that is there keeps its place -/
def setName {α : Type} (name : String) (x : α) : List (String × α) → List (String × α)
  | [] => [(name, x)]
  | (other, y) :: rest =>
    if other = name then (other, x) :: rest else (other, y) :: setName name x rest

/-- parameters set to arguments in turn, so that of a repeated parameter the last argument counts -/
def bindFrom (caller : Env) (bound : List (String × Thunk)) :
    List String → List Ref → List (String × Thunk)
  | name :: names, ref :: refs => bindFrom caller (setName name (ref, caller) bound) names refs
  | _, _ => bound

def bind (caller : Env) (names : List String) (refs : List Ref) : List (String × Thunk) :=
  bindFrom caller [] names refs

end Env

end Abacus
