import Abacus.Diagnostic
import Abacus.Evaluation.Env
import Abacus.Fault
import Abacus.Random.Twister

/-!
# Runs

What a run reads and changes: the rest of the input, the output, the reports, the generators, the
variables whose values are being found, the calls counted so far and the next serial number.  A run
ends with a result or a fault, and the state is kept in both cases.

* `State`, `Run`;
* `Run.report`, `Run.write`, `Run.fresh`, `Run.draw`;
* `Run.marked`      a run inside which a variable is marked as being found.
-/

namespace Abacus

structure Report where
  channel : Channel
  remark : Remark
  deriving DecidableEq

/-- a variable together with the frame in which it is bound -/
abbrev Mark := BindingId × Nat

structure State where
  input : List Char
  output : String
  reports : Array Report
  /-- the generators of random numbers -/
  generators : Array Generator
  /-- the variables whose values are being found -/
  active : List Mark
  /-- the calls put together by hand whose operands are counted, each with the root of its run -/
  counted : List (Nat × NodeId)
  /-- the next serial number of a frame -/
  next : Nat

def State.start (input : List Char) (generator : Generator) : State where
  input := input
  output := ""
  reports := #[]
  generators := #[generator]
  active := []
  counted := []
  next := 1

abbrev Run := ExceptT Fault (StateM State)

namespace Run

def result {α : Type} (act : Run α) (s : State) : Except Fault α × State := act.run.run s

def report (env : Env) (r : Remark) : Run Unit :=
  modify fun s => { s with reports := s.reports.push ⟨env.policy.channel, r⟩ }

def write (text : String) : Run Unit := modify fun s => { s with output := s.output ++ text }

def fresh : Run Nat := do
  let n := (← get).next
  modify fun s => { s with next := n + 1 }
  return n

def draw (env : Env) : Run Amount := do
  match (← get).generators[env.policy.source]? with
  | some g =>
    let (amount, g) := g.fraction
    modify fun s => { s with generators := s.generators.setIfInBounds env.policy.source g }
    return amount
  | none => return .zero false

def marked {α : Type} (mark : Mark) (act : Run α) : Run α :=
  ExceptT.mk fun s =>
    let (outcome, after) := act.result { s with active := mark :: s.active }
    (outcome, { after with active := after.active.erase mark })

end Run

end Abacus
