import Abacus.Console.Slash
import Abacus.Program
import Abacus.Settings

/-!
# The console

Programs are entered one after the other.  Each is run on its own: nothing but the two switches and
the rest of the input passes from one entry to the next.

* `Surroundings`      what a run finds outside of it;
* `runShown`          the run of a source with what it shows;
* `Console.enter`     one entry;
* `Console.answer`    what is answered to what the prompt gives;
* `Console.session`   the keys of a whole session.
-/

namespace Abacus

/-! ## Running and showing -/

structure Surroundings where
  settings : Settings
  /-- the seed of random numbers where none is set -/
  chance : Int
  /-- the text by which a trace of a fault is shown -/
  traceOf : Fault → String
  /-- the text by which the screen is cleared -/
  clearScreen : String
  /-- the text by which an entry is shown after it is typed -/
  echo : String → String

def Surroundings.generator (w : Surroundings) : Generator :=
  .ofSeed (w.settings.seed.getD w.chance)

/-- the policy of a run, strict as said or else as set -/
def Surroundings.policy (w : Surroundings) (strict : Option Bool) : Policy where
  strict := strict.getD w.settings.strict
  places := w.settings.places

def reportFault (w : Surroundings) (trace : Bool) (fault : Fault) : String :=
  "Error: " ++ fault.message ++ "\n" ++
    (if trace then "\nPython traceback:\n" ++ w.traceOf fault else "")

def written (quiet : Bool) (remarks : List Remark) : String :=
  (remarks.foldl (fun sink r => sink.emit r.diagnostic) (Sink.standard quiet)).written

/-- the run of a source with what it shows: the printed value, or the report of a fault of the
program.  A fault of the surroundings is passed on. -/
structure Showing where
  /-- whether the program ended with a value; or the fault that is passed on -/
  outcome : Except Fault Bool
  shown : Shown
  rest : List Char
  /-- the program asked for a number when the input had ended -/
  starved : Bool

def runShown (w : Surroundings) (switches : Switches) (source : String) (input : List Char) :
    Showing :=
  let policy := w.policy switches.strict
  let run := runSource policy source input w.generator
  let errors := written w.settings.quiet run.remarks
  match run.value.bind (Value.render policy.places) with
  | .ok text => ⟨.ok true, ⟨run.output ++ text ++ "\n", errors⟩, run.rest, false⟩
  | .error fault =>
    let starved := fault == .inputEnd
    if fault.isReported then
      let report := reportFault w switches.trace fault
      ⟨.ok false, ⟨run.output, errors ++ report⟩, run.rest, starved⟩
    else ⟨.error fault, ⟨run.output, errors⟩, run.rest, starved⟩

/-! ## Entries -/

structure Console where
  switches : Switches
  input : List Char

namespace Console

def banner : String := "numlisp repl (Ctrl-D to exit, / for commands)\n"

def promptText : String := "> "

structure Step where
  /-- the console after it, or the fault that leaves the console -/
  next : Except Fault Console
  shown : Shown
  /-- the program asked for a number when the input had ended -/
  starved : Bool

/-- one entry: blank ones do nothing, commands set switches, all others are run -/
def enter (w : Surroundings) (c : Console) (typed : String) : Step :=
  let text := normalize typed
  if (strip text).isEmpty then ⟨.ok c, .nothing, false⟩
  else match slash w.clearScreen text c.switches with
    | some (switches, shown) => ⟨.ok { c with switches := switches }, shown, false⟩
    | none =>
      let run := runShown w c.switches text c.input
      ⟨run.outcome.map fun _ => { c with input := run.rest }, run.shown, run.starved⟩

def answer (w : Surroundings) (c : Console) : Prompted → Step
  | .interrupted => ⟨.ok c, ⟨"KeyboardInterrupt\n", ""⟩, false⟩
  | .typed text =>
    let step := c.enter w text
    { step with shown := ⟨w.echo text, ""⟩ ++ step.shown }

theorem next_answer_typed (w : Surroundings) (c : Console) (text : String) :
    (c.answer w (.typed text)).next = (c.enter w text).next := by
  simp only [answer]

theorem shown_answer_typed (w : Surroundings) (c : Console) (text : String) :
    (c.answer w (.typed text)).shown = ⟨w.echo text, ""⟩ ++ (c.enter w text).shown := by
  simp only [answer]

structure Ending where
  /-- a fault that left the console, if any -/
  outcome : Except Fault Console
  shown : Shown
  left : Nat

def Ending.after (shown : Shown) (e : Ending) : Ending := { e with shown := shown ++ e.shown }

/-- a session from a prompt on, with what is typed there already -/
def sessionFrom (w : Surroundings) (c : Console) (buffer : String) : List Key → Ending
  | [] => ⟨.ok c, ⟨"\n", ""⟩, 0⟩
  | key :: rest =>
    match press buffer key with
    | .goesOn buffer => sessionFrom w c buffer rest
    | .leaves => ⟨.ok c, ⟨"\n", ""⟩, rest.length⟩
    | .gives prompted =>
      let step := c.answer w prompted
      match step.next with
      | .error fault => ⟨.error fault, step.shown, rest.length⟩
      | .ok c => (sessionFrom w c "" rest).after (step.shown ++ ⟨promptText, ""⟩)

/-- **The keys of a whole session** -/
def session (w : Surroundings) (strict : Option Bool) (input : List Char) (keys : List Key) :
    Ending :=
  (sessionFrom w ⟨⟨strict, w.settings.trace⟩, input⟩ "" keys).after ⟨banner ++ promptText, ""⟩

end Console

end Abacus
