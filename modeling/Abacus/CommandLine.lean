import Abacus.Console.Session
import Abacus.Path

/-!
# The command line

The arguments ask for a session at the console or for one program, which is the content of a file,
the argument itself or the whole input.

* `Request`           what the arguments ask for;
* `Request.ofArguments`   the request of a row of arguments;
* `sourceOf`          the source that an argument stands for;
* `runMain`           the whole program.
-/

namespace Abacus

/-! ## Arguments -/

structure Request where
  console : Bool
  strict : Option Bool
  argument : Option String
  deriving DecidableEq, Repr

namespace Request

def ofArgumentsFrom (r : Request) : List String → Except Fault Request
  | [] => .ok r
  | a :: rest =>
    if a = "--repl" then ofArgumentsFrom { r with console := true } rest
    else if a = "--strict" then ofArgumentsFrom { r with strict := some true } rest
    else match r.argument with
      | none => ofArgumentsFrom { r with argument := some a } rest
      | some _ => .error (.argumentUnexpected a)

/-- the request of a row of arguments; a second program is refused where it stands -/
def ofArguments (arguments : List String) : Except Fault Request :=
  ofArgumentsFrom ⟨false, none, none⟩ arguments

end Request

/-! ## Sources -/

def unifyLineEnds : List Char → List Char
  | [] => []
  | '\r' :: '\n' :: cs => '\n' :: unifyLineEnds cs
  | '\r' :: cs => '\n' :: unifyLineEnds cs
  | c :: cs => c :: unifyLineEnds cs

/-- the source that an argument stands for, with the input that is left: the content of a file at
that path, else the argument itself; a dash or nothing stands for the whole input -/
def sourceOf (look : Path → Option Entity) (argument : Option String) (input : List Char) :
    Except Fault (String × List Char) :=
  match argument with
  | none => fromInput
  | some a =>
    if a = "-" then fromInput
    else if a.toList.contains (Char.ofNat 0) then .ok (a, input)
    else match (Path.ofText a).reach look with
      | .error fault => .error fault
      | .ok (some (.file content)) =>
        .ok (String.ofList (unifyLineEnds content.toList), input)
      | .ok (some .directory) => .error (.isDirectory (Path.ofText a).text)
      | .ok none => .ok (a, input)
where
  fromInput : Except Fault (String × List Char) :=
    if input.isEmpty then .error .sourceMissing else .ok (String.ofList input, [])

/-! ## The program -/

structure Finish where
  /-- the code with which it ended, or the fault that ended it -/
  code : Except Fault Nat
  shown : Shown
  left : Nat
  /-- the program asked for a number when the input had ended -/
  starved : Bool

/-- **The whole program** with its arguments, its input and the keys typed at a console -/
def runMain (w : Surroundings) (look : Path → Option Entity) (arguments : List String)
    (input : List Char) (keys : List Key) : Finish :=
  match Request.ofArguments arguments with
  | .error fault => ⟨.error fault, .nothing, keys.length, false⟩
  | .ok request =>
    if request.console then
      let ending := Console.session w request.strict input keys
      ⟨ending.outcome.map fun _ => 0, ending.shown, ending.left, false⟩
    else match sourceOf look request.argument input with
      | .error fault => ⟨.error fault, .nothing, keys.length, false⟩
      | .ok (source, rest) =>
        let run := runShown w ⟨request.strict, w.settings.trace⟩ source rest
        ⟨run.outcome.map fun ok => if ok then 0 else 1, run.shown, keys.length, run.starved⟩

end Abacus
