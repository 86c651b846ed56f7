import Abacus.CommandLine

/-!
# The executable

Reads the variables, the arguments and the input, and prints what the program shows.  A run that
asks for more input than there is yet is repeated with one more line: runs are determined by their
input, so the longer run shows all that the shorter one did, and only the rest is printed.

* `main`   the entry point.
-/

namespace Abacus

attribute [local instance] ownPow

def settingNames : List String :=
  ["NUMLISP_STRICT", "NUMLISP_QUIET", "NUMLISP_DEBUG_PY_TRACE", "NUMLISP_FLOAT_PRECISION",
    "NUMLISP_SEED"]

def readSettings : IO Settings := do
  let pairs ← settingNames.filterMapM fun name => do
    return (← IO.getEnv name).map (name, ·)
  return Settings.read fun name => pairs.lookup name

def atTerminal (settings : Settings) (chance : Nat) : Surroundings where
  settings := settings
  chance := chance
  traceOf fault := "  " ++ fault.cause ++ "\n"
  clearScreen := "\x1b[2J\x1b[H"
  echo _ := ""

def unseen (n : Nat) (s : String) : String := (s.drop n).toString

def printNew (seen : Shown) (now : Shown) : IO Unit := do
  IO.print (unseen seen.output.length now.output)
  IO.eprint (unseen seen.errors.length now.errors)
  (← IO.getStdout).flush

/-- a run, repeated with one more line of input as long as it asks for one -/
partial def withInput {α : Type} (shown : α → Shown) (starved : α → Bool)
    (run : List Char → α) (input : String) (seen : Shown) : IO α := do
  let result := run input.toList
  if starved result then
    let now : Shown := ⟨(shown result).output, ""⟩
    printNew seen now
    let line ← (← IO.getStdin).getLine
    if line.isEmpty then
      printNew now (shown result)
      return result
    withInput shown starved run (input ++ line) ⟨now.output, seen.errors⟩
  else
    printNew seen (shown result)
    return result

partial def prompt (w : Surroundings) (c : Console) (buffer : String) : IO UInt32 := do
  let line ← (← IO.getStdin).getLine
  let key : Key := if line.isEmpty then .leave else .enter (line.dropEndWhile (· == '\n')).toString
  match press buffer key with
  | .goesOn buffer => prompt w c buffer
  | .leaves =>
    IO.println ""
    return 0
  | .gives prompted =>
    let step ← withInput Console.Step.shown Console.Step.starved
      (fun input => Console.answer w { c with input := input } prompted) "" .nothing
    match step.next with
    | .error fault =>
      IO.eprintln fault.message
      return 1
    | .ok c =>
      IO.print Console.promptText
      (← IO.getStdout).flush
      prompt w c ""

partial def readAll (soFar : String) : IO String := do
  let line ← (← IO.getStdin).getLine
  if line.isEmpty then return soFar
  readAll (soFar ++ line)

/-- what stands at a path; a directory is known by refusing to be read -/
def entityAt (path : String) : IO (Option Entity) := do
  match ← (IO.FS.readFile path).toBaseIO with
  | .ok content => return some (.file content)
  | .error (.inappropriateType ..) => return some .directory
  | .error _ => return none

def lookAlong (argument : Option String) : IO (Path → Option Entity) := do
  match argument with
  | none => return fun _ => none
  | some a =>
    let known ← (Path.ofText a).stages.mapM fun p => do return (p, ← entityAt p.text)
    return fun p => (known.lookup p).join

def runProcess (arguments : List String) : IO UInt32 := do
  let w := atTerminal (← readSettings) (← IO.rand 0 (2 ^ (31 : Nat) - 1))
  match Request.ofArguments arguments with
  | .error fault =>
    IO.eprintln fault.message
    return 1
  | .ok request =>
    if request.console then
      IO.print (Console.banner ++ Console.promptText)
      (← IO.getStdout).flush
      prompt w ⟨⟨request.strict, w.settings.trace⟩, []⟩ ""
    else
      let look ← lookAlong request.argument
      let whole := request.argument.isNone || request.argument == some "-"
      let input ← if whole then readAll "" else pure ""
      let finish ← withInput Finish.shown Finish.starved
        (fun input => runMain w look arguments input []) input .nothing
      match finish.code with
      | .ok code => return code.toUInt32
      | .error fault =>
        IO.eprintln fault.message
        return 1

end Abacus

def main (arguments : List String) : IO UInt32 := Abacus.runProcess arguments
