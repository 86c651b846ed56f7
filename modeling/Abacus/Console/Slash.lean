import Abacus.Console.Entry
import Abacus.Text.Case

/-!
# Commands of the console

The commands that begin with a slash: clearing the screen, and two switches that are set by a word
or turned over without one.

* `Command`          the commands, with the text that describes them;
* `completions`      the commands that begin with what is typed;
* `toggle`           a switch after its argument;
* `Switches`         the two switches;
* `slash`            a line as a command.
-/

namespace Abacus

/-! ## Commands and their completion -/

inductive Command where
  | clear
  | trace
  | strict
  deriving DecidableEq, Repr

namespace Command

def all : List Command := [.clear, .trace, .strict]

def word : Command → String
  | .clear => "/clear"
  | .trace => "/py-traceback"
  | .strict => "/strict"

def description : Command → String
  | .clear => "Clear the terminal screen"
  | .trace => "Toggle Python traceback on errors"
  | .strict => "Toggle raising on undefined symbols"

def usage (c : Command) : String := "Usage: " ++ c.word ++ " [on|off]\n"

/-- what a switch is called when it is announced -/
def title : Command → String
  | .clear => ""
  | .trace => "Python traceback"
  | .strict => "Strict symbols"

end Command

structure Completion where
  text : String
  /-- where what is typed begins, counted back from its end -/
  start : Int
  description : String
  deriving DecidableEq, Repr

def completions (typed : String) : List Completion :=
  if startsWithSlash typed then
    (Command.all.filter fun c => typed.toList.isPrefixOf c.word.toList).map fun c =>
      ⟨c.word, -(typed.length : Int), c.description⟩
  else []

/-! ## Switches -/

def onWords : List String := ["on", "1", "true", "yes"]

def offWords : List String := ["off", "0", "false", "no"]

/-- a switch after its argument: set by a word, turned over by none, left alone by another -/
def toggle (argument : String) (current : Bool) : Option Bool :=
  let word := lowered argument
  if onWords.contains word then some true
  else if offWords.contains word then some false
  else if word.isEmpty then some (!current)
  else none

structure Switches where
  /-- strict or not, where it has been said -/
  strict : Option Bool
  trace : Bool
  deriving DecidableEq, Repr

structure Shown where
  output : String
  errors : String
  deriving DecidableEq, Repr

def Shown.nothing : Shown := ⟨"", ""⟩

instance : Append Shown := ⟨fun a b => ⟨a.output ++ b.output, a.errors ++ b.errors⟩⟩

theorem Shown.append_assoc (a b c : Shown) : a ++ b ++ c = a ++ (b ++ c) := by
  show Shown.mk (a.output ++ b.output ++ c.output) (a.errors ++ b.errors ++ c.errors) = _
  rw [String.append_assoc, String.append_assoc]
  rfl

theorem Shown.append_nothing (a : Shown) : a ++ .nothing = a := by
  show Shown.mk (a.output ++ "") (a.errors ++ "") = a
  rw [String.append_empty, String.append_empty]

def announce (c : Command) (flag : Bool) : Shown :=
  ⟨c.title ++ ": " ++ (if flag then "on" else "off") ++ "\n", ""⟩

/-- a line that begins with a slash, after blanks, as a command: the switches after it and what it
shows.  Any other line is no command. -/
def slash (clearScreen : String) (line : String) (switches : Switches) :
    Option (Switches × Shown) :=
  let stripped := strip line
  if startsWithSlash stripped then
    let (word, argument) := firstWord stripped
    match Command.all.find? (·.word == word) with
    | none => some (switches, ⟨"", "Unknown command: " ++ word ++ "\n"⟩)
    | some .clear => some (switches, ⟨clearScreen, ""⟩)
    | some .trace =>
      match toggle argument switches.trace with
      | some flag => some ({ switches with trace := flag }, announce .trace flag)
      | none => some (switches, ⟨"", Command.trace.usage⟩)
    | some .strict =>
      match toggle argument (switches.strict.getD false) with
      | some flag => some ({ switches with strict := some flag }, announce .strict flag)
      | none => some (switches, ⟨"", Command.strict.usage⟩)
  else none

end Abacus
