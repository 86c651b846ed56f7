import Abacus.Number
import Abacus.Text.Blank
import Abacus.Text.Digit

/-!
# Settings

The settings come from five variables of the surroundings.  A flag is on for a few words in any
case; a number is read strictly, and one that cannot be read counts as not set.

* `flagOf`          a flag from its text;
* `readInteger?`    an integer, digits of any script, single underscores between digits;
* `Settings`        the five settings;
* `Settings.read`   the settings from the variables.
-/

namespace Abacus

/-! ## Reading -/

def truthy : List String := ["1", "true", "yes", "on"]

def flagOf (text : Option String) : Bool :=
  match text with
  | some s => truthy.contains (lowered (strip s))
  | none => false

/-- the blanks allowed around an integer: all but the four separators of information -/
def isPadding (c : Char) : Bool := isBlank c && !(0x1c ≤ c.toNat && c.toNat ≤ 0x1f)

/-- digits with single underscores between them, as the digits alone -/
def groupedDigits? : List Char → Option (List Char)
  | [] => none
  | [c] => if isDigit c then some [c] else none
  | c :: '_' :: rest => if isDigit c then (groupedDigits? rest).map (c :: ·) else none
  | c :: rest => if isDigit c then (groupedDigits? rest).map (c :: ·) else none

def mostDigits : Nat := 4300

def readInteger? (s : String) : Option Int :=
  let padded := s.toList.dropWhile isPadding
  let cs := (padded.reverse.dropWhile isPadding).reverse
  let (negative, body) := match cs with
    | '-' :: rest => (true, rest)
    | '+' :: rest => (false, rest)
    | _ => (false, cs)
  match groupedDigits? body with
  | some ds =>
    if ds.length ≤ mostDigits then
      some (if negative then -(digitsValue ds : Int) else digitsValue ds)
    else none
  | none => none

/-! ## The settings -/

structure Settings where
  /-- names without a meaning stop the program -/
  strict : Bool
  quiet : Bool
  /-- a reported fault is followed by a trace -/
  trace : Bool
  /-- places after the point of a floating-point result -/
  places : Nat
  /-- the seed of the random numbers, if set -/
  seed : Option Int
  deriving Repr

def defaultPlaces : Nat := 6

def placesOf (text : Option String) : Nat :=
  match text.bind readInteger? with
  | some z => z.toNat
  | none => defaultPlaces

def Settings.read (setting : String → Option String) : Settings where
  strict := flagOf (setting "NUMLISP_STRICT")
  quiet := flagOf (setting "NUMLISP_QUIET")
  trace := flagOf (setting "NUMLISP_DEBUG_PY_TRACE")
  places := placesOf (setting "NUMLISP_FLOAT_PRECISION")
  seed := (setting "NUMLISP_SEED").bind readInteger?

end Abacus
