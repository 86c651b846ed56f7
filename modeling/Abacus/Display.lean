import Abacus.Fault
import Abacus.Number

/-!
# Printed values

The text by which a program prints a value and the command line its result: the tag and the amount,
an integer in full and a floating-point number with a set number of places.

* `placesFault?`      the fault of a number of places that cannot be written;
* `Value.render`      the printed text of a value.
-/

namespace Abacus

attribute [local instance] ownPow

def mostPlaces : Nat := 2147483647

def largestPlaces : Nat := 2 ^ (63 : Nat) - 1

def placesFault? (places : Int) : Option Fault :=
  if places < 0 then some .placesNegative
  else if largestPlaces < places then some .placesTooLong
  else if mostPlaces < places then some .placesTooMany
  else none

def Number.render (places : Int) (v : Number) : Except Fault String :=
  match v.kind with
  | .int => .ok (v.kind.tag ++ ": " ++ v.amount.floorText)
  | .float =>
    match v.amount.isFinite, placesFault? places with
    | true, some fault => .error fault
    | _, _ => .ok (v.kind.tag ++ ": " ++ v.amount.fixed places.toNat)

/-- **The printed text of a value.** -/
def Value.render (places : Int) : Value → Except Fault String
  | none => .ok missingText
  | some v => v.render places

end Abacus
