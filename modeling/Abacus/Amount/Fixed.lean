import Abacus.Amount.Shortest
import Abacus.Amount.Whole

/-!
# Fixed places

An amount written with a set number of places after the point: the exact value is rounded once, a
tie going to the even last digit.

* `fixedChars places n`   a count of units with its places;
* `Amount.fixed`          the text, with the words for what is not finite;
* `integerText z`         an integer in base ten;
* `Amount.floorText`      the integer not above an amount.
-/

namespace Abacus

attribute [local instance] ownPow

def wholeChars (n : Nat) : List Char := Nat.toDigits 10 n

def integerText (z : Int) : String :=
  String.ofList (if z < 0 then '-' :: wholeChars z.natAbs else wholeChars z.natAbs)

def lastDigits (width n : Nat) : List Char :=
  let digits := wholeChars n
  zeros (width - digits.length) ++ digits

/-- the places that a count of units can fill: a unit has no more, and zeros follow -/
def filledPlaces (places : Nat) : Nat := min places unitExponent

def fixedChars (places n : Nat) : List Char :=
  let filled := filledPlaces places
  let scaled := nearestEven (n * 10 ^ filled) unitsPerOne
  let whole := wholeChars (scaled / 10 ^ filled)
  if places = 0 then whole
  else whole ++ '.' :: lastDigits filled (scaled % 10 ^ filled) ++ zeros (places - filled)

/-- the integer not above an amount in base ten, with the words for what is not finite -/
def Amount.floorText : Amount → String
  | .nan => "nan"
  | .infinite s => if s then "-inf" else "inf"
  | .finite s n _ => integerText (Int.fdiv (signed s n) unitsPerOne)

/-- an amount with a number of places after the point; a negative one, a zero too, has its sign -/
def Amount.fixed (places : Nat) : Amount → String
  | .nan => "nan"
  | .infinite s => if s then "-inf" else "inf"
  | .finite s n _ =>
    String.ofList (if s then '-' :: fixedChars places n else fixedChars places n)

end Abacus
