import Abacus.Amount.Basic
import Abacus.Text.Blank
import Abacus.Text.Digit

/-!
# Numerals

A numeral is an optional sign and digits with at most one point among or around them, in the digits
of any script.  Its amount is the exact decimal value, rounded once.

* `unsigned cs`         a numeral without its sign;
* `isNumeral cs`        the characters are a numeral;
* `Amount.ofNumeral`    the amount of a numeral;
* `readDecimal? s`      a line of input as an amount, blanks around it allowed.
-/

namespace Abacus

attribute [local instance] ownPow

def unsigned : List Char → List Char
  | '+' :: cs => cs
  | '-' :: cs => cs
  | cs => cs

def hasMinus : List Char → Bool
  | '-' :: _ => true
  | _ => false

def wholeDigits (cs : List Char) : List Char := (unsigned cs).takeWhile isDigit

def afterWhole (cs : List Char) : List Char := (unsigned cs).dropWhile isDigit

def fractionDigits (cs : List Char) : List Char :=
  match afterWhole cs with
  | '.' :: rest => rest.takeWhile isDigit
  | _ => []

/-- an optional sign and digits with at most one point: digits, digits and a point, or a point with
digits after it -/
def isNumeral (cs : List Char) : Bool :=
  match afterWhole cs with
  | [] => !(wholeDigits cs).isEmpty
  | '.' :: rest => rest.all isDigit && !((wholeDigits cs).isEmpty && rest.isEmpty)
  | _ => false

def Amount.ofNumeral (cs : List Char) : Amount :=
  let fraction := fractionDigits cs
  .ofRatio (hasMinus cs) (digitsValue (wholeDigits cs ++ fraction) * unitsPerOne)
    (10 ^ fraction.length)

def readDecimal? (cs : List Char) : Option Amount :=
  let candidate := stripChars cs
  if isNumeral candidate then some (.ofNumeral candidate) else none

end Abacus
