import Abacus.Amount.Enclosure

/-!
# Exponentials, logarithm and power

The elementary functions of amounts, each rounded once.  A result that is too large and a pole are
infinities, and an argument outside the domain gives what is not a number.  The last digit is that
of the correctly rounded result, where another library of these functions may be off by one.

* `Amount.exp`, `Amount.exp2`, `Amount.log`;
* `Amount.oddInteger`   the amount is an odd whole number;
* `Amount.power`        the power, whose sign is that of the base for an odd exponent.
-/

namespace Abacus

attribute [local instance] ownPow

namespace Amount

def exp : Amount → Amount
  | .nan => .nan
  | .infinite s => if s then zero false else .infinite false
  | .finite s n _ =>
    settle (fun p => expOf p (Enclosure.ofQuotient p (signed s n) unitsPerOne)) precisions

def exp2 : Amount → Amount
  | .nan => .nan
  | .infinite s => if s then zero false else .infinite false
  | .finite s n _ =>
    settle (fun p => expOf p (Enclosure.scaleQuotient (signed s n) unitsPerOne (logTwo p)))
      precisions

def ofBound (p : Nat) (z : Int) : Amount := ofRatio (z < 0) (z.natAbs * unitsPerOne) (2 ^ p)

def log : Amount → Amount
  | .nan => .nan
  | .infinite s => if s then .nan else .infinite false
  | .finite s n _ =>
    if n = 0 then .infinite true
    else if s then .nan
    else if n = unitsPerOne then zero false
    else settle (fun p => (ofBound p (logOf p n).lo, ofBound p (logOf p n).hi)) precisions

/-! ## Power -/

def integer (n : Nat) : Bool := n % unitsPerOne == 0

def oddInteger : Amount → Bool
  | .finite _ n _ => integer n && n / unitsPerOne % 2 == 1
  | _ => false

/-- the power of a positive count of units, rounded once: exactly for a small whole exponent, else
the exponential of the exponent times the logarithm -/
def powerUnits (n : Nat) (s : Bool) (m : Nat) : Amount :=
  if n = unitsPerOne then one
  else if integer m && m / unitsPerOne ≤ 64 then
    let k := m / unitsPerOne
    if s then ofRatio false (unitsPerOne ^ (k + 1)) (n ^ k)
    else ofRatio false (n ^ k * unitsPerOne) (unitsPerOne ^ k)
  else
    settle (fun p => expOf p (Enclosure.scaleQuotient (signed s m) unitsPerOne (logOf p n)))
      precisions

/-- the power.  Anything to a zero is one, and so is one to anything; a zero to a negative power is
an infinity, a negative base with a broken exponent has no power. -/
def power (x y : Amount) : Amount :=
  if y.isZero then one
  else if x = one then one
  else match x, y with
    | .nan, _ | _, .nan => .nan
    | .infinite s, y =>
      let negative := s && y.oddInteger
      if y.isNegative then zero negative else .infinite negative
    | .finite _ n _, .infinite t =>
      if n = unitsPerOne then one
      else if decide (n < unitsPerOne) == t then .infinite false
      else zero false
    | .finite s n _, .finite t m h =>
      let negative := s && oddInteger (.finite t m h)
      if n = 0 then (if t then .infinite negative else zero negative)
      else if s && !integer m then .nan
      else withSign negative (powerUnits n t m)

end Amount

end Abacus
