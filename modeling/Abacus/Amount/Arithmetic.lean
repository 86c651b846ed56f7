import Abacus.Amount.Basic

/-!
# Arithmetic

Sum, difference, product, quotient and remainder of amounts.  Each is the exact result on the unit
counts, rounded once; what has no exact result is not a number.

* `Amount.add`, `Amount.sub`, `Amount.mul`;
* `Amount.div`         with the signed infinity for a nonzero amount over a zero;
* `Amount.remainder`   to the nearest whole quotient, the even one of two;
* `Amount.larger`, `Amount.smaller`   the selection that prefers a number to what is not one.
-/

namespace Abacus

namespace Amount

/-- the exact sum, rounded once; two zeros give a negative zero only if both are negative -/
def add : Amount → Amount → Amount
  | .nan, _ | _, .nan => .nan
  | .infinite s, .infinite t => if s = t then .infinite s else .nan
  | .infinite s, .finite .. => .infinite s
  | .finite .., .infinite t => .infinite t
  | .finite s m _, .finite t n _ =>
    let z := signed s m + signed t n
    if z = 0 then zero (s && t) else ofUnits z

def sub (x y : Amount) : Amount := add x y.neg

def mul : Amount → Amount → Amount
  | .nan, _ | _, .nan => .nan
  | .infinite s, .infinite t => .infinite (s != t)
  | .infinite s, .finite t n _ => if n = 0 then .nan else .infinite (s != t)
  | .finite s m _, .infinite t => if m = 0 then .nan else .infinite (s != t)
  | .finite s m _, .finite t n _ => ofRatio (s != t) (m * n) unitsPerOne

/-- the exact quotient, rounded once; a nonzero amount over a zero is the infinity whose sign is
the product of the signs, and a zero over a zero is not a number -/
def div : Amount → Amount → Amount
  | .nan, _ | _, .nan => .nan
  | .infinite _, .infinite _ => .nan
  | .infinite s, .finite t _ _ => .infinite (s != t)
  | .finite s _ _, .infinite t => zero (s != t)
  | .finite s m _, .finite t n _ =>
    if n = 0 then (if m = 0 then .nan else .infinite (s != t))
    else ofRatio (s != t) (m * unitsPerOne) n

/-- what is left of the first after the nearest whole multiple of the second, the even multiple of
two; a zero has the sign of the first.  It is not a number for an infinite first or a zero second,
and an infinite second leaves a finite first as it is. -/
def remainder : Amount → Amount → Amount
  | .nan, _ | _, .nan => .nan
  | .infinite _, _ => .nan
  | .finite s m h, .infinite _ => .finite s m h
  | .finite s m _, .finite _ n _ =>
    if n = 0 then .nan
    else if 2 * (m % n) < n ∨ (2 * (m % n) = n ∧ m / n % 2 = 0) then ofRatio s (m % n) 1
    else ofRatio (!s) (n - m % n) 1

/-- the second if it is strictly larger, else the first; a number wins over what is not one -/
def larger (x y : Amount) : Amount :=
  if x.isNaN then y
  else if y.isNaN then x
  else if isLess x y then y else x

/-- the second if it is strictly smaller, else the first; a number wins over what is not one -/
def smaller (x y : Amount) : Amount :=
  if x.isNaN then y
  else if y.isNaN then x
  else if isLess y x then y else x

end Amount

end Abacus
