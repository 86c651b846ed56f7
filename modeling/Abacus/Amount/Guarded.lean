import Abacus.Amount.Power
import Abacus.Amount.Refusal

/-!
# Functions that answer

The functions of the mathematical library refuse operands.  The operators are not to stop for that:
some ask for the operands that would be refused before they call the library, others answer what it
refuses.

* `Refusing`       the functions of the library;
* `Guarded`        what the operators compute of them;
* `overflowing`    too large a result is answered with the positive infinity.
-/

namespace Abacus

open Amount (zero one)

/-! ## The library -/

namespace Refusing

def div (x y : Amount) : Except Refusal Amount :=
  if y.isZero then .error .divisor else .ok (x.div y)

def abs (x : Amount) : Except Refusal Amount := admitted .domain [x] x.abs

def exp (x : Amount) : Except Refusal Amount := admitted .range [x] x.exp

def exp2 (x : Amount) : Except Refusal Amount := admitted .range [x] x.exp2

def log (x : Amount) : Except Refusal Amount := admitted .domain [x] x.log

def sqrt (x : Amount) : Except Refusal Amount := admitted .domain [x] x.sqrt

def cbrt (x : Amount) : Except Refusal Amount := admitted .domain [x] x.cbrt

def remainder (x y : Amount) : Except Refusal Amount := admitted .range [x, y] (x.remainder y)

/-- an infinite power of a zero is a pole, any other one is too large -/
def power (x y : Amount) : Except Refusal Amount :=
  admitted (if x.isZero then .domain else .range) [x, y] (x.power y)

end Refusing

/-! ## Guards and answers -/

namespace Guarded

def div (x y : Amount) : Except Refusal Amount :=
  if y.isZero then
    if x.isZero || x.isNaN then .ok .nan
    else .ok (((Amount.infinite false).copySign x).mul (one.copySign y))
  else Refusing.div x y

def log (x : Amount) : Except Refusal Amount :=
  if x.isZero then .ok (.infinite true)
  else if x.isLess (zero false) || x.isNaN then .ok .nan
  else Refusing.log x

def sqrt (x : Amount) : Except Refusal Amount :=
  if x.isLess (zero false) || x.isNaN then .ok .nan else Refusing.sqrt x

def overflowing (f : Amount → Except Refusal Amount) (x : Amount) : Except Refusal Amount :=
  match f x with
  | .error .range => .ok (.infinite false)
  | answer => answer

/-- the power; a result that is too large and a pole are the positive infinity, whatever the sign -/
def power (x y : Amount) : Except Refusal Amount :=
  match Refusing.power x y with
  | .error .range => .ok (.infinite false)
  | .error .domain => .ok (if x.isZero then .infinite false else .nan)
  | answer => answer

def remainder (x y : Amount) : Except Refusal Amount :=
  match Refusing.remainder x y with
  | .error .domain => .ok .nan
  | answer => answer

end Guarded

end Abacus
