import Abacus.Amount.Basic

/-!
# Refusals

A function on amounts may refuse its operands.  The mathematical functions do so after one rule: a
result that is not a number is refused unless an operand is not a number either, and an infinite
result is refused if all operands are finite, as a pole or as too large.

* `Refusal`    the reasons;
* `admitted`   the rule.
-/

namespace Abacus

inductive Refusal where
  | domain
  | range
  | divisor
  | notNumber
  | unbounded
  | tooLarge
  deriving DecidableEq, Repr

def Refusal.message : Refusal → String
  | .domain => "math domain error"
  | .range => "math range error"
  | .divisor => "float division by zero"
  | .notNumber => "cannot convert float NaN to integer"
  | .unbounded => "cannot convert float infinity to integer"
  | .tooLarge => "int too large to convert to float"

/-- a result, refused where it is not a number or, for the given reason, where it is infinite -/
def admitted (infinite : Refusal) (operands : List Amount) (result : Amount) :
    Except Refusal Amount :=
  if result.isNaN && !operands.any (·.isNaN) then .error .domain
  else if result.isInfinite && operands.all (·.isFinite) then .error infinite
  else .ok result

end Abacus
