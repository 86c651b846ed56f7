import Abacus.Amount.Grid

/-!
# Amounts

An `Amount` is a binary floating-point number of double width: not a number, an infinity of either
sign, or a signed count of units on the grid, where both zeros exist.  A finite amount carries the
proof that its count is on the grid, so every operation has to round before it can answer.

* `Amount`             the type;
* `Amount.ofRatio`     a signed quotient of unit counts, rounded once;
* `Amount.ofUnits`     a whole count of units, rounded once;
* `Amount.ofInt`       an integer, rounded once;
* `Amount.copySign`    the magnitude of one amount with the sign of another;
* `Amount.isLess`, `Amount.isEqual`, `Amount.isAtMost`   the comparisons, false as soon as one side
  is not a number.
-/

namespace Abacus

inductive Amount where
  | nan
  | infinite (negative : Bool)
  | finite (negative : Bool) (units : Nat) (fits : Fits units)
  deriving DecidableEq

namespace Amount

def zero (negative : Bool) : Amount := .finite negative 0 fits_zero

instance : Inhabited Amount := ⟨zero false⟩

/-! ## Rounding into the type -/

def ofRatio (negative : Bool) (p q : Nat) : Amount :=
  let units := toGrid p q
  if h : units < ceiling then .finite negative units (fits_toGrid h) else .infinite negative

def ofUnits (z : Int) : Amount := ofRatio (z < 0) z.natAbs 1

def ofInt (z : Int) : Amount := ofRatio (z < 0) (z.natAbs * unitsPerOne) 1

def one : Amount := ofInt 1

theorem ofRatio_one {n : Nat} (negative : Bool) (h : Fits n) :
    ofRatio negative n 1 = .finite negative n h := by
  have hg : toGrid n 1 = n := toGrid_of_fits h
  have hlt : toGrid n 1 < ceiling := by rw [hg]; exact h.2
  simp only [ofRatio, hlt, dite_true]
  congr

/-! ## Sign and class -/

def isNegative : Amount → Bool
  | .nan => false
  | .infinite s => s
  | .finite s _ _ => s

def isNaN : Amount → Bool
  | .nan => true
  | _ => false

def isInfinite : Amount → Bool
  | .infinite _ => true
  | _ => false

def isFinite : Amount → Bool
  | .finite .. => true
  | _ => false

def isZero : Amount → Bool
  | .finite _ n _ => n == 0
  | _ => false

theorem isNaN_ofRatio (negative : Bool) (p q : Nat) : (ofRatio negative p q).isNaN = false := by
  unfold ofRatio
  dsimp only
  split
  · rfl
  · rfl

theorem isNegative_ofRatio (negative : Bool) (p q : Nat) :
    (ofRatio negative p q).isNegative = negative := by
  unfold ofRatio
  dsimp only
  split
  · rfl
  · rfl

def neg : Amount → Amount
  | .nan => .nan
  | .infinite s => .infinite (!s)
  | .finite s n h => .finite (!s) n h

def abs : Amount → Amount
  | .nan => .nan
  | .infinite _ => .infinite false
  | .finite _ n h => .finite false n h

def withSign (negative : Bool) : Amount → Amount
  | .nan => .nan
  | .infinite _ => .infinite negative
  | .finite _ n h => .finite negative n h

def copySign (x y : Amount) : Amount := withSign y.isNegative x

/-! ## Comparison -/

def signed (negative : Bool) (n : Nat) : Int := if negative then -(n : Int) else n

def isLess : Amount → Amount → Bool
  | .nan, _ | _, .nan => false
  | .infinite s, .infinite t => s && !t
  | .infinite s, .finite .. => s
  | .finite .., .infinite t => !t
  | .finite s m _, .finite t n _ => signed s m < signed t n

def isEqual : Amount → Amount → Bool
  | .nan, _ | _, .nan => false
  | .infinite s, .infinite t => s == t
  | .infinite _, .finite .. => false
  | .finite .., .infinite _ => false
  | .finite s m _, .finite t n _ => signed s m == signed t n

def isAtMost (x y : Amount) : Bool := isLess x y || isEqual x y

end Amount

end Abacus
