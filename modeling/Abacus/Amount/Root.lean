import Abacus.Amount.Arithmetic

/-!
# Roots

Square root, cube root and the length of a pair, each rounded once.  A root that is not exact lies
strictly between two neighbouring half units, and so does the odd quarter between them that is
rounded in its place: no rounding boundary separates the two.  Another library of these functions
may be off by one in the last digit of a cube root or of a length.

* `floorRoot k n`   the largest whole number whose `k`-th power is at most `n`;
* `Amount.ofRoot`   the `k`-th root of a count, rounded once;
* `Amount.sqrt`, `Amount.cbrt`, `Amount.hypot`.
-/

namespace Abacus

attribute [local instance] ownPow

/-! ## Whole roots -/

/-- the whole `k`-th root of a number below `2 ^ (k * fuel)`, one binary digit a step -/
def floorRootUpTo (k : Nat) : Nat → Nat → Nat
  | 0, _ => 0
  | fuel + 1, n =>
    let r := 2 * floorRootUpTo k fuel (n / 2 ^ k)
    if (r + 1) ^ k ≤ n then r + 1 else r

def floorRoot (k n : Nat) : Nat := floorRootUpTo k (n.log2 / k + 1) n

namespace Amount

/-! ## Rounded roots -/

def ofRoot (negative : Bool) (k n : Nat) : Amount :=
  let halves := floorRoot k (n * 2 ^ k)
  if halves ^ k = n * 2 ^ k then ofRatio negative halves 2
  else ofRatio negative (2 * halves + 1) 4

def sqrt : Amount → Amount
  | .nan => .nan
  | .infinite s => if s then .nan else .infinite false
  | .finite s n h =>
    if n = 0 then .finite s n h
    else if s then .nan
    else ofRoot false 2 (n * unitsPerOne)

def cbrt : Amount → Amount
  | .nan => .nan
  | .infinite s => .infinite s
  | .finite s n _ => ofRoot s 3 (n * unitsPerOne ^ (2 : Nat))

/-- the length of the pair; an infinite side makes it infinite whatever the other side is -/
def hypot (x y : Amount) : Amount :=
  if x.isInfinite || y.isInfinite then .infinite false
  else match x, y with
    | .finite _ m _, .finite _ n _ => ofRoot false 2 (m ^ (2 : Nat) + n ^ (2 : Nat))
    | _, _ => .nan

end Amount

end Abacus
