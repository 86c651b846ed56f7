import Abacus.Amount.Basic

/-!
# The fewest digits that read back

A positive amount is written by the decimal with the fewest digits among those that round to it,
and of several such decimals by the nearest.  For one digit, two digits and so on the two
neighbours of the amount on that decimal grid are tried.

* `Decimal`             a coefficient and a power of ten;
* `leadingExponent n`   the power of ten of the first digit;
* `readsBack n d`       the decimal rounds to the count `n`;
* `shortest n`          the chosen decimal;
* `Layout`              the decisions on how a decimal is laid out;
* `Amount.text`         an amount as messages show it.
-/

namespace Abacus

attribute [local instance] ownPow

structure Decimal where
  coefficient : Nat
  exponent : Int
  deriving DecidableEq, Repr

/-! ## The digits -/

def Decimal.ratio (d : Decimal) : Nat × Nat :=
  (d.coefficient * 10 ^ d.exponent.toNat * unitsPerOne, 10 ^ (-d.exponent).toNat)

def readsBack (n : Nat) (d : Decimal) : Bool := toGrid d.ratio.1 d.ratio.2 == n

def reachesTen (n : Nat) (e : Int) : Bool :=
  10 ^ e.toNat * unitsPerOne ≤ n * 10 ^ (-e).toNat

/-- the largest exponent reached, searched upward a few steps from a lower one -/
def leadingFrom (n : Nat) : Nat → Int → Int
  | 0, e => e
  | steps + 1, e => if reachesTen n (e + 1) then leadingFrom n steps (e + 1) else e

def leadingExponent (n : Nat) : Int :=
  leadingFrom n 3 (Int.fdiv (((n.log2 : Int) - unitExponent) * 30103) 100000 - 1)

/-- the better of the two neighbours of `n` units among the multiples of ten to the `e`, if one of
them reads back: the nearer, and in a tie the even one -/
def onGrid? (n : Nat) (e : Int) : Option Decimal :=
  let p := n * 10 ^ (-e).toNat
  let q := unitsPerOne * 10 ^ e.toNat
  let below : Decimal := ⟨p / q, e⟩
  let above : Decimal := ⟨p / q + 1, e⟩
  if readsBack n below then
    if readsBack n above && nearestEven p q != p / q then some above else some below
  else if readsBack n above then some above
  else none

/-- the first hit on the grids with `k`, `k + 1`, … digits after the first one -/
def searchDigits (n : Nat) (first : Int) : Nat → Nat → Decimal
  | 0, k => ⟨n * 10 ^ (k - first).toNat / unitsPerOne, first - k⟩
  | tries + 1, k =>
    match onGrid? n (first - k) with
    | some d => d
    | none => searchDigits n first tries (k + 1)

def Decimal.strip : Nat → Decimal → Decimal
  | 0, d => d
  | steps + 1, d =>
    if d.coefficient % 10 = 0 then Decimal.strip steps ⟨d.coefficient / 10, d.exponent + 1⟩ else d

/-- **The fewest digits that read back** to a positive count of units. -/
def shortest (n : Nat) : Decimal :=
  (searchDigits n (leadingExponent n) 18 0).strip 18

/-! ## The layout -/

structure Layout where
  /-- the least exponent of the first digit that is written with a point -/
  leastPositional : Int
  /-- the first exponent of the first digit that is written as an exponent -/
  firstExponential : Int
  /-- exponents are padded to this many digits -/
  exponentDigits : Nat

/-- as messages show amounts: with a point from `1e-04` up to below `1e+16` -/
def Layout.message : Layout := ⟨-4, 16, 2⟩

def zeros (n : Nat) : List Char := List.replicate n '0'

def Layout.write (l : Layout) (d : Decimal) : List Char :=
  let digits := Nat.toDigits 10 d.coefficient
  let first : Int := digits.length - 1 + d.exponent
  if l.leastPositional ≤ first && first < l.firstExponential then
    if 0 ≤ d.exponent then digits ++ zeros d.exponent.toNat ++ ['.', '0']
    else if 0 ≤ first then
      digits.take (first.toNat + 1) ++ '.' :: digits.drop (first.toNat + 1)
    else '0' :: '.' :: zeros (-first - 1).toNat ++ digits
  else
    let power := Nat.toDigits 10 first.natAbs
    let fraction := digits.drop 1
    digits.take 1 ++ (if fraction.isEmpty then [] else '.' :: fraction) ++
      'e' :: (if first < 0 then '-' else '+') :: zeros (l.exponentDigits - power.length) ++ power

def Amount.text : Amount → String
  | .nan => "nan"
  | .infinite s => if s then "-inf" else "inf"
  | .finite s n _ =>
    let body := if n = 0 then ['0', '.', '0'] else Layout.message.write (shortest n)
    String.ofList (if s then '-' :: body else body)

end Abacus
