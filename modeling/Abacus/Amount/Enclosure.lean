import Abacus.Amount.Root

/-!
# Enclosures of exponentials and logarithms

A real number is enclosed between two integers over `2 ^ p`.  The series of the exponential and of
the inverse hyperbolic tangent are summed twice, once rounding every step down and once rounding
every step up, and the tail is bounded by twice the first term left out.

* `Enclosure`       two bounds over `2 ^ p`;
* `logTwo p`        the logarithm of two;
* `logOf p n`       the logarithm of a positive count of units, taken as an amount;
* `expOf p x`       the amounts nearest to the two ends of the exponential of an enclosure;
* `settle`          the first precision at which the two ends agree decides.
-/

namespace Abacus

attribute [local instance] ownPow

/-- two bounds of a real number, as multiples of `2 ^ (-p)` for a precision `p` kept elsewhere -/
structure Enclosure where
  lo : Int
  hi : Int

namespace Enclosure

def ofQuotient (p : Nat) (z : Int) (q : Nat) : Enclosure :=
  let down := Int.fdiv (z * 2 ^ p) q
  ⟨down, down + 1⟩

def scale (k : Int) (x : Enclosure) : Enclosure :=
  if 0 ≤ k then ⟨k * x.lo, k * x.hi⟩ else ⟨k * x.hi, k * x.lo⟩

def scaleQuotient (z : Int) (q : Nat) (x : Enclosure) : Enclosure :=
  let y := scale z x
  ⟨Int.fdiv y.lo q, Int.fdiv y.hi q + 1⟩

def add (x y : Enclosure) : Enclosure := ⟨x.lo + y.lo, x.hi + y.hi⟩

def sub (x y : Enclosure) : Enclosure := ⟨x.lo - y.hi, x.hi - y.lo⟩

end Enclosure

/-! ## Series -/

/-- the terms `z ^ (2 i + 1) / (2 i + 1)` from `i` on, given bounds of `z ^ 2` and of the power -/
def atanhTerms (p squareLo squareHi : Nat) : Nat → Nat → Nat → Nat → Enclosure
  | 0, _, _, powerHi => ⟨0, 2 * powerHi + 2⟩
  | count + 1, i, powerLo, powerHi =>
    Enclosure.add ⟨powerLo / (2 * i + 1), powerHi / (2 * i + 1) + 1⟩
      (atanhTerms p squareLo squareHi count (i + 1) (powerLo * squareLo / 2 ^ p)
        (powerHi * squareHi / 2 ^ p + 1))

/-- the inverse hyperbolic tangent of `a / b`, at most a third -/
def atanhOf (p a b : Nat) : Enclosure :=
  let lo := a * 2 ^ p / b
  let hi := lo + 1
  atanhTerms p (lo * lo / 2 ^ p) (hi * hi / 2 ^ p + 1) (p / 3 + 2) 0 lo hi

/-- the terms `x ^ i / i!` from `i` on, given bounds of `x` and of the term -/
def expTerms (p lo hi : Nat) : Nat → Nat → Nat → Nat → Enclosure
  | 0, _, _, termHi => ⟨0, 2 * termHi + 2⟩
  | count + 1, i, termLo, termHi =>
    Enclosure.add ⟨termLo, termHi⟩
      (expTerms p lo hi count (i + 1) (termLo * lo / 2 ^ p / (i + 1))
        (termHi * hi / 2 ^ p / (i + 1) + 1))

/-! ## Logarithm and exponential -/

def logTwo (p : Nat) : Enclosure := Enclosure.scale 2 (atanhOf p 1 3)

/-- the logarithm of a positive count of units, read as an amount: the binary exponent times the
logarithm of two, and the logarithm of what is left, between one and two -/
def logOf (p n : Nat) : Enclosure :=
  let top := 2 ^ n.log2
  Enclosure.add (Enclosure.scale ((n.log2 : Int) - unitExponent) (logTwo p))
    (Enclosure.scale 2 (atanhOf p (n - top) (n + top)))

/-- the positive real `m * 2 ^ k / 2 ^ p`, rounded to an amount -/
def Amount.ofScaled (p : Nat) (m : Nat) (k : Int) : Amount :=
  let shift := k + unitExponent - p
  Amount.ofRatio false (m * 2 ^ shift.toNat) (2 ^ (-shift).toNat)

/-- the amounts nearest to the two ends of the exponential; far outside the range of amounts both
are infinite, or both zero -/
def expOf (p : Nat) (x : Enclosure) : Amount × Amount :=
  if 2000 * 2 ^ p < x.lo then (.infinite false, .infinite false)
  else if x.hi < -2000 * 2 ^ p then (.zero false, .zero false)
  else
    let ln := logTwo p
    let k := if 0 ≤ x.lo then Int.fdiv x.lo ln.hi else Int.fdiv x.lo ln.lo
    let r := Enclosure.sub x (Enclosure.scale k ln)
    let e := expTerms p r.lo.toNat r.hi.toNat (p / 4 + 10) 0 (2 ^ p) (2 ^ p)
    (Amount.ofScaled p e.lo.toNat k, Amount.ofScaled p e.hi.toNat k)

/-! ## Deciding the rounding -/

def precisions : List Nat := [192, 384, 1280]

def Amount.between : Amount → Amount → Amount
  | .finite _ m _, .finite _ n _ => .ofRatio false (m + n) 2
  | _, y => y

/-- the first precision at which both ends round to one amount decides; where none does, the real
number is the boundary itself and the tie goes to the even neighbour -/
def settle (ends : Nat → Amount × Amount) : List Nat → Amount
  | [] => .nan
  | p :: rest =>
    let (a, b) := ends p
    if a = b then a
    else if rest.isEmpty then Amount.between a b
    else settle ends rest

end Abacus
