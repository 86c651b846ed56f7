import Abacus.Proofs.Amount.Nearest
import Abacus.Proofs.Integers
import Mathlib.Algebra.Order.Field.Basic
import Mathlib.Algebra.Order.Field.Rat
import Mathlib.Data.Rat.Floor
import Mathlib.Tactic.FieldSimp
import Mathlib.Tactic.Linarith
import Mathlib.Tactic.Ring

/-!
# Rounding to whole amounts

A finite amount is a rational, and rounding gives the integer nearest to it, of two the one of
larger magnitude.  Everything else about rounding follows from that: an integer is kept, the order
is kept, and a negation is rounded to the negation.  A zero that is left has no sign.

* `NearestAway q z`        the integer nearest to a rational;
* `NearestAway.mono`       nearest integers are in order, so there is only one;
* `nearestAway_signed`     nearest from the halves around it;
* `Amount.toRat?`          the rational that a finite amount is;
* `Amount.sub_floor`       the whole part of a magnitude is subtracted exactly;
* `Amount.exists_nearestAway`   **a finite amount is rounded to the nearest integer**;
* `rounding_exact`         what follows from that.
-/

namespace Abacus

attribute [local instance] ownPow

/-! ## The nearest integer -/

/-- **The integer nearest to a rational**, of two the one of larger magnitude -/
structure NearestAway (q : Rat) (z : Int) : Prop where
  nearest : ∀ w : Int, |q - z| ≤ |q - w|
  away : ∀ w : Int, w ≠ z → |q - w| = |q - z| → |w| < |z|

section
variable {q r : Rat} {w z : Int}

/-- of two integers the larger one is as near exactly from the middle between them on -/
theorem le_larger_iff (h : w < z) : |q - z| ≤ |q - w| ↔ (w + z : Rat) ≤ 2 * q := by
  have hlt : (w : Rat) < z := Int.cast_lt.2 h
  rw [← sq_le_sq]
  constructor
  · intro hle
    nlinarith only [hle, hlt]
  · intro hle
    nlinarith only [hle, hlt]

theorem abs_neg_sub (q : Rat) (w : Int) : |-q - w| = |q - (-w : Int)| := by
  rw [← abs_neg, neg_sub, sub_neg_eq_add, Int.cast_neg, sub_neg_eq_add, add_comm]

theorem le_smaller_iff (h : w < z) : |q - w| ≤ |q - z| ↔ 2 * q ≤ (w + z : Rat) := by
  have hneg : |-q - (-w : Int)| ≤ |-q - (-z : Int)| ↔ ((-z : Int) + (-w : Int) : Rat) ≤ 2 * -q :=
    le_larger_iff (neg_lt_neg h)
  rw [abs_neg_sub, abs_neg_sub, neg_neg, neg_neg, Int.cast_neg, Int.cast_neg] at hneg
  rw [hneg]
  constructor
  · intro hle
    linarith only [hle]
  · intro hle
    linarith only [hle]

/-- **Nearest integers are in order**, ties included. -/
theorem NearestAway.mono (hz : NearestAway q z) (hw : NearestAway r w) (h : q ≤ r) : z ≤ w := by
  by_contra hnot
  have hlt : w < z := Int.not_le.1 hnot
  have hlow := (le_larger_iff hlt).1 (hz.nearest w)
  have hhigh := (le_smaller_iff hlt).1 (hw.nearest z)
  have hsame : q = r := by linarith only [hlow, hhigh, h]
  subst hsame
  have htie : |q - w| = |q - z| := le_antisymm (hw.nearest z) (hz.nearest w)
  have haway := hz.away w (ne_of_lt hlt) htie
  exact lt_asymm haway (hw.away z (ne_of_gt hlt) htie.symm)

theorem NearestAway.unique (hz : NearestAway q z) (hw : NearestAway q w) : z = w :=
  le_antisymm (hz.mono hw (le_refl q)) (hw.mono hz (le_refl q))

theorem NearestAway.neg (h : NearestAway q z) : NearestAway (-q) (-z) := by
  constructor
  · intro w
    rw [abs_neg_sub, abs_neg_sub, neg_neg]
    exact h.nearest _
  · intro w hne htie
    rw [abs_neg_sub, abs_neg_sub, neg_neg] at htie
    have haway := h.away (-w) (fun heq => hne (by rw [← heq, neg_neg])) htie
    rwa [abs_neg] at haway ⊢

theorem nearestAway_natCast {k : Nat} (hq : 0 ≤ q) (hlow : (2 * k : Rat) ≤ 2 * q + 1)
    (hhigh : 2 * q < 2 * k + 1) : NearestAway q k := by
  have hbelow {w : Int} (hw : w < k) : |q - (k : Int)| ≤ |q - w| := by
    have hstep : (w + 1 : Rat) ≤ k := by exact_mod_cast hw
    refine (le_larger_iff hw).2 ?_
    rw [Int.cast_natCast]
    linarith only [hstep, hlow]
  have habove {w : Int} (hw : k < w) : |q - (k : Int)| < |q - w| := by
    have hstep : (k + 1 : Rat) ≤ w := by exact_mod_cast hw
    refine not_le.1 fun hle => ?_
    have hmiddle := (le_larger_iff hw).1 hle
    rw [Int.cast_natCast] at hmiddle
    linarith only [hstep, hhigh, hmiddle]
  constructor
  · intro w
    rcases lt_trichotomy w k with hw | rfl | hw
    · exact hbelow hw
    · exact le_refl _
    · exact le_of_lt (habove hw)
  · intro w hne htie
    rcases lt_or_gt_of_ne hne with hw | hw
    · have hmiddle := (le_smaller_iff hw).1 htie.le
      rw [Int.cast_natCast] at hmiddle
      have hnext : (k : Int) ≤ w + 1 := by
        have hcast : (k : Rat) ≤ w + 1 := by linarith only [hmiddle, hlow]
        exact_mod_cast hcast
      have hpos : 0 ≤ w + k := by
        have hcast : (0 : Rat) ≤ w + k := by linarith only [hmiddle, hq]
        exact_mod_cast hcast
      rw [Nat.abs_cast, abs_lt]
      omega
    · exact absurd htie (ne_of_gt (habove hw))

/-- the nearest integer to a signed quotient of counts, from the halves around it -/
theorem nearestAway_signed (s : Bool) {m n k : Nat} (hn : 0 < n) (hlow : (2 * k - 1) * n ≤ 2 * m)
    (hhigh : 2 * m < (2 * k + 1) * n) :
    NearestAway ((Amount.signed s m : Rat) / n) (Amount.signed s k) := by
  have hpos : (0 : Rat) < n := by exact_mod_cast hn
  have hmagnitude : NearestAway (m / n : Rat) k := by
    refine nearestAway_natCast (div_nonneg (Nat.cast_nonneg m) hpos.le) ?_ ?_
    · have hcast : (2 * k * n : Rat) ≤ 2 * m + n := by
        have hnat : 2 * k * n ≤ 2 * m + n := by
          rw [Nat.sub_mul] at hlow
          omega
        exact_mod_cast hnat
      rw [← mul_le_mul_iff_of_pos_right hpos]
      calc (2 * k * n : Rat) ≤ 2 * m + n := hcast
        _ = (2 * (m / n) + 1) * n := by field_simp
    · have hcast : (2 * m : Rat) < (2 * k + 1) * n := by exact_mod_cast hhigh
      rw [← mul_lt_mul_iff_of_pos_right hpos]
      calc (2 * (m / n) * n : Rat) = 2 * m := by field_simp
        _ < (2 * k + 1) * n := hcast
  cases s with
  | false => exact hmagnitude
  | true =>
    show NearestAway (((-(m : Int) : Int) : Rat) / n) (-(k : Int))
    rw [Int.cast_neg, Int.cast_natCast, neg_div]
    exact hmagnitude.neg

end

/-! ## Amounts as rationals -/

namespace Amount

theorem natAbs_signed (s : Bool) (n : Nat) : (signed s n).natAbs = n := by
  cases s <;> simp [signed]

theorem unitsPerOne_cast_pos : (0 : Rat) < unitsPerOne := by exact_mod_cast unitsPerOne_pos

def toRat? : Amount → Option Rat
  | .finite s n _ => some ((signed s n : Rat) / unitsPerOne)
  | _ => none

@[simp] theorem toRat?_finite (s : Bool) (n : Nat) (h : Fits n) :
    toRat? (.finite s n h) = some ((signed s n : Rat) / unitsPerOne) := rfl

theorem toRat?_zero (s : Bool) : (zero s).toRat? = some ((0 : Int) : Rat) := by
  cases s <;> simp [zero, signed]

section
variable {x y : Amount} {q r : Rat} {z : Int}

theorem toRat?_eq_intCast_iff : x.toRat? = some (z : Rat) ↔
    ∃ s n h, x = .finite s (n * unitsPerOne) h ∧ signed s n = z := by
  constructor
  · intro hx
    cases x with
    | nan => cases hx
    | infinite s => cases hx
    | finite s n h =>
      rw [toRat?_finite, Option.some.injEq, div_eq_iff unitsPerOne_cast_pos.ne'] at hx
      have hz : signed s n = z * unitsPerOne := by exact_mod_cast hx
      have hn : n = z.natAbs * unitsPerOne := by
        rw [← natAbs_signed s n, hz, Int.natAbs_mul, Int.natAbs_natCast]
      subst hn
      refine ⟨s, z.natAbs, h, rfl, ?_⟩
      rw [signed_mul] at hz
      exact mul_right_cancel₀ (Int.natCast_ne_zero.2 unitsPerOne_pos.ne') hz
  · rintro ⟨s, n, h, rfl, rfl⟩
    rw [toRat?_finite, signed_mul, Int.cast_mul, Int.cast_natCast,
      mul_div_cancel_right₀ _ unitsPerOne_cast_pos.ne']

theorem toRat?_of_exactly (h : x.Exactly z) : x.toRat? = some (z : Rat) := by
  obtain ⟨s, n, hn, rfl, hsigned, -⟩ := h
  rw [toRat?_finite, hsigned, Int.cast_mul, Int.cast_natCast,
    mul_div_cancel_right₀ _ unitsPerOne_cast_pos.ne']

theorem Exactly.unique (hx : x.Exactly z) (hy : y.Exactly z) : x = y := by
  obtain ⟨s, m, hm, rfl, hs, hzero⟩ := hx
  obtain ⟨t, n, hn, rfl, ht, hzero'⟩ := hy
  have hsame : signed s m = signed t n := hs.trans ht.symm
  have hmn : m = n := by rw [← natAbs_signed s m, hsame, natAbs_signed]
  subst hmn
  have hsign : s = t := by
    by_cases h : m = 0
    · rw [hzero h, hzero' h]
    · revert hsame
      cases s <;> cases t <;> simp [signed] <;> omega
  subst hsign
  rfl

/-! ## Rounding -/

theorem nearestOnes_spec (n : Nat) : (2 * nearestOnes n - 1) * unitsPerOne ≤ 2 * n ∧
    2 * n < (2 * nearestOnes n + 1) * unitsPerOne := by
  have hn : n = unitsPerOne * (n / unitsPerOne) + n % unitsPerOne := (Nat.div_add_mod _ _).symm
  have hrest : n % unitsPerOne < unitsPerOne := Nat.mod_lt _ unitsPerOne_pos
  unfold nearestOnes
  dsimp only
  generalize unitsPerOne = u at *
  generalize n / u = a at *
  generalize n % u = r at *
  rw [Nat.sub_mul, Nat.add_mul]
  split
  · have hmul : 2 * (a + 1) * u = 2 * (u * a) + 2 * u := by ring
    omega
  · have hmul : 2 * a * u = 2 * (u * a) := by ring
    omega

/-- the floor of a magnitude is an amount, and subtracting it from the magnitude is exact -/
theorem sub_floor (hx : x.toRat? = some q) : x.abs.floor = .ok ⌊|q|⌋ ∧
    ∃ whole, ofWhole ⌊|q|⌋ = .ok whole ∧ (x.abs.sub whole).toRat? = some (Int.fract |q|) := by
  cases x with
  | nan => cases hx
  | infinite s => cases hx
  | finite s n h =>
    rw [toRat?_finite, Option.some.injEq] at hx
    have hq : |q| = (n : Rat) / unitsPerOne := by
      rw [← hx, abs_div, abs_of_pos unitsPerOne_cast_pos, ← Int.cast_abs, Int.abs_eq_natAbs,
        natAbs_signed, Int.cast_natCast]
    have hfloor : ⌊|q|⌋ = (n / unitsPerOne : Nat) := by
      rw [hq, Rat.floor_natCast_div_natCast, Int.natCast_ediv]
    rw [abs, hfloor]
    refine ⟨floor_magnitude, _, ofWhole_natCast (fits_floor h), ?_⟩
    rw [sub_whole, toRat?_finite, hq, Int.fract_div_natCast_eq_div_natCast_mod]
    rfl

/-- **A finite amount is rounded to the nearest integer**, and keeps its sign unless that is
zero. -/
theorem exists_nearestAway (hx : x.toRat? = some q) : ∃ z : Int,
    NearestAway q z ∧ x.roundHalfAway.Exactly z ∧
      (z ≠ 0 → x.roundHalfAway.isNegative = x.isNegative) := by
  cases x with
  | nan => cases hx
  | infinite s => cases hx
  | finite s n h =>
    rw [toRat?_finite, Option.some.injEq] at hx
    subst hx
    obtain ⟨hlow, hhigh⟩ := nearestOnes_spec n
    refine ⟨_, nearestAway_signed s unitsPerOne_pos hlow hhigh, roundHalfAway_finite s n h, ?_⟩
    intro hne
    have hones : nearestOnes n ≠ 0 := by
      intro hzero
      rw [hzero] at hne
      cases s <;> exact hne rfl
    rw [roundHalfAway_units, if_neg hones]
    rfl

theorem roundHalfAway_of_whole (hx : x.toRat? = some (z : Rat)) : x.roundHalfAway.Exactly z := by
  obtain ⟨s, n, h, rfl, rfl⟩ := toRat?_eq_intCast_iff.1 hx
  have hones : nearestOnes (n * unitsPerOne) = n := by
    rw [Nat.mul_comm]
    exact nearestOnes_mul n
  have hround := roundHalfAway_finite s _ h
  rwa [hones] at hround

theorem roundHalfAway_of_exactly (hx : x.Exactly z) : x.roundHalfAway = x :=
  (roundHalfAway_of_whole (toRat?_of_exactly hx)).unique hx

theorem roundHalfAway_roundHalfAway (x : Amount) :
    x.roundHalfAway.roundHalfAway = x.roundHalfAway := by
  cases x with
  | nan => rw [roundHalfAway_nan, roundHalfAway_nan]
  | infinite s => rw [roundHalfAway_infinite, roundHalfAway_infinite]
  | finite s n h => exact roundHalfAway_of_exactly (roundHalfAway_finite s n h)

/-- a large amount has no places for a fraction, and is kept -/
theorem roundHalfAway_of_large (hx : x.toRat? = some q) (hq : 2 ^ (52 : Nat) ≤ |q|) :
    x.roundHalfAway = x := by
  cases x with
  | nan => cases hx
  | infinite s => cases hx
  | finite s n h =>
    rw [toRat?_finite, Option.some.injEq] at hx
    subst hx
    have hn : 2 ^ (52 : Nat) * unitsPerOne ≤ n := by
      rw [abs_div, abs_of_pos unitsPerOne_cast_pos, le_div_iff₀ unitsPerOne_cast_pos,
        ← Int.cast_abs, Int.abs_eq_natAbs, natAbs_signed] at hq
      exact_mod_cast hq
    obtain ⟨m, rfl⟩ := unitsPerOne_dvd h hn
    have hm : m ≠ 0 := by
      intro hzero
      have hpos := unitsPerOne_pos
      rw [hzero] at hn
      omega
    rw [roundHalfAway_units]
    simp only [nearestOnes_mul, if_neg hm, Nat.mul_comm m]

theorem roundHalfAway_neg (x : Amount) : x.neg.roundHalfAway = x.roundHalfAway.neg ∨
    x.neg.roundHalfAway = zero false ∧ x.roundHalfAway = zero false := by
  cases x with
  | nan => exact Or.inl (by rw [neg, roundHalfAway_nan, neg])
  | infinite s => exact Or.inl (by rw [neg, roundHalfAway_infinite, roundHalfAway_infinite, neg])
  | finite s n h =>
    rw [neg, roundHalfAway_units, roundHalfAway_units]
    by_cases hzero : nearestOnes n = 0
    · rw [if_pos hzero, if_pos hzero]
      exact Or.inr ⟨rfl, rfl⟩
    · rw [if_neg hzero, if_neg hzero]
      exact Or.inl rfl

theorem isFinite_roundHalfAway (x : Amount) : x.roundHalfAway.isFinite = x.isFinite := by
  cases x with
  | nan => rw [roundHalfAway_nan]
  | infinite s => rw [roundHalfAway_infinite]
  | finite s n h =>
    rw [roundHalfAway_units]
    split
    · rfl
    · rfl

/-! ## The order -/

theorem isAtMost_nan (x : Amount) : x.isAtMost .nan = false := by
  cases x <;> rfl

theorem nan_isAtMost (y : Amount) : isAtMost .nan y = false := by
  cases y <;> rfl

theorem infinite_isAtMost {s : Bool} (hy : y.isFinite = true) : (infinite s).isAtMost y = s := by
  cases y with
  | nan => cases hy
  | infinite t => cases hy
  | finite t n h => cases s <;> simp [isAtMost, isLess, isEqual]

theorem isAtMost_infinite {t : Bool} (hx : x.isFinite = true) : x.isAtMost (infinite t) = !t := by
  cases x with
  | nan => cases hx
  | infinite s => cases hx
  | finite s n h => cases t <;> simp [isAtMost, isLess, isEqual]

theorem isAtMost_iff (hx : x.toRat? = some q) (hy : y.toRat? = some r) :
    x.isAtMost y = true ↔ q ≤ r := by
  cases x with
  | nan => cases hx
  | infinite s => cases hx
  | finite s m hm =>
    cases y with
    | nan => cases hy
    | infinite t => cases hy
    | finite t n hn =>
      rw [toRat?_finite, Option.some.injEq] at hx hy
      subst hx hy
      rw [div_le_div_iff_of_pos_right unitsPerOne_cast_pos, Int.cast_le]
      simp only [isAtMost, isLess, isEqual, Bool.or_eq_true, decide_eq_true_eq, beq_iff_eq]
      omega

/-- **Rounding keeps the order.** -/
theorem roundHalfAway_mono (h : x.isAtMost y = true) :
    x.roundHalfAway.isAtMost y.roundHalfAway = true := by
  cases x with
  | nan =>
    rw [nan_isAtMost] at h
    cases h
  | infinite s =>
    cases y with
    | nan =>
      rw [isAtMost_nan] at h
      cases h
    | infinite t => rwa [roundHalfAway_infinite, roundHalfAway_infinite]
    | finite t n hn =>
      rw [infinite_isAtMost rfl] at h
      rwa [roundHalfAway_infinite, infinite_isAtMost (isFinite_roundHalfAway _)]
  | finite s m hm =>
    cases y with
    | nan =>
      rw [isAtMost_nan] at h
      cases h
    | infinite t =>
      rw [isAtMost_infinite rfl] at h
      rwa [roundHalfAway_infinite, isAtMost_infinite (isFinite_roundHalfAway _)]
    | finite t n hn =>
      have hle := (isAtMost_iff (toRat?_finite s m hm) (toRat?_finite t n hn)).1 h
      obtain ⟨z, hz, hx, -⟩ := exists_nearestAway (toRat?_finite s m hm)
      obtain ⟨w, hw, hy, -⟩ := exists_nearestAway (toRat?_finite t n hn)
      rw [isAtMost_iff (toRat?_of_exactly hx) (toRat?_of_exactly hy), Int.cast_le]
      exact hz.mono hw hle

end

end Amount

/-- **Rounding is exact.**  No step of it is refused, and the whole part of the magnitude is
subtracted exactly.  A finite amount is rounded to the integer nearest to it, of two to the one of
larger magnitude, with the sign of the amount; a zero has none.  What is not finite is kept, and so
is every amount from `2 ^ 52` on.  Rounding again changes nothing, the order is kept, and a negation
is rounded to the negation, but that a zero stays as it is. -/
theorem rounding_exact (x : Amount) :
    x.rounding = .ok x.roundHalfAway ∧
    (∀ q, x.toRat? = some q → x.abs.floor = .ok ⌊|q|⌋ ∧
      ∃ whole, Amount.ofWhole ⌊|q|⌋ = .ok whole ∧
        (x.abs.sub whole).toRat? = some (Int.fract |q|)) ∧
    (x.isFinite = true → ∃ q, x.toRat? = some q ∧ ∃ z : Int, NearestAway q z ∧
      x.roundHalfAway.Exactly z ∧ (z ≠ 0 → x.roundHalfAway.isNegative = x.isNegative)) ∧
    (x.isFinite = false → x.roundHalfAway = x) ∧
    x.roundHalfAway.roundHalfAway = x.roundHalfAway ∧
    (∀ y : Amount, x.isAtMost y = true → x.roundHalfAway.isAtMost y.roundHalfAway = true) ∧
    (x.neg.roundHalfAway = x.roundHalfAway.neg ∨
      x.neg.roundHalfAway = .zero false ∧ x.roundHalfAway = .zero false) ∧
    (∀ q, x.toRat? = some q → 2 ^ (52 : Nat) ≤ |q| → x.roundHalfAway = x) := by
  refine ⟨x.rounding_eq, fun q => Amount.sub_floor, fun hfinite => ?_, (exactly_roundHalfAway x).2,
    x.roundHalfAway_roundHalfAway, fun y => Amount.roundHalfAway_mono, x.roundHalfAway_neg,
    fun q => Amount.roundHalfAway_of_large⟩
  cases x with
  | nan => cases hfinite
  | infinite s => cases hfinite
  | finite s n h => exact ⟨_, rfl, Amount.exists_nearestAway rfl⟩

def debtAndHalf : Amount := .ofRatio true (5 * unitsPerOne) 2

theorem rounding_exact_debtAndHalf : debtAndHalf.isFinite = true ∧
    (∃ q, debtAndHalf.toRat? = some q ∧
      (∃ whole, Amount.ofWhole ⌊|q|⌋ = .ok whole ∧
        (debtAndHalf.abs.sub whole).toRat? = some (Int.fract |q|)) ∧
      ∃ z : Int, NearestAway q z ∧ debtAndHalf.roundHalfAway.Exactly z ∧
        (z ≠ 0 → debtAndHalf.roundHalfAway.isNegative = debtAndHalf.isNegative)) ∧
    (Amount.ofInt (-3)).isAtMost debtAndHalf = true ∧
    (Amount.ofInt (-3)).roundHalfAway.isAtMost debtAndHalf.roundHalfAway = true := by
  have hfinite : debtAndHalf.isFinite = true := by decide +kernel
  have hless : (Amount.ofInt (-3)).isAtMost debtAndHalf = true := by decide +kernel
  obtain ⟨-, hsub, hnearest, -⟩ := rounding_exact debtAndHalf
  obtain ⟨q, hq, hrounded⟩ := hnearest hfinite
  obtain ⟨-, -, -, -, -, hmono, -⟩ := rounding_exact (.ofInt (-3))
  exact ⟨hfinite, ⟨q, hq, (hsub q hq).2, hrounded⟩, hless, hmono _ hless⟩

/-- the largest amount below a half: adding a half to it first would give one -/
example : (Amount.ofRatio false ((2 ^ (53 : Nat) - 1) * unitsPerOne)
    (2 ^ (54 : Nat))).roundHalfAway = .zero false := by decide +kernel

end Abacus
