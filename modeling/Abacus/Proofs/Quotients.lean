import Abacus.Proofs.Folds

/-!
# Quotients of integers

A quotient of integers is rounded twice: to an amount, and then to an integer.  A dividend of at
most `2 ^ 52` leaves so much room between its quotient and the halves around it that the first
rounding neither reaches nor crosses one: it is off by less than the `2 ^ 53`-rd part of the
quotient, and no half is that near.  So the second rounding finds the integer that is nearest to the
quotient itself.

* `half_le_toGrid`, `toGrid_lt_half`   on which side of a half a quotient is rounded;
* `half_le_toGrid_iff`    **on the side where it is**;
* `quotient_rounded_once`   the quotient of two integers.
-/

namespace Abacus

attribute [local instance] ownPow

/-! ## Halves -/

section
variable {m n j : Nat}

theorem fits_halves (h : j ≤ 2 ^ (53 : Nat)) :
    ∃ k, 2 * k = j * unitsPerOne ∧ 2 ^ spacing k ∣ k := by
  have hexponent : unitExponent - 1 + 1 = unitExponent := by decide
  have hhalf : unitsPerOne = 2 * 2 ^ (unitExponent - 1) := by
    rw [unitsPerOne_eq, ← Nat.pow_succ', Nat.succ_eq_add_one, hexponent]
  refine ⟨j * 2 ^ (unitExponent - 1), ?_, dvd_of_significand h⟩
  rw [hhalf, Nat.mul_left_comm]

/-- a quotient that is not below a half is not rounded below it -/
theorem half_le_toGrid (hn : 0 < n) (hj : j ≤ 2 ^ (53 : Nat)) (h : j * n ≤ 2 * m) :
    j * unitsPerOne ≤ 2 * toGrid (m * unitsPerOne) n := by
  obtain ⟨k, hk, hgrid⟩ := fits_halves hj
  have hle : 2 * (k * n) ≤ 2 * (m * unitsPerOne) := by
    calc 2 * (k * n) = j * n * unitsPerOne := by rw [← Nat.mul_assoc, hk, Nat.mul_right_comm]
      _ ≤ 2 * m * unitsPerOne := Nat.mul_le_mul_right _ h
      _ = 2 * (m * unitsPerOne) := Nat.mul_assoc _ _ _
  have hround := le_toGrid hn hgrid (Nat.le_of_mul_le_mul_left hle (by decide))
  omega

/-- a quotient that is below a half is not rounded onto it -/
theorem toGrid_lt_half (hn : 0 < n) (hm : m ≤ 2 ^ (52 : Nat)) (h : 2 * m < j * n) :
    2 * toGrid (m * unitsPerOne) n < j * unitsPerOne := by
  have hlarge : 2 ^ (54 : Nat) ≤ unitsPerOne := by
    rw [unitsPerOne_eq]
    exact Nat.pow_le_pow_right (by decide) (by decide)
  by_cases htiny : m * unitsPerOne ≤ 2 ^ (52 : Nat) * n
  · have hspacing : spacing (2 ^ (52 : Nat)) = 0 := by rw [spacing, Nat.log2_two_pow]
    have hgrid : 2 ^ spacing (2 ^ (52 : Nat)) ∣ 2 ^ (52 : Nat) := by
      rw [hspacing]
      exact Nat.one_dvd _
    have hround := toGrid_le hn hgrid htiny
    have hj : 0 < j := by
      refine Nat.pos_of_ne_zero fun hzero => ?_
      rw [hzero, Nat.zero_mul] at h
      omega
    have hone := Nat.le_mul_of_pos_left unitsPerOne hj
    omega
  · have herror := dist_toGrid_lt hn (Nat.le_of_not_le htiny)
    by_contra hreach
    -- the half is at least `1 / (2 * n)` away, so more than half a unit of ones
    have hgap : (2 * m + 1) * unitsPerOne ≤ j * n * unitsPerOne := Nat.mul_le_mul_right _ h
    have hreach : j * n * unitsPerOne ≤ 2 * (toGrid (m * unitsPerOne) n * n) := by
      calc j * n * unitsPerOne = j * unitsPerOne * n := Nat.mul_right_comm _ _ _
        _ ≤ 2 * toGrid (m * unitsPerOne) n * n := Nat.mul_le_mul_right _ (Nat.le_of_not_lt hreach)
        _ = 2 * (toGrid (m * unitsPerOne) n * n) := Nat.mul_assoc _ _ _
    have hbound := Nat.mul_le_mul_right unitsPerOne hm
    rw [Nat.add_mul, Nat.one_mul, Nat.mul_assoc] at hgap
    unfold Nat.dist at herror
    omega

/-- **A quotient and the amount it is rounded to are on the same side of every half.** -/
theorem half_le_toGrid_iff (hn : 0 < n) (hm : m ≤ 2 ^ (52 : Nat)) :
    j * unitsPerOne ≤ 2 * toGrid (m * unitsPerOne) n ↔ j * n ≤ 2 * m := by
  constructor
  · intro h
    by_contra hlt
    have hround := toGrid_lt_half hn hm (Nat.lt_of_not_le hlt)
    omega
  · intro h
    have hj : j ≤ 2 * m := Nat.le_trans (Nat.le_mul_of_pos_right j hn) h
    exact half_le_toGrid hn (by omega) h

theorem nearestOnes_toGrid (hn : 0 < n) (hm : m ≤ 2 ^ (52 : Nat)) (s : Bool) :
    NearestAway ((Amount.signed s m : Rat) / n)
      (Amount.signed s (nearestOnes (toGrid (m * unitsPerOne) n))) := by
  obtain ⟨hlow, hhigh⟩ := Amount.nearestOnes_spec (toGrid (m * unitsPerOne) n)
  refine nearestAway_signed s hn ((half_le_toGrid_iff hn hm).1 hlow) ?_
  by_contra hnot
  have hround := (half_le_toGrid_iff hn hm).2 (Nat.le_of_not_lt hnot)
  omega

end

/-! ## The operator -/

namespace Amount

theorem signed_div (s t : Bool) (m n : Nat) :
    (signed s m : Rat) / signed t n = (signed (s != t) m : Rat) / n := by
  cases s <;> cases t <;> simp [signed, neg_div, div_neg]

theorem exactly_div {x y : Amount} {a b : Int} (hx : x.toRat? = some (a : Rat))
    (hy : y.toRat? = some (b : Rat)) (hb : b ≠ 0) (ha : a.natAbs ≤ 2 ^ (52 : Nat)) :
    ∃ z : Int, (x.div y).roundHalfAway.Exactly z ∧ NearestAway (a / b : Rat) z := by
  obtain ⟨s, m, hm, rfl, rfl⟩ := toRat?_eq_intCast_iff.1 hx
  obtain ⟨t, n, hn, rfl, rfl⟩ := toRat?_eq_intCast_iff.1 hy
  rw [natAbs_signed] at ha
  have hpos : 0 < n := by
    refine Nat.pos_of_ne_zero fun hzero => hb ?_
    rw [hzero]
    cases t <;> rfl
  have hne : n * unitsPerOne ≠ 0 := Nat.mul_ne_zero hpos.ne' unitsPerOne_pos.ne'
  have hfits := fits_whole (Nat.le_trans ha (by decide))
  have hlt : toGrid (m * unitsPerOne) n < ceiling :=
    Nat.lt_of_le_of_lt (toGrid_le hpos hfits.1 (Nat.le_mul_of_pos_right _ hpos)) hfits.2
  have hdiv : (finite s (m * unitsPerOne) hm).div (finite t (n * unitsPerOne) hn) =
      finite (s != t) (toGrid (m * unitsPerOne) n) (fits_toGrid hlt) := by
    simp only [div, if_neg hne]
    rw [ofRatio_mul_right _ unitsPerOne_pos]
    simp only [ofRatio, dif_pos hlt]
  rw [hdiv]
  refine ⟨_, roundHalfAway_finite _ _ _, ?_⟩
  rw [signed_div]
  exact nearestOnes_toGrid hpos ha (s != t)

end Amount

/-- **The quotient of two integers is rounded once**, if the dividend has a magnitude of at most
`2 ^ 52`: the operator gives the integer nearest to the quotient itself, of two the one of larger
magnitude.  The amount in between does not show. -/
theorem quotient_rounded_once (u v : WholeNumber) (hv : v.value ≠ 0)
    (hu : u.value.natAbs ≤ 2 ^ (52 : Nat)) :
    ∃ z : Int, Gives .div [u, v] z ∧ NearestAway (u.value / v.value : Rat) z := by
  obtain ⟨z, hz, hnearest⟩ := Amount.exactly_div u.amount_eq v.amount_eq hv hu
  exact ⟨z, gives_of_fold rfl (quotientOf_eq u.number [v.number]) hz, hnearest⟩

/-- the largest odd dividend: its quotient by two is a half, and goes away from zero -/
theorem quotient_rounded_once_odd :
    Gives .div [.ofInt (2 ^ (52 : Nat) - 1) (by decide), .ofInt (-2) (by decide)]
      (-(2 ^ (51 : Nat))) := by
  obtain ⟨z, hz, hnearest⟩ := quotient_rounded_once
    (.ofInt (2 ^ (52 : Nat) - 1) (by decide)) (.ofInt (-2) (by decide)) (by decide) (by decide)
  have hhalf : NearestAway
      ((Amount.signed false (2 ^ (52 : Nat) - 1) : Rat) / Amount.signed true 2)
      (Amount.signed true (2 ^ (51 : Nat))) := by
    rw [Amount.signed_div]
    exact nearestAway_signed _ (by decide) (by decide) (by decide)
  have hz' : z = -(2 ^ (51 : Nat)) := hnearest.unique hhalf
  rw [← hz']
  exact hz

/-- A quotient just below a half is rounded onto it, for the first dividend for which that can be:
`67108864` would be the nearest integer. -/
example : ((Amount.ofInt (2 ^ (52 : Nat) + 2 ^ (26 : Nat) + 2 ^ (25 : Nat))).div
    (.ofInt (2 ^ (26 : Nat) + 1))).roundHalfAway = .ofInt (2 ^ (26 : Nat) + 1) := by
  decide +kernel

end Abacus
