import Abacus.Amount.Arithmetic
import Abacus.Amount.Refusal

/-!
# Whole amounts

Rounding a finite amount to a whole number: down, toward zero, and to the nearest one with a half
going away from zero.  The last is computed on amounts: the whole part is subtracted from the
magnitude, and what is left is compared with a half.  The subtraction is exact, and the whole number
that is chosen is an amount, so nothing is rounded twice and no step is refused.

* `Amount.floor`           the largest integer below;
* `Amount.truncate`        the integer without the fraction;
* `Amount.rounding`        the steps to the nearest whole amount;
* `Amount.sub_whole`       **the whole part is subtracted exactly**;
* `Amount.rounding_finite` what the steps give;
* `Amount.roundHalfAway`   the nearest whole amount, a zero always positive.
-/

namespace Abacus

attribute [local instance] ownPow

/-! ## Whole counts on the grid -/

/-- the count of whole ones nearest to `n` units, a half going up -/
def nearestOnes (n : Nat) : Nat :=
  let whole := n / unitsPerOne
  if unitsPerOne ≤ 2 * (n % unitsPerOne) then whole + 1 else whole

theorem unitsPerOne_dvd {n : Nat} (h : Fits n) (hn : 2 ^ (52 : Nat) * unitsPerOne ≤ n) :
    unitsPerOne ∣ n := by
  have hpos : 0 < n := Nat.lt_of_lt_of_le (Nat.mul_pos (Nat.two_pow_pos 52) unitsPerOne_pos) hn
  have hlog : 52 + unitExponent ≤ n.log2 := by
    rw [Nat.le_log2 (Nat.ne_of_gt hpos), Nat.pow_add, ← unitsPerOne_eq]
    exact hn
  rw [unitsPerOne_eq]
  exact Nat.dvd_trans (Nat.pow_dvd_pow 2 (Nat.le_sub_of_add_le' hlog)) h.1

theorem nearestOnes_mul (m : Nat) : nearestOnes (unitsPerOne * m) = m := by
  simp [nearestOnes, Nat.mul_div_cancel_left _ unitsPerOne_pos, Nat.ne_of_gt unitsPerOne_pos]

theorem nearestOnes_le (n : Nat) : nearestOnes n ≤ n / unitsPerOne + 1 := by
  unfold nearestOnes
  dsimp only
  split <;> omega

theorem fits_ones {k : Nat} (h : k ≤ 2 ^ (52 : Nat)) : Fits (k * unitsPerOne) := by
  rw [unitsPerOne_eq]
  refine fits_shift (Nat.le_trans h (by decide)) ?_
  rw [ceiling_eq]
  refine Nat.lt_of_le_of_lt (Nat.mul_le_mul_right _ h) ?_
  rw [← Nat.pow_add]
  exact Nat.pow_lt_pow_right (by decide) (by decide)

section
variable {n : Nat} (h : Fits n)
include h

theorem fits_floor : Fits (n / unitsPerOne * unitsPerOne) := by
  by_cases hn : 2 ^ (52 : Nat) * unitsPerOne ≤ n
  · rw [Nat.div_mul_cancel (unitsPerOne_dvd h hn)]
    exact h
  · apply fits_ones
    exact Nat.le_of_lt ((Nat.div_lt_iff_lt_mul unitsPerOne_pos).2 (Nat.lt_of_not_le hn))

theorem fits_nearestOnes : Fits (nearestOnes n * unitsPerOne) := by
  by_cases hn : 2 ^ (52 : Nat) * unitsPerOne ≤ n
  · obtain ⟨m, rfl⟩ := unitsPerOne_dvd h hn
    rw [nearestOnes_mul, Nat.mul_comm]
    exact h
  · apply fits_ones
    have hlt := (Nat.div_lt_iff_lt_mul unitsPerOne_pos).2 (Nat.lt_of_not_le hn)
    exact Nat.le_trans (nearestOnes_le n) hlt

/-- **The fraction of a point of the grid is on the grid.**  The spacing around the point divides
the point and the unit, so it divides what is left, and the spacing there is no larger. -/
theorem fits_mod : Fits (n % unitsPerOne) := by
  by_cases hzero : n % unitsPerOne = 0
  · rw [hzero]
    exact fits_zero
  · have hle : n % unitsPerOne ≤ n := Nat.mod_le _ _
    have hne : n ≠ 0 := by omega
    have hlog : n.log2 < 52 + unitExponent := by
      rw [Nat.log2_lt hne, Nat.pow_add, ← unitsPerOne_eq]
      exact Nat.lt_of_not_le fun hn => hzero (Nat.mod_eq_zero_of_dvd (unitsPerOne_dvd h hn))
    have hunit : 2 ^ (n.log2 - 52) ∣ unitsPerOne := by
      rw [unitsPerOne_eq]
      exact Nat.pow_dvd_pow 2 (by omega)
    have hlower : (n % unitsPerOne).log2 ≤ n.log2 :=
      (Nat.le_log2 hne).2 (Nat.le_trans (Nat.log2_self_le hzero) hle)
    refine ⟨?_, Nat.lt_of_le_of_lt hle h.2⟩
    apply Nat.dvd_trans (Nat.pow_dvd_pow 2 (Nat.sub_le_sub_right hlower 52))
    exact (Nat.dvd_mod_iff hunit).2 h.1

end

namespace Amount

/-! ## Integers -/

def floor : Amount → Except Refusal Int
  | .nan => .error .notNumber
  | .infinite _ => .error .unbounded
  | .finite s n _ => .ok (Int.fdiv (signed s n) unitsPerOne)

def truncate : Amount → Option Int
  | .finite s n _ => some (signed s (n / unitsPerOne))
  | _ => none

def ofWhole (z : Int) : Except Refusal Amount := admitted .tooLarge [] (ofInt z)

def half : Amount := ofRatio false unitsPerOne 2

/-! ## The nearest whole amount -/

/-- the steps of rounding: a half goes away from zero, and a zero result is positive -/
def rounding (x : Amount) : Except Refusal Amount :=
  if x.isFinite then do
    let magnitude := x.abs
    let whole ← magnitude.floor
    let fraction := magnitude.sub (← ofWhole whole)
    let rounded ← ofWhole (if half.isAtMost fraction then whole + 1 else whole)
    return if rounded.isZero then zero false else rounded.copySign x
  else .ok x

section
variable {s : Bool} {n k : Nat} {h : Fits n} {hk : Fits (k * unitsPerOne)}

theorem ok_bind {α β : Type} (a : α) (k : α → Except Refusal β) : (Except.ok a >>= k) = k a := rfl

theorem floor_magnitude : floor (.finite false n h) = .ok ((n / unitsPerOne : Nat) : Int) := by
  show Except.ok (Int.fdiv (n : Int) unitsPerOne) = _
  rw [Int.fdiv_eq_ediv_of_nonneg _ (Int.natCast_nonneg _), Int.natCast_ediv]

theorem ofWhole_natCast (hk : Fits (k * unitsPerOne)) :
    ofWhole (k : Int) = .ok (.finite false (k * unitsPerOne) hk) := by
  have hint : ofInt (k : Int) = .finite false (k * unitsPerOne) hk := by
    rw [ofInt, Int.natAbs_natCast, decide_eq_false (by omega), ofRatio_one false hk]
  rw [ofWhole, hint]
  rfl

theorem ofUnits_natCast {r : Nat} (hr : Fits r) :
    (if (r : Int) = 0 then zero false else ofUnits r) = .finite false r hr := by
  by_cases hzero : r = 0
  · subst hzero
    rfl
  · rw [if_neg (by omega), ofUnits, decide_eq_false (by omega), Int.natAbs_natCast,
      ofRatio_one false hr]

theorem signed_sub_whole (n : Nat) :
    signed false n + signed true (n / unitsPerOne * unitsPerOne) = (n % unitsPerOne : Nat) := by
  have hdiv := Nat.div_add_mod' n unitsPerOne
  generalize n / unitsPerOne * unitsPerOne = whole at *
  generalize n % unitsPerOne = fraction at *
  subst hdiv
  simp only [signed, Bool.false_eq_true, if_false, if_true]
  omega

/-- **The whole part of a magnitude is subtracted exactly**, and leaves the fraction. -/
theorem sub_whole (h : Fits n) : sub (.finite false n h)
    (.finite false (n / unitsPerOne * unitsPerOne) (fits_floor h)) =
      .finite false (n % unitsPerOne) (fits_mod h) := by
  simp only [sub, neg, add, Bool.not_false, signed_sub_whole]
  exact ofUnits_natCast (fits_mod h)

theorem half_eq : ∃ m hm, half = .finite false m hm ∧ 2 * m = unitsPerOne := by
  have hgrid : toGrid unitsPerOne 2 = 2 ^ (unitExponent - 1) := by decide +kernel
  have hfits : Fits (2 ^ (unitExponent - 1)) := by decide +kernel
  refine ⟨_, hfits, ?_, by rw [unitsPerOne_eq]; decide +kernel⟩
  have hlt : toGrid unitsPerOne 2 < ceiling := by rw [hgrid]; exact hfits.2
  rw [half, ofRatio]
  simp only [hgrid]
  rw [dif_pos hfits.2]

theorem half_isAtMost : half.isAtMost (.finite false n h) = true ↔ unitsPerOne ≤ 2 * n := by
  obtain ⟨m, hm, heq, hunits⟩ := half_eq
  have hcompare : half.isAtMost (.finite false n h) =
      (decide ((m : Int) < n) || (m : Int) == n) := by rw [heq]; rfl
  rw [hcompare, Bool.or_eq_true, decide_eq_true_eq, beq_iff_eq]
  omega

theorem whole_of_half (n : Nat) {hm : Fits (n % unitsPerOne)} :
    (if half.isAtMost (.finite false (n % unitsPerOne) hm) then ((n / unitsPerOne : Nat) : Int) + 1
      else (n / unitsPerOne : Nat)) = (nearestOnes n : Nat) := by
  unfold nearestOnes
  dsimp only
  by_cases hhalf : unitsPerOne ≤ 2 * (n % unitsPerOne)
  · rw [if_pos (half_isAtMost.2 hhalf), if_pos hhalf, Int.natCast_add, Int.natCast_one]
  · rw [if_neg (mt half_isAtMost.1 hhalf), if_neg hhalf]

theorem isZero_whole : (Amount.finite s (k * unitsPerOne) hk).isZero = true ↔ k = 0 := by
  show (k * unitsPerOne == 0) = true ↔ k = 0
  rw [beq_iff_eq, Nat.mul_eq_zero]
  exact or_iff_left (Nat.ne_of_gt unitsPerOne_pos)

/-- **The steps of rounding lead to the nearest count of ones**, whatever the magnitude. -/
theorem rounding_finite : rounding (.finite s n h) =
    .ok (if nearestOnes n = 0 then zero false
      else .finite s (nearestOnes n * unitsPerOne) (fits_nearestOnes h)) := by
  have hsteps : rounding (.finite s n h) =
      (floor (.finite false n h) >>= fun whole => ofWhole whole >>= fun amount =>
        ofWhole (if half.isAtMost (sub (.finite false n h) amount) then whole + 1 else whole) >>=
          fun rounded => Except.ok (if rounded.isZero then zero false
            else rounded.copySign (.finite s n h))) := by
    rw [rounding, isFinite, if_pos rfl]
    rfl
  rw [hsteps, floor_magnitude, ok_bind, ofWhole_natCast (fits_floor h), ok_bind, sub_whole,
    whole_of_half, ofWhole_natCast (fits_nearestOnes h), ok_bind]
  by_cases hzero : nearestOnes n = 0
  · rw [if_pos (isZero_whole.2 hzero), if_pos hzero]
  · rw [if_neg (mt isZero_whole.1 hzero), if_neg hzero]
    rfl

end

theorem exists_rounding (x : Amount) : ∃ y, x.rounding = .ok y := by
  cases x with
  | nan => exact ⟨_, rfl⟩
  | infinite s => exact ⟨_, rfl⟩
  | finite s n h => exact ⟨_, rounding_finite⟩

/-- **The nearest whole amount**, a half going away from zero; what is not finite is kept -/
def roundHalfAway (x : Amount) : Amount :=
  match h : x.rounding with
  | .ok y => y
  | .error r => absurd h (by obtain ⟨y, hy⟩ := x.exists_rounding; rw [hy]; nofun)

/-- no step of rounding is refused -/
theorem rounding_eq (x : Amount) : x.rounding = .ok x.roundHalfAway := by
  unfold roundHalfAway
  split
  · next y h => exact h
  · next r h =>
    obtain ⟨y, hy⟩ := x.exists_rounding
    rw [hy] at h
    cases h

@[simp] theorem roundHalfAway_nan : roundHalfAway .nan = .nan :=
  (Except.ok.inj (rounding_eq .nan)).symm

@[simp] theorem roundHalfAway_infinite (s : Bool) :
    roundHalfAway (.infinite s) = .infinite s :=
  (Except.ok.inj (rounding_eq (.infinite s))).symm

theorem roundHalfAway_units (s : Bool) (n : Nat) (h : Fits n) : roundHalfAway (.finite s n h) =
    if nearestOnes n = 0 then zero false
    else .finite s (nearestOnes n * unitsPerOne) (fits_nearestOnes h) :=
  Except.ok.inj ((rounding_eq _).symm.trans rounding_finite)

end Amount

end Abacus
