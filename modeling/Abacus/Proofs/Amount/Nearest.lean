import Abacus.Amount.Whole
import Mathlib.Data.Nat.Dist

/-!
# Nearest points

What rounding says of distances, told without the algorithm.  A quotient goes to the nearest whole
number, and to the even one of two; on the grid it goes to a point that no other point is nearer
than.  So a count that is written with some places and read again is written as before: the point
that is read is no further from the text than the count was.

* `nearestEven_eq_iff`   the whole number nearest to a quotient;
* `dist_toGrid_le`       the point of the grid nearest to a quotient;
* `toGrid_le`, `le_toGrid`   a quotient stays on its side of every point of the grid;
* `dist_toGrid_lt`       the error of rounding, against the quotient;
* `toGrid_mul_right`     a quotient is rounded, and not the way it is written;
* `nearestEven_toGrid`   **places survive the grid**;
* `toGrid_lt_ceiling`    and the way there does not leave it.
-/

namespace Abacus

attribute [local instance] ownPow

section
variable {p q m n k t : Nat}

/-! ## Whole numbers -/

/-- **The nearest whole number** to `p / q` is at most a half away, and even if it is that far. -/
theorem nearestEven_eq_iff (hq : 0 < q) : nearestEven p q = m ↔
    2 * p.dist (m * q) ≤ q ∧ (2 * p.dist (m * q) = q → m % 2 = 0) := by
  have hp : p = q * (p / q) + p % q := (Nat.div_add_mod p q).symm
  have hr : p % q < q := Nat.mod_lt p hq
  unfold nearestEven Nat.dist
  generalize p / q = a at *
  generalize p % q = r at *
  have hcomm : a * q = q * a := Nat.mul_comm a q
  have hnext : (a + 1) * q = q * a + q := by rw [Nat.succ_mul, hcomm]
  constructor
  · rintro rfl
    by_cases hlow : 2 * r < q
    · rw [if_pos hlow, hcomm]
      omega
    · by_cases hhigh : q < 2 * r
      · rw [if_neg hlow, if_pos hhigh, hnext]
        omega
      · rw [if_neg hlow, if_neg hhigh]
        rcases Nat.mod_two_eq_zero_or_one a with heven | hodd
        · rw [heven, Nat.add_zero, hcomm]
          omega
        · rw [hodd, hnext]
          omega
  · rintro ⟨hclose, heven⟩
    have hle : m ≤ a + 1 := by
      by_contra hlt
      have hmul := Nat.mul_le_mul_right q (show a + 1 + 1 ≤ m by omega)
      rw [Nat.succ_mul, hnext] at hmul
      omega
    have hge : a ≤ m := by
      by_contra hlt
      have hmul := Nat.mul_le_mul_right q (show m + 1 ≤ a by omega)
      rw [Nat.succ_mul, hcomm] at hmul
      omega
    rcases (show m = a ∨ m = a + 1 by omega) with rfl | rfl
    · rw [hcomm] at hclose heven
      split
      · rfl
      · split
        · omega
        · omega
    · rw [hnext] at hclose heven
      split
      · omega
      · split
        · rfl
        · omega

theorem dist_nearestEven_le (hq : 0 < q) (p m : Nat) :
    p.dist (nearestEven p q * q) ≤ p.dist (m * q) := by
  obtain ⟨hclose, -⟩ := (nearestEven_eq_iff hq).1 (rfl : nearestEven p q = _)
  generalize nearestEven p q = g at *
  unfold Nat.dist at *
  rcases Nat.lt_trichotomy m g with hlt | rfl | hlt
  · have hmul := Nat.mul_le_mul_right q (show m + 1 ≤ g from hlt)
    rw [Nat.succ_mul] at hmul
    omega
  · exact Nat.le_refl _
  · have hmul := Nat.mul_le_mul_right q (show g + 1 ≤ m from hlt)
    rw [Nat.succ_mul] at hmul
    omega

theorem nearestEven_mul_right (hk : 0 < k) (p q : Nat) :
    nearestEven (p * k) (q * k) = nearestEven p q := by
  have hrest : p * k % (q * k) = p % q * k := Nat.mul_mod_mul_right k p q
  have hdouble : 2 * (p % q * k) = 2 * (p % q) * k := (Nat.mul_assoc 2 _ k).symm
  unfold nearestEven
  rw [hrest, hdouble, Nat.mul_div_mul_right p q hk]
  simp only [Nat.mul_lt_mul_right hk]

/-! ## The grid -/

/-- **No point of the grid is nearer** to a quotient than the one it is rounded to. -/
theorem dist_toGrid_le (hq : 0 < q) (hn : 2 ^ spacing n ∣ n) (p : Nat) :
    p.dist (toGrid p q * q) ≤ p.dist (n * q) := by
  have hstep : 0 < q * 2 ^ spacing (p / q) := Nat.mul_pos hq (Nat.two_pow_pos _)
  have hgrid (m : Nat) : m * 2 ^ spacing (p / q) * q = m * (q * 2 ^ spacing (p / q)) := by
    rw [Nat.mul_assoc, Nat.mul_comm q]
  unfold toGrid
  rw [hgrid]
  by_cases hle : spacing (p / q) ≤ spacing n
  · obtain ⟨m, hm⟩ := Nat.dvd_trans (Nat.pow_dvd_pow 2 hle) hn
    rw [Nat.mul_comm] at hm
    rw [hm, hgrid]
    exact dist_nearestEven_le hstep p m
  · have hlog : n.log2 < (p / q).log2 ∧ spacing (p / q) + 52 = (p / q).log2 := by
      unfold spacing at hle ⊢
      omega
    have htop : p / q ≠ 0 := by
      intro hzero
      rw [hzero, Nat.log2_zero] at hlog
      omega
    have hlow : n < 2 ^ (p / q).log2 :=
      Nat.lt_of_lt_of_le Nat.lt_log2_self (Nat.pow_le_pow_right (by decide) hlog.1)
    have hpower : 2 ^ (52 : Nat) * 2 ^ spacing (p / q) = 2 ^ (p / q).log2 := by
      rw [← Nat.pow_add, Nat.add_comm, hlog.2]
    have hbelow : 2 ^ (p / q).log2 * q ≤ p :=
      (Nat.le_div_iff_mul_le hq).1 (Nat.log2_self_le htop)
    have hmul := Nat.mul_le_mul_right q (Nat.le_of_lt hlow)
    have hnear := dist_nearestEven_le hstep p (2 ^ (52 : Nat))
    rw [← hgrid (2 ^ (52 : Nat)), hpower] at hnear
    unfold Nat.dist at *
    omega

theorem toGrid_le (hq : 0 < q) (hn : 2 ^ spacing n ∣ n) (h : p ≤ n * q) : toGrid p q ≤ n := by
  have hnearest := dist_toGrid_le hq hn p
  refine Nat.le_of_mul_le_mul_right ?_ hq
  unfold Nat.dist at hnearest
  omega

theorem le_toGrid (hq : 0 < q) (hn : 2 ^ spacing n ∣ n) (h : n * q ≤ p) : n ≤ toGrid p q := by
  have hnearest := dist_toGrid_le hq hn p
  refine Nat.le_of_mul_le_mul_right ?_ hq
  unfold Nat.dist at hnearest
  omega

/-- **The error of rounding** is less than the `2 ^ 53`-rd part of a quotient that is not tiny. -/
theorem dist_toGrid_lt (hq : 0 < q) (hp : 2 ^ (52 : Nat) * q ≤ p) :
    2 ^ (53 : Nat) * p.dist (toGrid p q * q) < p := by
  have hlarge : 2 ^ (52 : Nat) ≤ p / q := (Nat.le_div_iff_mul_le hq).2 hp
  have hne : p / q ≠ 0 := Nat.ne_of_gt (Nat.lt_of_lt_of_le (Nat.two_pow_pos 52) hlarge)
  have hlog : 52 + spacing (p / q) = (p / q).log2 := by
    have hle := (Nat.le_log2 hne).2 hlarge
    unfold spacing
    omega
  have hpower : 2 ^ (52 : Nat) * (q * 2 ^ spacing (p / q)) ≤ p := by
    rw [Nat.mul_left_comm, ← Nat.pow_add, hlog, Nat.mul_comm]
    exact (Nat.le_div_iff_mul_le hq).1 (Nat.log2_self_le hne)
  have hstep : 0 < q * 2 ^ spacing (p / q) := Nat.mul_pos hq (Nat.two_pow_pos _)
  have hgrid : toGrid p q * q =
      nearestEven p (q * 2 ^ spacing (p / q)) * (q * 2 ^ spacing (p / q)) := by
    unfold toGrid
    rw [Nat.mul_assoc, Nat.mul_comm _ q]
  rw [hgrid]
  generalize q * 2 ^ spacing (p / q) = step at *
  obtain ⟨hclose, -⟩ := (nearestEven_eq_iff hstep).1 (rfl : nearestEven p step = _)
  rcases Nat.eq_or_lt_of_le hpower with heq | hlt
  · have hexact : nearestEven p step = 2 ^ (52 : Nat) := by
      rw [← heq]
      exact nearestEven_mul _ hstep
    rw [hexact, heq, Nat.dist_self, Nat.mul_zero, ← heq]
    exact Nat.mul_pos (Nat.two_pow_pos 52) hstep
  · omega

theorem toGrid_mul_right (hk : 0 < k) (p q : Nat) : toGrid (p * k) (q * k) = toGrid p q := by
  unfold toGrid
  rw [Nat.mul_div_mul_right p q hk, Nat.mul_right_comm, nearestEven_mul_right hk]

theorem Amount.ofRatio_mul_right (s : Bool) (hk : 0 < k) (p q : Nat) :
    Amount.ofRatio s (p * k) (q * k) = Amount.ofRatio s p q := by
  unfold Amount.ofRatio
  simp only [toGrid_mul_right hk]

theorem unitsPerOne_dvd_toGrid (n : Nat) : unitsPerOne ∣ toGrid (n * unitsPerOne) 1 := by
  by_cases hn : 2 ^ (52 : Nat) ≤ n
  · have hpos : n * unitsPerOne ≠ 0 :=
      Nat.ne_of_gt (Nat.mul_pos (Nat.lt_of_lt_of_le (Nat.two_pow_pos 52) hn) unitsPerOne_pos)
    have hlog : 52 + unitExponent ≤ (n * unitsPerOne).log2 := by
      rw [Nat.le_log2 hpos, Nat.pow_add, ← unitsPerOne_eq]
      exact Nat.mul_le_mul_right _ hn
    have hspacing : unitExponent ≤ spacing (n * unitsPerOne / 1) := by
      rw [Nat.div_one, spacing]
      omega
    have hdvd {s : Nat} (hs : unitExponent ≤ s) : unitsPerOne ∣ 2 ^ s := by
      rw [unitsPerOne_eq]
      exact Nat.pow_dvd_pow 2 hs
    exact Nat.dvd_trans (hdvd hspacing) (Nat.dvd_mul_left _ _)
  · have hgrid : 2 ^ ((n * unitsPerOne).log2 - 52) ∣ n * unitsPerOne := by
      rw [unitsPerOne_eq]
      exact dvd_of_significand (Nat.le_trans (Nat.le_of_not_le hn) (by decide))
    rw [toGrid_one hgrid]
    exact Nat.dvd_mul_left _ _

/-! ## Places -/

/-- the point that is read is no further from what was written than the count that was written -/
theorem dist_reread_le (hn : Fits n) (ht : 0 < t) :
    2 * (nearestEven (n * t) unitsPerOne * unitsPerOne).dist
      (toGrid (nearestEven (n * t) unitsPerOne * unitsPerOne) t * t) ≤ unitsPerOne := by
  obtain ⟨hclose, -⟩ := (nearestEven_eq_iff unitsPerOne_pos).1 (rfl : nearestEven (n * t) _ = _)
  have hnearest := dist_toGrid_le ht hn.1 (nearestEven (n * t) unitsPerOne * unitsPerOne)
  rw [Nat.dist_comm] at hclose
  omega

/-- **Places survive the grid.**  A count is written as a whole number of `t`-th parts of one; the
point that this number reads as is written as the same number. -/
theorem nearestEven_toGrid (hn : Fits n) (ht : 0 < t) :
    nearestEven (toGrid (nearestEven (n * t) unitsPerOne * unitsPerOne) t * t) unitsPerOne =
      nearestEven (n * t) unitsPerOne := by
  obtain ⟨hclose, heven⟩ := (nearestEven_eq_iff unitsPerOne_pos).1 (rfl : nearestEven (n * t) _ = _)
  have hreread := dist_reread_le hn ht
  have hnearest := dist_toGrid_le ht hn.1 (nearestEven (n * t) unitsPerOne * unitsPerOne)
  generalize nearestEven (n * t) unitsPerOne = m at *
  rw [Nat.dist_comm] at hreread
  refine (nearestEven_eq_iff unitsPerOne_pos).2 ⟨hreread, fun hhalf => heven ?_⟩
  -- if what is read is a half away, then so is what was written
  rw [Nat.dist_comm (m * unitsPerOne), Nat.dist_comm (m * unitsPerOne)] at hnearest
  omega

theorem toGrid_lt_ceiling (hn : Fits n) (ht : 0 < t) :
    toGrid (nearestEven (n * t) unitsPerOne * unitsPerOne) t < ceiling := by
  by_cases hlarge : 2 ^ (52 : Nat) * unitsPerOne ≤ n
  · obtain ⟨m, rfl⟩ := unitsPerOne_dvd hn hlarge
    have hexact : nearestEven (unitsPerOne * m * t) unitsPerOne = m * t := by
      rw [Nat.mul_comm unitsPerOne m, Nat.mul_right_comm, nearestEven_mul _ unitsPerOne_pos]
    have hratio : toGrid (m * t * unitsPerOne) t = toGrid (unitsPerOne * m) 1 := by
      rw [Nat.mul_right_comm, Nat.mul_comm m, ← toGrid_mul_right ht _ 1, Nat.one_mul]
    rw [hexact, hratio, toGrid_of_fits hn]
    exact hn.2
  · have hreread := dist_reread_le hn ht
    obtain ⟨hclose, -⟩ := (nearestEven_eq_iff unitsPerOne_pos).1 (rfl : nearestEven (n * t) _ = _)
    generalize nearestEven (n * t) unitsPerOne = m at *
    have hback : toGrid (m * unitsPerOne) t * t ≤ (n + unitsPerOne) * t := by
      have hone := Nat.le_mul_of_pos_right unitsPerOne ht
      rw [Nat.add_mul]
      unfold Nat.dist at *
      omega
    have hle : toGrid (m * unitsPerOne) t ≤ n + unitsPerOne := Nat.le_of_mul_le_mul_right hback ht
    have hroom : 2 ^ (52 : Nat) * unitsPerOne + unitsPerOne ≤ ceiling := by
      rw [← Nat.succ_mul, unitsPerOne_eq, ceiling_eq]
      refine Nat.le_trans (Nat.mul_le_mul_right _ (show _ ≤ 2 ^ (53 : Nat) by decide)) ?_
      rw [← Nat.pow_add]
      exact Nat.pow_le_pow_right (by decide) (by decide)
    omega

end

end Abacus
