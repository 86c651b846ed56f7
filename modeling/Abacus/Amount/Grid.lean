/-!
# The grid of amounts

An amount is a whole number of units, one unit being `2 ^ (-1074)`.  The grid holds the counts of
units with at most 53 significant binary digits below `2 ^ 2098`; every other positive rational is
rounded to it once, to the nearest point, a tie going to the even neighbour.

* `unitsPerOne`      the count of units in one;
* `ceiling`          the first count of units that is too large;
* `Fits n`           `n` is a point of the grid;
* `nearestEven p q`  the whole number nearest to `p / q`;
* `toGrid p q`       the count nearest to `p / q` with at most 53 significant digits;
* `fits_toGrid`      below the ceiling, rounding gives a point of the grid.
-/

namespace Abacus

/-- powers by the operation of the type itself, whatever other instances there are -/
@[reducible] def ownPow {α : Type} [NatPow α] : Pow α Nat := instPowNat

attribute [local instance] ownPow

def unitExponent : Nat := 1074

def ceilingExponent : Nat := 2098

@[irreducible] def unitsPerOne : Nat := 2 ^ unitExponent

@[irreducible] def ceiling : Nat := 2 ^ ceilingExponent

theorem unitsPerOne_eq : unitsPerOne = 2 ^ unitExponent := by unfold unitsPerOne; rfl

theorem ceiling_eq : ceiling = 2 ^ ceilingExponent := by unfold ceiling; rfl

def Fits (n : Nat) : Prop := 2 ^ (n.log2 - 52) ∣ n ∧ n < ceiling

instance (n : Nat) : Decidable (Fits n) := inferInstanceAs (Decidable (_ ∧ _))

theorem unitsPerOne_pos : 0 < unitsPerOne := unitsPerOne_eq ▸ Nat.two_pow_pos unitExponent

theorem ceiling_pos : 0 < ceiling := ceiling_eq ▸ Nat.two_pow_pos ceilingExponent

theorem fits_zero : Fits 0 := ⟨Nat.dvd_zero _, ceiling_pos⟩

/-! ## Rounding to whole numbers -/

def nearestEven (p q : Nat) : Nat :=
  if 2 * (p % q) < q then p / q
  else if q < 2 * (p % q) then p / q + 1
  else p / q + p / q % 2

theorem nearestEven_le (p q : Nat) : nearestEven p q ≤ p / q + 1 := by
  unfold nearestEven
  split
  · omega
  · split
    · omega
    · omega

theorem nearestEven_mul (n : Nat) {q : Nat} (h : 0 < q) : nearestEven (n * q) q = n := by
  simp [nearestEven, h, Nat.mul_div_cancel n h]

/-! ## Rounding to the grid -/

/-- the spacing of the grid around a count whose whole part is `n`, as a power of two -/
def spacing (n : Nat) : Nat := n.log2 - 52

/-- the count nearest to `p / q` with at most 53 significant digits, the even one of two -/
def toGrid (p q : Nat) : Nat :=
  nearestEven p (q * 2 ^ spacing (p / q)) * 2 ^ spacing (p / q)

/-- the significand left by rounding has 53 digits, or is the power of two above them -/
theorem nearestEven_spacing_le (p q : Nat) :
    nearestEven p (q * 2 ^ spacing (p / q)) ≤ 2 ^ (53 : Nat) := by
  refine Nat.le_trans (nearestEven_le _ _) ?_
  rw [← Nat.div_div_eq_div_mul]
  have hlt : p / q < 2 ^ ((p / q).log2 + 1) := Nat.lt_log2_self
  have hpow : 2 ^ ((p / q).log2 + 1) ≤ 2 ^ (53 : Nat) * 2 ^ spacing (p / q) := by
    rw [← Nat.pow_add]
    exact Nat.pow_le_pow_right (by decide) (by unfold spacing; omega)
  exact (Nat.div_lt_iff_lt_mul (Nat.two_pow_pos _)).2 (Nat.lt_of_lt_of_le hlt hpow)

theorem dvd_of_significand {u s : Nat} (h : u ≤ 2 ^ (53 : Nat)) :
    2 ^ ((u * 2 ^ s).log2 - 52) ∣ u * 2 ^ s := by
  rcases Nat.eq_or_lt_of_le h with rfl | hlt
  · rw [← Nat.pow_add, Nat.log2_two_pow]
    exact Nat.pow_dvd_pow 2 (by omega)
  · by_cases hz : u * 2 ^ s = 0
    · rw [hz]
      exact Nat.dvd_zero _
    · have hlog : (u * 2 ^ s).log2 < 53 + s := by
        rw [Nat.log2_lt hz, Nat.pow_add]
        exact Nat.mul_lt_mul_of_pos_right hlt (Nat.two_pow_pos s)
      exact Nat.dvd_trans (Nat.pow_dvd_pow 2 (by omega)) (Nat.dvd_mul_left _ _)

/-- **Rounding gives a point of the grid** unless it reaches the ceiling. -/
theorem fits_toGrid {p q : Nat} (h : toGrid p q < ceiling) : Fits (toGrid p q) :=
  ⟨dvd_of_significand (nearestEven_spacing_le p q), h⟩

/-- a significand of at most 53 digits, shifted up, is a point of the grid below the ceiling -/
theorem fits_shift {u s : Nat} (h : u ≤ 2 ^ (53 : Nat)) (hlt : u * 2 ^ s < ceiling) :
    Fits (u * 2 ^ s) :=
  ⟨dvd_of_significand h, hlt⟩

theorem toGrid_one {n : Nat} (h : 2 ^ (n.log2 - 52) ∣ n) : toGrid n 1 = n := by
  obtain ⟨m, hm⟩ := h
  have hs : spacing (n / 1) = n.log2 - 52 := by simp [spacing]
  unfold toGrid
  rw [hs, Nat.one_mul]
  generalize n.log2 - 52 = s at *
  rw [hm, Nat.mul_comm (2 ^ s) m, nearestEven_mul m (Nat.two_pow_pos s)]

theorem toGrid_of_fits {n : Nat} (h : Fits n) : toGrid n 1 = n := toGrid_one h.1

end Abacus
