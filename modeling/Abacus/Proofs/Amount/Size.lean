import Abacus.Amount.Power
import Abacus.Proofs.Amount.Nearest

/-!
# The size of results

Roots and logarithms of finite amounts are finite: a root is computed from below, and the series of
a logarithm has few terms, none of them above one.  An exponential is never negative.

* `isFinite_ofRatio`       a quotient below a power of two that is an amount;
* `floorRoot_pow_le`       a whole root is not above the root;
* `isFinite_ofRoot`        roots are finite;
* `Enclosure.Within`       both bounds of an enclosure are small;
* `within_logOf`           **the bounds of a logarithm are small**;
* `settle_induction`       what the ends of all enclosures share, the decided amount has;
* `isFinite_log`, `isFinite_squareRoot`, `isFinite_cubeRoot`, `isFinite_remainder`;
* `positive_exp`, `positive_exp2`   exponentials are not negative.
-/

namespace Abacus

attribute [local instance] ownPow

namespace Amount

theorem isFinite_ofRatio {s : Bool} {p q n : Nat} (hq : 0 < q) (hn : Fits n) (h : p ≤ n * q) :
    (ofRatio s p q).isFinite = true := by
  have hlt : toGrid p q < ceiling := Nat.lt_of_le_of_lt (toGrid_le hq hn.1 h) hn.2
  unfold ofRatio
  dsimp only
  rw [dif_pos hlt]
  rfl

theorem fits_twoPow {e : Nat} (he : e < ceilingExponent) : Fits (2 ^ e) := by
  refine ⟨?_, ?_⟩
  · rw [Nat.log2_two_pow]
    exact Nat.pow_dvd_pow 2 (Nat.sub_le e 52)
  · rw [ceiling_eq]
    exact Nat.pow_lt_pow_right (by decide) he

theorem one_eq : ∃ h, one = .finite false unitsPerOne h := by
  have hfits : Fits unitsPerOne := by decide +kernel
  refine ⟨hfits, ?_⟩
  show ofRatio false (1 * unitsPerOne) 1 = _
  rw [Nat.one_mul]
  exact ofRatio_one false hfits

end Amount

/-! ## Roots -/

theorem floorRootUpTo_pow_le {k : Nat} (hk : 0 < k) (fuel n : Nat) :
    floorRootUpTo k fuel n ^ k ≤ n := by
  induction fuel generalizing n with
  | zero =>
    rw [floorRootUpTo, Nat.zero_pow hk]
    exact Nat.zero_le n
  | succ fuel ih =>
    unfold floorRootUpTo
    dsimp only
    split
    · assumption
    · rw [Nat.mul_pow]
      calc 2 ^ k * floorRootUpTo k fuel (n / 2 ^ k) ^ k
        _ ≤ 2 ^ k * (n / 2 ^ k) := Nat.mul_le_mul_left _ (ih _)
        _ ≤ n := Nat.mul_div_le n _

theorem floorRoot_pow_le {k : Nat} (hk : 0 < k) (n : Nat) : floorRoot k n ^ k ≤ n :=
  floorRootUpTo_pow_le hk _ n

namespace Amount

theorem isFinite_ofRoot {s : Bool} {k n m e : Nat} (hk : 0 < k) (he : e < ceilingExponent)
    (hm : m ≤ e * k) (hn : n < 2 ^ m) : (ofRoot s k n).isFinite = true := by
  have hhalves : floorRoot k (n * 2 ^ k) < 2 * 2 ^ e := by
    by_contra hlarge
    apply Nat.not_le.2 (Nat.lt_of_lt_of_le hn (Nat.pow_le_pow_right (by decide) hm))
    refine Nat.le_of_mul_le_mul_right ?_ (Nat.two_pow_pos k)
    calc 2 ^ (e * k) * 2 ^ k
      _ = (2 * 2 ^ e) ^ k := by rw [Nat.mul_pow, Nat.pow_mul, Nat.mul_comm]
      _ ≤ floorRoot k (n * 2 ^ k) ^ k := Nat.pow_le_pow_left (Nat.le_of_not_lt hlarge) k
      _ ≤ n * 2 ^ k := floorRoot_pow_le hk _
  unfold ofRoot
  dsimp only
  split
  · exact isFinite_ofRatio (by decide) (fits_twoPow he) (by omega)
  · exact isFinite_ofRatio (by decide) (fits_twoPow he) (by omega)

theorem lt_of_fits {n : Nat} (h : Fits n) : n < 2 ^ ceilingExponent := by
  rw [← ceiling_eq]
  exact h.2

theorem mul_units_lt {n m k : Nat} (h : n < 2 ^ m) :
    n * unitsPerOne ^ k < 2 ^ (m + unitExponent * k) := by
  rw [unitsPerOne_eq, ← Nat.pow_mul, Nat.pow_add]
  exact Nat.mul_lt_mul_of_pos_right h (Nat.two_pow_pos _)

theorem isFinite_squareRoot {n : Nat} (h : Fits n) :
    (ofRoot false 2 (n * unitsPerOne)).isFinite = true := by
  have hlt := mul_units_lt (k := 1) (lt_of_fits h)
  rw [Nat.pow_one] at hlt
  exact isFinite_ofRoot (e := 1586) (by decide) (by decide) (by decide) hlt

theorem isFinite_cubeRoot {s : Bool} {n : Nat} (h : Fits n) :
    (ofRoot s 3 (n * unitsPerOne ^ (2 : Nat))).isFinite = true :=
  isFinite_ofRoot (e := 1416) (by decide) (by decide) (by decide) (mul_units_lt (lt_of_fits h))

end Amount

/-! ## Enclosures -/

namespace Enclosure

structure Within (b : Nat) (x : Enclosure) : Prop where
  lo_le : x.lo.natAbs ≤ b
  hi_le : x.hi.natAbs ≤ b

section
variable {b c : Nat} {x y : Enclosure}

theorem Within.mono (h : x.Within b) (hbc : b ≤ c) : x.Within c :=
  ⟨Nat.le_trans h.lo_le hbc, Nat.le_trans h.hi_le hbc⟩

theorem Within.add (hx : x.Within b) (hy : y.Within c) : (x.add y).Within (b + c) := by
  obtain ⟨hxlo, hxhi⟩ := hx
  obtain ⟨hylo, hyhi⟩ := hy
  refine ⟨?_, ?_⟩
  · show (x.lo + y.lo).natAbs ≤ b + c
    omega
  · show (x.hi + y.hi).natAbs ≤ b + c
    omega

theorem Within.scale (h : x.Within b) (k : Int) : (x.scale k).Within (k.natAbs * b) := by
  have hlo := Nat.mul_le_mul_left k.natAbs h.lo_le
  have hhi := Nat.mul_le_mul_left k.natAbs h.hi_le
  rw [← Int.natAbs_mul] at hlo hhi
  unfold Enclosure.scale
  split
  · exact ⟨hlo, hhi⟩
  · exact ⟨hhi, hlo⟩

end

end Enclosure

section
variable {p squareLo squareHi powerLo powerHi a b : Nat}

/-- a power that is at most one stays so with every further factor, and every term is at most one -/
theorem within_atanhTerms (hsquareLo : squareLo < 2 ^ p) (hsquareHi : squareHi < 2 ^ p)
    (hpowerLo : powerLo ≤ 2 ^ p) (hpowerHi : powerHi ≤ 2 ^ p) (count i : Nat) :
    (atanhTerms p squareLo squareHi count i powerLo powerHi).Within
      ((count + 2) * (2 ^ p + 1)) := by
  have hone : 0 < 2 ^ p := Nat.two_pow_pos p
  induction count generalizing i powerLo powerHi with
  | zero => exact ⟨Nat.zero_le _, by show 2 * powerHi + 2 ≤ _; omega⟩
  | succ count ih =>
    have hnextLo : powerLo * squareLo / 2 ^ p ≤ 2 ^ p :=
      Nat.div_le_of_le_mul (Nat.mul_le_mul hpowerLo (Nat.le_of_lt hsquareLo))
    have hnextHi : powerHi * squareHi / 2 ^ p < 2 ^ p := by
      apply Nat.div_lt_of_lt_mul
      exact Nat.lt_of_le_of_lt (Nat.mul_le_mul_right _ hpowerHi)
        (Nat.mul_lt_mul_of_pos_left hsquareHi hone)
    have hterm : Enclosure.Within (2 ^ p + 1)
        ⟨(powerLo / (2 * i + 1) : Nat), (powerHi / (2 * i + 1) + 1 : Nat)⟩ := by
      have hlo := Nat.div_le_self powerLo (2 * i + 1)
      have hhi := Nat.div_le_self powerHi (2 * i + 1)
      exact ⟨by rw [Int.natAbs_natCast]; omega, by rw [Int.natAbs_natCast]; omega⟩
    refine (hterm.add (ih hnextLo hnextHi (i + 1))).mono ?_
    rw [Nat.add_comm, ← Nat.succ_mul]

theorem within_atanhOf (hp : 3 ≤ p) (hb : 0 < b) (hab : 3 * a ≤ b) :
    (atanhOf p a b).Within ((p / 3 + 4) * (2 ^ p + 1)) := by
  have height : 2 ^ (3 : Nat) ≤ 2 ^ p := Nat.pow_le_pow_right (by decide) hp
  have hthird : 3 * (a * 2 ^ p / b) ≤ 2 ^ p := by
    refine Nat.le_of_mul_le_mul_right ?_ hb
    calc 3 * (a * 2 ^ p / b) * b
      _ = 3 * (a * 2 ^ p / b * b) := Nat.mul_assoc _ _ _
      _ ≤ 3 * (a * 2 ^ p) := Nat.mul_le_mul_left 3 (Nat.div_mul_le_self _ _)
      _ = 3 * a * 2 ^ p := (Nat.mul_assoc _ _ _).symm
      _ ≤ b * 2 ^ p := Nat.mul_le_mul_right _ hab
      _ = 2 ^ p * b := Nat.mul_comm _ _
  have hsquare (n : Nat) (hn : n ≤ 2 ^ p) : n * n / 2 ^ p ≤ n :=
    Nat.div_le_of_le_mul (Nat.mul_comm (2 ^ p) n ▸ Nat.mul_le_mul_left n hn)
  unfold atanhOf
  dsimp only
  generalize a * 2 ^ p / b = lo at *
  have hlo := hsquare lo (by omega)
  have hhi := hsquare (lo + 1) (by omega)
  exact within_atanhTerms (by omega) (by omega) (by omega) (by omega) _ _

/-- **The bounds of a logarithm are small**, whatever the count. -/
theorem within_logOf {n : Nat} (hp : 3 ≤ p) (hn : 0 < n) (hlog : n.log2 < ceilingExponent) :
    (logOf p n).Within (2150 * ((p / 3 + 4) * (2 ^ p + 1))) := by
  have htwo := (within_atanhOf hp (a := 1) (b := 3) (by decide) (by decide)).scale 2
  have hlow := Nat.log2_self_le (Nat.ne_of_gt hn)
  have hhigh : n < 2 ^ (n.log2 + 1) := Nat.lt_log2_self
  rw [Nat.pow_succ] at hhigh
  have hrest := (within_atanhOf hp (a := n - 2 ^ n.log2) (b := n + 2 ^ n.log2) (by omega)
    (by omega)).scale 2
  have hexponent : ((n.log2 : Int) - unitExponent).natAbs ≤ 1074 := by
    unfold ceilingExponent at hlog
    unfold unitExponent
    omega
  refine ((htwo.scale _).add hrest).mono ?_
  generalize (p / 3 + 4) * (2 ^ p + 1) = most at *
  have hscaled := Nat.mul_le_mul_right (2 * most) hexponent
  show _ * (2 * most) + 2 * most ≤ _
  omega

end

/-! ## Decided amounts -/

/-- what both ends have at every precision, and what lies between two amounts that have it, the
decided amount has -/
theorem settle_induction {P : Amount → Prop} {ends : Nat → Amount × Amount}
    (hbetween : ∀ x y, P x → P y → P (x.between y)) {ps : List Nat} (hne : ps ≠ [])
    (hends : ∀ p ∈ ps, P (ends p).1 ∧ P (ends p).2) : P (settle ends ps) := by
  induction ps with
  | nil => exact absurd rfl hne
  | cons p rest ih =>
    obtain ⟨⟨hlo, hhi⟩, hrest⟩ := List.forall_mem_cons.1 hends
    unfold settle
    dsimp only
    split
    · exact hlo
    · split
      · exact hbetween _ _ hlo hhi
      · next hempty => exact ih (mt List.isEmpty_iff.2 hempty) hrest

namespace Amount

theorem isFinite_between {x y : Amount} (hx : x.isFinite = true) (hy : y.isFinite = true) :
    (x.between y).isFinite = true := by
  cases x with
  | nan => cases hx
  | infinite s => cases hx
  | finite s m hm =>
    cases y with
    | nan => cases hy
    | infinite t => cases hy
    | finite t n hn =>
      by_cases hmn : m ≤ n
      · exact isFinite_ofRatio (by decide) hn (by omega)
      · exact isFinite_ofRatio (by decide) hm (by omega)

theorem isFinite_log {n : Nat} {h : Fits n} (hn : n ≠ 0) :
    (log (.finite false n h)).isFinite = true := by
  have hprecisions : ∀ p ∈ precisions, 3 ≤ p ∧ p ≤ 1280 := by decide
  have hlog : n.log2 < ceilingExponent := (Nat.log2_lt hn).2 (lt_of_fits h)
  unfold log
  dsimp only
  rw [if_neg hn, if_neg (by decide)]
  split
  · rfl
  · refine settle_induction (P := (·.isFinite = true)) (fun _ _ => isFinite_between) (by decide) ?_
    intro p hp
    obtain ⟨hleast, hmost⟩ := hprecisions p hp
    have hwithin : (logOf p n).Within (2 ^ (21 : Nat) * 2 ^ p) := by
      apply (within_logOf hleast (Nat.pos_of_ne_zero hn) hlog).mono
      have hterms := Nat.mul_le_mul_right (2 ^ p + 1) (show p / 3 + 4 ≤ 430 by omega)
      have hone := Nat.two_pow_pos p
      omega
    have hbound {z : Int} (hz : z.natAbs ≤ 2 ^ (21 : Nat) * 2 ^ p) :
        (ofBound p z).isFinite = true := by
      have hfits : Fits (2 ^ (21 + unitExponent)) := fits_twoPow (by decide)
      refine isFinite_ofRatio (Nat.two_pow_pos p) hfits ?_
      rw [Nat.pow_add, ← unitsPerOne_eq, Nat.mul_right_comm]
      exact Nat.mul_le_mul_right _ hz
    exact ⟨hbound hwithin.lo_le, hbound hwithin.hi_le⟩

theorem isFinite_remainder {s t : Bool} {m n : Nat} {hm : Fits m} {hn : Fits n} (hne : n ≠ 0) :
    (remainder (.finite s m hm) (.finite t n hn)).isFinite = true := by
  have hrest := Nat.mod_le m n
  unfold remainder
  dsimp only
  rw [if_neg hne]
  split
  · exact isFinite_ofRatio (by decide) hm (by omega)
  · exact isFinite_ofRatio (by decide) hn (by omega)

/-! ## Exponentials -/

def Positive (x : Amount) : Prop := x.isNaN = false ∧ x.isNegative = false

theorem positive_ofRatio (p q : Nat) : (ofRatio false p q).Positive :=
  ⟨isNaN_ofRatio _ _ _, isNegative_ofRatio _ _ _⟩

theorem positive_between {x y : Amount} (hy : y.Positive) : (x.between y).Positive := by
  unfold between
  split
  · exact positive_ofRatio _ _
  · exact hy

theorem positive_expOf (p : Nat) (x : Enclosure) :
    (expOf p x).1.Positive ∧ (expOf p x).2.Positive := by
  unfold expOf
  split
  · exact ⟨⟨rfl, rfl⟩, ⟨rfl, rfl⟩⟩
  · split
    · exact ⟨⟨rfl, rfl⟩, ⟨rfl, rfl⟩⟩
    · exact ⟨positive_ofRatio _ _, positive_ofRatio _ _⟩

theorem positive_settle (x : Nat → Enclosure) :
    (settle (fun p => expOf p (x p)) precisions).Positive :=
  settle_induction (fun _ _ _ => positive_between) (by decide) fun p _ => positive_expOf p (x p)

/-- **An exponential is a number and not negative**, unless the exponent is no number. -/
theorem positive_exp {x : Amount} (hx : x ≠ .nan) : x.exp.Positive := by
  cases x with
  | nan => exact absurd rfl hx
  | infinite s => cases s <;> exact ⟨rfl, rfl⟩
  | finite s n h =>
    exact positive_settle fun p => Enclosure.ofQuotient p (signed s n) unitsPerOne

theorem positive_exp2 {x : Amount} (hx : x ≠ .nan) : x.exp2.Positive := by
  cases x with
  | nan => exact absurd rfl hx
  | infinite s => cases s <;> exact ⟨rfl, rfl⟩
  | finite s n h =>
    exact positive_settle fun p => Enclosure.scaleQuotient (signed s n) unitsPerOne (logTwo p)

end Amount

end Abacus
