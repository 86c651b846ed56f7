import Abacus.Operation
import Abacus.Proofs.Amount.Size

/-!
# Operators answer

What the operators compute of the functions of the library is what the functions themselves give:
no operand is refused that is not asked for before, and every refusal is answered.  The power is the
one exception; where a finite base has an infinite power, the answer is the positive infinity.

* `admitted_of_isFinite`     a finite result is not refused;
* `Guarded.div_eq`, `Guarded.log_eq`, `Guarded.sqrt_eq`, `Guarded.remainder_eq`,
  `Guarded.overflowing_eq`   the answers are the results;
* `Guarded.power_eq`         the answers of the power;
* `answers_of_rule?`         **the operators refuse no amounts**.
-/

namespace Abacus

attribute [local instance] ownPow

open Amount

section
variable {reason : Refusal} {operands : List Amount} {x y z : Amount}

theorem admitted_of_isFinite (hz : z.isFinite = true) : admitted reason operands z = .ok z := by
  cases z with
  | nan => cases hz
  | infinite s => cases hz
  | finite s n h => rfl

theorem eq_nan_of_isNaN (hz : z.isNaN = true) : z = .nan := by
  cases z with
  | nan => rfl
  | infinite s => cases hz
  | finite s n h => cases hz

/-- what is refused is not a number though all operands are, or infinite though they are finite -/
theorem admitted_cases (reason : Refusal) (operands : List Amount) (z : Amount) :
    admitted reason operands z = .ok z ∨
      z = .nan ∧ admitted reason operands z = .error .domain ∧
        operands.any (·.isNaN) = false ∨
      z.isInfinite = true ∧ admitted reason operands z = .error reason ∧
        operands.all (·.isFinite) = true := by
  unfold admitted
  split
  · next hnan =>
    rw [Bool.and_eq_true, Bool.not_eq_true'] at hnan
    exact Or.inr (Or.inl ⟨eq_nan_of_isNaN hnan.1, rfl, hnan.2⟩)
  · split
    · next hinfinite =>
      rw [Bool.and_eq_true] at hinfinite
      exact Or.inr (Or.inr ⟨hinfinite.1, rfl, hinfinite.2⟩)
    · exact Or.inl rfl

theorem admitted_of_isInfinite (hz : z.isInfinite = true)
    (hall : operands.all (·.isFinite) = true) : admitted reason operands z = .error reason := by
  cases z with
  | nan => cases hz
  | infinite s => simp only [admitted, isNaN, Bool.false_and, isInfinite, hall]; rfl
  | finite s n h => cases hz

theorem Refusing.abs_eq (x : Amount) : Refusing.abs x = .ok x.abs := by
  cases x <;> rfl

theorem Refusing.cbrt_eq (x : Amount) : Refusing.cbrt x = .ok x.cbrt := by
  cases x with
  | nan => rfl
  | infinite s => rfl
  | finite s n h => exact admitted_of_isFinite (isFinite_cubeRoot h)

namespace Guarded

theorem div_eq (x y : Amount) : div x y = .ok (x.div y) := by
  unfold div
  split
  · next hzero =>
    cases y with
    | nan => cases hzero
    | infinite t => cases hzero
    | finite t n hn =>
      obtain rfl : n = 0 := beq_iff_eq.1 hzero
      obtain ⟨hone, hunits⟩ : ∃ h, one = .finite false unitsPerOne h := one_eq
      cases x with
      | nan => rfl
      | infinite s =>
        rw [if_neg (by simp [isZero, isNaN]), hunits]
        simp only [copySign, withSign, isNegative, mul, if_neg unitsPerOne_pos.ne', Amount.div]
      | finite s m hm =>
        by_cases hm0 : m = 0
        · subst hm0
          rfl
        · rw [if_neg (by simp [isZero, isNaN, hm0]), hunits]
          simp only [copySign, withSign, isNegative, mul, if_neg unitsPerOne_pos.ne', Amount.div,
            if_true, if_neg hm0]
  · next hzero => rw [Refusing.div, if_neg hzero]

theorem isLess_zero (s : Bool) {n : Nat} {h : Fits n} (hn : n ≠ 0) :
    isLess (.finite s n h) (zero false) = s := by
  cases s with
  | false => simp [isLess, signed, zero]
  | true => simpa [isLess, signed, zero] using Nat.pos_of_ne_zero hn

theorem log_eq (x : Amount) : log x = .ok x.log := by
  cases x with
  | nan => rfl
  | infinite s => cases s <;> rfl
  | finite s n h =>
    by_cases hn : n = 0
    · subst hn
      rfl
    · unfold log
      rw [if_neg (by simp [isZero, hn]), isLess_zero s hn]
      cases s with
      | true => simp [Amount.log, hn]
      | false => exact admitted_of_isFinite (isFinite_log hn)

theorem sqrt_eq (x : Amount) : sqrt x = .ok x.sqrt := by
  cases x with
  | nan => rfl
  | infinite s => cases s <;> rfl
  | finite s n h =>
    by_cases hn : n = 0
    · subst hn
      cases s <;> rfl
    · unfold sqrt
      rw [isLess_zero s hn]
      cases s with
      | true => simp [Amount.sqrt, hn]
      | false =>
        have hroot : Amount.sqrt (.finite false n h) = ofRoot false 2 (n * unitsPerOne) := by
          simp [Amount.sqrt, hn]
        rw [if_neg (by simp [isNaN]), Refusing.sqrt, hroot]
        exact admitted_of_isFinite (isFinite_squareRoot h)

theorem overflowing_eq {f : Amount → Amount} (hf : ∀ x, x ≠ .nan → (f x).Positive) (x : Amount) :
    overflowing (fun x => admitted .range [x] (f x)) x = .ok (f x) := by
  unfold overflowing
  dsimp only
  rcases admitted_cases .range [x] (f x) with h | ⟨hx, h, hany⟩ | ⟨hx, h, hall⟩
  · rw [h]
  · have hne : x ≠ .nan := by
      rintro rfl
      cases hany
    have hpositive := (hf x hne).1
    rw [hx] at hpositive
    cases hpositive
  · have hne : x ≠ .nan := by
      rintro rfl
      cases hall
    have hpositive := (hf x hne).2
    rw [h]
    generalize f x = z at *
    cases z with
    | nan => cases hx
    | infinite s =>
      cases hpositive
      rfl
    | finite s n h => cases hx

theorem remainder_eq (x y : Amount) : remainder x y = .ok (x.remainder y) := by
  unfold remainder Refusing.remainder
  rcases admitted_cases .range [x, y] (x.remainder y) with h | ⟨hx, h, hany⟩ | ⟨hx, h, hall⟩
  · rw [h]
  · rw [h, hx]
  · cases x with
    | nan => cases hall
    | infinite s => cases hall
    | finite s m hm =>
      cases y with
      | nan => cases hall
      | infinite t => cases hall
      | finite t n hn =>
        by_cases hne : n = 0
        · subst hne
          cases hx
        · rw [admitted_of_isFinite (isFinite_remainder hne)]

theorem isNaN_ite {c : Prop} [Decidable c] (hx : x.isNaN = false) (hy : y.isNaN = false) :
    (if c then x else y).isNaN = false := by
  split
  · exact hx
  · exact hy

/-- a zero has a power, whatever number the exponent is -/
theorem isNaN_power_zero (hx : x.isZero = true) (hy : y.isNaN = false) :
    (x.power y).isNaN = false := by
  have hone : one.isNaN = false := isNaN_ofRatio _ _ _
  cases x with
  | nan => cases hx
  | infinite s => cases hx
  | finite s n hn =>
    obtain rfl : n = 0 := beq_iff_eq.1 hx
    unfold Amount.power
    refine isNaN_ite hone (isNaN_ite hone ?_)
    cases y with
    | nan => cases hy
    | infinite t => exact isNaN_ite hone (isNaN_ite rfl rfl)
    | finite t m hm =>
      dsimp only
      rw [if_pos rfl]
      exact isNaN_ite rfl rfl

/-- **The answers of the power.**  They are the powers, but for an infinite power of finite amounts,
which is always positive. -/
theorem power_eq (x y : Amount) : power x y =
    .ok (if x.isFinite && y.isFinite && (x.power y).isInfinite then .infinite false
      else x.power y) := by
  unfold power Refusing.power
  by_cases hlarge : (x.isFinite && y.isFinite && (x.power y).isInfinite) = true
  · rw [if_pos hlarge]
    simp only [Bool.and_eq_true] at hlarge
    obtain ⟨⟨hx, hy⟩, hinfinite⟩ := hlarge
    rw [admitted_of_isInfinite hinfinite (by simp [hx, hy])]
    cases x.isZero with
    | false => rfl
    | true => rfl
  · rw [if_neg hlarge]
    rcases admitted_cases (if x.isZero then .domain else .range) [x, y] (x.power y) with
      h | ⟨hnan, h, hany⟩ | ⟨hinfinite, -, hall⟩
    · rw [h]
    · have hnumbers : x.isNaN = false ∧ y.isNaN = false := by simpa using hany
      rw [h, hnan]
      rcases hzero : x.isZero with _ | _
      · rfl
      · have hpower := isNaN_power_zero hzero hnumbers.2
        rw [hnan] at hpower
        cases hpower
    · refine absurd ?_ hlarge
      simpa [hinfinite] using hall

end Guarded

/-! ## Rules -/

theorem quotientOf_eq (head : Number) (rest : List Number) : quotientOf (head :: rest) =
    .ok (rest.foldl (fun quotient v => quotient.div v.amount) head.amount) := by
  unfold quotientOf
  simp only [Guarded.div_eq]
  generalize head.amount = x
  induction rest generalizing x with
  | nil => rfl
  | cons v rest ih =>
    rw [List.foldlM_cons, List.foldl_cons]
    exact ih _

/-- **The operators refuse no amounts.** -/
theorem answers_of_rule? {b : Builtin} {r : Rule} (h : rule? b = some r) : r.Answers := by
  cases b with
  | read => cases h
  | rand => cases h
  | print => cases h
  | neg => cases h; exact fun x => ⟨_, rfl⟩
  | abs => cases h; exact fun x => ⟨_, Refusing.abs_eq x⟩
  | exp => cases h; exact fun x => ⟨_, Guarded.overflowing_eq (fun _ => positive_exp) x⟩
  | sqrt => cases h; exact fun x => ⟨_, Guarded.sqrt_eq x⟩
  | log => cases h; exact fun x => ⟨_, Guarded.log_eq x⟩
  | exp2 => cases h; exact fun x => ⟨_, Guarded.overflowing_eq (fun _ => positive_exp2) x⟩
  | cbrt => cases h; exact fun x => ⟨_, Refusing.cbrt_eq x⟩
  | remainder => cases h; exact fun x y => ⟨_, Guarded.remainder_eq x y⟩
  | pow => cases h; exact fun x y => ⟨_, Guarded.power_eq x y⟩
  | max => cases h; exact fun x y => ⟨_, rfl⟩
  | min => cases h; exact fun x y => ⟨_, rfl⟩
  | hypot => cases h; exact fun x y => ⟨_, rfl⟩
  | equal => cases h; trivial
  | less => cases h; trivial
  | greater => cases h; trivial
  | add => cases h; exact fun args => ⟨_, rfl⟩
  | sub => cases h; exact fun args => ⟨_, rfl⟩
  | mult => cases h; exact fun args => ⟨_, rfl⟩
  | div =>
    cases h
    rintro (_ | ⟨head, rest⟩)
    · exact ⟨_, rfl⟩
    · exact ⟨_, quotientOf_eq head rest⟩

/-- what the library refuses, and what the operator answers: the pole of the power -/
example : Refusing.power (zero true) one.neg = .error .domain ∧
    Guarded.power (zero true) one.neg = .ok (.infinite false) := by decide +kernel

end

end Abacus
