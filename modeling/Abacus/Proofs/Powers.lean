import Abacus.Proofs.Amount.Answers
import Abacus.Proofs.Evaluation.Result

/-!
# Signs of powers

A whole power of a negated base is the power itself if the exponent is even, and its negation if it
is odd.  So it is for all bases and all results, zeros and infinities included.  The operator answers
two refusals without the sign, the overflow of the power of a finite base and the pole of a zero:
there it gives the positive infinity, for the base and for its negation.

* `power_finite`, `power_infinite`, `power_nan`   the whole powers, case by case;
* `power_neg_of_even`, `power_neg_of_odd`         **the whole powers of a negated base**;
* `power_answer`         what the operator answers;
* `powers_of_negated`    **the powers that the operator gives of a base and of its negation**.
-/

namespace Abacus

attribute [local instance] ownPow

namespace Amount

/-! ## Whole exponents -/

section
variable {s t : Bool} {n k : Nat} {hn : Fits n} {hk : Fits (k * unitsPerOne)}

theorem integer_whole (k : Nat) : integer (k * unitsPerOne) = true := by
  unfold integer
  rw [Nat.mul_mod_left]
  rfl

theorem oddInteger_whole : oddInteger (.finite t (k * unitsPerOne) hk) = (k % 2 == 1) := by
  unfold oddInteger
  dsimp only
  rw [integer_whole, Bool.true_and, Nat.mul_div_cancel k unitsPerOne_pos]

theorem power_nan : power .nan (.finite t (k * unitsPerOne) hk) = if k = 0 then one else .nan := by
  obtain ⟨hone, heq⟩ := one_eq
  unfold power
  simp only [isZero_whole]
  rw [heq, if_neg (show ¬ Amount.nan = _ from fun h => by cases h)]

theorem power_infinite : power (.infinite s) (.finite t (k * unitsPerOne) hk) =
    if k = 0 then one
    else if t then zero (s && k % 2 == 1) else .infinite (s && k % 2 == 1) := by
  obtain ⟨hone, heq⟩ := one_eq
  unfold power
  simp only [isZero_whole, oddInteger_whole]
  rw [heq, if_neg (show ¬ Amount.infinite s = _ from fun h => by cases h)]
  rfl

theorem power_finite : power (.finite s n hn) (.finite t (k * unitsPerOne) hk) =
    if k = 0 then one
    else if n = 0 then (if t then .infinite (s && k % 2 == 1) else zero (s && k % 2 == 1))
    else withSign (s && k % 2 == 1) (powerUnits n t (k * unitsPerOne)) := by
  obtain ⟨hone, heq⟩ := one_eq
  unfold power
  simp only [isZero_whole, oddInteger_whole, integer_whole]
  by_cases hbase : Amount.finite s n hn = one
  · rw [if_pos hbase]
    rw [heq] at hbase
    cases hbase
    have hunits : powerUnits unitsPerOne t (k * unitsPerOne) = one := if_pos rfl
    rw [if_neg unitsPerOne_pos.ne', hunits, heq]
    rfl
  · rw [if_neg hbase]
    simp

theorem withSign_not (s : Bool) (x : Amount) : withSign (!s) x = (withSign s x).neg := by
  cases x <;> rfl

theorem power_neg_of_even (heven : k % 2 = 0) (a : Amount) :
    power a.neg (.finite t (k * unitsPerOne) hk) = power a (.finite t (k * unitsPerOne) hk) := by
  have hodd : (k % 2 == 1) = false := by rw [heven]; rfl
  cases a with
  | nan => rfl
  | infinite s =>
    show power (.infinite (!s)) _ = _
    rw [power_infinite, power_infinite, hodd, Bool.and_false, Bool.and_false]
  | finite s n hn =>
    show power (.finite (!s) n hn) _ = _
    rw [power_finite, power_finite, hodd, Bool.and_false, Bool.and_false]

/-- **The odd powers** of a base and of its negation are negations of each other. -/
theorem power_neg_of_odd (hodd : k % 2 = 1) (a : Amount) :
    power a.neg (.finite t (k * unitsPerOne) hk) =
      (power a (.finite t (k * unitsPerOne) hk)).neg := by
  have hbit : (k % 2 == 1) = true := by rw [hodd]; rfl
  have hne : k ≠ 0 := by omega
  cases a with
  | nan =>
    show power .nan _ = _
    rw [power_nan, if_neg hne]
    rfl
  | infinite s =>
    show power (.infinite (!s)) _ = _
    rw [power_infinite, power_infinite, if_neg hne, if_neg hne, hbit, Bool.and_true, Bool.and_true]
    cases t with
    | false => rfl
    | true => rfl
  | finite s n hn =>
    show power (.finite (!s) n hn) _ = _
    rw [power_finite, power_finite, if_neg hne, if_neg hne, hbit, Bool.and_true, Bool.and_true]
    split
    · cases t with
      | false => rfl
      | true => rfl
    · exact withSign_not s _

theorem isFinite_neg (x : Amount) : x.neg.isFinite = x.isFinite := by cases x <;> rfl

theorem isInfinite_neg (x : Amount) : x.neg.isInfinite = x.isInfinite := by cases x <;> rfl

theorem isInfinite_power_neg (a : Amount) :
    (power a.neg (.finite t (k * unitsPerOne) hk)).isInfinite =
      (power a (.finite t (k * unitsPerOne) hk)).isInfinite := by
  rcases Nat.mod_two_eq_zero_or_one k with heven | hodd
  · rw [power_neg_of_even heven]
  · rw [power_neg_of_odd hodd, isInfinite_neg]

end

end Amount

/-! ## The operator -/

theorem power_answer (a : Amount) {b : Amount} (hb : b.isFinite = true) :
    ∃ x, Guarded.power a b = .ok x ∧
      ((a.isFinite = true ∧ (a.power b).isInfinite = true) ∧ x = .infinite false ∨
        ¬ (a.isFinite = true ∧ (a.power b).isInfinite = true) ∧ x = a.power b) := by
  refine ⟨_, Guarded.power_eq a b, ?_⟩
  rw [hb, Bool.and_true]
  by_cases hlarge : a.isFinite = true ∧ (a.power b).isInfinite = true
  · exact Or.inl ⟨hlarge, if_pos (Bool.and_eq_true_iff.2 hlarge)⟩
  · exact Or.inr ⟨hlarge, if_neg (mt Bool.and_eq_true_iff.1 hlarge)⟩

theorem result_pow {a b x : Amount} (h : Guarded.power a b = .ok x) (env : Env) (s : State) :
    (applyBuiltin .pow env [⟨.float, a⟩, ⟨.float, b⟩]).result s = (.ok (some ⟨.float, x⟩), s) := by
  have happly : (Rule.binary Guarded.power).apply [⟨.float, a⟩, ⟨.float, b⟩] =
      .ok ⟨.float, x⟩ := by
    rw [Rule.apply, h]
    rfl
  exact result_applyBuiltin rfl happly env s

/-- **The powers of a base and of its negation**, for a whole exponent with a sign `t` and a
magnitude `k`.  They are the same for an even exponent; for an odd one they are negations of each
other, signs of zeros and infinities included, exactly if the base is infinite too where its power
is.  Where a finite base has an infinite power, both are the positive infinity. -/
theorem powers_of_negated (a : Amount) (t : Bool) (k : Nat) (hk : Fits (k * unitsPerOne))
    (env : Env) (s : State) : ∃ x y,
    (applyBuiltin .pow env [⟨.float, a⟩, ⟨.float, .finite t (k * unitsPerOne) hk⟩]).result s =
      (.ok (some ⟨.float, x⟩), s) ∧
    (applyBuiltin .pow env [⟨.float, a.neg⟩, ⟨.float, .finite t (k * unitsPerOne) hk⟩]).result s =
      (.ok (some ⟨.float, y⟩), s) ∧
    (k % 2 = 0 → y = x) ∧
    (k % 2 = 1 → (y = x.neg ↔ ¬ (a.isFinite = true ∧ x.isInfinite = true))) ∧
    (a.isFinite = true → x.isInfinite = true → x = .infinite false ∧ y = .infinite false) := by
  have hexponent : (Amount.finite t (k * unitsPerOne) hk).isFinite = true := rfl
  obtain ⟨x, hx, hanswer⟩ := power_answer a hexponent
  obtain ⟨y, hy, hnegated⟩ := power_answer a.neg hexponent
  refine ⟨x, y, result_pow hx env s, result_pow hy env s, ?_⟩
  rw [Amount.isFinite_neg, Amount.isInfinite_power_neg] at hnegated
  rcases hanswer with ⟨hlarge, rfl⟩ | ⟨hsmall, rfl⟩
  · rcases hnegated with ⟨-, rfl⟩ | ⟨hsmall, -⟩
    · refine ⟨fun _ => rfl, fun _ => ⟨fun h => (by cases h), fun h => ?_⟩, fun _ _ => ⟨rfl, rfl⟩⟩
      exact absurd ⟨hlarge.1, rfl⟩ h
    · exact absurd hlarge hsmall
  · rcases hnegated with ⟨hlarge, -⟩ | ⟨-, rfl⟩
    · exact absurd hlarge hsmall
    · refine ⟨fun heven => Amount.power_neg_of_even heven a, fun hodd => ?_,
        fun hbase h => absurd ⟨hbase, h⟩ hsmall⟩
      exact ⟨fun _ => hsmall, fun _ => Amount.power_neg_of_odd hodd a⟩

theorem fits_three : Fits (3 * unitsPerOne) := by decide +kernel

theorem powers_of_negated_two : ∃ hk : Fits (3 * unitsPerOne),
    (applyBuiltin .pow (.root 0 { strict := true })
        [⟨.float, (Amount.ofInt 2).neg⟩, ⟨.float, .finite false (3 * unitsPerOne) hk⟩]).result
        (.start [] (.ofSeed 0)) =
      (.ok (some ⟨.float, (Amount.ofInt 8).neg⟩), .start [] (.ofSeed 0)) := by
  have hcube : Guarded.power (.ofInt 2) (.finite false (3 * unitsPerOne) fits_three) =
      .ok (.ofInt 8) := by
    decide +kernel
  refine ⟨fits_three, ?_⟩
  obtain ⟨x, y, hx, hy, -, hodd, -⟩ := powers_of_negated (.ofInt 2) false 3 fits_three
    (.root 0 { strict := true }) (.start [] (.ofSeed 0))
  rw [result_pow hcube] at hx
  cases hx
  have hfinite : (Amount.ofInt 8).isInfinite = false := by decide +kernel
  have hneg : y = (Amount.ofInt 8).neg := (hodd rfl).2 (by simp [hfinite])
  rw [hy, hneg]

def largeAmount : Amount := .ofRatio false (10 ^ (200 : Nat) * unitsPerOne) 1

theorem not_powers_of_negated_pole :
    (∀ env s, (applyBuiltin .pow env [⟨.float, .zero true⟩, ⟨.float, Amount.one.neg⟩]).result s =
      (.ok (some ⟨.float, .infinite false⟩), s)) ∧
    (∀ env s, (applyBuiltin .pow env [⟨.float, .zero false⟩, ⟨.float, Amount.one.neg⟩]).result s =
      (.ok (some ⟨.float, .infinite false⟩), s)) ∧
    (∀ env s, (applyBuiltin .pow env [⟨.float, largeAmount.neg⟩, ⟨.float, .ofInt 3⟩]).result s =
      (.ok (some ⟨.float, .infinite false⟩), s)) ∧
    (∀ env s, (applyBuiltin .pow env [⟨.float, largeAmount⟩, ⟨.float, .ofInt 3⟩]).result s =
      (.ok (some ⟨.float, .infinite false⟩), s)) ∧
    Amount.infinite false ≠ (Amount.infinite false).neg := by
  have hpole : Guarded.power (.zero true) Amount.one.neg = .ok (.infinite false) := by
    decide +kernel
  have hzero : Guarded.power (.zero false) Amount.one.neg = .ok (.infinite false) := by
    decide +kernel
  have hnegated : Guarded.power largeAmount.neg (.ofInt 3) = .ok (.infinite false) := by
    decide +kernel
  have hlarge : Guarded.power largeAmount (.ofInt 3) = .ok (.infinite false) := by decide +kernel
  exact ⟨result_pow hpole, result_pow hzero, result_pow hnegated, result_pow hlarge, by decide⟩

end Abacus
