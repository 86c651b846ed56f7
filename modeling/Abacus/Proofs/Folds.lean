import Abacus.Proofs.Kinds
import Abacus.Proofs.Rounding
import Mathlib.Algebra.BigOperators.Group.List.Basic

/-!
# Sums, differences and products of integers

Every integer up to `2 ^ 53` is an amount, whatever its sign.  So an operation on integers is exact
if its result is in that range, and a left fold is exact if all its partial results are; in the end
there is nothing left to round.  Then the operands of a sum or a product may stand in any order.

* `WholeNumber`           a number that is an integer;
* `partials g a zs`       the partial results of a left fold;
* `InRange zs`            all of them are in the range;
* `toRat?_add`, `toRat?_sub`, `toRat?_mul`   one operation in the range;
* `toRat?_foldl`          a fold whose partial results are in the range;
* `folds_exact`           **sums, differences and products are exact in the range**.
-/

namespace Abacus

attribute [local instance] ownPow

/-! ## One operation -/

namespace Amount

theorem signed_natAbs (z : Int) : signed (z < 0) z.natAbs = z := by
  unfold signed
  by_cases hz : z < 0
  · rw [if_pos (decide_eq_true hz)]
    omega
  · rw [if_neg (by simpa using hz)]
    omega

theorem signed_not (s : Bool) (n : Nat) : signed (!s) n = -signed s n := by
  cases s <;> simp [signed]

theorem signed_bne (s t : Bool) (m n : Nat) :
    signed (s != t) (m * n) = signed s m * signed t n := by
  cases s <;> cases t <;> simp [signed]

theorem fits_whole {n : Nat} (h : n ≤ 2 ^ (53 : Nat)) : Fits (n * unitsPerOne) := by
  rw [unitsPerOne_eq]
  refine fits_shift h ?_
  rw [ceiling_eq]
  refine Nat.lt_of_le_of_lt (Nat.mul_le_mul_right _ h) ?_
  rw [← Nat.pow_add]
  exact Nat.pow_lt_pow_right (by decide) (by decide)

theorem toRat?_ofRatio (s : Bool) {n : Nat} (h : n ≤ 2 ^ (53 : Nat)) :
    (ofRatio s (n * unitsPerOne) 1).toRat? = some (signed s n : Rat) := by
  rw [ofRatio_one s (fits_whole h)]
  exact toRat?_eq_intCast_iff.2 ⟨s, n, fits_whole h, rfl, rfl⟩

section
variable {x y : Amount} {a b : Int}

theorem toRat?_neg (hx : x.toRat? = some (a : Rat)) : x.neg.toRat? = some ((-a : Int) : Rat) := by
  obtain ⟨s, n, h, rfl, rfl⟩ := toRat?_eq_intCast_iff.1 hx
  exact toRat?_eq_intCast_iff.2 ⟨!s, n, h, rfl, signed_not s n⟩

theorem toRat?_add (hx : x.toRat? = some (a : Rat)) (hy : y.toRat? = some (b : Rat))
    (h : (a + b).natAbs ≤ 2 ^ (53 : Nat)) : (x.add y).toRat? = some ((a + b : Int) : Rat) := by
  obtain ⟨s, m, hm, rfl, rfl⟩ := toRat?_eq_intCast_iff.1 hx
  obtain ⟨t, n, hn, rfl, rfl⟩ := toRat?_eq_intCast_iff.1 hy
  have hunits : signed s (m * unitsPerOne) + signed t (n * unitsPerOne) =
      (signed s m + signed t n) * unitsPerOne := by
    rw [signed_mul, signed_mul, Int.add_mul]
  have hpos : (0 : Int) < unitsPerOne := by exact_mod_cast unitsPerOne_pos
  simp only [add, hunits]
  generalize signed s m + signed t n = z at *
  by_cases hzero : z * unitsPerOne = 0
  · rw [if_pos hzero, (mul_eq_zero_iff_right hpos.ne').1 hzero]
    exact toRat?_zero (s && t)
  · have hless : z * unitsPerOne < 0 * unitsPerOne ↔ z < 0 := mul_lt_mul_iff_of_pos_right hpos
    rw [zero_mul] at hless
    have hsign : decide (z * unitsPerOne < 0) = decide (z < 0) := decide_eq_decide.2 hless
    rw [if_neg hzero, ofUnits, hsign, Int.natAbs_mul, Int.natAbs_natCast, toRat?_ofRatio _ h,
      signed_natAbs]

theorem toRat?_sub (hx : x.toRat? = some (a : Rat)) (hy : y.toRat? = some (b : Rat))
    (h : (a - b).natAbs ≤ 2 ^ (53 : Nat)) : (x.sub y).toRat? = some ((a - b : Int) : Rat) := by
  rw [Int.sub_eq_add_neg] at h ⊢
  exact toRat?_add hx (toRat?_neg hy) h

theorem toRat?_mul (hx : x.toRat? = some (a : Rat)) (hy : y.toRat? = some (b : Rat))
    (h : (a * b).natAbs ≤ 2 ^ (53 : Nat)) : (x.mul y).toRat? = some ((a * b : Int) : Rat) := by
  obtain ⟨s, m, hm, rfl, rfl⟩ := toRat?_eq_intCast_iff.1 hx
  obtain ⟨t, n, hn, rfl, rfl⟩ := toRat?_eq_intCast_iff.1 hy
  rw [Int.natAbs_mul, natAbs_signed, natAbs_signed] at h
  have hunits : m * unitsPerOne * (n * unitsPerOne) = m * n * unitsPerOne * unitsPerOne := by ring
  have hone := ofRatio_mul_right (s != t) unitsPerOne_pos (m * n * unitsPerOne) 1
  rw [Nat.one_mul] at hone
  simp only [mul]
  rw [hunits, hone, toRat?_ofRatio _ h, signed_bne]

theorem toRat?_ofInt (h : a.natAbs ≤ 2 ^ (53 : Nat)) : (ofInt a).toRat? = some (a : Rat) := by
  rw [ofInt, toRat?_ofRatio _ h, signed_natAbs]

theorem toRat?_one : one.toRat? = some ((1 : Int) : Rat) := toRat?_ofInt (by decide)

end

end Amount

/-! ## Folds -/

/-- **A number that is an integer**, and the integer; a zero may have a sign -/
structure WholeNumber where
  number : Number
  value : Int
  kind_eq : number.kind = .int
  amount_eq : number.amount.toRat? = some (value : Rat)

def WholeNumber.ofInt (z : Int) (h : z.natAbs ≤ 2 ^ (53 : Nat)) : WholeNumber :=
  ⟨⟨.int, .ofInt z⟩, z, rfl, Amount.toRat?_ofInt h⟩

/-- **The partial results of a left fold**, one after each of its steps -/
def partials (g : Int → Int → Int) (a : Int) (zs : List Int) : List Int := (zs.scanl g a).tail

/-- the range in which every integer is an amount -/
def InRange (zs : List Int) : Prop := ∀ z ∈ zs, z.natAbs ≤ 2 ^ (53 : Nat)

instance (zs : List Int) : Decidable (InRange zs) := inferInstanceAs (Decidable (∀ z ∈ zs, _))

def difference : List Int → Int
  | [] => 0
  | head :: rest => head - rest.sum

def partialDifferences : List Int → List Int
  | [] => []
  | head :: rest => partials (· - ·) head rest

theorem partials_cons (g : Int → Int → Int) (a z : Int) (zs : List Int) :
    partials g a (z :: zs) = g a z :: partials g (g a z) zs := by
  cases zs with
  | nil => rfl
  | cons y zs =>
    show ((z :: y :: zs).scanl g a).tail = g a z :: ((y :: zs).scanl g (g a z)).tail
    rw [List.scanl_cons, List.tail_cons, List.scanl_cons, List.tail_cons]

/-- **A fold is exact** if one operation is exact in the range and no partial result leaves it. -/
theorem toRat?_foldl {f : Amount → Amount → Amount} {g : Int → Int → Int}
    (hstep : ∀ {x y : Amount} {a b : Int},
      x.toRat? = some (a : Rat) → y.toRat? = some (b : Rat) →
      (g a b).natAbs ≤ 2 ^ (53 : Nat) → (f x y).toRat? = some ((g a b : Int) : Rat))
    (ops : List WholeNumber) {x : Amount} {a : Int} (hx : x.toRat? = some (a : Rat))
    (h : InRange (partials g a (ops.map WholeNumber.value))) :
    ((ops.map WholeNumber.number).foldl (fun t v => f t v.amount) x).toRat? =
      some (((ops.map WholeNumber.value).foldl g a : Int) : Rat) := by
  induction ops generalizing x a with
  | nil => exact hx
  | cons o ops ih =>
    rw [List.map_cons, partials_cons] at h
    obtain ⟨hfirst, hrest⟩ := List.forall_mem_cons.1 h
    exact ih (hstep hx o.amount_eq hfirst) hrest

theorem foldl_sub (z : Int) (zs : List Int) : zs.foldl (· - ·) z = difference (z :: zs) := by
  induction zs generalizing z with
  | nil => simp [difference]
  | cons y zs ih =>
    rw [List.foldl_cons, ih]
    simp only [difference, List.sum_cons]
    omega

theorem toRat?_sumOf (ops : List WholeNumber)
    (h : InRange (partials (· + ·) 0 (ops.map WholeNumber.value))) :
    (sumOf (ops.map WholeNumber.number)).toRat? =
      some (((ops.map WholeNumber.value).sum : Int) : Rat) := by
  rw [List.sum_eq_foldl]
  exact toRat?_foldl Amount.toRat?_add ops (Amount.toRat?_zero false) h

theorem toRat?_productOf (ops : List WholeNumber)
    (h : InRange (partials (· * ·) 1 (ops.map WholeNumber.value))) :
    (productOf (ops.map WholeNumber.number)).toRat? =
      some (((ops.map WholeNumber.value).prod : Int) : Rat) := by
  rw [List.prod_eq_foldl]
  exact toRat?_foldl Amount.toRat?_mul ops Amount.toRat?_one h

/-- the first operand is where the fold starts, and may be of any size -/
theorem toRat?_differenceOf (ops : List WholeNumber)
    (h : InRange (partialDifferences (ops.map WholeNumber.value))) :
    (differenceOf (ops.map WholeNumber.number)).toRat? =
      some ((difference (ops.map WholeNumber.value) : Int) : Rat) := by
  cases ops with
  | nil => exact Amount.toRat?_zero false
  | cons o ops =>
    rw [List.map_cons, List.map_cons, ← foldl_sub]
    exact toRat?_foldl Amount.toRat?_sub ops o.amount_eq h

/-! ## The operators -/

/-- an operator gives an integer of integers, and changes nothing -/
def Gives (b : Builtin) (ops : List WholeNumber) (z : Int) : Prop :=
  ∀ (env : Env) (s : State), ∃ x : Amount,
    (applyBuiltin b env (ops.map WholeNumber.number)).result s = (.ok (some ⟨.int, x⟩), s) ∧
      x.Exactly z

section
variable {b : Builtin} {f : List Number → Except Refusal Amount} {ops ops' : List WholeNumber}
  {x : Amount} {z : Int}

theorem gives_of_fold (hrule : rule? b = some (.fold f))
    (hx : f (ops.map WholeNumber.number) = .ok x) (h : x.roundHalfAway.Exactly z) :
    Gives b ops z := by
  intro env s
  have hints : promote (ops.map WholeNumber.number) = .int := by
    refine promote_of_integers fun v hv => ?_
    obtain ⟨o, -, rfl⟩ := List.mem_map.1 hv
    exact o.kind_eq
  have happly : (Rule.fold f).apply (ops.map WholeNumber.number) =
      .ok ⟨.int, x.roundHalfAway⟩ := by
    rw [Rule.apply, hx, Rule.made, promoted, hints]
    rfl
  exact ⟨_, result_applyBuiltin hrule happly env s, h⟩

theorem Gives.same (h : Gives b ops z) (h' : Gives b ops' z) (env : Env) (s : State) :
    (applyBuiltin b env (ops'.map WholeNumber.number)).result s =
      (applyBuiltin b env (ops.map WholeNumber.number)).result s := by
  obtain ⟨x, hx, hexact⟩ := h env s
  obtain ⟨y, hy, hexact'⟩ := h' env s
  rw [hx, hy, hexact.unique hexact']

end

/-- **Sums, differences and products of integers are exact in the range.**  If all partial results
of the fold have a magnitude of at most `2 ^ 53`, the operator gives the integer that is the sum,
the first operand less the others, or the product; of no operands zero, zero and one.  A sum or a
product is the same in every order of the operands in which that is so. -/
theorem folds_exact (ops : List WholeNumber) :
    (InRange (partials (· + ·) 0 (ops.map WholeNumber.value)) →
      Gives .add ops (ops.map WholeNumber.value).sum) ∧
    (InRange (partialDifferences (ops.map WholeNumber.value)) →
      Gives .sub ops (difference (ops.map WholeNumber.value))) ∧
    (InRange (partials (· * ·) 1 (ops.map WholeNumber.value)) →
      Gives .mult ops (ops.map WholeNumber.value).prod) ∧
    ∀ ops' : List WholeNumber, ops'.Perm ops → ∀ (env : Env) (s : State),
      (InRange (partials (· + ·) 0 (ops.map WholeNumber.value)) →
        InRange (partials (· + ·) 0 (ops'.map WholeNumber.value)) →
        (applyBuiltin .add env (ops'.map WholeNumber.number)).result s =
          (applyBuiltin .add env (ops.map WholeNumber.number)).result s) ∧
      (InRange (partials (· * ·) 1 (ops.map WholeNumber.value)) →
        InRange (partials (· * ·) 1 (ops'.map WholeNumber.value)) →
        (applyBuiltin .mult env (ops'.map WholeNumber.number)).result s =
          (applyBuiltin .mult env (ops.map WholeNumber.number)).result s) := by
  have hadd (ops : List WholeNumber)
      (h : InRange (partials (· + ·) 0 (ops.map WholeNumber.value))) :
      Gives .add ops (ops.map WholeNumber.value).sum :=
    gives_of_fold rfl rfl (Amount.roundHalfAway_of_whole (toRat?_sumOf ops h))
  have hmult (ops : List WholeNumber)
      (h : InRange (partials (· * ·) 1 (ops.map WholeNumber.value))) :
      Gives .mult ops (ops.map WholeNumber.value).prod :=
    gives_of_fold rfl rfl (Amount.roundHalfAway_of_whole (toRat?_productOf ops h))
  have hsub (h : InRange (partialDifferences (ops.map WholeNumber.value))) :
      Gives .sub ops (difference (ops.map WholeNumber.value)) :=
    gives_of_fold rfl rfl (Amount.roundHalfAway_of_whole (toRat?_differenceOf ops h))
  refine ⟨hadd ops, hsub, hmult ops, ?_⟩
  intro ops' hperm env s
  constructor
  · intro h h'
    have hsum := hadd ops' h'
    rw [(hperm.map WholeNumber.value).sum_eq] at hsum
    exact (hadd ops h).same hsum env s
  · intro h h'
    have hprod := hmult ops' h'
    rw [(hperm.map WholeNumber.value).prod_eq] at hprod
    exact (hmult ops h).same hprod env s

/-- the largest integer below the bound, and two more -/
def topmost : List WholeNumber :=
  [.ofInt (2 ^ (53 : Nat) - 1) (by decide), .ofInt (-1) (by decide), .ofInt 1 (by decide)]

def topmostSwapped : List WholeNumber :=
  [.ofInt (-1) (by decide), .ofInt (2 ^ (53 : Nat) - 1) (by decide), .ofInt 1 (by decide)]

theorem folds_exact_topmost :
    Gives .add topmost (2 ^ (53 : Nat) - 1) ∧ Gives .sub topmost (2 ^ (53 : Nat) - 1) ∧
    Gives .mult topmost (1 - 2 ^ (53 : Nat)) ∧ topmostSwapped.Perm topmost ∧
    ∀ (env : Env) (s : State),
      (applyBuiltin .add env (topmostSwapped.map WholeNumber.number)).result s =
        (applyBuiltin .add env (topmost.map WholeNumber.number)).result s := by
  obtain ⟨hadd, hsub, hmult, hswap⟩ := folds_exact topmost
  have hperm : topmostSwapped.Perm topmost := .swap _ _ _
  exact ⟨hadd (by decide), hsub (by decide), hmult (by decide), hperm,
    fun env s => (hswap _ hperm env s).1 (by decide) (by decide)⟩

end Abacus
