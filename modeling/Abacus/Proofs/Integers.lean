import Abacus.Proofs.Evaluation.Assurance
import Abacus.Proofs.Forest.Making
import Mathlib.Data.Int.Basic

/-!
# Integers are whole

Making an integer rounds its amount to a whole one, and a zero that is made has no sign.  All numbers
of a run are made: the literals by the factories, the results of operators and of coercions during
the run.  So no integer that a run handles has a fraction or is a negative zero, and its text shows
all of it.

* `Amount.Exactly`        an amount that is an integer, a zero without a sign;
* `exactly_roundHalfAway`, `settled_make`   what making an integer gives;
* `Handled`               the numbers that the parts of an evaluation give and take;
* `render_of_exactly`     the text of an integer;
* `integers_whole`        all integers that are handled are whole.
-/

namespace Abacus

open Run

/-! ## Whole amounts -/

/-- **An amount that is an integer**, and not a zero with a sign -/
def Amount.Exactly (x : Amount) (z : Int) : Prop :=
  ∃ s n h, x = .finite s n h ∧ signed s n = z * unitsPerOne ∧ (n = 0 → s = false)

theorem Amount.signed_mul (s : Bool) (n m : Nat) :
    Amount.signed s (n * m) = Amount.signed s n * m := by
  cases s with
  | false => simp [Amount.signed]
  | true =>
    show -((n * m : Nat) : Int) = -(n : Int) * m
    rw [Int.natCast_mul, Int.neg_mul]

theorem Amount.roundHalfAway_finite (s : Bool) (n : Nat) (h : Fits n) :
    (roundHalfAway (.finite s n h)).Exactly (signed s (nearestOnes n)) := by
  rw [roundHalfAway_units]
  by_cases hne : nearestOnes n = 0
  · rw [if_pos hne, hne]
    exact ⟨false, 0, fits_zero, rfl, by cases s <;> simp [signed], fun _ => rfl⟩
  · rw [if_neg hne]
    refine ⟨s, nearestOnes n * unitsPerOne, fits_nearestOnes h, rfl, signed_mul s _ _, ?_⟩
    intro hzero
    rcases Nat.mul_eq_zero.1 hzero with hzero | hzero
    · exact absurd hzero hne
    · exact absurd hzero (Nat.ne_of_gt unitsPerOne_pos)

/-- **Rounding gives an integer**, or keeps what is not finite. -/
theorem exactly_roundHalfAway (x : Amount) :
    (x.isFinite = true → ∃ z, x.roundHalfAway.Exactly z) ∧
      (x.isFinite = false → x.roundHalfAway = x) := by
  cases x with
  | nan => exact ⟨fun h => (by cases h), fun _ => rfl⟩
  | infinite s => exact ⟨fun h => (by cases h), fun _ => rfl⟩
  | finite s n h =>
    exact ⟨fun _ => ⟨_, Amount.roundHalfAway_finite s n h⟩, fun hfinite => by cases hfinite⟩

/-! ## Settled numbers -/

/-- a number that is whole, or not finite, if it is an integer -/
def Number.Settled (v : Number) : Prop :=
  v.kind = .int → v.amount.isFinite = false ∨ ∃ z, v.amount.Exactly z

/-- **A number that is made is settled.** -/
theorem settled_make (x : Amount) (k : Kind) : (Number.make x k).Settled := by
  cases k with
  | float =>
    intro h
    cases h
  | int =>
    intro _
    rw [Number.amount_make_int]
    obtain ⟨hfinite, hkept⟩ := exactly_roundHalfAway x
    rcases hx : x.isFinite with _ | _
    · rw [hkept hx]
      exact Or.inl hx
    · exact Or.inr (hfinite hx)

theorem settled_apply {rule : Rule} {args : List Number} {v : Number}
    (h : rule.apply args = .ok v) : v.Settled := by
  obtain ⟨x, k, rfl, -⟩ := Rule.apply_eq_ok h
  exact settled_make x k

def settledAssurance {f : Forest} (hf : f.AllMade) : Assurance f where
  root _ _ := True
  state _ := True
  number := Number.Settled
  fault _ := True
  counted _ _ := True
  write _ _ _ := trivial
  report _ _ _ _ _ _ := trivial
  next _ _ := trivial
  active _ _ _ := trivial
  leaf hnode hshape := by
    have hmade := hf _ _ hnode
    rw [hshape] at hmade
    cases hmade with
    | number amount kind => exact settled_make amount kind
  reported _ _ := trivial
  render _ _ := trivial
  coerce _ hvalue := ensures_coerce (fun _ _ _ _ _ => trivial) settled_make _ _ _ hvalue
  checked _ _ := trivial
  count _ _ _ := fun s _ => ⟨trivial, by split <;> trivial⟩
  apply _ _ _ _ _ := ensures_applyBuiltin (fun _ _ _ _ _ => trivial) trivial settled_make
    (fun _ _ _ hv => settled_apply hv) (fun _ _ _ _ => trivial) _

/-! ## The numbers of a run -/

/-- **The numbers that the parts of an evaluation handle**, to whatever depth, in whatever
environment and state -/
inductive Handled (f : Forest) : Number → Prop
  /-- the value of an evaluation -/
  | yielded {limit : Nat} {ref : Ref} {env : Env} {s t : State} {v : Number} :
      (evalNode f limit ref env).result s = (.ok (some v), t) → Handled f v
  /-- the value that is found for a variable, as it is found -/
  | found {limit : Nat} {id : BindingId} {b : Binding} {owner : Env} {s t : State} {v : Number} :
      (findValue (evalNode f limit) id b owner).result s = (.ok (some v), t) → Handled f v
  /-- the value of a variable as its declared kind has it -/
  | bound {limit : Nat} {id : BindingId} {b : Binding} {owner : Env} {s t : State} {v : Number} :
      f.binding? id = some b →
      (evalVariable (evalNode f limit) id b owner).result s = (.ok (some v), t) → Handled f v
  /-- the value of a call of a function, as its declared kind has it -/
  | returned {limit : Nat} {id : BindingId} {b : Binding} {parameters : List String}
      {operands : List Ref} {owner env : Env} {s t : State} {v : Number} :
      f.binding? id = some b →
      (applyFunction (evalNode f limit) b parameters operands owner env).result s
        = (.ok (some v), t) → Handled f v
  /-- a number that a built-in operator is applied to -/
  | passed {limit : Nat} {env : Env} {refs : List Ref} {s t : State} {values : List Value}
      {args : List Number} {v : Number} :
      (evalOperands (evalNode f limit) env refs).result s = (.ok values, t) →
      present? values = some args → v ∈ args → Handled f v
  /-- the last number printed of a row of operands -/
  | printed {limit : Nat} {env : Env} {refs : List Ref} {s t : State} {v : Number} :
      (printOperands (evalNode f limit) env none refs).result s = (.ok (some v), t) → Handled f v

theorem settled_of_handled {f : Forest} (hf : f.AllMade) {v : Number} (h : Handled f v) :
    v.Settled := by
  let A := settledAssurance hf
  have hall (limit : Nat) : A.Evaluator (evalNode f limit) := A.evalNode limit
  have hroot (env : Env) : env.Rooted A.root := fun _ _ _ => trivial
  have hof {x : Run Value} {s t : State} {v : Number} (hx : A.Holds x A.Value)
      (hrun : x.result s = (.ok (some v), t)) : v.Settled := (hx.ok trivial hrun).2 v rfl
  cases h with
  | yielded hrun => exact hof (hall _ _ _ (hroot _)) hrun
  | found hrun => exact hof (Assurance.holds_findValue (hall _) (hroot _) _ _) hrun
  | bound hb hrun => exact hof (Assurance.holds_variable (hall _) (hroot _) hb) hrun
  | returned hb hrun => exact hof (Assurance.holds_function (hall _) (hroot _) (hroot _) hb _ _) hrun
  | passed hrun hargs hv =>
    have hvalues := ((Assurance.holds_operands (hall _) (hroot _) _).ok trivial hrun).2.2
    rw [Assurance.present?_eq_some hargs] at hvalues
    exact hvalues (some v) (List.mem_map_of_mem hv) v rfl
  | printed hrun => exact hof (Assurance.holds_printed (hall _) (hroot _) _ Value.of_none) hrun

/-! ## The text of an integer -/

theorem integerText_eq (z : Int) : integerText z = z.repr := by
  unfold integerText wholeChars
  rw [Int.repr_eq_if]
  by_cases hz : z < 0
  · have habs : z.natAbs = (-z).toNat := by omega
    rw [if_pos hz, if_neg (by omega), Nat.repr_eq_ofList_toDigits, habs]
    simp
  · have habs : z.natAbs = z.toNat := by omega
    rw [if_neg hz, if_pos (by omega), Nat.repr_eq_ofList_toDigits, habs]

/-- an integer is written with all its digits, and zero without a sign -/
theorem render_of_exactly {v : Number} {z : Int} (hkind : v.kind = .int) (hv : v.amount.Exactly z)
    (places : Int) : v.render places = .ok ("INT_TYPE: " ++ z.repr) := by
  obtain ⟨s, n, h, hamount, hsigned, _⟩ := hv
  have hpos : (unitsPerOne : Int) ≠ 0 := by
    have hunits := unitsPerOne_pos
    omega
  unfold Number.render
  rw [hkind, hamount]
  dsimp only
  rw [Amount.floorText, hsigned, Int.mul_fdiv_cancel _ hpos, integerText_eq]
  rfl

theorem render_of_not_finite {v : Number} (hkind : v.kind = .int)
    (hv : v.amount.isFinite = false) (places : Int) :
    ∃ word ∈ ["nan", "inf", "-inf"], v.render places = .ok ("INT_TYPE: " ++ word) := by
  unfold Number.render
  rw [hkind]
  rcases hamount : v.amount with _ | s | ⟨s, n, h⟩
  · exact ⟨"nan", by simp, rfl⟩
  · cases s with
    | false => exact ⟨"inf", by simp, rfl⟩
    | true => exact ⟨"-inf", by simp, rfl⟩
  · rw [hamount] at hv
    cases hv

/-- no integer is written as a zero with a sign -/
theorem integerText_ne_signedZero (z : Int) : integerText z ≠ String.ofList ['-', '0'] := by
  unfold integerText wholeChars
  intro h
  have hdigits := Nat.ofDigitChars_ten_toDigits (n := z.natAbs)
  by_cases hz : z < 0
  · rw [if_pos hz] at h
    have hzero : Nat.toDigits 10 z.natAbs = ['0'] := (List.cons.inj (String.ofList_injective h)).2
    rw [hzero] at hdigits
    have hnone : z.natAbs = 0 := hdigits.symm
    omega
  · rw [if_neg hz] at h
    have hsign : '-' ∈ Nat.toDigits 10 z.natAbs := by
      rw [String.ofList_injective h]
      exact List.mem_cons_self
    exact absurd (Nat.isDigit_of_mem_toDigits (by decide) (by decide) hsign) (by decide)

/-- **Integers are whole.**  Whatever is run in a forest that the factories give, every integer that
is yielded, bound, passed to an operator or printed is not finite, or it is an integer exactly and no
zero with a sign; then its text, with whatever places, is that integer in base ten. -/
theorem integers_whole {f : Forest} (hf : Built f) {v : Number} (hv : Handled f v)
    (hkind : v.kind = .int) :
    (v.amount.isFinite = false ∧ ∀ places, ∃ word ∈ ["nan", "inf", "-inf"],
      v.render places = .ok ("INT_TYPE: " ++ word)) ∨
    ∃ z, v.amount.Exactly z ∧ z.repr ≠ "-0" ∧
      ∀ places, v.render places = .ok ("INT_TYPE: " ++ z.repr) := by
  rcases settled_of_handled (made_of_built hf) hv hkind with hfinite | ⟨z, hz⟩
  · exact Or.inl ⟨hfinite, render_of_not_finite hkind hfinite⟩
  · refine Or.inr ⟨z, hz, ?_, render_of_exactly hkind hz⟩
    rw [← integerText_eq]
    exact integerText_ne_signedZero z

def signedLiteral : Forest := ⟨#[⟨.number (.make (.zero true) .int), none, none⟩], #[], #[]⟩

theorem built_signedLiteral : Built signedLiteral :=
  .made .empty (m := .number (.zero true) .int) ⟨[], [], rfl⟩

theorem handled_signedLiteral : Handled signedLiteral (.make (.zero true) .int) := by
  have hrun : (evalNode signedLiteral 1 (.node ⟨0⟩) (.root 0 { strict := true })).result
      (.start [] (.ofSeed 0)) = (.ok (some (.make (.zero true) .int)), _) := rfl
  exact .yielded hrun

theorem integers_whole_signedLiteral : Built signedLiteral ∧
    Handled signedLiteral (.make (.zero true) .int) ∧
    (Number.make (.zero true) .int).kind = .int ∧
    (((Number.make (.zero true) .int).amount.isFinite = false ∧
      ∀ places, ∃ word ∈ ["nan", "inf", "-inf"],
        (Number.make (.zero true) .int).render places = .ok ("INT_TYPE: " ++ word)) ∨
    ∃ z, (Number.make (.zero true) .int).amount.Exactly z ∧ z.repr ≠ "-0" ∧
      ∀ places, (Number.make (.zero true) .int).render places = .ok ("INT_TYPE: " ++ z.repr)) :=
  ⟨built_signedLiteral, handled_signedLiteral, rfl,
    integers_whole built_signedLiteral handled_signedLiteral rfl⟩

end Abacus
