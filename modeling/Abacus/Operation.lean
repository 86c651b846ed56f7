import Abacus.Amount.Guarded
import Abacus.Builtin
import Abacus.Fault
import Abacus.Number

/-!
# What the operators compute

The built-in operators that only compute.  A unary operator keeps the kind of its operand, a binary
or variadic one is floating-point as soon as one operand is, and a comparison is the integer one or
zero.  The variadic ones are left folds.  Operands beyond those that a rule takes are ignored; too
few of them stop a rule, and so does a function that refuses them.

* `sumOf`, `differenceOf`, `productOf`, `quotientOf`   the left folds;
* `Rule`           how a number is made of operands;
* `rule? b`        the rule of an operator that only computes;
* `Rule.apply`     the number that a rule makes of operands;
* `Rule.Answers`   its function refuses no amounts.
-/

namespace Abacus

/-! ## Folds -/

def sumOf (args : List Number) : Amount :=
  args.foldl (fun total v => total.add v.amount) (.zero false)

def productOf (args : List Number) : Amount :=
  args.foldl (fun product v => product.mul v.amount) .one

def differenceOf : List Number → Amount
  | [] => .zero false
  | head :: rest => rest.foldl (fun total v => total.sub v.amount) head.amount

def quotientOf : List Number → Except Refusal Amount
  | [] => .ok (.zero false)
  | head :: rest =>
    rest.foldlM (fun quotient v => Guarded.div quotient v.amount) head.amount

/-! ## Rules -/

inductive Rule where
  /-- of one amount, with its kind -/
  | unary (f : Amount → Except Refusal Amount)
  | binary (f : Amount → Amount → Except Refusal Amount)
  /-- one or zero after a comparison -/
  | comparison (test : Amount → Amount → Bool)
  | fold (f : List Number → Except Refusal Amount)

def rule? : Builtin → Option Rule
  | .read | .rand | .print => none
  | .neg => some (.unary fun x => .ok x.neg)
  | .abs => some (.unary Refusing.abs)
  | .exp => some (.unary (Guarded.overflowing Refusing.exp))
  | .sqrt => some (.unary Guarded.sqrt)
  | .log => some (.unary Guarded.log)
  | .exp2 => some (.unary (Guarded.overflowing Refusing.exp2))
  | .cbrt => some (.unary Refusing.cbrt)
  | .remainder => some (.binary Guarded.remainder)
  | .pow => some (.binary Guarded.power)
  | .max => some (.binary fun x y => .ok (x.larger y))
  | .min => some (.binary fun x y => .ok (x.smaller y))
  | .hypot => some (.binary fun x y => .ok (x.hypot y))
  | .equal => some (.comparison Amount.isEqual)
  | .less => some (.comparison Amount.isLess)
  | .greater => some (.comparison fun x y => Amount.isLess y x)
  | .add => some (.fold fun args => .ok (sumOf args))
  | .sub => some (.fold fun args => .ok (differenceOf args))
  | .mult => some (.fold fun args => .ok (productOf args))
  | .div => some (.fold quotientOf)

namespace Rule

def made (make : Amount → Number) : Except Refusal Amount → Except Fault Number
  | .ok x => .ok (make x)
  | .error refusal => .error (.refused refusal)

/-- the number that a rule makes of operands; a rule that lacks one of its operands stops -/
def apply : Rule → List Number → Except Fault Number
  | .unary f, x :: _ => made (.make · x.kind) (f x.amount)
  | .binary f, x :: y :: _ => made (promoted · [x, y]) (f x.amount y.amount)
  | .comparison test, x :: y :: _ => .ok (.ofBool (test x.amount y.amount))
  | .fold f, args => made (promoted · args) (f args)
  | _, _ => .error .operandLacking

def least : Rule → Nat
  | .unary _ => 1
  | .binary _ => 2
  | .comparison _ => 2
  | .fold _ => 0

/-- **The function of a rule answers**, whatever amounts it is handed. -/
def Answers : Rule → Prop
  | .unary f => ∀ x, ∃ z, f x = .ok z
  | .binary f => ∀ x y, ∃ z, f x y = .ok z
  | .comparison _ => True
  | .fold f => ∀ args, ∃ z, f args = .ok z

section
variable {make : Amount → Number} {outcome : Except Refusal Amount} {r : Rule} {args : List Number}
  {fault : Fault} {v : Number}

theorem made_eq_ok (h : made make outcome = .ok v) : ∃ x, v = make x := by
  cases outcome with
  | error refusal => cases h
  | ok x =>
    cases h
    exact ⟨x, rfl⟩

theorem made_eq_error (h : made make outcome = .error fault) :
    ∃ refusal, fault = .refused refusal := by
  cases outcome with
  | error refusal =>
    cases h
    exact ⟨refusal, rfl⟩
  | ok x => cases h

theorem kind_promote (ns : List Number) :
    promote ns = .int ∨ ∃ a ∈ ns, a.kind = promote ns := by
  unfold promote
  split
  · next hany =>
    obtain ⟨a, ha, hkind⟩ := List.any_eq_true.1 hany
    exact Or.inr ⟨a, ha, beq_iff_eq.1 hkind⟩
  · exact Or.inl rfl

/-- **A rule makes a number**, and its kind is that of an operand if it is no integer. -/
theorem apply_eq_ok (h : r.apply args = .ok v) :
    ∃ x k, v = .make x k ∧ (k = .int ∨ ∃ a ∈ args, a.kind = k) := by
  unfold apply at h
  split at h
  · next x _ =>
    obtain ⟨z, rfl⟩ := made_eq_ok h
    exact ⟨z, _, rfl, Or.inr ⟨x, List.mem_cons_self, rfl⟩⟩
  · next x y rest =>
    obtain ⟨z, rfl⟩ := made_eq_ok h
    refine ⟨z, _, rfl, (kind_promote [x, y]).imp_right ?_⟩
    rintro ⟨a, ha, hkind⟩
    exact ⟨a, List.mem_append_left rest ha, hkind⟩
  · cases h
    exact ⟨_, _, rfl, Or.inl rfl⟩
  · obtain ⟨z, rfl⟩ := made_eq_ok h
    exact ⟨z, _, rfl, kind_promote args⟩
  · cases h

theorem apply_eq_error (h : r.apply args = .error fault) :
    fault = .operandLacking ∨ ∃ refusal, fault = .refused refusal := by
  unfold apply at h
  split at h
  · exact Or.inr (made_eq_error h)
  · exact Or.inr (made_eq_error h)
  · cases h
  · exact Or.inr (made_eq_error h)
  · cases h
    exact Or.inl rfl

/-- **A rule that answers makes a number** of as many operands as it takes. -/
theorem exists_apply (hr : r.Answers) (h : r.least ≤ args.length) : ∃ v, r.apply args = .ok v := by
  cases r with
  | unary f =>
    match args with
    | [] => simp [least] at h
    | x :: _ =>
      obtain ⟨z, hz⟩ := hr x.amount
      exact ⟨_, by rw [apply, hz, made]⟩
  | binary f =>
    match args with
    | [] => simp [least] at h
    | [x] => simp [least] at h
    | x :: y :: _ =>
      obtain ⟨z, hz⟩ := hr x.amount y.amount
      exact ⟨_, by rw [apply, hz, made]⟩
  | comparison test =>
    match args with
    | [] => simp [least] at h
    | [x] => simp [least] at h
    | x :: y :: _ => exact ⟨_, rfl⟩
  | fold f =>
    obtain ⟨z, hz⟩ := hr args
    exact ⟨_, by rw [apply, hz, made]⟩

end

end Rule

theorem least_of_rule? {b : Builtin} {r : Rule} (h : rule? b = some r) :
    r.least = b.arity.least := by
  cases b <;> cases h <;> rfl

end Abacus
