import Abacus.Evaluation.Env

/-!
# Environments that are alike

Two environments are alike if they have the same frames, up to the policies of their roots and the
serial numbers of their frames.  A name denotes the same thing in both.

* `Env.induction`      induction over frames, through the environments of arguments;
* `Env.argument?`      the argument that a parameter is bound to, whatever the caller;
* `Env.Like P N`       policies related by `P`, serial numbers by `N`, all else the same;
* `Env.Like.lookup?`   what names denote in environments that are alike.
-/

namespace Abacus

namespace Env

/-! ## Induction over frames -/

/-- an environment is a root, or a frame with smaller ones: those of the arguments and the one
around -/
theorem induction {motive : Env → Prop} (onRoot : ∀ n policy, motive (.root n policy))
    (onFrame : ∀ n label parameters table parent,
      (∀ x ref caller, (x, ref, caller) ∈ parameters → motive caller) → motive parent →
      motive (.frame n label parameters table parent)) : ∀ env, motive env
  | .root n policy => onRoot n policy
  | .frame n label parameters table parent =>
    onFrame n label parameters table parent
      (fun _ _ caller _ => induction onRoot onFrame caller)
      (induction onRoot onFrame parent)
termination_by env => sizeOf env
decreasing_by
  · have h := List.sizeOf_lt_of_mem ‹_ ∈ parameters›
    simp only [Prod.mk.sizeOf_spec, Env.frame.sizeOf_spec] at h ⊢
    omega
  · simp only [Env.frame.sizeOf_spec]
    omega

/-! ## Parameters -/

section
variable {α : Type}

theorem lookup_cons (x y : String) (a : α) (bound : List (String × α)) :
    List.lookup x ((y, a) :: bound) = if x = y then some a else List.lookup x bound := by
  by_cases h : x = y
  · rw [if_pos h, h, List.lookup_cons_self]
  · rw [if_neg h, List.lookup_cons, show (x == y) = false from beq_eq_false_iff_ne.2 h]

theorem lookup_setName (name x : String) (a : α) (bound : List (String × α)) :
    (setName name a bound).lookup x = if x = name then some a else bound.lookup x := by
  induction bound with
  | nil => rw [setName, lookup_cons]
  | cons p bound ih =>
    obtain ⟨other, b⟩ := p
    rw [setName]
    by_cases ho : other = name
    · rw [if_pos ho, lookup_cons, lookup_cons, ho]
      by_cases hx : x = name
      · rw [if_pos hx, if_pos hx]
      · rw [if_neg hx, if_neg hx, if_neg hx]
    · rw [if_neg ho, lookup_cons, ih, lookup_cons]
      by_cases hx : x = other
      · rw [if_pos hx, if_pos hx, if_neg (hx ▸ ho)]
      · rw [if_neg hx, if_neg hx]

end

/-- the argument that a parameter is bound to; of a repeated parameter the last one counts -/
def argument? (x : String) : Option Ref → List String → List Ref → Option Ref
  | found, name :: names, ref :: refs => argument? x (if x = name then some ref else found) names refs
  | found, _, _ => found

theorem mem_of_argument? {x : String} {found : Option Ref} {names : List String} {refs : List Ref}
    {ref : Ref} (h : argument? x found names refs = some ref) :
    found = some ref ∨ x ∈ names ∧ ref ∈ refs := by
  induction names generalizing found refs with
  | nil => exact Or.inl h
  | cons name names ih =>
    cases refs with
    | nil => exact Or.inl h
    | cons r refs =>
      rcases ih h with hfound | ⟨hx, href⟩
      · by_cases hx : x = name
        · rw [if_pos hx] at hfound
          cases hfound
          exact Or.inr ⟨by simp [hx], by simp⟩
        · rw [if_neg hx] at hfound
          exact Or.inl hfound
      · exact Or.inr ⟨by simp [hx], by simp [href]⟩

theorem notMem_of_argument? {x : String} {found : Option Ref} {names : List String}
    {refs : List Ref} (hlength : names.length ≤ refs.length)
    (h : argument? x found names refs = none) : found = none ∧ x ∉ names := by
  induction names generalizing found refs with
  | nil => exact ⟨h, List.not_mem_nil⟩
  | cons name names ih =>
    cases refs with
    | nil => cases hlength
    | cons r refs =>
      obtain ⟨hfound, hnot⟩ := ih (Nat.le_of_succ_le_succ hlength) h
      by_cases hx : x = name
      · rw [if_pos hx] at hfound
        cases hfound
      · rw [if_neg hx] at hfound
        exact ⟨hfound, by simp [hx, hnot]⟩

theorem lookup_bindFrom (caller : Env) (x : String) (bound : List (String × Thunk))
    (found : Option Ref) (names : List String) (refs : List Ref)
    (h : bound.lookup x = found.map (·, caller)) :
    (bindFrom caller bound names refs).lookup x = (argument? x found names refs).map (·, caller) := by
  induction names generalizing bound found refs with
  | nil => simpa only [bindFrom, argument?] using h
  | cons name names ih =>
    cases refs with
    | nil => simpa only [bindFrom, argument?] using h
    | cons ref refs =>
      rw [bindFrom, argument?]
      apply ih
      rw [lookup_setName]
      by_cases hx : x = name
      · rw [if_pos hx, if_pos hx, Option.map_some]
      · rw [if_neg hx, if_neg hx, h]

theorem lookup_bind (caller : Env) (names : List String) (refs : List Ref) (x : String) :
    (bind caller names refs).lookup x = (argument? x none names refs).map (·, caller) :=
  lookup_bindFrom caller x [] none names refs rfl

/-! ## Being alike -/

/-- **Environments that are alike**: policies are related by `P` and serial numbers by `N`, and all
else is the same. -/
inductive Like (P : Policy → Policy → Prop) (N : Nat → Nat → Prop) : Env → Env → Prop
  | root {n m : Nat} {p q : Policy} : N n m → P p q → Like P N (.root n p) (.root m q)
  | frame {n m : Nat} {label : Option String} {parameters parameters' : List (String × Ref × Env)}
      {table : Option TableId} {parent parent' : Env} : N n m →
      (∀ x, (parameters.lookup x).map (·.1) = (parameters'.lookup x).map (·.1)) →
      (∀ x ref caller ref' caller', parameters.lookup x = some (ref, caller) →
        parameters'.lookup x = some (ref', caller') → Like P N caller caller') →
      Like P N parent parent' →
      Like P N (.frame n label parameters table parent) (.frame m label parameters' table parent')

inductive FoundLike (P : Policy → Policy → Prop) (N : Nat → Nat → Prop) :
    Option (Found × Env) → Option (Found × Env) → Prop
  | none : FoundLike P N none none
  | thunk {ref : Ref} {caller caller' owner owner' : Env} : Like P N caller caller' →
      Like P N owner owner' →
      FoundLike P N (some (.thunk ref caller, owner)) (some (.thunk ref caller', owner'))
  | binding {id : BindingId} {b : Binding} {owner owner' : Env} : Like P N owner owner' →
      FoundLike P N (some (.binding id b, owner)) (some (.binding id b, owner'))

namespace Like

variable {P : Policy → Policy → Prop} {N : Nat → Nat → Prop} {env env' : Env}

theorem policy (h : Like P N env env') : P env.policy env'.policy := by
  induction h with
  | root _ hp => exact hp
  | frame _ _ _ _ _ ih => exact ih

theorem serial (h : Like P N env env') : N env.serial env'.serial := by
  cases h with
  | root hn _ => exact hn
  | frame hn _ _ _ => exact hn

theorem context (h : Like P N env env') : N env.context env'.context := by
  induction h with
  | root hn _ => exact hn
  | frame _ _ _ _ _ ih => exact ih

/-- an environment is like itself where policies and serial numbers are -/
theorem refl (hP : ∀ p, P p p) (hN : ∀ n, N n n) (env : Env) : Like P N env env := by
  induction env using Env.induction with
  | onRoot n p => exact .root (hN n) (hP p)
  | onFrame n label parameters table parent ihs ih =>
    refine .frame (hN n) (fun _ => rfl) ?_ ih
    intro x ref caller ref' caller' h h'
    rw [h] at h'
    cases h'
    obtain ⟨before, after, hps, _⟩ := List.lookup_eq_some_iff.1 h
    exact ihs x ref caller (by rw [hps]; simp)

theorem table (h : Like P N env env') {n m : Nat} (hn : N n m) (t : TableId) :
    Like P N (.frame n none [] (some t) env) (.frame m none [] (some t) env') :=
  .frame hn (fun _ => rfl) (fun _ _ _ _ _ hx => by cases hx) h

theorem call (h : Like P N env env') {owner owner' : Env} (ho : Like P N owner owner') {n m : Nat}
    (hn : N n m) (label : Option String) (names : List String) (refs : List Ref) :
    Like P N (.frame n label (bind env names refs) none owner)
      (.frame m label (bind env' names refs) none owner') := by
  refine .frame hn (fun x => ?_) (fun x ref caller ref' caller' hx hx' => ?_) ho
  · rw [lookup_bind, lookup_bind, Option.map_map, Option.map_map]
    rfl
  · rw [lookup_bind] at hx hx'
    obtain ⟨r, hr, hc⟩ := Option.map_eq_some_iff.1 hx
    obtain ⟨r', hr', hc'⟩ := Option.map_eq_some_iff.1 hx'
    cases hc
    cases hc'
    exact h

/-- **A name denotes the same thing in environments that are alike.** -/
theorem lookup? (h : Like P N env env') (f : Forest) (x : String) :
    FoundLike P N (env.lookup? f x) (env'.lookup? f x) := by
  induction h with
  | root _ _ => exact .none
  | @frame n m label ps qs t parent parent' hn hrefs hcallers hparent _ ih =>
    have hx := hrefs x
    have howner : Like P N (.frame n label ps t parent) (.frame m label qs t parent') :=
      .frame hn hrefs hcallers hparent
    simp only [Env.lookup?, here?]
    rcases hp : ps.lookup x with _ | ⟨ref, caller⟩
    · rw [hp, Option.map_none] at hx
      rw [Option.map_eq_none_iff.1 hx.symm]
      cases t.bind (f.find? · x) with
      | none => exact ih
      | some found => exact .binding howner
    · rw [hp, Option.map_some] at hx
      obtain ⟨⟨ref', caller'⟩, hq, hr⟩ := Option.map_eq_some_iff.1 hx.symm
      rw [hq]
      cases hr
      exact .thunk (hcallers x ref caller ref caller' hp hq) howner

theorem lookup?_none (h : Like P N env env') {f : Forest} {x : String}
    (hx : env.lookup? f x = none) : env'.lookup? f x = none := by
  have hfound := h.lookup? f x
  rw [hx] at hfound
  generalize env'.lookup? f x = found' at hfound
  cases hfound with
  | none => rfl

theorem lookup?_thunk (h : Like P N env env') {f : Forest} {x : String} {ref : Ref}
    {caller owner : Env} (hx : env.lookup? f x = some (.thunk ref caller, owner)) :
    ∃ caller' owner', env'.lookup? f x = some (.thunk ref caller', owner') ∧
      Like P N caller caller' := by
  have hfound := h.lookup? f x
  rw [hx] at hfound
  generalize env'.lookup? f x = found' at hfound
  cases hfound with
  | thunk hcaller howner => exact ⟨_, _, rfl, hcaller⟩

theorem lookup?_binding (h : Like P N env env') {f : Forest} {x : String} {id : BindingId}
    {b : Binding} {owner : Env} (hx : env.lookup? f x = some (.binding id b, owner)) :
    ∃ owner', env'.lookup? f x = some (.binding id b, owner') ∧ Like P N owner owner' := by
  have hfound := h.lookup? f x
  rw [hx] at hfound
  generalize env'.lookup? f x = found' at hfound
  cases hfound with
  | binding howner => exact ⟨_, rfl, howner⟩

end Like

end Env

end Abacus
