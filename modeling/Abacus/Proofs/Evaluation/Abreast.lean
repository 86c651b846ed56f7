import Abacus.Proofs.Evaluation.Visits

/-!
# Runs that go abreast

Two runs whose policies differ only in what stops a run, a name without a meaning or a circular
definition, do the same until the first of them is stopped by that.

* `Abreast cut marks`   the second computation does what the first one does, unless a fault of the
                        kind `cut` stops the first one;
* `Stops`               how two policies may differ;
* `abreast_evalNode`    evaluations under such policies go abreast;
* `unguarded_of_guarded`   so do a run with the guard and the one without it;
* `visits_beside`       an evaluation inside the first one has its counterpart inside the second.
-/

namespace Abacus

open Run

/-- **The second computation does what the first one does**, from the same state up to marks, unless
the first one is cut off. -/
def Abreast {α : Type} (cut : Fault → Prop) (marks : List Mark → List Mark) (x y : Run α) : Prop :=
  ∀ s, (∃ fault, (x.result s).1 = .error fault ∧ cut fault) ∨
    y.result (s.remarked marks) = ((x.result s).1, (x.result s).2.remarked marks)

/-- **Policies that differ in what stops a run**: the second is lenient where the first is strict, or
keeps no marks where the first is guarded. -/
inductive Stops (cut : Fault → Prop) (marks : List Mark → List Mark) : Policy → Policy → Prop
  | strict {p : Policy} : p.strict = true → (∀ ident, cut (.unresolved ident)) → marks = id →
      Stops cut marks p { p with strict := false }
  | guarded {p : Policy} : p.guarded = true → (∀ ident, cut (.circular ident)) →
      (∀ l, marks l = []) → Stops cut marks p { p with guarded := false }

namespace Stops

variable {cut : Fault → Prop} {marks : List Mark → List Mark} {p q : Policy}

theorem channel (h : Stops cut marks p q) : p.channel = q.channel := by cases h <;> rfl

theorem source (h : Stops cut marks p q) : p.source = q.source := by cases h <;> rfl

theorem places (h : Stops cut marks p q) : p.places = q.places := by cases h <;> rfl

theorem strict_or (h : Stops cut marks p q) :
    p.strict = q.strict ∨ p.strict = true ∧ ∀ ident, cut (.unresolved ident) := by
  cases h with
  | strict hstrict hcut _ => exact Or.inr ⟨hstrict, hcut⟩
  | guarded _ _ _ => exact Or.inl rfl

theorem guarded_or (h : Stops cut marks p q) : p.guarded = q.guarded ∧ marks = id ∨
    p.guarded = true ∧ q.guarded = false ∧ (∀ l, marks l = []) ∧
      ∀ ident, cut (.circular ident) := by
  cases h with
  | strict _ _ hmarks => exact Or.inl ⟨rfl, hmarks⟩
  | guarded hguarded hcut hmarks => exact Or.inr ⟨hguarded, rfl, hmarks, hcut⟩

theorem lenient (h : Stops cut id p q) : q.strict = false := by
  cases h with
  | strict _ _ _ => rfl
  | guarded _ _ hmarks => cases hmarks [(⟨0⟩, 0)]

end Stops

section
variable {cut : Fault → Prop} {marks : List Mark → List Mark} {α β : Type} {env env' : Env}

theorem abreast_pure (a : α) : Abreast cut marks (pure a) (pure a) := fun _ => Or.inr rfl

theorem abreast_throw (fault : Fault) :
    Abreast cut marks (throw fault : Run α) (throw fault) := fun _ => Or.inr rfl

theorem abreast_bind {x y : Run α} {k l : α → Run β} (hx : Abreast cut marks x y)
    (hk : ∀ a, Abreast cut marks (k a) (l a)) : Abreast cut marks (x >>= k) (y >>= l) := by
  intro s
  rcases hr : x.result s with ⟨φ | a, t⟩
  · rw [result_bind_error hr]
    rcases hx s with ⟨fault, hfault, hcut⟩ | hy
    · rw [hr] at hfault
      cases hfault
      exact Or.inl ⟨φ, rfl, hcut⟩
    · rw [hr] at hy
      exact Or.inr (result_bind_error hy)
  · rw [result_bind_ok hr]
    rcases hx s with ⟨fault, hfault, _⟩ | hy
    · rw [hr] at hfault
      cases hfault
    · rw [hr] at hy
      rw [result_bind_ok hy]
      exact hk a t

theorem abreast_report (hc : env.policy.channel = env'.policy.channel) (r : Remark) :
    Abreast cut marks (report env r) (report env' r) := by
  intro s
  rw [result_report, result_report, hc]
  exact Or.inr rfl

theorem abreast_unresolved (h : Stops cut marks env.policy env'.policy) (ident : String)
    (r : Remark) : Abreast cut marks (unresolved env ident r) (unresolved env' ident r) := by
  unfold unresolved
  rcases h.strict_or with hstrict | ⟨hstrict, hcut⟩
  · rw [hstrict]
    split
    · exact abreast_throw _
    · exact abreast_bind (abreast_report h.channel r) fun _ => abreast_pure none
  · rw [if_pos hstrict]
    exact fun _ => Or.inl ⟨_, rfl, hcut ident⟩

theorem abreast_marked (m : Mark) {x y : Run α} (hmarks : marks = id)
    (h : Abreast cut marks x y) : Abreast cut marks (marked m x) (marked m y) := by
  subst hmarks
  intro s
  rcases h { s with active := m :: s.active } with hcut | hy
  · exact Or.inl hcut
  · refine Or.inr ?_
    rw [result_marked, result_marked]
    exact congrArg (fun r : Except Fault α × State =>
      (r.1, { r.2 with active := r.2.active.erase m })) hy

theorem abreast_unmarked (m : Mark) {x y : Run α} (hmarks : ∀ l, marks l = [])
    (h : Abreast cut marks x y) : Abreast cut marks (marked m x) y := by
  intro s
  rcases h { s with active := m :: s.active } with hcut | hy
  · exact Or.inl hcut
  · refine Or.inr ?_
    simp only [State.remarked, hmarks] at hy ⊢
    rw [result_marked, hy]

theorem abreast_findValue {ev ev' : Evaluator} {owner owner' : Env}
    (h : Stops cut marks owner.policy owner'.policy) (hserial : owner.serial = owner'.serial)
    (id : BindingId) (b : Binding) (hev : Abreast cut marks (ev b.body owner) (ev' b.body owner')) :
    Abreast cut marks (findValue ev id b owner) (findValue ev' id b owner') := by
  rcases h.guarded_or with ⟨hguard, hmarks⟩ | ⟨hguard, hguard', hmarks, hcut⟩
  · rcases hguard' : owner.policy.guarded with _ | _
    · rw [findValue_unguarded hguard', findValue_unguarded (hguard ▸ hguard')]
      exact hev
    · intro s
      have hmarked := abreast_marked (id, owner.serial) hmarks hev s
      subst hmarks
      by_cases hactive : (id, owner.serial) ∈ s.active
      · rw [findValue_active hguard' _ _ hactive]
        exact Or.inr (findValue_active (hguard ▸ hguard') _ _ (hserial ▸ hactive))
      · rw [findValue_inactive hguard' _ _ hactive]
        have hother : (findValue ev' id b owner').result (s.remarked fun l => l)
            = (marked (id, owner.serial) (ev' b.body owner')).result (s.remarked fun l => l) := by
          rw [findValue_inactive (hguard ▸ hguard') ev' b (hserial ▸ hactive), hserial]
        exact hother ▸ hmarked
  · rw [findValue_unguarded hguard']
    intro s
    by_cases hactive : (id, owner.serial) ∈ s.active
    · rw [findValue_active hguard _ _ hactive]
      exact Or.inl ⟨_, rfl, hcut _⟩
    · rw [findValue_inactive hguard _ _ hactive]
      exact abreast_unmarked _ hmarks hev s

theorem abreast_readNumber (hc : env.policy.channel = env'.policy.channel) :
    Abreast cut marks (readNumber env) (readNumber env') := by
  intro s
  rw [result_readNumber, result_readNumber]
  unfold refusals
  rw [hc]
  exact Or.inr rfl

theorem abreast_draw (hs : env.policy.source = env'.policy.source) :
    Abreast cut marks (draw env) (draw env') := by
  intro s
  rw [result_draw, result_draw, hs]
  exact Or.inr rfl

theorem abreast_applyBuiltin (h : Stops cut marks env.policy env'.policy) (b : Builtin)
    (args : List Number) :
    Abreast cut marks (applyBuiltin b env args) (applyBuiltin b env' args) := by
  have hsequential : Sequential (Abreast cut marks) := ⟨abreast_pure, abreast_throw, abreast_bind⟩
  exact hsequential.applyBuiltin env env' b args (fun _ => abreast_readNumber h.channel) fun _ =>
    abreast_draw h.source

theorem abreast_get {k l : State → Run α}
    (h : ∀ s, Abreast cut marks (k s) (l (s.remarked marks))) :
    Abreast cut marks (get >>= k) (get >>= l) := by
  intro s
  rw [result_bind_ok (result_get s), result_bind_ok (result_get _)]
  exact h s s

theorem abreast_countOperands (h : Stops cut marks env.policy env'.policy)
    (hcontext : env.context = env'.context) (id : NodeId) (b : Builtin) (count : Int) :
    Abreast cut marks (countOperands id b count env) (countOperands id b count env') := by
  unfold countOperands
  rw [hcontext]
  refine abreast_get ?_
  intro s
  have hcount : Abreast cut marks
      (modify fun s : State => { s with counted := (env'.context, id) :: s.counted } : Run Unit)
      (modify fun s : State => { s with counted := (env'.context, id) :: s.counted } : Run Unit) :=
    fun _ => Or.inr rfl
  show Abreast cut marks (if s.counted.contains (env'.context, id) then _ else _)
    (if s.counted.contains (env'.context, id) then _ else _)
  split
  · exact abreast_pure ()
  · dsimp only
    split
    · exact abreast_bind (abreast_throw _) fun _ => hcount
    · exact hcount
    · exact abreast_bind (abreast_report h.channel _) fun _ => hcount

end

/-! ## Evaluations -/

def abreast (f : Forest) (cut : Fault → Prop) (marks : List Mark → List Mark) : Comparison f where
  policy := Stops cut marks
  serial := Eq
  rel := Abreast cut marks
  pure := abreast_pure
  bind := abreast_bind
  throw := abreast_throw
  write _ _ := Or.inr rfl
  report r _ _ h := abreast_report h.policy.channel r
  fresh h s := h s.next s.next rfl _
  places h := h.places
  unresolved ident r h _ := abreast_unresolved h.policy ident r
  value id b h hev := abreast_findValue h.policy h.serial id b hev
  count _ _ h := abreast_countOperands h.policy h.context _ _ _
  apply args _ _ h := abreast_applyBuiltin h.policy _ args

/-- **Evaluations under policies that differ in what stops a run go abreast.** -/
theorem abreast_evalNode (f : Forest) {cut : Fault → Prop} {marks : List Mark → List Mark}
    (limit : Nat) (ref : Ref) {env env' : Env} (h : Env.Like (Stops cut marks) Eq env env') :
    Abreast cut marks (evalNode f limit ref env) (evalNode f limit ref env') :=
  (abreast f cut marks).evalNode limit ref env env' h

/-! ## With and without the guard -/

theorem stops_guarded (policy : Policy) :
    Stops (fun fault => ∃ ident, fault = .circular ident) (fun _ => [])
      { policy with guarded := true } { policy with guarded := false } :=
  .guarded (p := { policy with guarded := true }) rfl (fun ident => ⟨ident, rfl⟩) fun _ => rfl

/-- **A run without the guard is the one with it**, up to marks, unless the guard stops that. -/
theorem unguarded_of_guarded (f : Forest) (limit : Nat) (ref : Ref) (policy : Policy)
    (input : List Char) (generator : Generator) :
    let guarded := Visit.start limit ref { policy with guarded := true } input generator
    let unguarded := Visit.start limit ref { policy with guarded := false } input generator
    (∃ ident, (guarded.result f).1 = .error (.circular ident)) ∨
      unguarded.result f = ((guarded.result f).1, (guarded.result f).2.remarked fun _ => []) := by
  intro guarded unguarded
  have henv : Env.Like (Stops (fun fault => ∃ ident, fault = .circular ident) fun _ => []) Eq
      guarded.env unguarded.env := .root rfl (stops_guarded policy)
  rcases abreast_evalNode f limit ref henv guarded.state with ⟨_, hfault, ident, rfl⟩ | hsame
  · exact Or.inl ⟨ident, hfault⟩
  · exact Or.inr hsame

/-! ## Evaluations inside runs that go abreast -/

structure Visit.Beside (cut : Fault → Prop) (marks : List Mark → List Mark) (v w : Visit) :
    Prop where
  limit : w.limit = v.limit
  ref : w.ref = v.ref
  env : Env.Like (Stops cut marks) Eq v.env w.env
  state : w.state = v.state.remarked marks

section
variable {f : Forest} {cut : Fault → Prop} {marks : List Mark → List Mark}

theorem Abreast.ok {α : Type} {x y : Run α} (h : Abreast cut marks x y) {s t : State} {a : α}
    (hx : x.result s = (.ok a, t)) : y.result (s.remarked marks) = (.ok a, t.remarked marks) := by
  rcases h s with ⟨fault, hfault, _⟩ | hy
  · rw [hx] at hfault
    cases hfault
  · rw [hx] at hy
    exact hy

theorem remarked_finding {owner owner' : Env} (h : Env.Like (Stops cut marks) Eq owner owner')
    (s : State) (id : BindingId) :
    (s.finding owner id).remarked marks = (s.remarked marks).finding owner' id := by
  unfold State.finding
  rcases h.policy.guarded_or with ⟨hguard, hmarks⟩ | ⟨hguard, hguard', hmarks, _⟩
  · subst hmarks
    rw [hguard, h.serial]
    split
    · rfl
    · rfl
  · rw [if_pos hguard, if_neg (by rw [hguard']; simp)]
    simp only [State.remarked, hmarks]

/-- **A part that begins in the first run begins in the second.** -/
theorem part_beside {limit : Nat} {id : NodeId} {node : Node} {env₁ env₂ env₁' : Env}
    {s s' : State} {ref : Ref} (hnode : f.node? id = some node)
    (h : Env.Like (Stops cut marks) Eq env₁ env₂)
    (hpart : Part f (evalNode f limit) id node.shape env₁ s ref env₁' s') :
    ∃ env₂', Env.Like (Stops cut marks) Eq env₁' env₂' ∧
      Part f (evalNode f limit) id node.shape env₂ (s.remarked marks) ref env₂'
        (s'.remarked marks) := by
  have hev : (abreast f cut marks).Evaluators (evalNode f limit) (evalNode f limit) :=
    (abreast f cut marks).evalNode limit
  generalize hshape : node.shape = shape at hpart
  cases hpart with
  | argument hfound =>
    obtain ⟨caller', owner', hfound', hcaller⟩ := h.lookup?_thunk hfound
    exact ⟨caller', hcaller, .argument hfound'⟩
  | @value _ _ _ _ bid b hfound hrole hfree =>
    obtain ⟨owner', hfound', howner⟩ := h.lookup?_binding hfound
    refine ⟨owner', howner, ?_⟩
    rw [remarked_finding howner]
    refine .value hfound' hrole ?_
    intro hguard'
    rcases howner.policy.guarded_or with ⟨hguard, hmarks⟩ | ⟨_, hunguarded, _, _⟩
    · subst hmarks
      rw [← howner.serial]
      exact hfree (hguard.trans hguard')
    · rw [hunguarded] at hguard'
      cases hguard'
  | body hfound hrole hcheck =>
    obtain ⟨owner', hfound', howner⟩ := h.lookup?_binding hfound
    have hcheck' := Abreast.ok ((abreast f cut marks).checkArguments h _ _ _) hcheck
    exact ⟨_, h.call howner rfl _ _ _, .body hfound' hrole hcheck'⟩
  | operand hchecked hlazy hused hbefore =>
    have hchecked' := Abreast.ok ((abreast f cut marks).countUnchecked h hnode hshape) hchecked
    have hbefore' := Abreast.ok ((abreast f cut marks).evalOperands hev h _) hbefore
    exact ⟨env₂, h, .operand hchecked' hlazy hused hbefore'⟩
  | printed hchecked hlazy hused hbefore =>
    have hchecked' := Abreast.ok ((abreast f cut marks).countUnchecked h hnode hshape) hchecked
    have hbefore' := Abreast.ok ((abreast f cut marks).printOperands hev h _ _) hbefore
    exact ⟨env₂, h, .printed hchecked' hlazy hused hbefore'⟩
  | test => exact ⟨env₂, h, .test⟩
  | branch htest => exact ⟨env₂, h, .branch (Abreast.ok (hev _ _ _ h) htest)⟩

theorem begins_beside {v w v' : Visit} (hbegins : Begins f v w) (h : v.Beside cut marks v') :
    ∃ w', Begins f v' w' ∧ w.Beside cut marks w' := by
  cases hbegins with
  | @part limit id node env inner env' s s₁ s' ref hnode henter hpart =>
    obtain ⟨limit', ref', env₂, s₂⟩ := v'
    obtain ⟨hlimit, href, henv, hstate⟩ := h
    dsimp only at hlimit href henv hstate
    subst hlimit href hstate
    rw [result_enter] at henter
    cases henter
    obtain ⟨env₂', henv', hpart'⟩ :=
      part_beside hnode (henv.push (fun _ => rfl) (f.tablesOf node).reverse) hpart
    refine ⟨⟨limit, ref, env₂', s'.remarked marks⟩, .part hnode ?_ hpart', rfl, rfl, henv', rfl⟩
    rw [result_enter]
    rfl

/-- **An evaluation inside the first run has its counterpart inside the second.** -/
theorem visits_beside {v w v' : Visit} (hvisits : Visits f v w) (h : v.Beside cut marks v') :
    ∃ w', Visits f v' w' ∧ w.Beside cut marks w' := by
  induction hvisits with
  | refl => exact ⟨v', .refl, h⟩
  | tail _ hbegins ih =>
    obtain ⟨u', hu, hbeside⟩ := ih
    obtain ⟨w', hw, hbeside'⟩ := begins_beside hbegins hbeside
    exact ⟨w', hu.tail hw, hbeside'⟩

end

end Abacus
