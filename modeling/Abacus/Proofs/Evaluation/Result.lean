import Abacus.Evaluation.Evaluate

/-!
# Results of computations

What a computation gives from a state, read off the way it is put together.

* `Run.result_bind`, `Run.result_bind_ok`   doing one thing after another;
* `Remark.isSurplus`  remarks on the operands that a call has too many of;
* `Env.push`          the environment inside a node, with the serial numbers it takes;
* `result_enter`      entering a node never fails;
* `evalVariable_eq`, `evalBuiltin_eq`   the two constructs that look at the state first;
* `result_readNumber`, `result_draw`        the two operators that change it;
* `result_applyBuiltin`   the operators that only compute;
* `Sequential rel`   relations between computations that doing one thing after another keeps.
-/

namespace Abacus

/-! ## Doing one thing after another -/

namespace Run

variable {α β : Type}

@[simp] theorem result_pure (a : α) (s : State) : (pure a : Run α).result s = (.ok a, s) := rfl

@[simp] theorem result_throw (fault : Fault) (s : State) :
    (throw fault : Run α).result s = (.error fault, s) := rfl

@[simp] theorem result_get (s : State) : (get : Run State).result s = (.ok s, s) := rfl

@[simp] theorem result_modify (step : State → State) (s : State) :
    (modify step : Run Unit).result s = (.ok (), step s) := rfl

@[simp] theorem result_fresh (s : State) :
    fresh.result s = (.ok s.next, { s with next := s.next + 1 }) := rfl

@[simp] theorem result_report (env : Env) (r : Remark) (s : State) :
    (report env r).result s
      = (.ok (), { s with reports := s.reports.push ⟨env.policy.channel, r⟩ }) := rfl

@[simp] theorem result_write (text : String) (s : State) :
    (write text).result s = (.ok (), { s with output := s.output ++ text }) := rfl

theorem result_bind (x : Run α) (k : α → Run β) (s : State) :
    (x >>= k).result s = match x.result s with
      | (.ok a, t) => (k a).result t
      | (.error fault, t) => (.error fault, t) := by
  unfold result
  simp only [ExceptT.run_bind, StateT.run_bind]
  rcases h : StateT.run (ExceptT.run x) s with ⟨_ | a, t⟩
  · rfl
  · rfl

theorem result_bind_ok {x : Run α} {k : α → Run β} {s t : State} {a : α}
    (h : x.result s = (.ok a, t)) : (x >>= k).result s = (k a).result t := by
  rw [result_bind, h]

theorem result_bind_error {x : Run α} {k : α → Run β} {s t : State} {fault : Fault}
    (h : x.result s = (.error fault, t)) : (x >>= k).result s = (.error fault, t) := by
  rw [result_bind, h]

theorem fst_result_bind {x : Run α} {k : α → Run β} {s : State} {fault : Fault}
    (h : (x.result s).1 = .error fault) : ((x >>= k).result s).1 = .error fault := by
  rw [result_bind_error (Prod.ext h rfl : x.result s = (.error fault, (x.result s).2))]

theorem result_bind_eq_ok {x : Run α} {k : α → Run β} {s t : State} {b : β}
    (h : (x >>= k).result s = (.ok b, t)) :
    ∃ a s', x.result s = (.ok a, s') ∧ (k a).result s' = (.ok b, t) := by
  rw [result_bind] at h
  rcases hx : x.result s with ⟨fault | a, s'⟩
  · rw [hx] at h
    cases h
  · rw [hx] at h
    exact ⟨a, s', rfl, h⟩

theorem result_bind_eq_error {x : Run α} {k : α → Run β} {s t : State} {fault : Fault}
    (h : (x >>= k).result s = (.error fault, t)) :
    x.result s = (.error fault, t) ∨
      ∃ a s', x.result s = (.ok a, s') ∧ (k a).result s' = (.error fault, t) := by
  rw [result_bind] at h
  rcases hx : x.result s with ⟨φ | a, s'⟩
  · rw [hx] at h
    cases h
    exact Or.inl rfl
  · rw [hx] at h
    exact Or.inr ⟨a, s', rfl, h⟩

theorem lift_ok (a : α) : (liftM (Except.ok a : Except Fault α) : Run α) = pure a := rfl

theorem result_marked (mark : Mark) (x : Run α) (s : State) :
    (marked mark x).result s = ((x.result { s with active := mark :: s.active }).1,
      { (x.result { s with active := mark :: s.active }).2 with
        active := (x.result { s with active := mark :: s.active }).2.active.erase mark }) := rfl

end Run

open Run

/-! ## Reports -/

def Remark.isSurplus : Remark → Bool
  | .surplusOperands .. => true
  | _ => false

def State.surplus (s : State) : List Report := s.reports.toList.filter (·.remark.isSurplus)

theorem State.surplus_push (s : State) {r : Report} (hr : r.remark.isSurplus = false) :
    ({ s with reports := s.reports.push r } : State).surplus = s.surplus := by
  simp [State.surplus, hr]

/-! ## Entering a node -/

/-- the environment inside tables, the first of them outermost, with serial numbers from one on -/
def Env.push : List TableId → Nat → Env → Env
  | [], _, env => env
  | table :: inner, n, env => push inner (n + 1) (.frame n none [] (some table) env)

@[simp] theorem Env.push_cons (table : TableId) (inner : List TableId) (n : Nat) (env : Env) :
    Env.push (table :: inner) n env = Env.push inner (n + 1) (.frame n none [] (some table) env) :=
  rfl

@[simp] theorem Env.policy_push (tables : List TableId) (n : Nat) (env : Env) :
    (Env.push tables n env).policy = env.policy := by
  induction tables generalizing n env with
  | nil => rfl
  | cons table inner ih => rw [Env.push_cons, ih, Env.policy_frame]

@[simp] theorem Env.context_push (tables : List TableId) (n : Nat) (env : Env) :
    (Env.push tables n env).context = env.context := by
  induction tables generalizing n env with
  | nil => rfl
  | cons table inner ih => rw [Env.push_cons, ih, Env.context_frame]

theorem result_pushTables (tables : List TableId) (env : Env) (s : State) :
    (pushTables tables env).result s
      = (.ok (Env.push tables s.next env), { s with next := s.next + tables.length }) := by
  induction tables generalizing env s with
  | nil => rfl
  | cons table inner ih =>
    show (fresh >>= fun n => pushTables inner (.frame n none [] (some table) env)).result s = _
    rw [result_bind_ok (result_fresh s), ih, Env.push_cons, List.length_cons,
      show s.next + 1 + inner.length = s.next + (inner.length + 1) by omega]

/-- **Entering a node never fails**: its frames take the next serial numbers, and nothing else in the
state changes. -/
theorem result_enter (f : Forest) (node : Node) (env : Env) (s : State) :
    (enter f node env).result s = (.ok (Env.push (f.tablesOf node).reverse s.next env),
      { s with next := s.next + (f.tablesOf node).length }) := by
  rw [enter, result_pushTables, List.length_reverse]

/-! ## Variables -/

/-- the value of a variable before its declared kind is looked at -/
def findValue (ev : Evaluator) (id : BindingId) (b : Binding) (owner : Env) : Run Value :=
  if owner.policy.guarded then get >>= fun s =>
    if s.active.contains (id, owner.serial) then throw (.circular b.ident)
    else marked (id, owner.serial) (ev b.body owner)
  else ev b.body owner

theorem evalVariable_eq (ev : Evaluator) (id : BindingId) (b : Binding) (owner : Env) :
    evalVariable ev id b owner = findValue ev id b owner >>= coerce owner b.kind b.ident := by
  unfold evalVariable findValue
  rcases owner.policy.guarded with _ | _
  · rfl
  · rw [if_pos rfl, if_pos rfl, bind_assoc]
    congr 1
    funext s
    split
    · rfl
    · rfl

/-- finding a value fails on a mark that is set, and marks the variable while its body is evaluated -/
theorem result_findValue (ev : Evaluator) (id : BindingId) (b : Binding) (owner : Env) (s : State) :
    (findValue ev id b owner).result s =
      if owner.policy.guarded then
        if (id, owner.serial) ∈ s.active then (.error (.circular b.ident), s)
        else (marked (id, owner.serial) (ev b.body owner)).result s
      else (ev b.body owner).result s := by
  unfold findValue
  split
  · rw [result_bind_ok (result_get s)]
    by_cases hactive : (id, owner.serial) ∈ s.active
    · rw [if_pos (List.contains_iff_mem.2 hactive), if_pos hactive]
      rfl
    · rw [if_neg fun hc => hactive (List.contains_iff_mem.1 hc), if_neg hactive]
  · rfl

theorem findValue_unguarded {owner : Env} (h : owner.policy.guarded = false) (ev : Evaluator)
    (id : BindingId) (b : Binding) : findValue ev id b owner = ev b.body owner := by
  rw [findValue, h, if_neg (by simp)]

theorem findValue_active {owner : Env} (h : owner.policy.guarded = true) (ev : Evaluator)
    {id : BindingId} (b : Binding) {s : State} (hs : (id, owner.serial) ∈ s.active) :
    (findValue ev id b owner).result s = (.error (.circular b.ident), s) := by
  rw [result_findValue, if_pos h, if_pos hs]

theorem findValue_inactive {owner : Env} (h : owner.policy.guarded = true) (ev : Evaluator)
    {id : BindingId} (b : Binding) {s : State} (hs : (id, owner.serial) ∉ s.active) :
    (findValue ev id b owner).result s
      = (marked (id, owner.serial) (ev b.body owner)).result s := by
  rw [result_findValue, if_pos h, if_neg hs]

/-! ## Built-in operators -/

def countUnchecked (id : NodeId) (b : Builtin) (count : Int) (checked : Bool) (env : Env) :
    Run Unit :=
  if checked then pure () else countOperands id b count env

theorem evalBuiltin_eq (ev : Evaluator) (id : NodeId) (b : Builtin) (operands : List Ref)
    (checked : Bool) (env : Env) :
    evalBuiltin ev id b operands checked env
      = (countUnchecked id b operands.length checked env >>= fun _ =>
          if b.isLazy then printOperands ev env none operands
          else evalOperands ev env (usedOperands b operands) >>= fun values =>
            match present? values with
            | some args => applyBuiltin b env args
            | none => pure none) := by
  cases checked <;> rfl

/-- a call put together by hand is evaluated like another one, once it is counted -/
theorem evalBuiltin_unchecked (ev : Evaluator) (id : NodeId) (b : Builtin) (operands : List Ref)
    (env : Env) :
    evalBuiltin ev id b operands false env
      = (countOperands id b operands.length env >>= fun _ => evalBuiltin ev id b operands true env) :=
  rfl

def refusals (env : Env) (lines : List (List Char)) : List Report :=
  lines.map fun line => ⟨env.policy.channel, .invalidLine (strip (String.ofList line))⟩

theorem not_isSurplus_of_refusals {env : Env} {lines : List (List Char)} {r : Report}
    (h : r ∈ refusals env lines) : r.remark.isSurplus = false := by
  obtain ⟨line, _, rfl⟩ := List.mem_map.1 h
  rfl

theorem result_reportLines (env : Env) (lines : List (List Char)) (s : State) :
    (lines.forM fun line => report env (.invalidLine (strip (String.ofList line)))).result s
      = (.ok (), { s with reports := s.reports ++ refusals env lines }) := by
  induction lines generalizing s with
  | nil => simp [refusals]
  | cons line lines ih =>
    show (report env _ >>= fun _ => lines.forM _).result s = _
    rw [result_bind_ok (result_report env _ s), ih]
    simp [refusals]

theorem result_readNumber (env : Env) (s : State) :
    (readNumber env).result s =
      ((match (awaitNumber s.input).amount with
        | some amount => .ok (some (.make amount .float))
        | none => .error .inputEnd),
       { s with
          input := (awaitNumber s.input).rest
          output := s.output ++ (awaitNumber s.input).prompts
          reports := s.reports ++ refusals env (awaitNumber s.input).refused }) := by
  unfold readNumber
  rw [result_bind_ok (result_get s), result_bind_ok (result_modify _ _),
    result_bind_ok (result_write _ _), result_bind_ok (result_reportLines env _ _)]
  cases (awaitNumber s.input).amount <;> rfl

def drawn (source : Nat) (generators : Array Generator) : Amount × Array Generator :=
  match generators[source]? with
  | some g => (g.fraction.1, generators.setIfInBounds source g.fraction.2)
  | none => (.zero false, generators)

theorem result_draw (env : Env) (s : State) :
    (draw env).result s = (.ok (drawn env.policy.source s.generators).1,
      { s with generators := (drawn env.policy.source s.generators).2 }) := by
  unfold draw drawn
  rw [result_bind_ok (result_get s)]
  cases s.generators[env.policy.source]? with
  | none => rfl
  | some g => rfl

theorem result_applyBuiltin {b : Builtin} {rule : Rule} {args : List Number} {v : Number}
    (hrule : rule? b = some rule) (hv : rule.apply args = .ok v) (env : Env) (s : State) :
    (applyBuiltin b env args).result s = (.ok (some v), s) := by
  unfold applyBuiltin
  split
  · cases hrule
  · cases hrule
  · rw [hrule]
    dsimp only
    rw [hv]
    rfl

/-! ## Relations between computations -/

/-- **A relation between computations that doing one thing after another keeps** -/
structure Sequential (rel : {α : Type} → Run α → Run α → Prop) : Prop where
  pure : ∀ {α : Type} (a : α), rel (Pure.pure a) (Pure.pure a)
  throw : ∀ {α : Type} (fault : Fault),
    rel (MonadExcept.throw fault : Run α) (MonadExcept.throw fault)
  bind : ∀ {α β : Type} {x y : Run α} {k l : α → Run β},
    rel x y → (∀ a, rel (k a) (l a)) → rel (x >>= k) (y >>= l)

namespace Sequential

variable {rel : {α : Type} → Run α → Run α → Prop}

theorem lift (h : Sequential rel) {α : Type} (x : Except Fault α) :
    rel (liftM x : Run α) (liftM x) := by
  cases x with
  | ok a => exact h.pure a
  | error fault => exact h.throw fault

theorem applyBuiltin (h : Sequential rel) (env env' : Env) (b : Builtin) (args : List Number)
    (hread : b = .read → rel (readNumber env) (readNumber env'))
    (hdraw : b = .rand → rel (draw env) (draw env')) :
    rel (Abacus.applyBuiltin b env args) (Abacus.applyBuiltin b env' args) := by
  unfold Abacus.applyBuiltin
  split
  · exact hread rfl
  · exact h.bind (hdraw rfl) fun _ => h.pure _
  · split
    · exact h.bind (h.lift _) fun _ => h.pure _
    · exact h.pure none

end Sequential

end Abacus
