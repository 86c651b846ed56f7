import Abacus.Proofs.Evaluation.Counting

/-!
# Operands in turn

A call of a built-in operator evaluates the operands that it uses one after another, each from the
state in which the one before has left the run; the operator that prints writes a line after each.
The first operand whose evaluation stops, stops the call.  An operator that computes, reads or draws
is applied once all its operands have values, and not at all if one of them is missing.

* `InTurn`               operands evaluated one after another, with what is written after each;
* `StopsInTurn`          a row of operands that one of them stops;
* `inTurn_or_stops`      one of the two happens;
* `evalOperands_inTurn`, `printOperands_inTurn`   the operands of a call are evaluated in turn;
* `Lacks`                a call put together by hand that lacks an operand;
* `HasTurn`              an operand of a row that is begun;
* `operands_in_turn`     **what a call evaluates, in which order, and what its value is**.
-/

namespace Abacus

open Run Growth

/-! ## Rows of operands -/

/-- **Operands evaluated in turn**, each from the state that the one before has left, when what is
written after that is written -/
inductive InTurn (ev : Evaluator) (env : Env) (line : Value → Except Fault String) :
    List Ref → State → List Value → State → Prop
  | nil {s : State} : InTurn ev env line [] s [] s
  | cons {ref : Ref} {rest : List Ref} {s s₁ t : State} {value : Value} {values : List Value}
      {text : String} : (ev ref env).result s = (.ok value, s₁) → line value = .ok text →
      InTurn ev env line rest { s₁ with output := s₁.output ++ text } values t →
      InTurn ev env line (ref :: rest) s (value :: values) t

/-- **An operand stops a row of them**, after those before it: its evaluation stops, or what is to be
written after it cannot be written. -/
def StopsInTurn (ev : Evaluator) (env : Env) (line : Value → Except Fault String) (refs : List Ref)
    (s : State) (fault : Fault) (t : State) : Prop :=
  ∃ before ref after values s', refs = before ++ ref :: after ∧
    InTurn ev env line before s values s' ∧
    ((ev ref env).result s' = (.error fault, t) ∨
      ∃ value, (ev ref env).result s' = (.ok value, t) ∧ line value = .error fault)

def noLine (_ : Value) : Except Fault String := .ok ""

def printedLine (places : Nat) (value : Value) : Except Fault String :=
  (value.render places).map (· ++ "\n")

section
variable {ev : Evaluator} {env : Env} {line : Value → Except Fault String} {refs : List Ref}
  {s t : State} {values : List Value} {fault : Fault}

theorem InTurn.length (h : InTurn ev env line refs s values t) : values.length = refs.length := by
  induction h with
  | nil => rfl
  | cons _ _ _ ih => rw [List.length_cons, List.length_cons, ih]

theorem StopsInTurn.cons {ref : Ref} {s₁ : State} {value : Value} {text : String}
    (href : (ev ref env).result s = (.ok value, s₁)) (htext : line value = .ok text)
    (h : StopsInTurn ev env line refs { s₁ with output := s₁.output ++ text } fault t) :
    StopsInTurn ev env line (ref :: refs) s fault t := by
  obtain ⟨before, ref', after, values, s', rfl, hbefore, hstop⟩ := h
  exact ⟨ref :: before, ref', after, value :: values, s', rfl, .cons href htext hbefore, hstop⟩

/-- **All operands have their turn, or one of them stops the row.** -/
theorem inTurn_or_stops (ev : Evaluator) (env : Env) (line : Value → Except Fault String)
    (refs : List Ref) (s : State) : (∃ values t, InTurn ev env line refs s values t) ∨
      ∃ fault t, StopsInTurn ev env line refs s fault t := by
  induction refs generalizing s with
  | nil => exact Or.inl ⟨[], s, .nil⟩
  | cons ref rest ih =>
    rcases href : (ev ref env).result s with ⟨fault | value, s₁⟩
    · exact Or.inr ⟨fault, s₁, [], ref, rest, [], s, rfl, .nil, Or.inl href⟩
    · rcases htext : line value with fault | text
      · exact Or.inr ⟨fault, s₁, [], ref, rest, [], s, rfl, .nil, Or.inr ⟨value, href, htext⟩⟩
      · rcases ih { s₁ with output := s₁.output ++ text } with ⟨values, t, h⟩ | ⟨fault, t, h⟩
        · exact Or.inl ⟨value :: values, t, .cons href htext h⟩
        · exact Or.inr ⟨fault, t, h.cons href htext⟩

theorem StopsInTurn.of_lines (h : StopsInTurn ev env line refs s fault t)
    (hline : ∀ value, ∃ text, line value = .ok text) :
    ∃ before ref after values s', refs = before ++ ref :: after ∧
      InTurn ev env line before s values s' ∧ (ev ref env).result s' = (.error fault, t) := by
  obtain ⟨before, ref, after, values, s', hrefs, hbefore, hfault | ⟨value, _, htext⟩⟩ := h
  · exact ⟨before, ref, after, values, s', hrefs, hbefore, hfault⟩
  · obtain ⟨text, htext'⟩ := hline value
    rw [htext] at htext'
    cases htext'

/-! ## The operands of a call -/

theorem written_nothing (s : State) : { s with output := s.output ++ "" } = s := by
  rw [String.append_empty]

/-- **The operands of an operator that computes are evaluated in turn**, and nothing is written. -/
theorem evalOperands_inTurn : (evalOperands ev env refs).result s = (.ok values, t) ↔
    InTurn ev env noLine refs s values t := by
  constructor
  · intro h
    induction refs generalizing s values with
    | nil =>
      cases h
      exact .nil
    | cons ref rest ih =>
      obtain ⟨value, s₁, href, hrest⟩ := result_bind_eq_ok h
      obtain ⟨values', s₂, hvalues, hpure⟩ := result_bind_eq_ok hrest
      cases hpure
      refine .cons href rfl ?_
      rw [written_nothing]
      exact ih hvalues
  · intro h
    induction h with
    | nil => rfl
    | cons href htext _ ih =>
      cases htext
      rw [written_nothing] at ih
      exact evalOperands_cons_ok href ih

theorem evalOperands_stops (h : StopsInTurn ev env noLine refs s fault t) :
    (evalOperands ev env refs).result s = (.error fault, t) := by
  obtain ⟨before, ref, after, values, s', rfl, hbefore, hstop⟩ := h
  rw [evalOperands_append, result_bind_ok (evalOperands_inTurn.2 hbefore), evalOperands, bind_assoc]
  rcases hstop with href | ⟨_, _, htext⟩
  · exact result_bind_error href
  · cases htext

theorem printedLine_eq_ok {places : Nat} {value : Value} {text : String}
    (h : printedLine places value = .ok text) :
    ∃ printed, value.render places = .ok printed ∧ text = printed ++ "\n" := by
  unfold printedLine at h
  rcases hrender : value.render places with _ | printed
  · rw [hrender] at h
    cases h
  · rw [hrender] at h
    cases h
    exact ⟨printed, rfl, rfl⟩

theorem printedLine_eq_error {places : Nat} {value : Value}
    (h : printedLine places value = .error fault) : value.render places = .error fault := by
  unfold printedLine at h
  rcases hrender : value.render places with _ | printed
  · rw [hrender] at h
    cases h
    rfl
  · rw [hrender] at h
    cases h

/-- **The operands of the operator that prints are evaluated in turn**, each printed on a line before
the next one is evaluated; the value is that of the last one. -/
theorem printOperands_of_inTurn {first : Value}
    (h : InTurn ev env (printedLine env.policy.places) refs s values t) :
    (printOperands ev env first refs).result s = (.ok (values.getLast?.getD first), t) := by
  induction h generalizing first with
  | nil => rfl
  | cons href htext _ ih =>
    obtain ⟨printed, hrender, rfl⟩ := printedLine_eq_ok htext
    rw [printOperands_cons_ok href hrender, ih, List.getLast?_cons]
    rfl

theorem printOperands_stops {first : Value}
    (h : StopsInTurn ev env (printedLine env.policy.places) refs s fault t) :
    (printOperands ev env first refs).result s = (.error fault, t) := by
  obtain ⟨before, ref, after, values, s', rfl, hbefore, hstop⟩ := h
  rw [printOperands_append, result_bind_ok (printOperands_of_inTurn hbefore), printOperands]
  rcases hstop with href | ⟨value, href, htext⟩
  · exact result_bind_error href
  · rw [result_bind_ok href, printedLine_eq_error htext]
    rfl

theorem printOperands_inTurn {first last : Value} :
    (printOperands ev env first refs).result s = (.ok last, t) ↔
      ∃ values, InTurn ev env (printedLine env.policy.places) refs s values t ∧
        last = values.getLast?.getD first := by
  constructor
  · intro h
    rcases inTurn_or_stops ev env (printedLine env.policy.places) refs s with
      ⟨values, t', hvalues⟩ | ⟨fault, t', hstop⟩
    · rw [printOperands_of_inTurn hvalues] at h
      cases h
      exact ⟨values, hvalues, rfl⟩
    · rw [printOperands_stops hstop] at h
      cases h
  · rintro ⟨values, hvalues, rfl⟩
    exact printOperands_of_inTurn hvalues

end

/-! ## Calls -/

/-- what a call of an operator writes after each of its operands -/
def Builtin.line (b : Builtin) (places : Nat) : Value → Except Fault String :=
  if b.isLazy then printedLine places else noLine

/-- **A call put together by hand lacks an operand**, and it is not counted yet. -/
def Lacks (b : Builtin) (count : Nat) (checked : Bool) (key : Nat × NodeId) (s : State) : Prop :=
  checked = false ∧ key ∉ s.counted ∧ count < b.arity.least

/-- **The state in which the operands of a call begin**: a call put together by hand that is not
counted yet is counted, and its surplus operands are reported. -/
def State.counting (s : State) (id : NodeId) (b : Builtin) (operands : List Ref) (checked : Bool)
    (env : Env) : State :=
  if checked then s
  else if s.counted.contains (env.context, id) then s
  else { s with
    counted := (env.context, id) :: s.counted
    reports := (Shape.call (.builtin b) none operands false).surplus?.elim s.reports fun r =>
      s.reports.push ⟨env.policy.channel, r⟩ }

section
variable {b : Builtin} {operands : List Ref} {checked : Bool} {id : NodeId} {env : Env} {s : State}

theorem countUnchecked_of_lacks (h : Lacks b operands.length checked (env.context, id) s) :
    (countUnchecked id b operands.length checked env).result s
      = (.error (.tooFewOperands b.name b.arity.least operands.length), s) := by
  obtain ⟨rfl, hmem, hlt⟩ := h
  show (countOperands id b operands.length env).result s = _
  rw [result_countOperands, if_neg hmem, checkOperands, if_pos (by omega)]

theorem countUnchecked_of_not_lacks (h : ¬ Lacks b operands.length checked (env.context, id) s) :
    (countUnchecked id b operands.length checked env).result s
      = (.ok (), s.counting id b operands checked env) := by
  unfold State.counting
  cases checked with
  | true => rfl
  | false =>
    show (countOperands id b operands.length env).result s = _
    rw [result_countOperands]
    by_cases hmem : (env.context, id) ∈ s.counted
    · rw [if_pos hmem, if_neg (by simp), if_pos (List.contains_iff_mem.2 hmem)]
    · have hleast : b.arity.least ≤ operands.length := by
        by_contra hlt
        exact h ⟨rfl, hmem, by omega⟩
      rw [if_neg hmem, if_neg (by simp), if_neg (mt List.contains_iff_mem.1 hmem),
        checkOperands_of_least hleast none]
      rcases (Shape.call (.builtin b) none operands false).surplus? with _ | r
      · rfl
      · rfl

theorem usedOperands_eq_take (b : Builtin) (operands : List Ref) :
    usedOperands b operands = operands.take (b.arity.most?.getD operands.length) := by
  unfold usedOperands
  rcases b.arity.most? with _ | most
  · exact (List.take_length).symm
  · rfl

theorem usedOperands_of_isLazy (hlazy : b.isLazy = true) (operands : List Ref) :
    usedOperands b operands = operands := by
  cases b <;> cases hlazy
  rfl

theorem none_not_mem_iff {values : List Value} :
    none ∉ values ↔ ∃ args : List Number, values = args.map some := by
  constructor
  · intro h
    induction values with
    | nil => exact ⟨[], rfl⟩
    | cons value rest ih =>
      obtain ⟨hvalue, hrest⟩ := not_or.1 (mt List.mem_cons.2 h)
      obtain ⟨args, rfl⟩ := ih hrest
      rcases value with _ | v
      · exact absurd rfl hvalue
      · exact ⟨v :: args, rfl⟩
  · rintro ⟨args, rfl⟩ hmem
    obtain ⟨v, _, hv⟩ := List.mem_map.1 hmem
    cases hv

theorem present?_map_some (args : List Number) : present? (args.map some) = some args := by
  induction args with
  | nil => rfl
  | cons v args ih =>
    simp only [List.map_cons, present?, ih]

theorem present?_of_mem {values : List Value} (h : none ∈ values) : present? values = none := by
  rcases hargs : present? values with _ | args
  · rfl
  · rw [Assurance.present?_eq_some hargs] at h
    exact absurd h (none_not_mem_iff.2 ⟨args, rfl⟩)

theorem applyBuiltin_ne_none (hlazy : b.isLazy = false) (args : List Number) :
    ((applyBuiltin b env args).result s).1 ≠ .ok none := by
  intro h
  unfold applyBuiltin at h
  split at h
  · rw [result_readNumber] at h
    split at h
    · cases h
    · cases h
  · rw [result_bind_ok (result_draw env s)] at h
    cases h
  · next hread hrand =>
    obtain ⟨rule, hrule⟩ := exists_rule? hlazy hread hrand
    rw [hrule] at h
    dsimp only at h
    rcases happly : rule.apply args with fault | v
    · rw [happly] at h
      cases h
    · rw [happly] at h
      cases h

end

section
variable {f : Forest} {ev : Evaluator} {b : Builtin} {ident : Option String} {operands : List Ref}
  {checked : Bool} {id : NodeId} {env env' : Env} {s s' s₁ t : State} {fault : Fault} {ref : Ref}
  {values : List Value}

theorem evalBuiltin_stops
    (hcount : (countUnchecked id b operands.length checked env).result s = (.ok (), s₁))
    (h : StopsInTurn ev env (b.line env.policy.places) (usedOperands b operands) s₁ fault t) :
    (evalBuiltin ev id b operands checked env).result s = (.error fault, t) := by
  rw [evalBuiltin_eq, result_bind_ok hcount]
  rw [Builtin.line] at h
  split
  · next hlazy =>
    rw [if_pos hlazy, usedOperands_of_isLazy hlazy] at h
    exact printOperands_stops h
  · next hlazy =>
    rw [if_neg hlazy] at h
    exact result_bind_error (evalOperands_stops h)

theorem evalBuiltin_prints
    (hcount : (countUnchecked id b operands.length checked env).result s = (.ok (), s₁))
    (h : InTurn ev env (b.line env.policy.places) (usedOperands b operands) s₁ values t)
    (hlazy : b.isLazy = true) :
    (evalBuiltin ev id b operands checked env).result s = (.ok (values.getLast?.getD none), t) := by
  rw [Builtin.line, if_pos hlazy, usedOperands_of_isLazy hlazy] at h
  rw [evalBuiltin_eq, result_bind_ok hcount, if_pos hlazy]
  exact printOperands_of_inTurn h

theorem evalBuiltin_computes
    (hcount : (countUnchecked id b operands.length checked env).result s = (.ok (), s₁))
    (h : InTurn ev env (b.line env.policy.places) (usedOperands b operands) s₁ values t)
    (hlazy : b.isLazy = false) :
    (evalBuiltin ev id b operands checked env).result s = match present? values with
      | some args => (applyBuiltin b env args).result t
      | none => (.ok none, t) := by
  rw [Builtin.line, if_neg (by rw [hlazy]; simp)] at h
  rw [evalBuiltin_eq, result_bind_ok hcount, if_neg (by rw [hlazy]; simp),
    result_bind_ok (evalOperands_inTurn.2 h)]
  rcases present? values with _ | args
  · rfl
  · rfl

/-- an operator that does not print is applied unless an operand is missing, and gives a number -/
theorem evalBuiltin_missing_iff
    (hcount : (countUnchecked id b operands.length checked env).result s = (.ok (), s₁))
    (h : InTurn ev env (b.line env.policy.places) (usedOperands b operands) s₁ values t)
    (hlazy : b.isLazy = false) :
    (((evalBuiltin ev id b operands checked env).result s).1 = .ok none ↔ none ∈ values) ∧
      (none ∈ values → (evalBuiltin ev id b operands checked env).result s = (.ok none, t)) ∧
      (none ∉ values → ∃ args, values = args.map some ∧
        (evalBuiltin ev id b operands checked env).result s
          = (applyBuiltin b env args).result t) := by
  have hvalue := evalBuiltin_computes hcount h hlazy
  have hmissing (hmem : none ∈ values) :
      (evalBuiltin ev id b operands checked env).result s = (.ok none, t) := by
    rw [hvalue, present?_of_mem hmem]
  have hpresent (hmem : none ∉ values) : ∃ args, values = args.map some ∧
      (evalBuiltin ev id b operands checked env).result s
        = (applyBuiltin b env args).result t := by
    obtain ⟨args, rfl⟩ := none_not_mem_iff.1 hmem
    exact ⟨args, rfl, by rw [hvalue, present?_map_some]⟩
  refine ⟨⟨fun hnone => ?_, fun hmem => by rw [hmissing hmem]⟩, hmissing, hpresent⟩
  by_contra hmem
  obtain ⟨args, _, hargs⟩ := hpresent hmem
  rw [hargs] at hnone
  exact applyBuiltin_ne_none hlazy args hnone

/-- **What a call begins are its operands in turn**, in the environment of the call. -/
theorem part_builtin_iff : Part f ev id (.call (.builtin b) ident operands checked) env s ref env' s' ↔
    ¬ Lacks b operands.length checked (env.context, id) s ∧ env' = env ∧
      ∃ before after values, usedOperands b operands = before ++ ref :: after ∧
        InTurn ev env (b.line env.policy.places) before (s.counting id b operands checked env)
          values s' := by
  have hcounting (s₁ : State)
      (h : (countUnchecked id b operands.length checked env).result s = (.ok (), s₁)) :
      ¬ Lacks b operands.length checked (env.context, id) s ∧
        s₁ = s.counting id b operands checked env := by
    by_cases hlacks : Lacks b operands.length checked (env.context, id) s
    · rw [countUnchecked_of_lacks hlacks] at h
      cases h
    · rw [countUnchecked_of_not_lacks hlacks] at h
      cases h
      exact ⟨hlacks, rfl⟩
  constructor
  · intro h
    cases h with
    | @operand _ _ _ before after _ _ _ _ _ _ values hcount hlazy hused hbefore =>
      obtain ⟨hlacks, rfl⟩ := hcounting _ hcount
      refine ⟨hlacks, rfl, before, after, values, hused, ?_⟩
      rw [Builtin.line, if_neg (by rw [hlazy]; simp)]
      exact evalOperands_inTurn.1 hbefore
    | printed hcount hlazy hused hbefore =>
      obtain ⟨hlacks, rfl⟩ := hcounting _ hcount
      obtain ⟨values, hvalues, _⟩ := printOperands_inTurn.1 hbefore
      refine ⟨hlacks, rfl, _, _, values, by rw [usedOperands_of_isLazy hlazy, hused], ?_⟩
      rw [Builtin.line, if_pos hlazy]
      exact hvalues
  · rintro ⟨hlacks, rfl, before, after, values, hused, hbefore⟩
    have hcount := countUnchecked_of_not_lacks hlacks
    rw [Builtin.line] at hbefore
    rcases hlazy : b.isLazy with _ | _
    · rw [if_neg (by rw [hlazy]; simp)] at hbefore
      exact .operand hcount hlazy hused (evalOperands_inTurn.2 hbefore)
    · rw [if_pos hlazy] at hbefore
      rw [usedOperands_of_isLazy hlazy] at hused
      exact .printed hcount hlazy hused (printOperands_of_inTurn hbefore)

end

/-- **An operand of a row has its turn**: it is begun after those before it are evaluated in turn. -/
def HasTurn (f : Forest) (limit : Nat) (env : Env) (line : Value → Except Fault String)
    (refs : List Ref) (s : State) (p : Visit) : Prop :=
  ∃ before ref after values s', refs = before ++ ref :: after ∧
    InTurn (evalNode f limit) env line before s values s' ∧ p = ⟨limit, ref, env, s'⟩

section
variable {f : Forest} {limit : Nat} {env : Env} {line : Value → Except Fault String} {ref : Ref}
  {rest : List Ref} {s s₁ : State} {p : Visit}

theorem hasTurn_stop (hstop : ∀ value s₁ text, (evalNode f limit ref env).result s = (.ok value, s₁) →
    line value ≠ .ok text) :
    HasTurn f limit env line (ref :: rest) s p ↔ p = ⟨limit, ref, env, s⟩ := by
  constructor
  · rintro ⟨before, ref', after, values, s', hrefs, hbefore, rfl⟩
    cases hbefore with
    | nil =>
      cases hrefs
      rfl
    | cons href htext _ =>
      cases hrefs
      exact absurd htext (hstop _ _ _ href)
  · rintro rfl
    exact ⟨[], ref, rest, [], s, rfl, .nil, rfl⟩

theorem hasTurn_cons {value : Value} {text : String}
    (href : (evalNode f limit ref env).result s = (.ok value, s₁)) (htext : line value = .ok text) :
    HasTurn f limit env line (ref :: rest) s p ↔ p = ⟨limit, ref, env, s⟩ ∨
      HasTurn f limit env line rest { s₁ with output := s₁.output ++ text } p := by
  constructor
  · rintro ⟨before, ref', after, values, s', hrefs, hbefore, rfl⟩
    cases hbefore with
    | nil =>
      cases hrefs
      exact Or.inl rfl
    | cons href' htext' hrest =>
      cases hrefs
      rw [href] at href'
      cases href'
      rw [htext] at htext'
      cases htext'
      exact Or.inr ⟨_, ref', after, _, s', rfl, hrest, rfl⟩
  · rintro (rfl | ⟨before, ref', after, values, s', rfl, hbefore, rfl⟩)
    · exact ⟨[], ref, rest, [], s, rfl, .nil, rfl⟩
    · exact ⟨ref :: before, ref', after, value :: values, s', rfl, .cons href htext hbefore, rfl⟩

end

section
variable {f : Forest} {limit : Nat} {id : NodeId} {node : Node} {b : Builtin}
  {ident : Option String} {operands : List Ref} {checked : Bool} {env inner : Env} {s s₀ : State}
  {w : Visit}

theorem opens_operand_iff : Opens f limit id (.call (.builtin b) ident operands checked) env s w ↔
    ¬ Lacks b operands.length checked (env.context, id) s ∧
      HasTurn f limit env (b.line env.policy.places) (usedOperands b operands)
        (s.counting id b operands checked env) w := by
  rw [Opens, part_builtin_iff]
  constructor
  · rintro ⟨rfl, hlacks, henv, before, after, values, hused, hbefore⟩
    obtain ⟨limit, ref, env', s'⟩ := w
    cases henv
    exact ⟨hlacks, before, ref, after, values, s', hused, hbefore, rfl⟩
  · rintro ⟨hlacks, before, ref, after, values, s', hused, hbefore, rfl⟩
    exact ⟨rfl, hlacks, rfl, before, after, values, hused, hbefore⟩

theorem begins_operand_iff (hnode : f.node? id = some node)
    (hshape : node.shape = .call (.builtin b) ident operands checked)
    (henter : (enter f node env).result s = (.ok inner, s₀)) :
    Begins f ⟨limit + 1, .node id, env, s⟩ w ↔
      ¬ Lacks b operands.length checked (inner.context, id) s₀ ∧
        HasTurn f limit inner (b.line inner.policy.places) (usedOperands b operands)
          (s₀.counting id b operands checked inner) w := by
  rw [begins_iff_opens hnode henter, hshape, opens_operand_iff]

theorem result_builtin (hnode : f.node? id = some node)
    (hshape : node.shape = .call (.builtin b) ident operands checked)
    (henter : (enter f node env).result s = (.ok inner, s₀)) (limit : Nat) :
    (evalNode f (limit + 1) (.node id) env).result s
      = (evalBuiltin (evalNode f limit) id b operands checked inner).result s₀ := by
  rw [evalNode_node hnode, result_bind_ok henter, hshape, evalShape]

end

theorem exists_line (b : Builtin) {places : Nat} (h : places ≤ mostPlaces) (value : Value) :
    ∃ text, b.line places value = .ok text := by
  unfold Builtin.line
  split
  · rcases hline : printedLine places value with fault | text
    · have hfault := placesFault?_of_render (printedLine_eq_error hline)
      rw [placesFault?_eq_none h] at hfault
      cases hfault
    · exact ⟨text, rfl⟩
  · exact ⟨"", rfl⟩

/-- **What a call of a built-in operator evaluates, in which order, and what its value is**, where
every value can be printed with the places that are asked for.  A call put together by hand that
lacks an operand, and is not counted yet, stops with nothing evaluated.  Every other call begins the
operands that it uses in turn, and nothing else; the first one whose evaluation stops, stops the
call there.  If none stops, the value of a call that prints is that of the last operand.  The value
of any other call is missing just where that of an operand is, and then the operator is not applied;
else it is what the operator makes of the numbers of the operands, in order. -/
theorem operands_in_turn {f : Forest} {id : NodeId} {node : Node} {b : Builtin}
    {ident : Option String} {operands : List Ref} {checked : Bool} (hnode : f.node? id = some node)
    (hshape : node.shape = .call (.builtin b) ident operands checked) (limit : Nat) {env : Env}
    (hplaces : env.policy.places ≤ mostPlaces) (s : State) :
    ∃ inner s₀, (enter f node env).result s = (.ok inner, s₀) ∧
      let ev := evalNode f limit
      let call : Visit := ⟨limit + 1, .node id, env, s⟩
      let used := operands.take (b.arity.most?.getD operands.length)
      let line := b.line inner.policy.places
      (Lacks b operands.length checked (inner.context, id) s₀ ∧ (∀ w, ¬ Begins f call w) ∧
        call.result f = (.error (.tooFewOperands b.name b.arity.least operands.length), s₀)) ∨
      ¬ Lacks b operands.length checked (inner.context, id) s₀ ∧
        let s₁ := s₀.counting id b operands checked inner
        (∀ w, Begins f call w ↔ HasTurn f limit inner line used s₁ w) ∧
        (∀ value, ∃ text, line value = .ok text) ∧
        ((∃ before ref after values s' fault t, used = before ++ ref :: after ∧
            InTurn ev inner line before s₁ values s' ∧
            (ev ref inner).result s' = (.error fault, t) ∧ call.result f = (.error fault, t)) ∨
          ∃ values t, InTurn ev inner line used s₁ values t ∧ values.length = used.length ∧
            (b = .print → call.result f = (.ok (values.getLast?.getD none), t)) ∧
            (b ≠ .print → ((call.result f).1 = .ok none ↔ none ∈ values) ∧
              (none ∈ values → call.result f = (.ok none, t)) ∧
              (none ∉ values → ∃ args, values = args.map some ∧
                call.result f = (applyBuiltin b inner args).result t))) := by
  obtain ⟨inner, s₀, henter, hpolicy⟩ : ∃ inner s₀, (enter f node env).result s = (.ok inner, s₀) ∧
      inner.policy = env.policy :=
    ⟨_, _, result_enter f node env s, Env.policy_push _ _ _⟩
  refine ⟨inner, s₀, henter, ?_⟩
  have hcall : (⟨limit + 1, .node id, env, s⟩ : Visit).result f
      = (evalBuiltin (evalNode f limit) id b operands checked inner).result s₀ :=
    result_builtin hnode hshape henter limit
  have hline : ∀ value, ∃ text, b.line inner.policy.places value = .ok text :=
    exists_line b (by rw [hpolicy]; exact hplaces)
  dsimp only
  rw [hcall, ← usedOperands_eq_take]
  by_cases hlacks : Lacks b operands.length checked (inner.context, id) s₀
  · refine Or.inl ⟨hlacks, fun w hw => ?_, ?_⟩
    · exact ((begins_operand_iff hnode hshape henter).1 hw).1 hlacks
    · rw [evalBuiltin_eq, result_bind_error (countUnchecked_of_lacks hlacks)]
  · have hcount := countUnchecked_of_not_lacks hlacks
    refine Or.inr ⟨hlacks, fun w => ?_, hline, ?_⟩
    · rw [begins_operand_iff hnode hshape henter]
      exact and_iff_right hlacks
    · rcases inTurn_or_stops (evalNode f limit) inner (b.line inner.policy.places)
        (usedOperands b operands) (s₀.counting id b operands checked inner) with
        ⟨values, t, hvalues⟩ | ⟨fault, t, hstop⟩
      · refine Or.inr ⟨values, t, hvalues, hvalues.length, fun hprint => ?_, fun hprint => ?_⟩
        · exact evalBuiltin_prints hcount hvalues (by rw [hprint]; rfl)
        · exact evalBuiltin_missing_iff hcount hvalues (by simpa [Builtin.isLazy] using hprint)
      · obtain ⟨before, ref, after, values, s', hused, hbefore, hfault⟩ := hstop.of_lines hline
        exact Or.inl ⟨before, ref, after, values, s', fault, t, hused, hbefore, hfault,
          evalBuiltin_stops hcount hstop⟩

def ghostSum : Forest :=
  ⟨#[⟨.symbol "ghost", none, none⟩, ⟨.number (.make .one .int), none, none⟩,
    ⟨.call (.builtin .print) none [.node ⟨1⟩] true, none, none⟩,
    ⟨.call (.builtin .add) none [.node ⟨0⟩, .node ⟨2⟩] true, none, none⟩], #[], #[]⟩

/-- the second operand is evaluated after the first one is missing, and the sum is missing -/
theorem operands_in_turn_ghostSum :
    let env : Env := .root 0 { strict := false }
    let call : Visit := ⟨4, .node ⟨3⟩, env, .start [] (.ofSeed 0)⟩
    env.policy.places ≤ mostPlaces ∧ ∃ values t, InTurn (evalNode ghostSum 3) env noLine [.node ⟨0⟩, .node ⟨2⟩] call.state values t ∧
      none ∈ values ∧ call.result ghostSum = (.ok none, t) ∧ t.output = "INT_TYPE: 1\n" := by
  intro env call
  have hplaces : env.policy.places ≤ mostPlaces := by decide
  have hmissing : (call.result ghostSum).1 = .ok none := rfl
  have houtput : (call.result ghostSum).2.output = "INT_TYPE: 1\n" := by decide +kernel
  obtain ⟨inner, s₀, henter, h⟩ :=
    @operands_in_turn ghostSum ⟨3⟩ _ _ _ _ _ rfl rfl 3 env hplaces call.state
  cases henter
  rcases h with ⟨⟨hchecked, _⟩, _⟩ | ⟨_, _, _, ⟨_, _, _, _, _, fault, t, _, _, _, hstop⟩ |
    ⟨values, t, hvalues, _, _, hsum⟩⟩
  · cases hchecked
  · rw [show call.result ghostSum = _ from hstop] at hmissing
    cases hmissing
  · obtain ⟨hiff, hvalue, _⟩ := hsum (by decide)
    have hmem := hiff.1 hmissing
    have hresult : call.result ghostSum = (.ok none, t) := hvalue hmem
    rw [hresult] at houtput
    exact ⟨hplaces, values, t, hvalues, hmem, hresult, houtput⟩

/-- a call put together by hand of the operator for the larger of two numbers, with one operand -/
def lackingMax : Forest :=
  ⟨#[⟨.symbol "ghost", none, none⟩,
    ⟨.call (.builtin .max) none [.node ⟨0⟩] false, none, none⟩], #[], #[]⟩

/-- **Not every call begins its operands**: one that lacks an operand stops before the one that it
has, which is missing and reported. -/
theorem lacking_begins_nothing :
    let s : State := .start [] (.ofSeed 0)
    let env : Env := .root 0 { strict := false }
    let reported : State := { s with reports := #[⟨.caller, .undefinedSymbol "ghost"⟩] }
    (evalNode lackingMax 2 (.node ⟨0⟩) env).result s = (.ok none, reported) ∧
      (evalNode lackingMax 3 (.node ⟨1⟩) env).result s = (.error (.tooFewOperands "max" 2 1), s) ∧
      ∀ w, ¬ Begins lackingMax ⟨3, .node ⟨1⟩, env, s⟩ w := by
  intro s env reported
  refine ⟨rfl, rfl, fun w hw => ?_⟩
  have hlacks : Lacks .max 1 false (env.context, ⟨1⟩) s := ⟨rfl, by decide, by decide⟩
  exact ((begins_operand_iff rfl rfl rfl).1 hw).1 hlacks

end Abacus
