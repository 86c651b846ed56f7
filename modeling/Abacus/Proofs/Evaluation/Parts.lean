import Abacus.Proofs.Evaluation.Result

/-!
# The parts of an evaluation

An evaluation begins the evaluations of its parts one after another: of the argument or the variable
that a name denotes, of the body of a function, of operands, of a test and the branch it chooses.
What begins where is read off the evaluation, with the state in which it begins.

* `Part`              what the evaluation of a node, whose frames are pushed, begins directly;
* `part_variable_iff`, `part_body_iff`   those of a name, and of a call, that denotes a binding;
* `OwnFault`          the faults that a node makes without a part of it;
* `part_of_fault`     a fault of the whole is the fault of a part, or an `OwnFault`.
-/

namespace Abacus

open Run

/-! ## Direct parts -/

/-- the state in which the value of a variable is found: marked, in a guarded run -/
def State.finding (s : State) (owner : Env) (id : BindingId) : State :=
  if owner.policy.guarded then { s with active := (id, owner.serial) :: s.active } else s

/-- **What the evaluation of a node begins directly**: the node, the environment inside it and the
state after entering it; then what is evaluated, where and from which state. -/
inductive Part (f : Forest) (ev : Evaluator) :
    NodeId → Shape → Env → State → Ref → Env → State → Prop
  /-- the argument that a parameter stands for, in the environment of the call -/
  | argument {id : NodeId} {ident : String} {env caller owner : Env} {s : State} {ref : Ref} :
      env.lookup? f ident = some (.thunk ref caller, owner) →
      Part f ev id (.symbol ident) env s ref caller s
  /-- the value of a variable, in the frame that binds it -/
  | value {id : NodeId} {ident : String} {env owner : Env} {s : State} {bid : BindingId}
      {b : Binding} :
      env.lookup? f ident = some (.binding bid b, owner) → b.role = .value →
      (owner.policy.guarded = true → (bid, owner.serial) ∉ s.active) →
      Part f ev id (.symbol ident) env s b.body owner (s.finding owner bid)
  /-- the body of a function, in a frame inside the one that holds its definition -/
  | body {id : NodeId} {name : String} {operands : List Ref} {checked : Bool} {env owner : Env}
      {s s' : State} {bid : BindingId} {b : Binding} {parameters : List String} :
      env.lookup? f name = some (.binding bid b, owner) → b.role = .function parameters →
      (checkArguments env b.ident parameters.length operands.length).result s = (.ok (), s') →
      Part f ev id (.call .custom (some name) operands checked) env s b.body
        (.frame s'.next (some b.ident) (Env.bind env parameters operands) none owner)
        { s' with next := s'.next + 1 }
  /-- an operand, after the ones before it -/
  | operand {id : NodeId} {b : Builtin} {ident : Option String} {operands before after : List Ref}
      {checked : Bool} {env : Env} {s s₁ s₂ : State} {ref : Ref} {values : List Value} :
      (countUnchecked id b operands.length checked env).result s = (.ok (), s₁) →
      b.isLazy = false → usedOperands b operands = before ++ ref :: after →
      (evalOperands ev env before).result s₁ = (.ok values, s₂) →
      Part f ev id (.call (.builtin b) ident operands checked) env s ref env s₂
  /-- an operand that is printed, after the ones before it -/
  | printed {id : NodeId} {b : Builtin} {ident : Option String} {operands before after : List Ref}
      {checked : Bool} {env : Env} {s s₁ s₂ : State} {ref : Ref} {last : Value} :
      (countUnchecked id b operands.length checked env).result s = (.ok (), s₁) →
      b.isLazy = true → operands = before ++ ref :: after →
      (printOperands ev env none before).result s₁ = (.ok last, s₂) →
      Part f ev id (.call (.builtin b) ident operands checked) env s ref env s₂
  | test {id : NodeId} {test ifTrue ifFalse : Ref} {env : Env} {s : State} :
      Part f ev id (.choice test ifTrue ifFalse) env s test env s
  /-- the branch that the test chooses -/
  | branch {id : NodeId} {test ifTrue ifFalse : Ref} {env : Env} {s s' : State} {v : Number} :
      (ev test env).result s = (.ok (some v), s') →
      Part f ev id (.choice test ifTrue ifFalse) env s
        (if v.amount.isZero then ifFalse else ifTrue) env s'

section
variable {f : Forest} {ev : Evaluator} {id : NodeId} {env env' owner : Env} {s s' : State}
  {ref : Ref} {ident : String} {bid : BindingId} {b : Binding}

theorem part_argument_iff {argument : Ref} {caller : Env}
    (hfound : env.lookup? f ident = some (.thunk argument caller, owner)) :
    Part f ev id (.symbol ident) env s ref env' s' ↔ ref = argument ∧ env' = caller ∧ s' = s := by
  constructor
  · intro h
    cases h with
    | argument hfound' =>
      cases hfound.symm.trans hfound'
      exact ⟨rfl, rfl, rfl⟩
    | value hfound' _ _ => cases hfound.symm.trans hfound'
  · rintro ⟨rfl, rfl, rfl⟩
    exact .argument hfound

theorem part_symbol_iff (hfound : env.lookup? f ident = some (.binding bid b, owner)) :
    Part f ev id (.symbol ident) env s ref env' s' ↔ b.role = .value ∧
      (owner.policy.guarded = true → (bid, owner.serial) ∉ s.active) ∧
      ref = b.body ∧ env' = owner ∧ s' = s.finding owner bid := by
  constructor
  · intro h
    cases h with
    | argument hfound' => cases hfound.symm.trans hfound'
    | value hfound' hrole hfree =>
      cases hfound.symm.trans hfound'
      exact ⟨hrole, hfree, rfl, rfl, rfl⟩
  · rintro ⟨hrole, hfree, rfl, rfl, rfl⟩
    exact .value hfound hrole hfree

theorem part_variable_iff (hfound : env.lookup? f ident = some (.binding bid b, owner))
    (hrole : b.role = .value)
    (hfree : owner.policy.guarded = true → (bid, owner.serial) ∉ s.active) :
    Part f ev id (.symbol ident) env s ref env' s' ↔
      ref = b.body ∧ env' = owner ∧ s' = s.finding owner bid := by
  rw [part_symbol_iff hfound, and_iff_right hrole, and_iff_right hfree]

/-- what a call of a function of the program begins, where its name denotes a binding -/
theorem part_function_iff {operands : List Ref} {checked : Bool}
    (hfound : env.lookup? f ident = some (.binding bid b, owner)) :
    Part f ev id (.call .custom (some ident) operands checked) env s ref env' s' ↔
      ∃ parameters s₁, b.role = .function parameters ∧
        (checkArguments env b.ident parameters.length operands.length).result s = (.ok (), s₁) ∧
        ref = b.body ∧
        env' = .frame s₁.next (some b.ident) (Env.bind env parameters operands) none owner ∧
        s' = { s₁ with next := s₁.next + 1 } := by
  constructor
  · intro h
    cases h with
    | body hfound' hrole hcheck =>
      cases hfound.symm.trans hfound'
      exact ⟨_, _, hrole, hcheck, rfl, rfl, rfl⟩
  · rintro ⟨parameters, s₁, hrole, hcheck, rfl, rfl, rfl⟩
    exact .body hfound hrole hcheck

theorem part_body_iff {operands : List Ref} {checked : Bool} {parameters : List String}
    {s₁ : State} (hfound : env.lookup? f ident = some (.binding bid b, owner))
    (hrole : b.role = .function parameters)
    (hcheck : (checkArguments env b.ident parameters.length operands.length).result s
      = (.ok (), s₁)) :
    Part f ev id (.call .custom (some ident) operands checked) env s ref env' s' ↔
      ref = b.body ∧
      env' = .frame s₁.next (some b.ident) (Env.bind env parameters operands) none owner ∧
      s' = { s₁ with next := s₁.next + 1 } := by
  rw [part_function_iff hfound]
  constructor
  · rintro ⟨_, _, hrole', hcheck', hbody⟩
    cases hrole.symm.trans hrole'
    cases hcheck.symm.trans hcheck'
    exact hbody
  · intro hbody
    exact ⟨parameters, s₁, hrole, hcheck, hbody⟩

/-- a conditional whose test has no number begins the test alone -/
theorem part_test_iff {test ifTrue ifFalse : Ref}
    (hnone : ∀ v t, (ev test env).result s ≠ (.ok (some v), t)) :
    Part f ev id (.choice test ifTrue ifFalse) env s ref env' s' ↔
      ref = test ∧ env' = env ∧ s' = s := by
  constructor
  · intro h
    cases h with
    | test => exact ⟨rfl, rfl, rfl⟩
    | branch htest => exact absurd htest (hnone _ _)
  · rintro ⟨rfl, rfl, rfl⟩
    exact .test

end

theorem mem_of_usedOperands {b : Builtin} {operands before after : List Ref} {ref : Ref}
    (h : usedOperands b operands = before ++ ref :: after) : ref ∈ operands := by
  have hmem : ref ∈ usedOperands b operands := by
    rw [h]
    simp
  unfold usedOperands at hmem
  split at hmem
  · exact List.mem_of_mem_take hmem
  · exact hmem

theorem mem_branch (zero : Bool) (test ifTrue ifFalse : Ref) :
    (if zero then ifFalse else ifTrue) ∈ (Shape.choice test ifTrue ifFalse).children := by
  cases zero <;> simp [Shape.children]

/-! ## Rows of operands -/

section
variable {f : Forest} {ev : Evaluator} {env : Env}

theorem evalOperands_append (before after : List Ref) :
    evalOperands ev env (before ++ after) = (evalOperands ev env before >>= fun vs =>
      evalOperands ev env after >>= fun ws => pure (vs ++ ws)) := by
  induction before with
  | nil => simp [evalOperands]
  | cons ref before ih => simp [evalOperands, ih]

theorem printOperands_append (last : Value) (before after : List Ref) :
    printOperands ev env last (before ++ after)
      = (printOperands ev env last before >>= fun v => printOperands ev env v after) := by
  induction before generalizing last with
  | nil => simp [printOperands]
  | cons ref before ih => simp [printOperands, ih]

theorem evalOperands_cons_ok {ref : Ref} {rest : List Ref} {s s₁ t : State} {value : Value}
    {values : List Value} (href : (ev ref env).result s = (.ok value, s₁))
    (hrest : (evalOperands ev env rest).result s₁ = (.ok values, t)) :
    (evalOperands ev env (ref :: rest)).result s = (.ok (value :: values), t) := by
  show (ev ref env >>= fun value => evalOperands ev env rest >>= fun values =>
    pure (value :: values)).result s = _
  rw [result_bind_ok href, result_bind_ok hrest, result_pure]

theorem printOperands_cons_ok {ref : Ref} {rest : List Ref} {s s₁ : State} {first value : Value}
    {text : String} (href : (ev ref env).result s = (.ok value, s₁))
    (htext : value.render env.policy.places = .ok text) :
    (printOperands ev env first (ref :: rest)).result s
      = (printOperands ev env value rest).result { s₁ with output := s₁.output ++ (text ++ "\n") } := by
  show (ev ref env >>= fun value => _).result s = _
  rw [result_bind_ok href, htext, lift_ok, pure_bind, result_bind_ok (result_write _ s₁)]

theorem operand_of_fault {refs : List Ref} {s t : State} {fault : Fault}
    (h : (evalOperands ev env refs).result s = (.error fault, t)) :
    ∃ before ref after values s', refs = before ++ ref :: after ∧
      (evalOperands ev env before).result s = (.ok values, s') ∧
      (ev ref env).result s' = (.error fault, t) := by
  induction refs generalizing s with
  | nil => cases h
  | cons ref rest ih =>
    rcases result_bind_eq_error h with href | ⟨value, s', href, hrest⟩
    · exact ⟨[], ref, rest, [], s, rfl, rfl, href⟩
    · rcases result_bind_eq_error hrest with hrest | ⟨_, _, _, hpure⟩
      · obtain ⟨before, ref', after, values, s'', hrefs, hbefore, hfault⟩ := ih hrest
        exact ⟨ref :: before, ref', after, value :: values, s'', by rw [hrefs]; rfl,
          evalOperands_cons_ok href hbefore, hfault⟩
      · cases hpure

end

/-! ## Faults -/

/-- a fault that no sub-evaluation is needed for, whatever names denote -/
def Fault.Plain (fault : Fault) : Prop :=
  fault.category ≠ .unresolved ∧ fault.category ≠ .circular ∧ fault.category ≠ .recursion

inductive OwnFault (f : Forest) : Shape → Env → State → Fault → Prop
  | undefinedSymbol {ident : String} {env : Env} {s : State} :
      env.policy.strict = true → env.lookup? f ident = none →
      OwnFault f (.symbol ident) env s (.unresolved ident)
  | undefinedFunction {ident : String} {operands : List Ref} {checked : Bool} {env : Env}
      {s : State} : env.policy.strict = true → env.lookup? f ident = none →
      OwnFault f (.call .custom (some ident) operands checked) env s (.unresolved ident)
  | circular {ident : String} {env owner : Env} {s : State} {bid : BindingId} {b : Binding} :
      env.lookup? f ident = some (.binding bid b, owner) → b.role = .value →
      owner.policy.guarded = true → (bid, owner.serial) ∈ s.active →
      OwnFault f (.symbol ident) env s (.circular b.ident)
  | plain {shape : Shape} {env : Env} {s : State} {fault : Fault} : fault.Plain →
      OwnFault f shape env s fault

theorem not_ownFault_tooDeep {f : Forest} {shape : Shape} {env : Env} {s : State} :
    ¬ OwnFault f shape env s .tooDeep := by
  intro h
  cases h with
  | plain hplain => exact hplain.2.2 rfl

section
variable {f : Forest} {ev : Evaluator} {env : Env} {s t : State} {fault : Fault}

theorem result_coerce (env : Env) (declared : Option Kind) (ident : String) (value : Value)
    (s : State) : ∃ value' t, (coerce env declared ident value).result s = (.ok value', t) := by
  unfold coerce
  split
  · split
    · exact ⟨_, _, rfl⟩
    · dsimp only
      split
      · exact ⟨_, _, rfl⟩
      · exact ⟨_, _, rfl⟩
  · exact ⟨_, _, rfl⟩

theorem fault_of_coerce {x : Run Value} {declared : Option Kind} {ident : String}
    (h : (x >>= coerce env declared ident).result s = (.error fault, t)) :
    x.result s = (.error fault, t) := by
  rcases result_bind_eq_error h with hx | ⟨value, s', _, hcoerce⟩
  · exact hx
  · obtain ⟨value', t', hok⟩ := result_coerce env declared ident value s'
    rw [hok] at hcoerce
    cases hcoerce

theorem category_of_placesFault? {places : Int} (h : placesFault? places = some fault) :
    fault.category = .value := by
  unfold placesFault? at h
  split at h
  · cases h
    rfl
  · split at h
    · cases h
      rfl
    · split at h
      · cases h
        rfl
      · cases h

theorem category_of_render {places : Int} {value : Value} (h : value.render places = .error fault) :
    fault.category = .value := by
  unfold Value.render at h
  split at h
  · cases h
  · unfold Number.render at h
    split at h
    · cases h
    · split at h
      · next hplaces =>
        cases h
        exact category_of_placesFault? hplaces
      · cases h

theorem plain_of_render {places : Int} {value : Value} (h : value.render places = .error fault) :
    fault.Plain := by
  rw [Fault.Plain, category_of_render h]
  decide

theorem plain_of_checkArguments {ident : String} {expected count : Nat}
    (h : (checkArguments env ident expected count).result s = (.error fault, t)) : fault.Plain := by
  unfold checkArguments at h
  split at h
  · cases h
    simp [Fault.Plain, Fault.category]
  · split at h
    · cases h
    · cases h

theorem plain_of_checkOperands {b : Builtin} {count : Int}
    (h : Growth.checkOperands b count = .error fault) : fault.Plain := by
  obtain ⟨_, rfl⟩ := Growth.checkOperands_eq_error h
  simp [Fault.Plain, Fault.category]

theorem plain_of_countUnchecked {id : NodeId} {b : Builtin} {count : Int} {checked : Bool}
    (h : (countUnchecked id b count checked env).result s = (.error fault, t)) : fault.Plain := by
  unfold countUnchecked at h
  split at h
  · cases h
  · unfold countOperands at h
    rw [result_bind_ok (result_get s)] at h
    dsimp only at h
    split at h
    · cases h
    · split at h
      · next hcheck =>
        cases h
        exact plain_of_checkOperands hcheck
      · cases h
      · cases h

theorem plain_of_rule {r : Rule} {args : List Number} (h : r.apply args = .error fault) :
    fault.Plain := by
  rcases Rule.apply_eq_error h with rfl | ⟨refusal, rfl⟩
  · simp [Fault.Plain, Fault.category]
  · simp [Fault.Plain, Fault.category]

theorem plain_of_applyBuiltin {b : Builtin} {args : List Number}
    (h : (applyBuiltin b env args).result s = (.error fault, t)) : fault.Plain := by
  unfold applyBuiltin at h
  split at h
  · rw [result_readNumber] at h
    split at h
    · cases h
    · cases h
      simp [Fault.Plain, Fault.category]
  · rw [result_bind_ok (result_draw env s)] at h
    cases h
  · split at h
    · next rule _ =>
      rcases hrule : rule.apply args with φ | v
      · rw [hrule] at h
        cases h
        exact plain_of_rule hrule
      · rw [hrule] at h
        cases h
    · cases h

/-- a fault of printed operands is the fault of one of them, or of a text that cannot be written -/
theorem printed_of_fault {refs : List Ref} {first : Value}
    (h : (printOperands ev env first refs).result s = (.error fault, t)) :
    fault.Plain ∨ ∃ before ref after last s', refs = before ++ ref :: after ∧
      (printOperands ev env first before).result s = (.ok last, s') ∧
      (ev ref env).result s' = (.error fault, t) := by
  induction refs generalizing first s with
  | nil => cases h
  | cons ref rest ih =>
    rcases result_bind_eq_error h with href | ⟨value, s₁, href, hprint⟩
    · exact Or.inr ⟨[], ref, rest, first, s, rfl, rfl, href⟩
    · rcases hrender : value.render env.policy.places with φ | text
      · rw [hrender] at hprint
        cases hprint
        exact Or.inl (plain_of_render hrender)
      · rw [printOperands_cons_ok href hrender] at h
        rcases ih h with hplain | ⟨before, ref', after, last, s', hrefs, hbefore, hfault⟩
        · exact Or.inl hplain
        · refine Or.inr ⟨ref :: before, ref', after, last, s', by rw [hrefs]; rfl, ?_, hfault⟩
          rw [printOperands_cons_ok href hrender]
          exact hbefore

/-! ## The origin of a fault -/

theorem origin_symbol {id : NodeId} {ident : String}
    (h : (evalSymbol f ev ident env).result s = (.error fault, t)) :
    OwnFault f (.symbol ident) env s fault ∨ ∃ ref env' s' t',
      Part f ev id (.symbol ident) env s ref env' s' ∧
        (ev ref env').result s' = (.error fault, t') := by
  unfold evalSymbol at h
  split at h
  · next hfound =>
    unfold unresolved at h
    split at h
    · next hstrict =>
      cases h
      exact Or.inl (.undefinedSymbol hstrict hfound)
    · cases h
  · next hfound => exact Or.inr ⟨_, _, _, _, .argument hfound, h⟩
  · next bid b owner hfound =>
    split at h
    · next hrole =>
      rw [evalVariable_eq] at h
      have hvalue := fault_of_coerce h
      rcases hguard : owner.policy.guarded with _ | _
      · rw [findValue_unguarded hguard] at hvalue
        refine Or.inr ⟨_, _, _, t, .value hfound hrole fun hg => ?_, ?_⟩
        · rw [hguard] at hg
          cases hg
        · rw [State.finding, if_neg (by rw [hguard]; simp)]
          exact hvalue
      · by_cases hactive : (bid, owner.serial) ∈ s.active
        · rw [findValue_active hguard _ _ hactive] at hvalue
          cases hvalue
          exact Or.inl (.circular hfound hrole hguard hactive)
        · rw [findValue_inactive hguard _ _ hactive, result_marked] at hvalue
          have hmarked := congrArg Prod.fst hvalue
          refine Or.inr ⟨b.body, owner, s.finding owner bid, _,
            .value hfound hrole fun _ => hactive, Prod.ext ?_ rfl⟩
          rw [State.finding, if_pos hguard]
          exact hmarked
    · cases h
      exact Or.inl (.plain (by simp [Fault.Plain, Fault.category]))

theorem origin_call {id : NodeId} {ident : Option String} {operands : List Ref} {checked : Bool}
    (h : (evalCall f ev ident operands env).result s = (.error fault, t)) :
    OwnFault f (.call .custom ident operands checked) env s fault ∨ ∃ ref env' s' t',
      Part f ev id (.call .custom ident operands checked) env s ref env' s' ∧
        (ev ref env').result s' = (.error fault, t') := by
  unfold evalCall at h
  split at h
  · cases h
    exact Or.inl (.plain (by simp [Fault.Plain, Fault.category]))
  · next name =>
    split at h
    · next hfound =>
      unfold unresolved at h
      split at h
      · next hstrict =>
        cases h
        exact Or.inl (.undefinedFunction hstrict hfound)
      · cases h
    · cases h
      exact Or.inl (.plain (by simp [Fault.Plain, Fault.category]))
    · next bid b owner hfound =>
      split at h
      · cases h
        exact Or.inl (.plain (by simp [Fault.Plain, Fault.category]))
      · next parameters hrole =>
        rcases result_bind_eq_error h with hcheck | ⟨⟨⟩, s', hcheck, happly⟩
        · exact Or.inl (.plain (plain_of_checkArguments hcheck))
        · rw [result_bind_ok (result_fresh s')] at happly
          exact Or.inr ⟨_, _, _, _, .body hfound hrole hcheck, fault_of_coerce happly⟩

theorem origin_builtin {id : NodeId} {b : Builtin} {ident : Option String} {operands : List Ref}
    {checked : Bool} (h : (evalBuiltin ev id b operands checked env).result s = (.error fault, t)) :
    OwnFault f (.call (.builtin b) ident operands checked) env s fault ∨ ∃ ref env' s' t',
      Part f ev id (.call (.builtin b) ident operands checked) env s ref env' s' ∧
        (ev ref env').result s' = (.error fault, t') := by
  rw [evalBuiltin_eq] at h
  rcases result_bind_eq_error h with hcount | ⟨⟨⟩, s₁, hcount, hrest⟩
  · exact Or.inl (.plain (plain_of_countUnchecked hcount))
  · split at hrest
    · next hlazy =>
      rcases printed_of_fault hrest with hplain | ⟨before, ref, after, last, s', hrefs, hbefore, hfault⟩
      · exact Or.inl (.plain hplain)
      · exact Or.inr ⟨_, _, _, _, .printed hcount hlazy hrefs hbefore, hfault⟩
    · next hlazy =>
      rcases result_bind_eq_error hrest with hops | ⟨values, s₂, hops, happly⟩
      · obtain ⟨before, ref, after, values, s', hrefs, hbefore, hfault⟩ := operand_of_fault hops
        exact Or.inr ⟨_, _, _, _,
          .operand hcount (Bool.eq_false_iff.2 hlazy) hrefs hbefore, hfault⟩
      · split at happly
        · exact Or.inl (.plain (plain_of_applyBuiltin happly))
        · cases happly

theorem origin_choice {id : NodeId} {test ifTrue ifFalse : Ref}
    (h : (evalChoice ev test ifTrue ifFalse env).result s = (.error fault, t)) :
    ∃ ref env' s' t', Part f ev id (.choice test ifTrue ifFalse) env s ref env' s' ∧
        (ev ref env').result s' = (.error fault, t') := by
  rcases result_bind_eq_error h with htest | ⟨value, s', htest, hbranch⟩
  · exact ⟨_, _, _, _, .test, htest⟩
  · split at hbranch
    · cases hbranch
    · next v =>
      refine ⟨_, _, _, t, .branch htest, ?_⟩
      split at hbranch
      · next hzero => rw [if_pos hzero, hbranch]
      · next hzero => rw [if_neg hzero, hbranch]

/-- **A fault of the whole is the fault of a part**, or one that the node makes itself. -/
theorem part_of_fault {id : NodeId} {shape : Shape}
    (h : (evalShape f ev id shape env).result s = (.error fault, t)) :
    OwnFault f shape env s fault ∨ ∃ ref env' s' t',
      Part f ev id shape env s ref env' s' ∧ (ev ref env').result s' = (.error fault, t') := by
  unfold evalShape at h
  split at h
  · cases h
  · exact origin_symbol h
  · exact origin_call h
  · exact origin_builtin h
  · exact Or.inr (origin_choice h)

end

end Abacus
