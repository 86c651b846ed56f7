import Abacus.Proofs.Evaluation.Frames

/-!
# What evaluations assure

What each step of an evaluation assures of the numbers it gives, the faults it stops with and the
states it leaves, the whole evaluation assures.

* `Ensures`              what a computation assures, from states of which something is known;
* `Env.Rooted`           environments whose roots are of a certain kind;
* `Assurance f`          what each step assures;
* `Assurance.evalNode`   the evaluation assures it;
* `Assurance.begins_of_visits`   and it holds where the evaluations inside begin;
* `Assurance.ofCounting`   what is assured as soon as counting operands assures it;
* `rooted_of_visits`     the roots of the evaluations inside are those of the whole.
-/

namespace Abacus

open Run

/-! ## Computations -/

/-- **From states with a property a computation ends in such a state**, with a result or with a fault
of which something is known. -/
def Ensures {α : Type} (I : State → Prop) (E : Fault → Prop) (x : Run α) (Q : α → Prop) : Prop :=
  ∀ s, I s → I (x.result s).2 ∧
    match (x.result s).1 with
    | .ok a => Q a
    | .error fault => E fault

section
variable {α β : Type} {I : State → Prop} {E : Fault → Prop} {Q : α → Prop} {R : β → Prop}

theorem ensures_pure {a : α} (h : Q a) : Ensures I E (pure a : Run α) Q := fun _ hs => ⟨hs, h⟩

theorem ensures_throw {fault : Fault} (h : E fault) : Ensures I E (throw fault : Run α) Q :=
  fun _ hs => ⟨hs, h⟩

theorem ensures_bind {x : Run β} {k : β → Run α} (hx : Ensures I E x R)
    (hk : ∀ b, R b → Ensures I E (k b) Q) : Ensures I E (x >>= k) Q := by
  intro s hs
  have hfirst := hx s hs
  rw [result_bind]
  rcases hr : x.result s with ⟨fault | b, t⟩
  · rw [hr] at hfirst
    exact hfirst
  · rw [hr] at hfirst
    exact hk b hfirst.2 t hfirst.1

theorem ensures_lift {x : Except Fault α} (hok : ∀ a, x = .ok a → Q a)
    (herror : ∀ fault, x = .error fault → E fault) : Ensures I E (liftM x : Run α) Q := by
  cases x with
  | ok a => exact ensures_pure (hok a rfl)
  | error fault => exact ensures_throw (herror fault rfl)

theorem Ensures.ok {x : Run α} (h : Ensures I E x Q) {s t : State} {a : α} (hs : I s)
    (hrun : x.result s = (.ok a, t)) : I t ∧ Q a := by
  have hfirst := h s hs
  rwa [hrun] at hfirst

theorem Ensures.error {x : Run α} (h : Ensures I E x Q) {s t : State} {fault : Fault} (hs : I s)
    (hrun : x.result s = (.error fault, t)) : I t ∧ E fault := by
  have hfirst := h s hs
  rwa [hrun] at hfirst

end

/-! ## Environments -/

namespace Env

/-- all roots of an environment, those of arguments too, are of a certain kind -/
def Rooted (root : Nat → Policy → Prop) (env : Env) : Prop :=
  ∀ n p, Sub (.root n p) env → root n p

variable {root : Nat → Policy → Prop} {env owner caller : Env} {f : Forest} {x : String}

theorem sub_context (env : Env) : Sub (.root env.context env.policy) env := by
  induction env using Env.induction with
  | onRoot n policy => exact .refl
  | onFrame n label parameters table parent _ ih => exact .parent ih

namespace Rooted

theorem policy (h : env.Rooted root) : root env.context env.policy := h _ _ env.sub_context

theorem sub {e : Env} (h : env.Rooted root) (hsub : e.Sub env) : e.Rooted root :=
  fun n p hn => h n p (hn.trans hsub)

theorem of_root {n : Nat} {p : Policy} (h : root n p) : (Env.root n p).Rooted root := by
  intro m q hm
  cases hm
  exact h

theorem table (h : env.Rooted root) (n : Nat) (t : TableId) :
    (Env.frame n none [] (some t) env).Rooted root := by
  intro m p hm
  cases hm with
  | parent hm => exact h m p hm
  | argument hx _ => cases hx

theorem call (h : env.Rooted root) (howner : owner.Rooted root) (n : Nat) (label : Option String)
    (names : List String) (refs : List Ref) :
    (Env.frame n label (bind env names refs) none owner).Rooted root := by
  intro m p hm
  cases hm with
  | parent hm => exact howner m p hm
  | argument hx hm =>
    rw [lookup_bind] at hx
    obtain ⟨_, _, heq⟩ := Option.map_eq_some_iff.1 hx
    cases heq
    exact h m p hm

end Rooted

end Env

/-! ## What each step assures -/

def Value.Of (number : Number → Prop) (value : Value) : Prop := ∀ v, value = some v → number v

theorem Value.of_none {number : Number → Prop} : Value.Of number none := fun _ h => by cases h

theorem Value.of_some {number : Number → Prop} {v : Number} (h : number v) :
    Value.Of number (some v) := fun _ hv => by
  cases hv
  exact h

/-- **What each step of an evaluation assures.** -/
structure Assurance (f : Forest) where
  /-- what is known of the serial numbers and the policies of roots -/
  root : Nat → Policy → Prop
  state : State → Prop
  number : Number → Prop
  fault : Fault → Prop
  /-- what is known of the operands of an operator, by their number, once they are counted -/
  counted : Builtin → Nat → Prop
  write : ∀ s text, state s → state { s with output := s.output ++ text }
  report : ∀ s c r, r.concern ≠ .precisionLoss → r.isSurplus = false → state s →
    state { s with reports := s.reports.push ⟨c, r⟩ }
  next : ∀ s, state s → state { s with next := s.next + 1 }
  active : ∀ s marks, state s → state { s with active := marks }
  leaf : ∀ {id : NodeId} {node : Node} {v : Number}, f.node? id = some node →
    node.shape = .number v → number v
  reported : ∀ φ : Fault, φ.isReported = true → fault φ
  render : ∀ {n : Nat} {p : Policy} {value : Value} {φ : Fault}, root n p →
    value.render p.places = .error φ → fault φ
  /-- the value of a binding as its declared kind has it -/
  coerce : ∀ {id : BindingId} {b : Binding} {env : Env} {value : Value}, f.binding? id = some b →
    value.Of number → Ensures state fault (coerce env b.kind b.ident value) (·.Of number)
  checked : ∀ {id : NodeId} {node : Node} {b : Builtin} {ident : Option String}
    {operands : List Ref}, f.node? id = some node →
    node.shape = .call (.builtin b) ident operands true → counted b operands.length
  count : ∀ {id : NodeId} {node : Node} {b : Builtin} {ident : Option String}
    {operands : List Ref} {env : Env}, f.node? id = some node →
    node.shape = .call (.builtin b) ident operands false → env.Rooted root →
    Ensures state fault (countOperands id b operands.length env) fun _ => counted b operands.length
  apply : ∀ {id : NodeId} {node : Node} {b : Builtin} {ident : Option String}
    {operands : List Ref} {checked : Bool} {env : Env} {args : List Number},
    f.node? id = some node → node.shape = .call (.builtin b) ident operands checked →
    counted b operands.length → args.length = (usedOperands b operands).length →
    (∀ v ∈ args, number v) → Ensures state fault (applyBuiltin b env args) (·.Of number)

namespace Assurance

variable {f : Forest} (A : Assurance f)

abbrev Value (value : Value) : Prop := value.Of A.number

abbrev Holds {α : Type} (x : Run α) (Q : α → Prop) : Prop := Ensures A.state A.fault x Q

def Evaluator (ev : Evaluator) : Prop :=
  ∀ ref env, env.Rooted A.root → A.Holds (ev ref env) A.Value

variable {A} {ev : Abacus.Evaluator} {env owner : Env}

theorem holds_report (env : Env) {r : Remark} (hr : r.concern ≠ .precisionLoss)
    (hsurplus : r.isSurplus = false) : A.Holds (Run.report env r) fun _ => True :=
  fun s hs => ⟨A.report s _ r hr hsurplus hs, trivial⟩

theorem holds_write (text : String) : A.Holds (Run.write text) fun _ => True :=
  fun s hs => ⟨A.write s text hs, trivial⟩

theorem holds_fresh : A.Holds fresh fun _ => True := fun s hs => ⟨A.next s hs, trivial⟩

theorem holds_unresolved (env : Env) (ident : String) {r : Remark}
    (hr : r.concern ≠ .precisionLoss) (hsurplus : r.isSurplus = false) :
    A.Holds (unresolved env ident r) A.Value := by
  unfold unresolved
  split
  · exact ensures_throw (A.reported _ rfl)
  · exact ensures_bind (holds_report env hr hsurplus) fun _ _ => ensures_pure Value.of_none

theorem holds_findValue (hev : A.Evaluator ev) (howner : owner.Rooted A.root) (id : BindingId)
    (b : Binding) : A.Holds (findValue ev id b owner) A.Value := by
  have hbody := hev b.body owner howner
  intro s hs
  rw [result_findValue]
  split
  · split
    · exact ⟨hs, A.reported _ rfl⟩
    · rw [result_marked]
      obtain ⟨ht, hresult⟩ := hbody _ (A.active s ((id, owner.serial) :: s.active) hs)
      exact ⟨A.active _ _ ht, hresult⟩
  · exact hbody s hs

theorem holds_variable (hev : A.Evaluator ev) (howner : owner.Rooted A.root) {id : BindingId}
    {b : Binding} (hb : f.binding? id = some b) : A.Holds (evalVariable ev id b owner) A.Value := by
  rw [evalVariable_eq]
  exact ensures_bind (holds_findValue hev howner id b) fun _ hvalue => A.coerce hb hvalue

theorem holds_symbol (hev : A.Evaluator ev) (henv : env.Rooted A.root) (ident : String) :
    A.Holds (evalSymbol f ev ident env) A.Value := by
  unfold evalSymbol
  split
  · exact holds_unresolved env ident (by simp [Remark.concern]) rfl
  · next hfound => exact hev _ _ (henv.sub (Env.sub_of_thunk hfound))
  · next hfound =>
    split
    · exact holds_variable hev (henv.sub (Env.sub_of_binding hfound)) (Env.binding_of_lookup hfound)
    · exact ensures_throw (A.reported _ rfl)

theorem holds_checkArguments (env : Env) (ident : String) (expected count : Nat) :
    A.Holds (checkArguments env ident expected count) fun _ => True := by
  unfold checkArguments
  split
  · exact ensures_throw (A.reported _ rfl)
  · split
    · exact holds_report env (by simp [Remark.concern]) rfl
    · exact ensures_pure trivial

theorem holds_function (hev : A.Evaluator ev) (henv : env.Rooted A.root)
    (howner : owner.Rooted A.root) {id : BindingId} {b : Binding} (hb : f.binding? id = some b)
    (parameters : List String) (operands : List Ref) :
    A.Holds (applyFunction ev b parameters operands owner env) A.Value := by
  refine ensures_bind (holds_checkArguments env _ _ _) fun _ _ => ?_
  refine ensures_bind holds_fresh fun n _ => ?_
  exact ensures_bind (hev _ _ (henv.call howner n _ _ _)) fun _ hvalue => A.coerce hb hvalue

theorem holds_call (hev : A.Evaluator ev) (henv : env.Rooted A.root) (ident : Option String)
    (operands : List Ref) : A.Holds (evalCall f ev ident operands env) A.Value := by
  unfold evalCall
  split
  · exact ensures_throw (A.reported _ rfl)
  · split
    · exact holds_unresolved env _ (by simp [Remark.concern]) rfl
    · exact ensures_throw (A.reported _ rfl)
    · next hfound =>
      split
      · exact ensures_throw (A.reported _ rfl)
      · exact holds_function hev henv (henv.sub (Env.sub_of_binding hfound))
          (Env.binding_of_lookup hfound) _ _

theorem holds_operands (hev : A.Evaluator ev) (henv : env.Rooted A.root) (refs : List Ref) :
    A.Holds (evalOperands ev env refs) fun values =>
      values.length = refs.length ∧ ∀ value ∈ values, A.Value value := by
  induction refs with
  | nil => exact ensures_pure ⟨rfl, by simp⟩
  | cons ref rest ih =>
    refine ensures_bind (hev ref env henv) fun value hvalue => ?_
    refine ensures_bind ih fun values hvalues => ensures_pure ⟨?_, ?_⟩
    · rw [List.length_cons, hvalues.1, List.length_cons]
    · exact List.forall_mem_cons.2 ⟨hvalue, hvalues.2⟩

theorem present?_eq_some {values : List Abacus.Value} {args : List Number}
    (h : present? values = some args) : values = args.map some := by
  induction values generalizing args with
  | nil =>
    cases h
    rfl
  | cons value rest ih =>
    unfold present? at h
    split at h
    · next v vs hvs =>
      cases h
      rw [ih hvs, List.map_cons]
    · cases h

theorem holds_printed (hev : A.Evaluator ev) (henv : env.Rooted A.root) (refs : List Ref)
    {last : Abacus.Value} (hlast : A.Value last) :
    A.Holds (printOperands ev env last refs) A.Value := by
  induction refs generalizing last with
  | nil => exact ensures_pure hlast
  | cons ref rest ih =>
    refine ensures_bind (hev ref env henv) fun value hvalue => ?_
    refine ensures_bind (R := fun _ => True) ?_ fun text _ => ?_
    · exact ensures_lift (fun _ _ => trivial) fun φ hφ => A.render henv.policy hφ
    · exact ensures_bind (holds_write _) fun _ _ => ih hvalue

section
variable {id : NodeId} {node : Node} {b : Builtin} {ident : Option String} {operands : List Ref}
  {checked : Bool}

theorem holds_countUnchecked (henv : env.Rooted A.root) (hnode : f.node? id = some node)
    (hshape : node.shape = .call (.builtin b) ident operands checked) :
    A.Holds (countUnchecked id b operands.length checked env)
      fun _ => A.counted b operands.length := by
  cases checked with
  | true => exact ensures_pure (A.checked hnode hshape)
  | false => exact A.count hnode hshape henv

theorem holds_builtin (hev : A.Evaluator ev) (henv : env.Rooted A.root)
    (hnode : f.node? id = some node)
    (hshape : node.shape = .call (.builtin b) ident operands checked) :
    A.Holds (evalBuiltin ev id b operands checked env) A.Value := by
  rw [evalBuiltin_eq]
  refine ensures_bind (holds_countUnchecked henv hnode hshape) fun _ hcounted => ?_
  split
  · exact holds_printed hev henv operands Value.of_none
  · refine ensures_bind (holds_operands hev henv _) fun values hvalues => ?_
    split
    · next args hargs =>
      have hmap := present?_eq_some hargs
      obtain ⟨hlength, hof⟩ := hvalues
      refine A.apply hnode hshape hcounted ?_ fun v hv => ?_
      · rw [← hlength, hmap, List.length_map]
      · exact hof (some v) (by rw [hmap]; exact List.mem_map_of_mem hv) v rfl
    · exact ensures_pure Value.of_none

end

theorem holds_choice (hev : A.Evaluator ev) (henv : env.Rooted A.root) (test ifTrue ifFalse : Ref) :
    A.Holds (evalChoice ev test ifTrue ifFalse env) A.Value := by
  refine ensures_bind (hev test env henv) fun value _ => ?_
  split
  · exact ensures_pure Value.of_none
  · split
    · exact hev ifFalse env henv
    · exact hev ifTrue env henv

theorem holds_shape (hev : A.Evaluator ev) (henv : env.Rooted A.root) {id : NodeId} {node : Node}
    (hnode : f.node? id = some node) : A.Holds (evalShape f ev id node.shape env) A.Value := by
  unfold evalShape
  split
  · next hshape => exact ensures_pure (Value.of_some (A.leaf hnode hshape))
  · exact holds_symbol hev henv _
  · exact holds_call hev henv _ _
  · next hshape => exact holds_builtin hev henv hnode hshape
  · exact holds_choice hev henv _ _ _

theorem holds_pushTables (tables : List TableId) (henv : env.Rooted A.root) :
    A.Holds (pushTables tables env) (·.Rooted A.root) := by
  induction tables generalizing env with
  | nil => exact ensures_pure henv
  | cons t tables ih => exact ensures_bind holds_fresh fun n _ => ih (henv.table n t)

variable (A)

/-- **What each step assures, an evaluation assures.** -/
theorem evalNode (limit : Nat) : A.Evaluator (evalNode f limit) := by
  induction limit with
  | zero => exact fun _ _ _ => ensures_throw (A.reported _ rfl)
  | succ limit ih =>
    intro ref env henv
    unfold Abacus.evalNode
    cases ref with
    | absent => exact ensures_pure Value.of_none
    | foreign typeName serial => exact ensures_throw (A.reported _ rfl)
    | node id =>
      dsimp only
      rcases hnode : f.node? id with _ | node
      · exact ensures_pure Value.of_none
      · exact ensures_bind (holds_pushTables _ henv) fun inner hinner =>
          holds_shape ih hinner hnode

variable {A}

/-- what is known of roots and states is known where a part begins -/
theorem begins_of_part {id : NodeId} {node : Node} {env' : Env} {s s' : State} {ref : Ref}
    (hev : A.Evaluator ev) (henv : env.Rooted A.root) (hs : A.state s)
    (hnode : f.node? id = some node) (hpart : Part f ev id node.shape env s ref env' s') :
    env'.Rooted A.root ∧ A.state s' := by
  generalize hshape : node.shape = shape at hpart
  cases hpart with
  | argument hfound => exact ⟨henv.sub (Env.sub_of_thunk hfound), hs⟩
  | value hfound _ _ =>
    refine ⟨henv.sub (Env.sub_of_binding hfound), ?_⟩
    unfold State.finding
    split
    · exact A.active s _ hs
    · exact hs
  | body hfound _ hcheck =>
    have hafter := (holds_checkArguments env _ _ _).ok hs hcheck
    exact ⟨henv.call (henv.sub (Env.sub_of_binding hfound)) _ _ _ _, A.next _ hafter.1⟩
  | operand hcount _ _ hbefore =>
    have hcounted := (holds_countUnchecked henv hnode hshape).ok hs hcount
    exact ⟨henv, ((holds_operands hev henv _).ok hcounted.1 hbefore).1⟩
  | printed hcount _ _ hbefore =>
    have hcounted := (holds_countUnchecked henv hnode hshape).ok hs hcount
    exact ⟨henv, ((holds_printed hev henv _ Value.of_none).ok hcounted.1 hbefore).1⟩
  | test => exact ⟨henv, hs⟩
  | branch htest => exact ⟨henv, ((hev _ _ henv).ok hs htest).1⟩

/-- **What is known of roots and states is known where the evaluations inside begin.** -/
theorem begins_of_visits {v w : Visit} (hvisits : Visits f v w) (henv : v.env.Rooted A.root)
    (hs : A.state v.state) : w.env.Rooted A.root ∧ A.state w.state := by
  induction hvisits with
  | refl => exact ⟨henv, hs⟩
  | tail _ hbegins ih =>
    cases hbegins with
    | part hnode henter hpart =>
      obtain ⟨hentered, hinner⟩ := (holds_pushTables _ ih.1).ok ih.2 henter
      exact begins_of_part (A.evalNode _) hinner hentered hnode hpart

end Assurance

/-! ## States that are told apart by the calls counted and the surplus operands reported alone -/

section
variable {I : State → Prop} {E : Fault → Prop} {number : Number → Prop}

theorem ensures_coerce (hI : ∀ s t, t.counted = s.counted → t.surplus = s.surplus → I s → I t)
    (hmake : ∀ x k, number (.make x k)) (env : Env) (declared : Option Kind) (ident : String)
    {value : Value} (hvalue : value.Of number) :
    Ensures I E (coerce env declared ident value) (·.Of number) := by
  unfold coerce
  split
  · split
    · exact ensures_pure hvalue
    · dsimp only
      split
      · refine ensures_bind (R := fun _ => True)
          (fun s hs => ⟨hI s _ rfl (s.surplus_push rfl) hs, trivial⟩) ?_
        exact fun _ _ => ensures_pure (Value.of_some (hmake _ _))
      · exact ensures_pure (Value.of_some (hmake _ _))
  · exact ensures_pure hvalue

theorem surplus_readNumber (env : Env) (s : State) :
    State.surplus { s with
      input := (awaitNumber s.input).rest
      output := s.output ++ (awaitNumber s.input).prompts
      reports := s.reports ++ refusals env (awaitNumber s.input).refused } = s.surplus := by
  have hnone : (refusals env (awaitNumber s.input).refused).filter (·.remark.isSurplus) = [] :=
    List.filter_eq_nil_iff.2 fun r hr => by simp [not_isSurplus_of_refusals hr]
  simp [State.surplus, hnone]

theorem ensures_applyBuiltin
    (hI : ∀ s t, t.counted = s.counted → t.surplus = s.surplus → I s → I t)
    (hend : E .inputEnd) (hmake : ∀ x k, number (.make x k)) {b : Builtin} {args : List Number}
    (hok : ∀ rule v, rule? b = some rule → rule.apply args = .ok v → number v)
    (herror : ∀ rule φ, rule? b = some rule → rule.apply args = .error φ → E φ) (env : Env) :
    Ensures I E (applyBuiltin b env args) (·.Of number) := by
  unfold applyBuiltin
  split
  · intro s hs
    rw [result_readNumber]
    refine ⟨hI s _ rfl (surplus_readNumber env s) hs, ?_⟩
    rcases (awaitNumber s.input).amount with _ | amount
    · exact hend
    · exact Value.of_some (hmake _ _)
  · refine ensures_bind (R := fun _ => True) (fun s hs => ?_) ?_
    · rw [result_draw]
      exact ⟨hI s _ rfl rfl hs, trivial⟩
    · exact fun _ _ => ensures_pure (Value.of_some (hmake _ _))
  · split
    · next rule hrule =>
      refine ensures_bind (ensures_lift (Q := number) (fun v hv => hok rule v hrule hv)
        fun φ hφ => herror rule φ hrule hφ) ?_
      exact fun _ hv => ensures_pure (Value.of_some hv)
    · exact ensures_pure Value.of_none

/-- **What is assured of the calls counted and the surplus operands reported** as soon as counting
the operands of a call assures it -/
def Assurance.ofCounting (f : Forest) (root : Nat → Policy → Prop)
    (hI : ∀ s t, t.counted = s.counted → t.surplus = s.surplus → I s → I t)
    (hcount : ∀ {id : NodeId} {node : Node} {b : Builtin} {ident : Option String}
      {operands : List Ref} {env : Env}, f.node? id = some node →
      node.shape = .call (.builtin b) ident operands false → env.Rooted root →
      Ensures I (fun _ => True) (countOperands id b operands.length env) fun _ => True) :
    Assurance f where
  root := root
  state := I
  number _ := True
  fault _ := True
  counted _ _ := True
  write s _ h := hI s _ rfl rfl h
  report s _ _ _ hr h := hI s _ rfl (s.surplus_push hr) h
  next s h := hI s _ rfl rfl h
  active s _ h := hI s _ rfl rfl h
  leaf _ _ := trivial
  reported _ _ := trivial
  render _ _ := trivial
  coerce _ hvalue := ensures_coerce hI (fun _ _ => trivial) _ _ _ hvalue
  checked _ _ := trivial
  count := hcount
  apply _ _ _ _ _ := ensures_applyBuiltin hI trivial (fun _ _ => trivial)
    (fun _ _ _ _ => trivial) (fun _ _ _ _ => trivial) _

end

/-- **The roots of a whole are the roots of the evaluations inside.** -/
theorem rooted_of_visits {f : Forest} {root : Nat → Policy → Prop} {v w : Visit}
    (hvisits : Visits f v w) (henv : v.env.Rooted root) : w.env.Rooted root := by
  have hcount {id : NodeId} {b : Builtin} {count : Nat} {env : Env} :
      Ensures (fun _ => True) (fun _ => True) (countOperands id b count env) fun _ => True := by
    intro s _
    refine ⟨trivial, ?_⟩
    split
    · trivial
    · trivial
  exact ((Assurance.ofCounting (I := fun _ => True) f root (fun _ _ _ _ h => h)
    fun _ _ _ => hcount).begins_of_visits hvisits henv trivial).1

end Abacus
