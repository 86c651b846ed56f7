import Abacus.Proofs.Evaluation.Parts
import Abacus.Proofs.Evaluation.Upkeep
import Mathlib.Logic.Relation

/-!
# Evaluations inside a run

A run is a tree of evaluations: each begins the evaluations of its parts, and goes on with their
results.

* `Resumes`            a computation goes on with the result of a part of it, or stops with its fault;
* `Visit`, `Begins`, `Visits`   evaluations with their beginnings, and the ones inside an evaluation;
* `Opens`              what the evaluation of a node begins, once its frames are pushed;
* `Visit.LooksUp`      the lookup that the evaluation of a symbol or of a call makes;
* `fault_of_visits`    a fault of an evaluation inside is the fault of the whole;
* `extends_of_visits`  what an evaluation inside leaves is left by the whole, and more;
* `origin_of_fault`    a fault of the whole is made by an evaluation inside.
-/

namespace Abacus

open Run

/-! ## Going on with the result of a part -/

def State.remarked (marks : List Mark → List Mark) (s : State) : State :=
  { s with active := marks s.active }

/-- states that differ in their marks at most -/
def State.SameBut (s t : State) : Prop := { s with active := [] } = { t with active := [] }

/-- **A computation goes on with the result of a part of it**, after marks are changed, and stops
where the part stops. -/
def Resumes (part whole : Except Fault Value × State) : Prop :=
  ∃ (marks : List Mark → List Mark) (k : Value → Run Value), (∀ v, Keeps State.Advances (k v)) ∧
    whole = match part with
      | (.ok v, t) => (k v).result (t.remarked marks)
      | (.error fault, t) => (.error fault, t.remarked marks)

/-- the value of a variable that is not being found is that of its body, but for marks -/
theorem findValue_free {ev : Evaluator} {owner : Env} {bid : BindingId} (b : Binding) {s : State}
    (hfree : owner.policy.guarded = true → (bid, owner.serial) ∉ s.active) :
    ∃ marks, (findValue ev bid b owner).result s =
      (((ev b.body owner).result (s.finding owner bid)).1,
        ((ev b.body owner).result (s.finding owner bid)).2.remarked marks) := by
  rcases hguard : owner.policy.guarded with _ | _
  · rw [State.finding, if_neg (by rw [hguard]; simp), findValue_unguarded hguard]
    exact ⟨id, rfl⟩
  · rw [State.finding, if_pos hguard, findValue_inactive hguard _ _ (hfree hguard), result_marked]
    exact ⟨(·.erase (bid, owner.serial)), rfl⟩

namespace Resumes

variable {part whole : Except Fault Value × State}

theorem refl (whole : Except Fault Value × State) : Resumes whole whole := by
  refine ⟨id, pure, fun v => keeps_pure steady_advances v, ?_⟩
  rcases whole with ⟨_ | v, t⟩
  · rfl
  · rfl

theorem bind (x : Run Value) {k : Value → Run Value} (hk : ∀ v, Keeps State.Advances (k v))
    (s : State) : Resumes (x.result s) ((x >>= k).result s) := by
  refine ⟨id, k, hk, ?_⟩
  rw [result_bind]
  rcases x.result s with ⟨_ | v, t⟩
  · rfl
  · rfl

theorem marked (m : Mark) (x : Run Value) {k : Value → Run Value}
    (hk : ∀ v, Keeps State.Advances (k v)) (s : State) :
    Resumes (x.result { s with active := m :: s.active })
      ((Run.marked m x >>= k).result s) := by
  refine ⟨(·.erase m), k, hk, ?_⟩
  rw [result_bind, result_marked]
  rcases x.result { s with active := m :: s.active } with ⟨_ | v, t⟩
  · rfl
  · rfl

theorem findValue {ev : Evaluator} {owner : Env} {bid : BindingId} (b : Binding) {s : State}
    (hfree : owner.policy.guarded = true → (bid, owner.serial) ∉ s.active) {k : Value → Run Value}
    (hk : ∀ v, Keeps State.Advances (k v)) :
    Resumes ((ev b.body owner).result (s.finding owner bid))
      ((Abacus.findValue ev bid b owner >>= k).result s) := by
  rcases hguard : owner.policy.guarded with _ | _
  · rw [State.finding, if_neg (by rw [hguard]; simp), findValue_unguarded hguard]
    exact bind _ hk s
  · rw [State.finding, if_pos hguard, result_bind, findValue_inactive hguard _ _ (hfree hguard),
      ← result_bind]
    exact marked _ _ hk s

theorem fault (h : Resumes part whole) {fault : Fault} {t : State}
    (hpart : part = (.error fault, t)) : ∃ t', whole = (.error fault, t') ∧ t.SameBut t' := by
  obtain ⟨marks, k, _, hwhole⟩ := h
  rw [hpart] at hwhole
  exact ⟨t.remarked marks, hwhole, rfl⟩

theorem leaves (h : Resumes part whole) : part.2.Extends whole.2 := by
  obtain ⟨marks, k, hk, hwhole⟩ := h
  rw [hwhole]
  rcases part with ⟨_ | v, t⟩
  · exact { State.Extends.refl t with }
  · exact { (hk v (t.remarked marks)).toExtends with }

end Resumes

theorem extends_finding (s : State) (owner : Env) (id : BindingId) :
    s.Extends (s.finding owner id) := by
  unfold State.finding
  split
  · exact { State.Extends.refl s with }
  · exact .refl s

section
variable {f : Forest} {ev : Evaluator} {id : NodeId} {node : Node} {env env' : Env}
  {s s' : State} {ref : Ref}

abbrev advances (f : Forest) : Comparison f := steady_advances.comparison f

theorem advances_like (env : Env) : (advances f).Like env env :=
  Env.Like.refl (fun _ => ⟨rfl, trivial⟩) (fun _ => rfl) env

/-- **An evaluation goes on with the result of a part of it.** -/
theorem resumes_of_part (hev : ∀ ref env, Keeps State.Advances (ev ref env))
    (hnode : f.node? id = some node) (hpart : Part f ev id node.shape env s ref env' s') :
    Resumes ((ev ref env').result s') ((evalShape f ev id node.shape env).result s) := by
  have hall : (advances f).Evaluators ev ev := fun ref env _ _ => hev ref env
  have hcoerce (env : Env) (kind : Option Kind) (ident : String) (v : Value) :
      Keeps State.Advances (coerce env kind ident v) :=
    (advances f).coerce (advances_like env) kind ident v
  generalize hshape : node.shape = shape at hpart
  cases hpart with
  | argument hfound =>
    simp only [evalShape, evalSymbol, hfound]
    exact Resumes.refl _
  | @value _ _ _ _ bid b hfound hrole hfree =>
    simp only [evalShape, evalSymbol, hfound, hrole, evalVariable_eq]
    exact Resumes.findValue b hfree (hcoerce env' b.kind b.ident)
  | body hfound hrole hcheck =>
    simp only [evalShape, evalCall, hfound, hrole, applyFunction]
    rw [result_bind_ok hcheck, result_bind_ok (result_fresh _)]
    exact Resumes.bind _ (hcoerce env _ _) _
  | @operand _ _ _ before after _ _ _ _ _ _ values hcount hlazy hused hbefore =>
    rw [evalShape, evalBuiltin_eq, result_bind_ok hcount, if_neg (by rw [hlazy]; simp), hused,
      evalOperands_append, bind_assoc, result_bind_ok hbefore, evalOperands]
    simp only [bind_assoc]
    refine Resumes.bind _ (fun v => ?_) _
    refine keeps_bind steady_advances
      ((advances f).evalOperands hall (advances_like env) after) fun vs => ?_
    simp only [pure_bind]
    split
    · exact (advances f).apply _ hnode hshape (advances_like env)
    · exact (advances f).pure none
  | @printed _ _ _ before after _ _ _ _ _ _ last hcount hlazy hused hbefore =>
    rw [evalShape, evalBuiltin_eq, result_bind_ok hcount, if_pos hlazy, hused,
      printOperands_append, result_bind_ok hbefore, printOperands]
    refine Resumes.bind _ (fun v => ?_) _
    exact keeps_bind steady_advances ((advances f).lift _) fun text =>
      keeps_bind steady_advances ((advances f).write _) fun _ =>
        (advances f).printOperands hall (advances_like env) v after
  | @test _ ifTrue ifFalse _ _ =>
    refine Resumes.bind _ (fun v => ?_) s
    split
    · exact (advances f).pure none
    · split
      · exact hev ifFalse env
      · exact hev ifTrue env
  | branch htest =>
    rw [evalShape, evalChoice, result_bind_ok htest]
    dsimp only
    split
    · exact Resumes.refl _
    · exact Resumes.refl _

/-- where a part begins: what went before it has advanced, or the value of a variable is marked -/
theorem advances_of_part (hev : ∀ ref env, Keeps State.Advances (ev ref env))
    (hnode : f.node? id = some node) (hpart : Part f ev id node.shape env s ref env' s') :
    State.Advances s s' ∨ ∃ ident bid b, node.shape = .symbol ident ∧
      env.lookup? f ident = some (.binding bid b, env') ∧ b.role = .value ∧ ref = b.body ∧
      (env'.policy.guarded = true → (bid, env'.serial) ∉ s.active) ∧ s' = s.finding env' bid := by
  have hall : (advances f).Evaluators ev ev := fun ref env _ _ => hev ref env
  have hkeeps {α : Type} {x : Run α} (hx : Keeps State.Advances x) {a : Except Fault α}
      {s t : State} (h : x.result s = (a, t)) : State.Advances s t := by
    have := hx s
    rwa [h] at this
  generalize hshape : node.shape = shape at hpart
  cases hpart with
  | argument hfound => exact Or.inl (steady_advances.refl s)
  | value hfound hrole hfree => exact Or.inr ⟨_, _, _, rfl, hfound, hrole, rfl, hfree, rfl⟩
  | body hfound hrole hcheck =>
    have hargs := hkeeps ((advances f).checkArguments (advances_like env) _ _ _) hcheck
    exact Or.inl (steady_advances.trans hargs (steady_advances.next _))
  | operand hchecked hlazy hused hbefore =>
    exact Or.inl (steady_advances.trans
      (hkeeps ((advances f).countUnchecked (advances_like env) hnode hshape) hchecked)
      (hkeeps ((advances f).evalOperands hall (advances_like env) _) hbefore))
  | printed hchecked hlazy hused hbefore =>
    exact Or.inl (steady_advances.trans
      (hkeeps ((advances f).countUnchecked (advances_like env) hnode hshape) hchecked)
      (hkeeps ((advances f).printOperands hall (advances_like env) _ _) hbefore))
  | test => exact Or.inl (steady_advances.refl s)
  | branch htest => exact Or.inl (hkeeps (hev _ _) htest)

end

/-! ## Evaluations inside a run -/

/-- an evaluation that is begun: how deep it may go, of what, where and from which state -/
structure Visit where
  limit : Nat
  ref : Ref
  env : Env
  state : State

/-- the evaluation of a program from the beginning, in a root of its own -/
def Visit.start (limit : Nat) (ref : Ref) (policy : Policy) (input : List Char)
    (generator : Generator) : Visit :=
  ⟨limit, ref, .root 0 policy, .start input generator⟩

def Visit.result (f : Forest) (v : Visit) : Except Fault Value × State :=
  (evalNode f v.limit v.ref v.env).result v.state

inductive Begins (f : Forest) : Visit → Visit → Prop
  | part {limit : Nat} {id : NodeId} {node : Node} {env inner env' : Env} {s s₁ s' : State}
      {ref : Ref} : f.node? id = some node → (enter f node env).result s = (.ok inner, s₁) →
      Part f (evalNode f limit) id node.shape inner s₁ ref env' s' →
      Begins f ⟨limit + 1, .node id, env, s⟩ ⟨limit, ref, env', s'⟩

/-- **The evaluations inside an evaluation**, itself among them. -/
abbrev Visits (f : Forest) : Visit → Visit → Prop := Relation.ReflTransGen (Begins f)

/-- the name that a node looks up: of a symbol, or of a function that it calls -/
def Shape.lookedUp? : Shape → Option String
  | .symbol ident => some ident
  | .call .custom ident _ _ => ident
  | _ => none

/-- **The lookup that an evaluation makes** at a node: of a name, in the environment inside the node
and in the state after entering it. -/
structure Visit.LooksUp (f : Forest) (v : Visit) (id : NodeId) (ident : String) (inner : Env)
    (s : State) : Prop where
  ref : v.ref = .node id
  limit : v.limit ≠ 0
  node : ∃ node, f.node? id = some node ∧ node.shape.lookedUp? = some ident ∧
    (enter f node v.env).result v.state = (.ok inner, s)

theorem evalNode_node {f : Forest} {id : NodeId} {node : Node} (hnode : f.node? id = some node)
    (limit : Nat) (env : Env) :
    evalNode f (limit + 1) (.node id) env
      = (enter f node env >>= fun inner => evalShape f (evalNode f limit) id node.shape inner) := by
  simp only [evalNode, hnode]

/-- what the evaluation of a node, whose frames are pushed, begins directly -/
def Opens (f : Forest) (limit : Nat) (id : NodeId) (shape : Shape) (env : Env) (s : State)
    (p : Visit) : Prop :=
  p.limit = limit ∧ Part f (evalNode f limit) id shape env s p.ref p.env p.state

section
variable {f : Forest} {v w : Visit} {fault : Fault} {t : State}

theorem limit_of_begins (h : Begins f v w) : v.limit = w.limit + 1 := by
  cases h with
  | part _ _ _ => rfl

theorem begins_iff_opens {limit : Nat} {id : NodeId} {node : Node} {env inner : Env} {s s₁ : State}
    (hnode : f.node? id = some node) (henter : (enter f node env).result s = (.ok inner, s₁)) :
    Begins f ⟨limit + 1, .node id, env, s⟩ w ↔ Opens f limit id node.shape inner s₁ w := by
  constructor
  · intro h
    cases h with
    | part hnode' henter' hpart =>
      rw [hnode] at hnode'
      cases hnode'
      rw [henter] at henter'
      cases henter'
      exact ⟨rfl, hpart⟩
  · intro h
    obtain ⟨rfl, hpart⟩ := h
    exact .part hnode henter hpart

theorem opens_iff_eq {limit : Nat} {id : NodeId} {shape : Shape} {env env' : Env} {s s' : State}
    {ref : Ref} (hpart : ∀ ref₁ env₁ s₁, Part f (evalNode f limit) id shape env s ref₁ env₁ s₁ ↔
      ref₁ = ref ∧ env₁ = env' ∧ s₁ = s') :
    Opens f limit id shape env s w ↔ w = ⟨limit, ref, env', s'⟩ := by
  obtain ⟨limit₁, ref₁, env₁, s₁⟩ := w
  rw [Opens, hpart, Visit.mk.injEq]

theorem resumes_of_begins (h : Begins f v w) : Resumes (w.result f) (v.result f) := by
  cases h with
  | part hnode henter hpart =>
    rw [Visit.result, Visit.result, evalNode_node hnode, result_bind_ok henter]
    exact resumes_of_part (fun ref env => advances_evalNode f _ ref env) hnode hpart

/-- **A fault of an evaluation inside is the fault of the whole**, and stops it in the same state but
for marks that are taken back. -/
theorem fault_of_visits (h : Visits f v w) (hw : w.result f = (.error fault, t)) :
    ∃ t', v.result f = (.error fault, t') ∧ t.SameBut t' := by
  induction h using Relation.ReflTransGen.head_induction_on with
  | refl => exact ⟨t, hw, rfl⟩
  | head hbegins _ ih =>
    obtain ⟨t₁, h₁, hsame₁⟩ := ih
    obtain ⟨t₂, h₂, hsame₂⟩ := (resumes_of_begins hbegins).fault h₁
    exact ⟨t₂, h₂, hsame₁.trans hsame₂⟩

/-- **What an evaluation inside leaves, the whole leaves**, or more. -/
theorem extends_of_visits (h : Visits f v w) : (w.result f).2.Extends (v.result f).2 := by
  induction h using Relation.ReflTransGen.head_induction_on with
  | refl => exact .refl _
  | head hbegins _ ih => exact ih.trans (resumes_of_begins hbegins).leaves

/-! ## Where faults are made -/

/-- an evaluation makes a fault itself: it may go no deeper, is of no node, or its node makes it -/
inductive Visit.Fails (f : Forest) : Visit → Fault → Prop
  | depth {ref : Ref} {env : Env} {s : State} : Fails f ⟨0, ref, env, s⟩ .tooDeep
  | foreign {limit : Nat} {typeName : String} {serial : Nat} {env : Env} {s : State} :
      Fails f ⟨limit + 1, .foreign typeName serial, env, s⟩ (.notNode typeName)
  | node {limit : Nat} {id : NodeId} {node : Node} {env inner : Env} {s s₁ : State}
      {fault : Fault} : f.node? id = some node → (enter f node env).result s = (.ok inner, s₁) →
      OwnFault f node.shape inner s₁ fault → Fails f ⟨limit + 1, .node id, env, s⟩ fault

theorem Visit.Fails.limit (h : v.Fails f .tooDeep) : v.limit = 0 := by
  cases h with
  | depth => rfl
  | node _ _ hown => exact absurd hown not_ownFault_tooDeep

/-- **A fault of the whole is made by an evaluation inside.** -/
theorem origin_of_fault (h : v.result f = (.error fault, t)) :
    ∃ w, Visits f v w ∧ w.Fails f fault := by
  obtain ⟨limit, ref, env, s⟩ := v
  induction limit generalizing ref env s t with
  | zero =>
    cases h
    exact ⟨_, .refl, .depth⟩
  | succ limit ih =>
    cases ref with
    | absent => cases h
    | foreign typeName serial =>
      cases h
      exact ⟨_, .refl, .foreign⟩
    | node id =>
      rcases hnode : f.node? id with _ | node
      · simp only [Visit.result, evalNode, hnode] at h
        cases h
      · have henter := result_enter f node env s
        rw [Visit.result, evalNode_node hnode, result_bind_ok henter] at h
        rcases part_of_fault h with hown | ⟨ref', env', s', t', hpart, hfault⟩
        · exact ⟨_, .refl, .node hnode henter hown⟩
        · obtain ⟨w, hw, hfails⟩ := ih _ _ _ hfault
          exact ⟨w, .head (.part hnode henter hpart) hw, hfails⟩

end

end Abacus
