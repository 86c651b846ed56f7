import Abacus.Proofs.Evaluation.Likeness
import Abacus.Proofs.Evaluation.Result

/-!
# Comparing evaluations

Two evaluations of a node in environments that are alike do the same things in the same order, so
whatever relation between computations is kept by doing one thing after another, and holds of the
few steps that look at the policy, the serial numbers or the state, holds of the evaluations.

* `Comparison f`         such a relation;
* `Comparison.shape`     the values of a node whose parts are compared;
* `Comparison.step`      one node more;
* `Comparison.evalNode`  evaluations to one depth.

A comparison of a computation with itself is an invariant: a relation that forgets its second
computation.
-/

namespace Abacus

open Run

theorem Env.Like.push {P : Policy → Policy → Prop} {N : Nat → Nat → Prop} {env env' : Env}
    (h : Env.Like P N env env') {n m : Nat} (hN : ∀ i, N (n + i) (m + i)) (tables : List TableId) :
    Env.Like P N (Env.push tables n env) (Env.push tables m env') := by
  induction tables generalizing n m env env' with
  | nil => exact h
  | cons table inner ih =>
    refine ih (h.table (hN 0) table) ?_
    intro i
    rw [Nat.add_right_comm n, Nat.add_right_comm m]
    exact hN (i + 1)

/-! ## Environments with one policy -/

section
variable {env env' : Env}

theorem countOperands_congr (hpolicy : env.policy = env'.policy)
    (hcontext : env.context = env'.context) (id : NodeId) (b : Builtin) (count : Int) :
    countOperands id b count env = countOperands id b count env' := by
  unfold countOperands report
  rw [hpolicy, hcontext]

theorem applyBuiltin_congr (hpolicy : env.policy = env'.policy) (b : Builtin)
    (args : List Number) : applyBuiltin b env args = applyBuiltin b env' args := by
  unfold applyBuiltin readNumber draw report
  rw [hpolicy]

theorem unresolved_congr (hpolicy : env.policy = env'.policy) (ident : String) (r : Remark) :
    unresolved env ident r = unresolved env' ident r := by
  unfold unresolved report
  rw [hpolicy]

end

/-! ## Comparisons -/

/-- **A relation between computations that evaluation keeps.** -/
structure Comparison (f : Forest) where
  /-- how the policies of the two runs are related -/
  policy : Policy → Policy → Prop
  /-- how the serial numbers of their frames are related -/
  serial : Nat → Nat → Prop
  /-- how the computations are related -/
  rel : {α : Type} → Run α → Run α → Prop
  pure : ∀ {α : Type} (a : α), rel (Pure.pure a) (Pure.pure a)
  bind : ∀ {α β : Type} {x y : Run α} {k l : α → Run β},
    rel x y → (∀ a, rel (k a) (l a)) → rel (x >>= k) (y >>= l)
  throw : ∀ {α : Type} (fault : Fault), rel (MonadExcept.throw fault : Run α) (MonadExcept.throw fault)
  write : ∀ text, rel (Run.write text) (Run.write text)
  report : ∀ {env env' : Env} (r : Remark), r.concern ≠ .unresolvedSymbol → r.isSurplus = false →
    Env.Like policy serial env env' → rel (Run.report env r) (Run.report env' r)
  fresh : ∀ {α : Type} {k l : Nat → Run α},
    (∀ n m, serial n m → rel (k n) (l m)) → rel (Run.fresh >>= k) (Run.fresh >>= l)
  places : ∀ {p q : Policy}, policy p q → p.places = q.places
  unresolved : ∀ {env env' : Env} (ident : String) (r : Remark), Env.Like policy serial env env' →
    r = .undefinedSymbol ident ∨ r = .undefinedFunction ident →
    rel (Abacus.unresolved env ident r) (Abacus.unresolved env' ident r)
  /-- a variable whose value, found in the frame that binds it, is compared -/
  value : ∀ {ev ev' : Evaluator} {owner owner' : Env} (id : BindingId) (b : Binding),
    Env.Like policy serial owner owner' → rel (ev b.body owner) (ev' b.body owner') →
    rel (findValue ev id b owner) (findValue ev' id b owner')
  /-- a call of a built-in operator whose operands were not counted when it was made -/
  count : ∀ {env env' : Env} {id : NodeId} {node : Node} {b : Builtin} {ident : Option String}
    {operands : List Ref}, f.node? id = some node →
    node.shape = .call (.builtin b) ident operands false → Env.Like policy serial env env' →
    rel (countOperands id b operands.length env) (countOperands id b operands.length env')
  /-- a built-in operator that a node calls -/
  apply : ∀ {env env' : Env} {id : NodeId} {node : Node} {b : Builtin} {ident : Option String}
    {operands : List Ref} {checked : Bool} (args : List Number), f.node? id = some node →
    node.shape = .call (.builtin b) ident operands checked → Env.Like policy serial env env' →
    rel (applyBuiltin b env args) (applyBuiltin b env' args)

namespace Comparison

variable {f : Forest} (c : Comparison f)

abbrev Like (env env' : Env) : Prop := Env.Like c.policy c.serial env env'

def Evaluators (ev ev' : Evaluator) : Prop :=
  ∀ ref env env', c.Like env env' → c.rel (ev ref env) (ev' ref env')

variable {c} {ev ev' : Evaluator} {env env' : Env}

/-! ## The steps of an evaluation -/

theorem lift {α : Type} (x : Except Fault α) : c.rel (liftM x : Run α) (liftM x) :=
  Sequential.lift ⟨c.pure, c.throw, c.bind⟩ x

theorem coerce (h : c.Like env env') (declared : Option Kind) (ident : String) (value : Value) :
    c.rel (Abacus.coerce env declared ident value) (Abacus.coerce env' declared ident value) := by
  unfold Abacus.coerce
  split
  · split
    · exact c.pure _
    · dsimp only
      split
      · exact c.bind (c.report _ (by simp [Remark.concern]) rfl h) fun _ => c.pure _
      · exact c.pure _
  · exact c.pure _

theorem checkArguments (h : c.Like env env') (ident : String) (expected count : Nat) :
    c.rel (Abacus.checkArguments env ident expected count)
      (Abacus.checkArguments env' ident expected count) := by
  unfold Abacus.checkArguments
  split
  · exact c.throw _
  · split
    · exact c.report _ (by simp [Remark.concern]) rfl h
    · exact c.pure _

theorem applyFunction (hev : c.Evaluators ev ev') (h : c.Like env env') {owner owner' : Env}
    (ho : c.Like owner owner') (b : Binding) (parameters : List String) (operands : List Ref) :
    c.rel (Abacus.applyFunction ev b parameters operands owner env)
      (Abacus.applyFunction ev' b parameters operands owner' env') :=
  c.bind (checkArguments h _ _ _) fun _ =>
    c.fresh fun _ _ hn =>
      c.bind (hev _ _ _ (h.call ho hn _ _ _)) fun _ => coerce h _ _ _

theorem evalSymbol (hev : c.Evaluators ev ev') (h : c.Like env env') (ident : String) :
    c.rel (Abacus.evalSymbol f ev ident env) (Abacus.evalSymbol f ev' ident env') := by
  have hfound := h.lookup? f ident
  unfold Abacus.evalSymbol
  generalize env.lookup? f ident = found at hfound
  generalize env'.lookup? f ident = found' at hfound
  cases hfound with
  | none => exact c.unresolved ident _ h (Or.inl rfl)
  | thunk hcaller _ => exact hev _ _ _ hcaller
  | @binding id b owner owner' ho =>
    rcases hb : b.role with _ | parameters
    · simp only [hb]
      rw [evalVariable_eq, evalVariable_eq]
      exact c.bind (c.value id b ho (hev _ _ _ ho)) fun _ => coerce ho _ _ _
    · simp only [hb]
      exact c.throw _

theorem evalCall (hev : c.Evaluators ev ev') (h : c.Like env env') (ident : Option String)
    (operands : List Ref) :
    c.rel (Abacus.evalCall f ev ident operands env) (Abacus.evalCall f ev' ident operands env') := by
  unfold Abacus.evalCall
  cases ident with
  | none => exact c.throw _
  | some name =>
    have hfound := h.lookup? f name
    dsimp only
    generalize env.lookup? f name = found at hfound
    generalize env'.lookup? f name = found' at hfound
    cases hfound with
    | none => exact c.unresolved name _ h (Or.inr rfl)
    | thunk _ _ => exact c.throw _
    | @binding id b owner owner' ho =>
      rcases hb : b.role with _ | parameters
      · simp only [hb]
        exact c.throw _
      · simp only [hb]
        exact applyFunction hev h ho b parameters operands

theorem evalOperands (hev : c.Evaluators ev ev') (h : c.Like env env') (refs : List Ref) :
    c.rel (Abacus.evalOperands ev env refs) (Abacus.evalOperands ev' env' refs) := by
  induction refs with
  | nil => exact c.pure []
  | cons ref rest ih =>
    exact c.bind (hev ref _ _ h) fun _ => c.bind ih fun _ => c.pure _

theorem printOperands (hev : c.Evaluators ev ev') (h : c.Like env env') (last : Value)
    (refs : List Ref) :
    c.rel (Abacus.printOperands ev env last refs) (Abacus.printOperands ev' env' last refs) := by
  induction refs generalizing last with
  | nil => exact c.pure last
  | cons ref rest ih =>
    unfold Abacus.printOperands
    rw [c.places h.policy]
    exact c.bind (hev ref _ _ h) fun value => c.bind (lift _) fun _ => c.bind (c.write _) fun _ =>
      ih value

section
variable {id : NodeId} {node : Node} {b : Builtin} {ident : Option String} {operands : List Ref}
  {checked : Bool}

theorem countUnchecked (h : c.Like env env') (hnode : f.node? id = some node)
    (hshape : node.shape = .call (.builtin b) ident operands checked) :
    c.rel (Abacus.countUnchecked id b operands.length checked env)
      (Abacus.countUnchecked id b operands.length checked env') := by
  cases checked with
  | true => exact c.pure ()
  | false => exact c.count hnode hshape h

theorem evalBuiltin (hev : c.Evaluators ev ev') (h : c.Like env env')
    (hnode : f.node? id = some node)
    (hshape : node.shape = .call (.builtin b) ident operands checked) :
    c.rel (Abacus.evalBuiltin ev id b operands checked env)
      (Abacus.evalBuiltin ev' id b operands checked env') := by
  rw [evalBuiltin_eq, evalBuiltin_eq]
  refine c.bind (countUnchecked h hnode hshape) ?_
  intro _
  split
  · exact printOperands hev h none operands
  · refine c.bind (evalOperands hev h _) ?_
    intro values
    split
    · exact c.apply _ hnode hshape h
    · exact c.pure none

end

theorem evalChoice (hev : c.Evaluators ev ev') (h : c.Like env env') (test ifTrue ifFalse : Ref) :
    c.rel (Abacus.evalChoice ev test ifTrue ifFalse env)
      (Abacus.evalChoice ev' test ifTrue ifFalse env') := by
  refine c.bind (hev test _ _ h) ?_
  intro value
  split
  · exact c.pure none
  · split
    · exact hev ifFalse _ _ h
    · exact hev ifTrue _ _ h

/-! ## Nodes -/

theorem shape (hev : c.Evaluators ev ev') (h : c.Like env env') {id : NodeId} {node : Node}
    (hnode : f.node? id = some node) :
    c.rel (evalShape f ev id node.shape env) (evalShape f ev' id node.shape env') := by
  unfold evalShape
  split
  · exact c.pure _
  · exact evalSymbol hev h _
  · exact evalCall hev h _ _
  · next hshape => exact evalBuiltin hev h hnode hshape
  · exact evalChoice hev h _ _ _

theorem pushTables {α : Type} {k l : Env → Run α}
    (hk : ∀ env env', c.Like env env' → c.rel (k env) (l env')) (tables : List TableId)
    (h : c.Like env env') :
    c.rel (Abacus.pushTables tables env >>= k) (Abacus.pushTables tables env' >>= l) := by
  induction tables generalizing env env' with
  | nil => exact hk env env' h
  | cons table inner ih =>
    unfold Abacus.pushTables
    rw [bind_assoc, bind_assoc]
    exact c.fresh fun n m hn => ih (h.table hn table)

theorem step {limit limit' : Nat} (hev : c.Evaluators (evalNode f limit) (evalNode f limit')) :
    c.Evaluators (evalNode f (limit + 1)) (evalNode f (limit' + 1)) := by
  intro ref env env' h
  unfold evalNode
  cases ref with
  | absent => exact c.pure none
  | foreign typeName serial => exact c.throw _
  | node id =>
    dsimp only
    rcases hnode : f.node? id with _ | node
    · exact c.pure none
    · exact pushTables (fun _ _ hinner => shape hev hinner hnode) _ h

/-- **Evaluations to one depth are compared.** -/
theorem evalNode (limit : Nat) : c.Evaluators (evalNode f limit) (evalNode f limit) := by
  induction limit with
  | zero => exact fun _ _ _ _ => c.throw .tooDeep
  | succ limit ih => exact step ih

end Comparison

end Abacus
