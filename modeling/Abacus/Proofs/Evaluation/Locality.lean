import Abacus.Proofs.Evaluation.Visits

/-!
# What a run depends on

An evaluation asks for the results of its parts and for what names denote, and for nothing else.  So
forests that have the same nodes wherever a run comes, and in which names denote the same wherever
it looks them up, have that run in common.

* `evalShape_of_parts`    evaluators that agree on the parts of a node;
* `evalShape_of_lookup`   forests that agree on the name of a node;
* `result_of_visits`      forests that agree on all evaluations and lookups of a run.
-/

namespace Abacus

open Run

/-! ## The parts of a node -/

section
variable {f g : Forest} {ev ev' : Evaluator} {id : NodeId} {env : Env} {s : State}

theorem result_bind_congr {α β : Type} {x y : Run α} (h : x.result s = y.result s)
    (k : α → Run β) : (x >>= k).result s = (y >>= k).result s := by
  rw [result_bind, result_bind, h]

theorem result_bind_congr_ok {α β : Type} {x y : Run α} {k l : α → Run β}
    (h : x.result s = y.result s)
    (hk : ∀ a t, x.result s = (.ok a, t) → (k a).result t = (l a).result t) :
    (x >>= k).result s = (y >>= l).result s := by
  rw [result_bind, result_bind, ← h]
  rcases hx : x.result s with ⟨φ | a, t⟩
  · rfl
  · exact hk a t hx

theorem evalOperands_of_parts {refs : List Ref} (h : ∀ before ref after values s',
    refs = before ++ ref :: after → (evalOperands ev env before).result s = (.ok values, s') →
    (ev ref env).result s' = (ev' ref env).result s') :
    (evalOperands ev env refs).result s = (evalOperands ev' env refs).result s := by
  induction refs generalizing s with
  | nil => rfl
  | cons ref rest ih =>
    refine result_bind_congr_ok (h [] ref rest [] s rfl rfl) ?_
    intro value s₁ hvalue
    refine result_bind_congr (ih fun before ref' after values s' hrefs hbefore => ?_) _
    exact h (ref :: before) ref' after (value :: values) s' (by rw [hrefs]; rfl)
      (evalOperands_cons_ok hvalue hbefore)

theorem printOperands_of_parts {refs : List Ref} {first : Value} (h : ∀ before ref after last s',
    refs = before ++ ref :: after → (printOperands ev env first before).result s = (.ok last, s') →
    (ev ref env).result s' = (ev' ref env).result s') :
    (printOperands ev env first refs).result s = (printOperands ev' env first refs).result s := by
  induction refs generalizing first s with
  | nil => rfl
  | cons ref rest ih =>
    refine result_bind_congr_ok (h [] ref rest first s rfl rfl) ?_
    intro value s₁ hvalue
    refine result_bind_congr_ok rfl ?_
    intro text s₂ htext
    refine result_bind_congr_ok rfl ?_
    intro _ s₃ hwrite
    refine ih ?_
    intro before ref' after last s' hrefs hbefore
    refine h (ref :: before) ref' after last s' (by rw [hrefs]; rfl) ?_
    show (ev ref env >>= fun value => _).result s = _
    rw [result_bind_ok hvalue, result_bind_ok htext, result_bind_ok hwrite]
    exact hbefore

theorem evalSymbol_of_parts {ident : String} (h : ∀ ref env' s',
    Part f ev id (.symbol ident) env s ref env' s' →
    (ev ref env').result s' = (ev' ref env').result s') :
    (evalSymbol f ev ident env).result s = (evalSymbol f ev' ident env).result s := by
  unfold evalSymbol
  split
  · rfl
  · next hfound => exact h _ _ _ (.argument hfound)
  · next bid b owner hfound =>
    split
    · next hrole =>
      rw [evalVariable_eq, evalVariable_eq]
      refine result_bind_congr ?_ _
      rcases hguard : owner.policy.guarded with _ | _
      · have hpart := h _ _ _ (.value hfound hrole fun hg => by rw [hguard] at hg; cases hg)
        rw [State.finding, if_neg (by rw [hguard]; simp)] at hpart
        rw [findValue_unguarded hguard, findValue_unguarded hguard]
        exact hpart
      · by_cases hactive : (bid, owner.serial) ∈ s.active
        · rw [findValue_active hguard _ _ hactive, findValue_active hguard _ _ hactive]
        · have hpart := h _ _ _ (.value hfound hrole fun _ => hactive)
          rw [State.finding, if_pos hguard] at hpart
          rw [findValue_inactive hguard _ _ hactive, findValue_inactive hguard _ _ hactive,
            result_marked, result_marked, hpart]
    · rfl

theorem evalCall_of_parts {ident : Option String} {operands : List Ref} {checked : Bool}
    (h : ∀ ref env' s', Part f ev id (.call .custom ident operands checked) env s ref env' s' →
      (ev ref env').result s' = (ev' ref env').result s') :
    (evalCall f ev ident operands env).result s = (evalCall f ev' ident operands env).result s := by
  unfold evalCall
  split
  · rfl
  · split
    · rfl
    · rfl
    · next hfound =>
      split
      · rfl
      · next hrole =>
        refine result_bind_congr_ok rfl ?_
        intro _ s' hcheck
        rw [result_bind_ok (result_fresh s'), result_bind_ok (result_fresh s')]
        exact result_bind_congr (h _ _ _ (.body hfound hrole hcheck)) _

theorem evalBuiltin_of_parts {b : Builtin} {ident : Option String} {operands : List Ref}
    {checked : Bool} (h : ∀ ref env' s',
      Part f ev id (.call (.builtin b) ident operands checked) env s ref env' s' →
      (ev ref env').result s' = (ev' ref env').result s') :
    (evalBuiltin ev id b operands checked env).result s
      = (evalBuiltin ev' id b operands checked env).result s := by
  rw [evalBuiltin_eq, evalBuiltin_eq]
  refine result_bind_congr_ok rfl ?_
  intro _ s₁ hcount
  split
  · next hlazy =>
    exact printOperands_of_parts fun before ref after last s' hrefs hbefore =>
      h _ _ _ (.printed hcount hlazy hrefs hbefore)
  · next hlazy =>
    exact result_bind_congr (evalOperands_of_parts fun before ref after values s' hrefs hbefore =>
      h _ _ _ (.operand hcount (Bool.eq_false_iff.2 hlazy) hrefs hbefore)) _

theorem evalChoice_of_parts {test ifTrue ifFalse : Ref} (h : ∀ ref env' s',
    Part f ev id (.choice test ifTrue ifFalse) env s ref env' s' →
    (ev ref env').result s' = (ev' ref env').result s') :
    (evalChoice ev test ifTrue ifFalse env).result s
      = (evalChoice ev' test ifTrue ifFalse env).result s := by
  refine result_bind_congr_ok (h _ _ _ .test) ?_
  intro value s' htest
  split
  · rfl
  · have hbranch := h _ _ _ (.branch htest)
    split
    · next hzero => rwa [if_pos hzero] at hbranch
    · next hzero => rwa [if_neg hzero] at hbranch

/-- **An evaluation asks for no results but those of its parts.** -/
theorem evalShape_of_parts {shape : Shape} (h : ∀ ref env' s', Part f ev id shape env s ref env' s' →
    (ev ref env').result s' = (ev' ref env').result s') :
    (evalShape f ev id shape env).result s = (evalShape f ev' id shape env).result s := by
  unfold evalShape
  split
  · rfl
  · exact evalSymbol_of_parts h
  · exact evalCall_of_parts h
  · exact evalBuiltin_of_parts h
  · exact evalChoice_of_parts h

theorem lookup?_congr {f g : Forest} {ident : String} (h : ∀ t, g.find? t ident = f.find? t ident)
    (env : Env) : env.lookup? g ident = env.lookup? f ident := by
  induction env using Env.induction with
  | onRoot n policy => rfl
  | onFrame n label parameters table parent _ ih =>
    simp only [Env.lookup?, Env.here?, h, ih]

/-- **An evaluation asks for no name but the one that its node looks up.** -/
theorem evalShape_of_lookup {shape : Shape} (h : ∀ ident, shape.lookedUp? = some ident →
    env.lookup? g ident = env.lookup? f ident) :
    evalShape g ev id shape env = evalShape f ev id shape env := by
  unfold evalShape
  split
  · rfl
  · simp only [evalSymbol, h _ rfl]
  · unfold evalCall
    split
    · rfl
    · rw [h _ rfl]
  · rfl
  · rfl

end

/-! ## The whole run -/

/-- **A run depends on the nodes that it comes to and the names that it looks up**, and on nothing
else in the forest. -/
theorem result_of_visits {f g : Forest} {v : Visit}
    (hnode : ∀ w id, Visits f v w → w.ref = .node id → g.node? id = f.node? id)
    (htables : ∀ w id node, Visits f v w → w.ref = .node id → f.node? id = some node →
      g.tablesOf node = f.tablesOf node)
    (hlookup : ∀ w id ident inner s, Visits f v w → w.LooksUp f id ident inner s →
      inner.lookup? g ident = inner.lookup? f ident) : v.result g = v.result f := by
  obtain ⟨limit, ref, env, s⟩ := v
  induction limit generalizing ref env s with
  | zero => rfl
  | succ limit ih =>
    cases ref with
    | absent => rfl
    | foreign typeName serial => rfl
    | node id =>
      rcases hid : f.node? id with _ | node
      · have hid' := (hnode _ id .refl rfl).trans hid
        simp only [Visit.result, evalNode, hid, hid']
      · have hid' := (hnode _ id .refl rfl).trans hid
        have henter := result_enter f node env s
        have henter' := result_enter g node env s
        rw [htables _ id node .refl rfl hid] at henter'
        rw [Visit.result, Visit.result, evalNode_node hid, evalNode_node hid', result_bind_ok henter,
          result_bind_ok henter', evalShape_of_lookup fun ident hlooked =>
            hlookup _ id ident _ _ .refl ⟨rfl, Nat.succ_ne_zero limit, node, hid, hlooked, henter⟩]
        refine (evalShape_of_parts fun ref' env' s' hpart => ?_).symm
        have hbegins : Begins f ⟨limit + 1, .node id, env, s⟩ ⟨limit, ref', env', s'⟩ :=
          .part hid henter hpart
        exact (ih ref' env' s' (fun w id hw => hnode w id (.head hbegins hw))
          (fun w id node hw => htables w id node (.head hbegins hw))
          fun w id ident inner s hw => hlookup w id ident inner s (.head hbegins hw)).symm

end Abacus
