import Abacus.Proofs.Evaluation.Counting

/-!
# What operators are handed

Nodes are made by the factories, calls also by hand, in any order, and they are evaluated in between.
Whatever was done before, a call that is not counted any more has enough operands.  So an evaluation
ends with a value or with a fault that is reported, and an operator is handed as many numbers as it
takes, and refuses no amounts.

* `Reached f s`         the forests and states that anything done before leads to;
* `sated_of_reached`    the calls that are not counted any more have enough operands;
* `Visit.Applies`       an operator applied inside a run;
* `evaluation_safe`     **how evaluations end, and what operators are handed**.
-/

namespace Abacus

open Run Growth Forest

/-! ## What is done before -/

/-- **The forests and states that anything done before leads to**: calls of the factories, calls put
together by hand, planted sources and evaluations, in any order.  The input, the generators and all
else that no call is counted by may change at any time. -/
inductive Reached : Forest → State → Prop
  | start {s : State} : s.counted = [] → Reached .empty s
  | made {f g : Forest} {s : State} {m : Making} : Reached f s → m.Makes f g → Reached g s
  | put {f g : Forest} {s : State} {operator : Operator} {ident : Option String}
      {operands : List Ref} {remarks after : List Remark} {id : NodeId} : Reached f s →
      (newRawCall operator ident operands).run.run ⟨f, remarks⟩ = (.ok id, ⟨g, after⟩) → Reached g s
  | planted {f g : Forest} {s : State} {source : String} {remarks after : List Remark}
      {root : NodeId} : Reached f s →
      (plantSource source).run.run ⟨f, remarks⟩ = (.ok root, ⟨g, after⟩) → Reached g s
  | evaluated {f : Forest} {s : State} (limit : Nat) (ref : Ref) (env : Env) : Reached f s →
      Reached f ((evalNode f limit ref env).result s).2
  | changed {f : Forest} {s t : State} : Reached f s → t.counted = s.counted → Reached f t

/-- a call of a built-in operator that is not counted any more has enough operands -/
def Shape.Sound (shape : Shape) : Prop :=
  ∀ b ident operands, shape = .call (.builtin b) ident operands true →
    b.arity.least ≤ operands.length

theorem Shape.Made.sound {shape : Shape} (h : shape.Made) : shape.Sound := by
  rintro b ident operands rfl
  cases h with
  | builtin hleast => exact hleast

/-- what growing keeps of the calls: they stay as they are, and new ones are sound -/
def Forest.Sounder (f g : Forest) : Prop := (f.Checked → g.Checked) ∧ ∀ id, f.Sated id → g.Sated id

section
variable {f g : Forest} {s : State}

theorem sounder_modify (f : Forest) (id : NodeId) {step : Node → Node}
    (hstep : ∀ n, (step n).shape = n.shape) :
    f.Sounder { f with nodes := f.nodes.modify id.index step } := by
  constructor
  · intro hf j node b ident operands hnode hshape
    rw [node?_modify] at hnode
    split at hnode
    · obtain ⟨n, hn, rfl⟩ := Option.map_eq_some_iff.1 hnode
      rw [hstep] at hshape
      exact hf j n b ident operands hn hshape
    · exact hf j node b ident operands hnode hshape
  · rintro j ⟨node, b, ident, operands, checked, hnode, hshape, hleast⟩
    refine ⟨if j = id then step node else node, b, ident, operands, checked, ?_, ?_, hleast⟩
    · rw [node?_modify, hnode]
      split
      · rfl
      · rfl
    · split
      · rw [hstep, hshape]
      · exact hshape

theorem steady_sounder : SteadyGrowth Shape.Sound Forest.Sounder where
  refl _ := ⟨id, fun _ => id⟩
  trans h h' := ⟨h'.1 ∘ h.1, fun id => h'.2 id ∘ h.2 id⟩
  node f shape hsound := by
    constructor
    · intro hf j node b ident operands hnode hshape
      rw [node?_push] at hnode
      split at hnode
      · cases hnode
        exact hsound b ident operands hshape
      · exact hf j node b ident operands hnode hshape
    · rintro j ⟨node, b, ident, operands, checked, hnode, hshape, hleast⟩
      refine ⟨node, b, ident, operands, checked, ?_, hshape, hleast⟩
      have hlt : j.index < f.nodes.size := (Array.getElem?_eq_some_iff.1 hnode).1
      rw [node?_push, if_neg (Nat.ne_of_lt hlt)]
      exact hnode
  binding _ _ := ⟨id, fun _ => id⟩
  table _ := ⟨id, fun _ => id⟩
  parent f id _ := sounder_modify f id fun _ => rfl
  bound _ _ _ := ⟨id, fun _ => id⟩
  scope f id _ := sounder_modify f id fun _ => rfl
  enclosing _ _ _ := ⟨id, fun _ => id⟩
  owner _ _ _ := ⟨id, fun _ => id⟩

/-- **Calls that are not counted any more have enough operands**, whether they were counted when
they were made or by an evaluation. -/
theorem sated_of_reached (h : Reached f s) :
    f.Checked ∧ ∀ key ∈ s.counted, f.Sated key.2 := by
  have hgrown {f g : Forest} {s : State} (hg : f.Sounder g)
      (hf : f.Checked ∧ ∀ key ∈ s.counted, f.Sated key.2) :
      g.Checked ∧ ∀ key ∈ s.counted, g.Sated key.2 :=
    ⟨hg.1 hf.1, fun key hkey => hg.2 _ (hf.2 key hkey)⟩
  have hfactory : SteadyGrowth Shape.Made Forest.Sounder :=
    steady_sounder.mono fun _ => Shape.Made.sound
  induction h with
  | start hnone =>
    rw [hnone]
    exact ⟨fun _ _ _ _ _ hnode => (nomatch hnode), fun _ hkey => (nomatch hkey)⟩
  | made _ hmakes ih => exact hgrown (hmakes.of_grows (hfactory.perform _ _)) ih
  | @put _ _ _ operator ident operands _ _ _ _ hrun ih =>
    have hsound : (Shape.call operator ident operands false).Sound := fun _ _ _ heq => nomatch heq
    exact hgrown (steady_sounder.placeShape hsound _ _ _ _ hrun) ih
  | planted _ hrun ih => exact hgrown (hfactory.plantSource _ _ _ _ _ hrun) ih
  | evaluated limit ref env _ ih => exact ⟨ih.1, sated_of_evalNode ih.1 ih.2 limit ref env⟩
  | changed _ hcounted ih =>
    rw [hcounted]
    exact ih

end

/-! ## Operators in a run -/

/-- **A built-in operator is applied inside a run** to numbers, in an environment and a state: the
evaluation is of a call of it, its operands are counted, and those that it uses all have values. -/
structure Visit.Applies (f : Forest) (w : Visit) (b : Builtin) (args : List Number) (inner : Env)
    (t : State) : Prop where
  lazy : b.isLazy = false
  applied : ∃ limit id node ident operands checked s s₁ values,
    w.limit = limit + 1 ∧ w.ref = .node id ∧ f.node? id = some node ∧
      node.shape = .call (.builtin b) ident operands checked ∧
      (enter f node w.env).result w.state = (.ok inner, s) ∧
      (countUnchecked id b operands.length checked inner).result s = (.ok (), s₁) ∧
      (evalOperands (evalNode f limit) inner (usedOperands b operands)).result s₁ = (.ok values, t) ∧
      present? values = some args

theorem length_of_evalOperands {ev : Evaluator} {env : Env} {refs : List Ref}
    {values : List Value} {s t : State}
    (h : (evalOperands ev env refs).result s = (.ok values, t)) : values.length = refs.length := by
  induction refs generalizing values s with
  | nil =>
    cases h
    rfl
  | cons ref rest ih =>
    obtain ⟨value, s₁, _, hrest⟩ := result_bind_eq_ok h
    obtain ⟨rests, s₂, hvalues, hpure⟩ := result_bind_eq_ok hrest
    cases hpure
    rw [List.length_cons, List.length_cons, ih hvalues]

section
variable {f : Forest} {w : Visit} {b : Builtin} {args : List Number} {inner : Env} {t : State}

theorem Visit.Applies.result (h : w.Applies f b args inner t) :
    w.result f = (applyBuiltin b inner args).result t := by
  obtain ⟨hlazy, limit, id, node, ident, operands, checked, s, s₁, values, hlimit, href, hnode,
    hshape, henter, hcount, hvalues, hargs⟩ := h
  obtain ⟨_, _, env, s₀⟩ := w
  dsimp only at hlimit href henter
  subst hlimit href
  show (evalNode f (limit + 1) (.node id) env).result s₀ = _
  rw [evalNode_node hnode, result_bind_ok henter, hshape, evalShape, evalBuiltin_eq,
    result_bind_ok hcount, if_neg (by rw [hlazy]; simp), result_bind_ok hvalues, hargs]

/-- an operator is applied to as many numbers as it takes -/
theorem Visit.Applies.length (h : w.Applies f b args inner t) (hf : f.Checked)
    (hs : ∀ key ∈ w.state.counted, f.Sated key.2) :
    b.arity.least ≤ args.length ∧ ∀ n, b.arity.most? = some n → args.length = n := by
  obtain ⟨_, limit, id, node, ident, operands, checked, s, s₁, values, _, _, hnode, hshape, henter,
    hcount, hvalues, hargs⟩ := h
  have hleast : b.arity.least ≤ operands.length := by
    cases checked with
    | true => exact hf _ _ _ _ _ hnode hshape
    | false =>
      have hcount : (countOperands id b operands.length inner).result s = (.ok (), s₁) := hcount
      rw [result_enter] at henter
      cases henter
      rw [result_countOperands] at hcount
      split at hcount
      · next hmem => exact (hs _ hmem).supplied _ _ _ _ _ hnode hshape
      · rcases hcheck : checkOperands b operands.length with fault | r
        · rw [hcheck] at hcount
          cases hcount
        · exact least_of_checkOperands hcheck
  have hlength : args.length = (usedOperands b operands).length := by
    rw [← length_of_evalOperands hvalues, Assurance.present?_eq_some hargs, List.length_map]
  rw [hlength]
  refine ⟨least_le_usedOperands hleast, fun n hn => ?_⟩
  have hused : (usedOperands b operands).length = min n operands.length := by
    rw [usedOperands, hn, List.length_take]
  have hexact : b.arity.least = n := least_of_most? hn
  omega

/-- an operator that is handed enough numbers gives a number, or the input has ended -/
theorem ok_of_applyBuiltin (hlazy : b.isLazy = false) (hleast : b.arity.least ≤ args.length)
    (inner : Env) (t : State) :
    b = .read ∧ ((applyBuiltin b inner args).result t).1 = .error .inputEnd ∨
      ∃ v, ((applyBuiltin b inner args).result t).1 = .ok (some v) := by
  unfold applyBuiltin
  split
  · rw [result_readNumber]
    rcases (awaitNumber t.input).amount with _ | amount
    · exact Or.inl ⟨rfl, rfl⟩
    · exact Or.inr ⟨_, rfl⟩
  · rw [result_bind_ok (result_draw inner t)]
    exact Or.inr ⟨_, rfl⟩
  · next hread hrand =>
    obtain ⟨rule, hrule⟩ := exists_rule? hlazy hread hrand
    rw [← least_of_rule? hrule] at hleast
    obtain ⟨v, hv⟩ := Rule.exists_apply (answers_of_rule? hrule) hleast
    rw [hrule]
    dsimp only
    rw [hv]
    exact Or.inr ⟨v, rfl⟩

end

/-- **How evaluations end, and what operators are handed.**  Whatever was made and evaluated before,
and whatever stands where nodes are expected, an evaluation whose roots ask for a number of places
that can be written ends with a value or with a fault that is reported.  Every operator that is
applied inside it is handed exactly as many numbers as it takes, if it takes a fixed number of them;
what it does then is the end of the evaluation that applies it, and that is a number, unless the
operator reads and the input has ended.  The functions of the rules refuse no amounts, so a rule
makes a number of all numbers that are enough for its operator, and no step of rounding an integer
is refused. -/
theorem evaluation_safe {f : Forest} {s : State} (h : Reached f s) {env : Env}
    (hplaces : env.Rooted fun _ p => p.places ≤ mostPlaces) (limit : Nat) (ref : Ref) :
    (∀ fault t, (evalNode f limit ref env).result s = (.error fault, t) →
      fault.isReported = true) ∧
    (∀ w b args inner t, Visits f ⟨limit, ref, env, s⟩ w → w.Applies f b args inner t →
      (∀ n, b.arity.most? = some n → args.length = n) ∧
      w.result f = (applyBuiltin b inner args).result t ∧
      (b = .read ∧ (w.result f).1 = .error .inputEnd ∨ ∃ v, (w.result f).1 = .ok (some v))) ∧
    (∀ b rule, rule? b = some rule →
      rule.Answers ∧ ∀ args, b.arity.least ≤ args.length → ∃ v, rule.apply args = .ok v) ∧
    ∀ x : Amount, x.rounding = .ok x.roundHalfAway := by
  obtain ⟨hf, hs⟩ := sated_of_reached h
  refine ⟨fun fault t hrun => ?_, fun w b args inner t hw happlies => ?_,
    fun b rule hrule => ⟨answers_of_rule? hrule, fun args hleast => ?_⟩, Amount.rounding_eq⟩
  · exact reported_of_evalNode hf (fun n p hsub => placesFault?_eq_none (hplaces n p hsub)) hs hrun
  · obtain ⟨hleast, hlength⟩ := happlies.length hf (sated_of_visits hf hs hw)
    refine ⟨hlength, happlies.result, ?_⟩
    rw [happlies.result]
    exact ok_of_applyBuiltin happlies.lazy hleast inner t
  · rw [← least_of_rule? hrule] at hleast
    exact Rule.exists_apply (answers_of_rule? hrule) hleast

/-- a call put together by hand that negates what is no number, with one operand too many -/
def negatedTwice : Forest :=
  ⟨#[⟨.number (.make .nan .float), none, none⟩,
    ⟨.call (.builtin .neg) none [.node ⟨0⟩, .node ⟨0⟩] false, none, none⟩], #[], #[]⟩

theorem reached_negatedTwice (input : List Char) (generator : Generator) :
    Reached negatedTwice (.start input generator) := by
  have hnumber : (Making.number .nan .float).Makes .empty
      ⟨#[⟨.number (.make .nan .float), none, none⟩], #[], #[]⟩ := ⟨[], [], rfl⟩
  have hcall : (newRawCall (.builtin .neg) none [.node ⟨0⟩, .node ⟨0⟩]).run.run
      ⟨⟨#[⟨.number (.make .nan .float), none, none⟩], #[], #[]⟩, []⟩
        = (.ok ⟨1⟩, ⟨negatedTwice, []⟩) := rfl
  exact .put (.made (.start rfl) hnumber) hcall

/-- the operator is handed the first operand only -/
theorem evaluation_safe_negatedTwice :
    let s : State := .start [] (.ofSeed 0)
    let env : Env := .root 0 { strict := true }
    Reached negatedTwice s ∧ (env.Rooted fun _ p => p.places ≤ mostPlaces) ∧
      (∀ fault t, (evalNode negatedTwice 2 (.node ⟨1⟩) env).result s = (.error fault, t) →
        fault.isReported = true) ∧
      ∃ args inner t, (⟨2, .node ⟨1⟩, env, s⟩ : Visit).Applies negatedTwice .neg args inner t ∧
        args.length = 1 := by
  intro s env
  have hreached : Reached negatedTwice s := reached_negatedTwice [] (.ofSeed 0)
  have hplaces : env.Rooted fun _ p => p.places ≤ mostPlaces := .of_root (by decide)
  have happlies : (⟨2, .node ⟨1⟩, env, s⟩ : Visit).Applies negatedTwice .neg
      [.make .nan .float] env _ :=
    ⟨rfl, 1, ⟨1⟩, _, none, _, false, s, _, [some (.make .nan .float)], rfl, rfl, rfl, rfl, rfl, rfl,
      rfl, rfl⟩
  obtain ⟨hreported, hhanded, _⟩ := evaluation_safe hreached hplaces 2 (.node ⟨1⟩)
  exact ⟨hreached, hplaces, hreported, _, _, _, happlies,
    (hhanded _ _ _ _ _ .refl happlies).1 1 rfl⟩

end Abacus
