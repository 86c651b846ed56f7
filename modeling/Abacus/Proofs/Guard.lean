import Abacus.Proofs.Evaluation.Abreast
import Abacus.Proofs.Evaluation.Frames
import Abacus.Proofs.Source.Planting

/-!
# The guard against circular definitions

A guarded run stops at a variable whose value is being found in the same frame.  It does so exactly
where the unguarded run never comes to an end.

* `Forest.Sealed`       no node reads the input or draws random numbers;
* `Agrees`              the same outcome, unless a run is stopped too early to tell;
* `Stuck`, `Leads`      evaluations that are too deep at a limit, and how that spreads;
* `visit_of_mark`       a mark is set where the value of a variable is begun;
* `circular_exact`      what the guard changes, and what it does not.
-/

namespace Abacus

open Run

/-! ## Runs with the same outcome -/

def Forest.Sealed (f : Forest) : Prop :=
  ∀ id node b ident operands checked, f.node? id = some node →
    node.shape = .call (.builtin b) ident operands checked → b ≠ .read ∧ b ≠ .rand

/-- **From any two states the outcomes are the same**, unless one of the computations is too deep, or
the guard stops the first one. -/
def Agrees {α : Type} (x y : Run α) : Prop :=
  ∀ s t, (∃ fault, (x.result s).1 = .error fault ∧ (fault = .tooDeep ∨ ∃ ident, fault = .circular ident)) ∨
    (y.result t).1 = .error .tooDeep ∨ (x.result s).1 = (y.result t).1

section
variable {α β : Type}

theorem agrees_pure (a : α) : Agrees (pure a) (pure a) := fun _ _ => Or.inr (Or.inr rfl)

theorem agrees_throw (fault : Fault) : Agrees (throw fault : Run α) (throw fault) :=
  fun _ _ => Or.inr (Or.inr rfl)

theorem Agrees.ok {x y : Run α} (h : Agrees x y) {s s' : State} {a : α}
    (hx : x.result s = (.ok a, s')) (t : State) :
    (y.result t).1 = .error .tooDeep ∨ ∃ t', y.result t = (.ok a, t') := by
  rcases h s t with ⟨fault, hfault, _⟩ | hdeep | hsame
  · rw [hx] at hfault
    cases hfault
  · exact Or.inl hdeep
  · rw [hx] at hsame
    exact Or.inr ⟨(y.result t).2, Prod.ext hsame.symm rfl⟩

theorem agrees_bind {x y : Run α} {k l : α → Run β} (hx : Agrees x y)
    (hk : ∀ a, Agrees (k a) (l a)) : Agrees (x >>= k) (y >>= l) := by
  intro s t
  rcases hr : x.result s with ⟨φ | a, s'⟩
  · rw [result_bind_error hr]
    rcases hx s t with ⟨fault, hfault, hspent⟩ | hdeep | hsame
    · rw [hr] at hfault
      cases hfault
      exact Or.inl ⟨φ, rfl, hspent⟩
    · exact Or.inr (Or.inl (fst_result_bind hdeep))
    · rw [hr] at hsame
      exact Or.inr (Or.inr (fst_result_bind hsame.symm).symm)
  · rw [result_bind_ok hr]
    rcases hx.ok hr t with hdeep | ⟨t', ht⟩
    · exact Or.inr (Or.inl (fst_result_bind hdeep))
    · rw [result_bind_ok ht]
      exact hk a s' t'

theorem agrees_findValue {ev ev' : Evaluator} {owner owner' : Env}
    (hguard : owner'.policy.guarded = false) (id : BindingId) (b : Binding)
    (hev : Agrees (ev b.body owner) (ev' b.body owner')) :
    Agrees (findValue ev id b owner) (findValue ev' id b owner') := by
  rw [findValue_unguarded hguard]
  intro s t
  rw [result_findValue]
  split
  · split
    · exact Or.inl ⟨_, rfl, Or.inr ⟨_, rfl⟩⟩
    · rw [result_marked]
      exact hev _ t
  · exact hev s t

theorem agrees_applyBuiltin {b : Builtin} (hread : b ≠ .read) (hrand : b ≠ .rand) (env env' : Env)
    (args : List Number) : Agrees (applyBuiltin b env args) (applyBuiltin b env' args) := by
  have hsequential : Sequential Agrees := ⟨agrees_pure, agrees_throw, agrees_bind⟩
  exact hsequential.applyBuiltin env env' b args (fun h => absurd h hread) fun h => absurd h hrand

end

section
variable {f : Forest}

def agrees (hf : f.Linked) (hsealed : f.Sealed) : Comparison f where
  policy p q := q = { p with guarded := false }
  serial _ _ := True
  rel := Agrees
  pure := agrees_pure
  bind := agrees_bind
  throw := agrees_throw
  write _ _ _ := Or.inr (Or.inr rfl)
  report _ _ _ _ _ _ := Or.inr (Or.inr rfl)
  fresh h s t := h s.next t.next trivial _ _
  places h := by rw [h]
  unresolved ident r h _ := by
    unfold unresolved
    rw [h.policy]
    dsimp only
    split
    · exact agrees_throw _
    · exact fun _ _ => Or.inr (Or.inr rfl)
  value id b h hev := agrees_findValue (by rw [h.policy]) id b hev
  count hnode hshape _ := by
    have hcounted := hf.counted hnode
    rw [hshape] at hcounted
    cases hcounted
  apply args hnode hshape _ :=
    agrees_applyBuiltin (hsealed _ _ _ _ _ _ hnode hshape).1 (hsealed _ _ _ _ _ _ hnode hshape).2
      _ _ args

/-- **Evaluations to any two depths agree.** -/
theorem agrees_evalNode (hf : f.Linked) (hsealed : f.Sealed) (limit limit' : Nat) :
    (agrees hf hsealed).Evaluators (evalNode f limit) (evalNode f limit') := by
  induction limit generalizing limit' with
  | zero => exact fun _ _ _ _ _ _ => Or.inl ⟨.tooDeep, rfl, Or.inl rfl⟩
  | succ limit ih =>
    cases limit' with
    | zero => exact fun _ _ _ _ _ _ => Or.inr (Or.inl rfl)
    | succ limit' => exact Comparison.step (ih limit')

/-! ## Runs that are too deep -/

def Deep {α : Type} (x : Run α) : Prop := ∀ s, (x.result s).1 = .error .tooDeep

theorem Deep.bind {α β : Type} {x : Run α} (h : Deep x) (k : α → Run β) : Deep (x >>= k) :=
  fun s => fst_result_bind (h s)

/-- a computation that agrees with one that has a result, with what follows on that result -/
theorem Agrees.deep_bind {α β : Type} {x y : Run α} (h : Agrees x y) {s s' : State} {a : α}
    (hx : x.result s = (.ok a, s')) {k : α → Run β} (hk : Deep (k a)) : Deep (y >>= k) := by
  intro t
  rcases h.ok hx t with hdeep | ⟨t', ht⟩
  · exact fst_result_bind hdeep
  · rw [result_bind_ok ht]
    exact hk t'

abbrev Loosened (env env' : Env) : Prop :=
  Env.Like (fun p q => q = { p with guarded := false }) (fun _ _ => True) env env'

/-- **An evaluation is too deep in every unguarded run**, at a limit -/
def Stuck (f : Forest) (limit : Nat) (v : Visit) : Prop :=
  ∀ env, Loosened v.env env → Deep (evalNode f limit v.ref env)

/-- **An evaluation begins another one in every unguarded run**, unless it is too deep before that. -/
def Leads (f : Forest) (v w : Visit) : Prop :=
  ∀ limit, (∀ l, l < limit → Stuck f l w) → Stuck f limit v

theorem Leads.trans {u v w : Visit} (h : Leads f u v) (h' : Leads f v w) : Leads f u w :=
  fun limit hw => h limit fun l hl => h' l fun l' hl' => hw l' (Nat.lt_trans hl' hl)

theorem Leads.stuck {v : Visit} (h : Leads f v v) (limit : Nat) : Stuck f limit v := by
  induction limit using Nat.strongRecOn with
  | ind limit ih => exact h limit ih

theorem deep_value {limit : Nat} {id : NodeId} {ident : String} {bid : BindingId} {b : Binding}
    {env env' owner : Env} (hfound : env.lookup? f ident = some (.binding bid b, owner))
    (hrole : b.role = .value) (henv : Loosened env env')
    (hdeep : ∀ owner', Loosened owner owner' → Deep (evalNode f limit b.body owner')) :
    Deep (evalShape f (evalNode f limit) id (.symbol ident) env') := by
  obtain ⟨owner', hfound', howner⟩ := henv.lookup?_binding hfound
  have hguard : owner'.policy.guarded = false := by rw [howner.policy]
  simp only [evalShape, evalSymbol, hfound', hrole, evalVariable_eq]
  rw [findValue_unguarded hguard]
  exact (hdeep owner' howner).bind _

/-- **What a part is, the whole is**: too deep in every unguarded run. -/
theorem deep_of_part (hf : f.Linked) (hsealed : f.Sealed) {limit limit' : Nat} {id : NodeId}
    {node : Node} {env env' env₁ : Env} {s s' : State} {ref : Ref} (hnode : f.node? id = some node)
    (hpart : Part f (evalNode f limit) id node.shape env s ref env' s') (henv : Loosened env env₁)
    (hdeep : ∀ env₁', Loosened env' env₁' → Deep (evalNode f limit' ref env₁')) :
    Deep (evalShape f (evalNode f limit') id node.shape env₁) := by
  have hev := agrees_evalNode hf hsealed limit limit'
  generalize hshape : node.shape = shape at hpart
  cases hpart with
  | argument hfound =>
    obtain ⟨caller', owner', hfound', hcaller⟩ := henv.lookup?_thunk hfound
    simp only [evalShape, evalSymbol, hfound']
    exact hdeep caller' hcaller
  | value hfound hrole _ => exact deep_value hfound hrole henv hdeep
  | body hfound hrole hcheck =>
    obtain ⟨owner', hfound', howner⟩ := henv.lookup?_binding hfound
    simp only [evalShape, evalCall, hfound', hrole, applyFunction]
    refine Agrees.deep_bind ((agrees hf hsealed).checkArguments henv _ _ _) hcheck ?_
    intro t
    rw [result_bind_ok (result_fresh t)]
    exact (hdeep _ (henv.call howner trivial _ _ _)).bind _ _
  | @operand b _ operands before after checked _ _ _ _ _ values hchecked hlazy hused hbefore =>
    rw [evalShape, evalBuiltin_eq, if_neg (by rw [hlazy]; simp), hused, evalOperands_append]
    refine Agrees.deep_bind ((agrees hf hsealed).countUnchecked henv hnode hshape) hchecked ?_
    rw [bind_assoc]
    refine Agrees.deep_bind ((agrees hf hsealed).evalOperands hev henv before) hbefore ?_
    exact Deep.bind (Deep.bind (Deep.bind (hdeep env₁ henv) _) _) _
  | @printed b _ operands before after checked _ _ _ _ _ last hchecked hlazy hused hbefore =>
    rw [evalShape, evalBuiltin_eq, if_pos hlazy, hused, printOperands_append, ← hused]
    refine Agrees.deep_bind ((agrees hf hsealed).countUnchecked henv hnode hshape) hchecked ?_
    refine Agrees.deep_bind ((agrees hf hsealed).printOperands hev henv none before) hbefore ?_
    exact (hdeep env₁ henv).bind _
  | test => exact (hdeep env₁ henv).bind _
  | branch htest =>
    refine Agrees.deep_bind (hev _ _ _ henv) htest ?_
    dsimp only
    split at hdeep
    · next hzero =>
      rw [if_pos hzero]
      exact hdeep env₁ henv
    · next hzero =>
      rw [if_neg hzero]
      exact hdeep env₁ henv

theorem stuck_succ {limit limit' : Nat} {id : NodeId} {node : Node} {env : Env} {s : State}
    (hnode : f.node? id = some node) (hdeep : ∀ env₁,
      Loosened (Env.push (f.tablesOf node).reverse s.next env) env₁ →
      Deep (evalShape f (evalNode f limit') id node.shape env₁)) :
    Stuck f (limit' + 1) ⟨limit, .node id, env, s⟩ := by
  intro env₁ henv t
  rw [evalNode_node hnode, result_bind_ok (result_enter f node env₁ t)]
  exact hdeep _ (henv.push (fun _ => trivial) _) _

/-- **What begins another evaluation leads to it.** -/
theorem leads_of_begins (hf : f.Linked) (hsealed : f.Sealed) {v w : Visit} (h : Begins f v w) :
    Leads f v w := by
  intro limit hw
  cases limit with
  | zero => exact fun _ _ _ => rfl
  | succ limit =>
    cases h with
    | part hnode henter hpart =>
      rw [result_enter] at henter
      cases henter
      exact stuck_succ hnode fun env₁ henv =>
        deep_of_part hf hsealed hnode hpart henv (hw limit (Nat.lt_succ_self limit))

theorem leads_of_visits (hf : f.Linked) (hsealed : f.Sealed) {u v w : Visit} (h : Visits f u v)
    (hv : Leads f v w) : Leads f u w := by
  induction h using Relation.ReflTransGen.head_induction_on with
  | refl => exact hv
  | head hbegins _ ih => exact (leads_of_begins hf hsealed hbegins).trans ih

/-! ## Marks -/

/-- **A mark is set where the value of a variable is begun**, in the frame that binds it. -/
theorem visit_of_mark {v w : Visit} (h : Visits f v w) {m : Mark} (hm : m ∈ w.state.active) :
    m ∈ v.state.active ∨ ∃ u bid b, Visits f v u ∧ Visits f u w ∧ u.ref = b.body ∧
      f.binding? bid = some b ∧ m = (bid, u.env.serial) := by
  induction h with
  | refl => exact Or.inl hm
  | @tail x w hvisits hbegins ih =>
    have hold (hm : m ∈ x.state.active) : m ∈ v.state.active ∨ ∃ u bid b, Visits f v u ∧
        Visits f u w ∧ u.ref = b.body ∧ f.binding? bid = some b ∧ m = (bid, u.env.serial) := by
      rcases ih hm with hm | ⟨u, bid, b, hu, hux, hrest⟩
      · exact Or.inl hm
      · exact Or.inr ⟨u, bid, b, hu, hux.tail hbegins, hrest⟩
    have hvw : Visits f v w := hvisits.tail hbegins
    cases hbegins with
    | @part limit id node env inner env' s s₁ s' ref hnode henter hpart =>
      rw [result_enter] at henter
      cases henter
      rcases advances_of_part (fun ref env => advances_evalNode f limit ref env) hnode hpart with
        hadvances | ⟨ident, bid, b, _, hfound, _, rfl, _, rfl⟩
      · rw [hadvances.active] at hm
        exact hold hm
      · unfold State.finding at hm
        split at hm
        · rcases List.mem_cons.1 hm with rfl | hm
          · exact Or.inr ⟨_, bid, b, hvw, .refl, rfl,
              Env.binding_of_lookup hfound, rfl⟩
          · exact hold hm
        · exact hold hm

/-! ## What the guard does -/

/-- **Where the guard stops a run, the value of a variable leads to itself.** -/
theorem leads_of_circular (hf : f.Linked) (hsealed : f.Sealed) {start v : Visit} {ident : String}
    (hmade : Env.Made start.state.next start.env) (hactive : start.state.active = [])
    (hvisits : Visits f start v) (h : v.Fails f (.circular ident)) :
    ∃ u, Leads f start u ∧ Leads f u u := by
  cases h with
  | @node limit id node env inner s s₁ _ hnode henter hown =>
    rw [result_enter] at henter
    cases henter
    generalize hshape : node.shape = shape at hown
    cases hown with
    | plain hplain => exact absurd rfl hplain.2.1
    | @circular name _ owner _ bid b hfound hrole hguard hmark =>
      rcases visit_of_mark hvisits hmark with hmem | ⟨u, bid', b', hu, huv, href, hbid, heq⟩
      · rw [hactive] at hmem
        cases hmem
      · obtain ⟨rfl, hserial⟩ : bid = bid' ∧ owner.serial = u.env.serial := by simpa using heq
        rw [Env.binding_of_lookup hfound] at hbid
        cases hbid
        have humade := made_of_visits hmade hu
        -- the frame that binds the variable is the one in which its value was begun
        have howner : owner = u.env := by
          have hlt : owner.serial < u.state.next := hserial ▸ humade.serial_lt
          refine humade.eq_of_sub ?_ hserial
          have hinner : owner.Sub env := (Env.sub_push (Env.sub_of_binding hfound)).resolve_right
            fun hle => Nat.not_lt.2 (Nat.le_trans (next_of_visits huv) hle) hlt
          exact (sub_of_visits huv hinner).resolve_right fun hle => Nat.not_lt.2 hle hlt
        have hloop : Leads f ⟨limit + 1, .node id, env, s⟩ u := by
          intro l hstuck
          cases l with
          | zero => exact fun _ _ _ => rfl
          | succ l =>
            refine stuck_succ hnode ?_
            intro env₁ henv
            rw [hshape]
            refine deep_value hfound hrole henv ?_
            intro owner' howner'
            rw [howner] at howner'
            rw [← href]
            exact hstuck l (Nat.lt_succ_self l) owner' howner'
        have huu := leads_of_visits hf hsealed huv hloop
        exact ⟨u, leads_of_visits hf hsealed hu huu, huu⟩

/-- **The guard is exact.**  A guarded run that it does not stop is the unguarded run, up to marks;
where it stops the run, the unguarded run is too deep whatever the limit. -/
theorem circular_exact {source : String} {root : NodeId} (h : Sown source root f)
    (hsealed : f.Sealed) (limit : Nat) (policy : Policy) (input : List Char)
    (generator : Generator) :
    let guarded := Visit.start limit (.node root) { policy with guarded := true } input generator
    let unguarded (limit : Nat) :=
      Visit.start limit (.node root) { policy with guarded := false } input generator
    ((∀ ident, (guarded.result f).1 ≠ .error (.circular ident)) →
      ((unguarded limit).result f).1 = (guarded.result f).1 ∧
      ((unguarded limit).result f).2.output = (guarded.result f).2.output ∧
      ((unguarded limit).result f).2.reports = (guarded.result f).2.reports ∧
      ((unguarded limit).result f).2.input = (guarded.result f).2.input) ∧
    ((guarded.result f).1 = .error .tooDeep → ((unguarded limit).result f).1 = .error .tooDeep) ∧
    (∀ ident, (guarded.result f).1 = .error (.circular ident) →
      ∀ limit', ((unguarded limit').result f).1 = .error .tooDeep) := by
  intro guarded unguarded
  have hsame (hnot : ∀ ident, (guarded.result f).1 ≠ .error (.circular ident)) :
      (unguarded limit).result f
        = ((guarded.result f).1, (guarded.result f).2.remarked fun _ => []) :=
    (unguarded_of_guarded f limit (.node root) policy input generator).resolve_left
      fun ⟨ident, hident⟩ => hnot ident hident
  refine ⟨?_, ?_, ?_⟩
  · intro hnot
    rw [hsame hnot]
    exact ⟨rfl, rfl, rfl, rfl⟩
  · intro hdeep
    rw [hsame fun ident hident => ?_]
    · exact hdeep
    · rw [hdeep] at hident
      cases hident
  · intro ident hident limit'
    have hresult : guarded.result f = (.error (.circular ident), (guarded.result f).2) :=
      Prod.ext hident rfl
    obtain ⟨v, hvisits, hfails⟩ := origin_of_fault hresult
    obtain ⟨u, hu, huu⟩ := leads_of_circular h.linked hsealed (.root Nat.zero_lt_one) rfl hvisits
      hfails
    exact hu limit' (fun l _ => huu.stuck l) _ (.root trivial rfl) _

end

/-- a variable that is its own value -/
def selfSource : String := "(let ((x x)) x)"

def selfForest : Forest where
  nodes := #[⟨.symbol "x", none, some ⟨1⟩⟩, ⟨.symbol "x", some ⟨0⟩, none⟩]
  tables := #[⟨[⟨0⟩], none, some ⟨1⟩⟩]
  bindings := #[⟨"x", none, .node ⟨0⟩, .value⟩]

theorem parse_self : parseForm selfSource.toList
    = .ok (.scoped [.value "x" (.symbol "x") none] (.symbol "x")) := by
  with_unfolding_all rfl

theorem sown_self : Sown selfSource ⟨1⟩ selfForest := by
  refine ⟨[], ?_⟩
  unfold plantSource
  rw [parse_self]
  rfl

theorem sealed_self : selfForest.Sealed := by
  rintro ⟨i⟩ node b ident operands checked hnode hshape
  rcases i with _ | _ | i
  · cases hnode
    cases hshape
  · cases hnode
    cases hshape
  · cases hnode

/-- the guard stops the run, which never comes to an end without it -/
theorem circular_self :
    ((Visit.start 3 (.node ⟨1⟩) { strict := true, guarded := true } [] ⟨#[], 0⟩).result selfForest).1
      = .error (.circular "x") ∧
    ∀ limit, ((Visit.start limit (.node ⟨1⟩) { strict := true, guarded := false } [] ⟨#[], 0⟩).result
      selfForest).1 = .error .tooDeep := by
  have hcircular : ((Visit.start 3 (.node ⟨1⟩) { strict := true, guarded := true } [] ⟨#[], 0⟩).result
      selfForest).1 = .error (.circular "x") := rfl
  exact ⟨hcircular, (circular_exact sown_self sealed_self 3 { strict := true } [] ⟨#[], 0⟩).2.2 "x"
    hcircular⟩

end Abacus
