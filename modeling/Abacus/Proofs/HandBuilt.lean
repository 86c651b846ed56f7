import Abacus.Proofs.HandBuilt.Building
import Abacus.Proofs.HandBuilt.Remarks

/-!
# Calls made by the factory and calls put together by hand

A program is built twice, by the factories alone and with its calls put together by hand, and run.
Both runs have the same result, output and reports, and take the same input and random numbers; but
the first has no remarks on surplus operands, which were made when the program was built, and the
second has one on each call with surplus operands that it evaluates, at the first evaluation.

* `State.shorn`, `Shears`     runs without the remarks on surplus operands;
* `evalShape_byHand`          a node with its call still to be counted;
* `shears_evalNode`           the two runs;
* `hand_built_same`           **the two ways of building mean the same**.
-/

namespace Abacus

open Run Growth Forest

/-! ## Runs without the remarks -/

/-- the state without the remarks on surplus operands, where no call is counted -/
def State.shorn (s : State) : State :=
  { s with
    reports := s.reports.filter fun r => !r.remark.isSurplus
    counted := [] }

/-- **The first computation does what the second one does**, but for counting calls and remarking on
surplus operands. -/
def Shears {α : Type} (x y : Run α) : Prop :=
  ∀ s, x.result s.shorn = ((y.result s).1, (y.result s).2.shorn)

section
variable {α β : Type} {env env' : Env}

theorem shears_bind {x y : Run α} {k l : α → Run β} (hx : Shears x y)
    (hk : ∀ a, Shears (k a) (l a)) : Shears (x >>= k) (y >>= l) := by
  intro s
  rw [result_bind, result_bind, hx s]
  rcases y.result s with ⟨fault | a, t⟩
  · rfl
  · exact hk a t

theorem shears_report (hpolicy : env.policy = env'.policy) {r : Remark} (hr : r.isSurplus = false) :
    Shears (report env r) (report env' r) := by
  intro s
  rw [result_report, result_report, hpolicy]
  simp [State.shorn, hr]

theorem shears_unresolved (hpolicy : env.policy = env'.policy) (ident : String) {r : Remark}
    (hr : r.isSurplus = false) : Shears (unresolved env ident r) (unresolved env' ident r) := by
  unfold unresolved
  rw [hpolicy]
  split
  · exact fun _ => rfl
  · exact shears_bind (shears_report hpolicy hr) fun _ _ => rfl

theorem shears_marked (m : Mark) {x y : Run α} (h : Shears x y) :
    Shears (marked m x) (marked m y) := by
  intro s
  have hbody : x.result { s.shorn with active := m :: s.shorn.active } = _ :=
    h { s with active := m :: s.active }
  rw [result_marked, result_marked, hbody]
  rfl

theorem shears_findValue {ev ev' : Evaluator} {owner owner' : Env}
    (hpolicy : owner.policy = owner'.policy) (hserial : owner.serial = owner'.serial)
    (id : BindingId) (b : Binding) (hev : Shears (ev b.body owner) (ev' b.body owner')) :
    Shears (findValue ev id b owner) (findValue ev' id b owner') := by
  intro s
  rw [result_findValue, result_findValue, hpolicy, hserial, show s.shorn.active = s.active from rfl]
  split
  · split
    · rfl
    · exact shears_marked _ hev s
  · exact hev s

theorem shears_readNumber (env : Env) : Shears (readNumber env) (readNumber env) := by
  intro s
  have hall : (refusals env (awaitNumber s.input).refused).filter (fun r => !r.remark.isSurplus)
      = refusals env (awaitNumber s.input).refused :=
    List.filter_eq_self.2 fun r hr => by simp [not_isSurplus_of_refusals hr]
  have hreports : s.shorn.reports ++ refusals env (awaitNumber s.input).refused
      = (s.reports ++ refusals env (awaitNumber s.input).refused).filter
          fun r => !r.remark.isSurplus := by
    refine Array.toList_inj.1 ?_
    simp [State.shorn, hall]
  rw [result_readNumber, result_readNumber, show s.shorn.input = s.input from rfl, hreports]
  rfl

theorem shears_draw (env : Env) : Shears (draw env) (draw env) := by
  intro s
  rw [result_draw, result_draw]
  rfl

theorem shears_applyBuiltin (hpolicy : env.policy = env'.policy) (b : Builtin)
    (args : List Number) : Shears (applyBuiltin b env args) (applyBuiltin b env' args) := by
  have hsequential : Sequential Shears := ⟨fun _ _ => rfl, fun _ _ => rfl, shears_bind⟩
  rw [applyBuiltin_congr hpolicy]
  exact hsequential.applyBuiltin env' env' b args (fun _ => shears_readNumber env') fun _ =>
    shears_draw env'

end

/-! ## Counting -/

def countShape (id : NodeId) (env : Env) : Shape → Run Unit
  | .call (.builtin b) _ operands _ => countOperands id b operands.length env
  | _ => pure ()

/-- counting the operands of a call that has enough of them only counts and remarks -/
theorem shorn_countShape {shape : Shape} (hmade : shape.Made) (id : NodeId) (env : Env) (s : State) :
    ∃ t, (countShape id env shape).result s = (.ok (), t) ∧ t.shorn = s.shorn := by
  cases hmade with
  | @builtin b operands hleast =>
    rw [countShape, result_countOperands, checkOperands_of_least hleast none]
    split
    · exact ⟨s, rfl, rfl⟩
    · cases hsurplus : (Shape.call (.builtin b) none operands false).surplus? with
      | none => exact ⟨_, rfl, rfl⟩
      | some r =>
        refine ⟨_, rfl, ?_⟩
        simp [State.shorn, Shape.isSurplus_of_surplus? hsurplus]
  | number amount kind => exact ⟨s, rfl, rfl⟩
  | symbol ident => exact ⟨s, rfl, rfl⟩
  | function name operands => exact ⟨s, rfl, rfl⟩
  | choice test ifTrue ifFalse => exact ⟨s, rfl, rfl⟩

section
variable {g h : Forest}

/-- **A node whose call is put together by hand is evaluated like the one that the factory makes**,
once its operands are counted. -/
theorem evalShape_byHand (hgh : g.ByHand h) {shape : Shape} (hmade : shape.Made) (ev : Evaluator)
    (id : NodeId) (env : Env) :
    evalShape h ev id shape.byHand env
      = (countShape id env shape >>= fun _ => evalShape g ev id shape env) := by
  have hlookup : evalShape h ev id shape.byHand env = evalShape g ev id shape.byHand env :=
    evalShape_of_lookup fun ident _ => lookup?_congr (hgh.find? · ident) env
  rw [hlookup]
  cases hmade with
  | builtin _ => exact evalBuiltin_unchecked ev id _ _ env
  | number amount kind => rfl
  | symbol ident => rfl
  | function name operands => rfl
  | choice test ifTrue ifFalse => rfl

def shearing (hgh : g.ByHand h) : Comparison g where
  policy := Eq
  serial := Eq
  rel := Shears
  pure _ _ := rfl
  bind := shears_bind
  throw _ _ := rfl
  write _ _ := rfl
  report _ _ hr hlike := shears_report hlike.policy hr
  fresh hk s := hk s.next s.next rfl { s with next := s.next + 1 }
  places hlike := congrArg Policy.places hlike
  unresolved ident r hlike hr := shears_unresolved hlike.policy ident (by rcases hr with rfl | rfl <;> rfl)
  value id b hlike hev := shears_findValue hlike.policy hlike.serial id b hev
  count hnode hshape _ := by
    have hmade := (hgh.node?_eq_some hnode).1
    rw [hshape] at hmade
    cases hmade
  apply args _ _ hlike := shears_applyBuiltin hlike.policy _ args

/-- **Runs of what the factory makes do what those do where calls are put together by hand**, but for
counting calls and remarking on surplus operands. -/
theorem shears_evalNode (hgh : g.ByHand h) (limit : Nat) :
    (shearing hgh).Evaluators (evalNode g limit) (evalNode h limit) := by
  induction limit with
  | zero => exact fun _ _ _ _ _ => rfl
  | succ limit ih =>
    intro ref env env' hlike
    cases ref with
    | absent => exact fun _ => rfl
    | foreign typeName serial => exact fun _ => rfl
    | node id =>
      rcases hnode : g.node? id with _ | n
      · simp only [evalNode, hnode, hgh.node?_eq_none hnode]
        exact fun _ => rfl
      · obtain ⟨hmade, m, hm, hshape, hscope⟩ := hgh.node?_eq_some hnode
        have htables : h.tablesOf m = g.tablesOf n := by
          rw [tablesOf, tablesOf, hscope, hgh.tablesFrom]
        rw [evalNode_node hnode, evalNode_node hm, enter, enter, htables, hshape]
        refine Comparison.pushTables (fun inner inner' hinner s => ?_) _ hlike
        obtain ⟨t, hcount, hshorn⟩ := shorn_countShape hmade id inner' s
        rw [evalShape_byHand hgh hmade, result_bind_ok hcount, ← hshorn]
        exact Comparison.shape ih hinner hnode t

end

/-! ## Programs built twice -/

/-- **Calls made by the factory and calls put together by hand mean the same.**  A program is built
twice, and nowhere is a call of a built-in operator made with too few operands.  Both ways come to
the same end; by hand there are no remarks on surplus operands, and the factories make one for each
call that has them, in the order of making.  Run on whatever input, generator and policy, to whatever
depth, both have the same result, print the same and leave the same input and generators.  The run of
what the factories made has no remarks on surplus operands.  The other one has the same reports in
the same order, and one such remark for each call with surplus operands that it evaluates, at the
first evaluation of it. -/
theorem hand_built_same {ms : List Making} (hample : ∀ m ∈ ms, m.Ample) :
    let made := (assemble Making.perform ms).run.run ⟨.empty, []⟩
    let put := (assemble Making.byHand ms).run.run ⟨.empty, []⟩
    put.1 = made.1 ∧
      put.2.remarks = made.2.remarks.filter (!·.isSurplus) ∧
      made.2.remarks.filter (·.isSurplus) = put.2.forest.shapes.filterMap Shape.surplus? ∧
      ∀ limit ref policy input generator,
        let v : Visit := .start limit ref policy input generator
        let early := v.result made.2.forest
        let late := v.result put.2.forest
        late.1 = early.1 ∧ late.2.output = early.2.output ∧ late.2.input = early.2.input ∧
          late.2.generators = early.2.generators ∧ early.2.surplus = [] ∧
          early.2.reports.toList = late.2.reports.toList.filter (!·.remark.isSurplus) ∧
          ∃ calls, v.RemarksOnce put.2.forest calls := by
  intro made put
  obtain ⟨hsame, htwin⟩ := twin_assemble hample
  refine ⟨hsame, htwin.remarks, htwin.surplus, fun limit ref policy input generator => ?_⟩
  intro v early late
  have henv : (shearing htwin.forest).Like v.env v.env := .refl (fun _ => rfl) (fun _ => rfl) _
  have hearly : early = (late.1, late.2.shorn) :=
    shears_evalNode htwin.forest limit ref v.env v.env henv v.state
  rw [hearly]
  refine ⟨rfl, rfl, rfl, rfl, ?_, ?_, _, remarksOnce_of_start _ limit ref policy input generator⟩
  · simp [State.surplus, State.shorn]
  · simp [State.shorn]

/-- a number, a call that negates it and has one operand too many, and that call added to itself -/
def negatedMakings : List Making :=
  [.number (.zero false) .float, .call "neg" [.node ⟨0⟩, .node ⟨0⟩],
    .call "add" [.node ⟨1⟩, .node ⟨1⟩]]

theorem ample_negatedMakings : ∀ m ∈ negatedMakings, m.Ample := by
  have hample {name : String} {b : Builtin} {operands : List Ref}
      (hname : Operator.ofName name = .builtin b) (hleast : b.arity.least ≤ operands.length) :
      (Making.call name operands).Ample := by
    intro b' hb'
    rw [hname] at hb'
    cases hb'
    exact hleast
  simp only [negatedMakings, List.forall_mem_cons]
  exact ⟨trivial, hample (b := .neg) (by decide) (by decide), hample (b := .add) (by decide)
    (by decide), fun _ h => (nomatch h)⟩

/-- the call with one operand too many is evaluated twice and remarked on once -/
theorem hand_built_same_negatedMakings :
    let made := (assemble Making.perform negatedMakings).run.run ⟨.empty, []⟩
    let put := (assemble Making.byHand negatedMakings).run.run ⟨.empty, []⟩
    let v : Visit := .start 3 (.node ⟨2⟩) { strict := true } [] (.ofSeed 0)
    (∀ m ∈ negatedMakings, m.Ample) ∧
      made.2.remarks = [.surplusOperands "neg" 1 2] ∧ put.2.remarks = [] ∧
      (v.result put.2.forest).1 = (v.result made.2.forest).1 ∧
      (v.result made.2.forest).2.reports.toList = [] ∧
      (v.result put.2.forest).2.reports.toList = [⟨.caller, .surplusOperands "neg" 1 2⟩] ∧
      ∃ calls, v.RemarksOnce put.2.forest calls := by
  intro made put v
  obtain ⟨_, _, _, hruns⟩ := hand_built_same ample_negatedMakings
  obtain ⟨hvalue, _, _, _, _, _, hcalls⟩ := hruns 3 (.node ⟨2⟩) { strict := true } [] (.ofSeed 0)
  exact ⟨ample_negatedMakings, by decide, rfl, hvalue, by decide, by decide, hcalls⟩

end Abacus
