import Abacus.Program
import Abacus.Proofs.Evaluation.Counting
import Abacus.Proofs.Guard
import Abacus.Proofs.Reports

/-!
# Kinds

The value of a binding with a declared kind is of that kind, or missing; a floating-point number that
is made an integer is reported, once, and nothing else is.  A program without floating-point literals,
declared kinds and operators that make such numbers of nothing has integers only, and no such report.

* `Value.retagged`       a value as a declared kind has it, and `lossReports` what is reported of it;
* `Visit.Retags`         an evaluation with the value of another one as a declared kind has it;
* `retags_of_looksUp`    so is that of a name, or of a call, whose binding declares a kind;
* `Forest.Integral`      a tree in which nothing is floating-point;
* `integralAssurance`    what each step of its evaluation assures;
* `kinds_sound`          **declared kinds are kept, and integers stay integers**.
-/

namespace Abacus

open Run Growth

/-! ## Declared kinds -/

/-- **A value as a declared kind has it** -/
def Value.retagged (K : Kind) (value : Value) : Value :=
  value.map fun v => if v.kind = K then v else .make v.amount K

/-- **What is reported of a value that a declared kind changes**: a floating-point number that is
made an integer -/
def lossReports (channel : Channel) (K : Kind) (ident : String) : Value → List Report
  | some v => if v.kind = .float ∧ K = .int then [⟨channel, .precisionLoss v.amount ident⟩] else []
  | none => []

section
variable {K : Kind} {value : Value}

theorem Value.retagged_of (K : Kind) (value : Value) : (value.retagged K).Of (·.kind = K) := by
  rcases value with _ | v
  · exact Value.of_none
  · refine Value.of_some ?_
    dsimp only
    split
    · next hkind => exact hkind
    · exact Number.kind_make _ _

theorem result_coerce_declared (env : Env) (K : Kind) (ident : String) (value : Value) (s : State) :
    (coerce env (some K) ident value).result s = (.ok (value.retagged K), { s with
      reports := s.reports ++ lossReports env.policy.channel K ident value }) := by
  rcases value with _ | ⟨kind, amount⟩
  · simp [coerce, Value.retagged, lossReports]
  · cases kind with
    | int =>
      cases K with
      | int => simp [coerce, Value.retagged, lossReports]
      | float => simp [coerce, Value.retagged, lossReports]
    | float =>
      cases K with
      | int =>
        show (Run.report env (.precisionLoss amount ident) >>= fun _ =>
          (pure (some (Number.make amount .int)) : Run Value)).result s = _
        rw [result_bind_ok (result_report env _ s)]
        simp [Value.retagged, lossReports]
      | float => simp [coerce, Value.retagged, lossReports]

end

/-! ## References and calls -/

theorem policy_of_lookup? {f : Forest} {ident : String} {env owner : Env} {found : Env.Found}
    (h : env.lookup? f ident = some (found, owner)) : owner.policy = env.policy := by
  induction env using Env.induction with
  | onRoot n policy => cases h
  | onFrame n label parameters table parent _ ih =>
    rw [Env.lookup?] at h
    split at h
    · cases h
      rfl
    · exact ih h

/-- **The value of an evaluation is that of another one as a declared kind has it**: it begins the
other one and nothing else, and either it stops, if it begins that at all just as that stops, or it
has the value of that as the kind has it, and reports what the kind changes. -/
def Visit.Retags (f : Forest) (w : Visit) (body : Ref) (K : Kind) (ident : String)
    (channel : Channel) : Prop :=
  (∃ fault, (w.result f).1 = .error fault ∧ ∀ p, Begins f w p → (p.result f).1 = .error fault) ∨
    ∃ p underlying, (∀ q, Begins f w q ↔ q = p) ∧ p.ref = body ∧ (p.result f).1 = .ok underlying ∧
      (w.result f).1 = .ok (underlying.retagged K) ∧
      (w.result f).2.reports
        = (p.result f).2.reports ++ lossReports channel K ident underlying

section
variable {f : Forest} {w p : Visit} {K : Kind} {ident : String} {env : Env} {s : State}
  {x : Run Value} {marks : List Mark → List Mark}

theorem retags_of_nothing {body : Ref} {channel : Channel} {fault : Fault}
    (hresult : (w.result f).1 = .error fault) (hnone : ∀ q, ¬ Begins f w q) :
    w.Retags f body K ident channel :=
  Or.inl ⟨fault, hresult, fun q hq => absurd hq (hnone q)⟩

theorem retags_of_coerce (hbegins : ∀ q, Begins f w q ↔ q = p)
    (hx : x.result s = ((p.result f).1, (p.result f).2.remarked marks))
    (hresult : w.result f = (x >>= coerce env (some K) ident).result s) :
    w.Retags f p.ref K ident env.policy.channel := by
  rcases hp : p.result f with ⟨fault | underlying, t⟩
  · rw [hp] at hx
    rw [result_bind_error hx] at hresult
    refine Or.inl ⟨fault, by rw [hresult], fun q hq => ?_⟩
    rw [(hbegins q).1 hq, hp]
  · rw [hp] at hx
    rw [result_bind_ok hx, result_coerce_declared] at hresult
    refine Or.inr ⟨p, underlying, hbegins, rfl, by rw [hp], by rw [hresult], ?_⟩
    rw [hresult, hp]
    rfl

end

section
variable {f : Forest} {w : Visit} {limit : Nat} {id : NodeId} {ident : String} {inner owner : Env}
  {s : State} {bid : BindingId} {b : Binding} {K : Kind}
  (hfound : inner.lookup? f ident = some (.binding bid b, owner)) (hkind : b.kind = some K)
include hfound hkind

theorem retags_of_symbol
    (hresult : w.result f = (evalShape f (evalNode f limit) id (.symbol ident) inner).result s)
    (hbegins : ∀ q, Begins f w q ↔ Opens f limit id (.symbol ident) inner s q) :
    w.Retags f b.body K b.ident inner.policy.channel := by
  rcases hrole : b.role with _ | parameters
  · have hvalue : w.result f
        = (findValue (evalNode f limit) bid b owner >>= coerce owner (some K) b.ident).result s := by
      rw [hresult, ← hkind]
      simp only [evalShape, evalSymbol, hfound, hrole, evalVariable_eq]
    by_cases hfree : owner.policy.guarded = true → (bid, owner.serial) ∉ s.active
    · have honly (q : Visit) : Begins f w q ↔ q = ⟨limit, b.body, owner, s.finding owner bid⟩ :=
        (hbegins q).trans (opens_iff_eq fun _ _ _ => part_variable_iff hfound hrole hfree)
      obtain ⟨marks, hmarks⟩ := @findValue_free (evalNode f limit) owner bid b s hfree
      rw [← policy_of_lookup? hfound]
      exact retags_of_coerce honly hmarks hvalue
    · obtain ⟨hguard, hactive⟩ := Classical.not_imp.1 hfree
      rw [result_bind_error (findValue_active hguard _ b (not_not.1 hactive))] at hvalue
      refine retags_of_nothing (by rw [hvalue]) fun q hq => ?_
      exact hfree ((part_symbol_iff hfound).1 ((hbegins q).1 hq).2).2.1
  · have hvalue : w.result f = (.error (.notVariable ident), s) := by
      rw [hresult]
      simp only [evalShape, evalSymbol, hfound, hrole]
      rfl
    refine retags_of_nothing (by rw [hvalue]) fun q hq => ?_
    cases hrole.symm.trans ((part_symbol_iff hfound).1 ((hbegins q).1 hq).2).1

theorem retags_of_call {operands : List Ref} {checked : Bool}
    (hresult : w.result f = (evalShape f (evalNode f limit) id
      (.call .custom (some ident) operands checked) inner).result s)
    (hbegins : ∀ q, Begins f w q ↔
      Opens f limit id (.call .custom (some ident) operands checked) inner s q) :
    w.Retags f b.body K b.ident inner.policy.channel := by
  rcases hrole : b.role with _ | parameters
  · have hvalue : w.result f = (.error (.notFunction ident), s) := by
      rw [hresult]
      simp only [evalShape, evalCall, hfound, hrole]
      rfl
    refine retags_of_nothing (by rw [hvalue]) fun q hq => ?_
    obtain ⟨_, _, hrole', _⟩ := (part_function_iff hfound).1 ((hbegins q).1 hq).2
    cases hrole.symm.trans hrole'
  · have hcall : w.result f
        = (applyFunction (evalNode f limit) b parameters operands owner inner).result s := by
      rw [hresult]
      simp only [evalShape, evalCall, hfound, hrole]
    rcases hcheck : (checkArguments inner b.ident parameters.length operands.length).result s
      with ⟨fault | ⟨⟩, s₁⟩
    · rw [applyFunction, result_bind_error hcheck] at hcall
      refine retags_of_nothing (by rw [hcall]) fun q hq => ?_
      obtain ⟨_, _, hrole', hcheck', _⟩ := (part_function_iff hfound).1 ((hbegins q).1 hq).2
      cases hrole.symm.trans hrole'
      cases hcheck.symm.trans hcheck'
    · have honly (q : Visit) : Begins f w q ↔ q = ⟨limit, b.body,
          .frame s₁.next (some b.ident) (Env.bind inner parameters operands) none owner,
          { s₁ with next := s₁.next + 1 }⟩ :=
        (hbegins q).trans (opens_iff_eq fun _ _ _ => part_body_iff hfound hrole hcheck)
      rw [applyFunction, result_bind_ok hcheck, result_bind_ok (result_fresh s₁), hkind] at hcall
      have hbody : (evalNode f limit b.body (.frame s₁.next (some b.ident)
          (Env.bind inner parameters operands) none owner)).result { s₁ with next := s₁.next + 1 }
          = (_, State.remarked (fun marks => marks) _) := rfl
      exact retags_of_coerce honly hbody hcall

end

/-- **The value of a name, or of a call, whose binding declares a kind** is that of the body of the
binding as the kind has it. -/
theorem retags_of_looksUp {f : Forest} {w : Visit} {id : NodeId} {ident : String}
    {inner owner : Env} {s : State} {bid : BindingId} {b : Binding} {K : Kind}
    (hlooks : w.LooksUp f id ident inner s)
    (hfound : inner.lookup? f ident = some (.binding bid b, owner)) (hkind : b.kind = some K) :
    w.Retags f b.body K b.ident inner.policy.channel := by
  obtain ⟨limit, ref, env, s₀⟩ := w
  obtain ⟨href, hlimit, node, hnode, hlookedUp, henter⟩ := hlooks
  dsimp only at href hlimit henter
  obtain ⟨limit, rfl⟩ := Nat.exists_eq_succ_of_ne_zero hlimit
  subst href
  have hresult : (⟨limit + 1, .node id, env, s₀⟩ : Visit).result f
      = (evalShape f (evalNode f limit) id node.shape inner).result s := by
    rw [Visit.result, evalNode_node hnode, result_bind_ok henter]
  have hbegins (q : Visit) : Begins f ⟨limit + 1, .node id, env, s₀⟩ q ↔
      Opens f limit id node.shape inner s q := begins_iff_opens hnode henter
  rcases hshape : node.shape with v | name | ⟨b | _, name, operands, checked⟩ | ⟨_, _, _⟩
  · rw [hshape] at hlookedUp
    cases hlookedUp
  · rw [hshape] at hlookedUp hresult hbegins
    cases hlookedUp
    exact retags_of_symbol hfound hkind hresult hbegins
  · rw [hshape] at hlookedUp
    cases hlookedUp
  · rw [hshape] at hlookedUp hresult hbegins
    cases hlookedUp
    exact retags_of_call hfound hkind hresult hbegins
  · rw [hshape] at hlookedUp
    cases hlookedUp

/-! ## Integers alone -/

/-- **A tree in which nothing is floating-point**: no literal, no declared kind, and no call of the
two operators that make such numbers of nothing -/
structure Forest.Integral (f : Forest) : Prop where
  literals : ∀ id node v, f.node? id = some node → node.shape = .number v → v.kind = .int
  sealed : f.Sealed
  kinds : ∀ id b, f.binding? id = some b → b.kind ≠ some .float

theorem promote_of_integers {args : List Number} (h : ∀ v ∈ args, v.kind = .int) :
    promote args = .int := by
  rcases Rule.kind_promote args with hint | ⟨a, ha, hkind⟩
  · exact hint
  · rw [← hkind, h a ha]

theorem kind_of_rule {rule : Rule} {args : List Number} {v : Number}
    (hargs : ∀ a ∈ args, a.kind = .int) (h : rule.apply args = .ok v) : v.kind = .int := by
  obtain ⟨x, k, rfl, hk⟩ := Rule.apply_eq_ok h
  rw [Number.kind_make]
  rcases hk with rfl | ⟨a, ha, rfl⟩
  · rfl
  · exact hargs a ha

def State.Lossless (s : State) : Prop := ∀ r ∈ s.reports, r.remark.concern ≠ .precisionLoss

theorem State.Lossless.push {s : State} {r : Report} (h : s.Lossless)
    (hr : r.remark.concern ≠ .precisionLoss) :
    State.Lossless { s with reports := s.reports.push r } := by
  intro r' hr'
  rcases Array.mem_push.1 hr' with hr' | rfl
  · exact h r' hr'
  · exact hr

/-- **Where nothing is floating-point, the evaluation makes integers of integers**, and makes no
integer of anything else. -/
def integralAssurance {f : Forest} (hf : f.Integral) : Assurance f where
  root _ _ := True
  state := State.Lossless
  number v := v.kind = .int
  fault _ := True
  counted _ _ := True
  write _ _ hs := hs
  report _ _ _ hr _ hs := hs.push hr
  next _ hs := hs
  active _ _ hs := hs
  leaf hnode hshape := hf.literals _ _ _ hnode hshape
  reported _ _ := trivial
  render _ _ := trivial
  coerce {id b env value} hb hvalue := by
    intro s hs
    rcases hkind : b.kind with _ | K
    · exact ⟨hs, hvalue⟩
    · have hK : K = .int := by
        cases K with
        | int => rfl
        | float => exact absurd hkind (hf.kinds id b hb)
      subst hK
      rw [result_coerce_declared]
      refine ⟨?_, Value.retagged_of .int value⟩
      have hnone : lossReports env.policy.channel .int b.ident value = [] := by
        rcases value with _ | v
        · rfl
        · simp [lossReports, hvalue v rfl]
      have hsame : s.reports ++ ([] : List Report) = s.reports := by simp
      rw [hnone, hsame]
      exact hs
  checked _ _ := trivial
  count {id node b ident operands env} _ _ _ := by
    intro s hs
    rw [result_countOperands]
    split
    · exact ⟨hs, trivial⟩
    · split
      · exact ⟨hs, trivial⟩
      · exact ⟨hs, trivial⟩
      · next r hcheck =>
        obtain ⟨_, _, _, rfl⟩ := checkOperands_eq_some hcheck
        exact ⟨hs.push (by simp [Remark.concern]), trivial⟩
  apply {id node b ident operands checked env args} hnode hshape _ _ hargs := by
    obtain ⟨hread, hrand⟩ := hf.sealed _ _ _ _ _ _ hnode hshape
    unfold applyBuiltin
    split
    · exact absurd rfl hread
    · exact absurd rfl hrand
    · split
      · exact ensures_bind (ensures_lift (fun v hv => kind_of_rule hargs hv) fun _ _ => trivial)
          fun v hv => ensures_pure (Value.of_some hv)
      · exact ensures_pure Value.of_none

/-- **Declared kinds are kept, and integers stay integers.**  The value of a name, or of a call,
whose binding declares a kind is that of the body of the binding as the kind has it: missing, or of
that kind; and what that adds to the reports is one report on a floating-point number that is made
an integer, and nothing else.  Where nothing in the tree is floating-point, every value inside a run
is an integer or missing, and neither the planting of the tree nor a run of it makes such a report. -/
theorem kinds_sound (f : Forest) :
    (∀ (w : Visit) (id : NodeId) (ident : String) (inner owner : Env) (s : State) (bid : BindingId)
      (b : Binding) (K : Kind), w.LooksUp f id ident inner s →
      inner.lookup? f ident = some (.binding bid b, owner) → b.kind = some K →
      w.Retags f b.body K b.ident inner.policy.channel ∧
        ∀ value, (w.result f).1 = .ok value → value.Of (·.kind = K)) ∧
    (f.Integral →
      (∀ v w : Visit, v.state.Lossless → Visits f v w → (w.result f).2.Lossless ∧
        ∀ value, (w.result f).1 = .ok value → value.Of (·.kind = .int)) ∧
      ∀ (source : String) (root : NodeId), Sown source root f →
        ∀ (policy : Policy) (input : List Char) (generator : Generator),
          ∀ r ∈ (runSource policy source input generator).remarks, r.concern ≠ .precisionLoss) := by
  refine ⟨fun w id ident inner owner s bid b K hlooks hfound hkind => ?_, fun hf => ⟨?_, ?_⟩⟩
  · have hretags := retags_of_looksUp hlooks hfound hkind
    refine ⟨hretags, fun value hvalue => ?_⟩
    rcases hretags with ⟨fault, hfault, _⟩ | ⟨p, underlying, _, _, _, hresult, _⟩
    · rw [hfault] at hvalue
      cases hvalue
    · rw [hresult] at hvalue
      cases hvalue
      exact Value.retagged_of K underlying
  · intro v w hs hvisits
    obtain ⟨hrooted, hw⟩ :=
      (integralAssurance hf).begins_of_visits hvisits (fun _ _ _ => trivial) hs
    have hruns := (integralAssurance hf).evalNode w.limit w.ref w.env hrooted
    refine ⟨(hruns w.state hw).1, fun value hvalue => ?_⟩
    exact (hruns.ok hw (Prod.ext hvalue rfl)).2
  · intro source root hsown policy input generator r hr
    obtain ⟨remarks, hplanted⟩ := hsown
    simp only [runSource, hplanted] at hr
    rcases List.mem_append.1 hr with hr | hr
    · exact (ofTree_of_plantSource hplanted r hr).concern.2
    · obtain ⟨report, hreport, rfl⟩ := List.mem_map.1 hr
      have hruns := (integralAssurance hf).evalNode depthLimit (.node root) (.root 0 policy)
        (fun _ _ _ => trivial) (.start input generator) (fun _ h => nomatch h)
      exact hruns.1 report (Array.mem_toList_iff.1 hreport)

/-- a variable declared an integer whose value is none -/
def narrowedSource : String := "(let ((x 1.5 : int)) x)"

def narrowedForest : Forest where
  nodes := #[⟨.number (.make (.ofNumeral ['1', '.', '5']) .float), none, some ⟨1⟩⟩,
    ⟨.symbol "x", some ⟨0⟩, none⟩]
  tables := #[⟨[⟨0⟩], none, some ⟨1⟩⟩]
  bindings := #[⟨"x", some .int, .node ⟨0⟩, .value⟩]

theorem parse_narrowed : parseForm narrowedSource.toList
    = .ok (.scoped [.value "x" (.numeral .float ['1', '.', '5']) (some "int")] (.symbol "x")) := by
  with_unfolding_all rfl

theorem sown_narrowed : Sown narrowedSource ⟨1⟩ narrowedForest := by
  refine ⟨[], ?_⟩
  unfold plantSource
  rw [parse_narrowed]
  rfl

def integerSource : String := "(sqrt 2)"

def integerForest : Forest where
  nodes := #[⟨.number (.make (.ofNumeral ['2']) .int), none, some ⟨1⟩⟩,
    ⟨.call (.builtin .sqrt) none [.node ⟨0⟩] true, none, none⟩]
  tables := #[]
  bindings := #[]

theorem parse_integer :
    parseForm integerSource.toList = .ok (.call "sqrt" [.numeral .int ['2']]) := by
  with_unfolding_all rfl

theorem sown_integer : Sown integerSource ⟨1⟩ integerForest := by
  refine ⟨[], ?_⟩
  unfold plantSource
  rw [parse_integer]
  rfl

theorem integral_integer : integerForest.Integral where
  literals := by
    rintro ⟨i⟩ node v hnode hshape
    rcases i with _ | _ | i
    · cases hnode
      cases hshape
      rfl
    · cases hnode
      cases hshape
    · cases hnode
  sealed := by
    rintro ⟨i⟩ node b ident operands checked hnode hshape
    rcases i with _ | _ | i
    · cases hnode
      cases hshape
    · cases hnode
      cases hshape
      exact ⟨by decide, by decide⟩
    · cases hnode
  kinds := by
    rintro ⟨i⟩ b hb
    cases hb

/-- the variable is an integer, which is reported; and the root of an integer is one -/
theorem kinds_sound_narrowed :
    let v := Visit.start 2 (.node ⟨1⟩) { strict := true } [] (.ofSeed 0)
    let inner : Env := .frame 1 none [] (some ⟨0⟩) v.env
    Sown narrowedSource ⟨1⟩ narrowedForest ∧
      v.LooksUp narrowedForest ⟨1⟩ "x" inner { v.state with next := 2 } ∧
      v.Retags narrowedForest (.node ⟨0⟩) .int "x" .caller ∧
      Sown integerSource ⟨1⟩ integerForest ∧ integerForest.Integral ∧
      (v.result integerForest).2.Lossless ∧
      (∀ value, (v.result integerForest).1 = .ok value → value.Of (·.kind = .int)) ∧
      ∀ r ∈ (runSource { strict := true } integerSource [] (.ofSeed 0)).remarks,
        r.concern ≠ .precisionLoss := by
  intro v inner
  have hlooks : v.LooksUp narrowedForest ⟨1⟩ "x" inner { v.state with next := 2 } :=
    ⟨rfl, by decide, _, rfl, rfl, rfl⟩
  have hfound : inner.lookup? narrowedForest "x"
      = some (.binding ⟨0⟩ ⟨"x", some .int, .node ⟨0⟩, .value⟩, inner) := rfl
  obtain ⟨hretags, _⟩ := (kinds_sound narrowedForest).1 v ⟨1⟩ "x" inner inner _ ⟨0⟩ _ .int hlooks
    hfound rfl
  obtain ⟨hvisits, hruns⟩ := (kinds_sound integerForest).2 integral_integer
  obtain ⟨hlossless, hvalues⟩ := hvisits v v (fun _ h => nomatch h) .refl
  exact ⟨sown_narrowed, hlooks, hretags, sown_integer, integral_integer, hlossless, hvalues,
    hruns integerSource ⟨1⟩ sown_integer { strict := true } [] (.ofSeed 0)⟩

end Abacus
