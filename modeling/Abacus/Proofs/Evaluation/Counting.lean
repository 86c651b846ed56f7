import Abacus.Proofs.Amount.Answers
import Abacus.Proofs.Evaluation.Assurance
import Abacus.Proofs.Forest.Making

/-!
# Counted operands

The operands of a call of a built-in operator are counted when the call is made, or, if it is put
together by hand, when it is first evaluated in a run.  Either way an operator is applied to enough
operands, and so an evaluation stops with faults of the program only, where numbers can be written.

* `Forest.Supplied`, `Forest.Sated`, `Forest.Checked`   calls with enough operands;
* `result_countOperands`       what counting gives;
* `Forest.surplus?`            the remark on a call with surplus operands;
* `reported_of_evalNode`       the faults of an evaluation are reported.
-/

namespace Abacus

open Run Growth

/-! ## Calls with enough operands -/

namespace Forest

/-- a node that is no call of a built-in operator, or has enough operands -/
def Supplied (f : Forest) (id : NodeId) : Prop :=
  ∀ node b ident operands checked, f.node? id = some node →
    node.shape = .call (.builtin b) ident operands checked → b.arity.least ≤ operands.length

/-- **The calls that were checked when they were made have enough operands.** -/
def Checked (f : Forest) : Prop :=
  ∀ id node b ident operands, f.node? id = some node →
    node.shape = .call (.builtin b) ident operands true → b.arity.least ≤ operands.length

theorem AllMade.checked {f : Forest} (hf : f.AllMade) : f.Checked := by
  intro id node b ident operands hnode hshape
  have hmade := hf id node hnode
  rw [hshape] at hmade
  cases hmade with
  | builtin hleast => exact hleast

def Sated (f : Forest) (id : NodeId) : Prop :=
  ∃ node b ident operands checked, f.node? id = some node ∧
    node.shape = .call (.builtin b) ident operands checked ∧ b.arity.least ≤ operands.length

theorem supplied_of_node {f : Forest} {id : NodeId} {node : Node} {b : Builtin}
    {ident : Option String} {operands : List Ref} {checked : Bool} (hnode : f.node? id = some node)
    (hshape : node.shape = .call (.builtin b) ident operands checked)
    (hleast : b.arity.least ≤ operands.length) : f.Supplied id := by
  intro node' b' ident' operands' checked' hnode' hshape'
  rw [hnode] at hnode'
  cases hnode'
  rw [hshape] at hshape'
  cases hshape'
  exact hleast

theorem Sated.supplied {f : Forest} {id : NodeId} (h : f.Sated id) : f.Supplied id := by
  obtain ⟨node, b, ident, operands, checked, hnode, hshape, hleast⟩ := h
  exact supplied_of_node hnode hshape hleast

end Forest

/-! ## Counting -/

/-- a call that is counted already is not counted again; else too few operands stop the run, and
surplus ones are reported -/
theorem result_countOperands (id : NodeId) (b : Builtin) (count : Int) (env : Env) (s : State) :
    (countOperands id b count env).result s =
      if (env.context, id) ∈ s.counted then (.ok (), s)
      else match checkOperands b count with
        | .error fault => (.error fault, s)
        | .ok none => (.ok (), { s with counted := (env.context, id) :: s.counted })
        | .ok (some r) => (.ok (), { s with
            counted := (env.context, id) :: s.counted
            reports := s.reports.push ⟨env.policy.channel, r⟩ }) := by
  unfold countOperands
  rw [result_bind_ok (result_get s)]
  dsimp only
  by_cases hmem : (env.context, id) ∈ s.counted
  · rw [if_pos hmem, if_pos (List.contains_iff_mem.2 hmem)]
    rfl
  · rw [if_neg hmem, if_neg fun hc => hmem (List.contains_iff_mem.1 hc)]
    rcases checkOperands b count with fault | _ | r
    · rfl
    · rfl
    · rfl

/-- the remark on a call put together by hand with more operands than its operator takes -/
def Shape.surplus? : Shape → Option Remark
  | .call (.builtin b) _ operands false =>
    match b.arity.most? with
    | some most =>
      if most < operands.length then some (.surplusOperands b.name most operands.length) else none
    | none => none
  | _ => none

theorem Shape.surplus?_function (ident : Option String) (operands : List Ref) (checked : Bool) :
    (Shape.call .custom ident operands checked).surplus? = none := rfl

def Forest.surplus? (f : Forest) (id : NodeId) : Option Remark :=
  (f.node? id).bind (·.shape.surplus?)

theorem Shape.isSurplus_of_surplus? {shape : Shape} {r : Remark} (h : shape.surplus? = some r) :
    r.isSurplus = true := by
  unfold surplus? at h
  split at h
  · split at h
    · split at h
      · cases h
        rfl
      · cases h
    · cases h
  · cases h

theorem checkOperands_of_least {b : Builtin} {operands : List Ref}
    (h : b.arity.least ≤ operands.length) (ident : Option String) :
    checkOperands b operands.length
      = .ok (Shape.call (.builtin b) ident operands false).surplus? := by
  rw [checkOperands, if_neg (by omega), Shape.surplus?]
  rcases b.arity.most? with _ | most
  · rfl
  · simp only [Int.ofNat_lt]
    split
    · rfl
    · rfl

theorem surplus?_of_checkOperands {f : Forest} {id : NodeId} {node : Node} {b : Builtin}
    {ident : Option String} {operands : List Ref} (hnode : f.node? id = some node)
    (hshape : node.shape = .call (.builtin b) ident operands false) {r : Option Remark}
    (h : checkOperands b operands.length = .ok r) : f.surplus? id = r := by
  rw [checkOperands_of_least (least_of_checkOperands h) ident] at h
  cases h
  rw [Forest.surplus?, hnode, Option.bind_some, hshape]

theorem least_of_most? {a : Arity} {n : Nat} (h : a.most? = some n) : a.least = n := by
  cases a <;> cases h <;> rfl

theorem Shape.surplus?_eq_some {shape : Shape} {r : Remark} (h : shape.surplus? = some r) :
    ∃ b ident operands, shape = .call (.builtin b) ident operands false ∧
      checkOperands b operands.length = .ok (some r) := by
  have hshape : ∃ b ident operands, shape = .call (.builtin b) ident operands false ∧
      b.arity.least ≤ operands.length := by
    unfold surplus? at h
    split at h
    · next b ident operands =>
      split at h
      · next most hmost =>
        split at h
        · next hlt => exact ⟨b, ident, operands, rfl, by rw [least_of_most? hmost]; omega⟩
        · cases h
      · cases h
    · cases h
  obtain ⟨b, ident, operands, rfl, hleast⟩ := hshape
  exact ⟨b, ident, operands, rfl, by rw [checkOperands_of_least hleast ident, h]⟩

theorem category_of_checkOperands {b : Builtin} {count : Int} {fault : Fault}
    (h : checkOperands b count = .error fault) : fault.category = .arity := by
  obtain ⟨_, rfl⟩ := checkOperands_eq_error h
  rfl

/-- an operator takes at most as many operands as it has, and at least as many as it needs -/
theorem least_le_usedOperands {b : Builtin} {operands : List Ref}
    (h : b.arity.least ≤ operands.length) : b.arity.least ≤ (usedOperands b operands).length := by
  unfold usedOperands
  rcases harity : b.arity with _ | _ | _ | _
  all_goals
    rw [harity] at h
    simp only [Arity.most?, Arity.least, List.length_take] at h ⊢
    omega

theorem exists_rule? {b : Builtin} (hlazy : b.isLazy = false) (hread : b ≠ .read)
    (hrand : b ≠ .rand) : ∃ rule, rule? b = some rule := by
  cases b with
  | read => exact absurd rfl hread
  | rand => exact absurd rfl hrand
  | print => cases hlazy
  | _ => exact ⟨_, rfl⟩

/-! ## Reported faults -/

theorem placesFault?_of_render {places : Int} {value : Value} {fault : Fault}
    (h : value.render places = .error fault) : placesFault? places = some fault := by
  unfold Value.render at h
  split at h
  · cases h
  · unfold Number.render at h
    split at h
    · cases h
    · split at h
      · next hplaces =>
        cases h
        exact hplaces
      · cases h

theorem placesFault?_eq_none {places : Nat} (h : places ≤ mostPlaces) :
    placesFault? places = none := by
  have hmost : mostPlaces ≤ largestPlaces := by decide
  unfold placesFault?
  rw [if_neg (by omega), if_neg (by omega), if_neg (by omega)]

def satedAssurance {f : Forest} (hf : f.Checked) (root : Nat → Policy → Prop) (E : Fault → Prop)
    (hreported : ∀ φ : Fault, φ.isReported = true → E φ)
    (hrender : ∀ {n : Nat} {p : Policy} {value : Value} {φ : Fault}, root n p →
      value.render p.places = .error φ → E φ) : Assurance f where
  root := root
  state s := ∀ key ∈ s.counted, f.Sated key.2
  number _ := True
  fault := E
  counted b n := b.arity.least ≤ n
  write _ _ hs := hs
  report _ _ _ _ _ hs := hs
  next _ hs := hs
  active _ _ hs := hs
  leaf _ _ := trivial
  reported := hreported
  render := hrender
  coerce _ hvalue :=
    ensures_coerce (fun s t ht _ hs => by rwa [ht]) (fun _ _ => trivial) _ _ _ hvalue
  checked hnode hshape := hf _ _ _ _ _ hnode hshape
  count {id node b ident operands env} hnode hshape _ := by
    intro s hs
    rw [result_countOperands]
    by_cases hmem : (env.context, id) ∈ s.counted
    · rw [if_pos hmem]
      exact ⟨hs, (hs _ hmem).supplied node b ident operands false hnode hshape⟩
    · rw [if_neg hmem]
      rcases hcheck : checkOperands b operands.length with fault | r
      · refine ⟨hs, hreported fault ?_⟩
        rw [Fault.isReported, category_of_checkOperands hcheck]
      · have hleast := least_of_checkOperands hcheck
        have hsated : f.Sated id := ⟨node, b, ident, operands, false, hnode, hshape, hleast⟩
        have hcounted : ∀ key ∈ (env.context, id) :: s.counted, f.Sated key.2 :=
          List.forall_mem_cons.2 ⟨hsated, hs⟩
        cases r with
        | none => exact ⟨hcounted, hleast⟩
        | some r => exact ⟨hcounted, hleast⟩
  apply {id node b ident operands checked env args} hnode hshape hcounted hlength _ := by
    have hnever : ∀ rule φ, rule? b = some rule → rule.apply args = .error φ → E φ := by
      intro rule φ hrule hφ
      have henough := least_le_usedOperands hcounted
      rw [← hlength, ← least_of_rule? hrule] at henough
      obtain ⟨v, hv⟩ := Rule.exists_apply (answers_of_rule? hrule) henough
      rw [hv] at hφ
      cases hφ
    have hstate : ∀ s t : State, t.counted = s.counted → t.surplus = s.surplus →
        (∀ key ∈ s.counted, f.Sated key.2) → ∀ key ∈ t.counted, f.Sated key.2 :=
      fun s t ht _ hs => by rwa [ht]
    exact ensures_applyBuiltin hstate (hreported _ rfl) (fun _ _ => trivial)
      (fun _ _ _ _ => trivial) hnever env

section
variable {f : Forest} {s : State}

/-- the calls that are counted after an evaluation have enough operands, if those counted before it
have -/
theorem sated_of_evalNode (hf : f.Checked) (hs : ∀ key ∈ s.counted, f.Sated key.2) (limit : Nat)
    (ref : Ref) (env : Env) : ∀ key ∈ ((evalNode f limit ref env).result s).2.counted,
      f.Sated key.2 :=
  ((satedAssurance hf (fun _ _ => True) (fun _ => True) (fun _ _ => trivial)
    fun _ _ => trivial).evalNode limit ref env (fun _ _ _ => trivial) s hs).1

/-- the calls that are counted where an evaluation inside begins have enough operands, too -/
theorem sated_of_visits (hf : f.Checked) {v w : Visit} (hs : ∀ key ∈ v.state.counted, f.Sated key.2)
    (h : Visits f v w) : ∀ key ∈ w.state.counted, f.Sated key.2 :=
  ((satedAssurance hf (fun _ _ => True) (fun _ => True) (fun _ _ => trivial)
    fun _ _ => trivial).begins_of_visits h (fun _ _ _ => trivial) hs).2

/-- **The faults of an evaluation are reported**, where calls that are not counted any more have
enough operands, and numbers can be written with the places that all roots ask for. -/
theorem reported_of_evalNode (hf : f.Checked) {limit : Nat} {ref : Ref} {env : Env} {t : State}
    {fault : Fault} (henv : env.Rooted fun _ p => placesFault? p.places = none)
    (hs : ∀ key ∈ s.counted, f.Sated key.2)
    (h : (evalNode f limit ref env).result s = (.error fault, t)) : fault.isReported = true := by
  have hrender {n : Nat} {p : Policy} {value : Value} {φ : Fault}
      (hp : placesFault? p.places = none) (hvalue : value.render p.places = .error φ) :
      φ.isReported = true := by
    rw [placesFault?_of_render hvalue] at hp
    cases hp
  exact (((satedAssurance hf (fun _ p => placesFault? p.places = none)
    (fun φ => φ.isReported = true) (fun _ h => h) fun {n p _ _} hp hvalue =>
      hrender (n := n) hp hvalue).evalNode limit ref env henv).error hs h).2

end

end Abacus
