import Abacus.Proofs.Evaluation.Abreast

/-!
# Strict and lenient runs

A name without a meaning stops a strict run and is reported in a lenient one.  Up to the first such
name both runs do the same.

* `State.firstUnresolved?`   the first report of a name without a meaning;
* `Visit.Misses`             an evaluation that does nothing but report such a name;
* `strict_lenient`           how the two runs simulate each other.
-/

namespace Abacus

open Run

/-! ## Reports of names without a meaning -/

def State.firstUnresolved? (s : State) : Option Report :=
  s.reports.toList.find? (·.remark.concern = .unresolvedSymbol)

/-- **An evaluation that does nothing but report a name without a meaning**: its node looks the name
up in a state, finds nothing, and reports that in this very state. -/
structure Visit.Misses (f : Forest) (v : Visit) (ident : String) (s : State) (r : Report) : Prop where
  lookup : ∃ id inner, v.LooksUp f id ident inner s ∧ inner.lookup? f ident = none
  remark : r.remark = .undefinedSymbol ident ∨ r.remark = .undefinedFunction ident
  result : v.result f = (.ok none, { s with reports := s.reports.push r })

theorem Visit.Misses.concern {f : Forest} {v : Visit} {ident : String} {s : State} {r : Report}
    (h : v.Misses f ident s r) : r.remark.concern = .unresolvedSymbol := by
  rcases h.remark with hr | hr
  · rw [hr]
    rfl
  · rw [hr]
    rfl

theorem steady_unreported : Steady (fun p => p.strict = true)
    (fun s t => s.firstUnresolved? = none → t.firstUnresolved? = none) where
  refl _ h := h
  trans h h' hs := h' (h hs)
  input _ h := h
  output _ _ h := h
  report s p r hp hr h := by
    have hconcern : r.concern ≠ .unresolvedSymbol := fun hc => by
      rw [hp] at hr
      cases hr hc
    unfold State.firstUnresolved? at h ⊢
    rw [Array.toList_push, List.find?_append, h]
    simp [hconcern]
  generators _ _ h := h
  counted _ _ h := h
  next _ h := h
  mark _ h := h

theorem firstUnresolved?_of_next {s t : State} {r : Report} (hs : s.firstUnresolved? = none)
    (hr : r.remark.concern = .unresolvedSymbol)
    (hstarts : s.reports.toList ++ [r] <+: t.reports.toList) : t.firstUnresolved? = some r := by
  obtain ⟨later, hlater⟩ := hstarts
  unfold State.firstUnresolved? at hs ⊢
  rw [← hlater, List.find?_append, List.find?_append, hs]
  simp [hr]

/-! ## The strict run beside the lenient one -/

theorem stops_strict (policy : Policy) :
    Stops (fun fault => ∃ ident, fault = .unresolved ident) id
      { policy with strict := true } { policy with strict := false } :=
  .strict (p := { policy with strict := true }) rfl (fun ident => ⟨ident, rfl⟩) rfl

theorem evalShape_unresolved {f : Forest} {shape : Shape} {ident : String}
    (h : shape.lookedUp? = some ident) :
    ∃ r, (r = .undefinedSymbol ident ∨ r = .undefinedFunction ident) ∧
      ∀ ev id env, env.lookup? f ident = none →
        evalShape f ev id shape env = unresolved env ident r := by
  unfold Shape.lookedUp? at h
  split at h
  · cases h
    refine ⟨.undefinedSymbol ident, Or.inl rfl, ?_⟩
    intro ev id env hnone
    rw [evalShape, evalSymbol, hnone]
  · cases h
    refine ⟨.undefinedFunction ident, Or.inr rfl, ?_⟩
    intro ev id env hnone
    simp only [evalShape, evalCall, hnone]
  · cases h

theorem OwnFault.unresolved {f : Forest} {shape : Shape} {env : Env} {s : State} {ident : String}
    (h : OwnFault f shape env s (.unresolved ident)) : shape.lookedUp? = some ident ∧
      env.policy.strict = true ∧ env.lookup? f ident = none := by
  cases h with
  | undefinedSymbol hstrict hnone => exact ⟨rfl, hstrict, hnone⟩
  | undefinedFunction hstrict hnone => exact ⟨rfl, hstrict, hnone⟩
  | plain hplain => exact absurd rfl hplain.1

/-- **Where a strict evaluation fails at a name, the lenient one beside it reports the name.** -/
theorem misses_of_fails {f : Forest} {cut : Fault → Prop} {v w : Visit} {ident : String}
    (h : v.Fails f (.unresolved ident)) (hbeside : v.Beside cut id w) :
    ∃ s r, w.Misses f ident s r ∧ r.channel = w.env.policy.channel ∧
      v.result f = (.error (.unresolved ident), s) := by
  cases h with
  | @node limit id node env inner s s₁ _ hnode henter hown =>
    obtain ⟨limit', ref', env', s'⟩ := w
    obtain ⟨hlimit, href, henv, hstate⟩ := hbeside
    dsimp only at hlimit href henv hstate
    subst hlimit href hstate
    obtain ⟨hlooked, hstrict, hnone⟩ := hown.unresolved
    obtain ⟨r, hr, hshape⟩ := evalShape_unresolved (f := f) hlooked
    rw [result_enter] at henter
    cases henter
    have hinner := henv.push (n := s.next) (fun _ => rfl) (f.tablesOf node).reverse
    have hnone' := hinner.lookup?_none hnone
    have henter' := result_enter f node env' s
    refine ⟨_, ⟨env'.policy.channel, r⟩,
      ⟨⟨id, _, ⟨rfl, by simp, node, hnode, hlooked, henter'⟩, hnone'⟩, hr, ?_⟩, rfl, ?_⟩
    · show (evalNode f (limit + 1) (.node id) env').result s = _
      rw [evalNode_node hnode, result_bind_ok henter', hshape _ _ _ hnone', unresolved,
        hinner.policy.lenient, if_neg (by simp), result_bind_ok (result_report _ _ _),
        Env.policy_push, result_pure]
    · rw [Visit.result, evalNode_node hnode, result_bind_ok (result_enter f node env s),
        hshape _ _ _ hnone, unresolved, if_pos hstrict, result_throw]

/-! ## The two runs -/

theorem beside_start (limit : Nat) (ref : Ref) (policy : Policy) (input : List Char)
    (generator : Generator) :
    (Visit.start limit ref { policy with strict := true } input generator).Beside
      (fun fault => ∃ ident, fault = .unresolved ident) id
      (Visit.start limit ref { policy with strict := false } input generator) :=
  ⟨rfl, rfl, .root rfl (stops_strict policy), rfl⟩

/-- **A strict run that stops at a name** stops where the lenient run makes its first report of a
name without a meaning. -/
theorem misses_of_unresolved {f : Forest} {strict lenient : Visit} {cut : Fault → Prop}
    {ident : String} {t : State} (hstart : strict.state.firstUnresolved? = none)
    (henv : Env.Like (fun p q => p = q ∧ p.strict = true) Eq strict.env strict.env)
    (hbeside : strict.Beside cut id lenient)
    (h : strict.result f = (.error (.unresolved ident), t)) :
    ∃ v s r, Visits f lenient v ∧ v.Misses f ident s r ∧ s.firstUnresolved? = none ∧
      s.reports.toList ++ [r] <+: (lenient.result f).2.reports.toList ∧
      t.output = s.output ∧ t.input = s.input ∧ t.reports = s.reports := by
  obtain ⟨v, hvisits, hfails⟩ := origin_of_fault h
  obtain ⟨w, hvisits', hw⟩ := visits_beside hvisits hbeside
  obtain ⟨s, r, hmisses, -, hstops⟩ := misses_of_fails hfails hw
  obtain ⟨t', ht', hsame⟩ := fault_of_visits hvisits hstops
  rw [h] at ht'
  cases ht'
  have hreports : t.reports = s.reports := (congrArg State.reports hsame).symm
  have hquiet : t.firstUnresolved? = none := by
    have hkept := steady_unreported.evalNode f strict.limit strict.ref henv strict.state hstart
    rw [← Visit.result, h] at hkept
    exact hkept
  refine ⟨w, s, r, hvisits', hmisses, ?_, ?_, (congrArg State.output hsame).symm,
    (congrArg State.input hsame).symm, hreports⟩
  · unfold State.firstUnresolved? at hquiet ⊢
    rw [← hreports]
    exact hquiet
  · have hstarts := (extends_of_visits hvisits').reports
    rw [hmisses.result, Array.toList_push] at hstarts
    exact hstarts

/-- **Strict and lenient runs simulate each other.**  Without a report of a name that has no meaning
in the lenient run, the strict run is the same run.  With one, the strict run stops at the name of
the first such report, in the state in which the lenient run makes it; and it stops at a name only
then. -/
theorem strict_lenient (f : Forest) (limit : Nat) (ref : Ref) (policy : Policy)
    (input : List Char) (generator : Generator) :
    let strict := Visit.start limit ref { policy with strict := true } input generator
    let lenient := Visit.start limit ref { policy with strict := false } input generator
    ((lenient.result f).2.firstUnresolved? = none → strict.result f = lenient.result f) ∧
    (∀ r, (lenient.result f).2.firstUnresolved? = some r →
      ∃ v ident s t, Visits f lenient v ∧ v.Misses f ident s r ∧ s.firstUnresolved? = none ∧
        s.reports.toList ++ [r] <+: (lenient.result f).2.reports.toList ∧
        strict.result f = (.error (.unresolved ident), t) ∧
        t.output = s.output ∧ t.input = s.input ∧ t.reports = s.reports) ∧
    (∀ ident, (strict.result f).1 = .error (.unresolved ident) →
      (lenient.result f).2.firstUnresolved? ≠ none) := by
  intro strict lenient
  have hbeside := beside_start limit ref policy input generator
  have hself : Env.Like (fun p q => p = q ∧ p.strict = true) Eq strict.env strict.env :=
    .root rfl ⟨rfl, rfl⟩
  have hmisses {ident : String} {t : State} (h : strict.result f = (.error (.unresolved ident), t)) :=
    misses_of_unresolved rfl hself hbeside h
  have hfirst {ident : String} {t : State} (h : strict.result f = (.error (.unresolved ident), t)) :
      (lenient.result f).2.firstUnresolved? ≠ none := by
    obtain ⟨v, s, r, _, hv, hs, hstarts, _⟩ := hmisses h
    rw [firstUnresolved?_of_next hs hv.concern hstarts]
    exact Option.some_ne_none r
  rcases abreast_evalNode f limit ref hbeside.env strict.state with ⟨_, hfault, ident, rfl⟩ | hsame
  · have hstrict : strict.result f = (.error (.unresolved ident), (strict.result f).2) :=
      Prod.ext hfault rfl
    refine ⟨fun hnone => absurd hnone (hfirst hstrict), ?_, fun _ _ => hfirst hstrict⟩
    intro r hr
    obtain ⟨v, s, r', hvisits, hv, hs, hstarts, hout, hin, hrep⟩ := hmisses hstrict
    rw [firstUnresolved?_of_next hs hv.concern hstarts] at hr
    cases hr
    exact ⟨v, ident, s, _, hvisits, hv, hs, hstarts, hstrict, hout, hin, hrep⟩
  · have heq : lenient.result f = strict.result f := hsame
    have hnone : (lenient.result f).2.firstUnresolved? = none := by
      rw [heq]
      exact steady_unreported.evalNode f limit ref hself strict.state rfl
    refine ⟨fun _ => heq.symm, ?_, ?_⟩
    · intro r hr
      rw [hnone] at hr
      cases hr
    · intro ident hident
      exact hfirst (Prod.ext hident rfl : _ = (_, (strict.result f).2))

end Abacus
