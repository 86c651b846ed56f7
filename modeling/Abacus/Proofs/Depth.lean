import Abacus.Proofs.Evaluation.Visits

/-!
# The limit on the depth

A greater limit changes nothing in a run that does not reach the limit.  A run that reaches it stops
there, and what it has read, printed and reported is the beginning of what the run with the greater
limit reads, prints and reports.

* `Deepens x y`        `y` does what `x` does, or goes on where `x` is cut off;
* `deepens_evalNode`   evaluations to a greater depth;
* `limit_cuts_off`     two runs to two depths.
-/

namespace Abacus

open Run

/-! ## Going on after a cut -/

/-- **The second computation does what the first one does**, or goes on where the limit on the depth
cuts the first one off. -/
structure Deepens {α : Type} (x y : Run α) : Prop where
  keeps : Keeps State.Advances y
  result : ∀ s, y.result s = x.result s ∨
    (x.result s).1 = .error .tooDeep ∧ (x.result s).2.Extends (y.result s).2

section
variable {α β : Type}

theorem deepens_refl {x : Run α} (hx : Keeps State.Advances x) : Deepens x x :=
  ⟨hx, fun _ => Or.inl rfl⟩

theorem deepens_bind {x y : Run α} {k l : α → Run β} (hx : Deepens x y)
    (hk : ∀ a, Deepens (k a) (l a)) : Deepens (x >>= k) (y >>= l) := by
  have hkeeps : Keeps State.Advances (y >>= l) :=
    keeps_bind steady_advances hx.keeps fun a => (hk a).keeps
  refine ⟨hkeeps, fun s => ?_⟩
  rcases hx.result s with hsame | ⟨hdeep, hextends⟩
  · rcases hr : x.result s with ⟨fault | a, t⟩
    · rw [hr] at hsame
      rw [result_bind_error hr, result_bind_error hsame]
      exact Or.inl rfl
    · rw [hr] at hsame
      rw [result_bind_ok hr, result_bind_ok hsame]
      exact (hk a).result t
  · rcases hr : x.result s with ⟨outcome, t⟩
    rw [hr] at hdeep hextends
    cases hdeep
    have hafter : (y.result s).2.Extends ((y >>= l).result s).2 := by
      rw [result_bind]
      rcases y.result s with ⟨fault | a, u⟩
      · exact .refl u
      · exact ((hk a).keeps u).toExtends
    rw [result_bind_error hr]
    exact Or.inr ⟨rfl, hextends.trans hafter⟩

theorem deepens_marked (m : Mark) {x y : Run α} (h : Deepens x y) :
    Deepens (marked m x) (marked m y) := by
  refine ⟨keeps_marked steady_advances m h.keeps, fun s => ?_⟩
  rw [result_marked, result_marked]
  rcases h.result { s with active := m :: s.active } with hsame | ⟨hdeep, hextends⟩
  · rw [hsame]
    exact Or.inl rfl
  · exact Or.inr ⟨hdeep, { hextends with }⟩

theorem deepens_findValue {ev ev' : Evaluator} {owner owner' : Env}
    (hpolicy : owner.policy = owner'.policy) (hserial : owner.serial = owner'.serial)
    (id : BindingId) (b : Binding) (hev : Deepens (ev b.body owner) (ev' b.body owner')) :
    Deepens (findValue ev id b owner) (findValue ev' id b owner') := by
  refine ⟨keeps_findValue steady_advances id b hev.keeps, fun s => ?_⟩
  rw [result_findValue, result_findValue, hpolicy, hserial]
  split
  · split
    · exact Or.inl rfl
    · exact (deepens_marked _ hev).result s
  · exact hev.result s

end

def deepening (f : Forest) : Comparison f where
  policy := Eq
  serial := Eq
  rel := Deepens
  pure a := deepens_refl (keeps_pure steady_advances a)
  bind := deepens_bind
  throw fault := deepens_refl (keeps_throw steady_advances fault)
  write text := deepens_refl fun s => steady_advances.output s text
  report r hr _ h := by
    unfold report
    rw [h.policy]
    exact deepens_refl (keeps_report_of_ne steady_advances trivial hr)
  fresh hk := by
    refine ⟨fun s => ?_, fun s => (hk _ _ rfl).result _⟩
    exact steady_advances.trans (steady_advances.next s) ((hk s.next s.next rfl).keeps _)
  places h := by rw [h]
  unresolved ident r h _ := by
    rw [unresolved_congr h.policy]
    exact deepens_refl (keeps_unresolved steady_advances trivial ident r)
  value id b h hev := deepens_findValue h.policy h.serial id b hev
  count _ _ h := by
    rw [countOperands_congr h.policy h.context]
    exact deepens_refl (keeps_countOperands steady_advances trivial _ _ _)
  apply args _ _ h := by
    rw [applyBuiltin_congr h.policy]
    exact deepens_refl (keeps_applyBuiltin steady_advances trivial _ args)

/-! ## Evaluations to two depths -/

/-- **An evaluation to a greater depth** does what the one to a smaller depth does, or goes on where
that is cut off. -/
theorem deepens_evalNode (f : Forest) {l₁ l₂ : Nat} (h : l₁ ≤ l₂) :
    (deepening f).Evaluators (evalNode f l₁) (evalNode f l₂) := by
  induction l₁ generalizing l₂ with
  | zero =>
    intro ref env env' _
    have hkeeps : Keeps State.Advances (evalNode f l₂ ref env') := advances_evalNode f l₂ ref env'
    exact ⟨hkeeps, fun s => Or.inr ⟨rfl, (hkeeps s).toExtends⟩⟩
  | succ l₁ ih =>
    obtain ⟨l, rfl⟩ : ∃ l, l₂ = l + 1 := ⟨l₂ - 1, by omega⟩
    exact Comparison.step (ih (by omega))

/-- **The limit on the depth only cuts off.**  A run that the limit does not stop is the same run
under every greater limit.  If the limit stops it, what was printed and reported and the input that
was taken are the beginnings of what they are under a greater limit.  The limit stops a run exactly
if an evaluation inside it may go no deeper, and in the very state, but for marks, in which that
evaluation begins. -/
theorem limit_cuts_off (f : Forest) (ref : Ref) (env : Env) (s : State) {l₁ l₂ : Nat}
    (h : l₁ ≤ l₂) :
    let shallow := (evalNode f l₁ ref env).result s
    let deep := (evalNode f l₂ ref env).result s
    (shallow.1 ≠ .error .tooDeep → deep = shallow) ∧
      (shallow.1 = .error .tooDeep →
        (∃ text, deep.2.output = shallow.2.output ++ text) ∧
        shallow.2.reports.toList <+: deep.2.reports.toList ∧
        ∃ taken more, s.input = taken ++ shallow.2.input ∧
          s.input = taken ++ more ++ deep.2.input) ∧
      (shallow.1 = .error .tooDeep ↔ ∃ w, Visits f ⟨l₁, ref, env, s⟩ w ∧ w.limit = 0) ∧
      ∀ w, Visits f ⟨l₁, ref, env, s⟩ w → w.limit = 0 → w.state.SameBut shallow.2 := by
  intro shallow deep
  have henv : (deepening f).Like env env := .refl (fun _ => rfl) (fun _ => rfl) env
  have hstop (w : Visit) (hw : Visits f ⟨l₁, ref, env, s⟩ w) (hlimit : w.limit = 0) :
      shallow.1 = .error .tooDeep ∧ w.state.SameBut shallow.2 := by
    obtain ⟨limit, ref', env', s'⟩ := w
    subst hlimit
    have hcut : (⟨0, ref', env', s'⟩ : Visit).result f = (.error .tooDeep, s') := rfl
    obtain ⟨t, ht, hsame⟩ := fault_of_visits hw hcut
    exact ⟨congrArg Prod.fst ht, hsame.trans (congrArg (fun r => { r.2 with active := [] }) ht.symm)⟩
  refine ⟨fun hdone => ?_, fun hdeep => ?_, ⟨fun hdeep => ?_, fun ⟨w, hw, hlimit⟩ => ?_⟩, ?_⟩
  · rcases (deepens_evalNode f h ref env env henv).result s with hsame | ⟨hdeep, _⟩
    · exact hsame
    · exact absurd hdeep hdone
  · have hextends : shallow.2.Extends deep.2 := by
      rcases (deepens_evalNode f h ref env env henv).result s with hsame | ⟨_, hextends⟩
      · rw [show deep = shallow from hsame]
        exact .refl _
      · exact hextends
    obtain ⟨taken, htaken⟩ := (advances_evalNode f l₁ ref env s).input
    obtain ⟨more, hmore⟩ := hextends.input
    refine ⟨hextends.output, hextends.reports, taken, more, htaken.symm, ?_⟩
    rw [List.append_assoc, hmore]
    exact htaken.symm
  · obtain ⟨w, hw, hfails⟩ := origin_of_fault (v := ⟨l₁, ref, env, s⟩) (Prod.ext hdeep rfl)
    exact ⟨w, hw, hfails.limit⟩
  · exact (hstop w hw hlimit).1
  · exact fun w hw hlimit => (hstop w hw hlimit).2

def printedDeeper : Forest :=
  ⟨#[⟨.call (.builtin .print) none [.absent, .node ⟨1⟩] true, none, none⟩,
    ⟨.choice .absent .absent .absent, none, none⟩], #[], #[]⟩

/-- the value that lies deeper is not printed where the run is cut off before it -/
theorem limit_cuts_off_printedDeeper :
    let env : Env := .root 0 { strict := true }
    let s : State := .start [] (.ofSeed 0)
    let run := fun limit => (evalNode printedDeeper limit (.node ⟨0⟩) env).result s
    (run 2).1 = .error .tooDeep ∧ (run 2).2.output = missingText ++ "\n" ∧
      (∃ text, (run 3).2.output = (run 2).2.output ++ text) ∧
      (run 3).1 = .ok none ∧ run 4 = run 3 := by
  intro env s run
  have hdeep : (run 2).1 = .error .tooDeep := rfl
  have hdone : (run 3).1 = .ok none := rfl
  have hcut := limit_cuts_off printedDeeper (.node ⟨0⟩) env s (show 2 ≤ 3 by decide)
  have hsame := limit_cuts_off printedDeeper (.node ⟨0⟩) env s (show 3 ≤ 4 by decide)
  refine ⟨hdeep, ?_, (hcut.2.1 hdeep).1, hdone, hsame.1 ?_⟩
  · rfl
  · rw [show ((evalNode printedDeeper 3 (.node ⟨0⟩) env).result s).1 = .ok none from hdone]
    exact nofun

end Abacus
