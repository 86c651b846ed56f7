import Abacus.Proofs.Source.Reading
import Abacus.Proofs.Source.Reporting

/-!
# The grammar of sources

A source is accepted exactly if its terminals are those of a derivation in the grammar, and then
they are those of just one.  The node of the source stands for that derivation, unless a built-in
operator in it is called with too few operands.

* `plantSource_ok`, `plantSource_error`   the form of a source is planted, or its fault returned;
* `fault_of_plantSource`                  where the fault of a source comes from;
* `parseForm_of_syntactic`                syntactic faults come from reading;
* `grammar_exact`                         **the sources that are accepted, and their trees**.
-/

namespace Abacus

section
variable {source : String} {form : Form} {e : Fault}

theorem plantSource_ok (h : parseForm source.toList = .ok form) :
    (plantSource source).run.run ⟨.empty, []⟩ = (plantForm form).run.run ⟨.empty, []⟩ := by
  unfold plantSource
  rw [h]
  rfl

theorem plantSource_error (h : parseForm source.toList = .error e) :
    (plantSource source).run.run ⟨.empty, []⟩ = (.error e, ⟨.empty, []⟩) := by
  unfold plantSource
  rw [h]
  rfl

/-- a fault of a source comes from reading it, or from a call with too few operands in it -/
theorem fault_of_plantSource {d : Draft}
    (h : (plantSource source).run.run ⟨.empty, []⟩ = (.error e, d)) :
    parseForm source.toList = .error e ∨
      ∃ (b : Builtin) (n : Nat), e = .tooFewOperands b.name b.arity.least n := by
  rcases hparse : parseForm source.toList with e' | form
  · rw [plantSource_error hparse] at h
    cases h
    exact Or.inl rfl
  · rw [plantSource_ok hparse] at h
    rcases plantForm_cases form with ⟨_, root, d', hrun, _⟩ | ⟨b, n, d', _, hrun⟩
    · rw [h] at hrun
      cases hrun
    · rw [h] at hrun
      cases hrun
      exact Or.inr ⟨b, n, rfl⟩

/-- **Syntactic faults come from reading**, not from planting. -/
theorem parseForm_of_syntactic {d : Draft}
    (h : (plantSource source).run.run ⟨.empty, []⟩ = (.error e, d))
    (hsyntactic : e.category = .syntactic) : parseForm source.toList = .error e := by
  rcases fault_of_plantSource h with hparse | ⟨b, n, rfl⟩
  · exact hparse
  · cases hsyntactic

end

/-- **The sources that are accepted, and their trees.**  A source that renders the terminals of a
derivation gives a node that stands for the derivation, or the fault of a built-in operator called
with too few operands if there is such a call.  A source without a syntactic fault spells the
terminals of exactly one derivation. -/
theorem grammar_exact :
    (∀ (form : Form) (source : String), form.Proper →
      Rendered false form.terminals source.toList →
      (form.Ample ∧ ∃ root f, Sown source root f ∧ f.Whole root form) ∨
      ∃ b n d, form.Lacks b n ∧ (plantSource source).run.run ⟨.empty, []⟩ =
        (.error (.tooFewOperands b.name b.arity.least n), d)) ∧
    ∀ source : String, (∀ e d, (plantSource source).run.run ⟨.empty, []⟩ = (.error e, d) →
        e.category ≠ .syntactic) →
      ∃! form : Form, form.Proper ∧ Spelled EndGap form.terminals source.toList := by
  constructor
  · intro form source hproper hrendered
    have hspelled : Spelled EndGap form.terminals source.toList :=
      hrendered.spelled (Form.Proper.written.1 form hproper)
    have hparse : parseForm source.toList = .ok form :=
      parseForm_eq_ok_iff.2 ⟨hproper, hspelled⟩
    rcases plantForm_cases form with ⟨hample, root, d, hrun, hwhole⟩ | ⟨b, n, d, hlacks, hrun⟩
    · refine Or.inl ⟨hample, root, d.forest, ⟨d.remarks, ?_⟩, hwhole⟩
      rw [plantSource_ok hparse, hrun]
    · refine Or.inr ⟨b, n, d, hlacks, ?_⟩
      rw [plantSource_ok hparse, hrun]
  · intro source haccepted
    rcases hparse : parseForm source.toList with e | form
    · have hrun := plantSource_error hparse
      have hsyntactic : e.category = .syntactic := category_of_parseForm hparse
      exact absurd hsyntactic (haccepted e _ hrun)
    · refine ⟨form, parseForm_eq_ok_iff.1 hparse, ?_⟩
      rintro form' ⟨hproper, hspelled⟩
      have hparse' := parseForm_eq_ok_iff.2 ⟨hproper, hspelled⟩
      rw [hparse] at hparse'
      exact (Except.ok.inj hparse').symm

/-- a call of a function, and a comment that ends with the source -/
def commentedSource : String := "(f 1);c"

def commentedForm : Form := .call "f" [.numeral .int ['1']]

theorem proper_commented : commentedForm.Proper := by
  refine .call (.symbol (by decide) (List.forall_mem_nil _)) (by decide) (by decide) ?_
  intro form hform
  rw [List.mem_singleton.1 hform]
  exact .numeral (.integer (Or.inl rfl) (by decide) (List.all_eq_true.1 (by decide)))

theorem rendered_commented : Rendered false commentedForm.terminals commentedSource.toList := by
  have hend : EndGap [';', 'c'] := .opened .nil (by decide)
  have hspace : Gap [' '] := .space (by decide) .nil
  show Rendered false [(.opening, ['(']), (.symbol, ['f']), (.integer, ['1']), (.closing, [')'])]
    ([] ++ (['('] ++ ([] ++ (['f'] ++ ([' '] ++ (['1'] ++ ([] ++ ([')'] ++ [';', 'c']))))))))
  refine .cons .nil (fun h => by cases h) (.cons .nil (fun h => by cases h) ?_)
  exact .cons hspace (fun _ _ h => by cases h) (.cons .nil (fun _ h => by cases h) (.nil hend))

theorem accepted_commented (e : Fault) (d : Draft)
    (h : (plantSource commentedSource).run.run ⟨.empty, []⟩ = (.error e, d)) :
    e.category ≠ .syntactic := by
  have hparse : parseForm commentedSource.toList = .ok commentedForm :=
    parseForm_eq_ok_iff.2 ⟨proper_commented,
      rendered_commented.spelled (Form.Proper.written.1 _ proper_commented)⟩
  rw [plantSource_ok hparse] at h
  cases h

theorem grammar_commented :
    (commentedForm.Proper ∧ Rendered false commentedForm.terminals commentedSource.toList ∧
      ((commentedForm.Ample ∧ ∃ root f, Sown commentedSource root f ∧ f.Whole root commentedForm) ∨
      ∃ b n d, commentedForm.Lacks b n ∧ (plantSource commentedSource).run.run ⟨.empty, []⟩ =
        (.error (.tooFewOperands b.name b.arity.least n), d))) ∧
    (∀ e d, (plantSource commentedSource).run.run ⟨.empty, []⟩ = (.error e, d) →
      e.category ≠ .syntactic) ∧
    ∃! form : Form, form.Proper ∧ Spelled EndGap form.terminals commentedSource.toList :=
  ⟨⟨proper_commented, rendered_commented,
    grammar_exact.1 commentedForm commentedSource proper_commented rendered_commented⟩,
    accepted_commented, grammar_exact.2 commentedSource accepted_commented⟩

end Abacus
