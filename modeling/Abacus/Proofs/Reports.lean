import Abacus.Proofs.Syntax

/-!
# The reports of a source

A source that the grammar does not derive is refused before anything is reported.  What is reported
for any other source are the notices of its derivation, up to the first call of a built-in operator
with too few operands, which is where it stops.

* `silent_of_syntactic`      a syntactic fault comes alone;
* `ofTree_of_plantSource`    remarks are on how the tree is put together;
* `reports_in_order`         **what is reported for a source**.
-/

namespace Abacus

section
variable {source : String} {form : Form}

theorem silent_of_syntactic
    (h : ¬ ∃ form : Form, form.Proper ∧ Spelled EndGap form.terminals source.toList) :
    ∃ e, e.category = .syntactic ∧
      (plantSource source).run.run ⟨.empty, []⟩ = (.error e, ⟨.empty, []⟩) := by
  rcases hparse : parseForm source.toList with e | form
  · exact ⟨e, category_of_parseForm hparse, plantSource_error hparse⟩
  · exact absurd ⟨form, parseForm_eq_ok_iff.1 hparse⟩ h

theorem tells_plantSource (hproper : form.Proper)
    (hspelled : Spelled EndGap form.terminals source.toList) :
    Tells .empty (plantSource source) form.notices fun _ _ => True := by
  have hparse : parseForm source.toList = .ok form := parseForm_eq_ok_iff.2 ⟨hproper, hspelled⟩
  have hsource : plantSource source = plantForm form := by
    unfold plantSource
    rw [hparse]
    rfl
  rw [hsource]
  exact tells_form.1 form .empty linked_empty

theorem ofTree_of_plantSource {outcome : Except Fault NodeId} {d : Draft}
    (h : (plantSource source).run.run ⟨.empty, []⟩ = (outcome, d)) :
    ∀ r ∈ d.remarks, r.OfTree := by
  intro r hr
  by_cases hderived : ∃ form : Form, form.Proper ∧ Spelled EndGap form.terminals source.toList
  · obtain ⟨form, hproper, hspelled⟩ := hderived
    refine ofTree_of_notices.1 form ?_
    obtain ⟨made, ⟨htold, root, f, hrun, _⟩ | ⟨e, rest, f, htold, hrun⟩⟩ :=
      tells_plantSource hproper hspelled []
    · cases h.symm.trans hrun
      rw [htold]
      exact List.mem_map_of_mem hr
    · cases h.symm.trans hrun
      rw [htold]
      exact List.mem_append_left _ (List.mem_map_of_mem hr)
  · obtain ⟨e, _, hrun⟩ := silent_of_syntactic hderived
    cases h.symm.trans hrun
    cases hr

end

/-- **What is reported for a source.**  One that the grammar does not derive has a syntactic fault
and no remark.  For any other one the remarks are the notices of its derivation, all of them if it
is accepted, and otherwise those before the first fault, which is the one that it has. -/
theorem reports_in_order :
    (∀ source : String,
      (¬ ∃ form : Form, form.Proper ∧ Spelled EndGap form.terminals source.toList) →
      ∃ e, e.category = .syntactic ∧
        (plantSource source).run.run ⟨.empty, []⟩ = (.error e, ⟨.empty, []⟩)) ∧
    ∀ (source : String) (form : Form), form.Proper →
      Spelled EndGap form.terminals source.toList →
      ∃ made : List Remark,
        (form.notices = made.map .remark ∧
          ∃ root f, (plantSource source).run.run ⟨.empty, []⟩ = (.ok root, ⟨f, made⟩)) ∨
        ∃ e rest f, form.notices = made.map .remark ++ .fault e :: rest ∧ e.category = .arity ∧
          (plantSource source).run.run ⟨.empty, []⟩ = (.error e, ⟨f, made⟩) := by
  refine ⟨fun source h => silent_of_syntactic h, ?_⟩
  intro source form hproper hspelled
  obtain ⟨made, ⟨htold, root, f, hrun, _⟩ | ⟨e, rest, f, htold, hrun⟩⟩ :=
    tells_plantSource hproper hspelled []
  · exact ⟨made, Or.inl ⟨htold, root, f, hrun⟩⟩
  · have hfault : .fault e ∈ form.notices := by
      rw [htold]
      exact List.mem_append_right _ List.mem_cons_self
    obtain ⟨b, n, _, rfl⟩ := lacks_of_notices.1 form hfault
    exact ⟨made, Or.inr ⟨_, rest, f, htold, rfl, hrun⟩⟩

/-- a call with too few operands, a type that does not exist and a name defined twice, but the scope
is not closed -/
def brokenSource : String := "(let ((x (neg)) (y 1 : foo) (y 2)) x"

/-- a scope with a type that does not exist, a call with surplus operands, a call with too few of
them and a name defined twice -/
def noticedSource : String := "(let ((x 1 : foo) (x (neg 1 2))) (add (neg)))"

def noticedForm : Form :=
  .scoped [.value "x" (.numeral .int ['1']) (some "foo"),
    .value "x" (.call "neg" [.numeral .int ['1'], .numeral .int ['2']]) none]
    (.call "add" [.call "neg" []])

theorem underivable_broken :
    ¬ ∃ form : Form, form.Proper ∧ Spelled EndGap form.terminals brokenSource.toList := by
  rintro ⟨form, hform⟩
  have hparse : parseForm brokenSource.toList = .error (.unexpectedEnd ⟨1, 36⟩) := by
    with_unfolding_all rfl
  rw [parseForm_eq_ok_iff.2 hform] at hparse
  cases hparse

theorem derived_noticed : noticedForm.Proper ∧
    Spelled EndGap noticedForm.terminals noticedSource.toList :=
  parseForm_eq_ok_iff.1 (by with_unfolding_all rfl)

theorem notices_noticed : noticedForm.notices =
    [.remark (.unknownType "foo"), .remark (.surplusOperands "neg" 1 2),
      .fault (.tooFewOperands "neg" 1 0), .remark (.conflictingDefinition "x")] := rfl

theorem reports_noticed :
    (¬ ∃ form : Form, form.Proper ∧ Spelled EndGap form.terminals brokenSource.toList) ∧
    (∃ e, e.category = .syntactic ∧
      (plantSource brokenSource).run.run ⟨.empty, []⟩ = (.error e, ⟨.empty, []⟩)) ∧
    (noticedForm.Proper ∧ Spelled EndGap noticedForm.terminals noticedSource.toList) ∧
    noticedForm.notices = [.remark (.unknownType "foo"), .remark (.surplusOperands "neg" 1 2),
      .fault (.tooFewOperands "neg" 1 0), .remark (.conflictingDefinition "x")] ∧
    ∃ made : List Remark,
      (noticedForm.notices = made.map .remark ∧
        ∃ root f, (plantSource noticedSource).run.run ⟨.empty, []⟩ = (.ok root, ⟨f, made⟩)) ∨
      ∃ e rest f, noticedForm.notices = made.map .remark ++ .fault e :: rest ∧
        e.category = .arity ∧
        (plantSource noticedSource).run.run ⟨.empty, []⟩ = (.error e, ⟨f, made⟩) :=
  ⟨underivable_broken, reports_in_order.1 brokenSource underivable_broken, derived_noticed,
    notices_noticed,
    reports_in_order.2 noticedSource noticedForm derived_noticed.1 derived_noticed.2⟩

end Abacus
