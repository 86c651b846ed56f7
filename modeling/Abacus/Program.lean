import Abacus.Evaluation.Evaluate
import Abacus.Source.Planting

/-!
# Programs

A program is run from its source: the source is planted as a tree, and the tree is evaluated in a
root of its own.  The remarks made while planting come before those of the evaluation.

* `Outcome`        how a run went;
* `runSource`      the run of a source.
-/

namespace Abacus

structure Outcome where
  /-- the value, or what stopped the program -/
  value : Except Fault Value
  remarks : List Remark
  output : String
  rest : List Char

/-- **The run of a source** with a policy, an input and a generator of random numbers -/
def runSource (policy : Policy) (source : String) (input : List Char) (generator : Generator) :
    Outcome :=
  let (planted, draft) := (plantSource source).run.run ⟨.empty, []⟩
  match planted with
  | .error fault => ⟨.error fault, draft.remarks, "", input⟩
  | .ok root =>
    let (value, after) :=
      (evaluate draft.forest (.node root) (.root 0 policy)).result (.start input generator)
    ⟨value, draft.remarks ++ after.reports.toList.map (·.remark), after.output, after.input⟩

end Abacus
