import Abacus.Amount.Numeral

/-!
# Asking for a number

A number is asked for line by line until a line is one.  Every line asked for is prompted for, and
every line that is no number is refused.

* `nextLine?`       the next line of an input;
* `Answer`          how the asking went;
* `awaitNumber`     the asking.
-/

namespace Abacus

/-- the next line without its end, and what follows it; none at the end of the input -/
def nextLine? : List Char → Option (List Char × List Char)
  | [] => none
  | c :: cs =>
    if c = '\n' then some ([], cs)
    else match nextLine? cs with
      | some (line, rest) => some (c :: line, rest)
      | none => some ([c], [])

theorem length_nextLine? {cs line rest : List Char} (h : nextLine? cs = some (line, rest)) :
    rest.length < cs.length := by
  induction cs generalizing line rest with
  | nil => cases h
  | cons c cs ih =>
    unfold nextLine? at h
    split at h
    · cases h
      simp
    · split at h
      · next hrec =>
        cases h
        have := ih hrec
        simp only [List.length_cons]
        omega
      · cases h
        simp

structure Answer where
  /-- the lines that were no numbers, in order -/
  refused : List (List Char)
  /-- the number, unless the input ended -/
  amount : Option Amount
  rest : List Char

def awaitNumber (input : List Char) : Answer :=
  match hline : nextLine? input with
  | none => ⟨[], none, []⟩
  | some (line, rest) =>
    match readDecimal? line with
    | some amount => ⟨[], some amount, rest⟩
    | none =>
      have : rest.length < input.length := length_nextLine? hline
      let later := awaitNumber rest
      ⟨line :: later.refused, later.amount, later.rest⟩
termination_by input.length

def promptText : String := "read := "

def Answer.prompts (a : Answer) : String :=
  String.join (List.replicate (a.refused.length + 1) promptText)

end Abacus
