import Abacus.Proofs.Source.Grammar
import Abacus.Proofs.Source.Spelling
import Abacus.Source.Parser

/-!
# What the machine reads

The machine reads the terminals of a derivation to its form, and a form that it has read is a
derivation of the terminals it has read.  The constructs that are open say what has been read so
far, and can always be closed.

* `Machine.read`            a row of terminals, one by one;
* `read_form`               the terminals of a derivation are read to its form;
* `Frame.Proper`, `Nested`  what the parts of open constructs are, and what stands in what;
* `Machine.has_step`, `Machine.has_read`   what has been read is what the parts derive;
* `exists_finished`         open constructs can be closed;
* `parseForm_cases`         how the reading of a source ends;
* `parseForm_eq_ok_iff`     **the form of a source**.
-/

namespace Abacus

namespace Machine

/-! ## Rows of terminals -/

/-- a row of terminals, up to the first that cannot stand where it is -/
def read (ts : List Terminal) (m : Machine) : Option Machine :=
  ts.foldlM (fun m t => m.step? t.1 t.2) m

section
variable {ts us : List Terminal} {m m' : Machine}

theorem read_cons (t : Terminal) (ts : List Terminal) (m : Machine) :
    read (t :: ts) m = (m.step? t.1 t.2).bind (read ts) := rfl

theorem read_append (ts us : List Terminal) (m : Machine) :
    read (ts ++ us) m = (read ts m).bind (read us) := List.foldlM_append

theorem read_cons_of_step {t : Terminal} (h : m.step? t.1 t.2 = some m') :
    read (t :: ts) m = read ts m' := by
  rw [read_cons, h]
  rfl

theorem read_append_of_read (h : read ts m = some m') : read (ts ++ us) m = read us m' := by
  rw [read_append, h]
  rfl

theorem run_cases (tokens : List Token) (m : Machine) :
    (∃ m', run tokens m = .ok m' ∧ read (tokens.map Token.terminal) m = some m') ∨
    ∃ before t after m', tokens = before ++ t :: after ∧ run tokens m = .error t ∧
      read (before.map Token.terminal) m = some m' ∧ m'.step? t.kind t.text = none := by
  induction tokens generalizing m with
  | nil => exact Or.inl ⟨m, rfl, rfl⟩
  | cons t tokens ih =>
    rcases hstep : m.step? t.kind t.text with _ | m'
    · refine Or.inr ⟨[], t, tokens, m, rfl, ?_, rfl, hstep⟩
      rw [run, hstep]
    · have hrun : run (t :: tokens) m = run tokens m' := by
        rw [run, hstep]
      have hread (us : List Terminal) : read (t.terminal :: us) m = read us m' :=
        read_cons_of_step hstep
      rw [hrun, List.map_cons, hread]
      refine (ih m').imp id ?_
      rintro ⟨before, u, after, m'', rfl, herror, hbefore, hnone⟩
      exact ⟨t :: before, u, after, m'', rfl, herror, (hread _).trans hbefore, hnone⟩

end

/-! ## Reading a derivation -/

section
variable {stack : List Frame} {form : Form}

/-- a form is due on the stack, and the word for functions would be read as one -/
def Awaits (form : Form) (stack : List Frame) : Prop :=
  expectsForm stack = true ∧ ∀ name rest, stack = .named name :: rest → form ≠ .symbol "lambda"

theorem step_opening (h : expectsForm stack = true) :
    (reading stack).step? .opening ['('] = some (.reading (.opened :: stack)) := by
  cases stack with
  | nil => rfl
  | cons frame stack =>
    cases frame with
    | choice parts => exact if_pos h
    | call name operands => rfl
    | scopeBody definitions => rfl
    | named name => rfl
    | functionBody name parameters => rfl
    | _ => cases h

theorem step_symbol {name : String} (h : Awaits (.symbol name) stack) :
    (reading stack).step? .symbol name.toList = deliver (.symbol name) stack := by
  obtain ⟨hexpects, hlambda⟩ := h
  show readSymbol (String.ofList name.toList) stack = _
  rw [String.ofList_toList]
  cases stack with
  | nil => rfl
  | cons frame stack =>
    cases frame with
    | named other =>
      have hne : name ≠ "lambda" := fun heq => hlambda other stack rfl (heq ▸ rfl)
      exact if_neg hne
    | choice parts => rfl
    | call name operands => rfl
    | scopeBody definitions => rfl
    | functionBody name parameters => rfl
    | _ => cases hexpects

theorem read_word (name : String) (ts : List Terminal) (stack : List Frame) :
    read (.word name :: ts) (.reading stack) = (readSymbol name stack).bind (read ts) :=
  congrArg (fun name => (readSymbol name stack).bind (read ts)) String.ofList_toList

theorem read_word_of_symbol {name : String} {ts : List Terminal} {m : Machine}
    (h : readSymbol name stack = some m) :
    read (.word name :: ts) (.reading stack) = read ts m := by
  rw [read_word, h]
  rfl

theorem deliver_isSome (form : Form) (h : expectsForm stack = true) :
    ∃ m, deliver form stack = some m := by
  cases stack with
  | nil => exact ⟨_, rfl⟩
  | cons frame stack =>
    cases frame with
    | choice parts => exact ⟨_, if_pos (of_decide_eq_true h)⟩
    | call name operands => exact ⟨_, rfl⟩
    | scopeBody definitions => exact ⟨_, rfl⟩
    | named name => exact ⟨_, rfl⟩
    | functionBody name parameters => exact ⟨_, rfl⟩
    | _ => cases h

theorem read_parameters (stack : List Frame) (name : String) (parameters done : List String) :
    read (parameters.map .word) (.reading (.parameters name done :: stack)) =
      some (.reading (.parameters name (parameters.reverse ++ done) :: stack)) := by
  induction parameters generalizing done with
  | nil => rfl
  | cons p parameters ih =>
    rw [List.map_cons, read_word_of_symbol rfl, ih (p :: done), List.reverse_cons,
      List.append_assoc]
    rfl

theorem read_type (untyped : Untyped) (type : Option String) (done : List Definition) :
    read (typeTerminals type ++ [.closing])
      (.reading (.bound untyped :: .definitions done :: stack)) =
      some (.reading (.definitions (untyped.typed type :: done) :: stack)) := by
  cases type with
  | none => rfl
  | some type =>
    rw [typeTerminals, List.cons_append, read_cons_of_step rfl, List.singleton_append,
      read_word_of_symbol rfl]
    rfl

/-- forms that are read one by one go to the construct around them -/
theorem read_forms {forms : List Form} (put : List Form → List Frame)
    (hread : ∀ form ∈ forms, ∀ done, read form.terminals (.reading (put done)) =
      some (.reading (put (form :: done)))) (done : List Form) :
    read (forms.flatMap Form.terminals) (.reading (put done)) =
      some (.reading (put (forms.reverse ++ done))) := by
  induction forms generalizing done with
  | nil => rfl
  | cons form forms ih =>
    rw [List.flatMap_cons, read_append_of_read (hread form List.mem_cons_self done),
      List.reverse_cons, List.append_assoc]
    exact ih (fun form hform => hread form (List.mem_cons_of_mem _ hform)) (form :: done)

theorem read_definitions (stack : List Frame) {definitions : List Definition}
    (hread : ∀ d ∈ definitions, ∀ done, read d.terminals (.reading (.definitions done :: stack)) =
      some (.reading (.definitions (d :: done) :: stack))) (done : List Definition) :
    read (definitions.flatMap Definition.terminals) (.reading (.definitions done :: stack)) =
      some (.reading (.definitions (definitions.reverse ++ done) :: stack)) := by
  induction definitions generalizing done with
  | nil => rfl
  | cons d definitions ih =>
    rw [List.flatMap_cons, read_append_of_read (hread d List.mem_cons_self done),
      List.reverse_cons, List.append_assoc]
    exact ih (fun d hd => hread d (List.mem_cons_of_mem _ hd)) (d :: done)

/-- **The terminals of a derivation are read to its form**, which is taken where one is due. -/
theorem read_form_definition :
    (∀ form : Form, form.Proper → ∀ stack, Awaits form stack →
      read form.terminals (.reading stack) = deliver form stack) ∧
    ∀ d : Definition, d.Proper → ∀ stack done,
      read d.terminals (.reading (.definitions done :: stack)) =
        some (.reading (.definitions (d :: done) :: stack)) := by
  have hpart {form : Form} {stack : List Frame} {m : Machine} (h : deliver form stack = some m)
      (hread : read form.terminals (.reading stack) = deliver form stack) (us : List Terminal) :
      read (form.terminals ++ us) (.reading stack) = read us m :=
    read_append_of_read (hread.trans h)
  refine Form.induction ?_ ?_ ?_ ?_ ?_ ?_ ?_
  · intro kind text _ stack _
    rw [Form.terminals, read_cons]
    cases kind with
    | int => exact Option.bind_fun_some _
    | float => exact Option.bind_fun_some _
  · intro name _ stack h
    rw [Form.terminals, read_cons]
    exact (congrArg (Option.bind · (read [])) (step_symbol h)).trans (Option.bind_fun_some _)
  · intro name operands ih h stack hawaits
    cases h with
    | call _ hlet hcond hoperands =>
      have hname : readSymbol name (.opened :: stack) = some (.reading (.call name [] :: stack)) :=
        (if_neg hlet).trans (if_neg hcond)
      have hrow := read_forms (fun done => .call name done :: stack)
        (fun form hform done => ih form hform (hoperands form hform) _
          ⟨rfl, fun _ _ heq => by cases heq⟩) []
      rw [Form.terminals, read_cons_of_step (step_opening hawaits.1), read_word_of_symbol hname,
        Form.terminalsAll_eq, read_append_of_read hrow, List.append_nil]
      show (deliver (.call name operands.reverse.reverse) stack).bind _ = _
      rw [List.reverse_reverse]
      exact Option.bind_fun_some _
  · intro test ifTrue ifFalse ihtest ihtrue ihfalse h stack hawaits
    cases h with
    | choice htest htrue hfalse =>
      have hdue (parts : List Form) (form : Form) (hlt : parts.length < 3) :
          Awaits form (.choice parts :: stack) :=
        ⟨decide_eq_true hlt, fun _ _ heq => by cases heq⟩
      rw [Form.terminals, read_cons_of_step (step_opening hawaits.1), read_word_of_symbol rfl,
        hpart rfl (ihtest htest _ (hdue [] test (show 0 < 3 by decide))),
        hpart rfl (ihtrue htrue _ (hdue [test] ifTrue (show 1 < 3 by decide))),
        hpart rfl (ihfalse hfalse _ (hdue [ifTrue, test] ifFalse (show 2 < 3 by decide)))]
      exact Option.bind_fun_some _
  · intro definitions body ihdefinitions ihbody h stack hawaits
    cases h with
    | scope hne hdefinitions hbody =>
      have hrow := read_definitions stack
        (fun d hd done => ihdefinitions d hd (hdefinitions d hd) stack done) []
      obtain ⟨d, rest, hd⟩ := List.exists_cons_of_ne_nil (List.reverse_ne_nil_iff.2 hne)
      have hclose : step? Terminal.closing.1 Terminal.closing.2
          (.reading (.definitions definitions.reverse :: stack)) =
          some (.reading (.scopeBody definitions :: stack)) := by
        rw [← List.reverse_reverse definitions, hd, List.reverse_reverse]
        rfl
      rw [Form.terminals, read_cons_of_step (step_opening hawaits.1), read_word_of_symbol rfl,
        read_cons_of_step rfl, Definition.terminalsAll_eq, read_append_of_read hrow,
        List.append_nil]
      rw [read_cons_of_step hclose,
        hpart rfl (ihbody hbody _ ⟨rfl, fun _ _ heq => by cases heq⟩)]
      exact Option.bind_fun_some _
  · intro name body type ih h stack done
    cases h with
    | value _ hbody hlambda _ =>
      rw [Definition.terminals, Definition.front, List.cons_append, List.cons_append,
        List.append_assoc, read_cons_of_step rfl, read_word_of_symbol rfl,
        hpart rfl (ih hbody _ ⟨rfl, fun _ _ _ => hlambda⟩)]
      exact read_type (.value name body) type done
  · intro name parameters body type ih h stack done
    cases h with
    | function _ _ hbody _ =>
      have hrow := read_parameters (.definitions done :: stack) name parameters []
      rw [Definition.terminals, Definition.front]
      simp only [List.cons_append, List.append_assoc]
      rw [read_cons_of_step rfl, read_word_of_symbol rfl, read_word_of_symbol rfl,
        read_cons_of_step rfl, read_append_of_read hrow, List.append_nil]
      show read _ (.reading (.functionBody name parameters.reverse.reverse ::
        .definitions done :: stack)) = _
      rw [List.reverse_reverse, hpart rfl (ih hbody _ ⟨rfl, fun _ _ heq => by cases heq⟩)]
      exact read_type (.function name parameters body) type done

theorem read_form (h : form.Proper) : read form.terminals start = some (.finished form) :=
  read_form_definition.1 form h [] ⟨rfl, fun _ _ heq => by cases heq⟩

end

/-! ## Open constructs -/

end Machine

def Untyped.terminals (untyped : Untyped) : List Terminal := (untyped.typed none).front

namespace Frame

def terminals : Frame → List Terminal
  | .opened => [.opening]
  | .call name operands => .opening :: .word name :: operands.reverse.flatMap Form.terminals
  | .choice parts => .opening :: .word "cond" :: parts.reverse.flatMap Form.terminals
  | .scope => [.opening, .word "let"]
  | .definitions done =>
    .opening :: .word "let" :: .opening :: done.reverse.flatMap Definition.terminals
  | .scopeBody ds => .opening :: .word "let" :: .opening ::
      (ds.flatMap Definition.terminals ++ [.closing])
  | .scopeEnd ds body => .opening :: .word "let" :: .opening ::
      (ds.flatMap Definition.terminals ++ .closing :: body.terminals)
  | .definition => [.opening]
  | .named name => [.opening, .word name]
  | .function name => [.opening, .word name, .word "lambda"]
  | .parameters name done => .opening :: .word name :: .word "lambda" :: .opening ::
      done.reverse.map .word
  | .functionBody name ps => .opening :: .word name :: .word "lambda" :: .opening ::
      (ps.map .word ++ [.closing])
  | .bound untyped => untyped.terminals
  | .typing untyped => untyped.terminals ++ [.colon]
  | .typed d => d.front

def Proper : Frame → Prop
  | .opened | .scope | .definition => True
  | .call name operands =>
    IsName name ∧ name ≠ "let" ∧ name ≠ "cond" ∧ ∀ form ∈ operands, form.Proper
  | .choice parts => parts.length ≤ 3 ∧ ∀ form ∈ parts, form.Proper
  | .definitions done => ∀ d ∈ done, d.Proper
  | .scopeBody ds => ds ≠ [] ∧ ∀ d ∈ ds, d.Proper
  | .scopeEnd ds body => (ds ≠ [] ∧ ∀ d ∈ ds, d.Proper) ∧ body.Proper
  | .named name | .function name => IsName name
  | .parameters name done => IsName name ∧ ∀ p ∈ done, IsName p
  | .functionBody name ps => IsName name ∧ ∀ p ∈ ps, IsName p
  | .bound untyped | .typing untyped => (untyped.typed none).Proper
  | .typed d => d.Proper

/-- the stacks on which a construct is opened -/
def StandsOn (stack : List Frame) : Frame → Prop
  | .definition | .named _ | .function _ | .parameters .. | .functionBody .. | .bound _ | .typing _
  | .typed _ => ∃ done rest, stack = .definitions done :: rest
  | _ => Machine.expectsForm stack = true

end Frame

/-- the open constructs have proper parts, and each stands where it can -/
def Nested : List Frame → Prop
  | [] => True
  | frame :: stack => frame.Proper ∧ frame.StandsOn stack ∧ Nested stack

def rowOf : List Frame → List Terminal
  | [] => []
  | frame :: stack => rowOf stack ++ frame.terminals

namespace Machine

def terminals : Machine → List Terminal
  | .reading stack => rowOf stack
  | .finished form => form.terminals

def Proper : Machine → Prop
  | .reading stack => Nested stack
  | .finished form => form.Proper

/-! ## One step -/

def Has (m : Machine) (ts : List Terminal) : Prop := m.Proper ∧ m.terminals = ts

section
variable {stack : List Frame} {form : Form} {definition : Definition} {m : Machine}

theorem has_reading {frame : Frame} {ts : List Terminal} (hframe : frame.Proper)
    (hstands : frame.StandsOn stack) (hstack : Nested stack) (hrow : frame.terminals = ts) :
    (reading (frame :: stack)).Has (rowOf stack ++ ts) :=
  ⟨⟨hframe, hstands, hstack⟩, congrArg (rowOf stack ++ ·) hrow⟩

theorem has_deliver (hstack : Nested stack) (hform : form.Proper)
    (hlambda : ∀ name rest, stack = .named name :: rest → form ≠ .symbol "lambda")
    (h : deliver form stack = some m) : m.Has (rowOf stack ++ form.terminals) := by
  cases stack with
  | nil =>
    cases h
    exact ⟨hform, rfl⟩
  | cons frame stack =>
    obtain ⟨hframe, hstands, hstack⟩ := hstack
    rw [rowOf, List.append_assoc]
    cases frame with
    | call name operands =>
      cases h
      obtain ⟨hname, hlet, hcond, hoperands⟩ := hframe
      refine has_reading ⟨hname, hlet, hcond, List.forall_mem_cons.2 ⟨hform, hoperands⟩⟩ hstands
        hstack ?_
      simp [Frame.terminals]
    | choice parts =>
      have h : (if parts.length < 3 then some (reading (.choice (form :: parts) :: stack))
          else none) = some m := h
      split at h
      · next hlt =>
        cases h
        refine has_reading ⟨hlt, List.forall_mem_cons.2 ⟨hform, hframe.2⟩⟩ hstands hstack ?_
        simp [Frame.terminals]
      · cases h
    | scopeBody definitions =>
      cases h
      refine has_reading ⟨hframe, hform⟩ hstands hstack ?_
      simp [Frame.terminals]
    | named name =>
      cases h
      have hproper : (Definition.value name form none).Proper :=
        .value hframe hform (hlambda name stack rfl) fun _ h => by cases h
      refine has_reading hproper hstands hstack ?_
      simp [Frame.terminals, Untyped.terminals, Untyped.typed, Definition.front, typeTerminals]
    | functionBody name parameters =>
      cases h
      have hproper : (Definition.function name parameters form none).Proper :=
        .function hframe.1 hframe.2 hform fun _ h => by cases h
      refine has_reading hproper hstands hstack ?_
      simp [Frame.terminals, Untyped.terminals, Untyped.typed, Definition.front, typeTerminals]
    | _ => cases h

theorem has_define (hstack : Nested stack) (hdefinition : definition.Proper)
    (h : define definition stack = some m) : m.Has (rowOf stack ++ definition.terminals) := by
  cases stack with
  | nil => cases h
  | cons frame stack =>
    cases frame with
    | definitions done =>
      cases h
      obtain ⟨hframe, hstands, hstack⟩ := hstack
      rw [rowOf, List.append_assoc]
      refine has_reading (List.forall_mem_cons.2 ⟨hdefinition, hframe⟩) hstands hstack ?_
      simp [Frame.terminals]
    | _ => cases h

theorem has_readSymbol {name : String} (hstack : Nested stack) (hname : IsName name)
    (h : readSymbol name stack = some m) : m.Has (rowOf stack ++ [.word name]) := by
  cases stack with
  | nil => exact has_deliver hstack (.symbol hname) (fun _ _ heq => by cases heq) h
  | cons frame stack =>
    have hdeliver (hnamed : ∀ other, frame ≠ .named other)
        (h : deliver (.symbol name) (frame :: stack) = some m) :
        m.Has (rowOf (frame :: stack) ++ [.word name]) :=
      has_deliver hstack (.symbol hname) (fun other _ heq => by
        cases heq
        exact absurd rfl (hnamed other)) h
    cases frame with
    | opened =>
      obtain ⟨_, hstands, hstack⟩ := hstack
      rw [rowOf, List.append_assoc]
      have h : (if name = "let" then some (reading (.scope :: stack))
          else if name = "cond" then some (reading (.choice [] :: stack))
          else some (reading (.call name [] :: stack))) = some m := h
      split at h
      · next heq =>
        cases h
        exact has_reading trivial hstands hstack (heq ▸ rfl)
      split at h
      · next heq =>
        cases h
        refine has_reading ⟨Nat.zero_le 3, fun _ h => by cases h⟩ hstands hstack (heq ▸ rfl)
      · next hlet hcond =>
        cases h
        exact has_reading ⟨hname, hlet, hcond, fun _ h => by cases h⟩ hstands hstack rfl
    | definition =>
      cases h
      obtain ⟨_, hstands, hstack⟩ := hstack
      rw [rowOf, List.append_assoc]
      exact has_reading hname hstands hstack rfl
    | named other =>
      have h : (if name = "lambda" then some (reading (.function other :: stack))
          else deliver (.symbol name) (.named other :: stack)) = some m := h
      split at h
      · next heq =>
        cases h
        obtain ⟨hframe, hstands, hstack⟩ := hstack
        rw [rowOf, List.append_assoc]
        exact has_reading hframe hstands hstack (heq ▸ rfl)
      · next hne =>
        refine has_deliver hstack (.symbol hname) (fun _ _ _ heq => ?_) h
        cases heq
        exact hne rfl
    | parameters other done =>
      cases h
      obtain ⟨hframe, hstands, hstack⟩ := hstack
      rw [rowOf, List.append_assoc]
      refine has_reading ⟨hframe.1, List.forall_mem_cons.2 ⟨hname, hframe.2⟩⟩ hstands hstack ?_
      simp [Frame.terminals]
    | typing untyped =>
      cases h
      obtain ⟨hframe, hstands, hstack⟩ := hstack
      rw [rowOf, List.append_assoc]
      cases untyped with
      | value other body =>
        cases hframe with
        | value hother hbody hlambda _ =>
          refine has_reading (.value hother hbody hlambda ?_) hstands hstack ?_
          · rintro _ ⟨⟩
            exact hname
          · simp [Frame.terminals, Untyped.terminals, Untyped.typed, Definition.front,
              typeTerminals]
      | function other parameters body =>
        cases hframe with
        | function hother hparameters hbody _ =>
          refine has_reading (.function hother hparameters hbody ?_) hstands hstack ?_
          · rintro _ ⟨⟩
            exact hname
          · simp [Frame.terminals, Untyped.terminals, Untyped.typed, Definition.front,
              typeTerminals]
    | _ => exact hdeliver (fun _ heq => by cases heq) h

theorem has_readOpening (hstack : Nested stack) (h : readOpening stack = some m) :
    m.Has (rowOf stack ++ [.opening]) := by
  have hopened (hexpects : expectsForm stack = true) (h : reading (.opened :: stack) = m) :
      m.Has (rowOf stack ++ [.opening]) := by
    subst h
    exact has_reading trivial hexpects hstack rfl
  unfold readOpening at h
  split at h
  · cases h
    obtain ⟨_, hstands, hstack⟩ := hstack
    rw [rowOf, List.append_assoc]
    exact has_reading (fun _ h => by cases h) hstands hstack rfl
  · cases h
    exact has_reading trivial ⟨_, _, rfl⟩ hstack rfl
  · cases h
    obtain ⟨hframe, hstands, hstack⟩ := hstack
    rw [rowOf, List.append_assoc]
    exact has_reading ⟨hframe, fun _ h => by cases h⟩ hstands hstack rfl
  · split at h
    · next hexpects => exact hopened hexpects (Option.some.inj h)
    · cases h

theorem has_readClosing (hstack : Nested stack) (h : readClosing stack = some m) :
    m.Has (rowOf stack ++ [.closing]) := by
  cases stack with
  | nil => cases h
  | cons frame stack =>
    have hnested := hstack
    obtain ⟨hframe, hstands, hstack⟩ := hstack
    have hform {form : Form} (hform : form.Proper) (hne : form ≠ .symbol "lambda")
        (hrow : form.terminals = frame.terminals ++ [.closing])
        (h : deliver form stack = some m) : m.Has (rowOf (frame :: stack) ++ [.closing]) := by
      rw [rowOf, List.append_assoc, ← hrow]
      exact has_deliver hstack hform (fun _ _ _ => hne) h
    have hdefinition {d : Definition} (hd : d.Proper) (hrow : d.front = frame.terminals)
        (h : define d stack = some m) : m.Has (rowOf (frame :: stack) ++ [.closing]) := by
      rw [rowOf, List.append_assoc, ← hrow]
      exact has_define hstack hd h
    cases frame with
    | call name operands =>
      obtain ⟨hname, hlet, hcond, hoperands⟩ := hframe
      refine hform (.call hname hlet hcond fun form h => hoperands form (List.mem_reverse.1 h))
        (fun heq => by cases heq) ?_ h
      rw [Form.terminals, Form.terminalsAll_eq]
      rfl
    | choice parts =>
      unfold readClosing at h
      split at h
      · next heq => cases heq
      · next ifFalse ifTrue test _ heq =>
        cases heq
        simp only [Frame.Proper, List.forall_mem_cons] at hframe
        obtain ⟨_, hfalse, htrue, htest, _⟩ := hframe
        refine hform (.choice htest htrue hfalse) (fun heq => by cases heq) ?_ h
        simp [Form.terminals, Frame.terminals]
      · next heq => cases heq
      · next heq => cases heq
      · next heq => cases heq
      · next heq => cases heq
      · next heq => cases heq
      · cases h
    | definitions done =>
      cases done with
      | nil => cases h
      | cons last done =>
        cases h
        rw [rowOf, List.append_assoc]
        refine has_reading ⟨by simp, fun d h => hframe d (List.mem_reverse.1 h)⟩ hstands hstack ?_
        simp [Frame.terminals]
    | scopeEnd definitions body =>
      refine hform (.scope hframe.1.1 hframe.1.2 hframe.2) (fun heq => by cases heq) ?_ h
      simp [Form.terminals, Definition.terminalsAll_eq, Frame.terminals]
    | parameters name done =>
      cases h
      rw [rowOf, List.append_assoc]
      refine has_reading ⟨hframe.1, fun p h => hframe.2 p (List.mem_reverse.1 h)⟩ hstands hstack ?_
      simp [Frame.terminals]
    | bound untyped => exact hdefinition hframe rfl h
    | typed d => exact hdefinition hframe rfl h
    | _ => cases h

theorem has_readColon (hstack : Nested stack) (h : readColon stack = some m) :
    m.Has (rowOf stack ++ [.colon]) := by
  unfold readColon at h
  split at h
  · cases h
    obtain ⟨hframe, hstands, hstack⟩ := hstack
    rw [rowOf, List.append_assoc]
    exact has_reading hframe hstands hstack rfl
  · cases h

end

/-- **One step** adds the token to what has been read. -/
theorem has_step {k : Lexeme} {text : List Char} {m m' : Machine} (hm : m.Proper)
    (htext : k.Writes text) (h : m.step? k text = some m') :
    m'.Has (m.terminals ++ [(k, text)]) := by
  cases m with
  | finished form => cases h
  | reading stack =>
    have hnumeral (kind : Kind) (htext : kind.lexeme.Writes text)
        (h : deliver (.numeral kind text) stack = some m') :
        m'.Has (rowOf stack ++ [(kind.lexeme, text)]) := by
      have hhas := has_deliver hm (.numeral htext) (fun _ _ _ heq => by cases heq) h
      rwa [Form.terminals] at hhas
    cases k with
    | integer => exact hnumeral .int htext h
    | decimal => exact hnumeral .float htext h
    | symbol =>
      have hword : Terminal.word (String.ofList text) = (.symbol, text) :=
        congrArg (Lexeme.symbol, ·) String.toList_ofList
      rw [← hword]
      refine has_readSymbol hm ?_ h
      rw [IsName, String.toList_ofList]
      exact htext
    | opening =>
      cases htext
      exact has_readOpening hm h
    | closing =>
      cases htext
      exact has_readClosing hm h
    | colon =>
      cases htext
      exact has_readColon hm h

/-- **Many steps**: what the machine has read is the row. -/
theorem has_read {ts : List Terminal} {m m' : Machine} (hm : m.Proper) (hts : Written ts)
    (h : read ts m = some m') : m'.Has (m.terminals ++ ts) := by
  induction ts generalizing m with
  | nil =>
    cases h
    rw [List.append_nil]
    exact ⟨hm, rfl⟩
  | cons t ts ih =>
    obtain ⟨ht, hts⟩ := written_cons.1 hts
    rw [read_cons, Option.bind_eq_some_iff] at h
    obtain ⟨m₁, hstep, hread⟩ := h
    obtain ⟨hproper, hrow⟩ := has_step hm ht hstep
    have hhas := ih hproper hts hread
    rwa [hrow, List.append_assoc] at hhas

/-! ## Closing what is open -/

end Machine

namespace Frame

/-- a row that closes the construct -/
def closer : Frame → List Terminal
  | .opened => [.word "x", .closing]
  | .call .. | .scopeEnd .. | .bound _ | .typed _ => [.closing]
  | .choice parts => List.replicate (3 - parts.length) (.word "x") ++ [.closing]
  | .scope => [.opening, .opening, .word "x", .word "x", .closing, .closing, .word "x", .closing]
  | .definitions _ => [.opening, .word "x", .word "x", .closing, .closing, .word "x", .closing]
  | .scopeBody _ | .functionBody .. | .named _ | .typing _ => [.word "x", .closing]
  | .definition => [.word "x", .word "x", .closing]
  | .function _ => [.opening, .closing, .word "x", .closing]
  | .parameters .. => [.closing, .word "x", .closing]

end Frame

theorem isName_x : IsName "x" := .symbol (by decide) (List.forall_mem_nil _)

theorem written_closer (frame : Frame) : Written frame.closer := by
  have hword := written_word isName_x
  cases frame with
  | choice parts =>
    refine written_append.2 ⟨fun t ht => ?_, by simp [written_closing]⟩
    rw [(List.mem_replicate.1 ht).2]
    exact hword
  | _ => simp [Frame.closer, hword, written_opening, written_closing]

namespace Machine

def height : Machine → Nat
  | .reading stack => stack.length
  | .finished _ => 0

section
variable {stack : List Frame} {m : Machine}

theorem height_deliver {form : Form} (h : deliver form stack = some m) :
    m.height = stack.length := by
  cases stack with
  | nil =>
    cases h
    rfl
  | cons frame stack =>
    cases frame with
    | choice parts =>
      have h : (if parts.length < 3 then some (reading (.choice (form :: parts) :: stack))
          else none) = some m := h
      split at h
      · cases h
        rfl
      · cases h
    | call name operands =>
      cases h
      rfl
    | scopeBody definitions =>
      cases h
      rfl
    | named name =>
      cases h
      rfl
    | functionBody name parameters =>
      cases h
      rfl
    | _ => cases h

/-- the innermost construct is closed by its row -/
theorem exists_closed {frame : Frame} (hframe : frame.Proper) (hstands : frame.StandsOn stack) :
    ∃ m, read frame.closer (.reading (frame :: stack)) = some m ∧ m.height = stack.length := by
  have hform (form : Form) (hexpects : expectsForm stack = true) {ts : List Terminal}
      (hread : read ts (.reading (frame :: stack)) = deliver form stack) :
      ∃ m, read ts (.reading (frame :: stack)) = some m ∧ m.height = stack.length := by
    obtain ⟨m, hm⟩ := deliver_isSome form hexpects
    exact ⟨m, hread.trans hm, height_deliver hm⟩
  have hdefinition (d : Definition) (hstands : ∃ done rest, stack = .definitions done :: rest)
      {ts : List Terminal} (hread : read ts (.reading (frame :: stack)) = define d stack) :
      ∃ m, read ts (.reading (frame :: stack)) = some m ∧ m.height = stack.length := by
    obtain ⟨done, rest, rfl⟩ := hstands
    exact ⟨_, hread, rfl⟩
  have hlast (m : Option Machine) : m.bind (read []) = m := Option.bind_fun_some m
  cases frame with
  | opened => exact hform (.call "x" []) hstands (hlast _)
  | call name operands => exact hform (.call name operands.reverse) hstands (hlast _)
  | choice parts =>
    match parts, hframe.1 with
    | [], _ => exact hform (.choice (.symbol "x") (.symbol "x") (.symbol "x")) hstands (hlast _)
    | [a], _ => exact hform (.choice a (.symbol "x") (.symbol "x")) hstands (hlast _)
    | [b, a], _ => exact hform (.choice a b (.symbol "x")) hstands (hlast _)
    | [c, b, a], _ => exact hform (.choice a b c) hstands (hlast _)
  | scope =>
    exact hform (.scoped [.value "x" (.symbol "x") none] (.symbol "x")) hstands (hlast _)
  | definitions done =>
    let one : Definition := .value "x" (.symbol "x") none
    exact hform (.scoped (one :: done).reverse (.symbol "x")) hstands (hlast _)
  | scopeBody definitions => exact hform (.scoped definitions (.symbol "x")) hstands (hlast _)
  | scopeEnd definitions body => exact hform (.scoped definitions body) hstands (hlast _)
  | definition => exact hdefinition (.value "x" (.symbol "x") none) hstands (hlast _)
  | named name => exact hdefinition (.value name (.symbol "x") none) hstands (hlast _)
  | function name => exact hdefinition (.function name [] (.symbol "x") none) hstands (hlast _)
  | parameters name done =>
    exact hdefinition (.function name done.reverse (.symbol "x") none) hstands (hlast _)
  | functionBody name parameters =>
    exact hdefinition (.function name parameters (.symbol "x") none) hstands (hlast _)
  | bound untyped => exact hdefinition (untyped.typed none) hstands (hlast _)
  | typing untyped => exact hdefinition (untyped.typed (some "x")) hstands (hlast _)
  | typed d => exact hdefinition d hstands (hlast _)

/-- **Open constructs can be closed**: a row goes on with what has been read to a form. -/
theorem exists_finished (hm : m.Proper) :
    ∃ ts form, Written ts ∧ read ts m = some (.finished form) := by
  induction h : m.height generalizing m with
  | zero =>
    cases m with
    | finished form => exact ⟨[], form, written_nil, rfl⟩
    | reading stack =>
      obtain rfl := List.eq_nil_of_length_eq_zero h
      have hx : Written [.word "x"] := written_cons.2 ⟨written_word isName_x, written_nil⟩
      exact ⟨[.word "x"], .symbol "x", hx, read_form (.symbol isName_x)⟩
  | succ n ih =>
    cases m with
    | finished form => cases h
    | reading stack =>
      cases stack with
      | nil => cases h
      | cons frame stack =>
        obtain ⟨hframe, hstands, _⟩ := id hm
        obtain ⟨m, hread, hheight⟩ := exists_closed hframe hstands
        have hcloser := written_closer frame
        have hproper : m.Proper := (has_read hm hcloser hread).1
        obtain ⟨ts, form, hts, hfinished⟩ :=
          ih hproper (hheight.trans (Nat.succ.inj h))
        exact ⟨frame.closer ++ ts, form, written_append.2 ⟨hcloser, hts⟩,
          (read_append_of_read hread).trans hfinished⟩

end

end Machine

/-! ## Sources -/

section
variable {source : List Char} {form : Form}

/-- a source is read to the end, or up to a token or a character that cannot stand where it is -/
theorem parseForm_cases (source : List Char) :
    (∃ form, parseForm source = .ok form ∧ (scan source).stop = none ∧
      Machine.read ((scan source).tokens.map Token.terminal) .start = some (.finished form)) ∨
    (∃ before t after m, parseForm source = .error (.unexpectedToken t.word t.place) ∧
      (scan source).tokens = before ++ t :: after ∧
      Machine.read (before.map Token.terminal) .start = some m ∧ m.step? t.kind t.text = none) ∨
    (∃ c p m, parseForm source = .error (.unexpectedCharacter c p) ∧
      (scan source).stop = some (c, p) ∧
      Machine.read ((scan source).tokens.map Token.terminal) .start = some m) ∨
    ∃ stack, parseForm source = .error (.unexpectedEnd (endPlace (scan source).tokens)) ∧
      (scan source).stop = none ∧
      Machine.read ((scan source).tokens.map Token.terminal) .start = some (.reading stack) := by
  unfold parseForm
  dsimp only
  rcases Machine.run_cases (scan source).tokens .start with
    ⟨m, hrun, hread⟩ | ⟨before, t, after, m, hsplit, hrun, hread, hnone⟩
  · rw [hrun]
    dsimp only
    rcases hstop : (scan source).stop with _ | ⟨c, p⟩
    · cases m with
      | finished form => exact Or.inl ⟨form, rfl, rfl, hread⟩
      | reading stack => exact Or.inr (Or.inr (Or.inr ⟨stack, rfl, rfl, hread⟩))
    · exact Or.inr (Or.inr (Or.inl ⟨c, p, m, rfl, rfl, hread⟩))
  · rw [hrun]
    exact Or.inr (Or.inl ⟨before, t, after, m, rfl, hsplit, hread, hnone⟩)

/-- **The form of a source** is the derivation of the terminals that the source spells. -/
theorem parseForm_eq_ok_iff :
    parseForm source = .ok form ↔ form.Proper ∧ Spelled EndGap form.terminals source := by
  constructor
  · intro h
    rcases parseForm_cases source with
      ⟨form', hok, hstop, hread⟩ | ⟨_, _, _, _, herror, _⟩ | ⟨_, _, _, herror, _⟩ | ⟨_, herror, _⟩
    · rw [h] at hok
      cases hok
      have hspelled : Spelled EndGap ((scan source).tokens.map Token.terminal) source :=
        spelled_iff_scan.2 ⟨hstop, rfl⟩
      obtain ⟨hproper, hrow⟩ := Machine.has_read (m := .start) trivial hspelled.writes hread
      have hrow : form.terminals = (scan source).tokens.map Token.terminal := hrow
      rw [hrow]
      exact ⟨hproper, hspelled⟩
    · cases h.symm.trans herror
    · cases h.symm.trans herror
    · cases h.symm.trans herror
  · rintro ⟨hproper, hspelled⟩
    obtain ⟨hstop, htokens⟩ := (spelled_iff_scan (p := .start)).1 hspelled
    have hstop : (scan source).stop = none := hstop
    have htokens : (scan source).tokens.map Token.terminal = form.terminals := htokens
    have hform := Machine.read_form hproper
    rcases parseForm_cases source with ⟨form', hok, _, hread⟩ |
      ⟨before, t, after, m, _, hsplit, hread, hnone⟩ | ⟨c, p, _, _, hsome, _⟩ | ⟨stack, _, _, hread⟩
    · rw [htokens, hform] at hread
      cases hread
      exact hok
    · rw [← htokens, hsplit, List.map_append, Machine.read_append_of_read hread, List.map_cons,
        Machine.read_cons] at hform
      have hstep : m.step? t.terminal.1 t.terminal.2 = none := hnone
      rw [hstep] at hform
      cases hform
    · rw [hstop] at hsome
      cases hsome
    · rw [htokens, hform] at hread
      cases hread

theorem category_of_parseForm {e : Fault} (h : parseForm source = .error e) :
    e.category = .syntactic := by
  rcases parseForm_cases source with
    ⟨_, hok, _⟩ | ⟨_, _, _, _, herror, _⟩ | ⟨_, _, _, herror, _⟩ | ⟨_, herror, _⟩
  · cases h.symm.trans hok
  · cases h.symm.trans herror
    rfl
  · cases h.symm.trans herror
    rfl
  · cases h.symm.trans herror
    rfl

end

end Abacus
