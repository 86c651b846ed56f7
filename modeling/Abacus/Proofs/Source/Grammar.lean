import Abacus.Proofs.Source.Terminal
import Abacus.Source.Form

/-!
# The grammar

A form is a derivation in the grammar; its terminals are the row that it derives.  Derivations are
told from other forms by what their texts are, and by the words that the grammar reads otherwise: a
call is not named by a keyword, and a value is not the bare word for functions.

* `Form.induction`    induction on forms and definitions at once;
* `Form.bodyInduction`    induction on forms alone;
* `Form.terminals`    the row of terminals that a form derives;
* `Form.Proper`       the derivations.
-/

namespace Abacus

/-! ## Induction -/

section
variable {motive : Form → Prop} {bound : Definition → Prop}

/-- **Induction on forms and definitions at once**, the parts of a list all being smaller. -/
theorem Form.induction (numeral : ∀ kind text, motive (.numeral kind text))
    (symbol : ∀ name, motive (.symbol name))
    (call : ∀ name operands, (∀ form ∈ operands, motive form) → motive (.call name operands))
    (choice : ∀ test ifTrue ifFalse, motive test → motive ifTrue → motive ifFalse →
      motive (.choice test ifTrue ifFalse))
    (scope : ∀ definitions body, (∀ d ∈ definitions, bound d) → motive body →
      motive (.scoped definitions body))
    (value : ∀ name body type, motive body → bound (.value name body type))
    (function : ∀ name parameters body type, motive body →
      bound (.function name parameters body type)) :
    (∀ form, motive form) ∧ ∀ d, bound d := by
  refine ⟨fun form => ?_, fun d => ?_⟩
  · exact @Form.rec motive bound (fun forms => ∀ form ∈ forms, motive form)
      (fun definitions => ∀ d ∈ definitions, bound d)
      numeral symbol call choice scope value function (fun _ h => by cases h)
      (fun _ _ hd hrest => List.forall_mem_cons.2 ⟨hd, hrest⟩) (fun _ h => by cases h)
      (fun _ _ hd hrest => List.forall_mem_cons.2 ⟨hd, hrest⟩) form
  · exact @Definition.rec motive bound (fun forms => ∀ form ∈ forms, motive form)
      (fun definitions => ∀ d ∈ definitions, bound d)
      numeral symbol call choice scope value function (fun _ h => by cases h)
      (fun _ _ hd hrest => List.forall_mem_cons.2 ⟨hd, hrest⟩) (fun _ h => by cases h)
      (fun _ _ hd hrest => List.forall_mem_cons.2 ⟨hd, hrest⟩) d

/-- induction on forms alone, for what depends on the parts of a call or a conditional and on the
body of a scope -/
@[elab_as_elim]
theorem Form.bodyInduction (form : Form) (numeral : ∀ kind text, motive (.numeral kind text))
    (symbol : ∀ name, motive (.symbol name))
    (call : ∀ name operands, (∀ form ∈ operands, motive form) → motive (.call name operands))
    (choice : ∀ test ifTrue ifFalse, motive test → motive ifTrue → motive ifFalse →
      motive (.choice test ifTrue ifFalse))
    (scope : ∀ definitions body, motive body → motive (.scoped definitions body)) : motive form :=
  (@Form.induction motive (fun _ => True) numeral symbol call choice
    (fun definitions body _ => scope definitions body) (fun _ _ _ _ => trivial)
    (fun _ _ _ _ _ => trivial)).1 form

end

/-! ## Terminals of forms -/

namespace Terminal

def opening : Terminal := (.opening, ['('])

def closing : Terminal := (.closing, [')'])

def colon : Terminal := (.colon, [':'])

def word (name : String) : Terminal := (.symbol, name.toList)

end Terminal

def Kind.lexeme : Kind → Lexeme
  | .int => .integer
  | .float => .decimal

def typeTerminals : Option String → List Terminal
  | none => []
  | some type => [.colon, .word type]

mutual

/-- **The row of terminals that a form derives** -/
def Form.terminals : Form → List Terminal
  | .numeral kind text => [(kind.lexeme, text)]
  | .symbol name => [.word name]
  | .call name operands => .opening :: .word name :: (Form.terminalsAll operands ++ [.closing])
  | .choice test ifTrue ifFalse => .opening :: .word "cond" ::
      (test.terminals ++ (ifTrue.terminals ++ (ifFalse.terminals ++ [.closing])))
  | .scoped definitions body => .opening :: .word "let" :: .opening ::
      (Definition.terminalsAll definitions ++ .closing :: (body.terminals ++ [.closing]))

def Form.terminalsAll : List Form → List Terminal
  | [] => []
  | form :: rest => form.terminals ++ Form.terminalsAll rest

/-- the terminals of a definition, its closing parenthesis left out -/
def Definition.front : Definition → List Terminal
  | .value name body type => .opening :: .word name :: (body.terminals ++ typeTerminals type)
  | .function name parameters body type => .opening :: .word name :: .word "lambda" :: .opening ::
      (parameters.map .word ++ .closing :: (body.terminals ++ typeTerminals type))

def Definition.terminalsAll : List Definition → List Terminal
  | [] => []
  | definition :: rest => definition.front ++ .closing :: Definition.terminalsAll rest

end

def Definition.terminals (definition : Definition) : List Terminal := definition.front ++ [.closing]

theorem Form.terminalsAll_eq (forms : List Form) :
    Form.terminalsAll forms = forms.flatMap Form.terminals := by
  induction forms with
  | nil => simp [Form.terminalsAll]
  | cons form rest ih => rw [Form.terminalsAll, ih, List.flatMap_cons]

theorem Definition.terminalsAll_eq (definitions : List Definition) :
    Definition.terminalsAll definitions = definitions.flatMap Definition.terminals := by
  induction definitions with
  | nil => simp [Definition.terminalsAll]
  | cons definition rest ih =>
    rw [Definition.terminalsAll, ih, List.flatMap_cons, Definition.terminals, List.append_assoc]
    rfl

/-! ## Derivations -/

def IsName (name : String) : Prop := Lexeme.symbol.Writes name.toList

mutual

/-- **The derivations in the grammar**, no call named by a keyword and no value the bare word for
functions -/
inductive Form.Proper : Form → Prop
  | numeral {kind : Kind} {text : List Char} : kind.lexeme.Writes text →
      Form.Proper (.numeral kind text)
  | symbol {name : String} : IsName name → Form.Proper (.symbol name)
  | call {name : String} {operands : List Form} : IsName name → name ≠ "let" → name ≠ "cond" →
      (∀ form ∈ operands, form.Proper) → Form.Proper (.call name operands)
  | choice {test ifTrue ifFalse : Form} : test.Proper → ifTrue.Proper → ifFalse.Proper →
      Form.Proper (.choice test ifTrue ifFalse)
  | scope {definitions : List Definition} {body : Form} : definitions ≠ [] →
      (∀ d ∈ definitions, d.Proper) → body.Proper → Form.Proper (.scoped definitions body)

inductive Definition.Proper : Definition → Prop
  | value {name : String} {body : Form} {type : Option String} : IsName name → body.Proper →
      body ≠ .symbol "lambda" → (∀ word ∈ type, IsName word) →
      Definition.Proper (.value name body type)
  | function {name : String} {parameters : List String} {body : Form} {type : Option String} :
      IsName name → (∀ p ∈ parameters, IsName p) → body.Proper → (∀ word ∈ type, IsName word) →
      Definition.Proper (.function name parameters body type)

end

theorem isName_let : IsName "let" := .symbol (by decide) (List.all_eq_true.1 (by decide))

theorem isName_cond : IsName "cond" := .symbol (by decide) (List.all_eq_true.1 (by decide))

theorem isName_lambda : IsName "lambda" :=
  .symbol (by decide) (List.all_eq_true.1 (by decide))

section
variable {ts us : List Terminal}

def Written (ts : List Terminal) : Prop := ∀ t ∈ ts, t.1.Writes t.2

@[simp] theorem written_nil : Written [] := fun _ ht => by cases ht

@[simp] theorem written_cons {t : Terminal} : Written (t :: ts) ↔ t.1.Writes t.2 ∧ Written ts :=
  List.forall_mem_cons

@[simp] theorem written_append : Written (ts ++ us) ↔ Written ts ∧ Written us :=
  List.forall_mem_append

theorem written_opening : Terminal.opening.1.Writes Terminal.opening.2 := .opening

theorem written_closing : Terminal.closing.1.Writes Terminal.closing.2 := .closing

theorem written_word {name : String} (h : IsName name) :
    (Terminal.word name).1.Writes (Terminal.word name).2 := h

theorem written_type {type : Option String} (h : ∀ word ∈ type, IsName word) :
    Written (typeTerminals type) := by
  cases type with
  | none => exact written_nil
  | some type => exact written_cons.2 ⟨.colon, written_cons.2 ⟨h type rfl, written_nil⟩⟩

theorem written_flatMap {α : Type} {row : α → List Terminal} {parts : List α}
    (h : ∀ part ∈ parts, Written (row part)) : Written (parts.flatMap row) := by
  intro t ht
  obtain ⟨part, hpart, ht⟩ := List.mem_flatMap.1 ht
  exact h part hpart t ht

/-- **The terminals of a derivation are texts of their classes.** -/
theorem Form.Proper.written : (∀ form : Form, form.Proper → Written form.terminals) ∧
    ∀ d : Definition, d.Proper → Written d.terminals := by
  refine Form.induction ?_ ?_ ?_ ?_ ?_ ?_ ?_
  · intro kind text h
    cases h with
    | numeral htext => exact written_cons.2 ⟨htext, written_nil⟩
  · intro name h
    cases h with
    | symbol hname => exact written_cons.2 ⟨hname, written_nil⟩
  · intro name operands ih h
    cases h with
    | call hname _ _ hoperands =>
      have hrow := written_flatMap fun form hform => ih form hform (hoperands form hform)
      simp [Form.terminals, Form.terminalsAll_eq, hrow, written_opening, written_closing,
        written_word hname]
  · intro test ifTrue ifFalse ihtest ihtrue ihfalse h
    cases h with
    | choice htest htrue hfalse =>
      simp [Form.terminals, ihtest htest, ihtrue htrue, ihfalse hfalse, written_opening,
        written_closing, written_word isName_cond]
  · intro definitions body ihdefinitions ihbody h
    cases h with
    | scope _ hdefinitions hbody =>
      have hrow := written_flatMap fun d hd => ihdefinitions d hd (hdefinitions d hd)
      simp [Form.terminals, Definition.terminalsAll_eq, hrow, ihbody hbody, written_opening,
        written_closing, written_word isName_let]
  · intro name body type ih h
    cases h with
    | value hname hbody _ htype =>
      simp [Definition.terminals, Definition.front, ih hbody, written_type htype, written_opening,
        written_closing, written_word hname]
  · intro name parameters body type ih h
    cases h with
    | function hname hparameters hbody htype =>
      have hrow : Written (parameters.map .word) := List.forall_mem_map.2 hparameters
      simp [Definition.terminals, Definition.front, hrow, ih hbody, written_type htype,
        written_opening, written_closing, written_word hname, written_word isName_lambda]

end

end Abacus
