import Abacus.Proofs.Forms.Scene
import Abacus.Proofs.Source.Grammar

/-!
# Names in forms

A name occurs in a form as a symbol or as the name of a call of a function of the program, inside
some definitions and parameters, which bind their names around it.  What is around a form in a
program is a context.

* `Form.Occurs`        the occurrences of a name, with the names bound around each;
* `Form.Free`, `Form.FreeCall`, `Form.Around`   what is said of the free ones;
* `Form.Each`          what holds of every free occurrence;
* `Context.fill`       a form put into a context.
-/

namespace Abacus

/-! ## Occurrences -/

inductive Usage where
  | symbol
  /-- the name of a call that is not built in -/
  | call
  deriving DecidableEq

mutual

/-- **A name occurs in a form**, for a usage and inside some binders, the outermost first; all names
of a scope are bound around its values and its body. -/
inductive Form.Occurs (x : String) : Usage → List String → Form → Prop
  | symbol : Form.Occurs x .symbol [] (.symbol x)
  | call {operands : List Form} : Builtin.ofName? x = none →
      Form.Occurs x .call [] (.call x operands)
  | operand {usage : Usage} {binders : List String} {name : String} {operands : List Form}
      {form : Form} : form ∈ operands → form.Occurs x usage binders →
      Form.Occurs x usage binders (.call name operands)
  | test {usage : Usage} {binders : List String} {test ifTrue ifFalse : Form} :
      test.Occurs x usage binders → Form.Occurs x usage binders (.choice test ifTrue ifFalse)
  | ifTrue {usage : Usage} {binders : List String} {test ifTrue ifFalse : Form} :
      ifTrue.Occurs x usage binders → Form.Occurs x usage binders (.choice test ifTrue ifFalse)
  | ifFalse {usage : Usage} {binders : List String} {test ifTrue ifFalse : Form} :
      ifFalse.Occurs x usage binders → Form.Occurs x usage binders (.choice test ifTrue ifFalse)
  | definition {usage : Usage} {binders : List String} {definitions : List Definition} {body : Form}
      {d : Definition} : d ∈ definitions → d.Occurs x usage binders →
      Form.Occurs x usage (definitions.map (·.name) ++ binders) (.scoped definitions body)
  | body {usage : Usage} {binders : List String} {definitions : List Definition} {body : Form} :
      body.Occurs x usage binders →
      Form.Occurs x usage (definitions.map (·.name) ++ binders) (.scoped definitions body)

inductive Definition.Occurs (x : String) : Usage → List String → Definition → Prop
  | value {usage : Usage} {binders : List String} {name : String} {body : Form}
      {type : Option String} : body.Occurs x usage binders →
      Definition.Occurs x usage binders (.value name body type)
  | function {usage : Usage} {binders : List String} {name : String} {parameters : List String}
      {body : Form} {type : Option String} : body.Occurs x usage binders →
      Definition.Occurs x usage (parameters ++ binders) (.function name parameters body type)

end

def Form.Free (form : Form) (x : String) : Prop :=
  ∃ usage binders, form.Occurs x usage binders ∧ x ∉ binders

def Form.FreeCall (form : Form) (x : String) : Prop :=
  ∃ binders, form.Occurs x .call binders ∧ x ∉ binders

/-- a name `y` is bound around a free occurrence of a name -/
def Form.Around (form : Form) (x y : String) : Prop :=
  ∃ usage binders, form.Occurs x usage binders ∧ x ∉ binders ∧ y ∈ binders

theorem occurs_symbol {x y : String} {usage : Usage} {binders : List String}
    (h : (Form.symbol y).Occurs x usage binders) : y = x ∧ usage = .symbol ∧ binders = [] := by
  cases h
  exact ⟨rfl, rfl, rfl⟩

/-! ## What holds of every free occurrence -/

/-- every free occurrence of a name has a property, given the binders around it -/
def Form.Each (P : String → Usage → List String → Prop) (form : Form) : Prop :=
  ∀ x usage binders, form.Occurs x usage binders → x ∉ binders → P x usage binders

def Definition.Each (P : String → Usage → List String → Prop) (d : Definition) : Prop :=
  ∀ x usage binders, d.Occurs x usage binders → x ∉ binders → P x usage binders

/-- a property of free occurrences inside binders, as a property of those in a part -/
def Enclosed (names : List String) (P : String → Usage → List String → Prop) (x : String)
    (usage : Usage) (binders : List String) : Prop :=
  x ∉ names → P x usage (names ++ binders)

section
variable {P : String → Usage → List String → Prop} {x name : String} {operands : List Form}
  {a b c form : Form} {definitions : List Definition} {parameters : List String}
  {type : Option String}

theorem each_symbol (h : (Form.symbol x).Each P) : P x .symbol [] :=
  h x .symbol [] .symbol List.not_mem_nil

theorem each_call (h : (Form.call name operands).Each P) :
    (Builtin.ofName? name = none → P name .call []) ∧ ∀ form ∈ operands, form.Each P :=
  ⟨fun hname => h name .call [] (.call hname) List.not_mem_nil,
    fun _ hform x usage binders hoccurs => h x usage binders (.operand hform hoccurs)⟩

theorem each_choice (h : (Form.choice a b c).Each P) : a.Each P ∧ b.Each P ∧ c.Each P :=
  ⟨fun x usage binders hoccurs => h x usage binders (.test hoccurs),
    fun x usage binders hoccurs => h x usage binders (.ifTrue hoccurs),
    fun x usage binders hoccurs => h x usage binders (.ifFalse hoccurs)⟩

theorem each_scope (h : (Form.scoped definitions form).Each P) :
    (∀ d ∈ definitions, d.Each (Enclosed (definitions.map (·.name)) P)) ∧
      form.Each (Enclosed (definitions.map (·.name)) P) := by
  constructor
  · intro d hd x usage binders hoccurs hfree hx
    exact h x usage _ (.definition hd hoccurs) (by simp only [List.mem_append, hx, hfree, or_self,
      not_false_eq_true])
  · intro x usage binders hoccurs hfree hx
    exact h x usage _ (.body hoccurs) (by simp only [List.mem_append, hx, hfree, or_self,
      not_false_eq_true])

theorem each_value (h : (Definition.value name form type).Each P) : form.Each P :=
  fun x usage binders hoccurs => h x usage binders (.value hoccurs)

theorem each_function (h : (Definition.function name parameters form type).Each P) :
    form.Each (Enclosed parameters P) := by
  intro x usage binders hoccurs hfree hx
  exact h x usage _ (.function hoccurs) (by simp only [List.mem_append, hx, hfree, or_self,
    not_false_eq_true])

theorem Form.Each.mono {Q : String → Usage → List String → Prop} (h : form.Each P)
    (hPQ : ∀ x usage binders, P x usage binders → Q x usage binders) : form.Each Q :=
  fun x usage binders hoccurs hfree => hPQ x usage binders (h x usage binders hoccurs hfree)

theorem Definition.Each.mono {Q : String → Usage → List String → Prop} {d : Definition}
    (h : d.Each P) (hPQ : ∀ x usage binders, P x usage binders → Q x usage binders) : d.Each Q :=
  fun x usage binders hoccurs hfree => hPQ x usage binders (h x usage binders hoccurs hfree)

end

/-! ## Contexts -/

/-- **A program with a hole** in the place of one form -/
inductive Context where
  | hole
  | operand (name : String) (before : List Form) (inside : Context) (after : List Form)
  | test (inside : Context) (ifTrue ifFalse : Form)
  | ifTrue (test : Form) (inside : Context) (ifFalse : Form)
  | ifFalse (test ifTrue : Form) (inside : Context)
  | value (before : List Definition) (name : String) (inside : Context) (type : Option String)
      (after : List Definition) (body : Form)
  | function (before : List Definition) (name : String) (parameters : List String)
      (inside : Context) (type : Option String) (after : List Definition) (body : Form)
  | body (definitions : List Definition) (inside : Context)

def Context.fill : Context → Form → Form
  | .hole, form => form
  | .operand name before inside after, form => .call name (before ++ inside.fill form :: after)
  | .test inside b c, form => .choice (inside.fill form) b c
  | .ifTrue a inside c, form => .choice a (inside.fill form) c
  | .ifFalse a b inside, form => .choice a b (inside.fill form)
  | .value before name inside type after around, form =>
    .scoped (before ++ .value name (inside.fill form) type :: after) around
  | .function before name parameters inside type after around, form =>
    .scoped (before ++ .function name parameters (inside.fill form) type :: after) around
  | .body definitions inside, form => .scoped definitions (inside.fill form)

end Abacus
