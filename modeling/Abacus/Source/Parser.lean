import Abacus.Source.Form
import Abacus.Source.Token

/-!
# Reading forms

A machine reads the tokens one by one.  It keeps the constructs that are open, the innermost first,
each with the parts it has already; a finished form goes to the construct around it.  A token either
moves the machine on or cannot stand where it is, so a fault is noticed at the first token that no
program could have there.

* `Frame`              an open construct and the parts it has;
* `Machine`            open constructs, or a finished form;
* `Machine.step?`      one token;
* `Machine.run`        a row of tokens, up to the first that cannot stand where it is;
* `parseForm`          the form of a source, or its first fault.
-/

namespace Abacus

/-! ## Open constructs -/

inductive Untyped where
  | value (name : String) (body : Form)
  | function (name : String) (parameters : List String) (body : Form)

def Untyped.typed (type : Option String) : Untyped → Definition
  | .value name body => .value name body type
  | .function name parameters body => .function name parameters body type

inductive Frame where
  /-- an opening parenthesis of a form -/
  | opened
  | call (name : String) (operands : List Form)
  | choice (parts : List Form)
  /-- the word for definitions, before their list -/
  | scope
  | definitions (done : List Definition)
  /-- definitions before the form they stand around -/
  | scopeBody (definitions : List Definition)
  | scopeEnd (definitions : List Definition) (body : Form)
  /-- an opening parenthesis of a definition -/
  | definition
  | named (name : String)
  /-- a function before its parameters -/
  | function (name : String)
  /-- the parameters of a function -/
  | parameters (name : String) (done : List String)
  | functionBody (name : String) (parameters : List String)
  /-- a definition before its type or end -/
  | bound (definition : Untyped)
  /-- a definition after the colon -/
  | typing (definition : Untyped)
  | typed (definition : Definition)

inductive Machine where
  | reading (stack : List Frame)
  | finished (form : Form)

namespace Machine

def start : Machine := .reading []

/-! ## One token -/

def expectsForm : List Frame → Bool
  | [] => true
  | .call .. :: _ => true
  | .choice parts :: _ => parts.length < 3
  | .scopeBody _ :: _ => true
  | .named _ :: _ => true
  | .functionBody .. :: _ => true
  | _ => false

def deliver (form : Form) : List Frame → Option Machine
  | [] => some (.finished form)
  | .call name operands :: stack => some (.reading (.call name (form :: operands) :: stack))
  | .choice parts :: stack =>
    if parts.length < 3 then some (.reading (.choice (form :: parts) :: stack)) else none
  | .scopeBody definitions :: stack => some (.reading (.scopeEnd definitions form :: stack))
  | .named name :: stack => some (.reading (.bound (.value name form) :: stack))
  | .functionBody name parameters :: stack =>
    some (.reading (.bound (.function name parameters form) :: stack))
  | _ => none

def define (definition : Definition) : List Frame → Option Machine
  | .definitions done :: stack => some (.reading (.definitions (definition :: done) :: stack))
  | _ => none

/-- a symbol: a keyword right after the parenthesis of a form or the name of a definition, a name
where one is due, else a form -/
def readSymbol (word : String) : List Frame → Option Machine
  | .opened :: stack =>
    if word = "let" then some (.reading (.scope :: stack))
    else if word = "cond" then some (.reading (.choice [] :: stack))
    else some (.reading (.call word [] :: stack))
  | .definition :: stack => some (.reading (.named word :: stack))
  | .named name :: stack =>
    if word = "lambda" then some (.reading (.function name :: stack))
    else deliver (.symbol word) (.named name :: stack)
  | .parameters name done :: stack => some (.reading (.parameters name (word :: done) :: stack))
  | .typing definition :: stack =>
    some (.reading (.typed (definition.typed (some word)) :: stack))
  | stack => deliver (.symbol word) stack

def readOpening : List Frame → Option Machine
  | .scope :: stack => some (.reading (.definitions [] :: stack))
  | .definitions done :: stack => some (.reading (.definition :: .definitions done :: stack))
  | .function name :: stack => some (.reading (.parameters name [] :: stack))
  | stack => if expectsForm stack then some (.reading (.opened :: stack)) else none

def readClosing : List Frame → Option Machine
  | .call name operands :: stack => deliver (.call name operands.reverse) stack
  | .choice [ifFalse, ifTrue, test] :: stack => deliver (.choice test ifTrue ifFalse) stack
  | .definitions (last :: done) :: stack =>
    some (.reading (.scopeBody (last :: done).reverse :: stack))
  | .scopeEnd definitions body :: stack => deliver (.scoped definitions body) stack
  | .parameters name done :: stack => some (.reading (.functionBody name done.reverse :: stack))
  | .bound definition :: stack => define (definition.typed none) stack
  | .typed definition :: stack => define definition stack
  | _ => none

def readColon : List Frame → Option Machine
  | .bound definition :: stack => some (.reading (.typing definition :: stack))
  | _ => none

/-- **One token**; none if it cannot stand where it is -/
def step? (kind : Lexeme) (text : List Char) : Machine → Option Machine
  | .finished _ => none
  | .reading stack =>
    match kind with
    | .integer => deliver (.numeral .int text) stack
    | .decimal => deliver (.numeral .float text) stack
    | .symbol => readSymbol (String.ofList text) stack
    | .opening => readOpening stack
    | .closing => readClosing stack
    | .colon => readColon stack

/-! ## Many tokens -/

def run : List Token → Machine → Except Token Machine
  | [], m => .ok m
  | t :: rest, m =>
    match m.step? t.kind t.text with
    | some m => run rest m
    | none => .error t

end Machine

/-! ## A source -/

/-- where the end of a source is reported: the place of its last token -/
def endPlace (tokens : List Token) : Place := ((tokens.getLast?).map (·.place)).getD .start

/-- **The form of a source**, or its first fault -/
def parseForm (source : List Char) : Except Fault Form :=
  let scanned := scan source
  match Machine.run scanned.tokens .start with
  | .error t => .error (.unexpectedToken t.word t.place)
  | .ok m =>
    match scanned.stop, m with
    | some (c, p), _ => .error (.unexpectedCharacter c p)
    | none, .finished form => .ok form
    | none, .reading _ => .error (.unexpectedEnd (endPlace scanned.tokens))

end Abacus
