import Abacus.Number

/-!
# Forms

The derivation of a source in the grammar: what its tokens say, before any node is made.

    form       := integer | decimal | symbol
                | "(" symbol form* ")"
                | "(" "let" "(" definition+ ")" form ")"
                | "(" "cond" form form form ")"
    definition := "(" symbol form [":" symbol] ")"
                | "(" symbol "lambda" "(" symbol* ")" form [":" symbol] ")"

* `Form`, `Definition`;
* `Definition.name`, `Definition.body`   what a definition names, and what it is named for.
-/

namespace Abacus

mutual

inductive Form where
  /-- a number, with the characters that write it -/
  | numeral (kind : Kind) (text : List Char)
  | symbol (name : String)
  | call (name : String) (operands : List Form)
  | choice (test ifTrue ifFalse : Form)
  | scoped (definitions : List Definition) (body : Form)

inductive Definition where
  | value (name : String) (body : Form) (type : Option String)
  | function (name : String) (parameters : List String) (body : Form) (type : Option String)

end

namespace Definition

def name : Definition → String
  | .value name _ _ => name
  | .function name _ _ _ => name

/-- the value of a variable, or what a function does -/
def body : Definition → Form
  | .value _ body _ => body
  | .function _ _ body _ => body

end Definition

end Abacus
