/-!
# Operators

The operators of a call: the 22 built-in ones and the custom one, which stands for a function of
the program.  The built-in ones are ordered by how many operands they take.

* `Builtin`, `Builtin.name`, `Builtin.ofName?`;
* `Arity`               how many operands a built-in operator takes;
* `Operator`            a built-in operator or the custom one;
* `Operator.code`       the number of an operator.
-/

namespace Abacus

inductive Builtin where
  | read | rand
  | neg | abs | exp | sqrt | log | exp2 | cbrt
  | remainder | pow | max | min | hypot | equal | less | greater
  | add | sub | mult | div | print
  deriving DecidableEq, Repr

inductive Arity where
  | nonary
  | unary
  | binary
  | variadic
  deriving DecidableEq, Repr

namespace Arity

def least : Arity → Nat
  | .nonary => 0
  | .unary => 1
  | .binary => 2
  | .variadic => 0

def most? : Arity → Option Nat
  | .nonary => some 0
  | .unary => some 1
  | .binary => some 2
  | .variadic => none

end Arity

namespace Builtin

def all : List Builtin :=
  [.read, .rand, .neg, .abs, .exp, .sqrt, .log, .exp2, .cbrt, .remainder, .pow, .max, .min, .hypot,
    .equal, .less, .greater, .add, .sub, .mult, .div, .print]

def name : Builtin → String
  | .read => "read"
  | .rand => "rand"
  | .neg => "neg"
  | .abs => "abs"
  | .exp => "exp"
  | .sqrt => "sqrt"
  | .log => "log"
  | .exp2 => "exp2"
  | .cbrt => "cbrt"
  | .remainder => "remainder"
  | .pow => "pow"
  | .max => "max"
  | .min => "min"
  | .hypot => "hypot"
  | .equal => "equal"
  | .less => "less"
  | .greater => "greater"
  | .add => "add"
  | .sub => "sub"
  | .mult => "mult"
  | .div => "div"
  | .print => "print"

def ofName? (s : String) : Option Builtin := all.find? (·.name == s)

def arity : Builtin → Arity
  | .read | .rand => .nonary
  | .neg | .abs | .exp | .sqrt | .log | .exp2 | .cbrt => .unary
  | .remainder | .pow | .max | .min | .hypot | .equal | .less | .greater => .binary
  | .add | .sub | .mult | .div | .print => .variadic

/-- only `print` receives its operands unevaluated -/
def isLazy (b : Builtin) : Bool := b == .print

theorem mem_all (b : Builtin) : b ∈ all := by cases b <;> decide

theorem ofName?_name (b : Builtin) : ofName? b.name = some b := by cases b <;> decide

theorem name_of_ofName? {s : String} {b : Builtin} (h : ofName? s = some b) : b.name = s := by
  have := List.find?_some h
  simpa using this

end Builtin

inductive Operator where
  | builtin (b : Builtin)
  | custom
  deriving DecidableEq, Repr

namespace Operator

/-- the operator that a name in a call stands for: a function of the program unless built in -/
def ofName (s : String) : Operator :=
  match Builtin.ofName? s with
  | some b => .builtin b
  | none => .custom

def code : Operator → Nat
  | .builtin b => Builtin.all.idxOf b
  | .custom => 255

def name : Operator → String
  | .builtin b => b.name
  | .custom => "custom"

def all : List Operator := Builtin.all.map .builtin ++ [.custom]

end Operator

end Abacus
