import Abacus.Amount.Refusal
import Abacus.Text.Quoted

/-!
# Faults

What stops the program: each fault is a cause, with its text in one function.

* `Place`             a line and a column of a source;
* `Fault`             the causes;
* `Fault.message`     the text of a fault;
* `Fault.category`    the family of a fault;
* `Fault.isReported`  the command line reports the fault and goes on; the others end it.
-/

namespace Abacus

structure Place where
  line : Nat
  column : Nat
  deriving DecidableEq, Repr

def Place.start : Place := ⟨1, 1⟩

inductive Fault where
  | unexpectedEnd (place : Place)
  | unexpectedToken (text : String) (place : Place)
  | unexpectedCharacter (character : Char) (place : Place)
  | unknownType (name : String)
  | invalidValue (typeName : String)
  | namelessCall
  | notFunction (ident : String)
  | notVariable (ident : String)
  | tooFewOperands (operator : String) (least : Nat) (count : Int)
  | tooFewArguments (ident : String) (expected count : Nat)
  | notNode (typeName : String)
  | operandLacking
  | refused (refusal : Refusal)
  | notBuiltin (code : Nat)
  | inputEnd
  | tooDeep
  | unresolved (ident : String)
  | circular (ident : String)
  | tableTaken
  | contextMissing
  | arityOpen
  | notDecimal (text : String)
  | placesTooMany
  | placesTooLong
  | placesNegative
  | sourceMissing
  | argumentUnexpected (argument : String)
  | nameTooLong (path : String)
  | isDirectory (path : String)
  deriving DecidableEq, Repr

namespace Fault

inductive Category where
  | syntactic
  | type
  | arity
  | node
  | input
  | recursion
  | unresolved
  | circular
  | value
  | operand
  | exit
  | system
  deriving DecidableEq, Repr

def category : Fault → Category
  | .unexpectedEnd _ | .unexpectedToken .. | .unexpectedCharacter .. => .syntactic
  | .unknownType _ | .invalidValue _ | .namelessCall | .notFunction _ | .notVariable _ => .type
  | .tooFewOperands .. | .tooFewArguments .. => .arity
  | .notNode _ | .notBuiltin _ => .node
  | .inputEnd => .input
  | .tooDeep => .recursion
  | .unresolved _ => .unresolved
  | .circular _ => .circular
  | .tableTaken | .contextMissing | .arityOpen | .notDecimal _ => .value
  | .placesTooMany | .placesTooLong | .placesNegative | .refused _ => .value
  | .operandLacking => .operand
  | .sourceMissing | .argumentUnexpected _ => .exit
  | .nameTooLong _ | .isDirectory _ => .system

/-- faults of the program that is run, as opposed to faults of its surroundings -/
def isReported (f : Fault) : Bool :=
  match f.category with
  | .value | .operand | .exit | .system => false
  | _ => true

def place? : Fault → Option Place
  | .unexpectedEnd p => some p
  | .unexpectedToken _ p => some p
  | .unexpectedCharacter _ p => some p
  | _ => none

def ident? : Fault → Option String
  | .unresolved x => some x
  | .circular x => some x
  | _ => none

def cause : Fault → String
  | .unexpectedEnd _ => "Unexpected end of input"
  | .unexpectedToken text _ => "Unexpected token " ++ quoted text
  | .unexpectedCharacter c _ => "Unexpected character " ++ quoted (String.singleton c)
  | .unknownType name => "Unknown type name '" ++ name ++ "'"
  | .invalidValue typeName => "Invalid value type " ++ typeName ++ " in format_value"
  | .namelessCall => "Custom call without a function name"
  | .notFunction f => "'" ++ f ++ "' is a variable, not a function"
  | .notVariable x => "'" ++ x ++ "' is a function, not a variable"
  | .tooFewOperands f least count =>
    f ++ " expects at least " ++ toString least ++ " argument(s); got " ++ toString count
  | .tooFewArguments f expected count =>
    "Function '" ++ f ++ "' expects " ++ toString expected ++ " args; got " ++ toString count
  | .notNode typeName => "Invalid AST node kind " ++ typeName
  | .operandLacking => "list index out of range"
  | .refused refusal => refusal.message
  | .notBuiltin code => "No built-in registered for operator code " ++ toString code
  | .inputEnd => "read: end of input"
  | .tooDeep => "maximum recursion depth exceeded during evaluation"
  | .unresolved x => "Undefined symbol '" ++ x ++ "'"
  | .circular x => "Definition of '" ++ x ++ "' depends on itself"
  | .tableTaken => "scope table already attached to another node"
  | .contextMissing => "root Env requires a Context"
  | .arityOpen => "custom calls have no fixed arity class"
  | .notDecimal text => "not a decimal number: " ++ quoted text
  | .placesTooMany => "precision too big"
  | .placesTooLong => "Too many decimal digits in format string"
  | .placesNegative => "Format specifier missing precision"
  | .sourceMissing => "No input provided on stdin"
  | .argumentUnexpected a => "Unexpected argument: " ++ a
  | .nameTooLong path => "[Errno 36] File name too long: " ++ quoted path
  | .isDirectory path => "[Errno 21] Is a directory: " ++ quoted path

def message (f : Fault) : String :=
  match f.place? with
  | some p =>
    f.cause ++ " (line " ++ toString p.line ++ ", col " ++ toString p.column ++ ")"
  | none => f.cause

end Fault

end Abacus
