import Abacus.Text.Quoted
import Abacus.Amount.Shortest

/-!
# Diagnostics

What is reported without stopping the program.  A remark says what happened; the diagnostic made
from it has a concern, a severity and a text, and goes to a sink.

* `Remark`                what happened;
* `Diagnostic`            concern, severity and text;
* `Remark.diagnostic`     the diagnostic of a remark;
* `Sink`                  where diagnostics go, with what it holds so far.
-/

namespace Abacus

/-! ## Diagnostics -/

inductive Concern where
  | unresolvedSymbol
  | arityTooMany
  | conflictingDefinition
  | precisionLoss
  | invalidInputFormat
  | invalidType
  deriving DecidableEq, Repr

inductive Severity where
  | warning
  | error
  deriving DecidableEq, Repr

def Severity.text : Severity → String
  | .warning => "WARNING"
  | .error => "ERROR"

structure Diagnostic where
  concern : Concern
  message : String
  severity : Severity
  deriving DecidableEq, Repr

def Diagnostic.text (d : Diagnostic) : String := d.severity.text ++ ": " ++ d.message

/-! ## Remarks -/

inductive Remark where
  | undefinedSymbol (ident : String)
  | undefinedFunction (ident : String)
  | surplusOperands (operator : String) (most : Nat) (count : Int)
  | surplusArguments (ident : String) (expected count : Nat)
  | repeatedParameter (parameter ident : String)
  | conflictingDefinition (ident : String)
  | precisionLoss (amount : Amount) (ident : String)
  | invalidLine (line : String)
  | unknownType (name : String)
  deriving DecidableEq

namespace Remark

def concern : Remark → Concern
  | .undefinedSymbol _ => .unresolvedSymbol
  | .undefinedFunction _ => .unresolvedSymbol
  | .surplusOperands .. => .arityTooMany
  | .surplusArguments .. => .arityTooMany
  | .repeatedParameter .. => .conflictingDefinition
  | .conflictingDefinition _ => .conflictingDefinition
  | .precisionLoss .. => .precisionLoss
  | .invalidLine _ => .invalidInputFormat
  | .unknownType _ => .invalidType

/-- names without a meaning and types that do not exist are errors, all else is a warning -/
def severity : Remark → Severity
  | .undefinedSymbol _ => .error
  | .undefinedFunction _ => .error
  | .unknownType _ => .error
  | _ => .warning

def message : Remark → String
  | .undefinedSymbol x => "Undefined symbol '" ++ x ++ "'"
  | .undefinedFunction f => "Undefined function '" ++ f ++ "'"
  | .surplusOperands f most count =>
    f ++ " expects " ++ toString most ++ " argument(s); got " ++ toString count ++
      ", extras ignored"
  | .surplusArguments f expected count =>
    "Function '" ++ f ++ "' expects " ++ toString expected ++ " args; got " ++ toString count ++
      ", extras ignored"
  | .repeatedParameter p f => "Parameter '" ++ p ++ "' repeated in definition of '" ++ f ++ "'"
  | .conflictingDefinition x => "Conflicting definition of '" ++ x ++ "'"
  | .precisionLoss amount x =>
    "Precision loss assigning FLOAT " ++ amount.text ++ " to INT '" ++ x ++ "'"
  | .invalidLine line => "read: invalid number " ++ quoted line ++ ", try again"
  | .unknownType name => "Unknown type name '" ++ name ++ "'; treating as untyped"

def diagnostic (r : Remark) : Diagnostic := ⟨r.concern, r.message, r.severity⟩

end Remark

/-! ## Sinks -/

inductive Sink where
  | stream (written : String)
  | collecting (items : List Diagnostic)
  | discarding

namespace Sink

def standard (quiet : Bool) : Sink := if quiet then .discarding else .stream ""

def emit (d : Diagnostic) : Sink → Sink
  | .stream written => .stream (written ++ d.text ++ "\n")
  | .collecting items => .collecting (items ++ [d])
  | .discarding => .discarding

def written : Sink → String
  | .stream w => w
  | _ => ""

def items : Sink → List Diagnostic
  | .collecting ds => ds
  | _ => []

def concerns (s : Sink) : List Concern := s.items.map (·.concern)

def count (c : Concern) (s : Sink) : Nat := s.concerns.count c

def clear : Sink → Sink
  | .collecting _ => .collecting []
  | s => s

end Sink

end Abacus
