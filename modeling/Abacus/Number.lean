import Abacus.Amount.Fixed
import Abacus.Text.Case

/-!
# Numbers and values

A number is an amount tagged as an integer or as a floating-point number.  Making an integer rounds
its amount to a whole one.  A value is a number or missing: a missing value is what an unresolved
name stands for, it is no number, and it is told apart from the amount that is not a number.

* `Kind`            the two tags;
* `Number.make`     a number of a kind, rounded for integers;
* `promote ns`      the kind of a result over several numbers;
* `Value`           a number, or nothing.
-/

namespace Abacus

/-! ## Kinds -/

inductive Kind where
  | int
  | float
  deriving DecidableEq, Repr

namespace Kind

def tag : Kind → String
  | .int => "INT_TYPE"
  | .float => "DOUBLE_TYPE"

def ofName? (name : String) : Option Kind :=
  match lowered name with
  | "int" => some .int
  | "integer" => some .int
  | "double" => some .float
  | "float" => some .float
  | _ => none

end Kind

/-! ## Numbers -/

structure Number where
  kind : Kind
  amount : Amount
  deriving DecidableEq

namespace Number

/-- a number of a kind; an integer is rounded to a whole amount, halves away from zero -/
def make (amount : Amount) (kind : Kind) : Number :=
  match kind with
  | .int => ⟨.int, amount.roundHalfAway⟩
  | .float => ⟨.float, amount⟩

def isInt (v : Number) : Bool := v.kind == .int

def ofBool (b : Bool) : Number := make (if b then .one else .zero false) .int

def description (v : Number) : String :=
  match v.kind, v.amount.truncate with
  | .int, some z => v.kind.tag ++ ": " ++ integerText z
  | _, _ => v.kind.tag ++ ": " ++ v.amount.text

@[simp] theorem kind_make (x : Amount) (k : Kind) : (make x k).kind = k := by cases k <;> rfl

@[simp] theorem amount_make_int (x : Amount) : (make x .int).amount = x.roundHalfAway := rfl

end Number

def promote (ns : List Number) : Kind :=
  if ns.any (·.kind == .float) then .float else .int

def promoted (amount : Amount) (operands : List Number) : Number :=
  Number.make amount (promote operands)

/-! ## Values -/

abbrev Value := Option Number

def missingText : String := "NO_VALUE"

def Value.description : Value → String
  | none => "missing"
  | some v => v.description

end Abacus
