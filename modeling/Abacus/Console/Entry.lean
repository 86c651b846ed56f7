import Abacus.Text.Blank

/-!
# Entries

What is typed at the prompt.  At the end of a line an entry goes on while parentheses are open, and
invisible characters are taken out of it before it is read.

* `parenDepth`        open less closed parentheses outside comments;
* `isHeld`            the entry goes on;
* `normalize`         the entry without invisible characters;
* `Key`               what can happen at the prompt;
* `Prompted`          what the prompt gives;
* `press`             what a key does to what is typed already.
-/

namespace Abacus

/-- open less closed parentheses; inside a comment, which ends with its line, none are counted -/
def parenDepthFrom : Bool → List Char → Int
  | _, [] => 0
  | true, c :: cs => parenDepthFrom (c != '\n') cs
  | false, c :: cs =>
    if c = ';' then parenDepthFrom true cs
    else if c = '(' then parenDepthFrom false cs + 1
    else if c = ')' then parenDepthFrom false cs - 1
    else parenDepthFrom false cs

def parenDepth (text : String) : Int := parenDepthFrom false text.toList

def startsWithSlash (text : String) : Bool :=
  match text.toList with
  | '/' :: _ => true
  | _ => false

def isHeld (buffer : String) : Bool := !startsWithSlash buffer && 0 < parenDepth buffer

def continuation : String := "\n  "

/-- the characters that cannot be seen: spaces and joiners without width, the mark of byte order,
the space that does not break and the return of the carriage -/
def invisible : List Char :=
  [0x200b, 0x200c, 0x200d, 0xfeff, 0xa0, 0x0d].map Char.ofNat

def normalize (text : String) : String :=
  String.ofList (text.toList.filter (!invisible.contains ·))

inductive Key where
  | enter (text : String)
  /-- the entry is submitted as it is, whatever is open -/
  | submit (text : String)
  | interrupt
  | leave
  deriving DecidableEq, Repr

inductive Prompted where
  | typed (text : String)
  | interrupted
  deriving DecidableEq, Repr

inductive Pressed where
  | goesOn (buffer : String)
  | gives (prompted : Prompted)
  | leaves

def press (buffer : String) : Key → Pressed
  | .enter text =>
    let typed := buffer ++ text
    if isHeld typed then .goesOn (typed ++ continuation) else .gives (.typed typed)
  | .submit text => .gives (.typed (buffer ++ text))
  | .interrupt => .gives .interrupted
  | .leave => .leaves

theorem press_held {buffer text : String} (h : isHeld (buffer ++ text) = true) :
    press buffer (.enter text) = .goesOn (buffer ++ text ++ continuation) := if_pos h

theorem press_not_held {buffer text : String} (h : isHeld (buffer ++ text) = false) :
    press buffer (.enter text) = .gives (.typed (buffer ++ text)) :=
  if_neg (by rw [h]; exact Bool.false_ne_true)

end Abacus
