import Abacus.Fault
import Abacus.Text.Digit

/-!
# Tokens

A source is a row of tokens with gaps between them.  A gap is white space and comments, a comment
running from a semicolon to the end of its line.  Which token begins at a character does not depend
on what stands before it, so the row is found without knowing the grammar.

* `skipGap`      the source after the gap at its start;
* `lexeme?`      the token at the start of a source, with its text and what follows it;
* `Token`        a token with its place;
* `scan`         the tokens of a source, and the character at which no token begins.
-/

namespace Abacus

/-! ## Gaps -/

def isSpace (c : Char) : Bool :=
  c == ' ' || c == '\t' || c == '\n' || c == '\r' || c == Char.ofNat 0x0c

def Place.after (p : Place) (c : Char) : Place :=
  if c = '\n' then ⟨p.line + 1, 1⟩ else ⟨p.line, p.column + 1⟩

def Place.over (p : Place) (cs : List Char) : Place := cs.foldl Place.after p

@[simp] theorem Place.over_nil (p : Place) : p.over [] = p := rfl

@[simp] theorem Place.over_cons (p : Place) (c : Char) (cs : List Char) :
    p.over (c :: cs) = (p.after c).over cs := rfl

theorem Place.over_append (p : Place) (cs ds : List Char) :
    p.over (cs ++ ds) = (p.over cs).over ds := List.foldl_append

/-- the source after the gap at its start, with the place reached; inside a comment or outside -/
def skipGap : Bool → Place → List Char → Place × List Char
  | _, p, [] => (p, [])
  | true, p, c :: cs => skipGap (c != '\n') (p.after c) cs
  | false, p, c :: cs =>
    if isSpace c then skipGap false (p.after c) cs
    else if c = ';' then skipGap true (p.after c) cs
    else (p, c :: cs)

theorem skipGap_spec (inside : Bool) (p : Place) (cs : List Char) :
    ∃ gap, cs = gap ++ (skipGap inside p cs).2 ∧ (skipGap inside p cs).1 = p.over gap := by
  induction cs generalizing inside p with
  | nil => exact ⟨[], by cases inside <;> simp [skipGap]⟩
  | cons c cs ih =>
    cases inside with
    | true =>
      obtain ⟨gap, hcs, hp⟩ := ih (c != '\n') (p.after c)
      exact ⟨c :: gap, by rw [skipGap]; exact congrArg (c :: ·) hcs, by rw [skipGap, hp]; rfl⟩
    | false =>
      unfold skipGap
      split
      · obtain ⟨gap, hcs, hp⟩ := ih false (p.after c)
        exact ⟨c :: gap, congrArg (c :: ·) hcs, hp⟩
      · split
        · obtain ⟨gap, hcs, hp⟩ := ih true (p.after c)
          exact ⟨c :: gap, congrArg (c :: ·) hcs, hp⟩
        · exact ⟨[], rfl, rfl⟩

theorem length_skipGap (inside : Bool) (p : Place) (cs : List Char) :
    (skipGap inside p cs).2.length ≤ cs.length := by
  obtain ⟨gap, hcs, _⟩ := skipGap_spec inside p cs
  have := congrArg List.length hcs
  rw [List.length_append] at this
  omega

/-! ## Lexemes -/

inductive Lexeme where
  | integer
  | decimal
  | symbol
  | opening
  | closing
  | colon
  deriving DecidableEq, Repr

def isNameStart (c : Char) : Bool := c.isAlpha || c == '_'

def isNamePart (c : Char) : Bool := c.isAlphanum || c == '_'

def splitSign : List Char → List Char × List Char
  | '+' :: cs => (['+'], cs)
  | '-' :: cs => (['-'], cs)
  | cs => ([], cs)

abbrev Scanned := Lexeme × List Char × List Char

/-- the number at the start of a source: an optional sign and digits, with a point a decimal -/
def number? (cs : List Char) : Option Scanned :=
  let (sign, body) := splitSign cs
  let whole := body.takeWhile isDigit
  match body.dropWhile isDigit with
  | '.' :: rest =>
    let fraction := rest.takeWhile isDigit
    if whole.isEmpty && fraction.isEmpty then none
    else some (.decimal, sign ++ whole ++ '.' :: fraction, rest.dropWhile isDigit)
  | rest => if whole.isEmpty then none else some (.integer, sign ++ whole, rest)

def lexeme? : List Char → Option Scanned
  | [] => none
  | '(' :: cs => some (.opening, ['('], cs)
  | ')' :: cs => some (.closing, [')'], cs)
  | ':' :: cs => some (.colon, [':'], cs)
  | c :: cs =>
    if isNameStart c then some (.symbol, c :: cs.takeWhile isNamePart, cs.dropWhile isNamePart)
    else number? (c :: cs)

theorem splitSign_append (cs : List Char) : (splitSign cs).1 ++ (splitSign cs).2 = cs := by
  unfold splitSign
  split <;> rfl

theorem number?_spec {cs text rest : List Char} {k : Lexeme}
    (h : number? cs = some (k, text, rest)) : cs = text ++ rest ∧ text ≠ [] := by
  have hsplit := splitSign_append cs
  unfold number? at h
  generalize splitSign cs = pair at h hsplit
  obtain ⟨sign, body⟩ := pair
  have hbody := List.takeWhile_append_dropWhile (p := isDigit) (l := body)
  dsimp only at h hsplit
  split at h
  · next fraction hdrop =>
    split at h
    · cases h
    · cases h
      refine ⟨?_, by simp⟩
      rw [hdrop, ← List.takeWhile_append_dropWhile (p := isDigit) (l := fraction)] at hbody
      rw [← hsplit]
      simpa using hbody.symm
  · split at h
    · cases h
    · next hwhole =>
      cases h
      refine ⟨?_, fun hnil => ?_⟩
      · rw [← hsplit]
        simp [List.takeWhile_append_dropWhile]
      · rw [List.append_eq_nil_iff] at hnil
        simp [hnil.2] at hwhole

/-- **A token is cut off the front of the source, and is not empty.** -/
theorem lexeme?_spec {cs text rest : List Char} {k : Lexeme}
    (h : lexeme? cs = some (k, text, rest)) : cs = text ++ rest ∧ text ≠ [] := by
  unfold lexeme? at h
  split at h
  · cases h
  · cases h
    simp
  · cases h
    simp
  · cases h
    simp
  · split at h
    · cases h
      simp [List.takeWhile_append_dropWhile]
    · exact number?_spec h

theorem length_lexeme? {cs text rest : List Char} {k : Lexeme}
    (h : lexeme? cs = some (k, text, rest)) : rest.length < cs.length := by
  obtain ⟨hcs, hne⟩ := lexeme?_spec h
  have hpos : 0 < text.length := List.length_pos_iff.2 hne
  rw [hcs, List.length_append]
  omega

/-! ## Scanning -/

structure Token where
  kind : Lexeme
  text : List Char
  place : Place
  deriving DecidableEq, Repr

def Token.word (t : Token) : String := String.ofList t.text

/-- the tokens of a source, up to the character at which no token begins -/
structure Scan where
  tokens : List Token
  stop : Option (Char × Place)
  deriving DecidableEq, Repr

def scanFrom (place : Place) (cs : List Char) : Scan :=
  match hgap : skipGap false place cs with
  | (_, []) => ⟨[], none⟩
  | (p, c :: rest) =>
    match hlex : lexeme? (c :: rest) with
    | none => ⟨[], some (c, p)⟩
    | some (kind, text, after) =>
      have hle : (c :: rest).length ≤ cs.length := by
        simpa [hgap] using length_skipGap false place cs
      have hlt : after.length < cs.length := Nat.lt_of_lt_of_le (length_lexeme? hlex) hle
      let below := scanFrom (p.over text) after
      ⟨⟨kind, text, p⟩ :: below.tokens, below.stop⟩
termination_by cs.length

def scan (source : List Char) : Scan := scanFrom .start source

end Abacus
