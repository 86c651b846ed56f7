import Abacus.Console.Session
import Abacus.Proofs.Syntax

/-!
# Parentheses at the prompt

The prompt counts parentheses outside comments and knows no grammar.  In a source that is a row of
tokens the count is the number of opening tokens less the number of closing ones.  A derivation has
as many of both, and every construct that is open has opening ones left over.

* `balance ts`              opening less closed parentheses of a row of terminals;
* `Spelled.parenDepthFrom`  the count of the prompt is the balance of the row that a source spells;
* `balance_form`            derivations are balanced;
* `length_le_balance`       what has been read into open constructs is not;
* `enter_agrees`            **what the key at the end of a line does, and what the parser says**.
-/

namespace Abacus

/-! ## Rows of terminals -/

def Lexeme.weight : Lexeme → Int
  | .opening => 1
  | .closing => -1
  | _ => 0

def balance : List Terminal → Int
  | [] => 0
  | t :: ts => t.1.weight + balance ts

section
variable {α : Type} {ts us : List Terminal}

@[simp] theorem balance_nil : balance [] = 0 := rfl

@[simp] theorem balance_cons (t : Terminal) (ts : List Terminal) :
    balance (t :: ts) = t.1.weight + balance ts := rfl

@[simp] theorem balance_append (ts us : List Terminal) :
    balance (ts ++ us) = balance ts + balance us := by
  induction ts with
  | nil => exact (Int.zero_add _).symm
  | cons t ts ih => rw [List.cons_append, balance_cons, balance_cons, ih, Int.add_assoc]

@[simp] theorem weight_opening : Terminal.opening.1.weight = 1 := rfl

@[simp] theorem weight_closing : Terminal.closing.1.weight = -1 := rfl

@[simp] theorem weight_colon : Terminal.colon.1.weight = 0 := rfl

@[simp] theorem weight_word (name : String) : (Terminal.word name).1.weight = 0 := rfl

theorem balance_flatMap {row : α → List Terminal} {parts : List α}
    (h : ∀ part ∈ parts, balance (row part) = 0) : balance (parts.flatMap row) = 0 := by
  induction parts with
  | nil => rfl
  | cons part parts ih =>
    rw [List.flatMap_cons, balance_append, h part List.mem_cons_self,
      ih fun p hp => h p (List.mem_cons_of_mem _ hp)]
    rfl

@[simp] theorem balance_words (names : List String) : balance (names.map Terminal.word) = 0 := by
  induction names with
  | nil => rfl
  | cons name names ih => rw [List.map_cons, balance_cons, ih, weight_word, Int.add_zero]

@[simp] theorem balance_type (type : Option String) : balance (typeTerminals type) = 0 := by
  cases type with
  | none => rfl
  | some name => rfl

/-! ## Derivations and open constructs -/

/-- **Forms and definitions are balanced.** -/
theorem balance_form_definition : (∀ form : Form, balance form.terminals = 0) ∧
    ∀ d : Definition, balance d.terminals = 0 := by
  refine Form.induction ?_ ?_ ?_ ?_ ?_ ?_ ?_
  · intro kind text
    rw [Form.terminals, balance_cons, balance_nil]
    cases kind with
    | int => rfl
    | float => rfl
  · intro name
    rfl
  · intro name operands ih
    have hrow : balance (operands.flatMap Form.terminals) = 0 := balance_flatMap ih
    simp [Form.terminals, Form.terminalsAll_eq, hrow]
  · intro test ifTrue ifFalse ihtest ihtrue ihfalse
    simp [Form.terminals, ihtest, ihtrue, ihfalse]
  · intro definitions body ihdefinitions ihbody
    have hrow : balance (definitions.flatMap Definition.terminals) = 0 :=
      balance_flatMap ihdefinitions
    simp [Form.terminals, Definition.terminalsAll_eq, hrow, ihbody]
  · intro name body type ih
    simp [Definition.terminals, Definition.front, ih]
  · intro name parameters body type ih
    simp [Definition.terminals, Definition.front, ih]

@[simp] theorem balance_form (form : Form) : balance form.terminals = 0 :=
  balance_form_definition.1 form

theorem balance_definition (d : Definition) : balance d.terminals = 0 :=
  balance_form_definition.2 d

@[simp] theorem balance_forms (forms : List Form) :
    balance (forms.flatMap Form.terminals) = 0 := balance_flatMap fun form _ => balance_form form

@[simp] theorem balance_definitions (definitions : List Definition) :
    balance (definitions.flatMap Definition.terminals) = 0 :=
  balance_flatMap fun d _ => balance_definition d

@[simp] theorem balance_front (d : Definition) : balance d.front = 1 := by
  have h := balance_definition d
  rw [Definition.terminals, balance_append] at h
  have hclosing : balance [Terminal.closing] = -1 := rfl
  omega

/-- **An open construct has an opening parenthesis left over.** -/
theorem one_le_balance (frame : Frame) : 1 ≤ balance frame.terminals := by
  cases frame with
  | bound untyped => simp [Frame.terminals, Untyped.terminals]
  | typing untyped => simp [Frame.terminals, Untyped.terminals]
  | parameters name done =>
    have hwords : balance (done.reverse.map Terminal.word) = 0 := balance_words done.reverse
    simp only [Frame.terminals, balance_cons, hwords, weight_opening, weight_word]
    omega
  | _ => simp [Frame.terminals]

theorem length_le_balance (stack : List Frame) : (stack.length : Int) ≤ balance (rowOf stack) := by
  induction stack with
  | nil => exact Int.le_refl 0
  | cons frame stack ih =>
    have hframe := one_le_balance frame
    rw [rowOf, balance_append, List.length_cons]
    omega

end

/-! ## Counting in a source -/

section
variable {cs gap text rest : List Char} {k : Lexeme} {ts : List Terminal}

def counts (c : Char) : Bool := c == ';' || c == '(' || c == ')'

theorem parenDepthFrom_cons {c : Char} (hc : counts c = false) (cs : List Char) :
    parenDepthFrom false (c :: cs) = parenDepthFrom false cs := by
  simp only [counts, Bool.or_eq_false_iff, beq_eq_false_iff_ne] at hc
  obtain ⟨⟨hcomment, hopening⟩, hclosing⟩ := hc
  rw [parenDepthFrom, if_neg hcomment, if_neg hopening, if_neg hclosing]

theorem parenDepthFrom_append (htext : ∀ c ∈ text, counts c = false) (rest : List Char) :
    parenDepthFrom false (text ++ rest) = parenDepthFrom false rest := by
  induction text with
  | nil => rfl
  | cons c text ih =>
    rw [List.cons_append, parenDepthFrom_cons (htext c List.mem_cons_self),
      ih fun d hd => htext d (List.mem_cons_of_mem c hd)]

theorem parenDepthFrom_comment (htext : '\n' ∉ text) (rest : List Char) :
    parenDepthFrom true (text ++ rest) = parenDepthFrom true rest := by
  induction text with
  | nil => rfl
  | cons c text ih =>
    rw [List.mem_cons, not_or] at htext
    have hinside : (c != '\n') = true := bne_iff_ne.2 (Ne.symm htext.1)
    rw [List.cons_append, parenDepthFrom, hinside, ih htext.2]

theorem counts_of_isSpace {c : Char} (hc : isSpace c = true) : counts c = false := by
  simp only [isSpace, Bool.or_eq_true, beq_iff_eq] at hc
  rcases hc with (((rfl | rfl) | rfl) | rfl) | rfl <;> decide

theorem parenDepthFrom_gap (h : Gap gap) (rest : List Char) :
    parenDepthFrom false (gap ++ rest) = parenDepthFrom false rest := by
  induction h with
  | nil => rfl
  | space hc _ ih => rw [List.cons_append, parenDepthFrom_cons (counts_of_isSpace hc), ih]
  | @comment text gap htext _ ih =>
    rw [List.cons_append, List.append_assoc, List.cons_append]
    show parenDepthFrom true (text ++ '\n' :: (gap ++ rest)) = _
    rw [parenDepthFrom_comment htext]
    exact ih

theorem parenDepthFrom_end (h : EndGap cs) : parenDepthFrom false cs = 0 := by
  cases h with
  | closed hgap =>
    have hcount := parenDepthFrom_gap hgap []
    rwa [List.append_nil] at hcount
  | @opened gap text hgap htext =>
    rw [parenDepthFrom_gap hgap]
    have hcount := parenDepthFrom_comment htext []
    rwa [List.append_nil] at hcount

theorem Lexeme.Writes.counts (h : k.Writes text) (hk : k.isWord = true) :
    ∀ c ∈ text, counts c = false := by
  have hchars {p : Char → Bool} (hp : p ';' = false ∧ p '(' = false ∧ p ')' = false) {c : Char}
      (hc : p c = true) : Abacus.counts c = false := by
    simp [Abacus.counts, ne_of_class hc hp.1, ne_of_class hc hp.2.1, ne_of_class hc hp.2.2]
  have hdigit {c : Char} (hc : isDigit c = true) : Abacus.counts c = false :=
    hchars (by decide) hc
  have hsign {sign : List Char} (hsign : IsSign sign) : ∀ c ∈ sign, Abacus.counts c = false := by
    rcases hsign with rfl | rfl | rfl
    · exact List.forall_mem_nil _
    · exact List.forall_mem_singleton.2 (by decide)
    · exact List.forall_mem_singleton.2 (by decide)
  cases h with
  | integer hs _ hdigits =>
    exact List.forall_mem_append.2 ⟨hsign hs, fun c hc => hdigit (hdigits c hc)⟩
  | decimal hs _ hwhole hfraction =>
    refine List.forall_mem_append.2 ⟨hsign hs, List.forall_mem_append.2
      ⟨fun c hc => hdigit (hwhole c hc), List.forall_mem_cons.2 ⟨by decide, ?_⟩⟩⟩
    exact fun c hc => hdigit (hfraction c hc)
  | symbol hstart hparts =>
    exact List.forall_mem_cons.2 ⟨hchars (by decide) hstart,
      fun c hc => hchars (by decide) (hparts c hc)⟩
  | _ => cases hk

theorem parenDepthFrom_text (h : k.Writes text) (rest : List Char) :
    parenDepthFrom false (text ++ rest) = k.weight + parenDepthFrom false rest := by
  cases h with
  | opening => exact Int.add_comm _ 1
  | closing => exact Int.add_comm _ (-1)
  | colon => exact (Int.zero_add _).symm
  | integer hs hne hdigits =>
    rw [parenDepthFrom_append ((Lexeme.Writes.integer hs hne hdigits).counts rfl)]
    exact (Int.zero_add _).symm
  | decimal hs hne hwhole hfraction =>
    rw [parenDepthFrom_append ((Lexeme.Writes.decimal hs hne hwhole hfraction).counts rfl)]
    exact (Int.zero_add _).symm
  | symbol hstart hparts =>
    rw [parenDepthFrom_append ((Lexeme.Writes.symbol hstart hparts).counts rfl)]
    exact (Int.zero_add _).symm

/-- **The count of the prompt is the balance of the row that a source spells.** -/
theorem Spelled.parenDepthFrom (h : Spelled EndGap ts cs) :
    Abacus.parenDepthFrom false cs = balance ts := by
  induction h with
  | nil hend => exact parenDepthFrom_end hend
  | cons hgap htext _ _ ih =>
    rw [parenDepthFrom_gap hgap, parenDepthFrom_text htext, ih, balance_cons]

/-! ## Entries -/

theorem visible_of_mem {c : Char} (hc : c ∈ invisible) : c ≠ '\n' ∧ counts c = false := by
  have hall : invisible.all (fun c => c != '\n' && !counts c) = true := by decide
  simpa using List.all_eq_true.1 hall c hc

/-- invisible characters change nothing in the count -/
theorem parenDepthFrom_filter (inside : Bool) (cs : List Char) :
    parenDepthFrom inside (cs.filter (!invisible.contains ·)) = parenDepthFrom inside cs := by
  induction cs generalizing inside with
  | nil => rfl
  | cons c cs ih =>
    by_cases hc : c ∈ invisible
    · obtain ⟨hline, hcounts⟩ := visible_of_mem hc
      rw [List.filter_cons_of_neg (by simpa using hc), ih]
      cases inside with
      | false => rw [parenDepthFrom_cons hcounts]
      | true => rw [parenDepthFrom, show (c != '\n') = true by simpa using hline]
    · rw [List.filter_cons_of_pos (by simpa using hc)]
      cases inside with
      | true => rw [parenDepthFrom, parenDepthFrom, ih]
      | false => simp only [parenDepthFrom, ih]

theorem parenDepth_normalize (text : String) : parenDepth (normalize text) = parenDepth text := by
  rw [parenDepth, normalize, String.toList_ofList, parenDepthFrom_filter]
  rfl

theorem parenDepth_of_form {source : String} {form : Form}
    (h : parseForm source.toList = .ok form) : parenDepth source = 0 := by
  have hspelled : Spelled EndGap form.terminals source.toList := (parseForm_eq_ok_iff.1 h).2
  rw [parenDepth, hspelled.parenDepthFrom, balance_form]

theorem parenDepth_of_unexpectedEnd {source : String} {p : Place}
    (htokens : (scan source.toList).tokens ≠ [])
    (h : parseForm source.toList = .error (.unexpectedEnd p)) : 0 < parenDepth source := by
  rcases parseForm_cases source.toList with
    ⟨_, hok, _⟩ | ⟨_, _, _, _, herror, _⟩ | ⟨_, _, _, herror, _⟩ | ⟨stack, _, hstop, hread⟩
  · cases h.symm.trans hok
  · cases h.symm.trans herror
  · cases h.symm.trans herror
  · have hspelled : Spelled EndGap ((scan source.toList).tokens.map Token.terminal)
        source.toList := spelled_iff_scan.2 ⟨hstop, rfl⟩
    obtain ⟨_, hrow⟩ := Machine.has_read (m := .start) trivial hspelled.writes hread
    have hrow : rowOf stack = (scan source.toList).tokens.map Token.terminal := hrow
    have hopen : stack ≠ [] := by
      rintro rfl
      exact htokens (List.map_eq_nil_iff.1 hrow.symm)
    have hlength := List.length_pos_iff.2 hopen
    have hbalance := length_le_balance stack
    rw [parenDepth, hspelled.parenDepthFrom, ← hrow]
    omega

end

namespace Console

/-- the entry is submitted at the end of its last line: its answer is shown next -/
def Submits (text : String) : Prop :=
  ∀ (w : Surroundings) (c : Console) (buffer line : String) (rest : List Key),
    buffer ++ line = text → ∃ later, (sessionFrom w c buffer (.enter line :: rest)).shown =
      ⟨w.echo text, ""⟩ ++ (c.enter w text).shown ++ later

/-- the entry goes on on a further line -/
def Continues (text : String) : Prop :=
  ∀ (w : Surroundings) (c : Console) (buffer line : String) (rest : List Key),
    buffer ++ line = text → sessionFrom w c buffer (.enter line :: rest) =
      sessionFrom w c (text ++ continuation) rest

theorem submits_of_not_held {text : String} (h : isHeld text = false) : Submits text := by
  rintro w c buffer line rest rfl
  rw [sessionFrom, press_not_held h]
  dsimp only [answer]
  split
  · exact ⟨.nothing, (Shown.append_nothing _).symm⟩
  · next after _ =>
    exact ⟨(⟨promptText, ""⟩ : Shown) ++ (sessionFrom w after "" rest).shown,
      Shown.append_assoc _ _ _⟩

theorem continues_of_held {text : String} (h : isHeld text = true) : Continues text := by
  rintro w c buffer line rest rfl
  rw [sessionFrom, press_held h]

end Console

/-- **What the key at the end of a line does, and what the parser says.**  An entry that is no
command and has no syntactic fault has no parenthesis left open, and is submitted.  One that has a
token and is merely unfinished has parentheses left open, and goes on on a further line. -/
theorem enter_agrees {text : String} (hcommand : startsWithSlash text = false) :
    let planted := ((plantSource (normalize text)).run.run ⟨.empty, []⟩).1
    ((∀ e, planted = .error e → e.category ≠ .syntactic) →
      parenDepth text = 0 ∧ Console.Submits text) ∧
    ∀ p, (scan (normalize text).toList).tokens ≠ [] → planted = .error (.unexpectedEnd p) →
      0 < parenDepth text ∧ Console.Continues text := by
  intro planted
  have hheld : isHeld text = decide (0 < parenDepth text) := by
    rw [isHeld, hcommand, Bool.not_false, Bool.true_and]
  constructor
  · intro haccepted
    have hzero : parenDepth text = 0 := by
      rcases hparse : parseForm (normalize text).toList with e | form
      · have hplanted : planted = .error e := congrArg Prod.fst (plantSource_error hparse)
        exact absurd (category_of_parseForm hparse) (haccepted e hplanted)
      · rw [← parenDepth_normalize, parenDepth_of_form hparse]
    refine ⟨hzero, Console.submits_of_not_held ?_⟩
    rw [hheld, hzero]
    rfl
  · intro p htokens hplanted
    have hparse : parseForm (normalize text).toList = .error (.unexpectedEnd p) :=
      parseForm_of_syntactic (Prod.ext hplanted rfl) rfl
    have hopen : 0 < parenDepth text := by
      rw [← parenDepth_normalize]
      exact parenDepth_of_unexpectedEnd htokens hparse
    refine ⟨hopen, Console.continues_of_held ?_⟩
    rw [hheld, decide_eq_true hopen]

/-- a call that is not closed, but for a parenthesis in a comment -/
def unfinishedEntry : String := "(f;)\n1\u200b"

/-- a number after a comment with a parenthesis -/
def finishedEntry : String := ";(\n1\u200b"

theorem enter_agrees_commented :
    (0 < parenDepth unfinishedEntry ∧ Console.Continues unfinishedEntry) ∧
      parenDepth finishedEntry = 0 ∧ Console.Submits finishedEntry := by
  have hunfinished : parseForm (normalize unfinishedEntry).toList =
      .error (.unexpectedEnd ⟨2, 1⟩) := by with_unfolding_all rfl
  have hfinished : parseForm (normalize finishedEntry).toList = .ok (.numeral .int ['1']) := by
    with_unfolding_all rfl
  have htokens : (scan (normalize unfinishedEntry).toList).tokens ≠ [] := by
    have hscan : (scan (normalize unfinishedEntry).toList).tokens.length = 3 := by
      with_unfolding_all rfl
    exact List.ne_nil_of_length_pos (hscan ▸ Nat.succ_pos 2)
  refine ⟨(enter_agrees (by decide)).2 ⟨2, 1⟩ htokens ?_, (enter_agrees (by decide)).1 ?_⟩
  · exact congrArg Prod.fst (plantSource_error hunfinished)
  · rw [plantSource_ok hfinished]
    exact nofun

end Abacus
