import Abacus.CommandLine
import Abacus.Proofs.Balance
import Abacus.Proofs.Isolation
import Abacus.Proofs.Numerals

/-!
# Entries without invisible characters

The console takes the invisible characters out of an entry before it is read.  All of them but one
can stand in a comment only, where they make no difference.  The return of the carriage is white
space: without it two terminals may touch, and the first may go on with the second.  Exactly where
that happens the entry is read differently; everywhere else it gives the same tree, and the console
shows for it what the program shows that is run from the same source.

* `inTerminals`              the characters of terminals, none of which is invisible or blank;
* `Gap.filter`               a gap stays a gap;
* `Joins`, `Joined`          a terminal goes on with what stands after returns of the carriage;
* `Spelled.filter_iff`       **the terminals of a source without invisible characters**;
* `parseForm_normalize_iff`  its derivation;
* `normalization_exact`      **what is entered is what is run**.
-/

namespace Abacus

/-! ## Characters -/

def inTerminals (c : Char) : Bool :=
  isDigit c || isNamePart c || ['+', '-', '.', '(', ')', ':'].contains c

def isVisible (c : Char) : Bool := !invisible.contains c

section
variable {c : Char}

theorem isNamePart_of_isNameStart (h : isNameStart c = true) : isNamePart c = true := by
  unfold isNameStart at h
  unfold isNamePart Char.isAlphanum
  rw [Bool.or_eq_true] at h
  rcases h with h | h
  · rw [h, Bool.true_or, Bool.true_or]
  · rw [h, Bool.or_true]

theorem range_of_isNamePart (h : isNamePart c = true) : 0x30 ≤ c.toNat ∧ c.toNat ≤ 0x7a := by
  unfold isNamePart Char.isAlphanum at h
  rw [Bool.or_right_comm, Bool.or_eq_true] at h
  rcases h with hstart | hdigit
  · have hrange := range_of_isNameStart hstart
    omega
  · have hrange : 48 ≤ c.toNat ∧ c.toNat ≤ 57 := Char.isDigit_iff_toNat.1 hdigit
    omega

theorem isVisible_iff : isVisible c = true ↔ c ∉ invisible := by
  unfold isVisible
  simp

theorem isVisible_of_inTerminals (h : inTerminals c = true) : isVisible c = true := by
  have hall : invisible.all (!inTerminals ·) = true := by decide
  rw [isVisible_iff]
  intro hc
  have hnot := List.all_eq_true.1 hall c hc
  rw [h] at hnot
  cases hnot

theorem inTerminals_of_isDigit (h : isDigit c = true) : inTerminals c = true := by
  unfold inTerminals
  rw [h, Bool.true_or, Bool.true_or]

theorem inTerminals_of_isNamePart (h : isNamePart c = true) : inTerminals c = true := by
  unfold inTerminals
  rw [h, Bool.or_true, Bool.true_or]

theorem inTerminals_of_goesOn {k : Lexeme} (h : k.goesOn c = true) : inTerminals c = true := by
  cases k with
  | integer =>
    have h : (isDigit c || c == '.') = true := h
    rw [Bool.or_eq_true, beq_iff_eq] at h
    rcases h with hdigit | rfl
    · exact inTerminals_of_isDigit hdigit
    · decide
  | decimal => exact inTerminals_of_isDigit h
  | symbol => exact inTerminals_of_isNamePart h
  | opening => cases h
  | closing => cases h
  | colon => cases h

/-- the white space that is invisible -/
theorem eq_return_of_isSpace (hspace : isSpace c = true) (hc : isVisible c = false) : c = '\r' := by
  have hall : invisible.all (fun d => !isSpace d || d == '\r') = true := by decide
  have hmem : c ∈ invisible := by
    by_contra hnot
    rw [isVisible_iff.2 hnot] at hc
    cases hc
  have hreturn := List.all_eq_true.1 hall c hmem
  rw [hspace] at hreturn
  exact beq_iff_eq.1 hreturn

/-- no character of a terminal is blank: digits of other scripts lie between the ranges -/
theorem isBlank_of_inTerminals (h : inTerminals c = true) : isBlank c = false := by
  have hapart : ∀ z ∈ digitZeros, ∀ range ∈ blanks, range.2 < z ∨ z + 10 ≤ range.1 := by decide
  have hlow : ∀ range ∈ blanks, range.2 ≤ 0x20 ∨ 0x7b ≤ range.1 := by decide
  rw [Bool.eq_false_iff]
  intro hblank
  obtain ⟨range, hmem, hrange⟩ := List.any_eq_true.1 hblank
  simp only [Bool.and_eq_true, decide_eq_true_eq] at hrange
  unfold inTerminals at h
  rw [Bool.or_eq_true, Bool.or_eq_true] at h
  rcases h with (hdigit | hpart) | hmark
  · unfold isDigit digitValue? at hdigit
    rw [Option.isSome_map, Option.isSome_iff_exists] at hdigit
    obtain ⟨first, hfirst⟩ := hdigit
    have hzero := List.find?_some hfirst
    simp only [Bool.and_eq_true, decide_eq_true_eq] at hzero
    have h := hapart first (List.mem_of_find?_eq_some hfirst) range hmem
    omega
  · have hname := range_of_isNamePart hpart
    have h := hlow range hmem
    omega
  · have hmarks : ['+', '-', '.', '(', ')', ':'].all (!isBlank ·) = true := by decide
    have hnot := List.all_eq_true.1 hmarks c (List.contains_iff_mem.1 hmark)
    rw [hblank] at hnot
    cases hnot

end

section
variable {k : Lexeme} {text rest gap cs : List Char} {ts : List Terminal} {Tail : List Char → Prop}

theorem Lexeme.Writes.inTerminals (h : k.Writes text) :
    ∀ c ∈ text, Abacus.inTerminals c = true := by
  have hsign {sign : List Char} (hsign : IsSign sign) :
      ∀ c ∈ sign, Abacus.inTerminals c = true := by
    rcases hsign with rfl | rfl | rfl
    · exact List.forall_mem_nil _
    · exact List.forall_mem_singleton.2 (by decide)
    · exact List.forall_mem_singleton.2 (by decide)
  cases h with
  | integer hs _ hdigits =>
    exact List.forall_mem_append.2 ⟨hsign hs, fun c hc => inTerminals_of_isDigit (hdigits c hc)⟩
  | decimal hs _ hwhole hfraction =>
    refine List.forall_mem_append.2 ⟨hsign hs, List.forall_mem_append.2 ⟨?_, ?_⟩⟩
    · exact fun c hc => inTerminals_of_isDigit (hwhole c hc)
    · refine List.forall_mem_cons.2 ⟨by decide, ?_⟩
      exact fun c hc => inTerminals_of_isDigit (hfraction c hc)
  | symbol hstart hparts =>
    have hfirst := inTerminals_of_isNamePart (isNamePart_of_isNameStart hstart)
    exact List.forall_mem_cons.2 ⟨hfirst, fun d hd => inTerminals_of_isNamePart (hparts d hd)⟩
  | opening => exact List.forall_mem_singleton.2 (by decide)
  | closing => exact List.forall_mem_singleton.2 (by decide)
  | colon => exact List.forall_mem_singleton.2 (by decide)

theorem Lexeme.Writes.filter (h : k.Writes text) : text.filter isVisible = text :=
  List.filter_eq_self.2 fun c hc => isVisible_of_inTerminals (h.inTerminals c hc)

/-! ## Gaps -/

/-- **A gap stays a gap** without its invisible characters: no line break is among them. -/
theorem Gap.filter (h : Gap gap) : Gap (gap.filter isVisible) := by
  induction h with
  | nil => exact .nil
  | @space c cs hspace _ ih =>
    rw [List.filter_cons]
    split
    · exact .space hspace ih
    · exact ih
  | @comment text cs htext _ ih =>
    have hmark : isVisible ';' = true := by decide
    have hline : isVisible '\n' = true := by decide
    rw [List.filter_cons_of_pos hmark, List.filter_append, List.filter_cons_of_pos hline]
    exact .comment (fun hmem => htext (List.mem_filter.1 hmem).1) ih

theorem EndGap.filter (h : EndGap cs) : EndGap (cs.filter isVisible) := by
  cases h with
  | closed h => exact .closed h.filter
  | opened hgap htext =>
    have hmark : isVisible ';' = true := by decide
    rw [List.filter_append, List.filter_cons_of_pos hmark]
    exact .opened hgap.filter fun hmem => htext (List.mem_filter.1 hmem).1

theorem Gap.returns (h : Gap gap) (hnone : gap.filter isVisible = []) :
    ∀ c ∈ gap, c = '\r' := by
  induction h with
  | nil => exact List.forall_mem_nil _
  | @space c cs hspace _ ih =>
    have hc : isVisible c = false := by
      rw [Bool.eq_false_iff]
      intro hvisible
      rw [List.filter_cons_of_pos hvisible] at hnone
      cases hnone
    rw [List.filter_cons_of_neg (Bool.eq_false_iff.1 hc)] at hnone
    exact List.forall_mem_cons.2 ⟨eq_return_of_isSpace hspace hc, ih hnone⟩
  | comment _ _ _ =>
    have hmark : isVisible ';' = true := by decide
    rw [List.filter_cons_of_pos hmark] at hnone
    cases hnone

theorem Gap.unique {gap' rest' : List Char} {c c' : Char} (hgap : Gap gap) (hgap' : Gap gap')
    (hc : Outside c) (hc' : Outside c') (h : gap ++ c :: rest = gap' ++ c' :: rest') :
    c :: rest = c' :: rest' := by
  have hskip : (skipGap false .start (gap ++ c :: rest)).2 = c :: rest := by
    rw [skipGap_gap hgap, skipGap_outside hc]
  have hskip' : (skipGap false .start (gap' ++ c' :: rest')).2 = c' :: rest' := by
    rw [skipGap_gap hgap', skipGap_outside hc']
  rw [← hskip, h, hskip']

/-- the terminal that a source begins with, after a gap -/
theorem Spelled.uncons {k' : Lexeme} {text' : List Char}
    (h : Spelled Tail ((k', text') :: ts) (gap ++ (text ++ rest))) (hgap : Gap gap)
    (htext : k.Writes text) : ∃ rest', text ++ rest = text' ++ rest' ∧ k'.Writes text' ∧
      Ends text' rest' ∧ Spelled Tail ts rest' := by
  generalize hsource : gap ++ (text ++ rest) = source at h
  cases h with
  | @cons _ gap' _ rest' _ hgap' htext' hends' hrest' =>
    refine ⟨rest', ?_, htext', hends', hrest'⟩
    obtain ⟨c, cs, rfl⟩ := List.exists_cons_of_ne_nil htext.ne_nil
    obtain ⟨d, ds, rfl⟩ := List.exists_cons_of_ne_nil htext'.ne_nil
    exact hgap.unique hgap' htext.outside htext'.outside hsource

theorem Spelled.uncons_same {k' : Lexeme} {text' : List Char}
    (h : Spelled Tail ((k', text') :: ts) (gap ++ (text ++ rest))) (hgap : Gap gap)
    (htext : k.Writes text) (hends : Ends text rest) :
    k' = k ∧ text' = text ∧ Spelled Tail ts rest := by
  obtain ⟨rest', hsource, htext', hends', hrest'⟩ := h.uncons hgap htext
  have hlex : lexeme? (text ++ rest) = some (k, text, rest) :=
    lexeme?_eq_some_iff.2 ⟨rfl, htext, hends⟩
  have hlex' : lexeme? (text ++ rest) = some (k', text', rest') :=
    lexeme?_eq_some_iff.2 ⟨hsource, htext', hends'⟩
  rw [hlex] at hlex'
  cases hlex'
  exact ⟨rfl, rfl, hrest'⟩

/-! ## Joints -/

/-- returns of the carriage stand between a terminal and a character that goes on with it -/
def Joins (k : Lexeme) (rest : List Char) : Prop :=
  ∃ returns c after, rest = returns ++ c :: after ∧ (∀ d ∈ returns, d = '\r') ∧ k.goesOn c = true

/-- **A source is joined** if one of its terminals has returns of the carriage and nothing else
between itself and a character that goes on with it. -/
def Joined (source : List Char) : Prop :=
  ∃ ts k text, Spelled (Joins k) (ts ++ [(k, text)]) source

theorem not_joined_end (h : EndGap cs) : ¬ Joined cs := by
  rintro ⟨ts, k, text, hspelled⟩
  generalize hus : ts ++ [(k, text)] = us at hspelled
  cases hspelled with
  | nil _ => simp at hus
  | @cons k' gap text' rest _ hgap htext _ _ =>
    obtain ⟨c, cs, rfl⟩ := List.exists_cons_of_ne_nil htext.ne_nil
    have hskip : (skipGap false .start (gap ++ (c :: cs ++ rest))).2 = [] := by
      rw [skipGap_end h]
    have hfirst : (skipGap false .start (gap ++ (c :: cs ++ rest))).2 = c :: cs ++ rest := by
      rw [skipGap_gap hgap, List.cons_append, skipGap_outside htext.outside]
    rw [hskip] at hfirst
    cases hfirst

theorem joined_cons (hgap : Gap gap) (htext : k.Writes text) (hends : Ends text rest) :
    Joined (gap ++ (text ++ rest)) ↔ Joins k rest ∨ Joined rest := by
  constructor
  · rintro ⟨ts, k', text', hspelled⟩
    cases ts with
    | nil =>
      obtain ⟨rfl, -, hrest⟩ := hspelled.uncons_same hgap htext hends
      cases hrest with
      | nil hjoins => exact .inl hjoins
    | cons t ts =>
      obtain ⟨-, -, hrest⟩ := hspelled.uncons_same hgap htext hends
      exact .inr ⟨ts, k', text', hrest⟩
  · rintro (hjoins | ⟨ts, k', text', hrest⟩)
    · exact ⟨[], k, text, .cons hgap htext hends (.nil hjoins)⟩
    · exact ⟨(k, text) :: ts, k', text', .cons hgap htext hends hrest⟩

/-- a terminal ends without the invisible characters after it, or it is joined -/
theorem ends_filter_iff (htext : k.Writes text) (hrest : Spelled EndGap ts rest) :
    Ends text (rest.filter isVisible) ↔ ¬ Joins k rest := by
  rw [htext.ends_iff]
  constructor
  · rintro hends ⟨returns, c, after, rfl, hreturns, hgoesOn⟩
    have hnone : returns.filter isVisible = [] := by
      rw [List.filter_eq_nil_iff]
      intro d hd
      rw [hreturns d hd]
      decide
    have hc := isVisible_of_inTerminals (inTerminals_of_goesOn hgoesOn)
    have hnot := hends c (by rw [List.filter_append, hnone, List.filter_cons_of_pos hc]; rfl)
    rw [hgoesOn] at hnot
    cases hnot
  · intro hjoins c hc
    cases hrest with
    | nil hend => exact Lexeme.goesOn_of_not_outside (hend.filter.head c hc)
    | @cons k' gap text' rest' _ hgap htext' _ _ =>
      rw [List.filter_append, List.filter_append, htext'.filter] at hc
      by_cases hnone : gap.filter isVisible = []
      · obtain ⟨d, ds, rfl⟩ := List.exists_cons_of_ne_nil htext'.ne_nil
        rw [hnone] at hc
        have hfirst : d = c := Option.some.inj hc
        subst hfirst
        rw [Bool.eq_false_iff]
        intro hgoesOn
        exact hjoins ⟨gap, d, ds ++ rest', rfl, hgap.returns hnone, hgoesOn⟩
      · obtain ⟨d, ds, hds⟩ := List.exists_cons_of_ne_nil hnone
        refine Lexeme.goesOn_of_not_outside (hgap.filter.head c ?_)
        rw [hds] at hc ⊢
        exact hc

/-- **The terminals of a source are left as they are** without its invisible characters, exactly if
it is not joined. -/
theorem Spelled.filter_iff (h : Spelled EndGap ts cs) :
    Spelled EndGap ts (cs.filter isVisible) ↔ ¬ Joined cs := by
  induction h with
  | nil hend => exact ⟨fun _ => not_joined_end hend, fun _ => .nil hend.filter⟩
  | @cons k gap text rest ts hgap htext hends hrest ih =>
    rw [joined_cons hgap htext hends, not_or, ← ends_filter_iff htext hrest, ← ih,
      List.filter_append, List.filter_append, htext.filter]
    constructor
    · intro hspelled
      obtain ⟨rest', hsource, -, hends', hrest'⟩ := hspelled.uncons hgap.filter htext
      rw [List.append_cancel_left hsource]
      exact ⟨hends', hrest'⟩
    · rintro ⟨hends', hrest'⟩
      exact .cons hgap.filter htext hends' hrest'

end

/-! ## Reading -/

section
variable {source : String} {form : Form}

theorem toList_normalize (source : String) :
    (normalize source).toList = source.toList.filter isVisible := String.toList_ofList

/-- **The derivation of a source is that of its entry** exactly if the source is not joined. -/
theorem parseForm_normalize_iff (h : parseForm source.toList = .ok form) :
    parseForm (normalize source).toList = .ok form ↔ ¬ Joined source.toList := by
  obtain ⟨hproper, hspelled⟩ := parseForm_eq_ok_iff.1 h
  rw [parseForm_eq_ok_iff, toList_normalize, hspelled.filter_iff]
  exact and_iff_right hproper

theorem parsed_of_sown {root : NodeId} {f : Forest} (h : Sown source root f) :
    ∃ form, parseForm source.toList = .ok form := by
  obtain ⟨remarks, hrun⟩ := h
  rcases hparse : parseForm source.toList with e | form
  · rw [plantSource_error hparse] at hrun
    cases hrun
  · exact ⟨form, rfl⟩

theorem plantSource_normalize (h : parseForm source.toList = .ok form)
    (hjoined : ¬ Joined source.toList) :
    (plantSource (normalize source)).run.run ⟨.empty, []⟩ =
      (plantSource source).run.run ⟨.empty, []⟩ := by
  rw [plantSource_ok h, plantSource_ok ((parseForm_normalize_iff h).2 hjoined)]

theorem runShown_normalize (h : parseForm source.toList = .ok form)
    (hjoined : ¬ Joined source.toList) (w : Surroundings) (switches : Switches)
    (input : List Char) :
    runShown w switches (normalize source) input = runShown w switches source input := by
  have hrun (policy : Policy) (generator : Generator) :
      runSource policy (normalize source) input generator =
        runSource policy source input generator := by
    unfold runSource
    rw [plantSource_normalize h hjoined]
  unfold runShown
  simp only [hrun]

/-! ## Entering -/

theorem Spelled.first {Tail : List Char → Prop} {t : Terminal} {ts : List Terminal}
    {cs : List Char} (h : Spelled Tail (t :: ts) cs) : ∃ before c after,
      cs = before ++ c :: after ∧ (∀ d ∈ before, isBlank d = true) ∧
      (c = ';' ∨ inTerminals c = true) := by
  cases h with
  | @cons k gap text rest _ hgap htext _ _ =>
    induction hgap with
    | nil =>
      obtain ⟨c, cs, rfl⟩ := List.exists_cons_of_ne_nil htext.ne_nil
      exact ⟨[], c, cs ++ rest, rfl, List.forall_mem_nil _,
        .inr (htext.inTerminals c List.mem_cons_self)⟩
    | @space d gap hspace _ ih =>
      obtain ⟨before, c, after, hsource, hbefore, hc⟩ := ih
      refine ⟨d :: before, c, after, ?_, ?_, hc⟩
      · rw [List.cons_append, hsource]
        rfl
      · exact List.forall_mem_cons.2 ⟨isBlank_of_isSpace hspace, hbefore⟩
    | comment _ _ _ => exact ⟨[], ';', _, rfl, List.forall_mem_nil _, .inl rfl⟩

theorem stripChars_append_cons {before after : List Char} {c : Char}
    (hbefore : ∀ d ∈ before, isBlank d = true) (hc : isBlank c = false) :
    ∃ rest, stripChars (before ++ c :: after) = c :: rest := by
  have hnot : ¬ isBlank c = true := Bool.eq_false_iff.1 hc
  unfold stripChars
  rw [List.dropWhile_append_of_pos hbefore, List.dropWhile_cons_of_neg hnot, List.reverse_cons,
    List.dropWhile_append]
  split
  · rw [List.dropWhile_cons_of_neg hnot]
    exact ⟨[], rfl⟩
  · rw [List.reverse_append]
    exact ⟨_, rfl⟩

/-- a source that is read is not blank and no command -/
theorem strip_of_form (h : parseForm source.toList = .ok form) :
    (strip source).isEmpty = false ∧ startsWithSlash (strip source) = false := by
  have hspelled := (parseForm_eq_ok_iff.1 h).2
  obtain ⟨t, ts, hterminals⟩ : ∃ t ts, form.terminals = t :: ts := by
    cases form <;> exact ⟨_, _, rfl⟩
  rw [hterminals] at hspelled
  obtain ⟨before, c, after, hsource, hbefore, hfirst⟩ := hspelled.first
  have hc : isBlank c = false ∧ c ≠ '/' := by
    rcases hfirst with rfl | hc
    · decide
    · exact ⟨isBlank_of_inTerminals hc, ne_of_class hc (by decide)⟩
  obtain ⟨rest, hstrip⟩ := stripChars_append_cons hbefore hc.1
  have htext : (strip source).toList = c :: rest := by
    rw [strip, String.toList_ofList, hsource, hstrip]
  constructor
  · rw [Bool.eq_false_iff]
    intro hempty
    rw [String.isEmpty_iff.1 hempty] at htext
    cases htext
  · unfold startsWithSlash
    rw [htext]
    split
    · next heq =>
      cases heq
      exact absurd rfl hc.2
    · rfl

/-- **An entry that is not joined is run as it was typed.** -/
theorem enter_of_form (h : parseForm source.toList = .ok form)
    (hjoined : ¬ Joined source.toList) (w : Surroundings) (c : Console) :
    c.enter w source =
      let run := runShown w c.switches source c.input
      ⟨run.outcome.map fun _ => { c with input := run.rest }, run.shown, run.starved⟩ := by
  obtain ⟨hblank, hslash⟩ := strip_of_form ((parseForm_normalize_iff h).2 hjoined)
  unfold Console.enter
  simp only [hblank, slash_eq_none.2 hslash, runShown_normalize h hjoined]
  rfl

theorem runMain_of_source {w : Surroundings} {look : Path → Option Entity}
    {arguments : List String} {request : Request} {input rest : List Char}
    (hrequest : Request.ofArguments arguments = .ok request) (hconsole : request.console = false)
    (hsource : sourceOf look request.argument input = .ok (source, rest)) (keys : List Key) :
    runMain w look arguments input keys =
      let run := runShown w ⟨request.strict, w.settings.trace⟩ source rest
      ⟨run.outcome.map fun ok => if ok then 0 else 1, run.shown, keys.length, run.starved⟩ := by
  unfold runMain
  simp only [hrequest, hconsole, hsource]
  rfl

end

/-- an entry shows what a program shows, asks for input where it does, and is left by a fault where
it is ended by it -/
def Console.Step.Follows (step : Console.Step) (finish : Finish) : Prop :=
  step.shown = finish.shown ∧ step.starved = finish.starved ∧
    ∀ fault, step.next = .error fault ↔ finish.code = .error fault

/-- **What is entered is what is run**, for a source that is accepted and not joined: the entry has
the same tree, it is not held at the prompt, and the console shows for it what the program shows
that is run from the same source, whether this is an argument, a file or the input.  A joined source
is not derived the same way as its entry. -/
theorem normalization_exact {text : String} {root : NodeId} {f : Forest} (h : Sown text root f) :
    ((∃ form, parseForm text.toList = .ok form ∧ parseForm (normalize text).toList = .ok form) ↔
      ¬ Joined text.toList) ∧
    (¬ Joined text.toList → Sown (normalize text) root f ∧ isHeld text = false ∧
      ∀ (w : Surroundings) look arguments request input rest keys,
        Request.ofArguments arguments = .ok request → request.console = false →
        sourceOf look request.argument input = .ok (text, rest) →
        (Console.enter w ⟨⟨request.strict, w.settings.trace⟩, rest⟩ text).Follows
          (runMain w look arguments input keys)) := by
  obtain ⟨form, hparse⟩ := parsed_of_sown h
  constructor
  · constructor
    · rintro ⟨form', hform', hnormal⟩
      exact (parseForm_normalize_iff hform').1 hnormal
    · intro hjoined
      exact ⟨form, hparse, (parseForm_normalize_iff hparse).2 hjoined⟩
  · intro hjoined
    refine ⟨?_, ?_, ?_⟩
    · obtain ⟨remarks, hrun⟩ := h
      exact ⟨remarks, (plantSource_normalize hparse hjoined).trans hrun⟩
    · unfold isHeld
      rw [parenDepth_of_form hparse]
      exact Bool.and_false _
    · intro w look arguments request input rest keys hrequest hconsole hsource
      rw [enter_of_form hparse hjoined, runMain_of_source hrequest hconsole hsource]
      refine ⟨rfl, rfl, fun fault => ?_⟩
      show Except.map _ (runShown w ⟨request.strict, w.settings.trace⟩ text rest).outcome = _ ↔
        Except.map _ (runShown w ⟨request.strict, w.settings.trace⟩ text rest).outcome = _
      rcases (runShown w ⟨request.strict, w.settings.trace⟩ text rest).outcome with e | ok
      · exact ⟨fun he => (by cases he; rfl), fun he => (by cases he; rfl)⟩
      · exact ⟨fun he => (by cases he), fun he => (by cases he)⟩

/-! ## Lines that end with a return -/

/-- a call over two lines, each with a return of the carriage at its end -/
def linedSum : String := "(add 1;\r\n2)\r"

/-- the same call with nothing but a return of the carriage between its operands -/
def joinedSum : String := "(add 1\r2)"

def oneLiteral : Number := .make (.ofNumeral ['1']) .int

def twoLiteral : Number := .make (.ofNumeral ['2']) .int

def twelveLiteral : Number := .make (.ofNumeral ['1', '2']) .int

def sumForest : Forest where
  nodes := #[⟨.number oneLiteral, none, some ⟨2⟩⟩, ⟨.number twoLiteral, none, some ⟨2⟩⟩,
    ⟨.call (.builtin .add) none [.node ⟨0⟩, .node ⟨1⟩] true, none, none⟩]
  tables := #[]
  bindings := #[]

def joinedForest : Forest where
  nodes := #[⟨.number twelveLiteral, none, some ⟨1⟩⟩,
    ⟨.call (.builtin .add) none [.node ⟨0⟩] true, none, none⟩]
  tables := #[]
  bindings := #[]

theorem parse_linedSum : parseForm linedSum.toList =
    .ok (.call "add" [.numeral .int ['1'], .numeral .int ['2']]) := by
  with_unfolding_all rfl

theorem sown_linedSum : Sown linedSum ⟨2⟩ sumForest := by
  refine ⟨[], ?_⟩
  rw [plantSource_ok parse_linedSum]
  rfl

theorem parse_joinedSum : parseForm joinedSum.toList =
    .ok (.call "add" [.numeral .int ['1'], .numeral .int ['2']]) := by
  with_unfolding_all rfl

theorem planted_joinedSum : (plantSource joinedSum).run.run ⟨.empty, []⟩ =
    (.ok ⟨2⟩, ⟨sumForest, []⟩) := by
  rw [plantSource_ok parse_joinedSum]
  rfl

theorem normalize_joinedSum : normalize joinedSum = "(add 12)" := by decide

theorem planted_normalize_joinedSum : (plantSource (normalize joinedSum)).run.run ⟨.empty, []⟩ =
    (.ok ⟨1⟩, ⟨joinedForest, []⟩) := by
  have hparse : parseForm (normalize joinedSum).toList =
      .ok (.call "add" [.numeral .int ['1', '2']]) := by
    rw [normalize_joinedSum]
    with_unfolding_all rfl
  rw [plantSource_ok hparse]
  rfl

def sumNumber (operands : List Number) : Number := promoted (sumOf operands) operands

theorem shown_of_value {source text : String} {v : Number}
    (hvalue : ∀ g, runSource (seededSurroundings.policy none) source [] g =
      ⟨.ok (some v), [], "", []⟩) (htext : v.render 6 = .ok text) :
    (runShown seededSurroundings ⟨none, false⟩ source []).shown = ⟨text ++ "\n", ""⟩ := by
  have hrender : Except.bind (.ok (some v) : Except Fault Value)
      (Value.render (seededSurroundings.policy none).places) = .ok text := htext
  unfold runShown
  simp only [hvalue, hrender]
  show Shown.mk ("" ++ text ++ "\n") "" = _
  rw [String.empty_append]

theorem normalization_exact_linedSum : Sown linedSum ⟨2⟩ sumForest ∧ ¬ Joined linedSum.toList ∧
    normalize linedSum ≠ linedSum ∧ Sown (normalize linedSum) ⟨2⟩ sumForest ∧
    (Console.enter seededSurroundings ⟨⟨none, false⟩, []⟩ linedSum).Follows
      (runMain seededSurroundings (fun _ => none) [] linedSum.toList []) := by
  have hnormal : parseForm (normalize linedSum).toList =
      .ok (.call "add" [.numeral .int ['1'], .numeral .int ['2']]) := by
    have htext : normalize linedSum = "(add 1;\n2)" := by decide
    rw [htext]
    with_unfolding_all rfl
  obtain ⟨hjoined, hsame⟩ := normalization_exact sown_linedSum
  have hapart := hjoined.1 ⟨_, parse_linedSum, hnormal⟩
  obtain ⟨hsown, -, hfollows⟩ := hsame hapart
  exact ⟨sown_linedSum, hapart, by decide, hsown,
    hfollows seededSurroundings (fun _ => none) [] ⟨false, none, none⟩ linedSum.toList [] [] rfl rfl
      rfl⟩

theorem not_normalization_exact_joinedSum : Sown joinedSum ⟨2⟩ sumForest ∧
    Sown (normalize joinedSum) ⟨1⟩ joinedForest ∧ sumForest ≠ joinedForest ∧
    (runMain seededSurroundings (fun _ => none) [] joinedSum.toList []).shown =
      ⟨"INT_TYPE: 3\n", ""⟩ ∧
    (Console.enter seededSurroundings ⟨⟨none, false⟩, []⟩ joinedSum).shown =
      ⟨"INT_TYPE: 12\n", ""⟩ := by
  refine ⟨⟨[], planted_joinedSum⟩, ⟨[], planted_normalize_joinedSum⟩, ?_, ?_, ?_⟩
  · intro h
    have hsize := congrArg (·.nodes.size) h
    revert hsize
    decide
  · have hvalue (g : Generator) :
        (runSource (seededSurroundings.policy none) joinedSum [] g) =
          ⟨.ok (some (sumNumber [oneLiteral, twoLiteral])), [], "", []⟩ := by
      unfold runSource
      rw [planted_joinedSum]
      rfl
    have hprinted : (sumNumber [oneLiteral, twoLiteral]).render 6 = .ok "INT_TYPE: 3" := by
      decide +kernel
    have hsource : sourceOf (fun _ => none) none joinedSum.toList = .ok (joinedSum, []) := rfl
    rw [runMain_of_source rfl rfl hsource]
    exact shown_of_value hvalue hprinted
  · have hvalue (g : Generator) :
        (runSource (seededSurroundings.policy none) (normalize joinedSum) [] g) =
          ⟨.ok (some (sumNumber [twelveLiteral])), [], "", []⟩ := by
      unfold runSource
      rw [planted_normalize_joinedSum]
      rfl
    have hprinted : (sumNumber [twelveLiteral]).render 6 = .ok "INT_TYPE: 12" := by
      decide +kernel
    have hblank : (strip (normalize joinedSum)).isEmpty = false := by decide
    have hslash : slash seededSurroundings.clearScreen (normalize joinedSum) ⟨none, false⟩ = none :=
      slash_eq_none.2 (by decide)
    unfold Console.enter
    simp only [hblank, hslash]
    exact shown_of_value hvalue hprinted

end Abacus
