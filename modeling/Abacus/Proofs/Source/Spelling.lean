import Abacus.Proofs.Source.Terminal
import Mathlib.Data.List.Induction
import Mathlib.Tactic.Tauto

/-!
# Sources and their tokens

A source spells a row of terminals: their texts stand in it in turn, with gaps around them, and none
of them goes on with what follows it.  The scanner finds the one row that a source spells, or the
character at which it spells none; it gives each token the place at which its text stands.

* `Gap`, `EndGap`     white space and comments, the last one open at the end of a source;
* `Spelled`           a source spells a row of terminals;
* `Rendered`          a source with a gap between any two terminals that are words;
* `spelled_iff_scan`  the scanner finds what a source spells;
* `scan_split`        what stands before a token, or before the character that is none;
* `Place.behind`      the place after a text, in lines and columns.
-/

namespace Abacus

/-! ## Gaps -/

/-- white space and comments, each comment up to the end of its line -/
inductive Gap : List Char → Prop
  | nil : Gap []
  | space {c : Char} {cs : List Char} : isSpace c = true → Gap cs → Gap (c :: cs)
  | comment {text cs : List Char} : '\n' ∉ text → Gap cs → Gap (';' :: (text ++ '\n' :: cs))

/-- a gap at the end of a source, which the last comment may reach -/
inductive EndGap : List Char → Prop
  | closed {cs : List Char} : Gap cs → EndGap cs
  | opened {gap text : List Char} : Gap gap → '\n' ∉ text → EndGap (gap ++ ';' :: text)

def Outside (c : Char) : Prop := isSpace c = false ∧ c ≠ ';'

section
variable {c : Char} {cs ds gap : List Char}

theorem Gap.append (hcs : Gap cs) (hds : Gap ds) : Gap (cs ++ ds) := by
  induction hcs with
  | nil => exact hds
  | space hc _ ih => exact .space hc ih
  | comment htext _ ih =>
    rw [List.cons_append, List.append_assoc]
    exact .comment htext ih

theorem EndGap.newline (h : EndGap cs) : Gap (cs ++ ['\n']) := by
  have hline : Gap ['\n'] := .space (by decide) .nil
  cases h with
  | closed h => exact h.append hline
  | opened hgap htext =>
    rw [List.append_assoc]
    exact hgap.append (.comment htext .nil)

theorem EndGap.cons (hc : isSpace c = true) (h : EndGap cs) : EndGap (c :: cs) := by
  cases h with
  | closed h => exact .closed (.space hc h)
  | opened hgap htext => exact .opened (.space hc hgap) htext

theorem EndGap.comment {text : List Char} (htext : '\n' ∉ text) (h : EndGap cs) :
    EndGap (';' :: (text ++ '\n' :: cs)) := by
  cases h with
  | closed h => exact .closed (.comment htext h)
  | @opened gap last hgap hlast =>
    have hopened := EndGap.opened (Gap.comment htext hgap) hlast
    rwa [List.cons_append, List.append_assoc] at hopened

theorem mem_of_not_outside (h : ¬ Outside c) :
    c ∈ [' ', '\t', '\n', '\r', Char.ofNat 0x0c, ';'] := by
  rw [Outside, not_and_or, Bool.not_eq_false, Decidable.not_not] at h
  rcases h with h | rfl
  · simp only [isSpace, Bool.or_eq_true, beq_iff_eq] at h
    simp only [List.mem_cons]
    tauto
  · decide

theorem Gap.head (h : Gap gap) : ∀ c ∈ gap.head?, ¬ Outside c := by
  intro c hc houtside
  cases h with
  | nil => cases hc
  | space hspace _ =>
    cases hc
    rw [houtside.1] at hspace
    cases hspace
  | comment _ _ =>
    cases hc
    exact houtside.2 rfl

theorem EndGap.head (h : EndGap cs) : ∀ c ∈ cs.head?, ¬ Outside c := by
  cases h with
  | closed h => exact h.head
  | @opened gap text hgap _ =>
    cases gap with
    | nil =>
      intro c hc houtside
      cases hc
      exact houtside.2 rfl
    | cons d gap => exact hgap.head

theorem gap_cases (cs : List Char) :
    EndGap cs ∨ ∃ gap c rest, Gap gap ∧ Outside c ∧ cs = gap ++ c :: rest := by
  induction h : cs.length using Nat.strong_induction_on generalizing cs with
  | _ n ih =>
    subst h
    cases cs with
    | nil => exact Or.inl (.closed .nil)
    | cons c cs =>
      by_cases hspace : isSpace c = true
      · rcases ih cs.length (Nat.lt_succ_self _) cs rfl with hend | ⟨gap, d, rest, hgap, hd, rfl⟩
        · exact Or.inl (hend.cons hspace)
        · exact Or.inr ⟨c :: gap, d, rest, .space hspace hgap, hd, rfl⟩
      · by_cases hcomment : c = ';'
        · subst hcomment
          by_cases hline : '\n' ∈ cs
          · obtain ⟨text, after, rfl, htext⟩ := List.eq_append_cons_of_mem hline
            have hlt : after.length < (';' :: (text ++ '\n' :: after)).length := by
              simp only [List.length_cons, List.length_append]
              omega
            rcases ih _ hlt after rfl with hend | ⟨gap, d, rest, hgap, hd, rfl⟩
            · exact Or.inl (hend.comment htext)
            · refine Or.inr ⟨';' :: (text ++ '\n' :: gap), d, rest, .comment htext hgap, hd, ?_⟩
              simp
          · exact Or.inl (.opened .nil hline)
        · exact Or.inr ⟨[], c, cs, .nil, ⟨Bool.eq_false_iff.2 hspace, hcomment⟩, rfl⟩

end

/-! ## Terminals next to gaps -/

namespace Lexeme

variable {k : Lexeme} {c : Char} {text rest more : List Char}

theorem goesOn_of_not_outside (h : ¬ Outside c) : k.goesOn c = false := by
  have hall : [' ', '\t', '\n', '\r', Char.ofNat 0x0c, ';'].all (!k.goesOn ·) = true := by
    cases k <;> decide
  have hnot : (!k.goesOn c) = true := List.all_eq_true.1 hall c (mem_of_not_outside h)
  rwa [Bool.not_eq_true'] at hnot

theorem Writes.outside (h : k.Writes (c :: text)) : Outside c := by
  by_contra hnot
  have hnone : lexeme? (c :: text) = none := by
    have hc := mem_of_not_outside hnot
    simp only [List.mem_cons, List.not_mem_nil, or_false] at hc
    rcases hc with rfl | rfl | rfl | rfl | rfl | rfl <;> rfl
  exact lexeme?_eq_none_iff.1 hnone k (c :: text) [] (List.append_nil _).symm h

theorem Writes.ends_of_gap (h : k.Writes text) (hrest : ∀ c ∈ rest.head?, ¬ Outside c) :
    Ends text rest :=
  h.ends_iff.2 fun c hc => goesOn_of_not_outside (hrest c hc)

end Lexeme

theorem Ends.of_append {text rest more : List Char} (h : Ends text (rest ++ more)) :
    Ends text rest := by
  rintro k longer after rfl hne
  exact h k longer (after ++ more) (List.append_assoc _ _ _) hne

/-! ## Spelling -/

/-- the source spells the terminals and ends in a tail of a given kind -/
inductive Spelled (Tail : List Char → Prop) : List Terminal → List Char → Prop
  | nil {cs : List Char} : Tail cs → Spelled Tail [] cs
  | cons {k : Lexeme} {gap text rest : List Char} {ts : List Terminal} : Gap gap → k.Writes text →
      Ends text rest → Spelled Tail ts rest → Spelled Tail ((k, text) :: ts) (gap ++ (text ++ rest))

def Lexeme.isWord : Lexeme → Bool
  | .integer | .decimal | .symbol => true
  | _ => false

/-- **A source that renders a row of terminals**: gaps stand around them, and there is one between
any two words.  The flag says whether a word stands before the source. -/
inductive Rendered : Bool → List Terminal → List Char → Prop
  | nil {after : Bool} {cs : List Char} : EndGap cs → Rendered after [] cs
  | cons {after : Bool} {k : Lexeme} {gap text rest : List Char} {ts : List Terminal} : Gap gap →
      (after = true → k.isWord = true → gap ≠ []) → Rendered k.isWord ts rest →
      Rendered after ((k, text) :: ts) (gap ++ (text ++ rest))

section
variable {Tail : List Char → Prop} {ts us : List Terminal} {cs ds : List Char}

theorem Rendered.head {k : Lexeme} (h : Rendered k.isWord ts cs)
    (hwrites : ∀ t ∈ ts, t.1.Writes t.2) : ∀ c ∈ cs.head?, k.goesOn c = false := by
  intro c hc
  have hpunctuation {k : Lexeme} (hk : k.isWord = false) : k.goesOn c = false := by
    cases k with
    | integer => cases hk
    | decimal => cases hk
    | symbol => cases hk
    | _ => rfl
  by_cases hword : k.isWord = true
  · rw [hword] at h
    cases h with
    | nil hend => exact Lexeme.goesOn_of_not_outside (hend.head c hc)
    | @cons _ k' gap text rest us hgap hsep _ =>
      cases gap with
      | cons d gap => exact Lexeme.goesOn_of_not_outside (hgap.head c hc)
      | nil =>
        have htext : k'.Writes text := hwrites (k', text) List.mem_cons_self
        cases htext with
        | opening =>
          cases hc
          cases k <;> decide
        | closing =>
          cases hc
          cases k <;> decide
        | colon =>
          cases hc
          cases k <;> decide
        | integer _ _ _ => exact absurd rfl (hsep rfl rfl)
        | decimal _ _ _ _ => exact absurd rfl (hsep rfl rfl)
        | symbol _ _ => exact absurd rfl (hsep rfl rfl)
  · exact hpunctuation (Bool.eq_false_iff.2 hword)

/-- **A rendering of terminals spells them.** -/
theorem Rendered.spelled {after : Bool} (h : Rendered after ts cs)
    (hwrites : ∀ t ∈ ts, t.1.Writes t.2) : Spelled EndGap ts cs := by
  induction h with
  | nil hend => exact .nil hend
  | @cons _ k gap text rest ts hgap _ hrest ih =>
    have htext : k.Writes text := hwrites (k, text) List.mem_cons_self
    have hts : ∀ t ∈ ts, t.1.Writes t.2 := fun t ht => hwrites t (List.mem_cons_of_mem _ ht)
    exact .cons hgap htext (htext.ends_iff.2 (hrest.head hts)) (ih hts)

theorem Spelled.writes (h : Spelled Tail ts cs) : ∀ t ∈ ts, t.1.Writes t.2 := by
  induction h with
  | nil _ => exact fun t ht => by cases ht
  | cons _ htext _ _ ih =>
    intro t ht
    rcases List.mem_cons.1 ht with rfl | ht
    · exact htext
    · exact ih t ht

theorem Spelled.mono {Tail' : List Char → Prop} (h : Spelled Tail ts cs)
    (htail : ∀ cs, Tail cs → Tail' cs) : Spelled Tail' ts cs := by
  induction h with
  | nil hcs => exact .nil (htail _ hcs)
  | cons hgap htext hends _ ih => exact .cons hgap htext hends ih

theorem Spelled.gap_append {gap : List Char} (hgap : Gap gap) (h : Spelled EndGap ts cs) :
    Spelled EndGap ts (gap ++ cs) := by
  cases h with
  | nil hend =>
    refine .nil ?_
    cases hend with
    | closed h => exact .closed (hgap.append h)
    | opened h htext =>
      rw [← List.append_assoc]
      exact .opened (hgap.append h) htext
  | cons h htext hends hrest =>
    rw [← List.append_assoc]
    exact .cons (hgap.append h) htext hends hrest

theorem Spelled.append (hcs : Spelled EndGap ts cs) (hds : Spelled EndGap us ds) :
    Spelled EndGap (ts ++ us) (cs ++ '\n' :: ds) := by
  induction hcs with
  | nil hend =>
    rw [List.nil_append, List.append_cons]
    exact hds.gap_append hend.newline
  | @cons k gap text rest ts hgap htext hends hrest ih =>
    rw [List.append_assoc, List.append_assoc, List.cons_append]
    refine .cons hgap htext ?_ ih
    refine htext.ends_iff.2 ?_
    intro c hc
    cases rest with
    | nil =>
      cases hc
      exact Lexeme.goesOn_of_not_outside (fun houtside => by cases houtside.1)
    | cons d rest => exact htext.ends_iff.1 hends c hc

theorem exists_spelled (h : ∀ t ∈ ts, t.1.Writes t.2) : ∃ cs, Spelled EndGap ts cs := by
  induction ts with
  | nil => exact ⟨[], .nil (.closed .nil)⟩
  | cons t ts ih =>
    obtain ⟨ds, hds⟩ := ih fun u hu => h u (List.mem_cons_of_mem t hu)
    have htext := h t List.mem_cons_self
    have hone : Spelled EndGap [t] ([] ++ (t.2 ++ [])) :=
      .cons .nil htext (htext.ends_of_gap fun c hc => by cases hc) (.nil (.closed .nil))
    exact ⟨_, hone.append hds⟩

end

/-! ## The scanner -/

section
variable {p : Place} {c : Char} {gap text rest cs : List Char} {k : Lexeme}

theorem skipGap_comment (htext : '\n' ∉ text) :
    skipGap true p (text ++ '\n' :: cs) = skipGap false (p.over (text ++ ['\n'])) cs := by
  induction text generalizing p with
  | nil => rfl
  | cons c text ih =>
    have hc : (c != '\n') = true := by
      rw [bne_iff_ne]
      exact fun heq => htext (heq ▸ List.mem_cons_self)
    rw [List.cons_append, skipGap, hc, ih fun hmem => htext (List.mem_cons_of_mem c hmem)]
    rfl

theorem skipGap_open (htext : '\n' ∉ text) : skipGap true p text = (p.over text, []) := by
  induction text generalizing p with
  | nil => rfl
  | cons c text ih =>
    have hc : (c != '\n') = true := by
      rw [bne_iff_ne]
      exact fun heq => htext (heq ▸ List.mem_cons_self)
    rw [skipGap, hc, ih fun hmem => htext (List.mem_cons_of_mem c hmem)]
    rfl

theorem skipGap_gap (h : Gap gap) :
    skipGap false p (gap ++ cs) = skipGap false (p.over gap) cs := by
  induction h generalizing p with
  | nil => rfl
  | space hc _ ih =>
    rw [List.cons_append, skipGap, if_pos hc, ih]
    rfl
  | @comment text gap htext _ ih =>
    rw [List.cons_append, skipGap, if_neg (by decide), if_pos rfl, List.append_assoc,
      List.cons_append, skipGap_comment htext, ih, Place.over_cons, ← Place.over_append,
      ← List.append_cons]

theorem skipGap_end (h : EndGap cs) : skipGap false p cs = (p.over cs, []) := by
  cases h with
  | closed h =>
    have hgap : skipGap false p (cs ++ []) = skipGap false (p.over cs) [] := skipGap_gap h
    rwa [List.append_nil] at hgap
  | opened hgap htext =>
    rw [skipGap_gap hgap, skipGap, if_neg (by decide), if_pos rfl, skipGap_open htext,
      Place.over_append]
    rfl

theorem skipGap_outside (hc : Outside c) : skipGap false p (c :: cs) = (p, c :: cs) := by
  rw [skipGap, hc.1, if_neg (by decide), if_neg hc.2]

theorem scanFrom_end (h : EndGap cs) : scanFrom p cs = ⟨[], none⟩ := by
  unfold scanFrom
  split
  · rfl
  · next heq =>
    rw [skipGap_end h] at heq
    cases heq

theorem scanFrom_stuck (hgap : Gap gap) (hc : Outside c) (hnone : lexeme? (c :: rest) = none) :
    scanFrom p (gap ++ c :: rest) = ⟨[], some (c, p.over gap)⟩ := by
  have hskip : skipGap false p (gap ++ c :: rest) = (p.over gap, c :: rest) :=
    (skipGap_gap hgap).trans (skipGap_outside hc)
  unfold scanFrom
  split
  · next heq =>
    rw [hskip] at heq
    cases heq
  · next heq =>
    rw [hskip] at heq
    cases heq
    split
    · rfl
    · next hsome =>
      rw [hnone] at hsome
      cases hsome

theorem scanFrom_token (hgap : Gap gap) (htext : k.Writes text) (hends : Ends text rest) :
    scanFrom p (gap ++ (text ++ rest)) =
      ⟨⟨k, text, p.over gap⟩ :: (scanFrom (p.over (gap ++ text)) rest).tokens,
        (scanFrom (p.over (gap ++ text)) rest).stop⟩ := by
  have hlex : lexeme? (text ++ rest) = some (k, text, rest) :=
    lexeme?_eq_some_iff.2 ⟨rfl, htext, hends⟩
  rw [Place.over_append]
  obtain ⟨c, cs, rfl⟩ := List.exists_cons_of_ne_nil htext.ne_nil
  have hskip : skipGap false p (gap ++ (c :: cs ++ rest)) = (p.over gap, c :: cs ++ rest) :=
    (skipGap_gap hgap).trans (skipGap_outside htext.outside)
  rw [scanFrom]
  split
  · next heq =>
    rw [hskip] at heq
    cases heq
  · next heq =>
    rw [hskip] at heq
    cases heq
    split
    · next hnone => cases hlex.symm.trans hnone
    · next hsome =>
      cases hlex.symm.trans hsome
      rfl

/-- induction on a source as the scanner goes through it -/
@[elab_as_elim]
theorem scan_induction {motive : List Char → Prop} (ends : ∀ cs, EndGap cs → motive cs)
    (stuck : ∀ gap c rest, Gap gap → Outside c → lexeme? (c :: rest) = none →
      motive (gap ++ c :: rest))
    (token : ∀ gap k text rest, Gap gap → Lexeme.Writes k text → Ends text rest → motive rest →
      motive (gap ++ (text ++ rest))) (cs : List Char) : motive cs := by
  induction h : cs.length using Nat.strong_induction_on generalizing cs with
  | _ n ih =>
    subst h
    rcases gap_cases cs with hend | ⟨gap, c, rest, hgap, hc, rfl⟩
    · exact ends cs hend
    · rcases hlex : lexeme? (c :: rest) with _ | ⟨k, text, after⟩
      · exact stuck gap c rest hgap hc hlex
      · have hlt := length_lexeme? hlex
        obtain ⟨hcut, htext, hends⟩ := lexeme?_eq_some_iff.1 hlex
        rw [hcut] at ih ⊢
        refine token gap k text after hgap htext hends (ih after.length ?_ after rfl)
        rw [← hcut, List.length_append]
        omega

end

section
variable {p : Place} {cs : List Char}

/-- **The scanner finds the row that a source spells**, if it spells one. -/
theorem spelled_iff_scan {ts : List Terminal} : Spelled EndGap ts cs ↔
    (scanFrom p cs).stop = none ∧ (scanFrom p cs).tokens.map Token.terminal = ts := by
  constructor
  · intro h
    induction h generalizing p with
    | nil hend =>
      rw [scanFrom_end hend]
      exact ⟨rfl, rfl⟩
    | @cons k gap text rest ts hgap htext hends _ ih =>
      rw [scanFrom_token hgap htext hends]
      obtain ⟨hstop, htokens⟩ := ih (p := p.over (gap ++ text))
      exact ⟨hstop, congrArg ((k, text) :: ·) htokens⟩
  · rintro ⟨hstop, rfl⟩
    induction cs using scan_induction generalizing p with
    | ends cs hend =>
      rw [scanFrom_end hend]
      exact .nil hend
    | stuck gap c rest hgap hc hnone =>
      rw [scanFrom_stuck hgap hc hnone] at hstop
      cases hstop
    | token gap k text rest hgap htext hends ih =>
      rw [scanFrom_token hgap htext hends] at hstop ⊢
      exact .cons hgap htext hends (ih hstop)

/-- a source spells at most one row of terminals -/
theorem Spelled.unique {ts us : List Terminal} (hts : Spelled EndGap ts cs)
    (hus : Spelled EndGap us cs) : ts = us :=
  ((spelled_iff_scan (p := .start)).1 hts).2.symm.trans (spelled_iff_scan.1 hus).2

/-- **What stands before a token**, or before the character at which there is none. -/
theorem scan_split {ts us : List Token} {stop : Option (Char × Place)}
    (h : scanFrom p cs = ⟨ts ++ us, stop⟩) (hmore : us ≠ [] ∨ stop ≠ none) :
    ∃ before c after, cs = before ++ c :: after ∧ Outside c ∧
      Spelled Gap (ts.map Token.terminal) before ∧
      scanFrom (p.over before) (c :: after) = ⟨us, stop⟩ := by
  induction cs using scan_induction generalizing p ts with
  | ends cs hend =>
    rw [scanFrom_end hend, Scan.mk.injEq] at h
    obtain ⟨hnil, rfl⟩ := h
    have hus : us = [] := (List.append_eq_nil_iff.1 hnil.symm).2
    exact absurd rfl (hmore.resolve_left fun hne => hne hus)
  | stuck gap c rest hgap hc hnone =>
    rw [scanFrom_stuck hgap hc hnone, Scan.mk.injEq] at h
    obtain ⟨hnil, rfl⟩ := h
    obtain ⟨rfl, rfl⟩ := List.append_eq_nil_iff.1 hnil.symm
    refine ⟨gap, c, rest, rfl, hc, .nil hgap, ?_⟩
    exact scanFrom_stuck .nil hc hnone
  | token gap k text rest hgap htext hends ih =>
    have hscan := h
    rw [scanFrom_token hgap htext hends, Scan.mk.injEq] at h
    obtain ⟨htokens, hstop⟩ := h
    cases ts with
    | nil =>
      rw [Place.over_append] at htokens hstop
      obtain ⟨c, cs, rfl⟩ := List.exists_cons_of_ne_nil htext.ne_nil
      refine ⟨gap, c, cs ++ rest, rfl, htext.outside, .nil hgap, ?_⟩
      rw [← List.cons_append, ← List.nil_append (c :: cs ++ rest), scanFrom_token .nil htext hends,
        Scan.mk.injEq]
      exact ⟨htokens, hstop⟩
    | cons t ts =>
      obtain ⟨rfl, hbelow⟩ := List.cons.inj htokens
      have hbelow : scanFrom (p.over (gap ++ text)) rest = ⟨ts ++ us, stop⟩ := by
        rw [← hstop]
        exact congrArg (Scan.mk · _) hbelow
      obtain ⟨before, c, after, rfl, hc, hbefore, hafter⟩ := ih hbelow
      refine ⟨gap ++ (text ++ before), c, after, by simp, hc, ?_, ?_⟩
      · exact .cons hgap htext hends.of_append hbefore
      · rw [← List.append_assoc, Place.over_append]
        exact hafter

theorem scan_first {c : Char} {t : Token} {us : List Token} {stop : Option (Char × Place)}
    (hc : Outside c) (h : scanFrom p (c :: cs) = ⟨t :: us, stop⟩) :
    ∃ rest, c :: cs = t.text ++ rest ∧ t.kind.Writes t.text ∧ Ends t.text rest ∧ t.place = p ∧
      scanFrom (p.over t.text) rest = ⟨us, stop⟩ := by
  rcases hlex : lexeme? (c :: cs) with _ | ⟨k, text, rest⟩
  · have hstuck : scanFrom p ([] ++ c :: cs) = _ := scanFrom_stuck .nil hc hlex
    cases h.symm.trans hstuck
  · obtain ⟨hcut, htext, hends⟩ := lexeme?_eq_some_iff.1 hlex
    have htoken : scanFrom p ([] ++ (text ++ rest)) = _ := scanFrom_token .nil htext hends
    rw [hcut, ← List.nil_append (text ++ rest), htoken, Scan.mk.injEq, List.cons.injEq] at h
    obtain ⟨⟨rfl, htokens⟩, hstop⟩ := h
    refine ⟨rest, hcut, htext, hends, rfl, ?_⟩
    rw [← htokens, ← hstop]
    rfl

theorem scan_stop {c d : Char} {q : Place} (hc : Outside c)
    (h : scanFrom p (c :: cs) = ⟨[], some (d, q)⟩) :
    d = c ∧ q = p ∧ lexeme? (c :: cs) = none := by
  rcases hlex : lexeme? (c :: cs) with _ | ⟨k, text, rest⟩
  · have hstuck : scanFrom p ([] ++ c :: cs) = _ := scanFrom_stuck .nil hc hlex
    cases h.symm.trans hstuck
    exact ⟨rfl, rfl, rfl⟩
  · obtain ⟨hcut, htext, hends⟩ := lexeme?_eq_some_iff.1 hlex
    have htoken : scanFrom p ([] ++ (text ++ rest)) = _ := scanFrom_token .nil htext hends
    rw [hcut] at h
    cases h.symm.trans htoken

end

/-! ## Places -/

namespace Place

/-- **The place after a text**: lines and columns are counted from one, columns from the last line
break. -/
def behind (cs : List Char) : Place :=
  ⟨1 + cs.count '\n', 1 + (cs.reverse.takeWhile (· != '\n')).length⟩

theorem over_start (cs : List Char) : start.over cs = behind cs := by
  unfold behind
  induction cs using List.reverseRecOn with
  | nil => rfl
  | append_singleton cs c ih =>
    rw [over_append, ih, List.reverse_append, List.reverse_singleton, List.singleton_append,
      List.count_append]
    by_cases hc : c = '\n'
    · subst hc
      rfl
    · have hbne : (c != '\n') = true := bne_iff_ne.2 hc
      have hcount : [c].count '\n' = 0 := List.count_singleton.trans (if_neg (by simpa using hc))
      rw [List.takeWhile_cons, if_pos hbne, hcount, over_cons, over_nil, after, if_neg hc]
      rfl

def Before (p q : Place) : Prop := p.line < q.line ∨ p.line = q.line ∧ p.column < q.column

theorem Before.trans {p q r : Place} (h : p.Before q) (h' : q.Before r) : p.Before r := by
  unfold Before at *
  omega

theorem before_over {cs : List Char} (hne : cs ≠ []) (p : Place) : p.Before (p.over cs) := by
  have hstep (p : Place) (c : Char) : p.Before (p.after c) := by
    unfold after
    split
    · exact Or.inl (Nat.lt_succ_self _)
    · exact Or.inr ⟨rfl, Nat.lt_succ_self _⟩
  induction cs generalizing p with
  | nil => exact absurd rfl hne
  | cons c cs ih =>
    rw [over_cons]
    by_cases hcs : cs = []
    · subst hcs
      exact hstep p c
    · exact (hstep p c).trans (ih hcs _)

theorem behind_injective {before before' after after' : List Char}
    (hsource : before ++ after = before' ++ after') (hplace : behind before = behind before') :
    before = before' := by
  have hextends {cs ds : List Char} (h : behind cs = behind (cs ++ ds)) : ds = [] := by
    by_contra hne
    have hbefore := before_over hne (start.over cs)
    rw [← over_append, over_start, over_start, ← h] at hbefore
    unfold Before at hbefore
    omega
  rcases List.append_eq_append_iff.1 hsource with ⟨ds, rfl, rfl⟩ | ⟨ds, rfl, rfl⟩
  · rw [hextends hplace, List.append_nil]
  · rw [hextends hplace.symm, List.append_nil]

end Place

end Abacus
