import Abacus.Proofs.Syntax

/-!
# Syntactic faults

A syntactic fault is found at the first token that no accepted source could have there, or at the
first character at which no token begins, or at the end of a source that is the beginning of an
accepted one.  What stands before that place can always be gone on with.

* `Accepted`, `Viable`   accepted sources, and their beginnings;
* `Offends`              what is wrong with a source at a place;
* `viable_of_read`       what has been read can be gone on with;
* `first_offence`        **the place of a syntactic fault**.
-/

namespace Abacus

/-- the grammar accepts a source -/
def Accepted (source : List Char) : Prop := ∃ form, parseForm source = .ok form

/-- an accepted source begins with a text -/
def Viable (text : List Char) : Prop := ∃ more, Accepted (text ++ more)

/-- **What is wrong with a source**, given the part before the place of the fault and the part after
it. -/
def Offends (source before after : List Char) : Fault → Prop
  | .unexpectedToken word _ => Viable before ∧ ∃ ts k text rest, Spelled Gap ts before ∧
      after = text ++ rest ∧ k.Writes text ∧ Ends text rest ∧ word = String.ofList text ∧
      ∀ us other, Spelled EndGap (ts ++ (k, text) :: us) other → ¬ Accepted other
  | .unexpectedCharacter c _ => Viable before ∧ ∃ ts rest, Spelled Gap ts before ∧
      after = c :: rest ∧ Outside c ∧ ∀ k text more, after = text ++ more → ¬ Lexeme.Writes k text
  | .unexpectedEnd _ => Viable (source ++ ['\n']) ∧ ¬ Accepted source ∧
      (EndGap source ∧ before = [] ∨ ∃ ts k text gap, Spelled Gap ts before ∧
        after = text ++ gap ∧ Lexeme.Writes k text ∧ EndGap gap)
  | _ => False

section
variable {source before after : List Char}

/-- a source is accepted if it has no syntactic fault -/
theorem accepted_iff {source : String} : Accepted source.toList ↔
    ∀ e d, (plantSource source).run.run ⟨.empty, []⟩ = (.error e, d) →
      e.category ≠ .syntactic := by
  constructor
  · rintro ⟨form, hform⟩ e d hrun hsyntactic
    cases hform.symm.trans (parseForm_of_syntactic hrun hsyntactic)
  · intro h
    rcases hparse : parseForm source.toList with e | form
    · exact absurd (category_of_parseForm hparse) (h e _ (plantSource_error hparse))
    · exact ⟨form, hparse⟩

/-- **What has been read can be gone on with** on a new line. -/
theorem viable_of_read {ts : List Terminal} {m : Machine} (hspelled : Spelled EndGap ts source)
    (hread : Machine.read ts .start = some m) : Viable (source ++ ['\n']) := by
  obtain ⟨hm, _⟩ := Machine.has_read (m := .start) trivial hspelled.writes hread
  obtain ⟨us, form, hus, hfinished⟩ := Machine.exists_finished hm
  obtain ⟨more, hmore⟩ := exists_spelled hus
  have hall : Machine.read (ts ++ us) .start = some (.finished form) :=
    (Machine.read_append_of_read hread).trans hfinished
  have hwritten : Written (ts ++ us) := written_append.2 ⟨hspelled.writes, hus⟩
  obtain ⟨hform, hrow⟩ := Machine.has_read (m := .start) trivial hwritten hall
  have hrow : form.terminals = ts ++ us := hrow
  refine ⟨more, form, parseForm_eq_ok_iff.2 ⟨hform, ?_⟩⟩
  rw [hrow, List.append_assoc, List.singleton_append]
  exact hspelled.append hmore

theorem viable_of_gap {ts : List Terminal} {m : Machine} (hspelled : Spelled Gap ts source)
    (hread : Machine.read ts .start = some m) : Viable source := by
  obtain ⟨more, haccepted⟩ := viable_of_read (hspelled.mono fun _ h => .closed h) hread
  refine ⟨'\n' :: more, ?_⟩
  rwa [List.append_assoc] at haccepted

theorem not_accepted_of_step {ts us : List Terminal} {t : Terminal} {m : Machine}
    (hread : Machine.read ts .start = some m) (hnone : m.step? t.1 t.2 = none)
    (hspelled : Spelled EndGap (ts ++ t :: us) source) : ¬ Accepted source := by
  rintro ⟨form, hform⟩
  obtain ⟨hproper, hspelled'⟩ := parseForm_eq_ok_iff.1 hform
  have hfinished := Machine.read_form hproper
  rw [hspelled'.unique hspelled, Machine.read_append_of_read hread, Machine.read_cons,
    hnone] at hfinished
  cases hfinished

theorem last_token {init : List Token} {t : Token} (h : scan source = ⟨init ++ [t], none⟩) :
    ∃ before after, source = before ++ after ∧ t.place = .behind before ∧
      ∃ ts k text gap, Spelled Gap ts before ∧ after = text ++ gap ∧ Lexeme.Writes k text ∧
        EndGap gap := by
  obtain ⟨before, c, after, rfl, hc, hbefore, hafter⟩ := scan_split h (Or.inl (by simp))
  obtain ⟨rest, hcut, htext, _, hplace, hrest⟩ := scan_first hc hafter
  have hgap : Spelled EndGap [] rest := by
    rw [spelled_iff_scan, hrest]
    exact ⟨rfl, rfl⟩
  cases hgap with
  | nil hgap =>
    refine ⟨before, c :: after, rfl, hplace.trans (Place.over_start before), _, _, _, _, hbefore,
      hcut, htext, hgap⟩

theorem exists_offence {e : Fault} (h : parseForm source = .error e) :
    ∃ before after, source = before ++ after ∧ e.place? = some (.behind before) ∧
      Offends source before after e := by
  rcases parseForm_cases source with ⟨_, hok, _⟩ |
    ⟨init, t, rest, m, herror, htokens, hread, hnone⟩ | ⟨c, p, m, herror, hstop, hread⟩ |
    ⟨stack, herror, hstop, hread⟩
  · cases h.symm.trans hok
  · cases h.symm.trans herror
    have hscan : scan source = ⟨init ++ t :: rest, (scan source).stop⟩ := by
      rw [← htokens]
    obtain ⟨before, c, after, hsource, hc, hbefore, hafter⟩ := scan_split hscan (Or.inl (by simp))
    obtain ⟨more, hcut, htext, hends, hplace, _⟩ := scan_first hc hafter
    refine ⟨before, c :: after, hsource, ?_, viable_of_gap hbefore hread, ?_⟩
    · exact congrArg some (hplace.trans (Place.over_start before))
    · refine ⟨_, t.kind, t.text, more, hbefore, hcut, htext, hends, rfl, ?_⟩
      exact fun us other hother => not_accepted_of_step hread hnone hother
  · cases h.symm.trans herror
    have hscan : scan source = ⟨(scan source).tokens ++ [], some (c, p)⟩ := by
      rw [List.append_nil, ← hstop]
    obtain ⟨before, d, after, hsource, hd, hbefore, hafter⟩ := scan_split hscan (Or.inr (by simp))
    obtain ⟨rfl, rfl, hlex⟩ := scan_stop hd hafter
    refine ⟨before, c :: after, hsource, congrArg some (Place.over_start before),
      viable_of_gap hbefore hread, _, after, hbefore, rfl, hd, ?_⟩
    exact lexeme?_eq_none_iff.1 hlex
  · cases h.symm.trans herror
    have hspelled : Spelled EndGap ((scan source).tokens.map Token.terminal) source :=
      spelled_iff_scan.2 ⟨hstop, rfl⟩
    have hviable := viable_of_read hspelled hread
    have hrejected : ¬ Accepted source := by
      rintro ⟨form, hform⟩
      cases hform.symm.trans herror
    rcases List.eq_nil_or_concat (scan source).tokens with htokens | ⟨init, t, htokens⟩
    · rw [htokens] at hspelled
      cases hspelled with
      | nil hgap =>
        refine ⟨[], source, rfl, ?_, hviable, hrejected, Or.inl ⟨hgap, rfl⟩⟩
        rw [htokens]
        rfl
    · rw [List.concat_eq_append] at htokens
      have hscan : scan source = ⟨init ++ [t], none⟩ := by
        rw [← htokens, ← hstop]
      obtain ⟨before, after, hsource, hplace, hlast⟩ := last_token hscan
      refine ⟨before, after, hsource, ?_, hviable, hrejected, Or.inr hlast⟩
      have hend : endPlace (scan source).tokens = t.place := by
        rw [htokens, endPlace, List.getLast?_append]
        rfl
      show some (endPlace (scan source).tokens) = _
      rw [hend, hplace]

end

def unclosedSource : String := "(f 1"

theorem run_unclosed : (plantSource unclosedSource).run.run ⟨.empty, []⟩ =
    (.error (.unexpectedEnd ⟨1, 4⟩), ⟨.empty, []⟩) := by
  refine plantSource_error ?_
  with_unfolding_all rfl

end Abacus
