import Abacus.Proofs.Amount.Nearest
import Abacus.Proofs.Linkage

/-!
# Numerals

A number is read in two ways: as a line of input, and as a literal of a source.  The line is matched
against one pattern, the source is cut into tokens; both take the same texts, and both read the same
number from them, but that an integer literal keeps no sign on a zero.

* `isNumeral_iff`               the texts that a line may have are those of the two number classes;
* `ofNumeral_integer`, `ofNumeral_decimal`   the amounts of the texts of the two classes;
* `roundHalfAway_ofNumeral`     a numeral without a point is whole already;
* `IsLiteral`, `isLiteral_iff`  the sources that are a number by themselves;
* `readers_agree`               **the two readers agree**.
-/

namespace Abacus

attribute [local instance] ownPow

/-! ## Signs and digits -/

section
variable {sign body digits whole fraction cs : List Char}

theorem unsigned_eq (cs : List Char) : unsigned cs = (splitSign cs).2 := by
  cases cs with
  | nil => rfl
  | cons c cs =>
    by_cases hplus : c = '+'
    · rw [hplus]
      rfl
    · by_cases hminus : c = '-'
      · rw [hminus]
        rfl
      · simp [unsigned, splitSign, hplus, hminus]

theorem hasMinus_eq (cs : List Char) : hasMinus cs = ((splitSign cs).1 == ['-']) := by
  unfold hasMinus splitSign
  split
  · rfl
  · next hnot =>
    split
    · rfl
    · next rest => exact absurd rfl (hnot rest)
    · rfl

theorem not_sign_of_head (hdigits : ∀ c ∈ digits, isDigit c = true)
    (hbody : body.head? = some '.' ∨ body = [] ∧ digits ≠ []) :
    ∀ c ∈ (digits ++ body).head?, c ≠ '+' ∧ c ≠ '-' := by
  intro c hc
  cases digits with
  | nil =>
    rcases hbody with hbody | ⟨-, hne⟩
    · rw [List.nil_append, hbody] at hc
      cases hc
      decide
    · exact absurd rfl hne
  | cons d digits =>
    cases hc
    have hd := hdigits c List.mem_cons_self
    exact ⟨ne_of_class hd (by decide), ne_of_class hd (by decide)⟩

theorem parts_of_sign (hsign : IsSign sign) (hdigits : ∀ c ∈ digits, isDigit c = true)
    (hbody : body.head? = some '.' ∨ body = [] ∧ digits ≠ []) :
    hasMinus (sign ++ (digits ++ body)) = (sign == ['-']) ∧
      wholeDigits (sign ++ (digits ++ body)) = digits ∧
      afterWhole (sign ++ (digits ++ body)) = body := by
  have hsplit := splitSign_of_sign hsign (not_sign_of_head hdigits hbody)
  have hrest : ∀ c ∈ body.head?, isDigit c = false := by
    intro c hc
    rcases hbody with hbody | ⟨rfl, -⟩
    · rw [hbody] at hc
      cases hc
      decide
    · cases hc
  have hspan := span_of_class hdigits hrest
  unfold wholeDigits afterWhole
  rw [hasMinus_eq, unsigned_eq, hsplit]
  exact ⟨rfl, hspan⟩

theorem parts_integer (hsign : IsSign sign) (hne : digits ≠ [])
    (hdigits : ∀ c ∈ digits, isDigit c = true) :
    hasMinus (sign ++ digits) = (sign == ['-']) ∧ wholeDigits (sign ++ digits) = digits ∧
      afterWhole (sign ++ digits) = [] := by
  have hparts := parts_of_sign hsign hdigits (.inr ⟨rfl, hne⟩)
  rwa [List.append_nil] at hparts

theorem parts_decimal (hsign : IsSign sign) (hwhole : ∀ c ∈ whole, isDigit c = true)
    (fraction : List Char) : hasMinus (sign ++ (whole ++ '.' :: fraction)) = (sign == ['-']) ∧
      wholeDigits (sign ++ (whole ++ '.' :: fraction)) = whole ∧
      afterWhole (sign ++ (whole ++ '.' :: fraction)) = '.' :: fraction := by
  have hpoint : ('.' :: fraction).head? = some '.' := rfl
  exact parts_of_sign hsign hwhole (.inl hpoint)

/-- **The texts of numerals** are those of the two classes of numbers. -/
theorem isNumeral_iff : isNumeral cs = true ↔
    Lexeme.integer.Writes cs ∨ Lexeme.decimal.Writes cs := by
  constructor
  · intro h
    have hsign := isSign_splitSign cs
    have hwhole : ∀ c ∈ wholeDigits cs, isDigit c = true := fun c hc => List.mem_takeWhile_imp hc
    have hcut : (splitSign cs).1 ++ (wholeDigits cs ++ afterWhole cs) = cs := by
      unfold wholeDigits afterWhole
      rw [List.takeWhile_append_dropWhile, unsigned_eq, splitSign_append]
    unfold isNumeral at h
    split at h
    · next hafter =>
      rw [hafter, List.append_nil] at hcut
      rw [← hcut]
      refine .inl (.integer hsign ?_ hwhole)
      simpa using h
    · next fraction hafter =>
      rw [hafter] at hcut
      rw [← hcut]
      simp only [Bool.and_eq_true, List.all_eq_true, Bool.not_eq_true'] at h
      refine .inr (.decimal hsign ?_ hwhole h.1)
      have hne := h.2
      rw [Bool.and_eq_false_iff] at hne
      simpa using hne
    · cases h
  · rintro (h | h)
    · cases h with
      | integer hsign hne hdigits =>
        obtain ⟨-, hwhole, hafter⟩ := parts_integer hsign hne hdigits
        unfold isNumeral
        rw [hafter, hwhole]
        simpa using hne
    · cases h with
      | decimal hsign hne hdigits hfraction =>
        obtain ⟨-, hwhole, hafter⟩ := parts_decimal hsign hdigits _
        unfold isNumeral
        rw [hafter, hwhole]
        simp only [Bool.and_eq_true, List.all_eq_true, Bool.not_eq_true', Bool.and_eq_false_iff]
        exact ⟨hfraction, by simpa using hne⟩

/-! ## Amounts of numerals -/

theorem ofNumeral_integer (hsign : IsSign sign) (hne : digits ≠ [])
    (hdigits : ∀ c ∈ digits, isDigit c = true) : Amount.ofNumeral (sign ++ digits) =
      .ofRatio (sign == ['-']) (digitsValue digits * unitsPerOne) 1 := by
  obtain ⟨hminus, hwhole, hafter⟩ := parts_integer hsign hne hdigits
  have hfraction : fractionDigits (sign ++ digits) = [] := by
    unfold fractionDigits
    rw [hafter]
  unfold Amount.ofNumeral
  rw [hminus, hwhole, hfraction]
  show Amount.ofRatio _ (digitsValue (digits ++ []) * unitsPerOne) 1 = _
  rw [List.append_nil]

theorem ofNumeral_decimal (hsign : IsSign sign) (hwhole : ∀ c ∈ whole, isDigit c = true)
    (hfraction : ∀ c ∈ fraction, isDigit c = true) :
    Amount.ofNumeral (sign ++ (whole ++ '.' :: fraction)) =
      .ofRatio (sign == ['-']) (digitsValue (whole ++ fraction) * unitsPerOne)
        (10 ^ fraction.length) := by
  obtain ⟨hminus, hdigits, hafter⟩ := parts_decimal hsign hwhole fraction
  have hdropped : fractionDigits (sign ++ (whole ++ '.' :: fraction)) = fraction := by
    unfold fractionDigits
    rw [hafter]
    exact List.takeWhile_eq_self_iff.2 hfraction
  unfold Amount.ofNumeral
  rw [hminus, hdigits, hdropped]

namespace Amount

theorem roundHalfAway_of_dvd {s : Bool} {n : Nat} {h : Fits n} (hn : unitsPerOne ∣ n) :
    roundHalfAway (.finite s n h) = if n = 0 then zero false else .finite s n h := by
  obtain ⟨m, rfl⟩ := hn
  have hpos := unitsPerOne_pos
  rw [roundHalfAway_units]
  simp only [nearestOnes_mul]
  by_cases hm : m = 0
  · subst hm
    rfl
  · have hne : unitsPerOne * m ≠ 0 := Nat.mul_ne_zero (Nat.ne_of_gt hpos) hm
    rw [if_neg hm, if_neg hne]
    congr 1
    exact Nat.mul_comm m _

theorem isEqual_self {x : Amount} (h : x.isNaN = false) : x.isEqual x = true := by
  cases x with
  | nan => cases h
  | infinite s => exact beq_self_eq_true s
  | finite s n hn => exact beq_self_eq_true (signed s n)

/-- **A numeral without a point is whole already**, but for the sign of a zero. -/
theorem roundHalfAway_ofNumeral (h : Lexeme.integer.Writes cs) :
    (ofNumeral cs).roundHalfAway = ofNumeral cs ∨
      ofNumeral cs = zero true ∧ (ofNumeral cs).roundHalfAway = zero false := by
  cases h with
  | integer hsign hne hdigits =>
    rw [ofNumeral_integer hsign hne hdigits]
    generalize hvalue : digitsValue _ = m
    generalize (_ == ['-']) = s
    unfold ofRatio
    dsimp only
    split
    · next hlt =>
      rw [roundHalfAway_of_dvd (unitsPerOne_dvd_toGrid m)]
      by_cases hzero : toGrid (m * unitsPerOne) 1 = 0
      · rw [if_pos hzero]
        cases s with
        | false =>
          left
          unfold zero
          congr 1
          exact hzero.symm
        | true =>
          refine .inr ⟨?_, rfl⟩
          unfold zero
          congr 1
      · exact .inl (if_neg hzero)
    · exact .inl rfl

end Amount

end

/-! ## Literals -/

/-- **A source is a number by itself**: its node is that number, and has no table. -/
def IsLiteral (source : String) (v : Number) : Prop :=
  ∃ root f node, Sown source root f ∧ f.node? root = some node ∧ node.shape = .number v ∧
    node.scope = none

section
variable {source : String} {v : Number} {text : List Char} {kind : Kind}

theorem isLiteral_iff : IsLiteral source v ↔ ∃ kind text,
    parseForm source.toList = .ok (.numeral kind text) ∧ v = .make (.ofNumeral text) kind := by
  constructor
  · rintro ⟨root, f, node, hsown, hnode, hshape, hscope⟩
    obtain ⟨form, hproper, hspelled, node', ts, hnode', hrow, hstands⟩ := hsown.whole
    rw [hnode] at hnode'
    cases hnode'
    have hshape : f.shape? root = some (.number v) := by
      rw [Forest.shape?, hnode, Option.map_some, hshape]
    have hparse := parseForm_eq_ok_iff.2 ⟨hproper, hspelled⟩
    rw [hscope] at hrow
    cases hrow
    rcases form with ⟨kind, text⟩ | name | ⟨name, operands⟩ | ⟨test, ifTrue, ifFalse⟩ |
      ⟨definitions, body⟩
    · refine ⟨kind, text, hparse, ?_⟩
      have hstands := hstands.2.symm.trans hshape
      simp only [Option.some.injEq, Shape.number.injEq] at hstands
      exact hstands.symm
    · cases hstands.2.symm.trans hshape
    · obtain ⟨-, ids, hcall, -⟩ := hstands
      cases hcall.symm.trans hshape
    · obtain ⟨-, a, b, c, hchoice, -⟩ := hstands
      cases hchoice.symm.trans hshape
    · cases hproper with
      | scope hne _ _ =>
        rcases hstands with ⟨hnone, -⟩ | ⟨-, inner, t, table, hts, -⟩
        · exact absurd hnone hne
        · simp at hts
  · rintro ⟨kind, text, hparse, rfl⟩
    refine ⟨⟨0⟩, ⟨#[⟨.number (.make (.ofNumeral text) kind), none, none⟩], #[], #[]⟩, _,
      ⟨[], ?_⟩, rfl, rfl, rfl⟩
    rw [plantSource_ok hparse]
    rfl

/-! ## Texts without gaps -/

theorem isBlank_of_isSpace {c : Char} (h : isSpace c = true) : isBlank c = true := by
  simp only [isSpace, Bool.or_eq_true, beq_iff_eq] at h
  rcases h with (((rfl | rfl) | rfl) | rfl) | rfl <;> decide

theorem outside_of_not_blank {c : Char} (h : isBlank c = false ∧ c ≠ ';') : Outside c := by
  refine ⟨?_, h.2⟩
  rw [Bool.eq_false_iff]
  intro hspace
  rw [isBlank_of_isSpace hspace] at h
  cases h.1

theorem stripChars_of_not_blank {cs : List Char} (h : ∀ c ∈ cs, isBlank c = false) :
    stripChars cs = cs := by
  have hkept {cs : List Char} (h : ∀ c ∈ cs, isBlank c = false) : cs.dropWhile isBlank = cs := by
    cases cs with
    | nil => rfl
    | cons c cs => rw [List.dropWhile_cons, h c List.mem_cons_self, if_neg (by decide)]
  unfold stripChars
  rw [hkept h, hkept fun c hc => h c (List.mem_reverse.1 hc), List.reverse_reverse]

theorem parseForm_of_writes {cs : List Char} (h : kind.lexeme.Writes cs) :
    parseForm cs = .ok (.numeral kind cs) := by
  have hspelled : Spelled EndGap [(kind.lexeme, cs)] ([] ++ (cs ++ [])) :=
    .cons .nil h (h.ends_of_gap fun c hc => by cases hc) (.nil (.closed .nil))
  rw [List.nil_append, List.append_nil] at hspelled
  exact parseForm_eq_ok_iff.2 ⟨.numeral h, hspelled⟩

theorem isLiteral_iff_eq (h : kind.lexeme.Writes source.toList) :
    IsLiteral source v ↔ v = .make (.ofNumeral source.toList) kind := by
  rw [isLiteral_iff]
  constructor
  · rintro ⟨kind', text, hparse, rfl⟩
    rw [parseForm_of_writes h] at hparse
    cases hparse
    rfl
  · rintro rfl
    exact ⟨kind, _, parseForm_of_writes h, rfl⟩

theorem writes_of_parseForm {cs : List Char} (h : ∀ c ∈ cs, Outside c)
    (hparse : parseForm cs = .ok (.numeral kind text)) : kind.lexeme.Writes cs ∧ cs = text := by
  obtain ⟨hproper, hspelled⟩ := parseForm_eq_ok_iff.1 hparse
  cases hproper with
  | numeral hwrites =>
    cases hspelled with
    | @cons k gap text rest ts hgap _ _ hrest =>
      cases hrest with
      | nil hend =>
        have hgapNil : gap = [] := by
          rcases gap with _ | ⟨c, gap⟩
          · rfl
          · exact absurd (h c (by simp)) (hgap.head c rfl)
        have hrestNil : rest = [] := by
          rcases rest with _ | ⟨c, rest⟩
          · rfl
          · exact absurd (h c (by simp)) (hend.head c rfl)
        rw [hgapNil, hrestNil, List.nil_append, List.append_nil]
        exact ⟨hwrites, rfl⟩

/-- a text without gaps is a literal of just one number, whose kind the point tells -/
theorem isLiteral_iff_writes (h : ∀ c ∈ source.toList, Outside c) : IsLiteral source v ↔
    ∃ kind : Kind, kind.lexeme.Writes source.toList ∧
      v = .make (.ofNumeral source.toList) kind := by
  rw [isLiteral_iff]
  constructor
  · rintro ⟨kind, text, hparse, rfl⟩
    obtain ⟨hwrites, rfl⟩ := writes_of_parseForm h hparse
    exact ⟨kind, hwrites, rfl⟩
  · rintro ⟨kind, hwrites, rfl⟩
    exact ⟨kind, _, parseForm_of_writes hwrites, rfl⟩

/-! ## The two readers -/

theorem readDecimal?_eq_some_iff {x : Amount} {cs : List Char}
    (h : ∀ c ∈ cs, isBlank c = false) : readDecimal? cs = some x ↔
      (∃ kind : Kind, kind.lexeme.Writes cs) ∧ x = .ofNumeral cs := by
  have hclasses : isNumeral cs = true ↔ ∃ kind : Kind, kind.lexeme.Writes cs := by
    rw [isNumeral_iff]
    constructor
    · rintro (hinteger | hdecimal)
      · exact ⟨.int, hinteger⟩
      · exact ⟨.float, hdecimal⟩
    · rintro ⟨_ | _, hwrites⟩
      · exact .inl hwrites
      · exact .inr hwrites
  unfold readDecimal?
  rw [stripChars_of_not_blank h, ← hclasses]
  by_cases hnumeral : isNumeral cs = true
  · rw [if_pos hnumeral, Option.some.injEq]
    exact ⟨fun hx => ⟨hnumeral, hx.symm⟩, fun hx => hx.2.symm⟩
  · rw [if_neg hnumeral]
    exact ⟨fun hx => (by cases hx), fun hx => absurd hx.1 hnumeral⟩

/-- the texts of both classes at once: a sign or none, digits, and a point or none among them -/
theorem exists_writes_iff {cs : List Char} : (∃ kind : Kind, kind.lexeme.Writes cs) ↔
    ∃ sign whole fraction, IsSign sign ∧ (∀ c ∈ whole ++ fraction, isDigit c = true) ∧
      whole ++ fraction ≠ [] ∧
      (cs = sign ++ (whole ++ '.' :: fraction) ∨ fraction = [] ∧ cs = sign ++ whole) := by
  constructor
  · rintro ⟨_ | _, hwrites⟩
    · cases hwrites with
      | @integer sign digits hsign hne hdigits =>
        rw [← List.append_nil digits] at hne hdigits
        exact ⟨sign, digits, [], hsign, hdigits, hne, .inr ⟨rfl, rfl⟩⟩
    · cases hwrites with
      | @decimal sign whole fraction hsign hne hwhole hfraction =>
        refine ⟨sign, whole, fraction, hsign, List.forall_mem_append.2 ⟨hwhole, hfraction⟩, ?_,
          .inl rfl⟩
        rw [Ne, List.append_eq_nil_iff, not_and_or]
        exact hne
  · rintro ⟨sign, whole, fraction, hsign, hdigits, hne, rfl | ⟨rfl, rfl⟩⟩
    · obtain ⟨hwhole, hfraction⟩ := List.forall_mem_append.1 hdigits
      rw [Ne, List.append_eq_nil_iff, not_and_or] at hne
      exact ⟨.float, .decimal hsign hne hwhole hfraction⟩
    · rw [List.append_nil] at hdigits hne
      exact ⟨.int, .integer hsign hne hdigits⟩

/-- a number has a digit and no letter -/
theorem digit_of_writes {cs : List Char} (h : ∃ kind : Kind, kind.lexeme.Writes cs) :
    (∃ c ∈ cs, isDigit c = true) ∧ ∀ c ∈ cs, isNameStart c = false := by
  obtain ⟨sign, whole, fraction, hsign, hdigits, hne, hcs⟩ := exists_writes_iff.1 h
  have hmem : ∀ c, c ∈ whole ++ fraction → c ∈ cs := by
    intro c hc
    rcases hcs with rfl | ⟨rfl, rfl⟩
    · simp only [List.mem_append, List.mem_cons] at hc ⊢
      tauto
    · rw [List.append_nil] at hc
      exact List.mem_append_right sign hc
  have hkinds : ∀ c ∈ cs, c ∈ ['+', '-', '.'] ∨ c ∈ whole ++ fraction := by
    intro c hc
    have hsigns : c ∈ sign → c ∈ ['+', '-', '.'] := by
      rcases hsign with rfl | rfl | rfl <;> simp +contextual
    rcases hcs with rfl | ⟨rfl, rfl⟩
    · simp only [List.mem_append, List.mem_cons] at hc hsigns ⊢
      tauto
    · simp only [List.mem_append, List.mem_cons] at hc hsigns ⊢
      tauto
  constructor
  · obtain ⟨c, digits, hdigit⟩ := List.exists_cons_of_ne_nil hne
    have hc : c ∈ whole ++ fraction := by
      rw [hdigit]
      exact List.mem_cons_self
    exact ⟨c, hmem c hc, hdigits c hc⟩
  · intro c hc
    rw [Bool.eq_false_iff]
    intro hname
    rcases hkinds c hc with hother | hdigit
    · have hnames : ['+', '-', '.'].all (!isNameStart ·) = true := by decide
      have hnot := List.all_eq_true.1 hnames c hother
      rw [hname] at hnot
      cases hnot
    · have hnot := isDigit_of_isNameStart hname
      rw [hdigits c hdigit] at hnot
      cases hnot

theorem exists_isLiteral_iff (h : ∀ c ∈ source.toList, Outside c) :
    (∃ v, IsLiteral source v) ↔ ∃ kind : Kind, kind.lexeme.Writes source.toList := by
  constructor
  · rintro ⟨v, hv⟩
    obtain ⟨kind, hwrites, -⟩ := (isLiteral_iff_writes h).1 hv
    exact ⟨kind, hwrites⟩
  · rintro ⟨kind, hwrites⟩
    exact ⟨_, (isLiteral_iff_writes h).2 ⟨kind, hwrites, rfl⟩⟩

/-- making a number of a numeral keeps the amount, but for the sign of an integer zero -/
theorem make_ofNumeral {cs : List Char} (h : kind.lexeme.Writes cs) :
    (Amount.ofNumeral cs).isEqual (Number.make (.ofNumeral cs) kind).amount = true ∧
      (Amount.ofNumeral cs = (Number.make (.ofNumeral cs) kind).amount ∨
        kind = .int ∧ Amount.ofNumeral cs = .zero true ∧
          (Number.make (.ofNumeral cs) kind).amount = .zero false) := by
  have hself : (Amount.ofNumeral cs).isEqual (.ofNumeral cs) = true :=
    Amount.isEqual_self (Amount.isNaN_ofRatio _ _ _)
  cases kind with
  | float => exact ⟨hself, .inl rfl⟩
  | int =>
    rw [Number.amount_make_int]
    rcases Amount.roundHalfAway_ofNumeral h with hkept | ⟨hzero, hrounded⟩
    · rw [hkept]
      exact ⟨hself, .inl rfl⟩
    · rw [hrounded]
      refine ⟨?_, .inr ⟨rfl, hzero, rfl⟩⟩
      rw [hzero]
      rfl

theorem not_writes_of_letters {cs : List Char}
    (h : (∃ c ∈ cs, isNameStart c = true) ∨ ∀ c ∈ cs, isDigit c = false) :
    ¬ ∃ kind : Kind, kind.lexeme.Writes cs := by
  intro hwrites
  obtain ⟨⟨d, hd, hdigit⟩, hletters⟩ := digit_of_writes hwrites
  rcases h with ⟨c, hc, hname⟩ | hdigits
  · rw [hletters c hc] at hname
    cases hname
  · rw [hdigits d hd] at hdigit
    cases hdigit

/-- **The two readers agree** on every text without white space and without a comment.  A line with
that text is read exactly if the text is a literal: a sign or none, and at least one digit, with at
most one point.  Both read the same amount, but for the sign of a zero without a point.  A text with
a letter in it, or without a digit, is read by neither. -/
theorem readers_agree {text : String} (h : ∀ c ∈ text.toList, isBlank c = false ∧ c ≠ ';') :
    ((∃ x, readDecimal? text.toList = some x) ↔ ∃ v, IsLiteral text v) ∧
    (∀ x v, readDecimal? text.toList = some x → IsLiteral text v →
      x.isEqual v.amount = true ∧
        (x = v.amount ∨ v.kind = .int ∧ x = .zero true ∧ v.amount = .zero false)) ∧
    ((∃ v, IsLiteral text v) ↔
      ∃ sign whole fraction, IsSign sign ∧ (∀ c ∈ whole ++ fraction, isDigit c = true) ∧
        whole ++ fraction ≠ [] ∧ (text.toList = sign ++ (whole ++ '.' :: fraction) ∨
          fraction = [] ∧ text.toList = sign ++ whole)) ∧
    ((∃ c ∈ text.toList, isNameStart c = true) ∨ (∀ c ∈ text.toList, isDigit c = false) →
      readDecimal? text.toList = none ∧ ∀ v, ¬ IsLiteral text v) := by
  have hblank : ∀ c ∈ text.toList, isBlank c = false := fun c hc => (h c hc).1
  have houtside : ∀ c ∈ text.toList, Outside c := fun c hc => outside_of_not_blank (h c hc)
  have hreads (x : Amount) := readDecimal?_eq_some_iff (x := x) hblank
  have hliteral := exists_isLiteral_iff houtside
  refine ⟨?_, ?_, hliteral.trans exists_writes_iff, ?_⟩
  · rw [hliteral]
    constructor
    · rintro ⟨x, hx⟩
      exact ((hreads x).1 hx).1
    · intro hwrites
      exact ⟨_, (hreads _).2 ⟨hwrites, rfl⟩⟩
  · intro x v hx hv
    obtain ⟨-, rfl⟩ := (hreads x).1 hx
    obtain ⟨kind, hwrites, rfl⟩ := (isLiteral_iff_writes houtside).1 hv
    rw [Number.kind_make]
    exact make_ofNumeral hwrites
  · intro hneither
    have hnot := not_writes_of_letters hneither
    refine ⟨?_, fun v hv => hnot (hliteral.1 ⟨v, hv⟩)⟩
    rcases hx : readDecimal? text.toList with _ | x
    · rfl
    · exact absurd ((hreads x).1 hx).1 hnot

/-- a zero with a sign, in digits of another script -/
def signedZeroText : String := "-٠٠"

theorem readers_agree_signedZero :
    (∀ c ∈ signedZeroText.toList, isBlank c = false ∧ c ≠ ';') ∧
    readDecimal? signedZeroText.toList = some (.zero true) ∧
    (∃ v, IsLiteral signedZeroText v) ∧
    IsLiteral signedZeroText ⟨.int, .zero false⟩ ∧
    (Amount.zero true).isEqual (.zero false) = true := by
  have hplain : ∀ c ∈ signedZeroText.toList, isBlank c = false ∧ c ≠ ';' := by
    have hall : signedZeroText.toList.all (fun c => !isBlank c && c != ';') = true := by decide
    simpa using hall
  have hline : readDecimal? signedZeroText.toList = some (.zero true) := by decide +kernel
  have hsign : IsSign ['-'] := .inr (.inr rfl)
  have htext : Lexeme.integer.Writes (['-'] ++ ['٠', '٠']) :=
    .integer hsign (by decide) (List.all_eq_true.1 (by decide))
  have hwrites : Kind.int.lexeme.Writes signedZeroText.toList := htext
  have hnumber : Number.make (.ofNumeral signedZeroText.toList) .int = ⟨.int, .zero false⟩ := by
    decide +kernel
  have hliteral : IsLiteral signedZeroText ⟨.int, .zero false⟩ :=
    (isLiteral_iff_eq hwrites).2 hnumber.symm
  obtain ⟨hagree, hsame, -, -⟩ := readers_agree hplain
  exact ⟨hplain, hline, hagree.1 ⟨_, hline⟩, hliteral, (hsame _ _ hline hliteral).1⟩

end

end Abacus
