import Abacus.Proofs.Evaluation.Counting
import Abacus.Proofs.Integers
import Abacus.Proofs.Numerals

/-!
# Printed values read back

What a program prints after the tag of a number is a literal of the language, of the kind that the
tag names.  An integer is printed with all its digits and is read as the same amount.  A number with
places is rounded twice on the way there and back, to the places and to the grid; still the number
that is read is printed as the same text.

* `Figures cs n`               a row of printed digits that writes `n`;
* `figures_whole`, `figures_lastDigits`, `fixedChars_eq`   the digits of the printed forms;
* `ofNumeral_fixed`            the amount of a text with places;
* `ofNumeral_of_exactly`       the amount of the text of an integer;
* `printed_reads_back`         **what is printed can be read**.
-/

namespace Abacus

attribute [local instance] ownPow

/-! ## Rows of digits -/

/-- **A row of digits that writes a number**, in the ten digits that are printed -/
structure Figures (cs : List Char) (n : Nat) : Prop where
  digits : ∀ c ∈ cs, c.isDigit = true
  value : Nat.ofDigitChars 10 cs 0 = n

theorem digitValue?_of_isDigit {c : Char} (h : c.isDigit = true) :
    digitValue? c = some (c.toNat - 48) := by
  have hrange : 48 ≤ c.toNat ∧ c.toNat ≤ 57 := Char.isDigit_iff_toNat.1 h
  have hfirst : (decide (0x30 ≤ c.toNat) && decide (c.toNat < 0x30 + 10)) = true := by
    simp only [Bool.and_eq_true, decide_eq_true_eq]
    omega
  have hzeros : digitZeros = 0x30 :: digitZeros.tail := rfl
  have hfind : (digitZeros.find? fun first => first ≤ c.toNat && c.toNat < first + 10) =
      some 0x30 := by
    rw [hzeros]
    exact List.find?_cons_of_pos hfirst
  unfold digitValue?
  rw [hfind, Option.map_some]

section
variable {cs ds : List Char} {m n places width : Nat} {s : Bool}

theorem digitsValueFrom_eq (hcs : ∀ c ∈ cs, c.isDigit = true) (m : Nat) :
    digitsValueFrom m cs = Nat.ofDigitChars 10 cs m := by
  induction cs generalizing m with
  | nil => rfl
  | cons c cs ih =>
    have hvalue := digitValue?_of_isDigit (hcs c List.mem_cons_self)
    rw [Nat.ofDigitChars_cons, ← ih fun d hd => hcs d (List.mem_cons_of_mem c hd)]
    show digitsValueFrom (10 * m + (digitValue? c).getD 0) cs = _
    rw [hvalue]
    rfl

namespace Figures

theorem isDigit (h : Figures cs n) : ∀ c ∈ cs, isDigit c = true := by
  intro c hc
  unfold Abacus.isDigit
  rw [digitValue?_of_isDigit (h.digits c hc), Option.isSome_some]

theorem digitsValue (h : Figures cs n) : digitsValue cs = n :=
  (digitsValueFrom_eq h.digits 0).trans h.value

theorem append (h : Figures cs m) (h' : Figures ds n) :
    Figures (cs ++ ds) (m * 10 ^ ds.length + n) := by
  refine ⟨List.forall_mem_append.2 ⟨h.digits, h'.digits⟩, ?_⟩
  rw [Nat.ofDigitChars_append, h.value, Nat.ofDigitChars_eq_ofDigitChars_zero, h'.value,
    Nat.mul_comm]

end Figures

theorem figures_zeros (n : Nat) : Figures (zeros n) 0 := by
  refine ⟨?_, Nat.ofDigitChars_replicate_zero⟩
  intro c hc
  rw [List.eq_of_mem_replicate hc]
  decide

theorem wholeChars_ne_nil (n : Nat) : wholeChars n ≠ [] := Nat.toDigits_ne_nil

theorem figures_whole (n : Nat) : Figures (wholeChars n) n :=
  ⟨fun _ hc => Nat.isDigit_of_mem_toDigits (by decide) (by decide) hc,
    Nat.ofDigitChars_ten_toDigits⟩

theorem figures_lastDigits (width n : Nat) : Figures (lastDigits width n) n := by
  have h := (figures_zeros (width - (wholeChars n).length)).append (figures_whole n)
  rwa [Nat.zero_mul, Nat.zero_add] at h

theorem length_lastDigits (hwidth : 0 < width) (h : n < 10 ^ width) :
    (lastDigits width n).length = width := by
  have hle : (wholeChars n).length ≤ width := (Nat.length_toDigits_le_iff (by decide) hwidth).2 h
  show (zeros (width - (wholeChars n).length) ++ wholeChars n).length = width
  rw [List.length_append, zeros, List.length_replicate]
  omega

/-! ## Places -/

/-- the number that is written with the places that can be filled, without its point -/
def scaledCount (places n : Nat) : Nat := nearestEven (n * 10 ^ filledPlaces places) unitsPerOne

theorem fixedChars_congr (h : scaledCount places m = scaledCount places n) :
    fixedChars places m = fixedChars places n := by
  unfold scaledCount at h
  unfold fixedChars
  dsimp only
  rw [h]

theorem filledPlaces_pos (h : 0 < places) : 0 < filledPlaces places := by
  unfold filledPlaces unitExponent
  omega

/-- **The digits of a text with places**: as many as were asked for after the point, and zeros where
no more can be filled -/
theorem fixedChars_eq (hplaces : 0 < places) (n : Nat) : ∃ whole fraction,
    fixedChars places n = whole ++ '.' :: fraction ∧ whole ≠ [] ∧ fraction.length = places ∧
      Figures (whole ++ fraction)
        (scaledCount places n * 10 ^ (places - filledPlaces places)) := by
  have hpos := filledPlaces_pos hplaces
  have hle : filledPlaces places ≤ places := Nat.min_le_left _ _
  have hlast : scaledCount places n % 10 ^ filledPlaces places < 10 ^ filledPlaces places :=
    Nat.mod_lt _ (Nat.pow_pos (by decide))
  have hlength := length_lastDigits hpos hlast
  refine ⟨wholeChars (scaledCount places n / 10 ^ filledPlaces places),
    lastDigits (filledPlaces places) (scaledCount places n % 10 ^ filledPlaces places) ++
      zeros (places - filledPlaces places), ?_, wholeChars_ne_nil _, ?_, ?_⟩
  · unfold fixedChars
    rw [if_neg (Nat.ne_of_gt hplaces), List.append_assoc]
    rfl
  · rw [List.length_append, hlength, zeros, List.length_replicate]
    omega
  · have h := ((figures_whole (scaledCount places n / 10 ^ filledPlaces places)).append
      (figures_lastDigits (filledPlaces places)
        (scaledCount places n % 10 ^ filledPlaces places))).append
      (figures_zeros (places - filledPlaces places))
    rw [hlength, Nat.mul_comm _ (10 ^ filledPlaces places), Nat.div_add_mod, zeros,
      List.length_replicate, Nat.add_zero, List.append_assoc] at h
    exact h

def signChars (negative : Bool) : List Char := if negative then ['-'] else []

theorem isSign_signChars (s : Bool) : IsSign (signChars s) := by
  cases s with
  | false => exact .inl rfl
  | true => exact .inr (.inr rfl)

theorem signChars_beq (s : Bool) : (signChars s == ['-']) = s := by cases s <;> rfl

theorem toList_fixed (places : Nat) (s : Bool) (n : Nat) (h : Fits n) :
    ((Amount.finite s n h).fixed places).toList = signChars s ++ fixedChars places n := by
  unfold Amount.fixed
  cases s with
  | false => exact String.toList_ofList
  | true => exact String.toList_ofList

theorem writes_fixed (hplaces : 0 < places) (s : Bool) (n : Nat) :
    Kind.float.lexeme.Writes (signChars s ++ fixedChars places n) := by
  obtain ⟨whole, fraction, hchars, hne, -, hfigures⟩ := fixedChars_eq hplaces n
  obtain ⟨hwhole, hfraction⟩ := List.forall_mem_append.1 hfigures.isDigit
  rw [hchars]
  exact .decimal (isSign_signChars s) (.inl hne) hwhole hfraction

/-- **The amount of a text with places**: the number that is written, on the grid -/
theorem ofNumeral_fixed (hplaces : 0 < places) (s : Bool) (n : Nat) :
    Amount.ofNumeral (signChars s ++ fixedChars places n) =
      .ofRatio s (scaledCount places n * unitsPerOne) (10 ^ filledPlaces places) := by
  obtain ⟨whole, fraction, hchars, -, hlength, hfigures⟩ := fixedChars_eq hplaces n
  obtain ⟨hwhole, hfraction⟩ := List.forall_mem_append.1 hfigures.isDigit
  -- the zeros after the places that can be filled cancel
  have hle : filledPlaces places ≤ places := Nat.min_le_left _ _
  have hsplit : 10 ^ places = 10 ^ filledPlaces places * 10 ^ (places - filledPlaces places) := by
    rw [← Nat.pow_add, Nat.add_sub_cancel' hle]
  rw [hchars, ofNumeral_decimal (isSign_signChars s) hwhole hfraction, hfigures.digitsValue,
    hlength, signChars_beq, hsplit, Nat.mul_right_comm]
  exact Amount.ofRatio_mul_right s (Nat.pow_pos (by decide)) _ _

/-- the amount that is read has the text that was written -/
theorem fixed_ofNumeral (hplaces : 0 < places) (s : Bool) (h : Fits n) :
    ∃ m hm, Amount.ofNumeral (signChars s ++ fixedChars places n) = .finite s m hm ∧
      fixedChars places m = fixedChars places n := by
  have hpower : 0 < 10 ^ filledPlaces places := Nat.pow_pos (by decide)
  have hlt : toGrid (scaledCount places n * unitsPerOne) (10 ^ filledPlaces places) < ceiling :=
    toGrid_lt_ceiling h hpower
  refine ⟨_, fits_toGrid hlt, ?_, ?_⟩
  · rw [ofNumeral_fixed hplaces]
    unfold Amount.ofRatio
    exact dif_pos hlt
  · have hsame : scaledCount places (toGrid (scaledCount places n * unitsPerOne)
        (10 ^ filledPlaces places)) = scaledCount places n := nearestEven_toGrid h hpower
    exact fixedChars_congr hsame

theorem render_of_places (h : places ≤ mostPlaces) (x : Amount) :
    (⟨.float, x⟩ : Number).render places = .ok (Kind.float.tag ++ ": " ++ x.fixed places) := by
  unfold Number.render
  rw [placesFault?_eq_none h]
  cases x with
  | nan => rfl
  | infinite s => rfl
  | finite s n hn => rfl

/-! ## Integers -/

theorem toList_integerText (z : Int) :
    (integerText z).toList = signChars (decide (z < 0)) ++ wholeChars z.natAbs := by
  unfold integerText
  rw [String.toList_ofList]
  by_cases hz : z < 0
  · rw [if_pos hz, decide_eq_true hz]
    rfl
  · rw [if_neg hz, decide_eq_false hz]
    rfl

theorem writes_integerText (z : Int) : Kind.int.lexeme.Writes (integerText z).toList := by
  rw [toList_integerText]
  exact .integer (isSign_signChars _) (wholeChars_ne_nil _) (figures_whole z.natAbs).isDigit

/-- **The amount of the text of an integer** is that integer, whatever its size. -/
theorem ofNumeral_of_exactly {x : Amount} {z : Int} (h : x.Exactly z) :
    Amount.ofNumeral (integerText z).toList = x ∧ x.roundHalfAway = x := by
  obtain ⟨s, n, hfits, rfl, hsigned, hzero⟩ := h
  have hunits := unitsPerOne_pos
  have hcount : n = z.natAbs * unitsPerOne := by
    have habs := congrArg Int.natAbs hsigned
    rw [Int.natAbs_mul, Int.natAbs_natCast] at habs
    rw [← habs]
    cases s with
    | false => rfl
    | true => exact (Int.natAbs_neg (n : Int)).symm
  have hsign : decide (z < 0) = s := by
    have hpos : (unitsPerOne : Int) ≠ 0 := by omega
    rw [hcount, Amount.signed_mul] at hsigned
    have hvalue := Int.eq_of_mul_eq_mul_right hpos hsigned
    unfold Amount.signed at hvalue
    cases s with
    | false =>
      rw [if_neg (by decide)] at hvalue
      exact decide_eq_false (by omega)
    | true =>
      have hne : z ≠ 0 := by
        rintro rfl
        rw [Int.natAbs_zero, Nat.zero_mul] at hcount
        cases hzero hcount
      rw [if_pos rfl] at hvalue
      exact decide_eq_true (by omega)
  constructor
  · rw [toList_integerText, ofNumeral_integer (isSign_signChars _) (wholeChars_ne_nil _)
      (figures_whole z.natAbs).isDigit, (figures_whole z.natAbs).digitsValue, signChars_beq, hsign,
      ← hcount]
    exact Amount.ofRatio_one s hfits
  · have hdvd : unitsPerOne ∣ n := hcount ▸ Nat.dvd_mul_left _ _
    rw [Amount.roundHalfAway_of_dvd hdvd]
    split
    · next hn =>
      subst hn
      rw [hzero rfl]
      rfl
    · rfl

/-! ## Reading what is printed -/

/-- **What is printed can be read.**  A number with a finite amount, which is whole and no negative
zero if the number is an integer, is printed with one place at least.  The text after the tag is a
literal of one number, and this has the kind of the printed one; it has the same amount if it is an
integer, of whatever size; and it is printed as the same text, with its sign. -/
theorem printed_reads_back {v : Number} {places : Int} (hfinite : v.amount.isFinite = true)
    (hwhole : v.kind = .int → ∃ z, v.amount.Exactly z) (hleast : 1 ≤ places)
    (hmost : places ≤ mostPlaces) :
    ∃ body w, v.render places = .ok (v.kind.tag ++ ": " ++ body) ∧
      (∀ w', IsLiteral body w' ↔ w' = w) ∧ w.kind = v.kind ∧
      (v.kind = .int → w.amount = v.amount) ∧ w.render places = v.render places := by
  obtain ⟨kind, x⟩ := v
  cases kind with
  | int =>
    obtain ⟨z, hz⟩ := hwhole rfl
    obtain ⟨hread, hround⟩ := ofNumeral_of_exactly hz
    have hmade : Number.make (.ofNumeral (integerText z).toList) .int = ⟨.int, x⟩ := by
      rw [hread, Number.make, hround]
    refine ⟨integerText z, ⟨.int, x⟩, ?_, fun w' => ?_, rfl, fun _ => rfl, rfl⟩
    · rw [render_of_exactly rfl hz, integerText_eq]
      rfl
    · rw [isLiteral_iff_eq (writes_integerText z), hmade]
  | float =>
    obtain ⟨count, rfl⟩ := Int.eq_ofNat_of_zero_le (show 0 ≤ places by omega)
    have hpos : 0 < count := by omega
    have hrender := render_of_places (show count ≤ mostPlaces by omega)
    cases x with
    | nan => cases hfinite
    | infinite s => cases hfinite
    | finite s n h =>
      have htext := toList_fixed count s n h
      obtain ⟨m, hm, hread, hsame⟩ := fixed_ofNumeral hpos s h
      have hwrites : Kind.float.lexeme.Writes ((Amount.finite s n h).fixed count).toList := by
        rw [htext]
        exact writes_fixed hpos s n
      refine ⟨(Amount.finite s n h).fixed count, ⟨.float, .finite s m hm⟩, hrender _, fun w' => ?_,
        rfl, fun hint => (by cases hint), ?_⟩
      · rw [isLiteral_iff_eq hwrites, htext, hread]
        rfl
      · rw [hrender, hrender]
        unfold Amount.fixed
        dsimp only
        rw [hsame]

/-- the largest negative number: it has no digit but zeros in two places -/
def leastDebt : Number := ⟨.float, .finite true 1 (by decide +kernel)⟩

theorem printed_reads_back_leastDebt : leastDebt.amount.isFinite = true ∧
    leastDebt.render 2 = .ok "DOUBLE_TYPE: -0.00" ∧
    ∃ body w, leastDebt.render 2 = .ok (leastDebt.kind.tag ++ ": " ++ body) ∧
      (∀ w', IsLiteral body w' ↔ w' = w) ∧ w.kind = leastDebt.kind ∧
      (leastDebt.kind = .int → w.amount = leastDebt.amount) ∧
      w.render 2 = leastDebt.render 2 := by
  have hprinted : leastDebt.render 2 = .ok "DOUBLE_TYPE: -0.00" := by decide +kernel
  have hkind : leastDebt.kind = .int → ∃ z, leastDebt.amount.Exactly z := fun h => by cases h
  exact ⟨rfl, hprinted, printed_reads_back rfl hkind (by decide) (by decide)⟩

end

end Abacus
