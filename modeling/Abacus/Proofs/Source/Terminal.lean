import Abacus.Source.Token
import Mathlib.Data.List.TakeWhile

/-!
# Terminals

The texts of the tokens, told without the scanner: which texts are those of a class, and that of the
texts at the start of a source the scanner takes the longest.

* `Lexeme.Writes`           the texts of a class;
* `Ends`                    no longer text is there;
* `Lexeme.Writes.ends_iff`  whether a text ends shows in the next character;
* `lexeme?_eq_some_iff`, `lexeme?_eq_none_iff`   the terminal at the start of a source.
-/

namespace Abacus

/-! ## Characters -/

theorem range_of_isDigit {c : Char} (h : isDigit c = true) :
    0x30 ≤ c.toNat ∧ c.toNat ≤ 0x39 ∨ 0x660 ≤ c.toNat := by
  unfold isDigit digitValue? at h
  rw [Option.isSome_map, Option.isSome_iff_exists] at h
  obtain ⟨first, hfirst⟩ := h
  have hmem := List.mem_of_find?_eq_some hfirst
  have hrange := List.find?_some hfirst
  have hzeros : ∀ z ∈ digitZeros, z = 0x30 ∨ 0x660 ≤ z := by decide
  simp only [Bool.and_eq_true, decide_eq_true_eq] at hrange
  rcases hzeros first hmem with rfl | hle
  · omega
  · omega

theorem range_of_isNameStart {c : Char} (h : isNameStart c = true) :
    0x41 ≤ c.toNat ∧ c.toNat ≤ 0x7a := by
  have h : (decide (65 ≤ c.val ∧ c.val ≤ 90) ||
      decide (97 ≤ c.val) && decide (c.val ≤ 122) || c == '_') = true := h
  simp only [Bool.or_eq_true, Bool.and_eq_true, decide_eq_true_eq, beq_iff_eq,
    UInt32.le_iff_toNat_le] at h
  rcases h with (h | h) | rfl
  · have h : 65 ≤ c.toNat ∧ c.toNat ≤ 90 := h
    omega
  · have h : 97 ≤ c.toNat ∧ c.toNat ≤ 122 := h
    omega
  · decide

theorem isDigit_of_isNameStart {c : Char} (h : isNameStart c = true) : isDigit c = false := by
  have hname := range_of_isNameStart h
  rw [Bool.eq_false_iff]
  intro hdigit
  have hdigit := range_of_isDigit hdigit
  omega

theorem ne_of_class {p : Char → Bool} {c d : Char} (hc : p c = true) (hd : p d = false) :
    c ≠ d := by
  rintro rfl
  rw [hd] at hc
  cases hc

/-! ## Texts of terminals -/

abbrev Terminal := Lexeme × List Char

def Token.terminal (t : Token) : Terminal := (t.kind, t.text)

def IsSign (cs : List Char) : Prop := cs = [] ∨ cs = ['+'] ∨ cs = ['-']

/-- **The texts of terminals.** -/
inductive Lexeme.Writes : Lexeme → List Char → Prop
  | integer {sign digits : List Char} : IsSign sign → digits ≠ [] →
      (∀ c ∈ digits, isDigit c = true) → Writes .integer (sign ++ digits)
  | decimal {sign whole fraction : List Char} : IsSign sign → whole ≠ [] ∨ fraction ≠ [] →
      (∀ c ∈ whole, isDigit c = true) → (∀ c ∈ fraction, isDigit c = true) →
      Writes .decimal (sign ++ (whole ++ '.' :: fraction))
  | symbol {c : Char} {cs : List Char} : isNameStart c = true →
      (∀ d ∈ cs, isNamePart d = true) → Writes .symbol (c :: cs)
  | opening : Writes .opening ['(']
  | closing : Writes .closing [')']
  | colon : Writes .colon [':']

/-- no longer text of a terminal begins with the text, where this is followed by the rest -/
def Ends (text rest : List Char) : Prop :=
  ∀ k more after, rest = more ++ after → more ≠ [] → ¬ Lexeme.Writes k (text ++ more)

namespace Lexeme

/-- the characters that go on with a terminal of the class -/
def goesOn : Lexeme → Char → Bool
  | .integer, c => isDigit c || c == '.'
  | .decimal, c => isDigit c
  | .symbol, c => isNamePart c
  | _, _ => false

def family : Lexeme → Lexeme
  | .decimal => .integer
  | k => k

def familyOf (c : Char) : Lexeme :=
  if c = '(' then .opening
  else if c = ')' then .closing
  else if c = ':' then .colon
  else if isNameStart c then .symbol
  else .integer

namespace Writes

variable {k k' : Lexeme} {text more rest : List Char} {c : Char}

theorem ne_nil (h : k.Writes text) : text ≠ [] := by
  cases h with
  | integer _ hne _ => simp [hne]
  | decimal _ _ _ _ => simp
  | symbol _ _ => simp
  | opening => simp
  | closing => simp
  | colon => simp

theorem snoc (h : k.Writes text) (hc : k.goesOn c = true) : ∃ k', Writes k' (text ++ [c]) := by
  cases h with
  | @integer sign digits hsign hne hdigits =>
    simp only [goesOn, Bool.or_eq_true, beq_iff_eq] at hc
    rw [List.append_assoc]
    rcases hc with hc | rfl
    · refine ⟨.integer, .integer hsign (by simp) ?_⟩
      simpa [or_imp, forall_and] using ⟨hdigits, hc⟩
    · exact ⟨.decimal, .decimal hsign (Or.inl hne) hdigits (fun _ h => by cases h)⟩
  | @decimal sign whole fraction hsign hne hwhole hfraction =>
    rw [List.append_assoc, List.append_assoc, List.cons_append]
    refine ⟨.decimal, .decimal hsign (Or.inr (by simp)) hwhole ?_⟩
    simpa [or_imp, forall_and] using ⟨hfraction, hc⟩
  | symbol hstart hparts =>
    refine ⟨.symbol, .symbol hstart ?_⟩
    simpa [or_imp, forall_and] using ⟨hparts, hc⟩
  | opening => cases hc
  | closing => cases hc
  | colon => cases hc

theorem family_of_digit (h : isDigit c = true) : familyOf c = .integer := by
  have hname : isNameStart c = false := by
    rw [Bool.eq_false_iff]
    intro hname
    rw [isDigit_of_isNameStart hname] at h
    cases h
  unfold familyOf
  rw [if_neg (ne_of_class h (by decide)), if_neg (ne_of_class h (by decide)),
    if_neg (ne_of_class h (by decide)), hname, if_neg (by decide)]

theorem family_of_cons {cs : List Char} (h : k.Writes (c :: cs)) : familyOf c = k.family := by
  generalize htext : c :: cs = text at h
  have hsigned {sign body : List Char} (hsign : IsSign sign) (heq : c :: cs = sign ++ body)
      (hbody : ∀ rest, body = c :: rest → familyOf c = .integer) : familyOf c = .integer := by
    rcases hsign with rfl | rfl | rfl
    · exact hbody cs heq.symm
    · cases heq
      decide
    · cases heq
      decide
  cases h with
  | @integer sign digits hsign hne hdigits =>
    refine hsigned hsign htext ?_
    rintro rest rfl
    exact family_of_digit (hdigits c List.mem_cons_self)
  | @decimal sign whole fraction hsign hne hwhole hfraction =>
    refine hsigned hsign htext ?_
    intro rest hbody
    cases whole with
    | nil =>
      cases hbody
      decide
    | cons d whole =>
      cases hbody
      exact family_of_digit (hwhole c List.mem_cons_self)
  | symbol hstart _ =>
    cases htext
    unfold familyOf
    rw [if_neg (ne_of_class hstart (by decide)), if_neg (ne_of_class hstart (by decide)),
      if_neg (ne_of_class hstart (by decide)), if_pos hstart]
    rfl
  | opening =>
    cases htext
    rfl
  | closing =>
    cases htext
    rfl
  | colon =>
    cases htext
    rfl

theorem goesOn_of_cons {cs : List Char} (h : k.Writes (c :: cs)) {d : Char} (hd : d ∈ cs) :
    k.goesOn d = true ∨ k = .decimal ∧ d = '.' := by
  generalize htext : c :: cs = text at h
  have hbody {sign body : List Char} (hsign : IsSign sign) (heq : c :: cs = sign ++ body) :
      d ∈ body := by
    rcases hsign with rfl | rfl | rfl
    · have heq : c :: cs = body := heq
      rw [← heq]
      exact List.mem_cons_of_mem c hd
    · cases heq
      exact hd
    · cases heq
      exact hd
  cases h with
  | @integer sign digits hsign hne hdigits =>
    exact Or.inl (by simp [goesOn, hdigits d (hbody hsign htext)])
  | @decimal sign whole fraction hsign hne hwhole hfraction =>
    rcases List.mem_append.1 (hbody hsign htext) with hmem | hmem
    · exact Or.inl (hwhole d hmem)
    · rcases List.mem_cons.1 hmem with rfl | hmem
      · exact Or.inr ⟨rfl, rfl⟩
      · exact Or.inl (hfraction d hmem)
  | symbol hstart hparts =>
    cases htext
    exact Or.inl (hparts d hd)
  | opening =>
    cases htext
    cases hd
  | closing =>
    cases htext
    cases hd
  | colon =>
    cases htext
    cases hd

theorem count_point (h : k.Writes text) : text.count '.' = if k = .decimal then 1 else 0 := by
  have hnone {p : Char → Bool} {cs : List Char} (hp : p '.' = false) (hcs : ∀ c ∈ cs, p c = true) :
      cs.count '.' = 0 :=
    List.count_eq_zero_of_not_mem fun hmem => ne_of_class (hcs '.' hmem) hp rfl
  have hdigits {cs : List Char} (hcs : ∀ c ∈ cs, isDigit c = true) : cs.count '.' = 0 :=
    hnone (by decide) hcs
  have hsign {sign : List Char} (hsign : IsSign sign) : sign.count '.' = 0 := by
    rcases hsign with rfl | rfl | rfl <;> decide
  cases h with
  | integer hs _ hds => rw [List.count_append, hsign hs, hdigits hds, if_neg (by decide)]
  | decimal hs _ hws hfs =>
    rw [List.count_append, List.count_append, List.count_cons_self, hsign hs, hdigits hws,
      hdigits hfs, if_pos rfl]
  | symbol hstart hparts =>
    rw [List.count_cons_of_ne (ne_of_class hstart (by decide)), hnone (by decide) hparts,
      if_neg (by decide)]
  | opening => decide
  | closing => decide
  | colon => decide

theorem goesOn_of_longer (h : k.Writes text) (h' : Writes k' (text ++ c :: more)) :
    k.goesOn c = true := by
  have hpoints := h'.count_point
  rw [List.count_append, h.count_point, List.count_cons] at hpoints
  obtain ⟨d, ds, rfl⟩ := List.exists_cons_of_ne_nil h.ne_nil
  have hfamily : k.family = k'.family := h.family_of_cons.symm.trans h'.family_of_cons
  have hc : k'.goesOn c = true ∨ k' = .decimal ∧ c = '.' :=
    h'.goesOn_of_cons (List.mem_append_right ds List.mem_cons_self)
  cases k' with
  | integer =>
    cases k with
    | integer => exact hc.resolve_right fun hpoint => by cases hpoint.1
    | decimal =>
      have hzero : 1 + _ = 0 := hpoints
      omega
    | _ => cases hfamily
  | decimal =>
    cases k with
    | integer =>
      rcases hc with hc | ⟨_, rfl⟩
      · have hdigit : isDigit c = true := hc
        simp [goesOn, hdigit]
      · rfl
    | decimal =>
      refine hc.resolve_right ?_
      rintro ⟨_, rfl⟩
      rw [if_pos rfl, beq_self_eq_true, if_pos rfl] at hpoints
      omega
    | _ => cases hfamily
  | symbol =>
    cases k with
    | symbol => exact hc.resolve_right fun hpoint => by cases hpoint.1
    | _ => cases hfamily
  | _ =>
    rcases hc with hc | ⟨hk, _⟩
    · cases hc
    · cases hk

theorem ends_iff (h : k.Writes text) : Ends text rest ↔ ∀ c ∈ rest.head?, k.goesOn c = false := by
  constructor
  · intro hends c hc
    obtain ⟨after, rfl⟩ := List.head?_eq_some_iff.1 hc
    rw [Bool.eq_false_iff]
    intro hgoes
    obtain ⟨k', hk'⟩ := h.snoc hgoes
    exact hends k' [c] after rfl (by simp) hk'
  · rintro hhead k' (_ | ⟨c, more⟩) after rfl hne hlonger
    · exact hne rfl
    · have hgoes := h.goesOn_of_longer hlonger
      rw [hhead c rfl] at hgoes
      cases hgoes

end Writes
end Lexeme

/-! ## The terminal at the start of a source -/

section
variable {k : Lexeme} {cs text rest : List Char}

theorem isSign_splitSign (cs : List Char) : IsSign (splitSign cs).1 := by
  unfold splitSign IsSign
  split <;> simp

theorem splitSign_of_sign {sign body : List Char} (hsign : IsSign sign)
    (hbody : ∀ c ∈ body.head?, c ≠ '+' ∧ c ≠ '-') : splitSign (sign ++ body) = (sign, body) := by
  rcases hsign with rfl | rfl | rfl
  · rw [List.nil_append]
    unfold splitSign
    split
    · exact absurd rfl (hbody '+' rfl).1
    · exact absurd rfl (hbody '-' rfl).2
    · rfl
  · rfl
  · rfl

/-- what follows all characters of a class that stand at the start -/
theorem span_of_class {p : Char → Bool} (hcs : ∀ c ∈ cs, p c = true)
    (hrest : ∀ c ∈ rest.head?, p c = false) :
    (cs ++ rest).takeWhile p = cs ∧ (cs ++ rest).dropWhile p = rest := by
  rw [List.takeWhile_append_of_pos hcs, List.dropWhile_append_of_pos hcs]
  cases rest with
  | nil => simp
  | cons c rest => simp [hrest c rfl]

theorem head_dropWhile (p : Char → Bool) (cs : List Char) :
    ∀ c ∈ (cs.dropWhile p).head?, p c = false := by
  intro c hc
  have hnot := List.head?_dropWhile_not p cs
  rw [hc] at hnot
  exact hnot

theorem lexeme?_cons {c : Char} (h : c ≠ '(' ∧ c ≠ ')' ∧ c ≠ ':') (cs : List Char) :
    lexeme? (c :: cs) = if isNameStart c then
      some (.symbol, c :: cs.takeWhile isNamePart, cs.dropWhile isNamePart)
      else number? (c :: cs) := by
  obtain ⟨h₁, h₂, h₃⟩ := h
  unfold lexeme?
  split
  · next heq => cases heq
  · next heq => exact absurd (List.cons.inj heq).1 h₁
  · next heq => exact absurd (List.cons.inj heq).1 h₂
  · next heq => exact absurd (List.cons.inj heq).1 h₃
  · next heq =>
    cases heq
    rfl

theorem number?_integer {sign digits : List Char} (hsign : IsSign sign) (hne : digits ≠ [])
    (hdigits : ∀ c ∈ digits, isDigit c = true)
    (hrest : ∀ c ∈ rest.head?, Lexeme.goesOn .integer c = false) :
    number? (sign ++ digits ++ rest) = some (.integer, sign ++ digits, rest) := by
  have hdigit : ∀ c ∈ rest.head?, isDigit c = false := by
    intro c hc
    have hgoes := hrest c hc
    simp only [Lexeme.goesOn, Bool.or_eq_false_iff] at hgoes
    exact hgoes.1
  have hspan := span_of_class hdigits hdigit
  have hsplit : splitSign (sign ++ (digits ++ rest)) = (sign, digits ++ rest) := by
    refine splitSign_of_sign hsign ?_
    intro c hc
    cases digits with
    | nil => exact absurd rfl hne
    | cons d digits =>
      have hd := hdigits d List.mem_cons_self
      obtain rfl : d = c := Option.some.inj hc
      exact ⟨ne_of_class hd (by decide), ne_of_class hd (by decide)⟩
  unfold number?
  rw [List.append_assoc, hsplit]
  dsimp only
  rw [hspan.1, hspan.2]
  split
  · next heq =>
    have := hrest '.' rfl
    cases this
  · rw [if_neg (by simpa using hne)]

theorem number?_decimal {sign whole fraction : List Char} (hsign : IsSign sign)
    (hne : whole ≠ [] ∨ fraction ≠ []) (hwhole : ∀ c ∈ whole, isDigit c = true)
    (hfraction : ∀ c ∈ fraction, isDigit c = true)
    (hrest : ∀ c ∈ rest.head?, Lexeme.goesOn .decimal c = false) :
    number? (sign ++ (whole ++ '.' :: fraction) ++ rest)
      = some (.decimal, sign ++ (whole ++ '.' :: fraction), rest) := by
  have hpoint : ∀ c ∈ ('.' :: (fraction ++ rest)).head?, isDigit c = false := by
    intro c hc
    obtain rfl : '.' = c := Option.some.inj hc
    decide
  have hspan := span_of_class hwhole hpoint
  have hafter := span_of_class hfraction hrest
  have hsplit : splitSign (sign ++ (whole ++ '.' :: (fraction ++ rest)))
      = (sign, whole ++ '.' :: (fraction ++ rest)) := by
    refine splitSign_of_sign hsign ?_
    intro c hc
    cases whole with
    | nil =>
      obtain rfl : '.' = c := Option.some.inj hc
      decide
    | cons d whole =>
      have hd := hwhole d List.mem_cons_self
      obtain rfl : d = c := Option.some.inj hc
      exact ⟨ne_of_class hd (by decide), ne_of_class hd (by decide)⟩
  have hempty : (whole.isEmpty && fraction.isEmpty) = false := by
    rw [Bool.and_eq_false_iff]
    simpa using hne
  unfold number?
  rw [List.append_assoc, List.append_assoc, List.cons_append, hsplit]
  dsimp only
  rw [hspan.1, hspan.2]
  show (if (whole.isEmpty && ((fraction ++ rest).takeWhile isDigit).isEmpty) = true then none
    else some (Lexeme.decimal, sign ++ whole ++ '.' :: (fraction ++ rest).takeWhile isDigit,
      (fraction ++ rest).dropWhile isDigit)) = _
  rw [hafter.1, hafter.2, hempty, if_neg (by decide), List.append_assoc]

theorem lexeme?_of_writes (h : k.Writes text) (hrest : ∀ c ∈ rest.head?, k.goesOn c = false) :
    lexeme? (text ++ rest) = some (k, text, rest) := by
  have hnumber (hk : k.family = .integer) :
      lexeme? (text ++ rest) = number? (text ++ rest) := by
    obtain ⟨c, cs, rfl⟩ := List.exists_cons_of_ne_nil h.ne_nil
    have hfamily := h.family_of_cons
    rw [hk] at hfamily
    unfold Lexeme.familyOf at hfamily
    split at hfamily
    · cases hfamily
    split at hfamily
    · cases hfamily
    split at hfamily
    · cases hfamily
    next h₁ h₂ h₃ =>
    rw [List.cons_append, lexeme?_cons ⟨h₁, h₂, h₃⟩]
    split at hfamily
    · cases hfamily
    next hname => rw [if_neg hname]
  cases h with
  | integer hsign hne hdigits => rw [hnumber rfl, number?_integer hsign hne hdigits hrest]
  | decimal hsign hne hwhole hfraction =>
    rw [hnumber rfl, number?_decimal hsign hne hwhole hfraction hrest]
  | @symbol c cs hstart hparts =>
    have hspan := span_of_class hparts hrest
    have hc : c ≠ '(' ∧ c ≠ ')' ∧ c ≠ ':' := ⟨ne_of_class hstart (by decide),
      ne_of_class hstart (by decide), ne_of_class hstart (by decide)⟩
    rw [List.cons_append, lexeme?_cons hc, if_pos hstart, hspan.1, hspan.2]
  | opening => rfl
  | closing => rfl
  | colon => rfl

theorem number?_writes (h : number? cs = some (k, text, rest)) :
    k.Writes text ∧ ∀ c ∈ rest.head?, k.goesOn c = false := by
  have hsign := isSign_splitSign cs
  unfold number? at h
  generalize splitSign cs = pair at h hsign
  obtain ⟨sign, body⟩ := pair
  have hwhole : ∀ c ∈ body.takeWhile isDigit, isDigit c = true :=
    fun c hc => List.mem_takeWhile_imp hc
  have hdrop := head_dropWhile isDigit body
  dsimp only at h hsign
  split at h
  · next after _ =>
    have hfraction : ∀ c ∈ after.takeWhile isDigit, isDigit c = true :=
      fun c hc => List.mem_takeWhile_imp hc
    split at h
    · cases h
    · next hne =>
      cases h
      rw [List.append_assoc]
      refine ⟨.decimal hsign ?_ hwhole hfraction, head_dropWhile isDigit after⟩
      rw [Bool.and_eq_true, List.isEmpty_iff, List.isEmpty_iff] at hne
      exact Decidable.not_and_iff_not_or_not.1 hne
  · next hpoint =>
    split at h
    · cases h
    · next hne =>
      cases h
      refine ⟨.integer hsign (by simpa using hne) hwhole, ?_⟩
      intro c hc
      have hdigit : isDigit c = false := hdrop c hc
      have hnot : c ≠ '.' := by
        rintro rfl
        obtain ⟨after, hafter⟩ := List.head?_eq_some_iff.1 hc
        exact hpoint after hafter
      simp [Lexeme.goesOn, hdigit, hnot]

/-- **The terminal at the start of a source** is the longest one. -/
theorem lexeme?_eq_some_iff :
    lexeme? cs = some (k, text, rest) ↔ cs = text ++ rest ∧ k.Writes text ∧ Ends text rest := by
  constructor
  · intro h
    refine ⟨(lexeme?_spec h).1, ?_⟩
    have hwrites : k.Writes text ∧ ∀ c ∈ rest.head?, k.goesOn c = false := by
      unfold lexeme? at h
      split at h
      · cases h
      · cases h
        exact ⟨.opening, fun _ _ => rfl⟩
      · cases h
        exact ⟨.closing, fun _ _ => rfl⟩
      · cases h
        exact ⟨.colon, fun _ _ => rfl⟩
      · split at h
        · next hstart =>
          cases h
          exact ⟨.symbol hstart fun c hc => List.mem_takeWhile_imp hc, head_dropWhile isNamePart _⟩
        · exact number?_writes h
    exact ⟨hwrites.1, hwrites.1.ends_iff.2 hwrites.2⟩
  · rintro ⟨rfl, hwrites, hends⟩
    exact lexeme?_of_writes hwrites (hwrites.ends_iff.1 hends)

/-- **No terminal is at the start of a source** exactly if no text of one is there. -/
theorem lexeme?_eq_none_iff :
    lexeme? cs = none ↔ ∀ k text rest, cs = text ++ rest → ¬ Lexeme.Writes k text := by
  constructor
  · rintro hnone k text rest rfl hwrites
    induction rest generalizing k text with
    | nil =>
      rw [lexeme?_of_writes hwrites fun c hc => by cases hc] at hnone
      cases hnone
    | cons c rest ih =>
      by_cases hgoes : k.goesOn c = true
      · obtain ⟨k', hk'⟩ := hwrites.snoc hgoes
        rw [List.append_cons] at hnone
        exact ih k' (text ++ [c]) hnone hk'
      · have hhead : ∀ d ∈ (c :: rest).head?, k.goesOn d = false := by
          intro d hd
          obtain rfl : c = d := Option.some.inj hd
          exact Bool.eq_false_iff.2 hgoes
        rw [lexeme?_of_writes hwrites hhead] at hnone
        cases hnone
  · intro hnot
    rcases h : lexeme? cs with _ | ⟨k, text, rest⟩
    · rfl
    · obtain ⟨hcs, hwrites, _⟩ := lexeme?_eq_some_iff.1 h
      exact absurd hwrites (hnot k text rest hcs)

end

end Abacus
