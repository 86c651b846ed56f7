import Abacus.CommandLine
import Abacus.Proofs.Isolation

/-!
# Settings that do no harm

Whatever the settings say, a program that is given as an argument ends with a code, and an entry at
the console with the next prompt; but a number of places may be larger than the largest that can be
written.  A program that is too long for the name of a file is refused as one, whatever the
settings.

* `Path.TooLong`      a path is refused, as a whole or for a name to which directories lead;
* `IsProgram`         an argument is a program, and not where one stands;
* `Refused`           it is too long for a path, and is taken for one;
* `Writable`          the number of places that the settings ask for can be written;
* `Finish.Ends`       the program ends with zero or one;
* `settings_harmless` **settings do no harm exactly if numbers can be written**.
-/

namespace Abacus

/-! ## Paths that are too long -/

section
variable {look : Path → Option Entity} {here p : Path} {name a : String} {names : List String}

/-- one of the names that go on from a path is too long, and stands below directories only -/
def Path.Barred (look : Path → Option Entity) (here : Path) (names : List String) : Prop :=
  ∃ before name after, names = before ++ name :: after ∧ longestName < name.utf8ByteSize ∧
    ∀ k ≤ before.length, look ⟨here.slashes, here.names ++ before.take k⟩ = some .directory

/-- **A path is too long** as a whole, or has a name that is, below directories only. -/
def Path.TooLong (look : Path → Option Entity) (p : Path) : Prop :=
  longestPath < p.text.utf8ByteSize ∨ Path.Barred look ⟨p.slashes, []⟩ p.names

theorem not_barred_nil : ¬ Path.Barred look here [] := by
  rintro ⟨before, name, after, hnames, -⟩
  simp at hnames

theorem barred_cons : Path.Barred look here (name :: names) ↔ look here = some .directory ∧
    (longestName < name.utf8ByteSize ∨
      Path.Barred look ⟨here.slashes, here.names ++ [name]⟩ names) := by
  constructor
  · rintro ⟨before, long, after, hnames, hlong, hlook⟩
    have hhere : look here = some .directory := by
      simpa using hlook 0 (Nat.zero_le _)
    refine ⟨hhere, ?_⟩
    cases before with
    | nil =>
      obtain ⟨rfl, rfl⟩ := List.cons.inj hnames
      exact .inl hlong
    | cons first before =>
      obtain ⟨rfl, rfl⟩ := List.cons.inj hnames
      refine .inr ⟨before, long, after, rfl, hlong, ?_⟩
      intro k hk
      simpa using hlook (k + 1) (Nat.succ_le_succ hk)
  · rintro ⟨hhere, hlong | ⟨before, long, after, rfl, hlong, hlook⟩⟩
    · refine ⟨[], name, names, rfl, hlong, ?_⟩
      intro k _
      simpa using hhere
    · refine ⟨name :: before, long, after, rfl, hlong, ?_⟩
      intro k hk
      cases k with
      | zero => simpa using hhere
      | succ k => simpa using hlook k (Nat.le_of_succ_le_succ hk)

/-- what stands at a path is not found out exactly if a name on the way is too long -/
theorem reachFrom_eq_error_iff {whole : Path} {fault : Fault} :
    Path.reachFrom look whole here names = .error fault ↔
      fault = .nameTooLong whole.text ∧ Path.Barred look here names := by
  induction names generalizing here with
  | nil => simp [Path.reachFrom, not_barred_nil]
  | cons name names ih =>
    rw [Path.reachFrom, barred_cons]
    split
    · next hlook =>
      by_cases hlong : longestName < name.utf8ByteSize
      · simp [hlook, hlong, eq_comm]
      · rw [if_neg hlong, ih]
        simp [hlook, hlong]
    · next hlook =>
      constructor
      · intro heq
        cases heq
      · rintro ⟨-, hhere, -⟩
        exact absurd hhere hlook

theorem reach_eq_error_iff {fault : Fault} :
    p.reach look = .error fault ↔ fault = .nameTooLong p.text ∧ p.TooLong look := by
  unfold Path.reach Path.TooLong
  by_cases hlong : longestPath < p.text.utf8ByteSize
  · simp [hlong, eq_comm]
  · rw [if_neg hlong, reachFrom_eq_error_iff]
    simp [hlong]

theorem piecesOf_of_not_mem {divider : Char} {cs : List Char} (h : divider ∉ cs) :
    piecesOf divider cs = [cs] := by
  induction cs with
  | nil => rfl
  | cons c cs ih =>
    obtain ⟨hc, hcs⟩ := List.ne_and_not_mem_of_not_mem_cons h
    rw [piecesOf, ih hcs]
    exact if_neg hc.symm

theorem ofText_of_not_mem (h : '/' ∉ a.toList) (hempty : a ≠ "") (hdot : a ≠ ".") :
    Path.ofText a = ⟨0, [a]⟩ := by
  have hfront : a.toList.takeWhile (· == '/') = [] := by
    rcases hchars : a.toList with _ | ⟨c, cs⟩
    · rfl
    · rw [hchars] at h
      have hc : c ≠ '/' := (List.ne_of_not_mem_cons h).symm
      simp [hc]
  unfold Path.ofText
  rw [hfront, piecesOf_of_not_mem h]
  simp [keptSlashes, hempty, hdot]

theorem tooLong_of_not_mem (h : '/' ∉ a.toList) (hlong : longestName < a.utf8ByteSize)
    (hhere : look ⟨0, []⟩ = some .directory) : (Path.ofText a).TooLong look := by
  have hother {text : String} (hshort : text.utf8ByteSize ≤ longestName) : a ≠ text := by
    rintro rfl
    exact absurd hlong (Nat.not_lt.2 hshort)
  rw [ofText_of_not_mem h (hother (by decide)) (hother (by decide))]
  refine .inr ⟨[], a, [], rfl, hlong, ?_⟩
  intro k _
  rw [List.take_nil]
  exact hhere

/-! ## Programs as arguments -/

/-- **An argument is a program**: it is no option, does not ask for the input, and nothing stands
there as at a path. -/
structure IsProgram (look : Path → Option Entity) (a : String) : Prop where
  input : a ≠ "-"
  console : a ≠ "--repl"
  strict : a ≠ "--strict"
  nothing : Char.ofNat 0 ∉ a.toList → ∀ e, (Path.ofText a).reach look ≠ .ok (some e)

/-- an argument could name a file, but is too long -/
def Refused (look : Path → Option Entity) (a : String) : Prop :=
  Char.ofNat 0 ∉ a.toList ∧ (Path.ofText a).TooLong look

theorem sourceOf_of_refused (ha : IsProgram look a) (h : Refused look a) (input : List Char) :
    sourceOf look (some a) input = .error (.nameTooLong (Path.ofText a).text) := by
  have hreach := reach_eq_error_iff.2 ⟨rfl, h.2⟩
  unfold sourceOf
  simp [ha.input, h.1, hreach]

theorem sourceOf_of_not_refused (ha : IsProgram look a) (h : ¬ Refused look a)
    (input : List Char) : sourceOf look (some a) input = .ok (a, input) := by
  unfold sourceOf
  by_cases hnull : Char.ofNat 0 ∈ a.toList
  · simp [ha.input, hnull]
  · rcases hreach : (Path.ofText a).reach look with fault | _ | e
    · exact absurd ⟨hnull, (reach_eq_error_iff.1 hreach).2⟩ h
    · simp [ha.input, hnull, hreach]
    · exact absurd hreach (ha.nothing hnull e)

theorem ofArguments_of_isProgram (ha : IsProgram look a) :
    Request.ofArguments [a] = .ok ⟨false, none, some a⟩ := by
  simp [Request.ofArguments, Request.ofArgumentsFrom, ha.console, ha.strict]

end

/-! ## Settings -/

def Surroundings.under (w : Surroundings) (setting : String → Option String) : Surroundings :=
  { w with settings := .read setting }

def askedPlaces? (setting : String → Option String) : Option Int :=
  (setting "NUMLISP_FLOAT_PRECISION").bind readInteger?

/-- **Numbers can be written** with the places that the settings ask for, if they ask for any. -/
def Writable (setting : String → Option String) : Prop :=
  ∀ z, askedPlaces? setting = some z → z ≤ mostPlaces

theorem places_under (w : Surroundings) (setting : String → Option String) :
    (w.under setting).settings.places =
      ((askedPlaces? setting).map Int.toNat).getD defaultPlaces := by
  show placesOf (setting "NUMLISP_FLOAT_PRECISION") = _
  unfold askedPlaces? placesOf
  rcases (setting "NUMLISP_FLOAT_PRECISION").bind readInteger? with _ | z
  · rfl
  · rfl

theorem writable_iff (w : Surroundings) (setting : String → Option String) :
    Writable setting ↔ (w.under setting).settings.places ≤ mostPlaces := by
  rw [places_under]
  unfold Writable
  rcases askedPlaces? setting with _ | z
  · simp [defaultPlaces, mostPlaces]
  · simp

section
variable {w : Surroundings}

def Surroundings.settled (w : Surroundings) : Surroundings :=
  { w with settings := { w.settings with seed := some (w.settings.seed.getD w.chance) } }

/-- a run by chance is the run with what chance gave as the seed -/
theorem runShown_settled : runShown w.settled = runShown w := rfl

theorem enter_settled : Console.enter w.settled = Console.enter w := by
  have hclear : w.settled.clearScreen = w.clearScreen := rfl
  unfold Console.enter
  rw [runShown_settled, hclear]

/-- **A run ends with a value or a report**, where numbers can be written. -/
theorem ended_runShown (hplaces : w.settings.places ≤ mostPlaces) (switches : Switches)
    (source : String) (input : List Char) :
    ∃ ended, (runShown w switches source input).outcome = .ok ended := by
  obtain ⟨-, hended, -⟩ :=
    runShown_cases (w := w.settled) rfl hplaces switches source input
  rwa [runShown_settled] at hended

/-- **An entry leads to the next prompt**, where numbers can be written. -/
theorem next_enter (hplaces : w.settings.places ≤ mostPlaces) (c : Console) (typed : String) :
    ∃ next, (c.enter w typed).next = .ok next := by
  obtain ⟨next, hnext, -⟩ := answers_enter (w := w.settled) rfl hplaces c typed
  rw [enter_settled] at hnext
  exact ⟨next, hnext⟩

/-! ## A number that cannot be written -/

def numberSource : String := "1.5"

def plainNumber : Number := ⟨.float, .ofNumeral numberSource.toList⟩

theorem parse_numberSource :
    parseForm numberSource.toList = .ok (.numeral .float numberSource.toList) := by
  with_unfolding_all rfl

theorem value_numberSource (policy : Policy) (input : List Char) (generator : Generator) :
    (runSource policy numberSource input generator).value = .ok (some plainNumber) := by
  have hplanted : (plantSource numberSource).run.run ⟨.empty, []⟩ =
      (.ok ⟨0⟩, ⟨⟨#[⟨.number plainNumber, none, none⟩], #[], #[]⟩, []⟩) := by
    rw [plantSource_ok parse_numberSource]
    rfl
  unfold runSource
  rw [hplanted]
  rfl

theorem placesFault?_of_lt {places : Nat} (h : mostPlaces < places) :
    ∃ φ, placesFault? places = some φ ∧ φ.isReported = false := by
  have hnonnegative : ¬ (places : Int) < 0 := by omega
  unfold placesFault?
  rw [if_neg hnonnegative]
  split
  · exact ⟨_, rfl, rfl⟩
  · rw [if_pos (Int.ofNat_lt.2 h)]
    exact ⟨_, rfl, rfl⟩

theorem le_mostPlaces_of {places : Nat}
    (h : ∀ φ, placesFault? places = some φ → φ.isReported = false → False) :
    places ≤ mostPlaces := by
  by_contra hlt
  obtain ⟨φ, hfault, hreported⟩ := placesFault?_of_lt (Nat.lt_of_not_le hlt)
  exact h φ hfault hreported

theorem render_plainNumber {places : Int} {φ : Fault} (h : placesFault? places = some φ) :
    plainNumber.render places = .error φ := by
  have hfinite : plainNumber.amount.isFinite = true := by decide +kernel
  unfold Number.render
  simp only [hfinite, h]
  rfl

section
variable {φ : Fault} (hplaces : placesFault? w.settings.places = some φ)
  (hreported : φ.isReported = false)
include hplaces hreported

theorem outcome_numberSource (switches : Switches) (input : List Char) :
    (runShown w switches numberSource input).outcome = .error φ := by
  have hrender : (runSource (w.policy switches.strict) numberSource input w.generator).value.bind
      (Value.render (w.policy switches.strict).places) = .error φ := by
    rw [value_numberSource]
    exact render_plainNumber hplaces
  simp only [runShown, hrender, hreported]
  rfl

theorem next_enter_numberSource (c : Console) : (c.enter w numberSource).next = .error φ := by
  have hnormal : normalize numberSource = numberSource := by decide
  have hblank : (strip numberSource).isEmpty = false := by decide
  have hslash : slash w.clearScreen numberSource c.switches = none :=
    slash_eq_none.2 (by decide)
  have houtcome := outcome_numberSource hplaces hreported c.switches c.input
  unfold Console.enter
  simp only [hnormal, hblank, hslash, houtcome]
  rfl

theorem outcome_session_numberSource (strict : Option Bool) (input : List Char) :
    (Console.session w strict input [.enter numberSource]).outcome = .error φ := by
  have hpress : press "" (.enter numberSource) = .gives (.typed numberSource) :=
    press_not_held (by decide)
  have hnext := next_enter_numberSource hplaces hreported ⟨⟨strict, w.settings.trace⟩, input⟩
  rw [← Console.next_answer_typed] at hnext
  unfold Console.session Console.sessionFrom
  simp only [hpress, hnext]
  rfl

end

/-! ## The whole program -/

def Finish.Ends (finish : Finish) : Prop := finish.code = .ok 0 ∨ finish.code = .ok 1

section
variable {look : Path → Option Entity} {a : String}

theorem code_runMain (ha : IsProgram look a) (hrefused : ¬ Refused look a) (input : List Char)
    (keys : List Key) : (runMain w look [a] input keys).code =
      (runShown w ⟨none, w.settings.trace⟩ a input).outcome.map fun ok => if ok then 0 else 1 := by
  unfold runMain
  simp only [ofArguments_of_isProgram ha, sourceOf_of_not_refused ha hrefused]
  rfl

theorem code_runMain_of_refused (ha : IsProgram look a) (hrefused : Refused look a)
    (input : List Char) (keys : List Key) :
    (runMain w look [a] input keys).code = .error (.nameTooLong (Path.ofText a).text) := by
  unfold runMain
  simp only [ofArguments_of_isProgram ha, sourceOf_of_refused ha hrefused]
  rfl

theorem ends_runMain (hplaces : w.settings.places ≤ mostPlaces) (ha : IsProgram look a)
    (hrefused : ¬ Refused look a) (input : List Char) (keys : List Key) :
    (runMain w look [a] input keys).Ends := by
  obtain ⟨ended, hended⟩ := ended_runShown hplaces ⟨none, w.settings.trace⟩ a input
  unfold Finish.Ends
  rw [code_runMain ha hrefused, hended]
  cases ended with
  | false => exact .inr rfl
  | true => exact .inl rfl

end

/-- where nothing stands but the directory that is worked in -/
def bareDirectory (p : Path) : Option Entity := if p.names = [] then some .directory else none

theorem isProgram_numberSource : IsProgram bareDirectory numberSource := by
  have hreach : (Path.ofText numberSource).reach bareDirectory = .ok none := by decide
  refine ⟨by decide, by decide, by decide, ?_⟩
  intro _ e he
  rw [hreach] at he
  cases he

theorem not_refused_numberSource : ¬ Refused bareDirectory numberSource := by
  rintro ⟨-, hlong⟩
  have hreach := reach_eq_error_iff.2 ⟨rfl, hlong⟩
  revert hreach
  decide

def zeroSource (n : Nat) : String := String.ofList (List.replicate n '0')

theorem utf8ByteSize_zeroSource (n : Nat) : (zeroSource n).utf8ByteSize = n := by
  induction n with
  | zero => rfl
  | succ n ih =>
    unfold zeroSource at ih ⊢
    rw [List.replicate_succ, String.ofList_cons, String.utf8ByteSize_append,
      String.utf8ByteSize_singleton, ih]
    exact Nat.add_comm _ _

theorem refused_zeroSource {n : Nat} (h : longestName < n) :
    Refused bareDirectory (zeroSource n) := by
  have hother {c : Char} (hc : c ≠ '0') : c ∉ (zeroSource n).toList := by
    rw [zeroSource, String.toList_ofList]
    exact fun hmem => hc (List.eq_of_mem_replicate hmem)
  have hlong : longestName < (zeroSource n).utf8ByteSize := by
    rw [utf8ByteSize_zeroSource]
    exact h
  exact ⟨hother (by decide), tooLong_of_not_mem (hother (by decide)) hlong rfl⟩

theorem isProgram_zeroSource {n : Nat} (h : longestName < n) :
    IsProgram bareDirectory (zeroSource n) := by
  have hother {text : String} (hshort : text.utf8ByteSize ≤ longestName) :
      zeroSource n ≠ text := by
    intro heq
    rw [← heq, utf8ByteSize_zeroSource] at hshort
    omega
  have hreach := reach_eq_error_iff.2 ⟨rfl, (refused_zeroSource h).2⟩
  refine ⟨hother (by decide), hother (by decide), hother (by decide), ?_⟩
  intro _ e he
  rw [hreach] at he
  cases he

/-! ## Harm -/

theorem renders_iff {places : Nat} :
    (∀ n : Number, ∃ text, n.render places = .ok text) ↔ places ≤ mostPlaces := by
  constructor
  · intro hrenders
    apply le_mostPlaces_of
    intro φ hfault _
    obtain ⟨text, htext⟩ := hrenders plainNumber
    rw [render_plainNumber hfault] at htext
    cases htext
  · intro hplaces n
    exact render_eq_ok (placesFault?_eq_none hplaces) (some n)

theorem enters_iff : (∀ (c : Console) typed, ∃ next, (c.enter w typed).next = .ok next) ↔
    w.settings.places ≤ mostPlaces := by
  constructor
  · intro henters
    apply le_mostPlaces_of
    intro φ hfault hreported
    obtain ⟨next, hnext⟩ := henters ⟨⟨none, false⟩, []⟩ numberSource
    rw [next_enter_numberSource hfault hreported] at hnext
    cases hnext
  · exact next_enter

theorem sessions_iff :
    (∀ strict input keys, ∃ c, (Console.session w strict input keys).outcome = .ok c) ↔
      w.settings.places ≤ mostPlaces := by
  constructor
  · intro hsessions
    apply le_mostPlaces_of
    intro φ hfault hreported
    obtain ⟨c, hc⟩ := hsessions none [] [.enter numberSource]
    rw [outcome_session_numberSource hfault hreported] at hc
    cases hc
  · intro hplaces strict input keys
    unfold Console.session
    rw [Console.sessionFrom_eq (next_enter hplaces)]
    exact ⟨_, rfl⟩

theorem programs_iff : (∀ look a, IsProgram look a → ¬ Refused look a → ∀ input keys,
    (runMain w look [a] input keys).Ends) ↔ w.settings.places ≤ mostPlaces := by
  constructor
  · intro hends
    apply le_mostPlaces_of
    intro φ hfault hreported
    have hcode := code_runMain (w := w) isProgram_numberSource not_refused_numberSource [] []
    rw [outcome_numberSource hfault hreported] at hcode
    rcases hends bareDirectory numberSource isProgram_numberSource not_refused_numberSource [] []
      with hzero | hone
    · cases hcode.symm.trans hzero
    · cases hcode.symm.trans hone
  · intro hplaces look a ha hrefused
    exact ends_runMain hplaces ha hrefused

end

/-- **Settings do no harm exactly if numbers can be written** with the places that they ask for:
exactly then every number is written, every entry leads to the next prompt, every session is left by
its keys alone, and every program that is not refused as a path ends with zero or one.  One that is
refused never does.  The places are the ones asked for, or none for a negative number, or the usual
ones if no number can be read. -/
theorem settings_harmless (w : Surroundings) (setting : String → Option String) :
    let v := w.under setting
    ((∀ n : Number, ∃ text, n.render v.settings.places = .ok text) ↔ Writable setting) ∧
    ((∀ (c : Console) typed, ∃ next, (c.enter v typed).next = .ok next) ↔ Writable setting) ∧
    ((∀ strict input keys, ∃ c, (Console.session v strict input keys).outcome = .ok c) ↔
      Writable setting) ∧
    ((∀ look a, IsProgram look a → ¬ Refused look a → ∀ input keys,
      (runMain v look [a] input keys).Ends) ↔ Writable setting) ∧
    (∀ look a, IsProgram look a → Refused look a → ∀ input keys,
      (runMain v look [a] input keys).code = .error (.nameTooLong (Path.ofText a).text)) ∧
    (askedPlaces? setting = none → v.settings.places = defaultPlaces) ∧
    ∀ z, askedPlaces? setting = some z → (v.settings.places : Int) = max 0 z := by
  intro v
  have hplaces := places_under w setting
  rw [renders_iff, enters_iff, sessions_iff, programs_iff, writable_iff w]
  refine ⟨Iff.rfl, Iff.rfl, Iff.rfl, Iff.rfl, ?_, ?_, ?_⟩
  · intro look a ha hrefused
    exact code_runMain_of_refused ha hrefused
  · intro hnone
    rw [hplaces, hnone]
    rfl
  · intro z hz
    rw [hplaces, hz]
    show (z.toNat : Int) = max 0 z
    omega

def onlyPlaces (text name : String) : Option String :=
  if name = "NUMLISP_FLOAT_PRECISION" then some text else none

theorem settings_harmless_negative :
    askedPlaces? (onlyPlaces "-3") = some (-3) ∧
    (seededSurroundings.under (onlyPlaces "-3")).settings.places = 0 ∧
    (runMain (seededSurroundings.under (onlyPlaces "-3")) bareDirectory [numberSource] [] []).Ends
      := by
  have hasked : askedPlaces? (onlyPlaces "-3") = some (-3) := by decide
  have hwritable : Writable (onlyPlaces "-3") := by
    intro z hz
    rw [hasked] at hz
    cases hz
    decide
  obtain ⟨-, -, -, hends, -, -, hplaces⟩ := settings_harmless seededSurroundings (onlyPlaces "-3")
  refine ⟨hasked, ?_, ?_⟩
  · exact Int.ofNat.inj (hplaces (-3) hasked)
  · exact hends.2 hwritable bareDirectory numberSource isProgram_numberSource
      not_refused_numberSource [] []

/-- a number with more places than can be written, and one that is too long for a path -/
theorem settings_harmless_beyond :
    IsProgram bareDirectory numberSource ∧
    (runMain (seededSurroundings.under (onlyPlaces "99999999999")) bareDirectory [numberSource] []
      []).code = .error .placesTooMany ∧
    IsProgram bareDirectory (zeroSource 256) ∧
    ¬ (runMain (seededSurroundings.under fun _ => none) bareDirectory [zeroSource 256] []
      []).Ends := by
  have hfault : placesFault? (seededSurroundings.under (onlyPlaces "99999999999")).settings.places =
      some .placesTooMany := by
    decide
  have hlong : longestName < 256 := by decide
  refine ⟨isProgram_numberSource, ?_, isProgram_zeroSource hlong, ?_⟩
  · rw [code_runMain isProgram_numberSource not_refused_numberSource,
      outcome_numberSource hfault rfl]
    rfl
  · unfold Finish.Ends
    rw [code_runMain_of_refused (isProgram_zeroSource hlong) (refused_zeroSource hlong)]
    simp

end Abacus
