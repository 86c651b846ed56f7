import Abacus.Proofs.Isolation
import Abacus.Proofs.Reports
import Abacus.Proofs.Strictness

/-!
# The switch for strictness

A command of the console sets the switch for strictness, or turns it over.  A switch that has never
been set leaves the strictness to the settings, but is turned over as if it were off: with strict
settings, the first command that turns it over announces that names without a meaning stop a
program, which they do already.

* `Console.inForce`       the strictness in which entries are run;
* `Console.Meets`, `Console.Raises`   an entry comes to a name without a meaning, and stops at it;
* `stops_iff_reports`     a strict run stops at a name where the lenient run reports one;
* `order?`                what an entry orders of the switch;
* `Console.Obeys`         the order is carried out, and announced;
* `strict_switch`         **the orders of a session are carried out, but for one**.
-/

namespace Abacus

open Run

/-! ## Stopping at a name -/

section
variable {f : Forest}

/-- **A lenient evaluation does not stop at a name.** -/
theorem not_unresolved_of_lenient {v : Visit} {ident : String} {t : State}
    (henv : v.env.Rooted fun _ p => p.strict = false) :
    v.result f ≠ (.error (.unresolved ident), t) := by
  intro h
  obtain ⟨w, hvisits, hfails⟩ := origin_of_fault h
  have hlenient : w.env.policy.strict = false := (rooted_of_visits hvisits henv).policy
  cases hfails with
  | node hnode henter hown =>
    obtain ⟨_, hstrict, _⟩ := hown.unresolved
    rw [result_enter] at henter
    cases henter
    rw [Env.policy_push] at hstrict
    exact Bool.false_ne_true (hlenient.symm.trans hstrict)

theorem like_strictRoot (policy : Policy) : Env.Like (fun p q => p = q ∧ p.strict = true) Eq
    (Env.root 0 { policy with strict := true }) (Env.root 0 { policy with strict := true }) :=
  .root rfl ⟨rfl, rfl⟩

/-- a strict evaluation stops at a name if the lenient one reports a name without a meaning -/
theorem unresolved_of_report {limit : Nat} {ref : Ref} {policy : Policy} {input : List Char}
    {generator : Generator} {r : Report}
    (hr : r ∈ ((Visit.start limit ref { policy with strict := false } input generator).result
      f).2.reports.toList)
    (hconcern : r.remark.concern = .unresolvedSymbol) :
    ∃ ident t, (Visit.start limit ref { policy with strict := true } input generator).result f =
      (.error (.unresolved ident), t) := by
  have hbeside := beside_start limit ref policy input generator
  rcases abreast_evalNode f limit ref hbeside.env (.start input generator) with
    ⟨_, hfault, ident, rfl⟩ | hsame
  · exact ⟨ident, _, Prod.ext hfault rfl⟩
  · have hnone := steady_unreported.evalNode f limit ref (like_strictRoot policy)
      (.start input generator) rfl
    have hreports : r ∈ ((evalNode f limit ref (.root 0 { policy with strict := true })).result
        (.start input generator)).2.reports.toList := by
      rw [show (evalNode f limit ref (.root 0 { policy with strict := true })).result
        (.start input generator) = _ from hsame.symm]
      exact hr
    have hother := List.find?_eq_none.1 hnone r hreports
    exact absurd (decide_eq_true hconcern) hother

end

theorem not_unresolved_of_plantSource {source ident : String} {d : Draft} :
    (plantSource source).run.run ⟨.empty, []⟩ ≠ (.error (.unresolved ident), d) := by
  intro h
  rcases fault_of_plantSource h with hparse | ⟨b, n, heq⟩
  · cases category_of_parseForm hparse
  · cases heq

section
variable (policy : Policy) (source : String) (input : List Char) (generator : Generator)

/-- **A strict run stops at a name exactly where the lenient run reports one.** -/
theorem stops_iff_reports :
    (∃ ident, (runSource { policy with strict := true } source input generator).value =
      .error (.unresolved ident)) ↔
    ∃ r ∈ (runSource { policy with strict := false } source input generator).remarks,
      r.concern = .unresolvedSymbol := by
  rcases hplanted : (plantSource source).run.run ⟨.empty, []⟩ with ⟨e | root, draft⟩
  · simp only [runSource, hplanted]
    constructor
    · rintro ⟨ident, heq⟩
      cases heq
      exact absurd hplanted not_unresolved_of_plantSource
    · rintro ⟨r, hr, hconcern⟩
      exact absurd hconcern (ofTree_of_plantSource hplanted r hr).concern.1
  · simp only [runSource, hplanted]
    constructor
    · rintro ⟨ident, hstrict⟩
      have hbeside := beside_start depthLimit (.node root) policy input generator
      obtain ⟨v, s, r, _, hmisses, _, hstarts, _⟩ := misses_of_unresolved (f := draft.forest) rfl
        (like_strictRoot policy) hbeside (Prod.ext hstrict rfl)
      have hr := hstarts.subset (List.mem_append_right _ (List.mem_singleton_self r))
      exact ⟨r.remark, List.mem_append_right _ (List.mem_map_of_mem hr), hmisses.concern⟩
    · rintro ⟨r, hr, hconcern⟩
      rcases List.mem_append.1 hr with hr | hr
      · exact absurd hconcern (ofTree_of_plantSource hplanted r hr).concern.1
      · obtain ⟨report, hreport, rfl⟩ := List.mem_map.1 hr
        obtain ⟨ident, t, hstrict⟩ := unresolved_of_report (f := draft.forest) hreport hconcern
        exact ⟨ident, congrArg Prod.fst hstrict⟩

theorem not_unresolved_of_lenientRun (ident : String) :
    (runSource { policy with strict := false } source input generator).value ≠
      .error (.unresolved ident) := by
  rcases hplanted : (plantSource source).run.run ⟨.empty, []⟩ with ⟨e | root, draft⟩
  · simp only [runSource, hplanted]
    intro heq
    cases heq
    exact not_unresolved_of_plantSource hplanted
  · simp only [runSource, hplanted]
    intro heq
    have hroot : (Env.root 0 { policy with strict := false }).Rooted fun _ p => p.strict = false :=
      .of_root rfl
    exact not_unresolved_of_lenient (f := draft.forest)
      (v := .start depthLimit (.node root) { policy with strict := false } input generator) hroot
      (Prod.ext heq rfl)

end

/-! ## Orders -/

inductive Order where
  | set (flag : Bool)
  | turn
  deriving DecidableEq

def Order.flag (current : Bool) : Order → Bool
  | .set flag => flag
  | .turn => !current

/-- **What an entry orders of the switch**, if it is the command for it with a word for on or off, or
without any -/
def order? (typed : String) : Option Order :=
  let (word, argument) := firstWord (strip (normalize typed))
  if word = Command.strict.word then
    if lowered argument ∈ onWords then some (.set true)
    else if lowered argument ∈ offWords then some (.set false)
    else if argument = "" then some .turn
    else none
  else none

namespace Console

/-- **The strictness in which entries are run** -/
def inForce (w : Surroundings) (c : Console) : Bool := (w.policy c.switches.strict).strict

def run (w : Surroundings) (c : Console) (strict : Bool) (typed : String) : Outcome :=
  runSource { w.policy c.switches.strict with strict := strict } (normalize typed) c.input
    w.generator

/-- an entry comes to a name without a meaning, which is reported in a lenient run -/
def Meets (w : Surroundings) (c : Console) (typed : String) : Prop :=
  ∃ r ∈ (c.run w false typed).remarks, r.concern = .unresolvedSymbol

/-- an entry stops at a name without a meaning -/
def Raises (w : Surroundings) (c : Console) (typed : String) : Prop :=
  ∃ ident, (runSource (w.policy c.switches.strict) (normalize typed) c.input w.generator).value =
    .error (.unresolved ident)

/-- **An entry obeys the law of the switch.** -/
structure Obeys (w : Surroundings) (c : Console) (typed : String) : Prop where
  /-- an order is carried out on the strictness in force, and what is announced is in force then -/
  ordered : ∀ o, order? typed = some o → ∃ next, (c.enter w typed).next = .ok next ∧
    next.inForce w = o.flag (c.inForce w) ∧
    (c.enter w typed).shown = announce .strict (next.inForce w)
  /-- an entry that orders nothing leaves the strictness in force as it is -/
  other : order? typed = none → ∀ next, (c.enter w typed).next = .ok next →
    next.inForce w = c.inForce w

def after (w : Surroundings) (c : Console) (entries : List String) : Except Fault Console :=
  entries.foldlM (fun c typed => (c.enter w typed).next) c

end Console

section
variable {w : Surroundings} {c next : Console} {typed : String} {o : Order}

theorem startsWithSlash_of_word {line : String} {c : Command} (h : (firstWord line).1 = c.word) :
    startsWithSlash line = true := by
  have hword : line.toList.takeWhile (!isBlank ·) = c.word.toList := by
    rw [← h, firstWord, String.toList_ofList]
  unfold startsWithSlash
  rcases hline : line.toList with _ | ⟨d, ds⟩
  · rw [hline] at hword
    cases c <;> cases hword
  · rw [hline, List.takeWhile_cons] at hword
    split at hword
    · obtain rfl : d = '/' := by
        cases c <;> exact (List.cons.inj hword).1
      rfl
    · cases c <;> cases hword

theorem word_of_order? (h : order? typed = some o) :
    (firstWord (strip (normalize typed))).1 = Command.strict.word := by
  unfold order? at h
  split at h
  next word argument hword =>
  rw [hword]
  split at h
  · next heq => exact heq
  · cases h

theorem toggle_of_order? (h : order? typed = some o) (current : Bool) :
    toggle (firstWord (strip (normalize typed))).2 current = some (o.flag current) := by
  unfold order? at h
  split at h
  next word argument hword =>
  rw [hword]
  unfold toggle
  split at h
  · by_cases hon : lowered argument ∈ onWords
    · rw [if_pos hon] at h
      cases h
      simp [hon, Order.flag]
    · rw [if_neg hon] at h
      by_cases hoff : lowered argument ∈ offWords
      · rw [if_pos hoff] at h
        cases h
        simp [hon, hoff, Order.flag]
      · rw [if_neg hoff] at h
        split at h
        · next hempty =>
          cases h
          subst hempty
          rfl
        · cases h
  · cases h

theorem order?_of_sets {current flag : Bool}
    (hword : (firstWord (strip (normalize typed))).1 = Command.strict.word)
    (h : Sets (firstWord (strip (normalize typed))).2 current flag) : order? typed ≠ none := by
  unfold order?
  split
  next word argument heq =>
  rw [heq] at h hword
  rw [if_pos (show word = Command.strict.word from hword)]
  rcases h with ⟨hon, _⟩ | ⟨hoff, _⟩ | ⟨hempty, _⟩
  · simp [hon]
  · rw [if_pos hoff]
    split
    · simp
    · simp
  · subst hempty
    decide

/-- **An order sets the switch**, as if it were off where it has never been set. -/
theorem enter_of_order? (h : order? typed = some o) :
    c.enter w typed = ⟨.ok { c with switches := { c.switches with
        strict := some (o.flag (c.switches.strict.getD false)) } },
      announce .strict (o.flag (c.switches.strict.getD false)), false⟩ := by
  have hstart := startsWithSlash_of_word (word_of_order? h)
  have htoggle := toggle_of_order? h (c.switches.strict.getD false)
  have hnonempty : (strip (normalize typed)).isEmpty = false := by
    rcases hempty : (strip (normalize typed)).isEmpty with _ | _
    · rfl
    · rw [String.isEmpty_iff.1 hempty] at hstart
      cases hstart
  have hfind : Command.all.find? (·.word == Command.strict.word) = some .strict := by decide
  have hslash : slash w.clearScreen (normalize typed) c.switches =
      some ({ c.switches with strict := some (o.flag (c.switches.strict.getD false)) },
        announce .strict (o.flag (c.switches.strict.getD false))) := by
    unfold slash
    dsimp only
    rw [if_pos hstart, word_of_order? h, hfind]
    dsimp only
    rw [htoggle]
  unfold Console.enter
  dsimp only
  rw [hnonempty, hslash]
  rfl

theorem strict_of_enter (h : order? typed = none) (hnext : (c.enter w typed).next = .ok next) :
    next.switches.strict = c.switches.strict := by
  unfold Console.enter at hnext
  dsimp only at hnext
  split at hnext
  · cases hnext
    rfl
  · rcases hslash : slash w.clearScreen (normalize typed) c.switches with _ | ⟨switches, shown⟩
    · rw [hslash] at hnext
      dsimp only at hnext
      rcases houtcome : (runShown w c.switches (normalize typed) c.input).outcome with e | ended
      · rw [houtcome] at hnext
        cases hnext
      · rw [houtcome] at hnext
        cases hnext
        rfl
    · rw [hslash] at hnext
      cases hnext
      have hset := setBy_of_slash hslash
      have horder {current flag : Bool} (hword : (firstWord (strip (normalize typed))).1 = _)
          (hsets : Sets (firstWord (strip (normalize typed))).2 current flag) :
          order? typed ≠ none := order?_of_sets hword hsets
      generalize (firstWord (strip (normalize typed))).1 = word at hset horder
      generalize (firstWord (strip (normalize typed))).2 = argument at hset horder
      cases hset with
      | trace hsets => rfl
      | strict hsets => exact absurd h (horder rfl hsets)
      | nothing => rfl

/-- **Every order but one is carried out**: to turn over a switch that has never been set, where the
settings are strict. -/
theorem obeys_iff : c.Obeys w typed ↔
    ¬ (w.settings.strict = true ∧ c.switches.strict = none ∧ order? typed = some .turn) := by
  constructor
  · rintro hobeys ⟨hsettings, hnone, hturn⟩
    obtain ⟨next, hnext, hforce, _⟩ := hobeys.ordered .turn hturn
    rw [enter_of_order? hturn] at hnext
    cases hnext
    simp [Console.inForce, Surroundings.policy, Order.flag, hnone, hsettings] at hforce
  · intro hother
    constructor
    · intro o ho
      rw [enter_of_order? ho]
      refine ⟨_, rfl, ?_, rfl⟩
      cases o with
      | set flag => rfl
      | turn =>
        show (!c.switches.strict.getD false) = !c.switches.strict.getD w.settings.strict
        rcases hstrict : c.switches.strict with _ | flag
        · rcases hsettings : w.settings.strict with _ | _
          · rfl
          · exact absurd ⟨hsettings, hstrict, ho⟩ hother
        · rfl
    · intro hnone next hnext
      unfold Console.inForce Surroundings.policy
      rw [strict_of_enter hnone hnext]

/-! ## Sessions -/

theorem strict_of_after {start : Console} {entries : List String}
    (h : start.after w entries = .ok c) :
    c.switches.strict = none ↔
      start.switches.strict = none ∧ ∀ typed ∈ entries, order? typed = none := by
  induction entries generalizing start with
  | nil =>
    cases h
    simp
  | cons typed rest ih =>
    unfold Console.after at h
    rw [List.foldlM_cons] at h
    rcases hnext : (start.enter w typed).next with e | next
    · rw [hnext] at h
      cases h
    · rw [hnext] at h
      rw [ih h, List.forall_mem_cons]
      rcases horder : order? typed with _ | o
      · rw [strict_of_enter horder hnext]
        simp
      · rw [enter_of_order? horder] at hnext
        cases hnext
        simp

/-- an entry that comes to a name without a meaning stops at it if the strictness in force says so -/
theorem raises_iff (hmeets : c.Meets w typed) : c.Raises w typed ↔ c.inForce w = true := by
  have hlenient := not_unresolved_of_lenientRun (w.policy c.switches.strict) (normalize typed)
    c.input w.generator
  have hstrict := (stops_iff_reports (w.policy c.switches.strict) (normalize typed) c.input
    w.generator).2 hmeets
  unfold Console.Raises Console.inForce
  generalize w.policy c.switches.strict = policy at hlenient hstrict ⊢
  obtain ⟨strict, guarded, places, channel, source⟩ := policy
  cases strict with
  | true => exact ⟨fun _ => rfl, fun _ => hstrict⟩
  | false =>
    constructor
    · rintro ⟨ident, hraises⟩
      exact absurd hraises (hlenient ident)
    · intro hfalse
      cases hfalse

end

/-- **The orders of a session are carried out, but for one.**  An entry that comes to a name without
a meaning stops at it if the strictness in force says so.  That strictness is what the last order
made it, and is announced, unless the settings are strict, nothing was said of it when the session
was started, and the first order of all is to turn it over. -/
theorem strict_switch (w : Surroundings) (start : Console) (entries : List String) :
    (∀ (c : Console) typed, c.Meets w typed → (c.Raises w typed ↔ c.inForce w = true)) ∧
    ((∀ before typed later c, entries = before ++ typed :: later →
        start.after w before = .ok c → c.Obeys w typed) ↔
      ∀ before typed later c, entries = before ++ typed :: later →
        start.after w before = .ok c → ¬ (w.settings.strict = true ∧
          start.switches.strict = none ∧ (∀ earlier ∈ before, order? earlier = none) ∧
          order? typed = some .turn)) := by
  refine ⟨fun c typed hmeets => raises_iff hmeets, ?_⟩
  have hsame (before : List String) (typed : String) (c : Console)
      (h : start.after w before = .ok c) : c.Obeys w typed ↔ ¬ (w.settings.strict = true ∧
        start.switches.strict = none ∧ (∀ earlier ∈ before, order? earlier = none) ∧
        order? typed = some .turn) := by
    rw [obeys_iff, strict_of_after h, and_assoc]
  constructor
  · intro hobeys before typed later c hentries hafter
    exact (hsame before typed c hafter).1 (hobeys before typed later c hentries hafter)
  · intro hother before typed later c hentries hafter
    exact (hsame before typed c hafter).2 (hother before typed later c hentries hafter)

def strictSurroundings : Surroundings where
  settings := ⟨true, false, false, 6, some 1⟩
  chance := 0
  traceOf _ := ""
  clearScreen := ""
  echo _ := ""

def freshConsole : Console := ⟨⟨none, false⟩, []⟩

theorem meets_ghost : freshConsole.Meets strictSurroundings "ghost" := by
  have hnormal : normalize "ghost" = "ghost" := by decide
  have hparse : parseForm "ghost".toList = .ok (.symbol "ghost") := by
    with_unfolding_all rfl
  refine ⟨.undefinedSymbol "ghost", ?_, rfl⟩
  have hplanted : (plantSource "ghost").run.run ⟨.empty, []⟩ =
      (.ok ⟨0⟩, ⟨⟨#[⟨.symbol "ghost", none, none⟩], #[], #[]⟩, []⟩) := by
    rw [plantSource_ok hparse]
    rfl
  have hrun (p : Policy) (hp : p.strict = false) (g : Generator) :
      (runSource p "ghost" [] g).remarks = [.undefinedSymbol "ghost"] := by
    obtain ⟨strict, guarded, places, channel, source⟩ := p
    cases hp
    unfold runSource
    rw [hplanted]
    rfl
  have hremarks : (freshConsole.run strictSurroundings false "ghost").remarks =
      [.undefinedSymbol "ghost"] := by
    unfold Console.run
    rw [hnormal]
    exact hrun _ rfl _
  rw [hremarks]
  exact List.mem_singleton_self _

theorem strict_switch_ghost :
    freshConsole.Meets strictSurroundings "ghost" ∧
    (freshConsole.Raises strictSurroundings "ghost" ↔
      freshConsole.inForce strictSurroundings = true) ∧
    ∀ before typed later c, ["ghost", "/strict off", "/strict"] = before ++ typed :: later →
      freshConsole.after strictSurroundings before = .ok c → c.Obeys strictSurroundings typed := by
  have h := strict_switch strictSurroundings freshConsole ["ghost", "/strict off", "/strict"]
  refine ⟨meets_ghost, h.1 freshConsole "ghost" meets_ghost, h.2.2 ?_⟩
  rintro before typed later c hentries - ⟨-, -, hbefore, hturn⟩
  rcases before with _ | ⟨first, _ | ⟨second, _ | ⟨third, before⟩⟩⟩
  · cases hentries
    revert hturn
    decide
  · cases hentries
    revert hturn
    decide
  · cases hentries
    have hsecond := hbefore "/strict off" (by simp)
    revert hsecond
    decide
  · simp at hentries

/-- turning the switch over where it has never been set, with strict settings: it is announced on,
and was on before -/
theorem strict_switch_unset :
    (freshConsole.enter strictSurroundings "/strict").next = .ok ⟨⟨some true, false⟩, []⟩ ∧
    (freshConsole.enter strictSurroundings "/strict").shown = announce .strict true ∧
    freshConsole.inForce strictSurroundings = true ∧
    ¬ freshConsole.Obeys strictSurroundings "/strict" := by
  have horder : order? "/strict" = some .turn := by decide
  refine ⟨rfl, rfl, rfl, ?_⟩
  intro hobeys
  exact obeys_iff.1 hobeys ⟨rfl, rfl, horder⟩

end Abacus
