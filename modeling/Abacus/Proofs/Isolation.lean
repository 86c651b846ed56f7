import Abacus.Console.Session
import Abacus.Proofs.Evaluation.Counting
import Abacus.Proofs.Syntax

/-!
# Entries that do not touch one another

A session at the console is a fold over what the prompt gives.  Only the two switches and the rest
of the input pass from one entry to the next: a command sets at most the switch that it names, and
a program is run as it would be in a session of its own, whether it fails or not.

* `reported_runSource`     a run of a source stops with reported faults only;
* `prompted`               what the prompt gives, put together from keys;
* `prompted_keys`          the prompt can give anything;
* `Console.respond`        what is answered to it;
* `SetBy`, `Prints`, `Answers`   what commands set, programs print and the console answers;
* `entries_isolated`       **a session is the fold of its answers**.
-/

namespace Abacus

/-! ## Runs of a source -/

theorem render_eq_ok {places : Int} (h : placesFault? places = none) (value : Value) :
    ∃ text, value.render places = .ok text := by
  rcases hrender : value.render places with fault | text
  · rw [placesFault?_of_render hrender] at h
    cases h
  · exact ⟨text, rfl⟩

theorem reported_of_plantSource {source : String} {fault : Fault} {d : Draft}
    (h : (plantSource source).run.run ⟨.empty, []⟩ = (.error fault, d)) :
    fault.isReported = true := by
  rcases fault_of_plantSource h with hparse | ⟨b, n, rfl⟩
  · rw [Fault.isReported, category_of_parseForm hparse]
  · rfl

/-- **A run of a source stops with reported faults only**, where numbers can be written. -/
theorem reported_runSource {policy : Policy} {source : String} {input : List Char}
    {generator : Generator} {fault : Fault} (hplaces : placesFault? policy.places = none)
    (h : (runSource policy source input generator).value = .error fault) :
    fault.isReported = true := by
  rcases hplanted : (plantSource source).run.run ⟨.empty, []⟩ with ⟨fault' | root, draft⟩
  · simp only [runSource, hplanted] at h
    cases h
    exact reported_of_plantSource hplanted
  · simp only [runSource, hplanted] at h
    have hmade : draft.forest.AllMade :=
      steady_allMade.plantSource source .empty [] root draft hplanted allMade_empty
    have henv : (Env.root 0 policy).Rooted fun _ p => placesFault? p.places = none :=
      .of_root hplaces
    have hrun : (evaluate draft.forest (.node root) (.root 0 policy)).result
        (.start input generator) = (.error fault, _) := Prod.ext h rfl
    exact reported_of_evalNode hmade.checked henv (by simp [State.start]) hrun

/-! ## What the prompt gives -/

def prompted (buffer : String) : List Key → List Prompted
  | [] => []
  | key :: rest =>
    match press buffer key with
    | .goesOn buffer => prompted buffer rest
    | .gives p => p :: prompted "" rest
    | .leaves => []

theorem press_eq_leaves {buffer : String} {key : Key} :
    press buffer key = .leaves ↔ key = .leave := by
  cases key with
  | enter text =>
    unfold press
    dsimp only
    split <;> simp
  | submit text => simp [press]
  | interrupt => simp [press]
  | leave => simp [press]

def Prompted.key : Prompted → Key
  | .typed text => .submit text
  | .interrupted => .interrupt

theorem press_key (p : Prompted) : press "" p.key = .gives p := by
  cases p with
  | typed text =>
    rw [Prompted.key, press, String.empty_append]
  | interrupted => rfl

/-- **The prompt can give anything**, texts with open parentheses included. -/
theorem prompted_keys (ps : List Prompted) (rest : List Key) :
    prompted "" (ps.map Prompted.key ++ rest) = ps ++ prompted "" rest := by
  induction ps with
  | nil => rfl
  | cons p ps ih =>
    rw [List.map_cons, List.cons_append, prompted, press_key]
    exact congrArg (p :: ·) ih

namespace Console

/-- the console after what the prompt gives, and what it shows -/
def respond (w : Surroundings) (c : Console) (p : Prompted) : Console × Shown :=
  let step := c.answer w p
  (step.next.toOption.getD c, step.shown)

/-- what is answered, and the prompt for the next entry, after what has been shown -/
def advance (w : Surroundings) (before : Console × Shown) (p : Prompted) : Console × Shown :=
  let answer := before.1.respond w p
  (answer.1, before.2 ++ answer.2 ++ ⟨promptText, ""⟩)

variable {w : Surroundings} {c next : Console}

theorem respond_of_next {p : Prompted} (h : (c.answer w p).next = .ok next) :
    c.respond w p = (next, (c.answer w p).shown) := by
  rw [respond, h]
  rfl

theorem respond_typed {text : String} (h : (c.enter w text).next = .ok next) :
    c.respond w (.typed text) = (next, ⟨w.echo text, ""⟩ ++ (c.enter w text).shown) := by
  rw [respond_of_next ((next_answer_typed w c text).trans h), shown_answer_typed]

theorem advance_of_respond {p : Prompted} {answer : Shown} (h : c.respond w p = (next, answer))
    (shown : Shown) : advance w (c, shown) p = (next, shown ++ (answer ++ ⟨promptText, ""⟩)) := by
  rw [advance, h, Shown.append_assoc]

end Console

/-! ## Commands -/

def Sets (argument : String) (current flag : Bool) : Prop :=
  lowered argument ∈ onWords ∧ flag = true ∨ lowered argument ∈ offWords ∧ flag = false ∨
    argument = "" ∧ flag = !current

def Recognised (argument : String) : Prop :=
  lowered argument ∈ onWords ∨ lowered argument ∈ offWords ∨ argument = ""

/-- **What a command sets**: the switch that it names, by an argument that is recognised; else
nothing. -/
inductive SetBy (before : Switches) : String → String → Switches → Prop
  | trace {argument : String} {flag : Bool} :
      Sets argument before.trace flag →
      SetBy before "/py-traceback" argument { before with trace := flag }
  | strict {argument : String} {flag : Bool} :
      Sets argument (before.strict.getD false) flag →
      SetBy before "/strict" argument { before with strict := some flag }
  | nothing {word argument : String} :
      word ≠ "/py-traceback" ∧ word ≠ "/strict" ∨ ¬ Recognised argument →
      SetBy before word argument before

theorem isEmpty_lowered {argument : String} (h : (lowered argument).isEmpty = true) :
    argument = "" := by
  have hnil : argument.toList.map Char.toLower = [] := by
    have hempty : lowered argument = "" := String.isEmpty_iff.1 h
    have := congrArg String.toList hempty
    simpa [lowered] using this
  exact String.toList_eq_nil_iff.1 (List.map_eq_nil_iff.1 hnil)

theorem sets_of_toggle {argument : String} {current flag : Bool}
    (h : toggle argument current = some flag) : Sets argument current flag := by
  unfold toggle at h
  dsimp only at h
  split at h
  · next hon =>
    cases h
    exact .inl ⟨List.contains_iff_mem.1 hon, rfl⟩
  · split at h
    · next hoff =>
      cases h
      exact .inr (.inl ⟨List.contains_iff_mem.1 hoff, rfl⟩)
    · split at h
      · next hempty =>
        cases h
        exact .inr (.inr ⟨isEmpty_lowered hempty, rfl⟩)
      · cases h

theorem not_recognised_of_toggle {argument : String} {current : Bool}
    (h : toggle argument current = none) : ¬ Recognised argument := by
  unfold toggle at h
  dsimp only at h
  split at h
  · cases h
  · next hon =>
    split at h
    · cases h
    · next hoff =>
      split at h
      · cases h
      · next hempty =>
        rintro (hmem | hmem | rfl)
        · exact hon (List.contains_iff_mem.2 hmem)
        · exact hoff (List.contains_iff_mem.2 hmem)
        · exact hempty rfl

theorem slash_eq_none {clearScreen line : String} {switches : Switches} :
    slash clearScreen line switches = none ↔ startsWithSlash (strip line) = false := by
  unfold slash
  dsimp only
  split
  · next hslash =>
    rw [hslash]
    repeat' split
    all_goals simp
  · next hslash => simpa using hslash

/-- **A command sets what it says**, and no more. -/
theorem setBy_of_slash {clearScreen line : String} {before after : Switches} {shown : Shown}
    (h : slash clearScreen line before = some (after, shown)) :
    SetBy before (firstWord (strip line)).1 (firstWord (strip line)).2 after := by
  unfold slash at h
  dsimp only at h
  split at h
  · rcases hword : firstWord (strip line) with ⟨word, argument⟩
    rw [hword] at h
    dsimp only at h ⊢
    rcases hfind : Command.all.find? (·.word == word) with _ | _ | _ | _
    · rw [hfind] at h
      cases h
      have hnone := List.find?_eq_none.1 hfind
      refine .nothing (.inl ⟨?_, ?_⟩)
      · rintro rfl
        exact hnone .trace (by simp [Command.all]) rfl
      · rintro rfl
        exact hnone .strict (by simp [Command.all]) rfl
    · rw [hfind] at h
      cases h
      have hclear : "/clear" = word := by simpa [Command.word] using List.find?_some hfind
      subst hclear
      exact .nothing (.inl ⟨by decide, by decide⟩)
    · rw [hfind] at h
      have htrace : "/py-traceback" = word := by simpa [Command.word] using List.find?_some hfind
      subst htrace
      rcases htoggle : toggle argument before.trace with _ | flag
      · simp only [htoggle] at h
        cases h
        exact .nothing (.inr (not_recognised_of_toggle htoggle))
      · simp only [htoggle] at h
        cases h
        exact .trace (sets_of_toggle htoggle)
    · rw [hfind] at h
      have hstrict : "/strict" = word := by simpa [Command.word] using List.find?_some hfind
      subst hstrict
      rcases htoggle : toggle argument (before.strict.getD false) with _ | flag
      · simp only [htoggle] at h
        cases h
        exact .nothing (.inr (not_recognised_of_toggle htoggle))
      · simp only [htoggle] at h
        cases h
        exact .strict (sets_of_toggle htoggle)
  · cases h

/-! ## Programs -/

/-- **What is printed of a run**: its value, or the report of its fault, with the trace if traces
are on. -/
inductive Prints (w : Surroundings) (trace : Bool) (run : Outcome) : Shown → Prop
  | value {v : Value} {text : String} :
      run.value = .ok v → v.render w.settings.places = .ok text →
      Prints w trace run ⟨run.output ++ text ++ "\n", written w.settings.quiet run.remarks⟩
  | fault {φ : Fault} :
      run.value = .error φ → φ.isReported = true →
      Prints w trace run ⟨run.output, written w.settings.quiet run.remarks ++
        ("Error: " ++ φ.message ++ "\n" ++
          if trace then "\nPython traceback:\n" ++ w.traceOf φ else "")⟩

theorem runShown_cases {w : Surroundings} {seed : Int} (hseed : w.settings.seed = some seed)
    (hplaces : w.settings.places ≤ mostPlaces) (switches : Switches) (source : String)
    (input : List Char) :
    let run := runSource (w.policy switches.strict) source input (.ofSeed seed)
    (runShown w switches source input).rest = run.rest ∧
      (∃ ended, (runShown w switches source input).outcome = .ok ended) ∧
      Prints w switches.trace run (runShown w switches source input).shown := by
  intro run
  have hnone : placesFault? (w.policy switches.strict).places = none := placesFault?_eq_none hplaces
  have hrun : runSource (w.policy switches.strict) source input w.generator = run := by
    rw [Surroundings.generator, hseed]
    rfl
  rcases hvalue : run.value with φ | v
  · have hreported : φ.isReported = true := reported_runSource hnone hvalue
    have hbind : run.value.bind (Value.render (w.policy switches.strict).places) = .error φ := by
      rw [hvalue]
      rfl
    have hshown : runShown w switches source input = ⟨.ok false,
        ⟨run.output, written w.settings.quiet run.remarks ++ reportFault w switches.trace φ⟩,
        run.rest, φ == .inputEnd⟩ := by
      simp only [runShown, hrun, hbind, hreported, if_true]
    rw [hshown]
    exact ⟨rfl, ⟨_, rfl⟩, .fault hvalue hreported⟩
  · obtain ⟨text, htext⟩ := render_eq_ok hnone v
    have hbind : run.value.bind (Value.render (w.policy switches.strict).places) = .ok text := by
      rw [hvalue]
      exact htext
    have hshown : runShown w switches source input = ⟨.ok true,
        ⟨run.output ++ text ++ "\n", written w.settings.quiet run.remarks⟩, run.rest, false⟩ := by
      simp only [runShown, hrun, hbind]
    rw [hshown]
    exact ⟨rfl, ⟨_, rfl⟩, .value hvalue htext⟩

/-! ## Answers -/

/-- **What the console answers**: an interruption and a blank entry change nothing, a command sets
switches, and a program, run on its own, uses up input. -/
inductive Answers (w : Surroundings) (seed : Int) (c : Console) :
    Prompted → Console × Shown → Prop
  | interrupted : Answers w seed c .interrupted (c, ⟨"KeyboardInterrupt\n", ""⟩)
  | blank {text : String} :
      strip (normalize text) = "" →
      Answers w seed c (.typed text) (c, ⟨w.echo text, ""⟩)
  | command {text : String} {switches : Switches} {shown : Shown} :
      startsWithSlash (strip (normalize text)) = true →
      SetBy c.switches (firstWord (strip (normalize text))).1
        (firstWord (strip (normalize text))).2 switches →
      Answers w seed c (.typed text) ({ c with switches := switches }, ⟨w.echo text, ""⟩ ++ shown)
  | program {text : String} {run : Outcome} {shown : Shown} :
      strip (normalize text) ≠ "" → startsWithSlash (strip (normalize text)) = false →
      run = runSource (w.policy c.switches.strict) (normalize text) c.input (.ofSeed seed) →
      Prints w c.switches.trace run shown →
      Answers w seed c (.typed text) ({ c with input := run.rest }, ⟨w.echo text, ""⟩ ++ shown)

section
variable {w : Surroundings} {seed : Int}

theorem answers_enter (hseed : w.settings.seed = some seed)
    (hplaces : w.settings.places ≤ mostPlaces) (c : Console) (text : String) :
    ∃ next, (c.enter w text).next = .ok next ∧
      Answers w seed c (.typed text) (next, ⟨w.echo text, ""⟩ ++ (c.enter w text).shown) := by
  unfold Console.enter
  dsimp only
  split
  · next hblank =>
    refine ⟨c, rfl, ?_⟩
    rw [Shown.append_nothing]
    exact .blank (String.isEmpty_iff.1 hblank)
  · next hblank =>
    rcases hslash : slash w.clearScreen (normalize text) c.switches with _ | ⟨switches, shown⟩
    · obtain ⟨hrest, ⟨ended, hended⟩, hprints⟩ :=
        runShown_cases hseed hplaces c.switches (normalize text) c.input
      refine ⟨{ c with input := (runShown w c.switches (normalize text) c.input).rest }, ?_, ?_⟩
      · dsimp only
        rw [hended]
        rfl
      · dsimp only
        rw [hrest]
        have hnonblank : strip (normalize text) ≠ "" := fun h => hblank (String.isEmpty_iff.2 h)
        exact .program hnonblank (slash_eq_none.1 hslash) rfl hprints
    · refine ⟨{ c with switches := switches }, rfl, .command ?_ (setBy_of_slash hslash)⟩
      rcases hstart : startsWithSlash (strip (normalize text)) with _ | _
      · rw [slash_eq_none.2 hstart] at hslash
        cases hslash
      · rfl

theorem answers_respond (hseed : w.settings.seed = some seed)
    (hplaces : w.settings.places ≤ mostPlaces) (c : Console) (p : Prompted) :
    Answers w seed c p (c.respond w p) := by
  cases p with
  | interrupted => exact .interrupted
  | typed text =>
    obtain ⟨next, hnext, hanswers⟩ := answers_enter hseed hplaces c text
    rw [Console.respond_typed hnext]
    exact hanswers

end

/-! ## Sessions -/

namespace Console

theorem Ending.after_after (a b : Shown) (e : Ending) :
    (e.after b).after a = e.after (a ++ b) := by
  unfold Ending.after
  rw [Shown.append_assoc]

/-- the end of a session: a new line, and the keys after the one by which it is left -/
def ended (last : Console × Shown) (keys : List Key) : Ending where
  outcome := .ok last.1
  shown := last.2 ++ ⟨"\n", ""⟩
  left := (keys.dropWhile (· ≠ .leave)).tail.length

theorem ended_cons {last : Console × Shown} {key : Key} {rest : List Key} (h : key ≠ .leave) :
    ended last (key :: rest) = ended last rest := by
  rw [ended, List.dropWhile_cons_of_pos (by simpa using h)]
  rfl

theorem ended_keys (last : Console × Shown) (ps : List Prompted) (rest : List Key) :
    ended last (ps.map Prompted.key ++ rest) = ended last rest := by
  induction ps with
  | nil => rfl
  | cons p ps ih =>
    have hkey : p.key ≠ .leave := mt press_eq_leaves.2 (by rw [press_key]; nofun)
    rw [List.map_cons, List.cons_append, ended_cons hkey, ih]

theorem next_answer {w : Surroundings}
    (hnext : ∀ c text, ∃ next, (enter w c text).next = .ok next) (c : Console) (p : Prompted) :
    ∃ next, (c.answer w p).next = .ok next := by
  cases p with
  | typed text =>
    rw [next_answer_typed]
    exact hnext c text
  | interrupted => exact ⟨c, rfl⟩

theorem sessionFrom_eq {w : Surroundings}
    (hnext : ∀ c text, ∃ next, (enter w c text).next = .ok next) (keys : List Key)
    (buffer : String) (c : Console) (shown : Shown) :
    (sessionFrom w c buffer keys).after shown =
      ended ((prompted buffer keys).foldl (advance w) (c, shown)) keys := by
  induction keys generalizing buffer c shown with
  | nil => rfl
  | cons key rest ih =>
    rw [sessionFrom, prompted]
    rcases hpress : press buffer key with buffer' | p | _
    · rw [ended_cons (mt press_eq_leaves.2 (by rw [hpress]; nofun))]
      exact ih buffer' c shown
    · obtain ⟨next, hstep⟩ := next_answer hnext c p
      dsimp only
      rw [hstep]
      dsimp only
      rw [ended_cons (mt press_eq_leaves.2 (by rw [hpress]; nofun)), Ending.after_after, ih,
        List.foldl_cons, advance_of_respond (respond_of_next hstep)]
    · obtain rfl := press_eq_leaves.1 hpress
      rfl

end Console

theorem Console.session_eq {w : Surroundings} {seed : Int} (hseed : w.settings.seed = some seed)
    (hplaces : w.settings.places ≤ mostPlaces) (strict : Option Bool) (input : List Char)
    (keys : List Key) : session w strict input keys =
      ended ((prompted "" keys).foldl (advance w)
        (⟨⟨strict, w.settings.trace⟩, input⟩, ⟨banner ++ promptText, ""⟩)) keys := by
  refine sessionFrom_eq (fun c text => ?_) keys "" _ _
  obtain ⟨next, hnext, _⟩ := answers_enter hseed hplaces c text
  exact ⟨next, hnext⟩

def Surroundings.traced (w : Surroundings) (trace : Bool) : Surroundings :=
  { w with settings := { w.settings with trace := trace } }

theorem runShown_traced (w : Surroundings) (trace : Bool) :
    runShown (w.traced trace) = runShown w := by
  have hpolicy : (w.traced trace).policy = w.policy := rfl
  have hgenerator : (w.traced trace).generator = w.generator := rfl
  have hquiet : (w.traced trace).settings.quiet = w.settings.quiet := rfl
  have hreport : reportFault (w.traced trace) = reportFault w := rfl
  unfold runShown
  rw [hpolicy, hgenerator, hquiet, hreport]

theorem Console.advance_traced (w : Surroundings) (trace : Bool) :
    advance (w.traced trace) = advance w := by
  have hclear : (w.traced trace).clearScreen = w.clearScreen := rfl
  have hecho : (w.traced trace).echo = w.echo := rfl
  have henter (c : Console) : c.enter (w.traced trace) = c.enter w := by
    unfold enter
    rw [hclear, runShown_traced]
  have hrespond (c : Console) : c.respond (w.traced trace) = c.respond w := by
    funext p
    cases p with
    | interrupted => rfl
    | typed text => rw [respond, respond, answer, answer, henter, hecho]
  unfold advance
  simp only [hrespond]

theorem Console.session_keys {w : Surroundings} {seed : Int} (hseed : w.settings.seed = some seed)
    (hplaces : w.settings.places ≤ mostPlaces) (strict : Option Bool) (input : List Char)
    (ps : List Prompted) {rest : List Key} (hrest : prompted "" rest = []) :
    session w strict input (ps.map Prompted.key ++ rest) =
      ended (ps.foldl (advance w)
        (⟨⟨strict, w.settings.trace⟩, input⟩, ⟨banner ++ promptText, ""⟩)) rest := by
  rw [session_eq hseed hplaces, prompted_keys, hrest, List.append_nil, ended_keys]

theorem Console.session_alone {w : Surroundings} {seed : Int} (hseed : w.settings.seed = some seed)
    (hplaces : w.settings.places ≤ mostPlaces) (c : Console) {p : Prompted} {key : Key}
    (hkey : prompted "" [key] = [p]) :
    session (w.traced c.switches.trace) c.switches.strict c.input [key] =
      ended (advance w (c, ⟨banner ++ promptText, ""⟩) p) [key] := by
  have htraced : (w.traced c.switches.trace).settings.seed = some seed := hseed
  rw [session_eq htraced hplaces, hkey, List.foldl_cons, List.foldl_nil, advance_traced]
  rfl

/-- **Entries do not touch one another.**  A session is the fold of its answers over what the prompt
gives, from its first switches and its input to the first key that leaves it, and the prompt can give
anything.  What is answered is determined by the switches and the rest of the input alone, and it is
what a session of its own would answer. -/
theorem entries_isolated {w : Surroundings} {seed : Int} (hseed : w.settings.seed = some seed)
    (hplaces : w.settings.places ≤ mostPlaces) :
    (∀ strict input keys, Console.session w strict input keys =
      Console.ended ((prompted "" keys).foldl (Console.advance w)
        (⟨⟨strict, w.settings.trace⟩, input⟩, ⟨Console.banner ++ Console.promptText, ""⟩)) keys) ∧
    (∀ strict input (ps : List Prompted),
      let last := ps.foldl (Console.advance w)
        (⟨⟨strict, w.settings.trace⟩, input⟩, ⟨Console.banner ++ Console.promptText, ""⟩)
      Console.session w strict input (ps.map Prompted.key) =
        ⟨.ok last.1, last.2 ++ ⟨"\n", ""⟩, 0⟩ ∧
      ∀ keys, Console.session w strict input (ps.map Prompted.key ++ .leave :: keys) =
        ⟨.ok last.1, last.2 ++ ⟨"\n", ""⟩, keys.length⟩) ∧
    (∀ c p, Answers w seed c p (c.respond w p)) ∧
    (∀ c text, isHeld text = false →
      Console.session (w.traced c.switches.trace) c.switches.strict c.input [.enter text] =
        Console.ended (Console.advance w (c, ⟨Console.banner ++ Console.promptText, ""⟩)
          (.typed text)) [.enter text]) ∧
    ∀ c p, Console.session (w.traced c.switches.trace) c.switches.strict c.input [p.key] =
      Console.ended (Console.advance w (c, ⟨Console.banner ++ Console.promptText, ""⟩) p) [p.key] := by
  refine ⟨Console.session_eq hseed hplaces, fun strict input ps => ⟨?_, fun keys => ?_⟩,
    answers_respond hseed hplaces, fun c text htext => ?_, fun c p => ?_⟩
  · have hnil : prompted "" [] = [] := rfl
    have hkeys := Console.session_keys hseed hplaces strict input ps hnil
    rwa [List.append_nil] at hkeys
  · exact Console.session_keys hseed hplaces strict input ps rfl
  · have hheld : isHeld ("" ++ text) = false := by rwa [String.empty_append]
    apply Console.session_alone hseed hplaces c
    rw [prompted, press_not_held hheld, String.empty_append]
    rfl
  · apply Console.session_alone hseed hplaces c
    rw [prompted, press_key]
    rfl

def seededSurroundings : Surroundings where
  settings := ⟨false, false, false, 6, some 1⟩
  chance := 0
  traceOf _ := ""
  clearScreen := ""
  echo _ := ""

def undefinedSource : String := "(neg\n  x)"

theorem parse_undefined : parseForm undefinedSource.toList = .ok (.call "neg" [.symbol "x"]) := by
  with_unfolding_all rfl

theorem runShown_undefined : runShown seededSurroundings ⟨some true, false⟩ undefinedSource [] =
    ⟨.ok false, ⟨"", "Error: Undefined symbol 'x'\n"⟩, [], false⟩ := by
  have hplanted : (plantSource undefinedSource).run.run ⟨.empty, []⟩ = (.ok ⟨1⟩,
      ⟨⟨#[⟨.symbol "x", none, some ⟨1⟩⟩,
        ⟨.call (.builtin .neg) none [.node ⟨0⟩] true, none, none⟩], #[], #[]⟩, []⟩) := by
    rw [plantSource_ok parse_undefined]
    rfl
  have hrun (g : Generator) : runSource (seededSurroundings.policy (some true)) undefinedSource [] g
      = ⟨.error (.unresolved "x"), [], "", []⟩ := by
    unfold runSource
    rw [hplanted]
    rfl
  unfold runShown
  simp only [hrun]
  rfl

theorem enter_undefined :
    Console.enter seededSurroundings ⟨⟨some true, false⟩, []⟩ undefinedSource =
      ⟨.ok ⟨⟨some true, false⟩, []⟩, ⟨"", "Error: Undefined symbol 'x'\n"⟩, false⟩ := by
  have hnormal : normalize undefinedSource = undefinedSource := by decide
  have hblank : (strip undefinedSource).isEmpty = false := by decide
  have hslash : slash seededSurroundings.clearScreen undefinedSource ⟨some true, false⟩ = none := by
    decide
  unfold Console.enter
  simp only [hnormal, hblank, hslash, runShown_undefined]
  rfl

theorem entries_isolated_seeded :
    seededSurroundings.settings.seed = some 1 ∧ seededSurroundings.settings.places ≤ mostPlaces ∧
    Console.session seededSurroundings none []
        [.enter "/strict on", .enter "(neg", .enter "x)", .interrupt, .leave, .enter "x"] =
      ⟨.ok ⟨⟨some true, false⟩, []⟩,
        ⟨Console.banner ++ "> Strict symbols: on\n> > KeyboardInterrupt\n> \n",
          "Error: Undefined symbol 'x'\n"⟩, 1⟩ := by
  refine ⟨rfl, by decide, ?_⟩
  have hprompted : prompted ""
      [.enter "/strict on", .enter "(neg", .enter "x)", .interrupt, .leave, .enter "x"] =
        [.typed "/strict on", .typed undefinedSource, .interrupted] := rfl
  have hstrict (shown : Shown) :
      Console.advance seededSurroundings (⟨⟨none, false⟩, []⟩, shown) (.typed "/strict on") =
        (⟨⟨some true, false⟩, []⟩, shown ++ (⟨"Strict symbols: on\n", ""⟩ ++ ⟨"> ", ""⟩)) :=
    Console.advance_of_respond rfl shown
  have hundefined (shown : Shown) :
      Console.advance seededSurroundings (⟨⟨some true, false⟩, []⟩, shown)
          (.typed undefinedSource) =
        (⟨⟨some true, false⟩, []⟩,
          shown ++ (⟨"", "Error: Undefined symbol 'x'\n"⟩ ++ ⟨"> ", ""⟩)) := by
    have hrespond := Console.respond_typed (congrArg Console.Step.next enter_undefined)
    rw [enter_undefined] at hrespond
    exact Console.advance_of_respond hrespond shown
  have huntraced : seededSurroundings.settings.trace = false := rfl
  rw [(entries_isolated (w := seededSurroundings) rfl (by decide)).1, hprompted, huntraced]
  simp only [List.foldl_cons, List.foldl_nil]
  rw [hstrict, hundefined]
  rfl

end Abacus
