import Abacus.Proofs.Evaluation.Parts
import Abacus.Proofs.Forms.Matching

/-!
# Names mapped to others

All names of a form are mapped to others, two of which may become one, as long as every name still
means what it meant: no other name that becomes the same one is bound before it.  Then the form has
the same value, and the faults and reports are the same with the names in them mapped.

* `Form.mapNames`, `Scene.mapNames`, `State.mapNames`   the names mapped;
* `Apart`, `Form.Clear`   no name is taken for another one;
* `Scene.find?_mapNames`  what a name means after the names are mapped;
* `Renames`               two computations do the same, but for the names;
* `renames_evalForm`      **a form with its names mapped has the same value**.
-/

namespace Abacus

open Run

/-! ## Mapping names -/

mutual

def Form.mapNames (φ : String → String) : Form → Form
  | .numeral kind text => .numeral kind text
  | .symbol name => .symbol (φ name)
  | .call name operands => .call (φ name) (Form.mapNamesAll φ operands)
  | .choice test ifTrue ifFalse =>
    .choice (test.mapNames φ) (ifTrue.mapNames φ) (ifFalse.mapNames φ)
  | .scoped definitions body =>
    .scoped (Definition.mapNamesAll φ definitions) (body.mapNames φ)

def Form.mapNamesAll (φ : String → String) : List Form → List Form
  | [] => []
  | form :: rest => form.mapNames φ :: Form.mapNamesAll φ rest

def Definition.mapNames (φ : String → String) : Definition → Definition
  | .value name body type => .value (φ name) (body.mapNames φ) type
  | .function name parameters body type =>
    .function (φ name) (parameters.map φ) (body.mapNames φ) type

def Definition.mapNamesAll (φ : String → String) : List Definition → List Definition
  | [] => []
  | d :: rest => d.mapNames φ :: Definition.mapNamesAll φ rest

end

def Scene.mapNames (φ : String → String) : Scene → Scene
  | .top => .top
  | .scope definitions finding around =>
    .scope (definitions.map (Definition.mapNames φ)) (finding.map φ) (around.mapNames φ)
  | .call arguments caller around =>
    .call (arguments.map fun a => (φ a.1, a.2.mapNames φ)) (caller.mapNames φ) (around.mapNames φ)

def Meaning.mapNames (φ : String → String) : Meaning → Meaning
  | .argument form caller => .argument (form.mapNames φ) (caller.mapNames φ)
  | .value body type busy inside => .value (body.mapNames φ) type busy (inside.mapNames φ)
  | .function parameters body type inside =>
    .function (parameters.map φ) (body.mapNames φ) type (inside.mapNames φ)

def Fault.mapNames (φ : String → String) : Fault → Fault
  | .notFunction name => .notFunction (φ name)
  | .notVariable name => .notVariable (φ name)
  | .tooFewArguments name expected count => .tooFewArguments (φ name) expected count
  | .unresolved name => .unresolved (φ name)
  | .circular name => .circular (φ name)
  | fault => fault

def Remark.mapNames (φ : String → String) : Remark → Remark
  | .undefinedSymbol name => .undefinedSymbol (φ name)
  | .undefinedFunction name => .undefinedFunction (φ name)
  | .surplusArguments name expected count => .surplusArguments (φ name) expected count
  | .repeatedParameter parameter name => .repeatedParameter (φ parameter) (φ name)
  | .conflictingDefinition name => .conflictingDefinition (φ name)
  | .precisionLoss amount name => .precisionLoss amount (φ name)
  | r => r

def Report.mapNames (φ : String → String) (r : Report) : Report := ⟨r.channel, r.remark.mapNames φ⟩

def State.mapNames (φ : String → String) (s : State) : State :=
  { s with reports := s.reports.map (Report.mapNames φ) }

def mapOutcome {α : Type} (φ : String → String) (o : Except Fault α × State) :
    Except Fault α × State :=
  (o.1.mapError (Fault.mapNames φ), o.2.mapNames φ)

section
variable {φ : String → String}

theorem Form.mapNamesAll_eq (forms : List Form) :
    Form.mapNamesAll φ forms = forms.map (Form.mapNames φ) := by
  induction forms with
  | nil => rfl
  | cons form rest ih => rw [Form.mapNamesAll, ih, List.map_cons]

theorem Definition.mapNamesAll_eq (definitions : List Definition) :
    Definition.mapNamesAll φ definitions = definitions.map (Definition.mapNames φ) := by
  induction definitions with
  | nil => rfl
  | cons d rest ih => rw [Definition.mapNamesAll, ih, List.map_cons]

@[simp] theorem Definition.name_mapNames (d : Definition) : (d.mapNames φ).name = φ d.name := by
  cases d <;> rfl

theorem Fault.mapNames_of_value {fault : Fault} (h : fault.category = .value) :
    fault.mapNames φ = fault := by
  cases fault <;> first | rfl | cases h

end

/-! ## Names kept apart -/

def Scene.frames : Scene → List (String → Prop)
  | .top => []
  | .scope definitions _ around => (· ∈ definitions.map (·.name)) :: around.frames
  | .call arguments _ around => (· ∈ arguments.map (·.1)) :: around.frames

/-- **A name is kept apart from the others**: no other name that becomes the same one is bound
before the name is, or together with it. -/
def Apart (φ : String → String) (x : String) : List (String → Prop) → Prop
  | [] => True
  | bound :: outer => (∀ y, bound y → φ y = φ x → y = x) ∧ (bound x ∨ Apart φ x outer)

mutual

/-- **No name of a form is taken for another one** inside some frames, and calls of built-in
operators stay such calls. -/
inductive Form.Clear (φ : String → String) : List (String → Prop) → Form → Prop
  | numeral {frames : List (String → Prop)} {kind : Kind} {text : List Char} :
      Form.Clear φ frames (.numeral kind text)
  | symbol {frames : List (String → Prop)} {name : String} : Apart φ name frames →
      Form.Clear φ frames (.symbol name)
  | call {frames : List (String → Prop)} {name : String} {operands : List Form} :
      Builtin.ofName? (φ name) = Builtin.ofName? name →
      (Builtin.ofName? name = none → Apart φ name frames) →
      (∀ form ∈ operands, form.Clear φ frames) → Form.Clear φ frames (.call name operands)
  | choice {frames : List (String → Prop)} {a b c : Form} : a.Clear φ frames → b.Clear φ frames →
      c.Clear φ frames → Form.Clear φ frames (.choice a b c)
  | scope {frames : List (String → Prop)} {definitions : List Definition} {body : Form} :
      (∀ d ∈ definitions, d.Clear φ ((· ∈ definitions.map (·.name)) :: frames)) →
      body.Clear φ ((· ∈ definitions.map (·.name)) :: frames) →
      Form.Clear φ frames (.scoped definitions body)

inductive Definition.Clear (φ : String → String) : List (String → Prop) → Definition → Prop
  | value {frames : List (String → Prop)} {name : String} {body : Form} {type : Option String} :
      body.Clear φ frames → Definition.Clear φ frames (.value name body type)
  | function {frames : List (String → Prop)} {name : String} {parameters : List String}
      {body : Form} {type : Option String} : body.Clear φ ((· ∈ parameters) :: frames) →
      Definition.Clear φ frames (.function name parameters body type)

end

inductive Scene.Clear (φ : String → String) : Scene → Prop
  | top : Scene.Clear φ .top
  | scope {definitions : List Definition} {finding : List String} {around : Scene} :
      (∀ d ∈ definitions, d.Clear φ ((· ∈ definitions.map (·.name)) :: around.frames)) →
      (∀ x ∈ finding, x ∈ definitions.map (·.name)) → around.Clear φ →
      Scene.Clear φ (.scope definitions finding around)
  | call {arguments : List (String × Form)} {caller around : Scene} :
      (∀ a ∈ arguments, a.2.Clear φ caller.frames) → caller.Clear φ → around.Clear φ →
      Scene.Clear φ (.call arguments caller around)

inductive Meaning.Clear (φ : String → String) : Meaning → Prop
  | argument {form : Form} {caller : Scene} : form.Clear φ caller.frames → caller.Clear φ →
      Meaning.Clear φ (.argument form caller)
  | value {body : Form} {type : Option String} {busy : Bool} {inside : Scene} :
      body.Clear φ inside.frames → inside.Clear φ →
      Meaning.Clear φ (.value body type busy inside)
  | function {parameters : List String} {body : Form} {type : Option String} {inside : Scene} :
      body.Clear φ ((· ∈ parameters) :: inside.frames) → inside.Clear φ →
      Meaning.Clear φ (.function parameters body type inside)

section
variable {φ : String → String} {S : Scene} {x : String}

theorem find_mapNames {definitions : List Definition}
    (h : ∀ y ∈ definitions.map (·.name), φ y = φ x → y = x) :
    (definitions.map (Definition.mapNames φ)).find? (·.name == φ x)
      = (definitions.find? (·.name == x)).map (Definition.mapNames φ) := by
  induction definitions with
  | nil => rfl
  | cons d rest ih =>
    rw [List.map_cons, List.forall_mem_cons] at h
    rw [List.map_cons, List.find?_cons, List.find?_cons, Definition.name_mapNames]
    by_cases hname : d.name = x
    · rw [beq_iff_eq.2 hname, beq_iff_eq.2 (congrArg φ hname), Option.map_some]
    · have hne : φ d.name ≠ φ x := fun heq => hname (h.1 heq)
      rw [beq_eq_false_iff_ne.2 hname, beq_eq_false_iff_ne.2 hne]
      exact ih h.2

theorem lookup_mapNames {arguments : List (String × Form)}
    (h : ∀ y ∈ arguments.map (·.1), φ y = φ x → y = x) :
    (arguments.map fun a => (φ a.1, a.2.mapNames φ)).lookup (φ x)
      = (arguments.lookup x).map (Form.mapNames φ) := by
  induction arguments with
  | nil => rfl
  | cons a rest ih =>
    obtain ⟨name, form⟩ := a
    rw [List.map_cons, List.forall_mem_cons] at h
    rw [List.map_cons, Env.lookup_cons, Env.lookup_cons]
    by_cases hname : x = name
    · rw [if_pos hname, if_pos (congrArg φ hname), Option.map_some]
    · have hne : φ x ≠ φ name := fun heq => hname (h.1 heq.symm).symm
      rw [if_neg hname, if_neg hne]
      exact ih h.2

theorem meaning_mapNames {definitions : List Definition} {finding : List String} {d : Definition}
    (h : ∀ y ∈ definitions.map (·.name), φ y = φ d.name → y = d.name)
    (hfinding : ∀ y ∈ finding, y ∈ definitions.map (·.name)) :
    (d.mapNames φ).meaning (definitions.map (Definition.mapNames φ)) (finding.map φ) (S.mapNames φ)
      = (d.meaning definitions finding S).mapNames φ := by
  cases d with
  | value name body type =>
    have hbusy : (finding.map φ).contains (φ name) = finding.contains name := by
      rw [Bool.eq_iff_iff, List.contains_iff_mem, List.contains_iff_mem, List.mem_map]
      constructor
      · intro ⟨y, hy, heq⟩
        have hname : y = name := h y (hfinding y hy) heq
        rwa [← hname]
      · exact fun hmem => ⟨name, hmem, rfl⟩
    simp only [Definition.mapNames, Definition.meaning, Meaning.mapNames, Scene.mapNames, hbusy,
      List.map_cons]
  | function name parameters body type => rfl

theorem clear_meaning {definitions : List Definition} {finding : List String} {d : Definition}
    (hd : d ∈ definitions)
    (hall : ∀ d ∈ definitions, d.Clear φ ((· ∈ definitions.map (·.name)) :: S.frames))
    (hfinding : ∀ y ∈ finding, y ∈ definitions.map (·.name)) (hS : S.Clear φ) :
    (d.meaning definitions finding S).Clear φ := by
  have hclear := hall d hd
  cases hclear with
  | value hbody =>
    refine .value hbody (.scope hall ?_ hS)
    exact List.forall_mem_cons.2 ⟨List.mem_map_of_mem hd, hfinding⟩
  | function hbody => exact .function hbody (.scope hall hfinding hS)

/-- **What a name means after the names are mapped**: the same with its names mapped. -/
theorem Scene.find?_mapNames (hS : S.Clear φ) (hx : Apart φ x S.frames) :
    (S.mapNames φ).find? (φ x) = (S.find? x).map (Meaning.mapNames φ) ∧
      ∀ m ∈ S.find? x, m.Clear φ := by
  induction hS with
  | top => exact ⟨rfl, fun m hm => by cases hm⟩
  | @scope definitions finding around hall hfinding haround ih =>
    obtain ⟨hapart, houter⟩ := hx
    rw [Scene.mapNames, Scene.find?, Scene.find?, find_mapNames hapart]
    rcases hfind : definitions.find? (·.name == x) with _ | d
    · rw [hfind]
      rw [List.find?_eq_none] at hfind
      refine ih (houter.resolve_left fun hmem => ?_)
      obtain ⟨d, hd, hname⟩ := List.mem_map.1 hmem
      exact hfind d hd (beq_iff_eq.2 hname)
    · have hname := List.find?_some hfind
      rw [hfind]
      rw [← beq_iff_eq.1 hname] at hapart
      refine ⟨congrArg some (meaning_mapNames hapart hfinding), fun m hm => ?_⟩
      cases hm
      exact clear_meaning (List.mem_of_find?_eq_some hfind) hall hfinding haround
  | @call arguments caller around hall hcaller _ _ ih =>
    obtain ⟨hapart, houter⟩ := hx
    rw [Scene.mapNames, Scene.find?, Scene.find?, lookup_mapNames hapart]
    rcases hlookup : arguments.lookup x with _ | form
    · exact ih (houter.resolve_left (lookup_eq_none.1 hlookup))
    · refine ⟨rfl, fun m hm => ?_⟩
      cases hm
      obtain ⟨before, after, heq, _⟩ := List.lookup_eq_some_iff.1 hlookup
      refine .argument (hall (x, form) ?_) hcaller
      rw [heq]
      exact List.mem_append_right before List.mem_cons_self

end

/-! ## Doing the same but for the names -/

/-- **Two computations do the same**, but for the names in faults and reports. -/
def Renames {α : Type} (φ : String → String) (x y : Run α) : Prop :=
  ∀ s, y.result (s.mapNames φ) = mapOutcome φ (x.result s)

section
variable {φ : String → String} {α β : Type} {env : Env}

theorem renames_bind {x y : Run α} {k l : α → Run β} (hx : Renames φ x y)
    (hk : ∀ a, Renames φ (k a) (l a)) : Renames φ (x >>= k) (y >>= l) := by
  intro s
  have h := hx s
  rcases hresult : x.result s with ⟨fault | a, t⟩
  · rw [hresult] at h
    rw [result_bind_error hresult, result_bind_error h]
    rfl
  · rw [hresult] at h
    rw [result_bind_ok hresult, result_bind_ok h]
    exact hk a t

theorem renames_pure (a : α) : Renames φ (pure a) (pure a) := fun _ => rfl

theorem renames_throw (fault : Fault) :
    Renames φ (throw fault : Run α) (throw (fault.mapNames φ)) := fun _ => rfl

theorem renames_except {x : Except Fault α}
    (h : ∀ fault, x = .error fault → fault.mapNames φ = fault) :
    Renames φ (liftM x : Run α) (liftM x) := by
  cases x with
  | error fault =>
    have hthrow := renames_throw (φ := φ) (α := α) fault
    rwa [h fault rfl] at hthrow
  | ok a => exact renames_pure a

theorem renames_report (r : Remark) : Renames φ (report env r) (report env (r.mapNames φ)) := by
  intro s
  rw [result_report, result_report]
  simp [mapOutcome, State.mapNames, Except.mapError, Report.mapNames]

theorem renames_write (text : String) : Renames φ (write text) (write text) := fun _ => rfl

theorem renames_unresolved {name : String} {r : Remark} :
    Renames φ (unresolved env name r) (unresolved env (φ name) (r.mapNames φ)) := by
  unfold unresolved
  split
  · exact renames_throw _
  · exact renames_bind (renames_report r) fun _ => renames_pure none

theorem renames_coerce (kind : Option Kind) (name : String) (value : Value) :
    Renames φ (coerce env kind name value) (coerce env kind (φ name) value) := by
  unfold coerce
  split
  · split
    · exact renames_pure _
    · split
      · exact renames_bind (renames_report _) fun _ => renames_pure _
      · exact renames_bind (renames_pure ()) fun _ => renames_pure _
  · exact renames_pure _

theorem renames_checkArguments (name : String) (expected count : Nat) :
    Renames φ (checkArguments env name expected count)
      (checkArguments env (φ name) expected count) := by
  unfold checkArguments
  split
  · exact renames_throw _
  · split
    · exact renames_report _
    · exact renames_pure ()

theorem renames_readNumber : Renames φ (readNumber env) (readNumber env) := by
  intro s
  have hrefused (lines : List (List Char)) :
      (refusals env lines).map (Report.mapNames φ) = refusals env lines := by
    rw [refusals, List.map_map]
    rfl
  have hreports (reports : Array Report) (lines : List (List Char)) :
      (reports ++ refusals env lines).map (Report.mapNames φ)
        = reports.map (Report.mapNames φ) ++ refusals env lines := by
    refine Array.toList_inj.1 ?_
    simp [hrefused]
  rw [result_readNumber, result_readNumber]
  refine Prod.ext ?_ ?_
  · cases h : (awaitNumber s.input).amount with
    | none => simp [mapOutcome, State.mapNames, h, Except.mapError, Fault.mapNames]
    | some amount => simp [mapOutcome, State.mapNames, h, Except.mapError]
  · simp only [mapOutcome, State.mapNames, hreports]

theorem renames_applyBuiltin (b : Builtin) (args : List Number) :
    Renames φ (applyBuiltin b env args) (applyBuiltin b env args) := by
  unfold applyBuiltin
  split
  · exact renames_readNumber
  · refine renames_bind ?_ fun amount => renames_pure _
    intro s
    rw [result_draw, result_draw]
    rfl
  · split
    · next rule _ =>
      refine renames_bind (renames_except ?_) fun _ => renames_pure _
      intro fault hfault
      rcases Rule.apply_eq_error hfault with rfl | ⟨refusal, rfl⟩
      · rfl
      · rfl
    · exact renames_pure none

end

/-! ## Values -/

/-- evaluators do the same but for the names, for all forms and scenes in which names are clear -/
def Echoes (φ : String → String) (ev ev' : FormEvaluator) : Prop :=
  ∀ form S, form.Clear φ S.frames → S.Clear φ →
    Renames φ (ev form S) (ev' (form.mapNames φ) (S.mapNames φ))

section
variable {φ : String → String} {p : Policy} {ev ev' : FormEvaluator} {S : Scene} {name : String}
  {operands : List Form}

theorem renames_symbolValue (hev : Echoes φ ev ev') (hS : S.Clear φ)
    (hname : Apart φ name S.frames) :
    Renames φ (symbolValue p ev S name) (symbolValue p ev' (S.mapNames φ) (φ name)) := by
  obtain ⟨hfind, hclear⟩ := Scene.find?_mapNames hS hname
  unfold symbolValue
  rw [hfind]
  rcases hm : S.find? name with _ | m
  · exact renames_unresolved
  · have hm := hclear m hm
    cases hm with
    | argument hform hcaller => exact hev _ _ hform hcaller
    | value hbody hinside =>
      refine renames_bind ?_ fun value => renames_coerce _ _ value
      split
      · exact renames_throw _
      · exact hev _ _ hbody hinside
    | function _ _ => exact renames_throw _

theorem pairArguments_mapNames (parameters : List String) (operands : List Form) :
    pairArguments (parameters.map φ) (operands.map (Form.mapNames φ))
      = (pairArguments parameters operands).map fun a => (φ a.1, a.2.mapNames φ) := by
  unfold pairArguments
  rw [List.map_reverse, List.zip_map]
  rfl

theorem renames_callValue (hev : Echoes φ ev ev') (hS : S.Clear φ)
    (hname : Apart φ name S.frames) (hoperands : ∀ form ∈ operands, form.Clear φ S.frames) :
    Renames φ (callValue p ev S name operands)
      (callValue p ev' (S.mapNames φ) (φ name) (operands.map (Form.mapNames φ))) := by
  obtain ⟨hfind, hclear⟩ := Scene.find?_mapNames hS hname
  unfold callValue
  rw [hfind]
  rcases hm : S.find? name with _ | m
  · exact renames_unresolved
  · have hm := hclear m hm
    cases hm with
    | argument _ _ => exact renames_throw _
    | value _ _ => exact renames_throw _
    | @function parameters body type inside hbody hinside =>
      simp only [Option.map_some, Meaning.mapNames, List.length_map]
      by_cases hfew : operands.length < parameters.length
      · unfold checkArguments
        rw [if_pos hfew, if_pos hfew]
        exact renames_throw (.tooFewArguments name _ _)
      · have harguments : ∀ a ∈ pairArguments parameters operands, a.2.Clear φ S.frames :=
          fun a ha => hoperands a.2 (List.of_mem_zip (List.mem_reverse.1 ha)).2
        refine renames_bind (renames_checkArguments _ _ _) fun _ =>
          renames_bind ?_ fun value => renames_coerce _ _ value
        have hvalue := hev body (.call (pairArguments parameters operands) S inside)
          (by rwa [Scene.frames, bound_pairArguments hfew]) (.call harguments hS hinside)
        rwa [Scene.mapNames, ← pairArguments_mapNames] at hvalue

theorem renames_operandValues (hev : Echoes φ ev ev') (hS : S.Clear φ)
    (hoperands : ∀ form ∈ operands, form.Clear φ S.frames) :
    Renames φ (operandValues ev S operands)
      (operandValues ev' (S.mapNames φ) (operands.map (Form.mapNames φ))) := by
  induction operands with
  | nil => exact renames_pure _
  | cons form rest ih =>
    obtain ⟨hform, hrest⟩ := List.forall_mem_cons.1 hoperands
    exact renames_bind (hev form S hform hS) fun value =>
      renames_bind (ih hrest) fun values => renames_pure _

theorem renames_printedValue (hev : Echoes φ ev ev') (hS : S.Clear φ)
    (hoperands : ∀ form ∈ operands, form.Clear φ S.frames) (last : Value) :
    Renames φ (printedValue p ev S last operands)
      (printedValue p ev' (S.mapNames φ) last (operands.map (Form.mapNames φ))) := by
  induction operands generalizing last with
  | nil => exact renames_pure _
  | cons form rest ih =>
    obtain ⟨hform, hrest⟩ := List.forall_mem_cons.1 hoperands
    refine renames_bind (hev form S hform hS) fun value => renames_bind ?_ fun text =>
      renames_bind (renames_write _) fun _ => ih hrest value
    exact renames_except fun fault hfault => Fault.mapNames_of_value (category_of_render hfault)

theorem renames_builtinValue (hev : Echoes φ ev ev') (hS : S.Clear φ)
    (hoperands : ∀ form ∈ operands, form.Clear φ S.frames) (b : Builtin) :
    Renames φ (builtinValue p ev S b operands)
      (builtinValue p ev' (S.mapNames φ) b (operands.map (Form.mapNames φ))) := by
  unfold builtinValue
  split
  · exact renames_printedValue hev hS hoperands none
  · refine renames_bind ?_ fun values => ?_
    · cases b.arity.most? with
      | none => exact renames_operandValues hev hS hoperands
      | some most =>
        rw [Option.map_some, Option.map_some, Option.getD_some, Option.getD_some, ← List.map_take]
        exact renames_operandValues hev hS fun form hform =>
          hoperands form (List.mem_of_mem_take hform)
    · cases present? values with
      | none => exact renames_pure none
      | some args => exact renames_applyBuiltin b args

theorem renames_choiceValue (hev : Echoes φ ev ev') (hS : S.Clear φ) {a b c : Form}
    (ha : a.Clear φ S.frames) (hb : b.Clear φ S.frames) (hc : c.Clear φ S.frames) :
    Renames φ (choiceValue ev S a b c)
      (choiceValue ev' (S.mapNames φ) (a.mapNames φ) (b.mapNames φ) (c.mapNames φ)) := by
  refine renames_bind (hev a S ha hS) ?_
  intro value
  cases value with
  | none => exact renames_pure none
  | some v =>
    dsimp only
    split
    · exact hev c S hc hS
    · exact hev b S hb hS

theorem renames_formValue (hev : Echoes φ ev ev') :
    Echoes φ (formValue p ev) (formValue p ev') := by
  intro form
  induction form using Form.bodyInduction with
  | numeral kind text => exact fun S _ _ => renames_pure _
  | symbol name =>
    intro S hform hS
    cases hform with
    | symbol hname => exact renames_symbolValue hev hS hname
  | call name operands _ =>
    intro S hform hS
    cases hform with
    | call hsame hname hoperands =>
      rw [Form.mapNames, Form.mapNamesAll_eq]
      unfold formValue
      rw [hsame]
      rcases hop : Builtin.ofName? name with _ | b
      · exact renames_callValue hev hS (hname hop) hoperands
      · exact renames_builtinValue hev hS hoperands b
  | choice a b c _ _ _ =>
    intro S hform hS
    cases hform with
    | choice ha hb hc => exact renames_choiceValue hev hS ha hb hc
  | scope definitions body ih =>
    intro S hform hS
    cases hform with
    | scope hall hbody =>
      have hvalue := ih (.scope definitions [] S) hbody (.scope hall (fun x hx => by cases hx) hS)
      rw [Form.mapNames, Definition.mapNamesAll_eq]
      exact hvalue

/-- **A form with its names mapped has the same value**, and faults and reports are the same with
the names in them mapped. -/
theorem renames_evalForm (limit : Nat) : Echoes φ (evalForm p limit) (evalForm p limit) := by
  induction limit with
  | zero => exact fun _ _ _ _ => renames_throw .tooDeep
  | succ limit ih => exact renames_formValue ih

end

end Abacus
