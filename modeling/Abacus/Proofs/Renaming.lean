import Abacus.Proofs.Forms.Depiction
import Abacus.Proofs.Forms.Replacing
import Abacus.Proofs.Source.Reporting

/-!
# Renaming

The names of a scope or the parameters of a function can be changed, together with the symbols and
calls that refer to them, to a name that occurs nowhere else: the program does the same, and its
faults and reports are the same but for the new name.

* `Renaming`           a name changed where it is bound, in one scope or one function;
* `mapNames_renaming`  it is changed back when the new name is replaced everywhere;
* `renaming_again`     it is changed to any other one from there;
* `clear_renaming`     no name is taken for another one then;
* `planted_renaming`   a program with a name changed has a tree;
* `alpha_renaming`     **a program with a name changed does the same**.
-/

namespace Abacus

/-- **A name changed where it is bound**, to any other one: all definitions of the name in one
scope, or a parameter of one function, with the occurrences that refer to them -/
inductive Renaming (old : String) : Form → (String → Form) → Prop
  | scope {definitions : List Definition} {body : Form} : old ∈ definitions.map (·.name) →
      Renaming old (.scoped definitions body) fun new =>
        .scoped (definitions.map (Definition.rebind old new)) (body.rename old new)
  | parameter {before after : List Definition} {name : String} {parameters : List String}
      {body : Form} {type : Option String} {around : Form} : old ∈ parameters →
      Renaming old (.scoped (before ++ .function name parameters body type :: after) around)
        fun new => .scoped (before ++ .function name (parameters.map (replaceName old new))
          (body.rename old new) type :: after) around

section
variable {old new : String} {form : Form} {renamed : String → Form}
  {frames : List (String → Prop)}

/-! ## Changing it back -/

theorem mapNames_place {before after : List Definition} {d d' : Definition} {body : Form}
    (hnew : new ∉ (Form.scoped (before ++ d :: after) body).names)
    (h : d'.mapNames (replaceName new old) = d) :
    (Form.scoped (before ++ d' :: after) body).mapNames (replaceName new old)
      = .scoped (before ++ d :: after) body := by
  have hself : (Form.scoped (before ++ d :: after) body).mapNames (replaceName new old)
      = .scoped (before ++ d :: after) body := mapNames_self.1 _ hnew
  have hd : d.mapNames (replaceName new old) = d := mapNames_self.2 d (new_place hnew)
  rw [Form.mapNames, Definition.mapNamesAll_eq, List.map_append, List.map_cons, hd] at hself
  rw [Form.mapNames, Definition.mapNamesAll_eq, List.map_append, List.map_cons, h]
  exact hself

/-- **A renaming is taken back** by changing the new name to the old one everywhere. -/
theorem mapNames_renaming (h : Renaming old form renamed) (hnew : new ∉ form.names) :
    (renamed new).mapNames (replaceName new old) = form := by
  cases h with
  | @scope definitions body hold =>
    obtain ⟨hds, hbody⟩ := new_scope.1 hnew
    have hback : definitions.map (Definition.mapNames (replaceName new old) ∘
        Definition.rebind old new) = definitions :=
      map_eq_self fun d hd => mapNames_rebind (hds d hd)
    rw [Form.mapNames, Definition.mapNamesAll_eq, List.map_map, hback, mapNames_rename.1 body hbody]
  | @parameter before after name parameters body type around hold =>
    obtain ⟨hname, hparameters, hbody⟩ := new_function.1 (new_place hnew)
    have hback : parameters.map (replaceName new old ∘ replaceName old new) = parameters :=
      map_eq_self fun y hy => replaceName_back fun heq => hparameters (heq ▸ hy)
    refine mapNames_place hnew ?_
    rw [Definition.mapNames, replaceName_of_ne hname.symm, List.map_map, hback,
      mapNames_rename.1 body hbody]

theorem mapNames_fill {form' : Form}
    (h : new ∉ form.names → form'.mapNames (replaceName new old) = form)
    (around : Context) (hnew : new ∉ (around.fill form).names) :
    (around.fill form').mapNames (replaceName new old) = around.fill form := by
  have hself {form : Form} (h : new ∉ form.names) :
      form.mapNames (replaceName new old) = form := mapNames_self.1 form h
  induction around with
  | hole => exact h hnew
  | operand name before inside after ih =>
    obtain ⟨hname, hoperands⟩ := new_call.1 hnew
    obtain ⟨hbefore, hrest⟩ := List.forall_mem_append.1 hoperands
    obtain ⟨hinside, hafter⟩ := List.forall_mem_cons.1 hrest
    have hforms {forms : List Form} (h : ∀ form ∈ forms, new ∉ form.names) :
        forms.map (Form.mapNames (replaceName new old)) = forms :=
      map_eq_self fun form hform => hself (h form hform)
    rw [Context.fill, Form.mapNames, Form.mapNamesAll_eq, List.map_append, List.map_cons,
      hforms hbefore, hforms hafter, ih hinside, replaceName_of_ne hname.symm, Context.fill]
  | test inside b c ih =>
    obtain ⟨ha, hb, hc⟩ := new_choice.1 hnew
    rw [Context.fill, Form.mapNames, ih ha, hself hb, hself hc, Context.fill]
  | ifTrue a inside c ih =>
    obtain ⟨ha, hb, hc⟩ := new_choice.1 hnew
    rw [Context.fill, Form.mapNames, hself ha, ih hb, hself hc, Context.fill]
  | ifFalse a b inside ih =>
    obtain ⟨ha, hb, hc⟩ := new_choice.1 hnew
    rw [Context.fill, Form.mapNames, hself ha, hself hb, ih hc, Context.fill]
  | value before name inside type after body ih =>
    obtain ⟨hname, hinside⟩ := new_value.1 (new_place hnew)
    refine mapNames_place hnew ?_
    rw [Definition.mapNames, replaceName_of_ne hname.symm, ih hinside]
  | function before name parameters inside type after body ih =>
    obtain ⟨hname, hparameters, hinside⟩ := new_function.1 (new_place hnew)
    refine mapNames_place hnew ?_
    rw [Definition.mapNames, replaceName_of_ne hname.symm, ih hinside, map_replaceName hparameters]
  | body definitions inside ih =>
    obtain ⟨hds, hinside⟩ := new_scope.1 hnew
    rw [Context.fill, Form.mapNames, Definition.mapNamesAll_eq, ih hinside, Context.fill,
      map_eq_self fun d hd => mapNames_self.2 d (hds d hd)]

/-! ## Changing it once more -/

/-- **A renaming goes on** to any other name: what the new name refers to is what was changed. -/
theorem renaming_again (h : Renaming old form renamed) (hnew : new ∉ form.names)
    (hop : Builtin.ofName? new = none) : Renaming new (renamed new) renamed := by
  cases h with
  | @scope definitions body hold =>
    obtain ⟨hds, hbody⟩ := new_scope.1 hnew
    have hmem : new ∈ (definitions.map (Definition.rebind old new)).map (·.name) := by
      rw [names_rebind]
      exact List.mem_map.2 ⟨old, hold, replaceName_self⟩
    have hagain : (fun y => Form.scoped (definitions.map (Definition.rebind old y))
        (body.rename old y)) = fun y => .scoped ((definitions.map (Definition.rebind old new)).map
          (Definition.rebind new y)) ((body.rename old new).rename new y) := by
      funext y
      rw [List.map_map, (rename_rename hop y).1 body hbody]
      exact congrArg (Form.scoped · _)
        (List.map_congr_left fun d hd => (rebind_rebind hop y (hds d hd)).symm)
    have hscope : Renaming new (.scoped (definitions.map (Definition.rebind old new))
        (body.rename old new)) _ := .scope hmem
    rwa [← hagain] at hscope
  | @parameter before after name parameters body type around hold =>
    obtain ⟨_, hparameters, hbody⟩ := new_function.1 (new_place hnew)
    have hmem : new ∈ parameters.map (replaceName old new) :=
      List.mem_map.2 ⟨old, hold, replaceName_self⟩
    have hagain : (fun y => Form.scoped (before ++ .function name
          (parameters.map (replaceName old y)) (body.rename old y) type :: after) around)
        = fun y => .scoped (before ++ .function name
          ((parameters.map (replaceName old new)).map (replaceName new y))
          ((body.rename old new).rename new y) type :: after) around := by
      funext y
      have hparameters' : parameters.map (replaceName new y ∘ replaceName old new)
          = parameters.map (replaceName old y) :=
        List.map_congr_left fun z hz => replaceName_again fun heq => hparameters (heq ▸ hz)
      rw [List.map_map, hparameters', (rename_rename hop y).1 body hbody]
    have hscope : Renaming new (.scoped (before ++ .function name
        (parameters.map (replaceName old new)) (body.rename old new) type :: after) around) _ :=
      .parameter hmem
    rwa [← hagain] at hscope

/-! ## Names kept apart -/

theorem clear_place {before after : List Definition} {d d' : Definition} {body : Form}
    (hnew : new ∉ (Form.scoped (before ++ d :: after) body).names) (hname : d'.name = d.name)
    (hold : Apart (replaceName new old) old frames)
    (h : ∀ frames, Apart (replaceName new old) old frames → d'.Clear (replaceName new old) frames) :
    (Form.scoped (before ++ d' :: after) body).Clear (replaceName new old) frames := by
  obtain ⟨hds, hbody⟩ := new_scope.1 hnew
  obtain ⟨hbefore, hrest⟩ := List.forall_mem_append.1 hds
  obtain ⟨_, hafter⟩ := List.forall_mem_cons.1 hrest
  have hnames : (before ++ d' :: after).map (·.name) = (before ++ d :: after).map (·.name) := by
    rw [List.map_append, List.map_append, List.map_cons, List.map_cons, hname]
  have hinside : Apart (replaceName new old) old
      ((· ∈ (before ++ d :: after).map (·.name)) :: frames) :=
    apart_old (new_names hds) (Or.inr hold)
  rw [← hnames] at hinside
  refine .scope ?_ (clear_old.1 body _ hbody hinside)
  refine List.forall_mem_append.2 ⟨?_, List.forall_mem_cons.2 ⟨h _ hinside, ?_⟩⟩
  · exact fun d hd => clear_old.2 d _ (hbefore d hd) hinside
  · exact fun d hd => clear_old.2 d _ (hafter d hd) hinside

/-- **A renaming keeps the names apart.** -/
theorem clear_renaming (hop : Builtin.ofName? new = none) (h : Renaming old form renamed)
    (hnew : new ∉ form.names) (hold : Apart (replaceName new old) old frames) :
    (renamed new).Clear (replaceName new old) frames := by
  cases h with
  | @scope definitions body hmem =>
    obtain ⟨hds, hbody⟩ := new_scope.1 hnew
    have hinside : Apart (replaceName new old) new
        ((· ∈ (definitions.map (Definition.rebind old new)).map (·.name)) :: frames) := by
      rw [names_rebind]
      exact apart_replaced hmem (new_names hds)
    refine .scope ?_ ((clear_rename hop).1 body _ hbody hinside)
    refine List.forall_mem_map.2 fun d hd => ?_
    exact clear_named ((clear_rename hop).2 d _ (hds d hd) hinside) _
  | @parameter before after name parameters body type around hmem =>
    obtain ⟨_, hparameters, hbody⟩ := new_function.1 (new_place hnew)
    refine clear_place hnew rfl hold fun frames _ => .function ?_
    exact (clear_rename hop).1 body _ hbody (apart_replaced hmem hparameters)

theorem clear_fill {form' : Form}
    (h : ∀ frames, new ∉ form.names → Apart (replaceName new old) old frames →
      form'.Clear (replaceName new old) frames) (around : Context)
    (hnew : new ∉ (around.fill form).names) (hold : Apart (replaceName new old) old frames) :
    (around.fill form').Clear (replaceName new old) frames := by
  induction around generalizing frames with
  | hole => exact h frames hnew hold
  | operand name before inside after ih =>
    obtain ⟨hname, hoperands⟩ := new_call.1 hnew
    obtain ⟨hbefore, hrest⟩ := List.forall_mem_append.1 hoperands
    obtain ⟨hinside, hafter⟩ := List.forall_mem_cons.1 hrest
    refine .call (by rw [replaceName_of_ne hname.symm]) (fun _ => ?_) ?_
    · by_cases heq : name = old
      · rwa [heq]
      · exact apart_other heq hname.symm
    · refine List.forall_mem_append.2 ⟨?_, List.forall_mem_cons.2 ⟨ih hinside hold, ?_⟩⟩
      · exact fun form hform => clear_old.1 form _ (hbefore form hform) hold
      · exact fun form hform => clear_old.1 form _ (hafter form hform) hold
  | test inside b c ih =>
    obtain ⟨ha, hb, hc⟩ := new_choice.1 hnew
    exact .choice (ih ha hold) (clear_old.1 b _ hb hold) (clear_old.1 c _ hc hold)
  | ifTrue a inside c ih =>
    obtain ⟨ha, hb, hc⟩ := new_choice.1 hnew
    exact .choice (clear_old.1 a _ ha hold) (ih hb hold) (clear_old.1 c _ hc hold)
  | ifFalse a b inside ih =>
    obtain ⟨ha, hb, hc⟩ := new_choice.1 hnew
    exact .choice (clear_old.1 a _ ha hold) (clear_old.1 b _ hb hold) (ih hc hold)
  | value before name inside type after body ih =>
    obtain ⟨_, hinside⟩ := new_value.1 (new_place hnew)
    refine clear_place hnew rfl hold fun frames hframes => .value ?_
    exact ih hinside hframes
  | function before name parameters inside type after body ih =>
    obtain ⟨_, hparameters, hinside⟩ := new_function.1 (new_place hnew)
    refine clear_place hnew rfl hold fun frames hframes => .function ?_
    exact ih hinside (apart_old hparameters (Or.inr hframes))
  | body definitions inside ih =>
    obtain ⟨hds, hinside⟩ := new_scope.1 hnew
    have hbound : Apart (replaceName new old) old ((· ∈ definitions.map (·.name)) :: frames) :=
      apart_old (new_names hds) (Or.inr hold)
    exact .scope (fun d hd => clear_old.2 d _ (hds d hd) hbound) (ih hinside hbound)

/-! ## In a program -/

theorem lacks_mapNames {φ : String → String} {b : Builtin} {n : Nat} :
    (∀ form : Form, ∀ frames, form.Clear φ frames → form.Lacks b n → (form.mapNames φ).Lacks b n) ∧
    ∀ d : Definition, ∀ frames, d.Clear φ frames → d.Lacks b n → (d.mapNames φ).Lacks b n := by
  refine Form.induction ?_ ?_ ?_ ?_ ?_ ?_ ?_
  · intro kind text frames _ hlacks
    cases hlacks
  · intro name frames _ hlacks
    cases hlacks
  · intro name operands ih frames hclear hlacks
    cases hclear with
    | call hsame _ hall =>
      rw [Form.mapNames, Form.mapNamesAll_eq]
      cases hlacks with
      | here hname hlt =>
        rw [← List.length_map (Form.mapNames φ)] at hlt ⊢
        exact .here (hsame.trans hname) hlt
      | operand hform hlacks =>
        exact .operand (List.mem_map_of_mem hform) (ih _ hform frames (hall _ hform) hlacks)
  · intro x y z ihx ihy ihz frames hclear hlacks
    cases hclear with
    | choice hx hy hz =>
      cases hlacks with
      | test hlacks => exact .test (ihx frames hx hlacks)
      | ifTrue hlacks => exact .ifTrue (ihy frames hy hlacks)
      | ifFalse hlacks => exact .ifFalse (ihz frames hz hlacks)
  · intro definitions body ihds ihbody frames hclear hlacks
    cases hclear with
    | scope hds hbody =>
      rw [Form.mapNames, Definition.mapNamesAll_eq]
      cases hlacks with
      | definition hd hlacks =>
        exact .definition (List.mem_map_of_mem hd) (ihds _ hd _ (hds _ hd) hlacks)
      | body hlacks => exact .body (ihbody _ hbody hlacks)
  · intro name body type ih frames hclear hlacks
    cases hclear with
    | value hbody =>
      cases hlacks with
      | value hlacks => exact .value (ih frames hbody hlacks)
  · intro name parameters body type ih frames hclear hlacks
    cases hclear with
    | function hbody =>
      cases hlacks with
      | function hlacks => exact .function (ih _ hbody hlacks)

/-- **A program with a name changed has a tree** if the program has one. -/
theorem planted_renaming (h : Renaming old form renamed) (around : Context)
    (hnew : new ∉ (around.fill form).names) (hop : Builtin.ofName? new = none)
    (hample : (around.fill form).Ample) :
    ∃ root d, (plantForm (around.fill (renamed new))).run.run ⟨.empty, []⟩ = (.ok root, d) ∧
      d.forest.Whole root (around.fill (renamed new)) := by
  have hclear : (around.fill (renamed new)).Clear (replaceName new old) [] :=
    clear_fill (fun _ => clear_renaming hop h) around hnew trivial
  rcases plantForm_cases (around.fill (renamed new)) with ⟨_, hplanted⟩ | ⟨b, n, _, hlacks, _⟩
  · exact hplanted
  · have hback := lacks_mapNames.1 _ [] hclear hlacks
    rw [mapNames_fill (mapNames_renaming h) around hnew] at hback
    exact absurd hback (hample b n)

theorem new_of_fill (around : Context) (h : new ∉ (around.fill form).names) :
    new ∉ form.names := by
  induction around with
  | hole => exact h
  | operand name before inside after ih =>
    exact ih ((new_call.1 h).2 _ (List.mem_append_right before List.mem_cons_self))
  | test inside b c ih => exact ih (new_choice.1 h).1
  | ifTrue a inside c ih => exact ih (new_choice.1 h).2.1
  | ifFalse a b inside ih => exact ih (new_choice.1 h).2.2
  | value before name inside type after body ih => exact ih (new_value.1 (new_place h)).2
  | function before name parameters inside type after body ih =>
    exact ih (new_function.1 (new_place h)).2.2
  | body definitions inside ih => exact ih (new_scope.1 h).2

/-- a program and the same with its names mapped end in the same way, but for the names -/
theorem outcome_mapNames {φ : String → String} (hclear : form.Clear φ []) {f f' : Forest}
    {root root' : NodeId} (hf : f.Whole root form) (hf' : f'.Whole root' (form.mapNames φ))
    {p : Policy} (hguard : p.guarded = true) (input : List Char) (generator : Generator)
    (limit : Nat) : (Visit.start limit (.node root') p input generator).outcome f'
      = mapOutcome φ ((Visit.start limit (.node root) p input generator).outcome f) := by
  let start := (State.start input generator).bare
  have hstart : start.mapNames φ = start := by
    simp [start, State.mapNames, State.bare, State.start]
  have hrenames := renames_evalForm (p := p) limit form .top hclear .top start
  rw [hstart] at hrenames
  rw [outcome_of_whole hf hguard, outcome_of_whole hf' hguard]
  exact hrenames

theorem outcome_renaming (h : Renaming old form renamed) (around : Context)
    (hnew : new ∉ (around.fill form).names) (hop : Builtin.ofName? new = none) {f f' : Forest}
    {root root' : NodeId} (hf : f.Whole root (around.fill form))
    (hf' : f'.Whole root' (around.fill (renamed new))) {p : Policy} (hguard : p.guarded = true)
    (input : List Char) (generator : Generator) (limit : Nat) :
    (Visit.start limit (.node root) p input generator).outcome f
      = mapOutcome (replaceName new old)
        ((Visit.start limit (.node root') p input generator).outcome f') := by
  have hclear : (around.fill (renamed new)).Clear (replaceName new old) [] :=
    clear_fill (fun _ => clear_renaming hop h) around hnew trivial
  refine outcome_mapNames hclear hf' ?_ hguard input generator limit
  rwa [mapNames_fill (mapNames_renaming h) around hnew]

/-- **A program stays the same when a name in it is changed** to one that does not occur in it and
is not that of a built-in operator: trees that stand for both programs end with the same value or
with the same fault, and have read, printed, drawn and reported the same, if in faults and reports
the new name is read as the old one.  Where it stands there does not depend on the new name: with
another name in the program, as a mark, they are the same if the mark is read as the new name. -/
theorem alpha_renaming (h : Renaming old form renamed) (around : Context)
    (hnew : new ∉ (around.fill form).names) (hop : Builtin.ofName? new = none) {f f' : Forest}
    {root root' : NodeId} (hf : f.Whole root (around.fill form))
    (hf' : f'.Whole root' (around.fill (renamed new))) (policy : Policy) (input : List Char)
    (generator : Generator) (limit : Nat) :
    let guarded := { policy with guarded := true }
    let outcome (f : Forest) (root : NodeId) :=
      (Visit.start limit (.node root) guarded input generator).outcome f
    outcome f root = mapOutcome (replaceName new old) (outcome f' root') ∧
      ∀ mark, mark ∉ (around.fill form).names → mark ≠ new → Builtin.ofName? mark = none →
        ∀ marked start, marked.Whole start (around.fill (renamed mark)) →
          outcome f' root' = mapOutcome (replaceName mark new) (outcome marked start) := by
  intro guarded outcome
  refine ⟨outcome_renaming h around hnew hop hf hf' rfl input generator limit, ?_⟩
  intro mark hmark hne hopMark marked start hmarked
  have hagain : Renaming new (renamed new) renamed :=
    renaming_again h (new_of_fill around hnew) hop
  refine outcome_renaming hagain around ?_ hopMark hf' hmarked rfl input generator limit
  intro hmem
  have hback := names_mapNames (replaceName new old) hmem
  rw [mapNames_fill (mapNames_renaming h) around hnew, replaceName_of_ne hne] at hback
  exact hmark hback

def namedForm (name : String) : Form :=
  .scoped [.function name ["x"] (.symbol "x") none] (.call name [])

def namedForest (name : String) : Forest where
  nodes := #[⟨.symbol "x", none, some ⟨1⟩⟩, ⟨.call .custom (some name) [] true, some ⟨0⟩, none⟩]
  tables := #[⟨[⟨0⟩], none, some ⟨1⟩⟩]
  bindings := #[⟨name, none, .node ⟨0⟩, .function ["x"]⟩]

theorem whole_f : (namedForest "f").Whole ⟨1⟩ (namedForm "f") :=
  (grows_form.1 (namedForm "f") .empty linked_empty [] ⟨1⟩ ⟨namedForest "f", []⟩ rfl).1

theorem whole_g : (namedForest "g").Whole ⟨1⟩ (namedForm "g") :=
  (grows_form.1 (namedForm "g") .empty linked_empty [] ⟨1⟩ ⟨namedForest "g", []⟩ rfl).1

/-- the function with any other name -/
theorem law_named : Renaming "f" (namedForm "f") namedForm :=
  .scope (by decide)

theorem alpha_renaming_uncalled :
    Renaming "f" (namedForm "f") namedForm ∧ "g" ∉ (namedForm "f").names ∧
      Builtin.ofName? "g" = none ∧ (namedForest "f").Whole ⟨1⟩ (namedForm "f") ∧
      (namedForest "g").Whole ⟨1⟩ (namedForm "g") ∧
      (Visit.start 1 (.node ⟨1⟩) { strict := true } [] ⟨#[], 0⟩).outcome (namedForest "f")
        = mapOutcome (replaceName "g" "f")
          ((Visit.start 1 (.node ⟨1⟩) { strict := true } [] ⟨#[], 0⟩).outcome (namedForest "g")) :=
  ⟨law_named, by decide, by decide, whole_f, whole_g,
    (alpha_renaming law_named .hole (by decide) (by decide) whole_f whole_g
      { strict := true } [] ⟨#[], 0⟩ 1).1⟩

end

end Abacus
