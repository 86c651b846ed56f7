import Abacus.Proofs.Evaluation.Result
import Abacus.Proofs.Forms.Occurrence
import Abacus.Proofs.Evaluation.Likeness
import Mathlib.Data.List.Forall2

/-!
# Names and the forms they stand for

A form is inlined where each occurrence of a name that stands for it is replaced by the form itself.
A scene on the left, with the definition or the call that gives the name its form, is compared with
a scene on the right without it: some names mean the same in both, some stand on the left for a form
that has on the right the value that it has where the name was bound, and nothing is said of others.

* `View`              what is said of the names;
* `Form.Inlines`      **a form becomes another one by inlining**;
* `Sees`              the scenes around two such forms;
* `Sees.same`         what names mean that mean the same;
* `Sees.stands`       the forms that names stand for.
-/

namespace Abacus

/-! ## Views -/

/-- what is said of names in a scene on the left and one on the right -/
structure View where
  /-- the name means the same in both -/
  same : String → Prop
  /-- the name stands on the left for a form that has its value on the right -/
  stands : String → Form → Prop

namespace View

/-- all names mean the same -/
def plain : View := ⟨fun _ => True, fun _ _ => False⟩

/-- inside a scope or a call on both sides; a form that has one of the names free is captured -/
def under (σ : View) (bound : String → Prop) : View where
  same x := bound x ∨ σ.same x
  stands x V := ¬ bound x ∧ σ.stands x V ∧ ∀ y, bound y → ¬ V.Free y

/-- inside a scope or a call on one side alone -/
def beneath (σ : View) (bound : String → Prop) : View where
  same x := ¬ bound x ∧ σ.same x
  stands x V := ¬ bound x ∧ σ.stands x V ∧ ∀ y, bound y → ¬ V.Free y

/-- inside a scope or a call on the left, where names stand for forms -/
def standing (σ : View) (ρ : List (String × Form)) : View where
  same x := ρ.lookup x = none ∧ σ.same x
  stands x V := ρ.lookup x = some V ∨ ρ.lookup x = none ∧ σ.stands x V

structure Le (τ σ : View) : Prop where
  same : ∀ x, τ.same x → σ.same x
  stands : ∀ x V, τ.stands x V → σ.stands x V

end View

/-! ## Forms -/

mutual

/-- **A form becomes another one by inlining**: names become the forms they stand for, and the two
constructs that make names stand for forms are left out.  On the left, so many more evaluations may
come before the first one that both sides make. -/
inductive Form.Inlines : Nat → View → Form → Form → Prop
  | numeral {lag : Nat} {σ : View} {kind : Kind} {text : List Char} :
      Form.Inlines lag σ (.numeral kind text) (.numeral kind text)
  | symbol {lag : Nat} {σ : View} {name : String} : σ.same name →
      Form.Inlines lag σ (.symbol name) (.symbol name)
  | standing {lag : Nat} {σ : View} {name : String} {form : Form} : σ.stands name form →
      Form.Inlines (lag + 1) σ (.symbol name) form
  | call {lag : Nat} {σ : View} {name : String} {operands operands' : List Form} :
      (Builtin.ofName? name = none → σ.same name) → operands.length = operands'.length →
      (∀ form form', (form, form') ∈ operands.zip operands' → form.Inlines 2 σ form') →
      Form.Inlines lag σ (.call name operands) (.call name operands')
  | choice {lag : Nat} {σ : View} {a b c a' b' c' : Form} : a.Inlines 2 σ a' → b.Inlines 2 σ b' →
      c.Inlines 2 σ c' → Form.Inlines lag σ (.choice a b c) (.choice a' b' c')
  | scope {lag : Nat} {σ : View} {definitions definitions' : List Definition} {body body' : Form} :
      definitions.length = definitions'.length →
      (∀ d d', (d, d') ∈ definitions.zip definitions' →
        d.Inlines (σ.under (· ∈ definitions.map (·.name))) d') →
      body.Inlines lag (σ.under (· ∈ definitions.map (·.name))) body' →
      Form.Inlines lag σ (.scoped definitions body) (.scoped definitions' body')
  | value {lag : Nat} {σ : View} {x : String} {V body body' : Form} : ¬ V.Free x →
      (∀ y, V.Free y → σ.same y) → body.Inlines lag (σ.standing [(x, V)]) body' →
      Form.Inlines lag σ (.scoped [.value x V none] body) body'
  | function {lag : Nat} {σ : View} {name : String} {parameters : List String}
      {operands : List Form} {body body' : Form} : Builtin.ofName? name = none →
      parameters.length = operands.length →
      (∀ form ∈ operands, ∀ y, form.Free y → y ≠ name ∧ σ.same y) →
      body.Inlines lag
        ((σ.beneath (· = name)).standing (pairArguments parameters operands)) body' →
      Form.Inlines (lag + 1) σ
        (.scoped [.function name parameters body none] (.call name operands)) body'

inductive Definition.Inlines : View → Definition → Definition → Prop
  | value {σ : View} {name : String} {body body' : Form} {type : Option String} :
      body.Inlines 2 σ body' → Definition.Inlines σ (.value name body type) (.value name body' type)
  | function {σ : View} {name : String} {parameters : List String} {body body' : Form}
      {type : Option String} : body.Inlines 2 (σ.under (· ∈ parameters)) body' →
      Definition.Inlines σ (.function name parameters body type)
        (.function name parameters body' type)

end

/-- **A form whose free names mean the same becomes itself.** -/
theorem inlines_self : (∀ form : Form, ∀ lag σ, (form.Each fun x _ _ => σ.same x) →
      form.Inlines lag σ form) ∧
    ∀ d : Definition, ∀ σ, (d.Each fun x _ _ => σ.same x) → d.Inlines σ d := by
  have henclosed {σ : View} {names : List String} (x : String) (usage : Usage)
      (binders : List String) (h : Enclosed names (fun x _ _ => σ.same x) x usage binders) :
      (σ.under (· ∈ names)).same x := by
    by_cases hx : x ∈ names
    · exact Or.inl hx
    · exact Or.inr (h hx)
  refine Form.induction ?_ ?_ ?_ ?_ ?_ ?_ ?_
  · intro kind text lag σ _
    exact .numeral
  · intro name lag σ h
    exact .symbol (each_symbol h)
  · intro name operands ih lag σ h
    obtain ⟨hname, hoperands⟩ := each_call h
    have hall := List.forall₂_same.2 fun form hform => ih form hform 2 σ (hoperands form hform)
    exact .call hname rfl fun form form' hmem => List.forall₂_zip hall hmem
  · intro a b c iha ihb ihc lag σ h
    obtain ⟨ha, hb, hc⟩ := each_choice h
    exact .choice (iha 2 σ ha) (ihb 2 σ hb) (ihc 2 σ hc)
  · intro definitions body ihds ihbody lag σ h
    obtain ⟨hds, hbody⟩ := each_scope h
    have hall := List.forall₂_same.2 fun d hd => ihds d hd _ ((hds d hd).mono henclosed)
    exact .scope rfl (fun d d' hmem => List.forall₂_zip hall hmem)
      (ihbody lag _ (hbody.mono henclosed))
  · intro name body type ih σ h
    exact .value (ih 2 σ (each_value h))
  · intro name parameters body type ih σ h
    exact .function (ih 2 _ ((each_function h).mono henclosed))

/-! ## Scenes -/

/-- **The scenes around a form and the form that it becomes.**  Scopes and calls stand on both
sides; on the left also those that make names stand for forms; and a scene on either side can have
bound names of which nothing is said. -/
inductive Sees : View → Scene → Scene → Prop
  | top : Sees .plain .top .top
  | scope {σ : View} {definitions definitions' : List Definition} {finding : List String}
      {S S' : Scene} :
      List.Forall₂ (Definition.Inlines (σ.under (· ∈ definitions.map (·.name)))) definitions
        definitions' → Sees σ S S' →
      Sees (σ.under (· ∈ definitions.map (·.name))) (.scope definitions finding S)
        (.scope definitions' finding S')
  | call {σ τ : View} {arguments arguments' : List (String × Form)} {C C' S S' : Scene} :
      List.Forall₂ (fun a a' => a.1 = a'.1 ∧ a.2.Inlines 2 τ a'.2) arguments arguments' →
      Sees τ C C' → Sees σ S S' →
      Sees (σ.under (· ∈ arguments.map (·.1))) (.call arguments C S) (.call arguments' C' S')
  | value {σ : View} {x : String} {V : Form} {S S' : Scene} : ¬ V.Free x →
      (∀ y, V.Free y → σ.same y) → Sees σ S S' →
      Sees (σ.standing [(x, V)]) (.scope [.value x V none] [] S) S'
  | arguments {σ : View} {ρ : List (String × Form)} {S S' : Scene} :
      (∀ x V, ρ.lookup x = some V → ∀ y, V.Free y → σ.same y) → Sees σ S S' →
      Sees (σ.standing ρ) (.call ρ S S) S'
  | left {σ : View} {bound : String → Prop} {L S S' : Scene} :
      (∀ x, ¬ bound x → L.find? x = S.find? x) → Sees σ S S' → Sees (σ.beneath bound) L S'
  | right {σ : View} {bound : String → Prop} {R S S' : Scene} :
      (∀ x, ¬ bound x → R.find? x = S'.find? x) → Sees σ S S' → Sees (σ.beneath bound) S R
  | less {σ τ : View} {S S' : Scene} : τ.Le σ → Sees σ S S' → Sees τ S S'

/-- **Meanings on both sides** of a name that means the same -/
inductive Meets : Option Meaning → Option Meaning → Prop
  | none : Meets none none
  | argument {σ : View} {form form' : Form} {C C' : Scene} : form.Inlines 2 σ form' →
      Sees σ C C' → Meets (some (.argument form C)) (some (.argument form' C'))
  | value {σ : View} {body body' : Form} {type : Option String} {busy : Bool} {I I' : Scene} :
      body.Inlines 2 σ body' → Sees σ I I' →
      Meets (some (.value body type busy I)) (some (.value body' type busy I'))
  | function {σ : View} {parameters : List String} {body body' : Form} {type : Option String}
      {I I' : Scene} : body.Inlines 2 (σ.under (· ∈ parameters)) body' → Sees σ I I' →
      Meets (some (.function parameters body type I)) (some (.function parameters body' type I'))

section
variable {σ : View} {S S' : Scene} {x : String} {V : Form}

theorem Scene.find?_scope_of_notMem {definitions : List Definition} {finding : List String}
    (hx : x ∉ definitions.map (·.name)) :
    (Scene.scope definitions finding S).find? x = S.find? x := by
  have hnone : definitions.find? (·.name == x) = none := by
    rw [List.find?_eq_none]
    intro d hd hname
    exact hx (List.mem_map.2 ⟨d, hd, beq_iff_eq.1 hname⟩)
  rw [Scene.find?, hnone]

theorem Scene.find?_call_of_none {arguments : List (String × Form)} {C : Scene}
    (hx : arguments.lookup x = none) : (Scene.call arguments C S).find? x = S.find? x := by
  rw [Scene.find?, hx]

theorem lookup_eq_none {arguments : List (String × Form)} :
    arguments.lookup x = none ↔ x ∉ arguments.map (·.1) := by
  simp only [List.lookup_eq_none_iff, bne_iff_ne, List.mem_map, not_exists, not_and]
  exact forall₂_congr fun _ _ => ne_comm

theorem name_of_inlines {d d' : Definition} (h : d.Inlines σ d') : d'.name = d.name := by
  cases h with
  | value _ => rfl
  | function _ => rfl

theorem names_of_inlines {definitions definitions' : List Definition}
    (h : List.Forall₂ (Definition.Inlines σ) definitions definitions') :
    definitions'.map (·.name) = definitions.map (·.name) := by
  induction h with
  | nil => rfl
  | cons hd _ ih => rw [List.map_cons, List.map_cons, name_of_inlines hd, ih]

theorem find_of_inlines {definitions definitions' : List Definition}
    (h : List.Forall₂ (Definition.Inlines σ) definitions definitions')
    (hx : x ∈ definitions.map (·.name)) : ∃ d d', definitions.find? (·.name == x) = some d ∧
      definitions'.find? (·.name == x) = some d' ∧ d.Inlines σ d' ∧ d.name = x := by
  induction h with
  | nil => cases hx
  | @cons d d' ds ds' hd _ ih =>
    rw [List.find?_cons, List.find?_cons, name_of_inlines hd]
    by_cases hname : d.name = x
    · rw [beq_iff_eq.2 hname]
      exact ⟨d, d', rfl, rfl, hd, hname⟩
    · rw [beq_eq_false_iff_ne.2 hname]
      refine ih ?_
      rw [List.map_cons, List.mem_cons] at hx
      exact hx.resolve_left fun heq => hname heq.symm

theorem keys_of_inlines {arguments arguments' : List (String × Form)}
    (h : List.Forall₂ (fun a a' => a.1 = a'.1 ∧ a.2.Inlines 2 σ a'.2) arguments arguments') :
    arguments'.map (·.1) = arguments.map (·.1) := by
  induction h with
  | nil => rfl
  | cons ha _ ih => rw [List.map_cons, List.map_cons, ha.1, ih]

theorem lookup_of_inlines {arguments arguments' : List (String × Form)}
    (h : List.Forall₂ (fun a a' => a.1 = a'.1 ∧ a.2.Inlines 2 σ a'.2) arguments arguments') :
    arguments.lookup x = none ∧ arguments'.lookup x = none ∨
      ∃ form form', arguments.lookup x = some form ∧ arguments'.lookup x = some form' ∧
        form.Inlines 2 σ form' := by
  induction h with
  | nil => exact Or.inl ⟨rfl, rfl⟩
  | @cons a a' as as' ha _ ih =>
    obtain ⟨name, form⟩ := a
    obtain ⟨name', form'⟩ := a'
    obtain ⟨hname, hform⟩ := ha
    dsimp only at hname hform
    rw [← hname, Env.lookup_cons, Env.lookup_cons]
    by_cases hx : x = name
    · rw [if_pos hx, if_pos hx]
      exact Or.inr ⟨form, form', rfl, rfl, hform⟩
    · rw [if_neg hx, if_neg hx]
      exact ih

/-- **What a name means that means the same** -/
theorem Sees.same (h : Sees σ S S') (hx : σ.same x) : Meets (S.find? x) (S'.find? x) := by
  induction h with
  | top => exact .none
  | @scope σ definitions definitions' finding S S' hall hS ih =>
    by_cases hmem : x ∈ definitions.map (·.name)
    · obtain ⟨d, d', hfind, hfind', hd, rfl⟩ := find_of_inlines hall hmem
      rw [Scene.find?, Scene.find?, hfind, hfind']
      cases hd with
      | value hbody => exact .value hbody (.scope hall hS)
      | function hbody => exact .function hbody (.scope hall hS)
    · rw [Scene.find?_scope_of_notMem hmem,
        Scene.find?_scope_of_notMem (names_of_inlines hall ▸ hmem)]
      exact ih (hx.resolve_left hmem)
  | call hall hC hS _ ih =>
    rcases lookup_of_inlines (x := x) hall with ⟨hnone, hnone'⟩ | ⟨V, V', hsome, hsome', hV⟩
    · rw [Scene.find?_call_of_none hnone, Scene.find?_call_of_none hnone']
      exact ih (hx.resolve_left (lookup_eq_none.1 hnone))
    · rw [Scene.find?, Scene.find?, hsome, hsome']
      exact .argument hV hC
  | @value σ y V S S' _ _ _ ih =>
    obtain ⟨hnone, hsame⟩ := hx
    rw [Env.lookup_cons] at hnone
    have hne : x ≠ y := fun heq => by rw [if_pos heq] at hnone; cases hnone
    rw [Scene.find?_scope_of_notMem (by simp [Definition.name, hne])]
    exact ih hsame
  | arguments _ _ ih =>
    rw [Scene.find?_call_of_none hx.1]
    exact ih hx.2
  | left hL _ ih =>
    rw [hL x hx.1]
    exact ih hx.2
  | right hR _ ih =>
    rw [hR x hx.1]
    exact ih hx.2
  | less hle _ ih => exact ih (hle.same x hx)

/-- **A form that a name stands for**: on the left the name is looked up, and the form is evaluated
where it was bound; on the right it is evaluated where the name was. -/
theorem Sees.stands (h : Sees σ S S') (hx : σ.stands x V) : ∃ τ O,
    (S.find? x = some (.argument V O) ∨ S.find? x = some (.value V none false O)) ∧
      Sees τ O S' ∧ ∀ y, V.Free y → τ.same y := by
  induction h with
  | top => cases hx
  | @scope σ definitions definitions' finding S S' hall hS ih =>
    obtain ⟨hnot, hstands, hfree⟩ := hx
    obtain ⟨τ, O, hfind, hO, hsame⟩ := ih hstands
    rw [Scene.find?_scope_of_notMem hnot]
    have hnot' (y : String) (hy : y ∉ definitions.map (·.name)) :
        (Scene.scope definitions' finding S').find? y = S'.find? y :=
      Scene.find?_scope_of_notMem (names_of_inlines hall ▸ hy)
    exact ⟨_, O, hfind, .right hnot' hO, fun y hy => ⟨fun hmem => hfree y hmem hy, hsame y hy⟩⟩
  | @call σ τ arguments arguments' C C' S S' hall _ hS _ ih =>
    obtain ⟨hnot, hstands, hfree⟩ := hx
    obtain ⟨τ, O, hfind, hO, hsame⟩ := ih hstands
    rw [Scene.find?_call_of_none (lookup_eq_none.2 hnot)]
    have hnot' (y : String) (hy : y ∉ arguments.map (·.1)) :
        (Scene.call arguments' C' S').find? y = S'.find? y :=
      Scene.find?_call_of_none (lookup_eq_none.2 (keys_of_inlines hall ▸ hy))
    exact ⟨_, O, hfind, .right hnot' hO, fun y hy => ⟨fun hmem => hfree y hmem hy, hsame y hy⟩⟩
  | @value σ z W S S' hz hW hS ih =>
    have hnot (finding : List String) {y : String} (hy : y ≠ z) :
        (Scene.scope [.value z W none] finding S).find? y = S.find? y :=
      Scene.find?_scope_of_notMem (by simp [Definition.name, hy])
    rcases hx with hhere | ⟨hnone, hstands⟩
    · rw [Env.lookup_cons] at hhere
      split at hhere
      · next hxz =>
        cases hhere
        refine ⟨_, .scope [.value z V none] [z] S, Or.inr ?_, .left (fun _ => hnot [z]) hS, ?_⟩
        · rw [hxz]
          simp [Scene.find?, Definition.meaning, Definition.name]
        · exact fun y hy => ⟨fun heq => hz (heq ▸ hy), hW y hy⟩
      · cases hhere
    · have hne : x ≠ z := fun heq => by
        rw [Env.lookup_cons, if_pos heq] at hnone
        cases hnone
      rw [hnot [] hne]
      exact ih hstands
  | @arguments σ ρ S S' hρ hS ih =>
    rcases hx with hhere | ⟨hnone, hstands⟩
    · refine ⟨σ, S, Or.inl ?_, hS, hρ x V hhere⟩
      rw [Scene.find?, hhere]
    · rw [Scene.find?_call_of_none hnone]
      exact ih hstands
  | left hL _ ih =>
    obtain ⟨hnot, hstands, _⟩ := hx
    rw [hL x hnot]
    exact ih hstands
  | @right σ bound R S S' hR _ ih =>
    obtain ⟨hnot, hstands, hfree⟩ := hx
    obtain ⟨τ, O, hfind, hO, hsame⟩ := ih hstands
    exact ⟨_, O, hfind, .right hR hO, fun y hy => ⟨fun hb => hfree y hb hy, hsame y hy⟩⟩
  | less hle _ ih => exact ih (hle.stands x V hx)

end

end Abacus
