import Abacus.Proofs.Forms.Depiction
import Abacus.Proofs.Forms.Matching

/-!
# Inlining

Arguments and the values of variables are evaluated by name, so a variable can be replaced by its
value and a call by the body of its function: what is read, printed, drawn and reported stays the
same, wherever the form stands in a program.

* `Form.inline`      the free symbols of a form replaced by forms;
* `Inlining`         the two laws, with their conditions;
* `inlining`         **a program stays the same when a form in it is inlined**.
-/

namespace Abacus

/-! ## Replacing symbols by forms -/

def without (names : List String) (ρ : List (String × Form)) : List (String × Form) :=
  ρ.filter fun entry => !names.contains entry.1

mutual

/-- **The free symbols of a form replaced by forms**, all at once -/
def Form.inline : List (String × Form) → Form → Form
  | _, .numeral kind text => .numeral kind text
  | ρ, .symbol name => (ρ.lookup name).getD (.symbol name)
  | ρ, .call name operands => .call name (Form.inlineAll ρ operands)
  | ρ, .choice test ifTrue ifFalse =>
    .choice (test.inline ρ) (ifTrue.inline ρ) (ifFalse.inline ρ)
  | ρ, .scoped definitions body =>
    .scoped (Definition.inlineAll (without (definitions.map (·.name)) ρ) definitions)
      (body.inline (without (definitions.map (·.name)) ρ))

def Form.inlineAll : List (String × Form) → List Form → List Form
  | _, [] => []
  | ρ, form :: rest => form.inline ρ :: Form.inlineAll ρ rest

def Definition.inline : List (String × Form) → Definition → Definition
  | ρ, .value name body type => .value name (body.inline ρ) type
  | ρ, .function name parameters body type =>
    .function name parameters (body.inline (without parameters ρ)) type

def Definition.inlineAll : List (String × Form) → List Definition → List Definition
  | _, [] => []
  | ρ, d :: rest => d.inline ρ :: Definition.inlineAll ρ rest

end

theorem Form.inlineAll_eq (ρ : List (String × Form)) (forms : List Form) :
    Form.inlineAll ρ forms = forms.map (Form.inline ρ) := by
  induction forms with
  | nil => rfl
  | cons form rest ih => rw [Form.inlineAll, ih, List.map_cons]

theorem Definition.inlineAll_eq (ρ : List (String × Form)) (definitions : List Definition) :
    Definition.inlineAll ρ definitions = definitions.map (Definition.inline ρ) := by
  induction definitions with
  | nil => rfl
  | cons d rest ih => rw [Definition.inlineAll, ih, List.map_cons]

theorem lookup_without (names : List String) (ρ : List (String × Form)) (x : String) :
    (without names ρ).lookup x = if x ∈ names then none else ρ.lookup x := by
  induction ρ with
  | nil => exact (ite_self _).symm
  | cons entry ρ ih =>
    obtain ⟨y, V⟩ := entry
    unfold without at ih ⊢
    rw [List.filter_cons, Env.lookup_cons]
    by_cases hy : y ∈ names
    · rw [if_neg (by simpa using hy), ih]
      by_cases hx : x ∈ names
      · rw [if_pos hx, if_pos hx]
      · have hne : x ≠ y := fun heq => hx (heq ▸ hy)
        rw [if_neg hx, if_neg hx, if_neg hne]
    · rw [if_pos (by simpa using hy), Env.lookup_cons, ih]
      by_cases hxy : x = y
      · rw [if_pos hxy, if_pos hxy, if_neg (hxy ▸ hy)]
      · rw [if_neg hxy, if_neg hxy]

/-- **What is asked of an occurrence of a name**: a name that is not replaced means the same, and
one that is replaced is a symbol, stands for its form, and the binders around do not capture the
form. -/
def Serves (σ : View) (ρ : List (String × Form)) (x : String) (usage : Usage)
    (binders : List String) : Prop :=
  (ρ.lookup x = none → σ.same x) ∧
  ∀ V, ρ.lookup x = some V → usage = .symbol ∧ σ.stands x V ∧ ∀ y ∈ binders, ¬ V.Free y

section
variable {σ : View} {ρ : List (String × Form)}

theorem serves_enclosed {names binders : List String} {x : String} {usage : Usage}
    (h : Enclosed names (Serves σ ρ) x usage binders) :
    Serves (σ.under (· ∈ names)) (without names ρ) x usage binders := by
  unfold Serves
  rw [lookup_without]
  by_cases hx : x ∈ names
  · rw [if_pos hx]
    exact ⟨fun _ => Or.inl hx, fun V hV => by cases hV⟩
  · rw [if_neg hx]
    obtain ⟨hsame, hstands⟩ := h hx
    refine ⟨fun hnone => Or.inr (hsame hnone), fun V hV => ?_⟩
    obtain ⟨husage, hstands, hfree⟩ := hstands V hV
    refine ⟨husage, ⟨hx, hstands, fun y hy => ?_⟩, fun y hy => ?_⟩
    · exact hfree y (List.mem_append_left binders hy)
    · exact hfree y (List.mem_append_right names hy)

/-- **A form becomes by inlining what it is with its symbols replaced.** -/
theorem inlines_inline : (∀ form : Form, ∀ lag σ ρ, form.Each (Serves σ ρ) →
      form.Inlines (lag + 1) σ (form.inline ρ)) ∧
    ∀ d : Definition, ∀ σ ρ, d.Each (Serves σ ρ) → d.Inlines σ (d.inline ρ) := by
  have hzip {α : Type} {R : α → α → Prop} {l : List α} {g : α → α} (h : ∀ a ∈ l, R a (g a)) :
      ∀ a b, (a, b) ∈ l.zip (l.map g) → R a b := by
    intro a b hmem
    have hall : List.Forall₂ R l (l.map g) :=
      List.forall₂_map_right_iff.2 (List.forall₂_same.2 h)
    exact List.forall₂_zip hall hmem
  refine Form.induction ?_ ?_ ?_ ?_ ?_ ?_ ?_
  · intro kind text lag σ ρ _
    exact .numeral
  · intro name lag σ ρ h
    obtain ⟨hsame, hstands⟩ := each_symbol h
    rw [Form.inline]
    rcases hV : ρ.lookup name with _ | V
    · exact .symbol (hsame hV)
    · exact .standing (hstands V hV).2.1
  · intro name operands ih lag σ ρ h
    obtain ⟨hname, hoperands⟩ := each_call h
    rw [Form.inline, Form.inlineAll_eq]
    refine .call ?_ (List.length_map _).symm ?_
    · intro hop
      obtain ⟨hsame, hstands⟩ := hname hop
      rcases hV : ρ.lookup name with _ | V
      · exact hsame hV
      · cases (hstands V hV).1
    · exact hzip fun form hform => ih form hform 1 σ ρ (hoperands form hform)
  · intro a b c iha ihb ihc lag σ ρ h
    obtain ⟨ha, hb, hc⟩ := each_choice h
    rw [Form.inline]
    exact .choice (iha 1 σ ρ ha) (ihb 1 σ ρ hb) (ihc 1 σ ρ hc)
  · intro definitions body ihds ihbody lag σ ρ h
    obtain ⟨hds, hbody⟩ := each_scope h
    rw [Form.inline, Definition.inlineAll_eq]
    refine .scope (List.length_map _).symm ?_ ?_
    · exact hzip fun d hd => ihds d hd _ _ ((hds d hd).mono fun _ _ _ => serves_enclosed)
    · exact ihbody lag _ _ (hbody.mono fun _ _ _ => serves_enclosed)
  · intro name body type ih σ ρ h
    rw [Definition.inline]
    exact .value (ih 1 σ ρ (each_value h))
  · intro name parameters body type ih σ ρ h
    rw [Definition.inline]
    exact .function (ih 1 _ _ ((each_function h).mono fun _ _ _ => serves_enclosed))

end

/-! ## The laws -/

/-- **The laws of inlining.**  A variable without a type is replaced by its value, and a call of a
function without a type by the body with the arguments put for the parameters, all at once.  Neither
the variable nor the function may be free in what it is replaced by, no parameter may be called, and
nothing that is bound around a replaced symbol may be free in what it is replaced by. -/
inductive Inlining : Form → Form → Prop
  | value {x : String} {V body : Form} : ¬ V.Free x → ¬ body.FreeCall x →
      (∀ y, body.Around x y → ¬ V.Free y) →
      Inlining (.scoped [.value x V none] body) (body.inline [(x, V)])
  | function {name : String} {parameters : List String} {operands : List Form} {body : Form} :
      Builtin.ofName? name = none → parameters.Nodup → parameters.length = operands.length →
      ¬ body.Free name → (∀ form ∈ operands, ¬ form.Free name) →
      (∀ x ∈ parameters, ¬ body.FreeCall x) →
      (∀ x form y, (x, form) ∈ parameters.zip operands → body.Around x y → ¬ form.Free y) →
      Inlining (.scoped [.function name parameters body none] (.call name operands))
        (body.inline (parameters.zip operands))

theorem lookup_pairArguments {parameters : List String} (hnodup : parameters.Nodup)
    (operands : List Form) (x : String) :
    (pairArguments parameters operands).lookup x = (parameters.zip operands).lookup x := by
  unfold pairArguments
  induction parameters generalizing operands with
  | nil => rfl
  | cons parameter parameters ih =>
    obtain ⟨hnot, hnodup⟩ := List.nodup_cons.1 hnodup
    rcases operands with _ | ⟨form, operands⟩
    · rfl
    · rw [List.zip_cons_cons, List.reverse_cons, List.lookup_append, ih hnodup, Env.lookup_cons,
        Env.lookup_cons]
      by_cases hx : x = parameter
      · have hnone : (parameters.zip operands).lookup x = none := by
          rw [lookup_eq_none, hx]
          exact fun hmem => hnot (by
            obtain ⟨entry, hentry, heq⟩ := List.mem_map.1 hmem
            exact heq ▸ (List.of_mem_zip hentry).1)
        rw [hnone, if_pos hx, if_pos hx, Option.none_or]
      · rw [if_neg hx, if_neg hx, List.lookup_nil, Option.or_none]

theorem inlines_of_inlining {σ : View} (hσ : ∀ x, σ.same x) {form form' : Form}
    (h : Inlining form form') : form.Inlines 2 σ form' := by
  cases h with
  | @value x V body hV hcall haround =>
    refine .value hV (fun y _ => hσ y) (inlines_inline.1 body 1 _ _ ?_)
    intro y usage binders hoccurs hfree
    refine ⟨fun hnone => ⟨hnone, hσ y⟩, fun W hW => ?_⟩
    rw [Env.lookup_cons] at hW
    split at hW
    · next hy =>
      subst hy
      cases hW
      refine ⟨?_, Or.inl ?_, fun z hz => ?_⟩
      · cases usage with
        | symbol => rfl
        | call => exact absurd ⟨binders, hoccurs, hfree⟩ hcall
      · rw [Env.lookup_cons, if_pos rfl]
      · exact haround z ⟨usage, binders, hoccurs, hfree, hz⟩
    · cases hW
  | @function name parameters operands body hname hnodup hlength hbody hoperands hcall haround =>
    refine .function hname hlength ?_ (inlines_inline.1 body 0 _ _ ?_)
    · intro form hform y hy
      exact ⟨fun heq => hoperands form hform (heq ▸ hy), hσ y⟩
    · intro y usage binders hoccurs hfree
      have hpair := lookup_pairArguments hnodup operands y
      refine ⟨fun hnone => ⟨hpair.trans hnone, ?_, hσ y⟩, fun W hW => ?_⟩
      · intro heq
        exact hbody ⟨usage, binders, heq ▸ hoccurs, heq ▸ hfree⟩
      · have hmem := mem_of_pairArguments (hpair.trans hW)
        refine ⟨?_, Or.inl (hpair.trans hW), fun z hz => ?_⟩
        · cases usage with
          | symbol => rfl
          | call => exact absurd ⟨binders, hoccurs, hfree⟩ (hcall y (List.of_mem_zip hmem).1)
        · exact haround y W z hmem ⟨usage, binders, hoccurs, hfree, hz⟩

/-! ## In a program -/

theorem forall₂_place {α : Type} {R : α → α → Prop} {before after : List α} {a b : α}
    (hself : ∀ c, R c c) (h : R a b) :
    List.Forall₂ R (before ++ a :: after) (before ++ b :: after) := by
  induction before with
  | nil => exact .cons h (List.forall₂_same.2 fun c _ => hself c)
  | cons c before ih => exact .cons (hself c) ih

theorem inlines_scope {σ : View} (hσ : ∀ x, σ.same x) {definitions definitions' : List Definition}
    {body body' : Form}
    (hall : ∀ τ : View, (∀ x, τ.same x) →
      List.Forall₂ (Definition.Inlines τ) definitions definitions')
    (hbody : ∀ τ : View, (∀ x, τ.same x) → body.Inlines 2 τ body') :
    (Form.scoped definitions body).Inlines 2 σ (.scoped definitions' body') := by
  have hunder (x : String) : (σ.under (· ∈ definitions.map (·.name))).same x := Or.inr (hσ x)
  have hall' := hall _ hunder
  exact .scope hall'.length_eq (fun _ _ hmem => List.forall₂_zip hall' hmem) (hbody _ hunder)

/-- a program becomes by inlining what it is with one form inlined -/
theorem inlines_fill {form form' : Form}
    (h : ∀ σ : View, (∀ x, σ.same x) → form.Inlines 2 σ form') (around : Context) :
    ∀ σ : View, (∀ x, σ.same x) → (around.fill form).Inlines 2 σ (around.fill form') := by
  have hform (form : Form) (τ : View) (hτ : ∀ x, τ.same x) : form.Inlines 2 τ form :=
    inlines_self.1 form 2 τ fun x _ _ _ _ => hτ x
  have hself (τ : View) (hτ : ∀ x, τ.same x) (d : Definition) : d.Inlines τ d :=
    inlines_self.2 d τ fun x _ _ _ _ => hτ x
  induction around with
  | hole => exact h
  | operand name before inside after ih =>
    intro σ hσ
    have hall : List.Forall₂ (Form.Inlines 2 σ) (before ++ inside.fill form :: after)
        (before ++ inside.fill form' :: after) :=
      forall₂_place (fun form => hform form σ hσ) (ih σ hσ)
    exact .call (fun _ => hσ name) hall.length_eq fun _ _ hmem => List.forall₂_zip hall hmem
  | test inside b c ih => exact fun σ hσ => .choice (ih σ hσ) (hform b σ hσ) (hform c σ hσ)
  | ifTrue a inside c ih => exact fun σ hσ => .choice (hform a σ hσ) (ih σ hσ) (hform c σ hσ)
  | ifFalse a b inside ih => exact fun σ hσ => .choice (hform a σ hσ) (hform b σ hσ) (ih σ hσ)
  | value before name inside type after body ih =>
    intro σ hσ
    refine inlines_scope hσ ?_ (hform body)
    exact fun τ hτ => forall₂_place (hself τ hτ) (.value (ih τ hτ))
  | function before name parameters inside type after body ih =>
    intro σ hσ
    refine inlines_scope hσ ?_ (hform body)
    intro τ hτ
    have hbody := ih (τ.under (· ∈ parameters)) fun x => Or.inr (hτ x)
    exact forall₂_place (hself τ hτ) (.function hbody)
  | body definitions inside ih =>
    intro σ hσ
    refine inlines_scope hσ ?_ ih
    exact fun τ hτ => List.forall₂_same.2 fun d _ => hself τ hτ d

/-- **A program stays the same when a form in it is inlined**: trees that stand for both programs
end with the same value or fault, and have read, printed, drawn and reported the same.  Inlining
takes no more depth: where the program is not too deep before, it ends in the same way after; and
where it is not too deep after, it ends in the same way before, within three times the depth. -/
theorem inlining {form form' : Form} (hlaw : Inlining form form') (around : Context)
    {f f' : Forest} {root root' : NodeId} (hf : f.Whole root (around.fill form))
    (hf' : f'.Whole root' (around.fill form')) (policy : Policy) (input : List Char)
    (generator : Generator) (limit : Nat) :
    let guarded := { policy with guarded := true }
    let before limit := (Visit.start limit (.node root) guarded input generator).outcome f
    let after limit := (Visit.start limit (.node root') guarded input generator).outcome f'
    ((before limit).1 ≠ .error .tooDeep → after limit = before limit) ∧
      ((after limit).1 ≠ .error .tooDeep → before (3 * limit) = after limit) := by
  intro guarded before after
  have hinlines : (around.fill form).Inlines 2 .plain (around.fill form') :=
    inlines_fill (fun σ hσ => inlines_of_inlining hσ hlaw) around _ fun _ => trivial
  have hbefore (l : Nat) : before l = _ := outcome_of_whole hf rfl l input generator
  have hafter (l : Nat) : after l = _ := outcome_of_whole hf' rfl l input generator
  constructor
  · intro hshallow
    rw [hbefore] at hshallow ⊢
    rw [hafter]
    have hleft : Depths .left 2 limit limit := Nat.le_refl limit
    exact (matches_of_inlines hleft hinlines .top _).resolve_left hshallow
  · intro hshallow
    rw [hafter] at hshallow ⊢
    rw [hbefore]
    have hright : Depths .right 2 (3 * limit) limit := Nat.le_refl _
    exact (matches_of_inlines hright hinlines .top _).resolve_left hshallow

/-- a function that gives its argument back, called with a name that has no meaning -/
def appliedForm : Form :=
  .scoped [.function "f" ["x"] (.symbol "x") none] (.call "f" [.symbol "y"])

def appliedForest : Forest where
  nodes := #[⟨.symbol "x", none, some ⟨2⟩⟩, ⟨.symbol "y", none, some ⟨2⟩⟩,
    ⟨.call .custom (some "f") [.node ⟨1⟩] true, some ⟨0⟩, none⟩]
  tables := #[⟨[⟨0⟩], none, some ⟨2⟩⟩]
  bindings := #[⟨"f", none, .node ⟨0⟩, .function ["x"]⟩]

def bareForest : Forest := ⟨#[⟨.symbol "y", none, none⟩], #[], #[]⟩

theorem whole_applied : appliedForest.Whole ⟨2⟩ appliedForm :=
  (grows_form.1 appliedForm .empty linked_empty [] ⟨2⟩ ⟨appliedForest, []⟩ rfl).1

theorem whole_bare : bareForest.Whole ⟨0⟩ (.symbol "y") :=
  (grows_form.1 (.symbol "y") .empty linked_empty [] ⟨0⟩ ⟨bareForest, []⟩ rfl).1

theorem law_applied : Inlining appliedForm (.symbol "y") := by
  refine .function (by decide) (by decide) rfl ?_ ?_ ?_ ?_
  · intro ⟨usage, binders, hoccurs, _⟩
    exact absurd (occurs_symbol hoccurs).1 (by decide)
  · intro form hform ⟨usage, binders, hoccurs, _⟩
    rw [List.mem_singleton.1 hform] at hoccurs
    exact absurd (occurs_symbol hoccurs).1 (by decide)
  · intro x _ ⟨binders, hoccurs, _⟩
    cases (occurs_symbol hoccurs).2.1
  · intro x form y _ ⟨usage, binders, hoccurs, _, hy⟩
    rw [(occurs_symbol hoccurs).2.2] at hy
    cases hy

theorem inlining_applied :
    Inlining appliedForm (.symbol "y") ∧ appliedForest.Whole ⟨2⟩ appliedForm ∧
      bareForest.Whole ⟨0⟩ (.symbol "y") ∧
      (Visit.start 3 (.node ⟨2⟩) { strict := false } [] ⟨#[], 0⟩).outcome appliedForest
        = (Visit.start 1 (.node ⟨0⟩) { strict := false } [] ⟨#[], 0⟩).outcome bareForest :=
  ⟨law_applied, whole_applied, whole_bare,
    (inlining law_applied .hole whole_applied whole_bare { strict := false } [] ⟨#[], 0⟩ 1).2
      (by intro h; cases h)⟩

end Abacus
