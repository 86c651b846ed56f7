import Abacus.Proofs.Forms.Inlining

/-!
# Inlined forms have the same values

A form and the form that it becomes by inlining are evaluated side by side.  The left side may need
more depth, as a name is evaluated before the form it stands for, and a call before the body of its
function.  So wherever the left side is not too deep, the right side is the same within the same
depth; and wherever the right side is not too deep, the left side is the same within three times the
depth.

* `Follows`            a computation that is not too deep is followed by another one;
* `Side`, `Matches`, `Depths`   which side follows, and the depths that it needs;
* `matches_of_inlines`  **inlined forms have the same values**.
-/

namespace Abacus

open Run

/-! ## Following -/

/-- **A computation follows another one**: it is the same unless the first is too deep. -/
def Follows {α : Type} (x y : Run α) : Prop :=
  ∀ s, (x.result s).1 = .error .tooDeep ∨ y.result s = x.result s

section
variable {α β : Type} {x y : Run α}

theorem follows_refl (x : Run α) : Follows x x := fun _ => Or.inr rfl

theorem follows_bind {k l : α → Run β} (h : Follows x y) (hk : ∀ a, Follows (k a) (l a)) :
    Follows (x >>= k) (y >>= l) := by
  intro s
  rcases h s with hdeep | hsame
  · exact Or.inl (fst_result_bind hdeep)
  · rcases hresult : x.result s with ⟨φ | a, t⟩
    · rw [hresult] at hsame
      exact Or.inr (by rw [result_bind_error hresult, result_bind_error hsame])
    · rw [hresult] at hsame
      rw [result_bind_ok hresult, result_bind_ok hsame]
      exact hk a t

end

/-! ## Sides and depths -/

inductive Side where
  | left
  | right
  deriving DecidableEq

/-- computations on the left and on the right, of which the one on the given side is followed -/
def Matches {α : Type} : Side → Run α → Run α → Prop
  | .left, x, y => Follows x y
  | .right, x, y => Follows y x

/-- **The depths on both sides**, where so many evaluations on the left may come before the first
one that both sides make -/
def Depths : Side → Nat → Nat → Nat → Prop
  | .left, _, l, l' => l ≤ l'
  | .right, lag, l, l' => 3 * l' + lag ≤ l + 2

section
variable {α β : Type} {side : Side} {x y : Run α} {lag l l' : Nat}

theorem matches_refl (x : Run α) : Matches side x x := by
  cases side <;> exact follows_refl x

theorem matches_bind {k m : α → Run β} (h : Matches side x y) (hk : ∀ a, Matches side (k a) (m a)) :
    Matches side (x >>= k) (y >>= m) := by
  cases side <;> exact follows_bind h hk

/-- without depth on the left, the followed side is too deep -/
theorem matches_zero {p : Policy} (h : Depths side lag 0 l') {form form' : Form} {S S' : Scene} :
    Matches side (evalForm p 0 form S) (evalForm p l' form' S') := by
  cases side with
  | left => exact fun _ => Or.inl rfl
  | right =>
    have hzero : l' = 0 := by
      have h : 3 * l' + lag ≤ 0 + 2 := h
      omega
    rw [hzero]
    exact fun _ => Or.inl rfl

theorem Depths.lead (h : Depths side (lag + 1) (l + 1) l') : Depths side lag l l' := by
  cases side with
  | left =>
    have h : l + 1 ≤ l' := h
    show l ≤ l'
    omega
  | right =>
    have h : 3 * l' + (lag + 1) ≤ l + 1 + 2 := h
    show 3 * l' + lag ≤ l + 2
    omega

theorem matches_succ {p : Policy} (h : Depths side lag (l + 1) l') {form : Form} {S : Scene}
    {x : Run Value}
    (hx : ∀ m, Depths side 2 l m → Matches side x (formValue p (evalForm p m) form S)) :
    Matches side x (evalForm p l' form S) := by
  rcases l' with _ | m
  · cases side with
    | left =>
      have h : l + 1 ≤ 0 := h
      omega
    | right => exact fun _ => Or.inl rfl
  · refine hx m ?_
    cases side with
    | left =>
      have h : l + 1 ≤ m + 1 := h
      show l ≤ m
      omega
    | right =>
      have h : 3 * (m + 1) + lag ≤ l + 1 + 2 := h
      show 3 * m + 2 ≤ l + 2
      omega

end

/-! ## The constructs -/

/-- evaluators on both sides agree on all forms that become others by inlining -/
def Alike (side : Side) (ev ev' : FormEvaluator) : Prop :=
  ∀ (σ : View) (form form' : Form) (S S' : Scene), form.Inlines 2 σ form' → Sees σ S S' →
    Matches side (ev form S) (ev' form' S')

section
variable {side : Side} {p : Policy} {ev ev' : FormEvaluator} {σ : View} {S S' : Scene}
  {name : String} {operands operands' : List Form}

theorem matches_symbolValue (hev : Alike side ev ev') (h : Sees σ S S') (hname : σ.same name) :
    Matches side (symbolValue p ev S name) (symbolValue p ev' S' name) := by
  have hmeets := h.same hname
  unfold symbolValue
  generalize S.find? name = meaning at hmeets
  generalize S'.find? name = meaning' at hmeets
  cases hmeets with
  | none => exact matches_refl _
  | argument hform hC => exact hev _ _ _ _ _ hform hC
  | value hbody hI =>
    refine matches_bind ?_ fun value => matches_refl _
    split
    · exact matches_refl _
    · exact hev _ _ _ _ _ hbody hI
  | function _ _ => exact matches_refl _

theorem bound_pairArguments {parameters : List String} (h : ¬ operands.length < parameters.length) :
    (· ∈ (pairArguments parameters operands).map (·.1)) = (· ∈ parameters) := by
  funext x
  rw [pairArguments, List.map_reverse, List.map_fst_zip (Nat.le_of_not_lt h), List.mem_reverse]

theorem pairArguments_of_inlines (h : List.Forall₂ (Form.Inlines 2 σ) operands operands')
    (parameters : List String) :
    List.Forall₂ (fun a a' => a.1 = a'.1 ∧ a.2.Inlines 2 σ a'.2) (pairArguments parameters operands)
      (pairArguments parameters operands') := by
  unfold pairArguments
  rw [List.forall₂_reverse_iff]
  induction h generalizing parameters with
  | nil =>
    rw [List.zip_nil_right]
    exact .nil
  | cons hform _ ih =>
    cases parameters with
    | nil => exact .nil
    | cons parameter parameters => exact .cons ⟨rfl, hform⟩ (ih parameters)

theorem matches_callValue (hev : Alike side ev ev') (h : Sees σ S S') (hname : σ.same name)
    (hall : List.Forall₂ (Form.Inlines 2 σ) operands operands') :
    Matches side (callValue p ev S name operands) (callValue p ev' S' name operands') := by
  have hmeets := h.same hname
  unfold callValue
  generalize S.find? name = meaning at hmeets
  generalize S'.find? name = meaning' at hmeets
  cases hmeets with
  | none => exact matches_refl _
  | argument _ _ => exact matches_refl _
  | value _ _ => exact matches_refl _
  | @function τ parameters body body' type I I' hbody hI =>
    dsimp only
    rw [← hall.length_eq]
    by_cases hfew : operands.length < parameters.length
    · unfold checkArguments
      rw [if_pos hfew]
      exact matches_refl (throw _)
    · have hscene := Sees.call (pairArguments_of_inlines hall parameters) h hI
      rw [bound_pairArguments hfew] at hscene
      refine matches_bind (matches_refl _) fun _ => matches_bind ?_ fun value => matches_refl _
      exact hev _ _ _ _ _ hbody hscene

theorem matches_operandValues (hev : Alike side ev ev') (h : Sees σ S S')
    (hall : List.Forall₂ (Form.Inlines 2 σ) operands operands') :
    Matches side (operandValues ev S operands) (operandValues ev' S' operands') := by
  induction hall with
  | nil => exact matches_refl _
  | cons hform _ ih =>
    exact matches_bind (hev _ _ _ _ _ hform h) fun value =>
      matches_bind ih fun values => matches_refl _

theorem matches_printedValue (hev : Alike side ev ev') (h : Sees σ S S')
    (hall : List.Forall₂ (Form.Inlines 2 σ) operands operands') (last : Value) :
    Matches side (printedValue p ev S last operands) (printedValue p ev' S' last operands') := by
  induction hall generalizing last with
  | nil => exact matches_refl _
  | cons hform _ ih =>
    refine matches_bind (hev _ _ _ _ _ hform h) fun value => ?_
    exact matches_bind (matches_refl _) fun text => matches_bind (matches_refl _) fun _ => ih value

theorem matches_builtinValue (hev : Alike side ev ev') (h : Sees σ S S')
    (hall : List.Forall₂ (Form.Inlines 2 σ) operands operands') (b : Builtin) :
    Matches side (builtinValue p ev S b operands) (builtinValue p ev' S' b operands') := by
  unfold builtinValue
  split
  · exact matches_printedValue hev h hall none
  · refine matches_bind ?_ fun values => matches_refl _
    cases b.arity.most? with
    | none => exact matches_operandValues hev h hall
    | some most => exact matches_operandValues hev h (List.forall₂_take most hall)

theorem matches_choiceValue (hev : Alike side ev ev') (h : Sees σ S S') {a b c a' b' c' : Form}
    (ha : a.Inlines 2 σ a') (hb : b.Inlines 2 σ b') (hc : c.Inlines 2 σ c') :
    Matches side (choiceValue ev S a b c) (choiceValue ev' S' a' b' c') := by
  refine matches_bind (hev _ _ _ _ _ ha h) ?_
  intro value
  cases value with
  | none => exact matches_refl _
  | some v =>
    dsimp only
    split
    · exact hev _ _ _ _ _ hc h
    · exact hev _ _ _ _ _ hb h

end

/-! ## Forms -/

section
variable {side : Side} {p : Policy} {σ : View} {S S' : Scene} {form form' : Form}
  {lag l l' : Nat}

/-- a name against the form that it stands for -/
theorem matches_standing {name : String} (hstands : σ.stands name form) (h : Sees σ S S')
    (hev : ∀ τ O, form.Inlines lag τ form → Sees τ O S' →
      Matches side (evalForm p l form O) (evalForm p l' form S')) :
    Matches side (symbolValue p (evalForm p l) S name) (evalForm p l' form S') := by
  obtain ⟨τ, O, hfind, hO, hsame⟩ := h.stands hstands
  have hvalue := hev τ O (inlines_self.1 form lag τ fun x usage binders hoccurs hx =>
    hsame x ⟨usage, binders, hoccurs, hx⟩) hO
  have hsymbol : symbolValue p (evalForm p l) S name = evalForm p l form O := by
    unfold symbolValue
    rcases hfind with hfind | hfind
    · rw [hfind]
    · rw [hfind]
      show (evalForm p l form O >>= pure) = _
      exact bind_pure _
  rw [hsymbol]
  exact hvalue

theorem mem_of_pairArguments {parameters : List String} {operands : List Form} {x : String}
    {V : Form} (h : (pairArguments parameters operands).lookup x = some V) :
    (x, V) ∈ parameters.zip operands := by
  obtain ⟨before, after, heq, _⟩ := List.lookup_eq_some_iff.1 h
  have hmem : (x, V) ∈ pairArguments parameters operands := by
    rw [heq]
    exact List.mem_append_right before List.mem_cons_self
  exact List.mem_reverse.1 hmem

/-- a call, inside the one scope that defines its function, is the body of the function -/
theorem callValue_here {name : String} {parameters : List String} {operands : List Form}
    {body : Form} {ev : FormEvaluator} (hlength : parameters.length = operands.length) :
    callValue p ev (.scope [.function name parameters body none] [] S) name operands
      = ev body (.call (pairArguments parameters operands)
          (.scope [.function name parameters body none] [] S)
          (.scope [.function name parameters body none] [] S)) := by
  have hfind : (Scene.scope [.function name parameters body none] [] S).find? name
      = some (.function parameters body none
          (.scope [.function name parameters body none] [] S)) := by
    simp [Scene.find?, Definition.meaning, Definition.name]
  have hcheck : checkArguments (.root 0 p) name parameters.length operands.length = pure () := by
    unfold checkArguments
    rw [if_neg (by omega), if_neg (by omega)]
  unfold callValue
  rw [hfind]
  dsimp only
  rw [hcheck, pure_bind]
  exact bind_pure (ev body _)

/-- **Inlined forms have the same values**, as far as the depths on both sides reach. -/
theorem matches_of_inlines (hdepths : Depths side lag l l') (hform : form.Inlines lag σ form')
    (h : Sees σ S S') : Matches side (evalForm p l form S) (evalForm p l' form' S') := by
  induction l generalizing lag l' σ S S' form form' with
  | zero => exact matches_zero hdepths
  | succ l ih =>
    have hev {m : Nat} (hm : Depths side 2 l m) : Alike side (evalForm p l) (evalForm p m) :=
      fun _ _ _ _ _ hform h => ih hm hform h
    induction form using Form.bodyInduction generalizing lag l' σ S S' form' with
    | numeral kind text =>
      cases hform with
      | numeral => exact matches_succ hdepths fun m hm => matches_refl _
    | symbol name =>
      cases hform with
      | symbol hname => exact matches_succ hdepths fun m hm => matches_symbolValue (hev hm) h hname
      | standing hstands =>
        exact matches_standing hstands h fun τ O hself hO => ih hdepths.lead hself hO
    | call name operands _ =>
      cases hform with
      | call hname hlength hall =>
        have hall' := List.forall₂_iff_zip.2 ⟨hlength, fun {a b} hmem => hall a b hmem⟩
        refine matches_succ hdepths fun m hm => ?_
        rcases hop : Builtin.ofName? name with _ | b
        · rw [← evalForm, evalForm_call hop, evalForm_call hop]
          exact matches_callValue (hev hm) h (hname hop) hall'
        · rw [← evalForm, evalForm_builtin hop, evalForm_builtin hop]
          exact matches_builtinValue (hev hm) h hall' b
    | choice a b c _ _ _ =>
      cases hform with
      | choice ha hb hc =>
        exact matches_succ hdepths fun m hm => matches_choiceValue (hev hm) h ha hb hc
    | scope definitions body ihbody =>
      rw [evalForm_scoped]
      cases hform with
      | scope hlength hall hbody =>
        have hall' := List.forall₂_iff_zip.2 ⟨hlength, fun {a b} hmem => hall a b hmem⟩
        rw [evalForm_scoped]
        exact ihbody hdepths hbody (.scope hall' h)
      | value hx hV hbody => exact ihbody hdepths hbody (.value hx hV h)
      | @function lag _ name parameters operands body _ hname hlength hoperands hbody =>
        have hscene : Sees (σ.beneath (· = name))
            (.scope [.function name parameters body none] [] S) S' :=
          .left (fun x hx => Scene.find?_scope_of_notMem (by simpa [Definition.name] using hx)) h
        rw [evalForm_call hname, callValue_here hlength]
        refine ih hdepths.lead hbody (.arguments ?_ hscene)
        intro x V hV y hy
        exact hoperands V (List.of_mem_zip (mem_of_pairArguments hV)).2 y hy

end

end Abacus
