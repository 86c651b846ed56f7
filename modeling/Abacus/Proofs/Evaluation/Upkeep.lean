import Abacus.Proofs.Evaluation.Comparison

/-!
# What every run keeps

A relation between the states before and after each step of a run holds between the states before
and after the whole run.

* `Steady ok K`        such a relation, for runs whose policies are `ok`;
* `Steady.evalNode`    it holds between the states before and after an evaluation;
* `State.Extends`      the input is taken from its front, and everything else is only added to;
* `State.Advances`     so it is, and marks are taken back;
* `advances_evalNode`  every evaluation advances.
-/

namespace Abacus

open Run

/-! ## Steady relations -/

/-- **A relation between states that every step of a run keeps**, where the policy is of a certain
kind. -/
structure Steady (ok : Policy → Prop) (K : State → State → Prop) : Prop where
  refl : ∀ s, K s s
  trans : ∀ {s t u}, K s t → K t u → K s u
  input : ∀ s, K s { s with input := (awaitNumber s.input).rest }
  output : ∀ s text, K s { s with output := s.output ++ text }
  report : ∀ s p r, ok p → (r.concern = .unresolvedSymbol → p.strict = false) →
    K s { s with reports := s.reports.push ⟨p.channel, r⟩ }
  generators : ∀ s g, K s { s with generators := g }
  counted : ∀ s key, K s { s with counted := key :: s.counted }
  next : ∀ s, K s { s with next := s.next + 1 }
  mark : ∀ {s t} m, K { s with active := m :: s.active } t →
    K s { t with active := t.active.erase m }

/-- from every state, the relation holds to the state after a computation -/
def Keeps {α : Type} (K : State → State → Prop) (x : Run α) : Prop := ∀ s, K s (x.result s).2

section
variable {ok : Policy → Prop} {K : State → State → Prop} {α β : Type} {env : Env}

theorem keeps_pure (hK : Steady ok K) (a : α) : Keeps K (pure a : Run α) := fun s => hK.refl s

theorem keeps_throw (hK : Steady ok K) (fault : Fault) : Keeps K (throw fault : Run α) :=
  fun s => hK.refl s

theorem keeps_bind (hK : Steady ok K) {x : Run α} {k : α → Run β} (hx : Keeps K x)
    (hk : ∀ a, Keeps K (k a)) : Keeps K (x >>= k) := by
  intro s
  have h := hx s
  rw [result_bind]
  rcases hr : x.result s with ⟨_ | a, t⟩
  · rw [hr] at h
    exact h
  · rw [hr] at h
    exact hK.trans h (hk a t)

theorem keeps_report (hK : Steady ok K) (hp : ok env.policy) {r : Remark}
    (hr : r.concern = .unresolvedSymbol → env.policy.strict = false) : Keeps K (report env r) :=
  fun s => hK.report s env.policy r hp hr

theorem keeps_report_of_ne (hK : Steady ok K) (hp : ok env.policy) {r : Remark}
    (hr : r.concern ≠ .unresolvedSymbol) : Keeps K (report env r) :=
  keeps_report hK hp fun h => absurd h hr

theorem keeps_unresolved (hK : Steady ok K) (hp : ok env.policy) (ident : String) (r : Remark) :
    Keeps K (unresolved env ident r) := by
  unfold unresolved
  split
  · exact keeps_throw hK _
  · next hstrict =>
    exact keeps_bind hK (keeps_report hK hp fun _ => Bool.eq_false_iff.2 hstrict) fun _ =>
      keeps_pure hK none

theorem keeps_reportLines (hK : Steady ok K) (hp : ok env.policy) (lines : List (List Char)) :
    Keeps K (lines.forM fun line => report env (.invalidLine (strip (String.ofList line)))) := by
  induction lines with
  | nil => exact keeps_pure hK ()
  | cons line lines ih =>
    exact keeps_bind hK (keeps_report_of_ne hK hp (by simp [Remark.concern])) fun _ => ih

theorem concern_of_checkOperands {b : Builtin} {count : Int} {r : Remark}
    (h : Growth.checkOperands b count = .ok (some r)) : r.concern ≠ .unresolvedSymbol := by
  obtain ⟨_, _, _, rfl⟩ := Growth.checkOperands_eq_some h
  simp [Remark.concern]

theorem keeps_countOperands (hK : Steady ok K) (hp : ok env.policy) (id : NodeId) (b : Builtin)
    (count : Int) : Keeps K (countOperands id b count env) := by
  refine keeps_bind hK (fun s => hK.refl s) ?_
  intro s
  split
  · exact keeps_pure hK ()
  · dsimp only
    split
    · exact keeps_bind hK (keeps_throw hK _) fun _ t => hK.counted t _
    · exact fun t => hK.counted t _
    · next hr =>
      exact keeps_bind hK (keeps_report_of_ne hK hp (concern_of_checkOperands hr)) fun _ t =>
        hK.counted t _

theorem keeps_readNumber (hK : Steady ok K) (hp : ok env.policy) : Keeps K (readNumber env) := by
  intro s
  have hasked := hK.trans (hK.input s) (hK.output _ (awaitNumber s.input).prompts)
  have hlines := keeps_reportLines hK hp (awaitNumber s.input).refused
    { s with
      input := (awaitNumber s.input).rest
      output := s.output ++ (awaitNumber s.input).prompts }
  rw [result_reportLines] at hlines
  rw [result_readNumber]
  exact hK.trans hasked hlines

theorem keeps_draw (hK : Steady ok K) (env : Env) : Keeps K (draw env) := by
  intro s
  rw [result_draw]
  exact hK.generators s _

theorem keeps_applyBuiltin (hK : Steady ok K) (hp : ok env.policy) (b : Builtin)
    (args : List Number) : Keeps K (applyBuiltin b env args) := by
  have hsequential : Sequential fun x _ => Keeps K x :=
    ⟨keeps_pure hK, keeps_throw hK, keeps_bind hK⟩
  exact hsequential.applyBuiltin env env b args (fun _ => keeps_readNumber hK hp) fun _ =>
    keeps_draw hK env

theorem keeps_marked (hK : Steady ok K) (m : Mark) {x : Run α} (hx : Keeps K x) :
    Keeps K (marked m x) := by
  intro s
  rw [result_marked]
  exact hK.mark m (hx _)

theorem keeps_findValue (hK : Steady ok K) {ev : Evaluator} {owner : Env} (id : BindingId)
    (b : Binding) (hev : Keeps K (ev b.body owner)) : Keeps K (findValue ev id b owner) := by
  intro s
  rw [result_findValue]
  split
  · split
    · exact hK.refl s
    · exact keeps_marked hK _ hev s
  · exact hev s

end

namespace Steady

variable {ok : Policy → Prop} {K : State → State → Prop}

def comparison (hK : Steady ok K) (f : Forest) : Comparison f where
  policy p q := p = q ∧ ok p
  serial := Eq
  rel x _ := Keeps K x
  pure a := keeps_pure hK a
  bind hx hk := keeps_bind hK hx hk
  throw fault := keeps_throw hK fault
  write text s := hK.output s text
  report r hr _ h := keeps_report_of_ne hK h.policy.2 hr
  fresh hk s := hK.trans (hK.next s) (hk s.next s.next rfl _)
  places h := by rw [h.1]
  unresolved ident r h _ := keeps_unresolved hK h.policy.2 ident r
  value id b _ hev := keeps_findValue hK id b hev
  count _ _ h := keeps_countOperands hK h.policy.2 _ _ _
  apply args _ _ h := keeps_applyBuiltin hK h.policy.2 _ args

/-- **What each step keeps, an evaluation keeps.** -/
theorem evalNode (hK : Steady ok K) (f : Forest) (limit : Nat) (ref : Ref) {env : Env}
    (h : Env.Like (fun p q => p = q ∧ ok p) Eq env env) : Keeps K (evalNode f limit ref env) :=
  (hK.comparison f).evalNode limit ref env env h

end Steady

/-! ## Advancing -/

theorem suffix_of_nextLine? {cs line rest : List Char} (h : nextLine? cs = some (line, rest)) :
    rest <:+ cs := by
  induction cs generalizing line rest with
  | nil => cases h
  | cons c cs ih =>
    unfold nextLine? at h
    split at h
    · cases h
      exact List.suffix_cons c cs
    · split at h
      · next hrec =>
        cases h
        exact (ih hrec).trans (List.suffix_cons c cs)
      · cases h
        exact List.nil_suffix

theorem suffix_of_awaitNumber (input : List Char) : (awaitNumber input).rest <:+ input := by
  fun_induction awaitNumber input with
  | case1 input hnone => exact List.nil_suffix
  | case2 input line rest hline amount hread => exact suffix_of_nextLine? hline
  | case3 input line rest hline hread hlength later ih => exact ih.trans (suffix_of_nextLine? hline)

/-- **Nothing is given back or taken back**: input is taken from its front, output, reports and
counted calls are added to, and serial numbers are given once. -/
structure State.Extends (s t : State) : Prop where
  input : t.input <:+ s.input
  output : ∃ text, t.output = s.output ++ text
  reports : s.reports.toList <+: t.reports.toList
  counted : s.counted <:+ t.counted
  next : s.next ≤ t.next

theorem State.Extends.refl (s : State) : s.Extends s :=
  ⟨List.suffix_rfl, ⟨"", by simp⟩, List.prefix_rfl, List.suffix_rfl, Nat.le_refl _⟩

theorem State.Extends.trans {s t u : State} (h : s.Extends t) (h' : t.Extends u) :
    s.Extends u := by
  obtain ⟨text, htext⟩ := h.output
  obtain ⟨more, hmore⟩ := h'.output
  exact ⟨h'.input.trans h.input, ⟨text ++ more, by rw [hmore, htext, String.append_assoc]⟩,
    h.reports.trans h'.reports, h.counted.trans h'.counted, Nat.le_trans h.next h'.next⟩

/-- **Nothing is given back or taken back**, except for marks, which are all taken back. -/
structure State.Advances (s t : State) : Prop extends State.Extends s t where
  active : t.active = s.active

theorem steady_advances : Steady (fun _ => True) State.Advances where
  refl s := ⟨.refl s, rfl⟩
  trans h h' := ⟨h.toExtends.trans h'.toExtends, h'.active.trans h.active⟩
  input s := ⟨{ State.Extends.refl s with input := suffix_of_awaitNumber s.input }, rfl⟩
  output s text := ⟨{ State.Extends.refl s with output := ⟨text, rfl⟩ }, rfl⟩
  report s p r _ _ := ⟨{ State.Extends.refl s with reports := by simp }, rfl⟩
  generators s g := ⟨{ State.Extends.refl s with }, rfl⟩
  counted s key := ⟨{ State.Extends.refl s with counted := List.suffix_cons key s.counted }, rfl⟩
  next s := ⟨{ State.Extends.refl s with next := Nat.le_succ _ }, rfl⟩
  mark m h := ⟨{ h.toExtends with }, by rw [h.active, List.erase_cons_head]⟩

/-- **Every evaluation advances.** -/
theorem advances_evalNode (f : Forest) (limit : Nat) (ref : Ref) (env : Env) :
    Keeps State.Advances (evalNode f limit ref env) :=
  steady_advances.evalNode f limit ref (Env.Like.refl (fun _ => ⟨rfl, trivial⟩) (fun _ => rfl) env)

end Abacus
