import Abacus.Proofs.Turns
import Mathlib.Data.List.TakeWhile

/-!
# Asking for numbers

The input is a row of lines.  Asking for a number refuses the lines that are none, one by one, and
takes the first that is one.  Nothing else in a run takes input, so the numbers that a run reads are
the first numbers of the input, in the order of its lines.

* `linesOf`              the lines of an input, and `numbersOf` the numbers among them;
* `awaitNumber_accepted`, `awaitNumber_refused`   asking, where there is a number and where not;
* `State.Spares`         what takes no input;
* `Course`               evaluations one after another, between which no input is taken;
* `course_of_visit`      what an evaluation begins is begun so;
* `Visit.Reads`          an evaluation that reads a number;
* `Readings`             the evaluations of a kind that read numbers, in order, and what they take;
* `readings_of_visit`    those of a run;
* `reading_in_turn`      **what is read, refused and taken, and in which order**.
-/

namespace Abacus

open Run

/-! ## Lines -/

/-- **The lines of an input**: what stands before each newline, and what follows the last one unless
that is nothing -/
def linesOf (input : List Char) : List (List Char) :=
  let pieces := input.splitOn '\n'
  if pieces.getLast? = some [] then pieces.dropLast else pieces

/-- the numbers that the lines of an input are, in order; lines that are no numbers are passed over -/
def numbersOf (input : List Char) : List Amount := (linesOf input).filterMap readDecimal?

theorem linesOf_newline {line : List Char} (hline : '\n' ∉ line) (rest : List Char) :
    linesOf (line ++ '\n' :: rest) = line :: linesOf rest := by
  have hne := List.splitOn_ne_nil '\n' rest
  unfold linesOf
  rw [List.splitOn_append_cons_self, List.splitOn_eq_singleton hline]
  rcases hrest : rest.splitOn '\n' with _ | ⟨piece, pieces⟩
  · exact absurd hrest hne
  · dsimp only
    rw [List.singleton_append, List.getLast?_cons_cons, List.dropLast_cons_cons]
    split
    · rfl
    · rfl

theorem linesOf_last {line : List Char} (hline : '\n' ∉ line) (hne : line ≠ []) :
    linesOf line = [line] := by
  unfold linesOf
  rw [List.splitOn_eq_singleton hline]
  simp [hne]

theorem nextLine?_eq (input : List Char) :
    (input = [] ∧ nextLine? input = none) ∨
    (∃ line rest, '\n' ∉ line ∧ input = line ++ '\n' :: rest ∧
      nextLine? input = some (line, rest)) ∨
    ('\n' ∉ input ∧ input ≠ [] ∧ nextLine? input = some (input, [])) := by
  induction input with
  | nil => exact Or.inl ⟨rfl, rfl⟩
  | cons c cs ih =>
    refine Or.inr ?_
    by_cases hc : c = '\n'
    · exact Or.inl ⟨[], cs, by simp, by rw [hc]; rfl, by rw [nextLine?, if_pos hc]⟩
    · rw [nextLine?, if_neg hc]
      rcases ih with ⟨rfl, hnone⟩ | ⟨line, rest, hline, rfl, hsome⟩ | ⟨hline, _, hsome⟩
      · exact Or.inr ⟨by simpa using Ne.symm hc, by simp, by rw [hnone]⟩
      · exact Or.inl ⟨c :: line, rest, by simp [Ne.symm hc, hline], rfl, by rw [hsome]⟩
      · exact Or.inr ⟨by simp [Ne.symm hc, hline], by simp, by rw [hsome]⟩

/-- **The next line is the first of the lines**, and the others are those of the rest: it is taken
with its newline. -/
theorem linesOf_nextLine? {input line rest : List Char} (h : nextLine? input = some (line, rest)) :
    linesOf input = line :: linesOf rest ∧ ∃ taken, input = taken ++ rest ∧
      ∀ more, more <+: rest → linesOf (taken ++ more) = line :: linesOf more := by
  rcases nextLine?_eq input with ⟨_, hnone⟩ | ⟨line', rest', hline, rfl, hsome⟩ | ⟨hline, hne, hsome⟩
  · rw [hnone] at h
    cases h
  · rw [hsome] at h
    cases h
    refine ⟨linesOf_newline hline rest, line ++ ['\n'], by simp, fun more _ => ?_⟩
    rw [List.append_assoc]
    exact linesOf_newline hline more
  · rw [hsome] at h
    cases h
    refine ⟨linesOf_last hline hne, input, by simp, fun more hmore => ?_⟩
    rw [List.prefix_nil.1 hmore, List.append_nil]
    exact linesOf_last hline hne

theorem linesOf_of_nextLine?_eq_none {input : List Char} (h : nextLine? input = none) :
    linesOf input = [] := by
  rcases nextLine?_eq input with ⟨rfl, _⟩ | ⟨_, _, _, _, hsome⟩ | ⟨_, _, hsome⟩
  · rfl
  · rw [hsome] at h
    cases h
  · rw [hsome] at h
    cases h

/-! ## Asking -/

theorem awaitNumber_cons {input line rest : List Char} (h : nextLine? input = some (line, rest)) :
    awaitNumber input = match readDecimal? line with
      | some amount => ⟨[], some amount, rest⟩
      | none => ⟨line :: (awaitNumber rest).refused, (awaitNumber rest).amount,
          (awaitNumber rest).rest⟩ := by
  rw [awaitNumber]
  split
  · next hnone =>
    rw [hnone] at h
    cases h
  · next hsome =>
    rw [hsome] at h
    cases h
    rfl

theorem nextLine?_of_linesOf {input line : List Char} {lines : List (List Char)}
    (h : linesOf input = line :: lines) :
    ∃ rest, nextLine? input = some (line, rest) ∧ linesOf rest = lines := by
  rcases hnext : nextLine? input with _ | ⟨line', rest⟩
  · rw [linesOf_of_nextLine?_eq_none hnext] at h
    cases h
  · rw [(linesOf_nextLine? hnext).1] at h
    cases h
    exact ⟨rest, rfl, rfl⟩

/-- **Where a line is a number, and none before it**, those before it are refused, and it is taken
with them. -/
theorem awaitNumber_accepted {input line : List Char} {refused later : List (List Char)}
    {amount : Amount} (hlines : linesOf input = refused ++ line :: later)
    (hrefused : ∀ l ∈ refused, readDecimal? l = none) (hline : readDecimal? line = some amount) :
    ∃ rest taken, awaitNumber input = ⟨refused, some amount, rest⟩ ∧ input = taken ++ rest ∧
      linesOf taken = refused ++ [line] ∧ linesOf rest = later := by
  induction refused generalizing input with
  | nil =>
    obtain ⟨rest, hnext, hrest⟩ := nextLine?_of_linesOf hlines
    obtain ⟨_, taken, htaken, hmore⟩ := linesOf_nextLine? hnext
    refine ⟨rest, taken, by rw [awaitNumber_cons hnext, hline], htaken, ?_, hrest⟩
    have hall := hmore [] List.nil_prefix
    rwa [List.append_nil] at hall
  | cons l refused ih =>
    obtain ⟨rest, hnext, hrest⟩ := nextLine?_of_linesOf hlines
    obtain ⟨_, taken, htaken, hmore⟩ := linesOf_nextLine? hnext
    obtain ⟨hl, hrefused⟩ := List.forall_mem_cons.1 hrefused
    obtain ⟨rest', taken', hawait, rfl, htaken', hrest'⟩ := ih hrest hrefused
    refine ⟨rest', taken ++ taken', ?_, by rw [htaken, List.append_assoc], ?_, hrest'⟩
    · rw [awaitNumber_cons hnext, hl, hawait]
    · rw [hmore taken' (List.prefix_append _ _), htaken']
      rfl

/-- **Where no line is a number**, all of them are refused. -/
theorem awaitNumber_refused {input : List Char}
    (h : ∀ l ∈ linesOf input, readDecimal? l = none) :
    awaitNumber input = ⟨linesOf input, none, []⟩ := by
  fun_induction awaitNumber input with
  | case1 input hnone => rw [linesOf_of_nextLine?_eq_none hnone]
  | case2 input line rest hnext amount hread =>
    rw [(linesOf_nextLine? hnext).1] at h
    rw [(List.forall_mem_cons.1 h).1] at hread
    cases hread
  | case3 input line rest hnext hread hlength later ih =>
    rw [(linesOf_nextLine? hnext).1] at h ⊢
    rw [show later = ⟨linesOf rest, none, []⟩ from ih (List.forall_mem_cons.1 h).2]

/-- asking takes the first number of the lines, if there is one, and leaves the others -/
theorem numbersOf_awaitNumber (input : List Char) :
    numbersOf input = (awaitNumber input).amount.toList ++ numbersOf (awaitNumber input).rest := by
  fun_induction awaitNumber input with
  | case1 input hnone => rw [numbersOf, linesOf_of_nextLine?_eq_none hnone]; rfl
  | case2 input line rest hnext amount hread =>
    rw [numbersOf, (linesOf_nextLine? hnext).1, List.filterMap_cons_some hread]
    rfl
  | case3 input line rest hnext hread hlength later ih =>
    rw [numbersOf, (linesOf_nextLine? hnext).1, List.filterMap_cons_none hread]
    exact ih

/-! ## What takes no input -/

/-- **Nothing is given back or taken back, and no input is taken.** -/
structure State.Spares (s t : State) : Prop extends State.Extends s t where
  kept : t.input = s.input

namespace State.Spares

variable {s t u : State}

theorem refl (s : State) : s.Spares s := ⟨.refl s, rfl⟩

theorem trans (h : s.Spares t) (h' : t.Spares u) : s.Spares u :=
  ⟨h.toExtends.trans h'.toExtends, h'.kept.trans h.kept⟩

theorem report (s : State) (r : Report) : s.Spares { s with reports := s.reports.push r } :=
  ⟨{ State.Extends.refl s with reports := by simp }, rfl⟩

theorem write (s : State) (text : String) : s.Spares { s with output := s.output ++ text } :=
  ⟨{ State.Extends.refl s with output := ⟨text, rfl⟩ }, rfl⟩

theorem fresh (s : State) (n : Nat) : s.Spares { s with next := s.next + n } :=
  ⟨{ State.Extends.refl s with next := Nat.le_add_right _ _ }, rfl⟩

theorem finding (s : State) (owner : Env) (id : BindingId) : s.Spares (s.finding owner id) := by
  refine ⟨extends_finding s owner id, ?_⟩
  unfold State.finding
  split
  · rfl
  · rfl

theorem counting (s : State) (id : NodeId) (b : Builtin) (operands : List Ref) (checked : Bool)
    (env : Env) : s.Spares (s.counting id b operands checked env) := by
  unfold State.counting
  split
  · exact .refl s
  · split
    · exact .refl s
    · refine ⟨{ State.Extends.refl s with counted := List.suffix_cons _ _, reports := ?_ }, rfl⟩
      rcases (Shape.call (.builtin b) none operands false).surplus? with _ | r
      · exact List.prefix_rfl
      · simp

end State.Spares

section
variable {s : State}

theorem spares_coerce (env : Env) (kind : Option Kind) (ident : String) (value : Value) (s : State) :
    s.Spares ((coerce env kind ident value).result s).2 := by
  unfold coerce
  split
  · split
    · exact .refl s
    · dsimp only
      split
      · exact .report s _
      · exact .refl s
  · exact .refl s

theorem spares_unresolved (env : Env) (ident : String) (r : Remark) (s : State) :
    s.Spares ((unresolved env ident r).result s).2 := by
  unfold unresolved
  split
  · exact .refl s
  · exact .report s _

theorem spares_checkArguments (env : Env) (ident : String) (expected count : Nat) (s : State) :
    s.Spares ((checkArguments env ident expected count).result s).2 := by
  unfold checkArguments
  split
  · exact .refl s
  · split
    · exact .report s _
    · exact .refl s

theorem spares_applyBuiltin {b : Builtin} (hb : b ≠ .read) (env : Env) (args : List Number)
    (s : State) : s.Spares ((applyBuiltin b env args).result s).2 := by
  unfold applyBuiltin
  split
  · exact absurd rfl hb
  · rw [result_bind_ok (result_draw env s)]
    exact ⟨{ State.Extends.refl s with }, rfl⟩
  · split
    · next rule _ =>
      rcases rule.apply args with φ | v
      · exact .refl s
      · exact .refl s
    · exact .refl s

theorem spares_bind {α β : Type} {x : Run α} {k : α → Run β}
    (hk : ∀ (a : α) (t : State), t.Spares ((k a).result t).2) (s : State) :
    (x.result s).2.Spares ((x >>= k).result s).2 := by
  rw [result_bind]
  rcases x.result s with ⟨fault | a, t⟩
  · exact .refl t
  · exact hk a t

theorem spares_findValue {ev : Evaluator} {owner : Env} {bid : BindingId} (b : Binding)
    (hfree : owner.policy.guarded = true → (bid, owner.serial) ∉ s.active) :
    ((ev b.body owner).result (s.finding owner bid)).2.Spares
      ((findValue ev bid b owner).result s).2 := by
  obtain ⟨marks, hfound⟩ := @findValue_free ev owner bid b s hfree
  rw [hfound]
  exact ⟨{ State.Extends.refl _ with }, rfl⟩

end

/-! ## The course of an evaluation -/

/-- **Evaluations one after another**, between which no input is taken -/
inductive Course (f : Forest) : List Visit → State → State → Prop
  | nil {s t : State} : s.Spares t → Course f [] s t
  | cons {p : Visit} {rest : List Visit} {s t : State} : s.Spares p.state →
      Course f rest (p.result f).2 t → Course f (p :: rest) s t

namespace Course

variable {f : Forest} {parts : List Visit} {s s' t t' : State} {p : Visit}

theorem one (hs : s.Spares p.state) (ht : (p.result f).2.Spares t) : Course f [p] s t :=
  .cons hs (.nil ht)

theorem before (h : Course f parts s t) (hs : s'.Spares s) : Course f parts s' t := by
  cases h with
  | nil hspares => exact .nil (hs.trans hspares)
  | cons hspares hrest => exact .cons (hs.trans hspares) hrest

theorem after (h : Course f parts s t) (ht : t.Spares t') : Course f parts s t' := by
  induction h with
  | nil hspares => exact .nil (hspares.trans ht)
  | cons hspares _ ih => exact .cons hspares (ih ht)

theorem steps (h : Course f parts s t) : s.Extends t := by
  induction h with
  | nil hspares => exact hspares.toExtends
  | @cons p _ _ _ hspares _ ih =>
    exact (hspares.toExtends.trans (advances_evalNode f _ _ _ p.state).toExtends).trans ih

end Course

/-- **The operands of a row that have their turn**, one after another, up to the one that stops it -/
theorem course_row (f : Forest) (limit : Nat) (env : Env) (line : Value → Except Fault String)
    (refs : List Ref) (s : State) : ∃ parts t, Course f parts s t ∧
      (∀ p, HasTurn f limit env line refs s p ↔ p ∈ parts) ∧
      ((∃ values, InTurn (evalNode f limit) env line refs s values t) ∨
        ∃ fault, StopsInTurn (evalNode f limit) env line refs s fault t) := by
  induction refs generalizing s with
  | nil =>
    refine ⟨[], s, .nil (.refl s), fun p => ?_, Or.inl ⟨[], .nil⟩⟩
    constructor
    · rintro ⟨before, _, _, _, _, hrefs, _⟩
      cases before <;> cases hrefs
    · intro h
      cases h
  | cons ref rest ih =>
    have hfirst (t : State) (ht : ((evalNode f limit ref env).result s).2 = t)
        (hstop : ∀ value s₁ text, (evalNode f limit ref env).result s = (.ok value, s₁) →
          line value ≠ .ok text) : Course f [⟨limit, ref, env, s⟩] s t ∧
        ∀ p, HasTurn f limit env line (ref :: rest) s p ↔ p ∈ [(⟨limit, ref, env, s⟩ : Visit)] := by
      subst ht
      refine ⟨.one (.refl s) (.refl _), fun p => ?_⟩
      rw [hasTurn_stop hstop, List.mem_singleton]
    rcases href : (evalNode f limit ref env).result s with ⟨fault | value, s₁⟩
    · obtain ⟨hcourse, hturn⟩ := hfirst s₁ (by rw [href]) fun _ _ _ h => nomatch href.symm.trans h
      exact ⟨_, s₁, hcourse, hturn, Or.inr ⟨fault, [], ref, rest, [], s, rfl, .nil, Or.inl href⟩⟩
    · rcases htext : line value with fault | text
      · have hstop (value' : Value) (s' : State) (text : String)
            (h : (evalNode f limit ref env).result s = (.ok value', s')) :
            line value' ≠ .ok text := by
          cases href.symm.trans h
          rw [htext]
          intro heq
          cases heq
        obtain ⟨hcourse, hturn⟩ := hfirst s₁ (by rw [href]) hstop
        exact ⟨_, s₁, hcourse, hturn,
          Or.inr ⟨fault, [], ref, rest, [], s, rfl, .nil, Or.inr ⟨value, href, htext⟩⟩⟩
      · obtain ⟨parts, t, hcourse, hturn, hrow⟩ := ih { s₁ with output := s₁.output ++ text }
        refine ⟨⟨limit, ref, env, s⟩ :: parts, t, .cons (.refl s) ?_, fun p => ?_, ?_⟩
        · refine hcourse.before ?_
          rw [Visit.result, href]
          exact .write s₁ text
        · rw [hasTurn_cons href htext, hturn, List.mem_cons]
        · rcases hrow with ⟨values, hvalues⟩ | ⟨fault, hstop⟩
          · exact Or.inl ⟨value :: values, .cons href htext hvalues⟩
          · exact Or.inr ⟨fault, hstop.cons href htext⟩

/-- **What the evaluation of a node begins is begun one after another**, and besides it no input is
taken. -/
def Ordered (f : Forest) (limit : Nat) (id : NodeId) (shape : Shape) (env : Env) (s : State) :
    Prop :=
  ∃ parts, Course f parts s ((evalShape f (evalNode f limit) id shape env).result s).2 ∧
    ∀ p, Opens f limit id shape env s p ↔ p ∈ parts

section
variable {f : Forest} {limit : Nat} {id : NodeId} {shape : Shape} {env env' : Env} {s s' : State}
  {ref : Ref}

theorem ordered_none
    (hnone : ∀ ref env' s', ¬ Part f (evalNode f limit) id shape env s ref env' s')
    (hspares : s.Spares ((evalShape f (evalNode f limit) id shape env).result s).2) :
    Ordered f limit id shape env s := by
  refine ⟨[], .nil hspares, fun p => ?_⟩
  constructor
  · intro h
    exact absurd h.2 (hnone _ _ _)
  · intro h
    cases h

theorem ordered_one (hpart : ∀ ref₁ env₁ s₁,
      Part f (evalNode f limit) id shape env s ref₁ env₁ s₁ ↔ ref₁ = ref ∧ env₁ = env' ∧ s₁ = s')
    (hs : s.Spares s') (ht : ((evalNode f limit ref env').result s').2.Spares
      ((evalShape f (evalNode f limit) id shape env).result s).2) :
    Ordered f limit id shape env s := by
  refine ⟨[⟨limit, ref, env', s'⟩], .one hs ht, fun p => ?_⟩
  rw [List.mem_singleton]
  exact opens_iff_eq hpart

theorem ordered_symbol (ident : String) : Ordered f limit id (.symbol ident) env s := by
  rcases hfound : env.lookup? f ident with _ | ⟨⟨ref, caller⟩ | ⟨bid, b⟩, owner⟩
  · refine ordered_none (fun ref env' s' hpart => ?_) ?_
    · cases hpart with
      | argument hfound' => cases hfound.symm.trans hfound'
      | value hfound' _ _ => cases hfound.symm.trans hfound'
    · simp only [evalShape, evalSymbol, hfound]
      exact spares_unresolved env ident _ s
  · refine ordered_one (fun ref₁ env₁ s₁ => part_argument_iff hfound) (.refl s) ?_
    simp only [evalShape, evalSymbol, hfound]
    exact .refl _
  · rcases hrole : b.role with _ | parameters
    · have hvalue : (evalShape f (evalNode f limit) id (.symbol ident) env).result s
          = (findValue (evalNode f limit) bid b owner >>= coerce owner b.kind b.ident).result s := by
        simp only [evalShape, evalSymbol, hfound, hrole, evalVariable_eq]
      by_cases hfree : owner.policy.guarded = true → (bid, owner.serial) ∉ s.active
      · refine ordered_one (fun ref₁ env₁ s₁ => part_variable_iff hfound hrole hfree)
          (.finding s owner bid) ?_
        rw [hvalue]
        exact (spares_findValue b hfree).trans (spares_bind (spares_coerce owner b.kind b.ident) s)
      · refine ordered_none (fun ref env' s' hpart => ?_) ?_
        · exact hfree ((part_symbol_iff hfound).1 hpart).2.1
        · obtain ⟨hguard, hactive⟩ := Classical.not_imp.1 hfree
          rw [hvalue, result_bind_error (findValue_active hguard _ b (not_not.1 hactive))]
          exact .refl s
    · refine ordered_none (fun ref env' s' hpart => ?_) ?_
      · cases hrole.symm.trans ((part_symbol_iff hfound).1 hpart).1
      · simp only [evalShape, evalSymbol, hfound, hrole]
        exact .refl s

theorem ordered_call (ident : Option String) (operands : List Ref) (checked : Bool) :
    Ordered f limit id (.call .custom ident operands checked) env s := by
  rcases ident with _ | name
  · exact ordered_none (fun _ _ _ hpart => nomatch hpart) (.refl s)
  · rcases hfound : env.lookup? f name with _ | ⟨⟨ref, caller⟩ | ⟨bid, b⟩, owner⟩
    · refine ordered_none (fun ref env' s' hpart => ?_) ?_
      · cases hpart with
        | body hfound' _ _ => cases hfound.symm.trans hfound'
      · simp only [evalShape, evalCall, hfound]
        exact spares_unresolved env name _ s
    · refine ordered_none (fun ref env' s' hpart => ?_) ?_
      · cases hpart with
        | body hfound' _ _ => cases hfound.symm.trans hfound'
      · simp only [evalShape, evalCall, hfound]
        exact .refl s
    · rcases hrole : b.role with _ | parameters
      · refine ordered_none (fun ref env' s' hpart => ?_) ?_
        · obtain ⟨_, _, hrole', _⟩ := (part_function_iff hfound).1 hpart
          cases hrole.symm.trans hrole'
        · simp only [evalShape, evalCall, hfound, hrole]
          exact .refl s
      · have hcall : (evalShape f (evalNode f limit) id (.call .custom (some name) operands checked)
            env).result s
              = (applyFunction (evalNode f limit) b parameters operands owner env).result s := by
          simp only [evalShape, evalCall, hfound, hrole]
        have hargs := spares_checkArguments env b.ident parameters.length operands.length s
        rcases hcheck : (checkArguments env b.ident parameters.length operands.length).result s
          with ⟨fault | ⟨⟩, s₁⟩
        · rw [hcheck] at hargs
          refine ordered_none (fun ref env' s' hpart => ?_) ?_
          · obtain ⟨_, _, hrole', hcheck', _⟩ := (part_function_iff hfound).1 hpart
            cases hrole.symm.trans hrole'
            cases hcheck.symm.trans hcheck'
          · rw [hcall, applyFunction, result_bind_error hcheck]
            exact hargs
        · rw [hcheck] at hargs
          refine ordered_one (fun ref₁ env₁ t₁ => part_body_iff hfound hrole hcheck)
            (hargs.trans (.fresh s₁ 1)) ?_
          rw [hcall, applyFunction, result_bind_ok hcheck, result_bind_ok (result_fresh s₁)]
          exact spares_bind (spares_coerce env b.kind b.ident) _

theorem ordered_choice (test ifTrue ifFalse : Ref) :
    Ordered f limit id (.choice test ifTrue ifFalse) env s := by
  by_cases hnumber : ∃ v s₁, (evalNode f limit test env).result s = (.ok (some v), s₁)
  · obtain ⟨v, s₁, htest⟩ := hnumber
    refine ⟨[⟨limit, test, env, s⟩, ⟨limit, if v.amount.isZero then ifFalse else ifTrue, env, s₁⟩],
      .cons (.refl s) (.one ?_ ?_), fun p => ?_⟩
    · rw [Visit.result, htest]
      exact .refl s₁
    · rw [evalShape, evalChoice, result_bind_ok htest, Visit.result]
      dsimp only
      split
      · exact .refl _
      · exact .refl _
    · constructor
      · rintro ⟨rfl, hpart⟩
        obtain ⟨limit, ref, env', s'⟩ := p
        cases hpart with
        | test => exact List.mem_cons_self
        | branch htest' =>
          rw [htest] at htest'
          cases htest'
          exact List.mem_cons_of_mem _ List.mem_cons_self
      · intro hp
        rcases List.mem_cons.1 hp with rfl | hp
        · exact ⟨rfl, .test⟩
        · rw [List.mem_singleton.1 hp]
          exact ⟨rfl, .branch htest⟩
  · have hnone (v : Number) (t : State) :
        (evalNode f limit test env).result s ≠ (.ok (some v), t) :=
      fun h => hnumber ⟨v, t, h⟩
    refine ordered_one (fun ref₁ env₁ t₁ => part_test_iff hnone) (.refl s) ?_
    rw [evalShape, evalChoice, result_bind]
    rcases htest : (evalNode f limit test env).result s with ⟨fault | _ | v, s₁⟩
    · exact .refl s₁
    · exact .refl s₁
    · exact absurd htest (hnone v s₁)

theorem ordered_builtin {b : Builtin} (hb : b ≠ .read) (ident : Option String)
    (operands : List Ref) (checked : Bool) :
    Ordered f limit id (.call (.builtin b) ident operands checked) env s := by
  by_cases hlacks : Lacks b operands.length checked (env.context, id) s
  · refine ordered_none (fun ref env' s' hpart => (part_builtin_iff.1 hpart).1 hlacks) ?_
    rw [evalShape, evalBuiltin_eq, result_bind_error (countUnchecked_of_lacks hlacks)]
    exact .refl s
  · have hcount := countUnchecked_of_not_lacks hlacks
    obtain ⟨parts, t, hcourse, hturn, hrow⟩ := course_row f limit env (b.line env.policy.places)
      (usedOperands b operands) (s.counting id b operands checked env)
    refine ⟨parts, (hcourse.before (.counting s id b operands checked env)).after ?_, fun p => ?_⟩
    · rw [evalShape]
      rcases hrow with ⟨values, hvalues⟩ | ⟨fault, hstop⟩
      · rcases hlazy : b.isLazy with _ | _
        · rw [evalBuiltin_computes hcount hvalues hlazy]
          rcases present? values with _ | args
          · exact .refl t
          · exact spares_applyBuiltin hb env args t
        · rw [evalBuiltin_prints hcount hvalues hlazy]
          exact .refl t
      · rw [evalBuiltin_stops hcount hstop]
        exact .refl t
    · rw [← hturn, opens_operand_iff]
      exact and_iff_right hlacks

end

/-! ## Evaluations that read -/

def Visit.Asks (f : Forest) (w : Visit) : Prop :=
  ∃ id node ident operands checked, w.ref = .node id ∧ f.node? id = some node ∧
    node.shape = .call (.builtin .read) ident operands checked

/-- **An evaluation reads a number**: it is of a call of the operator that reads, and its value is
that number. -/
structure Visit.Reads (f : Forest) (w : Visit) (amount : Amount) : Prop where
  asks : w.Asks f
  value : (w.result f).1 = .ok (some (.make amount .float))

theorem Visit.Reads.unique {f : Forest} {w : Visit} {x y : Amount} (hx : w.Reads f x)
    (hy : w.Reads f y) : x = y := by
  have h := hx.value.symm.trans hy.value
  cases h
  rfl

section
variable {f : Forest}

/-- **What an evaluation begins is begun one after another**, and besides it no input is taken,
unless the evaluation is of a call of the operator that reads. -/
theorem course_of_visit (v : Visit) (h : v.limit = 0 ∨ ¬ v.Asks f) :
    ∃ parts, Course f parts v.state (v.result f).2 ∧ ∀ p, Begins f v p ↔ p ∈ parts := by
  have hnone (hbegins : ∀ p, ¬ Begins f v p) (hstate : (v.result f).2 = v.state) :
      ∃ parts, Course f parts v.state (v.result f).2 ∧ ∀ p, Begins f v p ↔ p ∈ parts := by
    refine ⟨[], .nil (by rw [hstate]; exact .refl _), fun p => ?_⟩
    exact ⟨fun hp => absurd hp (hbegins p), fun hp => by cases hp⟩
  obtain ⟨limit, ref, env, s⟩ := v
  cases limit with
  | zero => exact hnone (fun p hp => absurd (limit_of_begins hp) (by simp)) rfl
  | succ limit =>
    cases ref with
    | absent => exact hnone (fun p hp => by cases hp) rfl
    | foreign typeName serial => exact hnone (fun p hp => by cases hp) rfl
    | node id =>
      rcases hnode : f.node? id with _ | node
      · refine hnone (fun p hp => ?_) (by simp only [Visit.result, evalNode, hnode]; rfl)
        cases hp with
        | part hnode' _ _ =>
          rw [hnode] at hnode'
          cases hnode'
      · obtain ⟨inner, s₁, henter, hs₁⟩ : ∃ inner s₁,
            (enter f node env).result s = (.ok inner, s₁) ∧ s.Spares s₁ :=
          ⟨_, _, result_enter f node env s, .fresh s _⟩
        have hordered : Ordered f limit id node.shape inner s₁ := by
          rcases hshape : node.shape with v | ident | ⟨b | _, ident, operands, checked⟩ |
            ⟨test, ifTrue, ifFalse⟩
          · exact ordered_none (fun _ _ _ hpart => by cases hpart) (.refl s₁)
          · exact ordered_symbol ident
          · refine ordered_builtin (fun hb => ?_) ident operands checked
            subst hb
            rcases h with hlimit | hasks
            · cases hlimit
            · exact hasks ⟨id, node, ident, operands, checked, rfl, hnode, hshape⟩
          · exact ordered_call ident operands checked
          · exact ordered_choice test ifTrue ifFalse
        obtain ⟨parts, hcourse, hparts⟩ := hordered
        refine ⟨parts, ?_, fun p => (begins_iff_opens hnode henter).trans (hparts p)⟩
        rw [Visit.result, evalNode_node hnode, result_bind_ok henter]
        exact hcourse.before hs₁

end

/-- **The evaluations of a kind that read numbers, in order**, each with its number: they lie between
two states of a run, and the numbers are what the input has lost from the one to the other. -/
structure Readings (f : Forest) (kind : Visit → Prop) (s t : State)
    (reads : List (Visit × Amount)) : Prop where
  mem : ∀ w amount, (w, amount) ∈ reads ↔ kind w ∧ w.Reads f amount
  /-- one is over before the next one begins -/
  order : reads.Pairwise fun p q => (p.1.result f).2.Extends q.1.state
  begins : ∀ p ∈ reads, s.Extends p.1.state
  ends : ∀ p ∈ reads, (p.1.result f).2.Extends t
  numbers : numbersOf s.input = reads.map (·.2) ++ numbersOf t.input

section
variable {f : Forest} {kind kind' : Visit → Prop} {s s' t u : State}
  {reads reads' : List (Visit × Amount)} {parts : List Visit} {v : Visit}

theorem Readings.none (hnone : ∀ w amount, kind w → ¬ w.Reads f amount)
    (hnumbers : numbersOf s.input = numbersOf t.input) : Readings f kind s t [] where
  mem w amount := ⟨fun h => (nomatch h), fun h => absurd h.2 (hnone w amount h.1)⟩
  order := .nil
  begins _ h := nomatch h
  ends _ h := nomatch h
  numbers := hnumbers

theorem Readings.append (h : Readings f kind s t reads) (h' : Readings f kind' t u reads')
    (hst : s.Extends t) (htu : t.Extends u) :
    Readings f (fun w => kind w ∨ kind' w) s u (reads ++ reads') where
  mem w amount := by rw [List.mem_append, h.mem, h'.mem, or_and_right]
  order := List.pairwise_append.2 ⟨h.order, h'.order, fun p hp q hq =>
    (h.ends p hp).trans (h'.begins q hq)⟩
  begins p hp := (List.mem_append.1 hp).elim (h.begins p) fun hp => hst.trans (h'.begins p hp)
  ends p hp := (List.mem_append.1 hp).elim (fun hp => (h.ends p hp).trans htu) (h'.ends p)
  numbers := by rw [h.numbers, h'.numbers, List.map_append, List.append_assoc]

theorem Readings.before (h : Readings f kind s t reads) (hs : s'.Spares s) :
    Readings f kind s' t reads where
  mem := h.mem
  order := h.order
  begins p hp := hs.toExtends.trans (h.begins p hp)
  ends := h.ends
  numbers := by rw [← hs.kept, h.numbers]

/-- evaluations that read are those of the parts, in the order of these -/
theorem readings_of_course (h : Course f parts s t)
    (hparts : ∀ p ∈ parts, ∃ reads, Readings f (Visits f p) p.state (p.result f).2 reads) :
    ∃ reads, Readings f (fun w => ∃ p ∈ parts, Visits f p w) s t reads := by
  induction h with
  | nil hspares =>
    refine ⟨[], .none (fun w _ hw => ?_) (by rw [hspares.kept])⟩
    obtain ⟨p, hp, _⟩ := hw
    cases hp
  | @cons p rest s t hspares hrest ih =>
    obtain ⟨hp, hlater⟩ := List.forall_mem_cons.1 hparts
    obtain ⟨reads, hreads⟩ := hp
    obtain ⟨reads', hreads'⟩ := ih hlater
    have hpart : p.state.Extends (p.result f).2 := (advances_evalNode f _ _ _ p.state).toExtends
    have hall := (hreads.append hreads' hpart hrest.steps).before hspares
    refine ⟨reads ++ reads', { hall with mem := fun w amount => ?_ }⟩
    rw [hall.mem]
    simp only [List.mem_cons, exists_eq_or_imp]

theorem result_of_asks (hlimit : v.limit ≠ 0) (hasks : v.Asks f) : (∀ p, ¬ Begins f v p) ∧
    ∃ inner s₁, inner.policy = v.env.policy ∧ v.state.Spares s₁ ∧
      v.result f = (readNumber inner).result s₁ := by
  obtain ⟨limit, ref, env, s⟩ := v
  obtain ⟨limit, rfl⟩ := Nat.exists_eq_succ_of_ne_zero hlimit
  obtain ⟨id, node, ident, operands, checked, href, hnode, hshape⟩ := hasks
  cases href
  obtain ⟨inner, s₁, henter, hpolicy, hs₁⟩ : ∃ inner s₁,
      (enter f node env).result s = (.ok inner, s₁) ∧ inner.policy = env.policy ∧ s.Spares s₁ :=
    ⟨_, _, result_enter f node env s, Env.policy_push _ _ _, .fresh s _⟩
  have hlacks : ¬ Lacks .read operands.length checked (inner.context, id) s₁ :=
    fun h => absurd h.2.2 (Nat.not_lt_zero _)
  refine ⟨fun p hp => ?_, inner, s₁.counting id .read operands checked inner, hpolicy, ?_, ?_⟩
  · obtain ⟨_, before, ref, after, _, _, hused, _⟩ := (begins_operand_iff hnode hshape henter).1 hp
    cases before <;> cases hused
  · exact hs₁.trans (.counting s₁ id .read operands checked inner)
  · rw [Visit.result, result_builtin hnode hshape henter limit]
    exact evalBuiltin_computes (countUnchecked_of_not_lacks hlacks) .nil rfl

theorem readings_of_asks (hlimit : v.limit ≠ 0) (hasks : v.Asks f) :
    ∃ reads, Readings f (Visits f v) v.state (v.result f).2 reads := by
  obtain ⟨hbegins, inner, s₁, _, hs₁, hresult⟩ := result_of_asks hlimit hasks
  have hself (w : Visit) : Visits f v w ↔ w = v := by
    constructor
    · intro hw
      rcases Relation.ReflTransGen.cases_head hw with rfl | ⟨p, hp, _⟩
      · rfl
      · exact absurd hp (hbegins p)
    · rintro rfl
      exact .refl
  rw [result_readNumber] at hresult
  have hnumbers := numbersOf_awaitNumber s₁.input
  rw [hs₁.kept] at hnumbers hresult
  rcases hamount : (awaitNumber v.state.input).amount with _ | amount
  · rw [hamount] at hresult hnumbers
    refine ⟨[], .none (fun w amount hw hreads => ?_) (by rw [hresult]; exact hnumbers)⟩
    rw [(hself w).1 hw] at hreads
    have hvalue := hreads.value
    rw [hresult] at hvalue
    cases hvalue
  · rw [hamount] at hresult hnumbers
    have hreads : v.Reads f amount := ⟨hasks, by rw [hresult]⟩
    refine ⟨[(v, amount)], fun w x => ?_, List.pairwise_singleton _ _, ?_, ?_, ?_⟩
    · rw [List.mem_singleton, Prod.mk.injEq, hself]
      constructor
      · rintro ⟨rfl, rfl⟩
        exact ⟨rfl, hreads⟩
      · rintro ⟨rfl, hx⟩
        exact ⟨rfl, hx.unique hreads⟩
    · intro p hp
      rw [List.mem_singleton.1 hp]
      exact .refl _
    · intro p hp
      rw [List.mem_singleton.1 hp]
      exact .refl _
    · rw [hresult]
      exact hnumbers

/-- **The numbers that a run reads are the first numbers of its input**, in the order in which it
reads them. -/
theorem readings_of_visit (f : Forest) (v : Visit) :
    ∃ reads, Readings f (Visits f v) v.state (v.result f).2 reads := by
  generalize hlimit : v.limit = limit
  induction limit using Nat.strongRecOn generalizing v with
  | ind limit ih =>
    by_cases hasks : v.limit ≠ 0 ∧ v.Asks f
    · exact readings_of_asks hasks.1 hasks.2
    · have hfree : v.limit = 0 ∨ ¬ v.Asks f := by
        rwa [not_and_or, not_not] at hasks
      obtain ⟨parts, hcourse, hparts⟩ := course_of_visit v hfree
      obtain ⟨reads, hreads⟩ := readings_of_course hcourse fun p hp =>
        ih p.limit (by have := limit_of_begins ((hparts p).2 hp); omega) p rfl
      refine ⟨reads, { hreads with mem := fun w amount => ?_ }⟩
      rw [hreads.mem]
      constructor
      · rintro ⟨⟨p, hp, hw⟩, hamount⟩
        exact ⟨.head ((hparts p).2 hp) hw, hamount⟩
      · rintro ⟨hw, hamount⟩
        rcases Relation.ReflTransGen.cases_head hw with rfl | ⟨p, hp, hw⟩
        · rcases hfree with hzero | hfree
          · have hvalue := hamount.value
            rw [Visit.result, hzero] at hvalue
            cases hvalue
          · exact absurd hamount.asks hfree
        · exact ⟨⟨p, (hparts p).1 hp, hw⟩, hamount⟩

end

theorem readDecimal?_of_blank {line : List Char} (h : ∀ c ∈ line, isBlank c = true) :
    readDecimal? line = none := by
  have hdrop : line.dropWhile isBlank = [] := List.dropWhile_eq_nil_iff.2 h
  have hstrip : stripChars line = [] := by rw [stripChars, hdrop]; rfl
  unfold readDecimal?
  rw [hstrip]
  rfl

/-- **What is read, refused and taken, and in which order.**  Reading refuses the lines before the
first number of the input one by one, with a prompt and a report for each, and takes them together
with the line of that number, whose amount is the floating-point number that is read.  If no line is
a number, all of them are refused and taken, and after one prompt more the input has ended.  A blank
line is a line like any other, and no number.  The evaluations of a run that read numbers, one after
another, read the first numbers of the input of the run, in the order of its lines. -/
theorem reading_in_turn :
    (∀ (env : Env) (args : List Number) (s : State) (refused later : List (List Char))
      (line : List Char) (amount : Amount), linesOf s.input = refused ++ line :: later →
      (∀ l ∈ refused, readDecimal? l = none) → readDecimal? line = some amount →
      ∃ taken rest, s.input = taken ++ rest ∧ linesOf taken = refused ++ [line] ∧
        linesOf rest = later ∧
        (applyBuiltin .read env args).result s = (.ok (some (.make amount .float)), { s with
          input := rest
          output := s.output ++ String.join (List.replicate (refused.length + 1) promptText)
          reports := s.reports ++ refusals env refused })) ∧
    (∀ (env : Env) (args : List Number) (s : State),
      (∀ l ∈ linesOf s.input, readDecimal? l = none) →
      (applyBuiltin .read env args).result s = (.error .inputEnd, { s with
        input := []
        output := s.output ++
          String.join (List.replicate ((linesOf s.input).length + 1) promptText)
        reports := s.reports ++ refusals env (linesOf s.input) })) ∧
    (∀ line rest : List Char, (∀ c ∈ line, isBlank c = true) → '\n' ∉ line →
      readDecimal? line = none ∧ linesOf (line ++ '\n' :: rest) = line :: linesOf rest) ∧
    ∀ (f : Forest) (v : Visit),
      (v.limit ≠ 0 → v.Asks f → ∃ inner s, inner.policy = v.env.policy ∧ v.state.Spares s ∧
        v.result f = (applyBuiltin .read inner []).result s) ∧
      ∃ reads, Readings f (Visits f v) v.state (v.result f).2 reads ∧
        ∀ (j : Nat) (w : Visit) (amount : Amount), reads[j]? = some (w, amount) →
          (numbersOf v.state.input)[j]? = some amount := by
  refine ⟨?_, ?_, fun line rest hblank hline => ?_, fun f v => ⟨fun hlimit hasks => ?_, ?_⟩⟩
  · intro env args s refused later line amount hlines hrefused hline
    obtain ⟨rest, taken, hawait, hinput, htaken, hrest⟩ :=
      awaitNumber_accepted hlines hrefused hline
    refine ⟨taken, rest, hinput, htaken, hrest, ?_⟩
    show (readNumber env).result s = _
    rw [result_readNumber, hawait]
    rfl
  · intro env args s hrefused
    show (readNumber env).result s = _
    rw [result_readNumber, awaitNumber_refused hrefused]
    rfl
  · exact ⟨readDecimal?_of_blank hblank, linesOf_newline hline rest⟩
  · exact (result_of_asks hlimit hasks).2
  · obtain ⟨reads, hreads⟩ := readings_of_visit f v
    refine ⟨reads, hreads, fun j w amount hj => ?_⟩
    have hlength : j < (reads.map (·.2)).length := by
      rw [List.length_map]
      exact (List.getElem?_eq_some_iff.1 hj).1
    rw [hreads.numbers, List.getElem?_append_left hlength, List.getElem?_map, hj]
    rfl

def twoReads : Forest :=
  ⟨#[⟨.call (.builtin .read) none [] true, none, none⟩,
    ⟨.call (.builtin .read) none [] true, none, none⟩,
    ⟨.call (.builtin .add) none [.node ⟨0⟩, .node ⟨1⟩] true, none, none⟩], #[], #[]⟩

/-- the first number comes after a line that is none and a blank one, and the second one is last, on
a line without an end -/
theorem reading_in_turn_twoReads :
    let input := "x\n\n1\n2".toList
    let env : Env := .root 0 { strict := true }
    let s : State := .start input (.ofSeed 0)
    let first : Visit := ⟨1, .node ⟨0⟩, env, s⟩
    let v : Visit := ⟨2, .node ⟨2⟩, env, s⟩
    (∃ rest, linesOf rest = [['2']] ∧
      (applyBuiltin .read env []).result s = (.ok (some (.make (.ofNumeral ['1']) .float)), { s with
        input := rest
        output := s.output ++ String.join [promptText, promptText, promptText]
        reports := s.reports ++ refusals env [['x'], []] })) ∧
    (applyBuiltin .read env []).result { s with input := ['x'] } = (.error .inputEnd, { s with
      input := []
      output := s.output ++ String.join [promptText, promptText]
      reports := s.reports ++ refusals env [['x']] }) ∧
    readDecimal? [' '] = none ∧
    (∃ inner t, s.Spares t ∧ first.result twoReads = (applyBuiltin .read inner []).result t) ∧
    ∃ reads, Readings twoReads (Visits twoReads v) s (v.result twoReads).2 reads ∧
      ∀ (j : Nat) (w : Visit) (amount : Amount), reads[j]? = some (w, amount) →
        [Amount.ofNumeral ['1'], .ofNumeral ['2']][j]? = some amount := by
  intro input env s first v
  obtain ⟨haccepted, hrefused, hblank, hruns⟩ := reading_in_turn
  have hlines : linesOf s.input = [['x'], []] ++ ['1'] :: [['2']] := rfl
  obtain ⟨taken, rest, _, _, hrest, hread⟩ :=
    haccepted env [] s [['x'], []] [['2']] ['1'] _ hlines (by decide) rfl
  have hnone : ∀ l ∈ linesOf ['x'], readDecimal? l = none := by
    intro l hl
    cases List.mem_singleton.1 hl
    rfl
  have hspace : ∀ c ∈ [' '], isBlank c = true := by
    intro c hc
    cases List.mem_singleton.1 hc
    rfl
  refine ⟨⟨rest, hrest, hread⟩, hrefused env [] { s with input := ['x'] } hnone,
    (hblank [' '] [] hspace (by decide)).1, ?_, ?_⟩
  · obtain ⟨inner, t, _, hspares, hfirst⟩ := (hruns twoReads first).1 (by decide)
      ⟨⟨0⟩, _, none, [], true, rfl, rfl, rfl⟩
    exact ⟨inner, t, hspares, hfirst⟩
  · obtain ⟨reads, hreads, hinput⟩ := (hruns twoReads v).2
    have hnumbers : numbersOf v.state.input = [.ofNumeral ['1'], .ofNumeral ['2']] := rfl
    rw [hnumbers] at hinput
    exact ⟨reads, hreads, hinput⟩

end Abacus
