import Abacus.Proofs.Evaluation.Frames
import Abacus.Proofs.Evaluation.Upkeep
import Abacus.Proofs.Forms.Scene
import Abacus.Proofs.Source.Standing

/-!
# Nodes have the values of their forms

A scene depicts an environment: each frame of a table is a scope, in which those variables are being
found whose marks are set for that frame, and each frame of a call has arguments that stand for the
same forms.  A node that stands for a form is evaluated to the value of the form, and what is read,
printed, reported and drawn is the same.

* `Depicts`            a scene depicts an environment;
* `Depicts.find`       what a name denotes and what it means;
* `Mirrors`            two computations do the same, marks and serial numbers aside;
* `mirrors_evalNode`   **the node of a form has the value of the form**;
* `outcome_of_whole`   so it has at the start of a run.
-/

namespace Abacus

open Run

/-! ## Scenes and environments -/

/-- **A scene depicts an environment** in which some variables are marked; the serial numbers of its
frames fall inward, from a bound on. -/
inductive Depicts (f : Forest) (policy : Policy) (active : List Mark) :
    Nat → Env → Scene → Prop
  | root {bound n : Nat} : Depicts f policy active bound (.root n policy) .top
  | empty {bound : Nat} {env : Env} {around : Scene} : Depicts f policy active bound env around →
      Depicts f policy active bound env (.scope [] [] around)
  | scope {bound n : Nat} {id : NodeId} {t : TableId} {table : Table} {parent : Env}
      {definitions : List Definition} {finding : List String} {around : Scene} : n < bound →
      f.table? t = some table → List.Forall₂ (Binds f id) table.bindings definitions →
      (∀ name bid b, f.find? t name = some (bid, b) → ((bid, n) ∈ active ↔ name ∈ finding)) →
      Depicts f policy active n parent around →
      Depicts f policy active bound (.frame n none [] (some t) parent)
        (.scope definitions finding around)
  | call {bound n : Nat} {label : Option String} {parameters : List (String × Thunk)}
      {arguments : List (String × Form)} {callerEnv parent : Env} {caller around : Scene} :
      n < bound →
      (∀ name, arguments.lookup name = none → parameters.lookup name = none) →
      (∀ name form, arguments.lookup name = some form → ∃ id,
        parameters.lookup name = some (.node id, callerEnv) ∧ f.Whole id form) →
      Depicts f policy active n callerEnv caller → Depicts f policy active n parent around →
      Depicts f policy active bound (.frame n label parameters none parent)
        (.call arguments caller around)

section
variable {f : Forest} {p : Policy} {active : List Mark} {bound bound' n : Nat} {env : Env}
  {scene : Scene} {name : String}

theorem Depicts.mono (h : Depicts f p active bound env scene) (hle : bound ≤ bound') :
    Depicts f p active bound' env scene := by
  induction h with
  | root => exact .root
  | empty _ ih => exact .empty (ih hle)
  | scope hn htable hall hfinding hparent =>
    exact .scope (Nat.lt_of_lt_of_le hn hle) htable hall hfinding hparent
  | call hn hnone hsome hcaller hparent =>
    exact .call (Nat.lt_of_lt_of_le hn hle) hnone hsome hcaller hparent

theorem Depicts.policy (h : Depicts f p active bound env scene) : env.policy = p := by
  induction h with
  | root => rfl
  | empty _ ih => exact ih
  | scope _ _ _ _ _ ih => rw [Env.policy_frame, ih]
  | call _ _ _ _ _ _ ih => rw [Env.policy_frame, ih]

/-- a mark for a frame outside changes nothing -/
theorem Depicts.mark (h : Depicts f p active bound env scene) (hle : bound ≤ n)
    (bid : BindingId) : Depicts f p ((bid, n) :: active) bound env scene := by
  induction h with
  | root => exact .root
  | empty _ ih => exact .empty (ih hle)
  | @scope _ m _ _ _ _ _ _ _ hm htable hall hfinding _ ih =>
    refine .scope hm htable hall ?_ (ih (by omega))
    intro name bid' b hfind
    have hne : (bid', m) ≠ (bid, n) := fun heq => by
      have hmn : m = n := congrArg Prod.snd heq
      omega
    rw [List.mem_cons, or_iff_right hne]
    exact hfinding name bid' b hfind
  | call hm hnone hsome _ _ ihcaller ihparent =>
    exact .call hm hnone hsome (ihcaller (by omega)) (ihparent (by omega))

/-! ## Names -/

theorem find_binds {id : NodeId} {t : TableId} {table : Table} {definitions : List Definition}
    (htable : f.table? t = some table)
    (hall : List.Forall₂ (Binds f id) table.bindings definitions) (name : String) :
    f.find? t name = none ∧ definitions.find? (·.name == name) = none ∨
      ∃ bid b d, f.find? t name = some (bid, b) ∧
        definitions.find? (·.name == name) = some d ∧ Binds f id bid d ∧ f.binding? bid = some b ∧
        d.name = name := by
  unfold Forest.find? Forest.bindingsOf
  rw [htable]
  dsimp only
  clear htable
  generalize table.bindings = bids at hall
  induction hall with
  | nil => exact Or.inl ⟨rfl, rfl⟩
  | @cons bid d bids ds hbinds _ ih =>
    have hbinding : ∃ b, f.binding? bid = some b ∧ b.ident = d.name := by
      cases d with
      | value =>
        obtain ⟨c, hb, _⟩ := hbinds
        exact ⟨_, hb, rfl⟩
      | function =>
        obtain ⟨c, hb, _⟩ := hbinds
        exact ⟨_, hb, rfl⟩
    obtain ⟨b, hb, hident⟩ := hbinding
    simp only [List.filterMap_cons, hb, Option.map_some, List.find?_cons, hident]
    by_cases hname : d.name = name
    · rw [beq_iff_eq.2 hname]
      exact Or.inr ⟨bid, b, d, rfl, rfl, hbinds, hb, hname⟩
    · rw [beq_eq_false_iff_ne.2 hname]
      exact ih

/-- **What a name denotes in an environment and means in the scene that depicts it** -/
inductive Conveys (f : Forest) (policy : Policy) (active : List Mark) (bound : Nat)
    (name : String) : Option (Env.Found × Env) → Option Meaning → Prop
  | none : Conveys f policy active bound name none none
  | argument {id : NodeId} {form : Form} {env owner : Env} {caller : Scene} : f.Whole id form →
      Depicts f policy active bound env caller →
      Conveys f policy active bound name (some (.thunk (.node id) env, owner))
        (some (.argument form caller))
  | value {bid : BindingId} {id : NodeId} {body : Form} {type : Option String} {busy : Bool}
      {owner : Env} {inside : Scene} : f.Whole id body → owner.serial < bound →
      (busy = true ↔ (bid, owner.serial) ∈ active) →
      Depicts f policy ((bid, owner.serial) :: active) bound owner inside →
      Conveys f policy active bound name
        (some (.binding bid ⟨name, type.bind Kind.ofName?, .node id, .value⟩, owner))
        (some (.value body type busy inside))
  | function {bid : BindingId} {id : NodeId} {parameters : List String} {body : Form}
      {type : Option String} {owner : Env} {inside : Scene} : f.Whole id body →
      Depicts f policy active bound owner inside →
      Conveys f policy active bound name
        (some (.binding bid ⟨name, type.bind Kind.ofName?, .node id, .function parameters⟩, owner))
        (some (.function parameters body type inside))

theorem Conveys.mono {found : Option (Env.Found × Env)} {meaning : Option Meaning}
    (h : Conveys f p active bound name found meaning) (hle : bound ≤ bound') :
    Conveys f p active bound' name found meaning := by
  cases h with
  | none => exact .none
  | argument hwhole hcaller => exact .argument hwhole (hcaller.mono hle)
  | value hwhole hserial hbusy hinside =>
    exact .value hwhole (Nat.lt_of_lt_of_le hserial hle) hbusy (hinside.mono hle)
  | function hwhole hinside => exact .function hwhole (hinside.mono hle)

theorem Depicts.meaning {id : NodeId} {t : TableId} {table : Table} {parent : Env}
    {definitions : List Definition} {finding : List String} {around : Scene} (hn : n < bound)
    (htable : f.table? t = some table)
    (hall : List.Forall₂ (Binds f id) table.bindings definitions)
    (hfinding : ∀ name bid b, f.find? t name = some (bid, b) →
      ((bid, n) ∈ active ↔ name ∈ finding))
    (hparent : Depicts f p active n parent around) {bid : BindingId} {b : Binding}
    {d : Definition} (hfind : f.find? t d.name = some (bid, b)) (hb : f.binding? bid = some b)
    (hbinds : Binds f id bid d) :
    Conveys f p active bound d.name
      (some (.binding bid b, .frame n none [] (some t) parent))
      (some (d.meaning definitions finding around)) := by
  cases d with
  | value name body type =>
    obtain ⟨c, hb', _, hwhole⟩ := hbinds
    rw [hb] at hb'
    cases hb'
    refine .value hwhole hn ?_ (.scope hn htable hall ?_ (hparent.mark (Nat.le_refl n) bid))
    · rw [List.contains_iff_mem]
      exact (hfinding name bid _ hfind).symm
    · intro other bid' b' hfind'
      obtain ⟨hb', hother⟩ := Forest.binding_of_find? hfind'
      rw [List.mem_cons, List.mem_cons, hfinding other bid' b' hfind']
      refine or_congr_left ?_
      constructor
      · intro hmark
        cases hmark
        rw [hb] at hb'
        cases hb'
        exact hother.symm
      · intro heq
        rw [heq] at hfind'
        cases hfind.symm.trans hfind'
        rfl
  | function name parameters body type =>
    obtain ⟨c, hb', _, hwhole⟩ := hbinds
    rw [hb] at hb'
    cases hb'
    exact .function hwhole (.scope hn htable hall hfinding hparent)

/-- **What a name denotes in an environment is what it means in the scene.** -/
theorem Depicts.find (h : Depicts f p active bound env scene) (name : String) :
    Conveys f p active bound name (env.lookup? f name) (scene.find? name) := by
  induction h with
  | root => exact .none
  | empty _ ih => exact ih
  | @scope _ n id t table parent definitions finding around hn htable hall hfinding hparent ih =>
    have hlookup : (Env.frame n none [] (some t) parent).lookup? f name
        = match f.find? t name with
          | some (bid, b) => some (.binding bid b, .frame n none [] (some t) parent)
          | none => parent.lookup? f name := by
      rw [Env.lookup?, Env.here?, List.lookup_nil, Option.bind_some]
      cases f.find? t name <;> rfl
    rw [hlookup, Scene.find?]
    rcases find_binds htable hall name with
      ⟨hnone, hnone'⟩ | ⟨bid, b, d, hfind, hfind', hbinds, hb, rfl⟩
    · rw [hnone, hnone']
      exact ih.mono (Nat.le_of_lt hn)
    · rw [hfind, hfind']
      exact Depicts.meaning hn htable hall hfinding hparent hfind hb hbinds
  | @call _ n label parameters arguments callerEnv parent caller around hn hnone hsome hcaller _ _
      ih =>
    rw [Env.lookup?, Env.here?, Scene.find?]
    rcases hargument : arguments.lookup name with _ | form
    · rw [hnone name hargument]
      exact ih.mono (Nat.le_of_lt hn)
    · obtain ⟨id, hparameter, hwhole⟩ := hsome name form hargument
      rw [hparameter]
      exact .argument hwhole (hcaller.mono (Nat.le_of_lt hn))

/-! ## Arguments -/

/-- what stands for the forms of operands stands for those of the arguments -/
theorem argument_pair {ids : List NodeId} {forms : List Form}
    (hall : List.Forall₂ f.Whole ids forms) (parameters : List String) {found : Option Ref}
    {before : Option Form}
    (h : Option.Rel (fun ref form => ∃ id, ref = .node id ∧ f.Whole id form) found before) :
    Option.Rel (fun ref form => ∃ id, ref = .node id ∧ f.Whole id form)
      (Env.argument? name found parameters (ids.map .node))
      (((pairArguments parameters forms).lookup name).or before) := by
  induction hall generalizing parameters found before with
  | nil =>
    rw [pairArguments, List.zip_nil_right]
    cases parameters <;> exact h
  | @cons id form ids forms hwhole _ ih =>
    cases parameters with
    | nil => exact h
    | cons parameter parameters =>
      have hlookup : ((pairArguments (parameter :: parameters) (form :: forms)).lookup name).or
            before
          = ((pairArguments parameters forms).lookup name).or
            (if name = parameter then some form else before) := by
        rw [pairArguments, List.zip_cons_cons, List.reverse_cons, List.lookup_append,
          Option.or_assoc, pairArguments, Env.lookup_cons]
        split <;> rfl
      rw [hlookup, List.map_cons, Env.argument?]
      refine ih parameters ?_
      by_cases hname : name = parameter
      · rw [if_pos hname, if_pos hname]
        exact .some ⟨id, rfl, hwhole⟩
      · rw [if_neg hname, if_neg hname]
        exact h

theorem Depicts.activation {owner : Env} {inside : Scene} {ids : List NodeId} {forms : List Form}
    (hall : List.Forall₂ f.Whole ids forms) (hcaller : Depicts f p active n env scene)
    (howner : Depicts f p active n owner inside) (parameters : List String)
    (label : Option String) : Depicts f p active (n + 1)
      (.frame n label (Env.bind env parameters (ids.map .node)) none owner)
      (.call (pairArguments parameters forms) scene inside) := by
  have hpair (name : String) : Option.Rel (fun ref form => ∃ id, ref = .node id ∧ f.Whole id form)
      (Env.argument? name none parameters (ids.map .node))
      (((pairArguments parameters forms).lookup name).or none) :=
    argument_pair hall parameters .none
  refine .call (Nat.lt_succ_self n) ?_ ?_ hcaller howner
  · intro name hnone
    have h := hpair name
    rw [hnone] at h
    rw [Env.lookup_bind]
    generalize Env.argument? name none parameters (ids.map .node) = found at h
    cases h
    rfl
  · intro name form hsome
    have h := hpair name
    rw [hsome] at h
    rw [Env.lookup_bind]
    generalize Env.argument? name none parameters (ids.map .node) = found at h
    cases h with
    | some hfound =>
      obtain ⟨id, rfl, hwhole⟩ := hfound
      exact ⟨id, rfl, hwhole⟩

end

/-! ## Doing the same -/

def State.bare (s : State) : State := { s with active := [], next := 0 }

/-- **Two computations do the same**, the second one without marks and serial numbers. -/
structure Mirrors {α : Type} (s : State) (x y : Run α) : Prop where
  same : y.result s.bare = ((x.result s).1, (x.result s).2.bare)
  advances : s.Advances (x.result s).2

section
variable {α β : Type} {s : State} {p : Policy} {env : Env}

theorem mirrors_bind {x y : Run α} {k l : α → Run β} (hx : Mirrors s x y)
    (hk : ∀ a t, s.Advances t → Mirrors t (k a) (l a)) : Mirrors s (x >>= k) (y >>= l) := by
  obtain ⟨hsame, hadvances⟩ := hx
  rcases hresult : x.result s with ⟨φ | a, t⟩
  · rw [hresult] at hsame hadvances
    refine ⟨?_, ?_⟩
    · rw [result_bind_error hsame, result_bind_error hresult]
    · rw [result_bind_error hresult]
      exact hadvances
  · rw [hresult] at hsame hadvances
    obtain ⟨hsame', hadvances'⟩ := hk a t hadvances
    refine ⟨?_, ?_⟩
    · rw [result_bind_ok hsame, result_bind_ok hresult, hsame']
    · rw [result_bind_ok hresult]
      exact steady_advances.trans hadvances hadvances'

theorem mirrors_pure (a : α) : Mirrors s (pure a) (pure a) := ⟨rfl, steady_advances.refl s⟩

theorem mirrors_throw (fault : Fault) : Mirrors s (throw fault : Run α) (throw fault) :=
  ⟨rfl, steady_advances.refl s⟩

theorem mirrors_except (x : Except Fault α) : Mirrors s (liftM x : Run α) (liftM x) := by
  cases x with
  | error fault => exact mirrors_throw fault
  | ok a => exact mirrors_pure a

theorem mirrors_write (text : String) : Mirrors s (write text) (write text) :=
  ⟨rfl, steady_advances.output s text⟩

theorem mirrors_report (h : env.policy = p) (r : Remark) :
    Mirrors s (report env r) (report (.root 0 p) r) := by
  refine ⟨?_, { State.Extends.refl s with reports := ?_ }, rfl⟩
  · rw [result_report, result_report, h]
    rfl
  · rw [result_report, Array.toList_push]
    exact List.prefix_append _ _

theorem mirrors_unresolved (h : env.policy = p) (name : String) (r : Remark) :
    Mirrors s (unresolved env name r) (unresolved (.root 0 p) name r) := by
  have hroot : (Env.root 0 p).policy = p := rfl
  unfold unresolved
  rw [h, hroot]
  split
  · exact mirrors_throw _
  · exact mirrors_bind (mirrors_report h r) fun _ _ _ => mirrors_pure none

theorem mirrors_coerce (h : env.policy = p) (kind : Option Kind) (name : String) (value : Value) :
    Mirrors s (coerce env kind name value) (coerce (.root 0 p) kind name value) := by
  unfold coerce
  split
  · split
    · exact mirrors_pure _
    · split
      · exact mirrors_bind (mirrors_report h _) fun _ _ _ => mirrors_pure _
      · exact mirrors_bind (mirrors_pure ()) fun _ _ _ => mirrors_pure _
  · exact mirrors_pure _

theorem mirrors_checkArguments (h : env.policy = p) (name : String) (expected count : Nat) :
    Mirrors s (checkArguments env name expected count)
      (checkArguments (.root 0 p) name expected count) := by
  unfold checkArguments
  split
  · exact mirrors_throw _
  · split
    · exact mirrors_report h _
    · exact mirrors_pure ()

theorem mirrors_readNumber (h : env.policy = p) :
    Mirrors s (readNumber env) (readNumber (.root 0 p)) := by
  refine ⟨?_, keeps_readNumber steady_advances trivial s⟩
  rw [result_readNumber, result_readNumber, refusals, refusals, h]
  rfl

theorem mirrors_applyBuiltin (h : env.policy = p) (b : Builtin) (args : List Number) :
    Mirrors s (applyBuiltin b env args) (applyBuiltin b (.root 0 p) args) := by
  unfold applyBuiltin
  split
  · exact mirrors_readNumber h
  · refine mirrors_bind ⟨?_, ?_⟩ fun amount _ _ => mirrors_pure _
    · rw [result_draw, result_draw, h]
      rfl
    · rw [result_draw]
      exact steady_advances.generators s _
  · split
    · exact mirrors_bind (mirrors_except _) fun _ _ _ => mirrors_pure _
    · exact mirrors_pure none

/-- a serial number is given, which the second computation does without -/
theorem mirrors_fresh {k : Nat → Run α} {y : Run α}
    (h : Mirrors { s with next := s.next + 1 } (k s.next) y) : Mirrors s (fresh >>= k) y := by
  have hresult := result_bind_ok (k := k) (result_fresh s)
  refine ⟨?_, ?_⟩
  · rw [hresult]
    exact h.same
  · rw [hresult]
    exact steady_advances.trans (steady_advances.next s) h.advances

theorem mirrors_marked {mark : Mark} {x y : Run α}
    (h : Mirrors { s with active := mark :: s.active } x y) : Mirrors s (marked mark x) y := by
  refine ⟨?_, ?_⟩
  · rw [result_marked]
    exact h.same
  · rw [result_marked]
    exact steady_advances.mark mark h.advances

end

/-! ## Values of nodes -/

/-- a scene depicts an environment in a state, whose marks are all for frames of the past -/
structure Poised (f : Forest) (p : Policy) (s : State) (env : Env) (scene : Scene) : Prop where
  depicts : Depicts f p s.active s.next env scene
  marks : ∀ mark ∈ s.active, mark.2 < s.next

/-- an evaluator of nodes does what an evaluator of forms does -/
def Reflects (f : Forest) (p : Policy) (ev : Evaluator) (evForm : FormEvaluator) : Prop :=
  ∀ id form env scene s, f.Whole id form → Poised f p s env scene →
    Mirrors s (ev (.node id) env) (evForm form scene)

section
variable {f : Forest} {p : Policy} {s t : State} {env : Env} {scene : Scene} {ev : Evaluator}
  {evForm : FormEvaluator} {ids : List NodeId} {forms : List Form}

theorem Poised.advance (h : Poised f p s env scene) (hadvances : s.Advances t) :
    Poised f p t env scene := by
  refine ⟨?_, ?_⟩
  · rw [hadvances.active]
    exact h.depicts.mono hadvances.next
  · rw [hadvances.active]
    exact fun mark hmark => Nat.lt_of_lt_of_le (h.marks mark hmark) hadvances.next

theorem mirrors_evalVariable (hguard : p.guarded = true) (hev : Reflects f p ev evForm)
    (h : Poised f p s env scene) {bid : BindingId} {id : NodeId} {name : String} {body : Form}
    {kind : Option Kind} {busy : Bool} {owner : Env} {inside : Scene} (hwhole : f.Whole id body)
    (hserial : owner.serial < s.next) (hbusy : busy = true ↔ (bid, owner.serial) ∈ s.active)
    (hinside : Depicts f p ((bid, owner.serial) :: s.active) s.next owner inside) :
    Mirrors s (evalVariable ev bid ⟨name, kind, .node id, .value⟩ owner)
      ((if busy then throw (.circular name) else evForm body inside) >>=
        coerce (.root 0 p) kind name) := by
  have howner := hinside.policy
  rw [evalVariable_eq]
  refine mirrors_bind ?_ fun value t _ => mirrors_coerce howner kind name value
  have hguard' : owner.policy.guarded = true := by rw [howner, hguard]
  by_cases hactive : (bid, owner.serial) ∈ s.active
  · rw [if_pos (hbusy.2 hactive)]
    have hresult := findValue_active hguard' ev ⟨name, kind, .node id, .value⟩ hactive
    exact ⟨by rw [hresult]; rfl, by rw [hresult]; exact steady_advances.refl s⟩
  · have hfound : Mirrors s (marked (bid, owner.serial) (ev (.node id) owner))
        (evForm body inside) := by
      refine mirrors_marked (hev id body owner inside _ hwhole ⟨hinside, ?_⟩)
      exact List.forall_mem_cons.2 ⟨hserial, h.marks⟩
    have hresult := findValue_inactive hguard' ev ⟨name, kind, .node id, .value⟩ hactive
    rw [if_neg fun hb => hactive (hbusy.1 hb)]
    exact ⟨by rw [hresult]; exact hfound.same, by rw [hresult]; exact hfound.advances⟩

theorem mirrors_evalSymbol (hguard : p.guarded = true) (hev : Reflects f p ev evForm)
    (h : Poised f p s env scene) (name : String) :
    Mirrors s (evalSymbol f ev name env) (symbolValue p evForm scene name) := by
  have hfind := h.depicts.find name
  unfold evalSymbol symbolValue
  generalize env.lookup? f name = found at hfind
  generalize scene.find? name = meaning at hfind
  cases hfind with
  | none => exact mirrors_unresolved h.depicts.policy name _
  | argument hwhole hcaller => exact hev _ _ _ _ s hwhole ⟨hcaller, h.marks⟩
  | value hwhole hserial hbusy hinside =>
    exact mirrors_evalVariable hguard hev h hwhole hserial hbusy hinside
  | function _ _ => exact mirrors_throw _

theorem mirrors_evalCall (hev : Reflects f p ev evForm) (h : Poised f p s env scene)
    (hall : List.Forall₂ f.Whole ids forms) (name : String) :
    Mirrors s (evalCall f ev (some name) (ids.map .node) env)
      (callValue p evForm scene name forms) := by
  have hfind := h.depicts.find name
  have hpolicy := h.depicts.policy
  unfold evalCall callValue
  dsimp only
  generalize env.lookup? f name = found at hfind
  generalize scene.find? name = meaning at hfind
  cases hfind with
  | none => exact mirrors_unresolved hpolicy name _
  | argument _ _ => exact mirrors_throw _
  | value _ _ _ _ => exact mirrors_throw _
  | @function bid id parameters body type owner inside hwhole hinside =>
    dsimp only
    unfold applyFunction
    dsimp only
    rw [List.length_map, hall.length_eq]
    refine mirrors_bind (mirrors_checkArguments hpolicy name _ _) ?_
    intro _ t hadvances
    have hcaller := (h.advance hadvances).depicts
    have howner : Depicts f p t.active t.next owner inside := by
      rw [hadvances.active]
      exact hinside.mono hadvances.next
    refine mirrors_fresh (mirrors_bind (hev id body _ _ _ hwhole ⟨?_, ?_⟩) ?_)
    · exact Depicts.activation hall hcaller howner parameters (some name)
    · exact fun mark hmark => Nat.lt_succ_of_lt ((h.advance hadvances).marks mark hmark)
    · exact fun value u _ => mirrors_coerce hpolicy _ name value

theorem mirrors_evalOperands (hev : Reflects f p ev evForm) (h : Poised f p s env scene)
    (hall : List.Forall₂ f.Whole ids forms) :
    Mirrors s (evalOperands ev env (ids.map .node)) (operandValues evForm scene forms) := by
  induction hall generalizing s with
  | nil => exact mirrors_pure []
  | cons hwhole _ ih =>
    refine mirrors_bind (hev _ _ _ _ s hwhole h) ?_
    intro value t hadvances
    exact mirrors_bind (ih (h.advance hadvances)) fun _ _ _ => mirrors_pure _

theorem mirrors_printOperands (hev : Reflects f p ev evForm) (h : Poised f p s env scene)
    (hall : List.Forall₂ f.Whole ids forms) (last : Value) :
    Mirrors s (printOperands ev env last (ids.map .node))
      (printedValue p evForm scene last forms) := by
  induction hall generalizing s last with
  | nil => exact mirrors_pure last
  | cons hwhole _ ih =>
    refine mirrors_bind (hev _ _ _ _ s hwhole h) ?_
    intro value t ht
    rw [h.depicts.policy]
    refine mirrors_bind (mirrors_except _) ?_
    intro text u hu
    refine mirrors_bind (mirrors_write _) ?_
    intro _ v hv
    exact ih (((h.advance ht).advance hu).advance hv) value

theorem usedOperands_map (b : Builtin) (ids : List NodeId) :
    usedOperands b (ids.map .node) = (((b.arity.most?.map ids.take).getD ids).map Ref.node) := by
  unfold usedOperands
  cases b.arity.most? with
  | none => rfl
  | some most => exact List.map_take.symm

theorem forall₂_used {α β : Type} {R : α → β → Prop} {l : List α} {u : List β}
    (h : List.Forall₂ R l u) (most? : Option Nat) :
    List.Forall₂ R ((most?.map l.take).getD l) ((most?.map u.take).getD u) := by
  cases most? with
  | none => exact h
  | some most => exact List.forall₂_take most h

theorem mirrors_evalBuiltin (hev : Reflects f p ev evForm) (h : Poised f p s env scene)
    (hall : List.Forall₂ f.Whole ids forms) (id : NodeId) (b : Builtin) :
    Mirrors s (evalBuiltin ev id b (ids.map .node) true env)
      (builtinValue p evForm scene b forms) := by
  have hcount : countUnchecked id b (ids.map Ref.node).length true env = pure () := rfl
  rw [evalBuiltin_eq, hcount, pure_bind]
  unfold builtinValue
  split
  · exact mirrors_printOperands hev h hall none
  · rw [usedOperands_map]
    refine mirrors_bind (mirrors_evalOperands hev h (forall₂_used hall _)) ?_
    intro values t hadvances
    cases present? values with
    | none => exact mirrors_pure none
    | some args => exact mirrors_applyBuiltin h.depicts.policy b args

theorem mirrors_evalChoice (hev : Reflects f p ev evForm) (h : Poised f p s env scene)
    {a b c : NodeId} {test ifTrue ifFalse : Form} (ha : f.Whole a test) (hb : f.Whole b ifTrue)
    (hc : f.Whole c ifFalse) : Mirrors s (evalChoice ev (.node a) (.node b) (.node c) env)
      (choiceValue evForm scene test ifTrue ifFalse) := by
  unfold evalChoice choiceValue
  refine mirrors_bind (hev a test env scene s ha h) ?_
  intro value t hadvances
  cases value with
  | none => exact mirrors_pure none
  | some v =>
    dsimp only
    split
    · exact hev c ifFalse env scene t hc (h.advance hadvances)
    · exact hev b ifTrue env scene t hb (h.advance hadvances)

/-- **What stands for a form has its value**, in frames for the tables of its scopes. -/
theorem mirrors_evalShape (hguard : p.guarded = true) (hev : Reflects f p ev evForm) {id : NodeId}
    {shape : Shape} (hshape : f.shape? id = some shape) {form : Form} {ts : List TableId} {n : Nat}
    (hstands : Stands f id ts form) (hdepicts : Depicts f p s.active n env scene)
    (hn : n + ts.length = s.next) (hmarks : ∀ mark ∈ s.active, mark.2 < n) :
    Mirrors s (evalShape f ev id shape (Env.push ts.reverse n env))
      (formValue p evForm form scene) := by
  have hpoised {n : Nat} {env : Env} {scene : Scene} (h : Depicts f p s.active n env scene)
      (hn : n + 0 = s.next) (hmarks : ∀ mark ∈ s.active, mark.2 < n) : Poised f p s env scene :=
    ⟨h.mono (Nat.le_of_eq hn), fun mark hmark => Nat.lt_of_lt_of_le (hmarks mark hmark)
      (Nat.le_of_eq hn)⟩
  induction form using Form.bodyInduction generalizing ts n env scene with
  | numeral kind text =>
    obtain ⟨rfl, hnumber⟩ := hstands
    cases hshape.symm.trans hnumber
    exact mirrors_pure _
  | symbol name =>
    obtain ⟨rfl, hsymbol⟩ := hstands
    cases hshape.symm.trans hsymbol
    exact mirrors_evalSymbol hguard hev (hpoised hdepicts hn hmarks) name
  | call name operands _ =>
    obtain ⟨rfl, ids, hcall, _, hall⟩ := hstands
    have h := hpoised hdepicts hn hmarks
    have hall' := standAll_iff.1 hall
    cases hshape.symm.trans hcall
    unfold callShape formValue Operator.ofName
    rcases hname : Builtin.ofName? name with _ | b
    · exact mirrors_evalCall hev h hall' name
    · exact mirrors_evalBuiltin hev h hall' id b
  | choice test ifTrue ifFalse _ _ _ =>
    obtain ⟨rfl, a, b, c, hchoice, _, ha, hb, hc⟩ := hstands
    cases hshape.symm.trans hchoice
    exact mirrors_evalChoice hev (hpoised hdepicts hn hmarks) ha hb hc
  | scope definitions body ih =>
    rcases hstands with ⟨rfl, hbody⟩ | ⟨_, inner, t, table, rfl, hbody, htable, hall⟩
    · exact ih hbody (.empty hdepicts) hn hmarks
    · rw [List.reverse_append, List.reverse_singleton, List.singleton_append, Env.push_cons]
      rw [List.length_append, List.length_singleton] at hn
      have hnew (bid : BindingId) : (bid, n) ∉ s.active := fun hmark =>
        Nat.lt_irrefl n (hmarks (bid, n) hmark)
      refine ih hbody (.scope (Nat.lt_succ_self n) htable (bindAll_iff.1 hall) ?_ hdepicts)
        (by omega) fun mark hmark => Nat.lt_succ_of_lt (hmarks mark hmark)
      exact fun name bid b _ => iff_of_false (hnew bid) List.not_mem_nil

/-- **The node of a form has the value of the form**, at every depth. -/
theorem mirrors_evalNode (f : Forest) (hguard : p.guarded = true) (limit : Nat) :
    Reflects f p (evalNode f limit) (evalForm p limit) := by
  induction limit with
  | zero => exact fun _ _ _ _ _ _ _ => mirrors_throw _
  | succ limit ih =>
    intro id form env scene s hwhole h
    obtain ⟨node, ts, hnode, hrow, hstands⟩ := hwhole
    have hshape : f.shape? id = some node.shape := by rw [Forest.shape?, hnode, Option.map_some]
    have htables : f.tablesOf node = ts := hrow.tablesFrom
    have hentered := result_enter f node env s
    rw [htables] at hentered
    have hvalue := mirrors_evalShape (s := { s with next := s.next + ts.length }) hguard ih hshape
      hstands h.depicts rfl h.marks
    have hresult : (evalNode f (limit + 1) (.node id) env).result s
        = (evalShape f (evalNode f limit) id node.shape (Env.push ts.reverse s.next env)).result
            { s with next := s.next + ts.length } := by
      rw [evalNode_node hnode, result_bind_ok hentered]
    refine ⟨?_, ?_⟩
    · rw [hresult]
      exact hvalue.same
    · rw [hresult]
      refine steady_advances.trans ?_ hvalue.advances
      exact ⟨{ State.Extends.refl s with next := Nat.le_add_right _ _ }, rfl⟩

end

/-! ## Whole runs -/

def Visit.outcome (v : Visit) (f : Forest) : Except Fault Value × State :=
  ((v.result f).1, (v.result f).2.bare)

/-- **The run of a tree that stands for a form ends as the form does.** -/
theorem outcome_of_whole {f : Forest} {root : NodeId} {form : Form} (h : f.Whole root form)
    {p : Policy} (hguard : p.guarded = true) (limit : Nat) (input : List Char)
    (generator : Generator) : (Visit.start limit (.node root) p input generator).outcome f
      = (evalForm p limit form .top).result (State.start input generator).bare := by
  have hpoised : Poised f p (.start input generator) (.root 0 p) .top :=
    ⟨.root, fun mark hmark => by cases hmark⟩
  exact (mirrors_evalNode f hguard limit root form _ _ _ h hpoised).same.symm

end Abacus
