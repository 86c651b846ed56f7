import Abacus.Proofs.Evaluation.Counting
import Abacus.Proofs.Evaluation.Upkeep

/-!
# Evaluations one after the other

A node is evaluated where another one was evaluated before, with a value or a fault.  It does the
same as if the first one had never been evaluated, from the input and the generators as they are
then: only the serial numbers of its frames are moved up, and operands that were counted for the
first node are not counted again.

* `State.Covers`       states in which the frames of an environment are there already;
* `moved`              serial numbers moved up from some number on;
* `Forest.Surplus`     remarks on surplus operands;
* `Omits`, `Spares`    reports without some of them;
* `Retraced`            how the states of the two evaluations are related;
* `retracing`           the comparison of the two;
* `evaluation_leaves_no_trace`   **an evaluation leaves no trace for the next one**.
-/

namespace Abacus

open Run Growth

/-! ## States and environments -/

/-- **The frames of an environment are there already**, and so are those of marks and of the roots
for which calls are counted: all serial numbers were given before. -/
structure State.Covers (s : State) (env : Env) : Prop where
  frames : ∀ e, Env.Sub e env → e.serial < s.next
  marks : ∀ m ∈ s.active, m.2 < s.next
  calls : ∀ key ∈ s.counted, key.1 < s.next

theorem covers_start (policy : Policy) (input : List Char) (generator : Generator) :
    (State.start input generator).Covers (.root 0 policy) where
  frames e he := by
    cases he
    exact Nat.zero_lt_one
  marks m hm := by cases hm
  calls key hkey := by cases hkey

namespace State

variable {s s₁ : State} {n : Nat}

/-- the serial number of a frame where those given from the first state on are given from the second
one on instead -/
def moved (s s₁ : State) (n : Nat) : Nat := if n < s.next then n else n + (s₁.next - s.next)

def movedMark (s s₁ : State) (m : Mark) : Mark := (m.1, s.moved s₁ m.2)

theorem moved_of_lt (h : n < s.next) : s.moved s₁ n = n := if_pos h

theorem moved_of_le (h : s.next ≤ n) : s.moved s₁ n = n + (s₁.next - s.next) :=
  if_neg (Nat.not_lt.2 h)

theorem moved_injective (s s₁ : State) : Function.Injective (s.moved s₁) := by
  intro n m h
  unfold moved at h
  split at h <;> split at h <;> omega

theorem movedMark_injective (s s₁ : State) : Function.Injective (s.movedMark s₁) := by
  rintro ⟨id, n⟩ ⟨id', m⟩ h
  have hid : id = id' := congrArg Prod.fst h
  have hn : n = m := moved_injective s s₁ (congrArg Prod.snd h)
  rw [hid, hn]

theorem moved_eq_of_lt (h : s.moved s₁ n < s.next) : s.moved s₁ n = n := by
  unfold moved at h ⊢
  split at h
  · next hlt => rw [if_pos hlt]
  · omega

end State

theorem Env.Like.refl_sub {P : Policy → Policy → Prop} {N : Nat → Nat → Prop} (hP : ∀ p, P p p)
    {env : Env} (hN : ∀ e, Env.Sub e env → N e.serial e.serial) : Env.Like P N env env := by
  induction env using Env.induction with
  | onRoot n p => exact .root (hN _ .refl) (hP p)
  | onFrame n label parameters table parent ihs ih =>
    refine .frame (hN _ .refl) (fun _ => rfl) ?_ (ih fun e he => hN e (.parent he))
    intro x ref caller ref' caller' h h'
    rw [h] at h'
    cases h'
    obtain ⟨before, after, hps, _⟩ := List.lookup_eq_some_iff.1 h
    exact ihs x ref caller (by rw [hps]; simp) fun e he => hN e (.argument h he)

/-! ## Surplus operands -/

inductive Forest.Surplus (f : Forest) (id : NodeId) : Remark → Prop
  | call {node : Node} {b : Builtin} {ident : Option String} {operands : List Ref} {most : Nat} :
      f.node? id = some node → node.shape = .call (.builtin b) ident operands false →
      b.arity.most? = some most → most < operands.length →
      f.Surplus id (.surplusOperands b.name most operands.length)

section
variable {f : Forest} {id : NodeId} {node : Node} {b : Builtin} {ident : Option String}
  {operands : List Ref}

theorem surplus_iff {r : Remark} : f.Surplus id r ↔ f.surplus? id = some r := by
  constructor
  · rintro ⟨hnode, hshape, hmost, hlt⟩
    rw [Forest.surplus?, hnode, Option.bind_some, hshape]
    simp only [Shape.surplus?, hmost, if_pos hlt]
  · intro h
    obtain ⟨node, hnode, hsurplus⟩ := Option.bind_eq_some_iff.1 h
    obtain ⟨b, ident, operands, hshape, hcheck⟩ := Shape.surplus?_eq_some hsurplus
    obtain ⟨most, hmost, hlt, rfl⟩ := checkOperands_eq_some hcheck
    exact .call hnode hshape hmost (Int.ofNat_lt.1 hlt)

theorem surplus_of_checkOperands (hnode : f.node? id = some node)
    (hshape : node.shape = .call (.builtin b) ident operands false) {r : Remark}
    (h : checkOperands b operands.length = .ok (some r)) : f.Surplus id r :=
  surplus_iff.2 (surplus?_of_checkOperands hnode hshape h)

theorem not_surplus_of_checkOperands (hnode : f.node? id = some node)
    (hshape : node.shape = .call (.builtin b) ident operands false)
    (h : checkOperands b operands.length = .ok none) (r : Remark) : ¬ f.Surplus id r := by
  rw [surplus_iff, surplus?_of_checkOperands hnode hshape h]
  exact Option.some_ne_none r ∘ Eq.symm

theorem ok_of_supplied (hnode : f.node? id = some node)
    (hshape : node.shape = .call (.builtin b) ident operands false) (h : f.Supplied id) :
    ∃ r, checkOperands b operands.length = .ok r := by
  exact ⟨_, checkOperands_of_least (h node b ident operands false hnode hshape) ident⟩

end

/-- **Reports without the remarks on the surplus operands of some calls**, one for each of them -/
inductive Omits (f : Forest) : List (Nat × NodeId) → List Report → List Report → Prop
  | nil : Omits f [] [] []
  | keep {keys : List (Nat × NodeId)} {rs rs' : List Report} (r : Report) :
      Omits f keys rs rs' → Omits f keys (rs ++ [r]) (rs' ++ [r])
  | drop {keys : List (Nat × NodeId)} {rs rs' : List Report} {key : Nat × NodeId} {r : Report} :
      f.Surplus key.2 r.remark → Omits f keys rs rs' → Omits f (key :: keys) (rs ++ [r]) rs'

/-! ## Two evaluations -/

structure State.Precedes (f : Forest) (s s₁ : State) : Prop where
  next : s.next ≤ s₁.next
  active : s₁.active = s.active
  marks : ∀ m ∈ s.active, m.2 < s.next
  calls : ∀ key ∈ s₁.counted, key.1 < s.next
  kept : ∀ key ∈ s.counted, key ∈ s₁.counted
  supplied : ∀ key ∈ s₁.counted, key ∈ s.counted ∨ f.Supplied key.2

/-- a call with surplus operands is counted in the evaluation on its own, and was counted first in
the one before -/
def Repeated (f : Forest) (s s₁ a : State) (key : Nat × NodeId) : Prop :=
  key ∈ s₁.counted ∧ key ∉ s.counted ∧ key ∈ a.counted ∧ ∃ r, f.Surplus key.2 r

/-- **The evaluation on its own reports the same, and remarks on repeated calls**, once each -/
def Spares (f : Forest) (s s₁ a b : State) : Prop :=
  ∃ calls rs rs', a.reports.toList = s.reports.toList ++ rs ∧
    b.reports.toList = s₁.reports.toList ++ rs' ∧ Omits f calls rs rs' ∧ calls.Nodup ∧
    ∀ key, key ∈ calls ↔ Repeated f s s₁ a key

/-- **How the state of an evaluation on its own is related to the one after another**, where these
began in `s` and in `s₁` -/
structure Retraced (f : Forest) (s s₁ a b : State) : Prop where
  input : b.input = a.input
  generators : b.generators = a.generators
  output : ∃ text, a.output = s.output ++ text ∧ b.output = s₁.output ++ text
  old : s.next ≤ a.next
  next : b.next = a.next + (s₁.next - s.next)
  active : b.active = a.active.map (s.movedMark s₁)
  kept : ∀ key ∈ s.counted, key ∈ a.counted
  counted : ∀ c id, (s.moved s₁ c, id) ∈ b.counted ↔
    (c, id) ∈ a.counted ∨ (s.moved s₁ c, id) ∈ s₁.counted
  reports : Spares f s s₁ a b

namespace Retraced

variable {f : Forest} {s s₁ a b : State}

theorem start (h : s.Precedes f s₁) :
    Retraced f s s₁ { s with input := s₁.input, generators := s₁.generators } s₁ where
  input := rfl
  generators := rfl
  output := ⟨"", by simp, by simp⟩
  old := Nat.le_refl _
  next := (Nat.add_sub_cancel' h.next).symm
  active := by
    have hid : ∀ m ∈ s.active, s.movedMark s₁ m = m := fun m hm =>
      congrArg (m.1, ·) (State.moved_of_lt (h.marks m hm))
    rw [h.active, List.map_congr_left hid, List.map_id']
  kept _ hkey := hkey
  counted c id := by
    refine ⟨Or.inr, ?_⟩
    rintro (hkey | hkey)
    · have hmem := h.kept _ hkey
      rwa [State.moved_of_lt (h.calls _ hmem)]
    · exact hkey
  reports := by
    refine ⟨[], [], [], by simp, by simp, .nil, List.nodup_nil, fun key => ?_⟩
    refine iff_of_false List.not_mem_nil ?_
    rintro ⟨_, hnot, hmem, _⟩
    exact hnot hmem

theorem write (h : Retraced f s s₁ a b) (text : String) :
    Retraced f s s₁ { a with output := a.output ++ text }
      { b with output := b.output ++ text } := by
  obtain ⟨shown, ha, hb⟩ := h.output
  refine { h with output := ⟨shown ++ text, ?_, ?_⟩ }
  · simp only [ha, String.append_assoc]
  · simp only [hb, String.append_assoc]

theorem report (h : Retraced f s s₁ a b) (r : Report) :
    Retraced f s s₁ { a with reports := a.reports.push r }
      { b with reports := b.reports.push r } := by
  obtain ⟨keys, rs, rs', ha, hb, homits, hkeys⟩ := h.reports
  refine { h with reports := ⟨keys, rs ++ [r], rs' ++ [r], ?_, ?_, homits.keep r, hkeys⟩ }
  · simp only [Array.toList_push, ha, List.append_assoc]
  · simp only [Array.toList_push, hb, List.append_assoc]

theorem reportAll (h : Retraced f s s₁ a b) (rs : List Report) :
    Retraced f s s₁ { a with reports := a.reports ++ rs }
      { b with reports := b.reports ++ rs } := by
  induction rs generalizing a b with
  | nil => simpa using h
  | cons r rs ih => simpa using ih (h.report r)

theorem fresh (h : Retraced f s s₁ a b) :
    Retraced f s s₁ { a with next := a.next + 1 } { b with next := b.next + 1 } := by
  refine { h with old := Nat.le_succ_of_le h.old, next := ?_ }
  have hnext := h.next
  show b.next + 1 = a.next + 1 + _
  omega

theorem mem_active (h : Retraced f s s₁ a b) (m : Mark) :
    s.movedMark s₁ m ∈ b.active ↔ m ∈ a.active := by
  rw [h.active]
  exact List.mem_map_of_injective (State.movedMark_injective s s₁)

theorem mark (h : Retraced f s s₁ a b) (m : Mark) :
    Retraced f s s₁ { a with active := m :: a.active }
      { b with active := s.movedMark s₁ m :: b.active } :=
  { h with active := congrArg (s.movedMark s₁ m :: ·) h.active }

theorem unmark (h : Retraced f s s₁ a b) (m : Mark) :
    Retraced f s s₁ { a with active := a.active.erase m }
      { b with active := b.active.erase (s.movedMark s₁ m) } := by
  refine { h with active := ?_ }
  dsimp only
  rw [h.active, List.map_erase (State.movedMark_injective s s₁)]

theorem count (hs : s.Precedes f s₁) (h : Retraced f s s₁ a b) {c : Nat} {id : NodeId}
    (hb : (s.moved s₁ c, id) ∉ b.counted) :
    Retraced f s s₁ { a with counted := (c, id) :: a.counted }
      { b with counted := (s.moved s₁ c, id) :: b.counted } := by
  have hnew : (c, id) ∉ s₁.counted := by
    intro hmem
    refine hb ((h.counted c id).2 (Or.inr ?_))
    rwa [State.moved_of_lt (hs.calls _ hmem)]
  obtain ⟨keys, rs, rs', hra, hrb, homits, hnodup, hkeys⟩ := h.reports
  refine { h with
    kept := fun key hkey => List.mem_cons_of_mem _ (h.kept key hkey)
    counted := fun c' id' => ?_
    reports := ⟨keys, rs, rs', hra, hrb, homits, hnodup, fun key => ?_⟩ }
  · have hpair : (s.moved s₁ c', id') = (s.moved s₁ c, id) ↔ (c', id') = (c, id) := by
      rw [Prod.mk.injEq, Prod.mk.injEq, (State.moved_injective s s₁).eq_iff]
    rw [List.mem_cons, List.mem_cons, hpair, h.counted, or_assoc]
  · rw [hkeys]
    refine and_congr_right fun hmem => and_congr_right fun _ => and_congr_left fun _ => ?_
    have hne : key ≠ (c, id) := fun heq => hnew (heq ▸ hmem)
    exact ⟨List.mem_cons_of_mem _, fun hcons => (List.mem_cons.1 hcons).resolve_left hne⟩

section
variable {c : Nat} {id : NodeId}

/-- a call that is counted in the second state only was counted by the first evaluation -/
theorem mem_of_counted (hs : s.Precedes f s₁) (h : Retraced f s s₁ a b) (ha : (c, id) ∉ a.counted)
    (hb : (s.moved s₁ c, id) ∈ b.counted) : (c, id) ∈ s₁.counted ∧ (c, id) ∉ s.counted := by
  have hmem := ((h.counted c id).1 hb).resolve_left ha
  have hold := State.moved_eq_of_lt (hs.calls _ hmem)
  rw [hold] at hmem
  exact ⟨hmem, fun hkey => ha (h.kept _ hkey)⟩

/-- what the evaluation on its own counts again, with or without a remark -/
theorem recount (h : Retraced f s s₁ a b) (hb : (s.moved s₁ c, id) ∈ b.counted)
    {reports : Array Report}
    (hreports : Spares f s s₁ { a with counted := (c, id) :: a.counted, reports := reports } b) :
    Retraced f s s₁ { a with counted := (c, id) :: a.counted, reports := reports } b := by
  refine { h with
    kept := fun key hkey => List.mem_cons_of_mem _ (h.kept key hkey)
    counted := fun c' id' => ?_
    reports := hreports }
  rw [List.mem_cons, or_assoc, ← h.counted]
  refine ⟨Or.inr, ?_⟩
  rintro (heq | hmem)
  · cases heq
    exact hb
  · exact hmem

theorem repeated_cons {reports : Array Report} {key : Nat × NodeId} :
    Repeated f s s₁ { a with counted := (c, id) :: a.counted, reports := reports } key ↔
      key = (c, id) ∧ (c, id) ∈ s₁.counted ∧ (c, id) ∉ s.counted ∧ (∃ r, f.Surplus id r) ∨
      Repeated f s s₁ a key := by
  constructor
  · rintro ⟨hold, hnew, hcounted, hsurplus⟩
    rcases List.mem_cons.1 hcounted with rfl | hmem
    · exact .inl ⟨rfl, hold, hnew, hsurplus⟩
    · exact .inr ⟨hold, hnew, hmem, hsurplus⟩
  · rintro (⟨rfl, hold, hnew, hsurplus⟩ | ⟨hold, hnew, hmem, hsurplus⟩)
    · exact ⟨hold, hnew, List.mem_cons_self, hsurplus⟩
    · exact ⟨hold, hnew, List.mem_cons_of_mem _ hmem, hsurplus⟩

theorem recount_fitting (h : Retraced f s s₁ a b) (hb : (s.moved s₁ c, id) ∈ b.counted)
    (hfits : ∀ r, ¬ f.Surplus id r) :
    Retraced f s s₁ { a with counted := (c, id) :: a.counted } b := by
  obtain ⟨keys, rs, rs', hra, hrb, homits, hnodup, hkeys⟩ := h.reports
  refine h.recount hb ⟨keys, rs, rs', hra, hrb, homits, hnodup, fun key => ?_⟩
  rw [hkeys, repeated_cons]
  refine (or_iff_right ?_).symm
  rintro ⟨_, _, _, r, hsurplus⟩
  exact hfits r hsurplus

theorem recount_surplus (hs : s.Precedes f s₁) (h : Retraced f s s₁ a b) (ha : (c, id) ∉ a.counted)
    (hb : (s.moved s₁ c, id) ∈ b.counted) {r : Report} (hsurplus : f.Surplus id r.remark) :
    Retraced f s s₁ { a with
      counted := (c, id) :: a.counted
      reports := a.reports.push r } b := by
  obtain ⟨keys, rs, rs', hra, hrb, homits, hnodup, hkeys⟩ := h.reports
  obtain ⟨hold, hnew⟩ := h.mem_of_counted hs ha hb
  have hfirst : (c, id) ∉ keys := by
    rw [hkeys]
    rintro ⟨_, _, hmem, _⟩
    exact ha hmem
  refine h.recount hb ⟨(c, id) :: keys, rs ++ [r], rs', ?_, hrb, homits.drop hsurplus,
    List.nodup_cons.2 ⟨hfirst, hnodup⟩, fun key => ?_⟩
  · rw [Array.toList_push, hra, List.append_assoc]
  · rw [List.mem_cons, hkeys, repeated_cons]
    exact or_congr_left ⟨fun heq => ⟨heq, hold, hnew, _, hsurplus⟩, And.left⟩

end

end Retraced

/-! ## The comparison -/

/-- **The second computation does after an evaluation what the first one does on its own.** -/
def Retraces {α : Type} (f : Forest) (s s₁ : State) (x y : Run α) : Prop :=
  ∀ a b, Retraced f s s₁ a b →
    (y.result b).1 = (x.result a).1 ∧ Retraced f s s₁ (x.result a).2 (y.result b).2

section
variable {α β : Type} {f : Forest} {s s₁ : State} {env env' owner owner' : Env}

theorem retraces_pure (a : α) : Retraces f s s₁ (pure a) (pure a) := fun _ _ h => ⟨rfl, h⟩

theorem retraces_throw (fault : Fault) : Retraces f s s₁ (throw fault : Run α) (throw fault) :=
  fun _ _ h => ⟨rfl, h⟩

theorem retraces_bind {x y : Run α} {k l : α → Run β} (hx : Retraces f s s₁ x y)
    (hk : ∀ a, Retraces f s s₁ (k a) (l a)) : Retraces f s s₁ (x >>= k) (y >>= l) := by
  intro a b h
  obtain ⟨hvalue, hstate⟩ := hx a b h
  rcases hr : x.result a with ⟨fault | v, a'⟩
  · rw [hr] at hvalue hstate
    have hr' : y.result b = (.error fault, (y.result b).2) := Prod.ext hvalue rfl
    rw [result_bind_error hr, result_bind_error hr']
    exact ⟨rfl, hstate⟩
  · rw [hr] at hvalue hstate
    have hr' : y.result b = (.ok v, (y.result b).2) := Prod.ext hvalue rfl
    rw [result_bind_ok hr, result_bind_ok hr']
    exact hk v a' _ hstate

theorem retraces_report (h : env.policy = env'.policy) (r : Remark) :
    Retraces f s s₁ (report env r) (report env' r) := by
  intro a b hab
  rw [result_report, result_report, h]
  exact ⟨rfl, hab.report _⟩

theorem retraces_unresolved (h : env.policy = env'.policy) (ident : String) (r : Remark) :
    Retraces f s s₁ (unresolved env ident r) (unresolved env' ident r) := by
  unfold unresolved
  rw [h]
  split
  · exact retraces_throw _
  · exact retraces_bind (retraces_report h r) fun _ => retraces_pure none

theorem retraces_fresh {k l : Nat → Run α}
    (h : ∀ n m, m = s.moved s₁ n → Retraces f s s₁ (k n) (l m)) :
    Retraces f s s₁ (fresh >>= k) (fresh >>= l) := by
  intro a b hab
  rw [result_bind_ok (result_fresh a), result_bind_ok (result_fresh b)]
  refine h a.next b.next ?_ _ _ hab.fresh
  rw [State.moved_of_le hab.old, hab.next]

theorem retraces_findValue {ev ev' : Evaluator} (hpolicy : owner.policy = owner'.policy)
    (hserial : owner'.serial = s.moved s₁ owner.serial) (id : BindingId) (b : Binding)
    (hev : Retraces f s s₁ (ev b.body owner) (ev' b.body owner')) :
    Retraces f s s₁ (findValue ev id b owner) (findValue ev' id b owner') := by
  rcases hguard : owner.policy.guarded with _ | _
  · rw [findValue_unguarded hguard, findValue_unguarded (hpolicy ▸ hguard)]
    exact hev
  · have hguard' : owner'.policy.guarded = true := hpolicy ▸ hguard
    have hmark : (id, owner'.serial) = s.movedMark s₁ (id, owner.serial) :=
      congrArg (id, ·) hserial
    intro a a' hab
    have hmem := hab.mem_active (id, owner.serial)
    rw [← hmark] at hmem
    by_cases hactive : (id, owner.serial) ∈ a.active
    · rw [findValue_active hguard _ _ hactive, findValue_active hguard' _ _ (hmem.2 hactive)]
      exact ⟨rfl, hab⟩
    · rw [findValue_inactive hguard _ _ hactive,
        findValue_inactive hguard' _ _ fun h => hactive (hmem.1 h), result_marked, result_marked,
        hmark]
      obtain ⟨hvalue, hstate⟩ := hev _ _ (hab.mark (id, owner.serial))
      exact ⟨hvalue, hstate.unmark _⟩

theorem retraces_countOperands (hs : s.Precedes f s₁) (hpolicy : env.policy = env'.policy)
    (hcontext : env'.context = s.moved s₁ env.context) {id : NodeId} {node : Node} {b : Builtin}
    {ident : Option String} {operands : List Ref} (hnode : f.node? id = some node)
    (hshape : node.shape = .call (.builtin b) ident operands false) :
    Retraces f s s₁ (countOperands id b operands.length env)
      (countOperands id b operands.length env') := by
  intro a a' hab
  rw [result_countOperands, result_countOperands, hcontext, hpolicy]
  by_cases ha : (env.context, id) ∈ a.counted
  · have ha' : (s.moved s₁ env.context, id) ∈ a'.counted := (hab.counted _ _).2 (.inl ha)
    rw [if_pos ha, if_pos ha']
    exact ⟨rfl, hab⟩
  · rw [if_neg ha]
    by_cases ha' : (s.moved s₁ env.context, id) ∈ a'.counted
    · rw [if_pos ha']
      obtain ⟨hold, hnew⟩ := hab.mem_of_counted hs ha ha'
      obtain ⟨r, hcheck⟩ := ok_of_supplied hnode hshape ((hs.supplied _ hold).resolve_left hnew)
      rw [hcheck]
      cases r with
      | none =>
        exact ⟨rfl, hab.recount_fitting ha' (not_surplus_of_checkOperands hnode hshape hcheck)⟩
      | some r =>
        exact ⟨rfl, hab.recount_surplus hs ha ha' (surplus_of_checkOperands hnode hshape hcheck)⟩
    · rw [if_neg ha']
      rcases checkOperands b operands.length with fault | _ | r
      · exact ⟨rfl, hab⟩
      · exact ⟨rfl, hab.count hs ha'⟩
      · exact ⟨rfl, (hab.count hs ha').report _⟩

theorem retraces_readNumber (h : env.policy = env'.policy) :
    Retraces f s s₁ (readNumber env) (readNumber env') := by
  intro a b hab
  rw [result_readNumber, result_readNumber, hab.input]
  unfold refusals
  rw [h]
  refine ⟨rfl, ?_⟩
  exact { (hab.write _).reportAll _ with input := rfl }

theorem retraces_draw (h : env.policy = env'.policy) :
    Retraces f s s₁ (draw env) (draw env') := by
  intro a b hab
  rw [result_draw, result_draw, hab.generators, h]
  exact ⟨rfl, { hab with generators := rfl }⟩

theorem retraces_applyBuiltin (h : env.policy = env'.policy) (b : Builtin) (args : List Number) :
    Retraces f s s₁ (applyBuiltin b env args) (applyBuiltin b env' args) := by
  have hsequential : Sequential (Retraces f s s₁) :=
    ⟨retraces_pure, retraces_throw, retraces_bind⟩
  exact hsequential.applyBuiltin env env' b args (fun _ => retraces_readNumber h) fun _ =>
    retraces_draw h

def retracing (hs : s.Precedes f s₁) : Comparison f where
  policy := Eq
  serial n m := m = s.moved s₁ n
  rel := Retraces f s s₁
  pure := retraces_pure
  bind := retraces_bind
  throw := retraces_throw
  write text _ _ h := ⟨rfl, h.write text⟩
  report r _ _ h := retraces_report h.policy r
  fresh := retraces_fresh
  places h := congrArg Policy.places h
  unresolved ident r h _ := retraces_unresolved h.policy ident r
  value id b h hev := retraces_findValue h.policy h.serial id b hev
  count hnode hshape h := retraces_countOperands hs h.policy h.context hnode hshape
  apply args _ _ h := retraces_applyBuiltin h.policy _ args

end

/-! ## The state after an evaluation -/

/-- what is counted in an evaluation that begins in `s`: all that was counted before, and calls with
enough operands for roots that are there already -/
def State.Counts (f : Forest) (s t : State) : Prop :=
  (∀ key ∈ s.counted, key ∈ t.counted) ∧
    ∀ key ∈ t.counted, key ∈ s.counted ∨ key.1 < s.next ∧ f.Supplied key.2

theorem State.Counts.cons {f : Forest} {s t : State} (h : s.Counts f t) {key : Nat × NodeId}
    (hkey : key.1 < s.next ∧ f.Supplied key.2) {t' : State}
    (ht' : t'.counted = key :: t.counted) : s.Counts f t' := by
  unfold State.Counts
  rw [ht']
  refine ⟨fun k hk => List.mem_cons_of_mem _ (h.1 k hk), fun k hk => ?_⟩
  rcases List.mem_cons.1 hk with rfl | hk
  · exact .inr hkey
  · exact h.2 k hk

theorem counts_of_counting {f : Forest} {s : State} {id : NodeId} {node : Node} {b : Builtin}
    {ident : Option String} {operands : List Ref} {env : Env} (hnode : f.node? id = some node)
    (hshape : node.shape = .call (.builtin b) ident operands false)
    (henv : env.Rooted fun n _ => n < s.next) :
    Ensures (s.Counts f) (fun _ => True) (countOperands id b operands.length env)
      fun _ => True := by
  intro t ht
  rw [result_countOperands]
  by_cases hmem : (env.context, id) ∈ t.counted
  · rw [if_pos hmem]
    exact ⟨ht, trivial⟩
  · rw [if_neg hmem]
    rcases hcheck : checkOperands b operands.length with fault | r
    · exact ⟨ht, trivial⟩
    · have hsupplied : f.Supplied id :=
        Forest.supplied_of_node hnode hshape (least_of_checkOperands hcheck)
      have hkey : env.context < s.next ∧ f.Supplied id := ⟨henv.policy, hsupplied⟩
      cases r with
      | none => exact ⟨ht.cons hkey rfl, trivial⟩
      | some r => exact ⟨ht.cons hkey rfl, trivial⟩

def countingAssurance (f : Forest) (s : State) : Assurance f :=
  .ofCounting f (fun n _ => n < s.next) (fun t t' ht _ h => by rwa [State.Counts, ht])
    counts_of_counting

section
variable {f : Forest} {env : Env} {s : State}

theorem State.Covers.counts (hs : s.Covers env) (limit : Nat) (ref : Ref) :
    s.Counts f ((evalNode f limit ref env).result s).2 :=
  ((countingAssurance f s).evalNode limit ref env (fun _ _ hsub => hs.frames _ hsub) s
    ⟨fun _ => id, fun _ => .inl⟩).1

theorem State.Covers.precedes (hs : s.Covers env) (limit : Nat) (ref : Ref) :
    s.Precedes f ((evalNode f limit ref env).result s).2 := by
  have hadvances := advances_evalNode f limit ref env s
  have hcounts : s.Counts f _ := hs.counts limit ref
  refine ⟨hadvances.next, hadvances.active, hs.marks, fun key hkey => ?_, hcounts.1,
    fun key hkey => ?_⟩
  · exact (hcounts.2 key hkey).elim (hs.calls key) And.left
  · exact (hcounts.2 key hkey).imp_right And.right

theorem State.Covers.evalNode (hs : s.Covers env) (limit : Nat) (ref : Ref) :
    ((evalNode f limit ref env).result s).2.Covers env := by
  have hafter : s.Precedes f _ := hs.precedes limit ref
  refine ⟨fun e he => ?_, fun m hm => ?_, fun key hkey => ?_⟩
  · exact Nat.lt_of_lt_of_le (hs.frames e he) hafter.next
  · rw [hafter.active] at hm
    exact Nat.lt_of_lt_of_le (hs.marks m hm) hafter.next
  · exact Nat.lt_of_lt_of_le (hafter.calls key hkey) hafter.next

/-- **An evaluation leaves no trace for the next one.**  Whether the first one ends with a value or
a fault, marks are as they were before, and the second one has the same result, takes the same input
and random numbers and writes the same output as on its own.  Its reports are the same, except that
the remarks on surplus operands are not repeated for calls whose operands were counted first in the
evaluation before; for each such call that it would have counted, there is one.  Nodes, tables and
bindings are no part of the state, so the forest is the same all along. -/
theorem evaluation_leaves_no_trace (f : Forest) (hs : s.Covers env) (limit limit' : Nat)
    (first second : Ref) :
    let s₁ := ((Abacus.evalNode f limit first env).result s).2
    let alone := (Abacus.evalNode f limit' second env).result
      { s with input := s₁.input, generators := s₁.generators }
    let after := (Abacus.evalNode f limit' second env).result s₁
    s₁.Covers env ∧ s₁.active = s.active ∧
      after.1 = alone.1 ∧ after.2.input = alone.2.input ∧
      after.2.generators = alone.2.generators ∧
      (∃ text, alone.2.output = s.output ++ text ∧ after.2.output = s₁.output ++ text) ∧
      Spares f s s₁ alone.2 after.2 := by
  intro s₁ alone after
  have hprecedes : s.Precedes f s₁ := hs.precedes limit first
  have henv : (retracing hprecedes).Like env env :=
    .refl_sub (fun _ => rfl) fun e he => (State.moved_of_lt (hs.frames e he)).symm
  obtain ⟨hresult, hstate⟩ := (retracing hprecedes).evalNode limit' second env env henv _ s₁
    (.start hprecedes)
  exact ⟨hs.evalNode limit first, hprecedes.active, hresult, hstate.input, hstate.generators,
    hstate.output, hstate.reports⟩

end

def surplusCall : Forest :=
  ⟨#[⟨.call (.builtin .neg) none [.absent, .absent] false, none, none⟩], #[], #[]⟩

/-- the call with one operand too many is remarked on when it is evaluated first, and not again -/
theorem evaluation_leaves_no_trace_surplusCall :
    let env : Env := .root 0 { strict := false }
    let s : State := .start [] (.ofSeed 0)
    let run := (evalNode surplusCall 2 (.node ⟨0⟩) env).result
    s.Covers env ∧ (run (run s).2).1 = (run s).1 ∧
      (run s).2.reports.toList = [⟨.caller, .surplusOperands "neg" 1 2⟩] ∧
      (run (run s).2).2.reports = (run s).2.reports := by
  intro env s run
  have hcovers : s.Covers env := covers_start _ _ _
  obtain ⟨_, _, hresult, _⟩ :=
    evaluation_leaves_no_trace surplusCall hcovers 2 2 (.node ⟨0⟩) (.node ⟨0⟩)
  exact ⟨hcovers, hresult, rfl, rfl⟩

end Abacus
