import Abacus.Proofs.Evaluation.Counting
import Abacus.Proofs.Evaluation.Locality

/-!
# Remarks on surplus operands

In a run the operands of a call put together by hand are counted when the call is evaluated first,
and if there are too many of them, that is remarked on then.  So the remarks on surplus operands are
those on the calls that have been counted, in the order of counting.

* `State.surplusCalls`     the calls with surplus operands that have been counted, in order;
* `State.Tallied`          each call is counted once, and remarked on as it is counted;
* `tallied_of_visits`      so it is wherever an evaluation inside a run begins;
* `counted_of_visit`       a call that has been evaluated is counted;
* `Visit.RemarksOnce`      the remarks of a run on calls with surplus operands, one for each call;
* `remarksOnce_of_start`   so it is in every run from the beginning.
-/

namespace Abacus

open Run Growth

/-! ## Calls and remarks -/

/-- the calls with surplus operands that have been counted, in the order of counting -/
def State.surplusCalls (f : Forest) (s : State) : List NodeId :=
  (s.counted.reverse.map (·.2)).filter fun id => (f.surplus? id).isSome

def surplusReports (f : Forest) (channel : Channel) (ids : List NodeId) : List Report :=
  ids.filterMap fun id => (f.surplus? id).map (Report.mk channel)

/-- **Each call is counted once, for one root, and remarked on as it is counted.** -/
structure State.Tallied (f : Forest) (root : Nat) (channel : Channel) (s : State) : Prop where
  root : ∀ key ∈ s.counted, key.1 = root
  once : s.counted.Nodup
  surplus : s.surplus = surplusReports f channel (s.surplusCalls f)

section
variable {f : Forest} {c : Nat} {channel : Channel} {s t : State} {id : NodeId}

theorem mem_surplusCalls : id ∈ s.surplusCalls f ↔
    (∃ n, (n, id) ∈ s.counted) ∧ (f.surplus? id).isSome := by
  simp [State.surplusCalls]

theorem surplusCalls_cons (h : t.counted = (c, id) :: s.counted) :
    t.surplusCalls f = s.surplusCalls f ++ if (f.surplus? id).isSome then [id] else [] := by
  simp [State.surplusCalls, h, List.filter_append, List.filter_cons]

theorem surplusCalls_of_extends (h : s.Extends t) : s.surplusCalls f <+: t.surplusCalls f :=
  ((List.reverse_prefix.2 h.counted).map _).filter _

namespace State.Tallied

theorem start (input : List Char) (generator : Generator) :
    (State.start input generator).Tallied f c channel :=
  ⟨fun _ h => (nomatch h), List.nodup_nil, rfl⟩

theorem congr (h : s.Tallied f c channel) (hcounted : t.counted = s.counted)
    (hsurplus : t.surplus = s.surplus) : t.Tallied f c channel where
  root := by
    rw [hcounted]
    exact h.root
  once := by
    rw [hcounted]
    exact h.once
  surplus := by
    rw [hsurplus, h.surplus, surplusCalls, surplusCalls, hcounted]

theorem nodup (h : s.Tallied f c channel) : (s.surplusCalls f).Nodup := by
  refine List.Nodup.filter _ (List.Nodup.map_on ?_ (List.nodup_reverse.2 h.once))
  intro key hkey key' hkey' heq
  refine Prod.ext ?_ heq
  rw [h.root key (List.mem_reverse.1 hkey), h.root key' (List.mem_reverse.1 hkey')]

theorem length (h : s.Tallied f c channel) : s.surplus.length = (s.surplusCalls f).length := by
  have hall (ids : List NodeId) (hids : ∀ id ∈ ids, (f.surplus? id).isSome) :
      (surplusReports f channel ids).length = ids.length := by
    induction ids with
    | nil => rfl
    | cons id ids ih =>
      obtain ⟨r, hr⟩ := Option.isSome_iff_exists.1 (hids id List.mem_cons_self)
      have hrest := ih fun id hid => hids id (List.mem_cons_of_mem _ hid)
      rw [surplusReports] at hrest ⊢
      simp [hr, hrest]
  rw [h.surplus, hall _ fun id hid => (mem_surplusCalls.1 hid).2]

theorem cons (h : s.Tallied f c channel) (hnew : (c, id) ∉ s.counted)
    (hcounted : t.counted = (c, id) :: s.counted)
    (hsurplus : t.surplus = s.surplus ++ ((f.surplus? id).map (Report.mk channel)).toList) :
    t.Tallied f c channel where
  root := by
    rw [hcounted]
    exact List.forall_mem_cons.2 ⟨rfl, h.root⟩
  once := by
    rw [hcounted]
    exact List.nodup_cons.2 ⟨hnew, h.once⟩
  surplus := by
    rw [hsurplus, h.surplus, surplusCalls_cons hcounted, surplusReports, surplusReports,
      List.filterMap_append]
    congr 1
    cases hr : f.surplus? id <;> simp [hr]

end State.Tallied

/-! ## Counting -/

theorem tallied_of_counting {policy : Policy} {node : Node} {b : Builtin} {ident : Option String}
    {operands : List Ref} {env : Env} (hnode : f.node? id = some node)
    (hshape : node.shape = .call (.builtin b) ident operands false)
    (henv : env.Rooted fun n p => n = c ∧ p = policy) :
    Ensures (State.Tallied f c policy.channel) (fun _ => True)
      (countOperands id b operands.length env) fun _ => True := by
  obtain ⟨hcontext, hpolicy⟩ := henv.policy
  intro s hs
  rw [result_countOperands, hcontext, hpolicy]
  by_cases hmem : (c, id) ∈ s.counted
  · rw [if_pos hmem]
    exact ⟨hs, trivial⟩
  · rw [if_neg hmem]
    rcases hcheck : checkOperands b operands.length with fault | r
    · exact ⟨hs, trivial⟩
    · have hsurplus := surplus?_of_checkOperands hnode hshape hcheck
      cases r with
      | none => exact ⟨hs.cons hmem rfl (by rw [hsurplus]; simp [State.surplus]), trivial⟩
      | some r =>
        have hr : r.isSurplus = true := by
          rw [Forest.surplus?, hnode] at hsurplus
          exact Shape.isSurplus_of_surplus? hsurplus
        exact ⟨hs.cons hmem rfl (by rw [hsurplus]; simp [State.surplus, hr]), trivial⟩

def tallying (f : Forest) (c : Nat) (policy : Policy) : Assurance f :=
  .ofCounting f (fun n p => n = c ∧ p = policy) (fun _ _ hcounted hsurplus h =>
    State.Tallied.congr h hcounted hsurplus) tallied_of_counting

/-- **Calls are tallied wherever an evaluation inside a run begins, and at its end.** -/
theorem tallied_of_visits {v w : Visit} {policy : Policy} (hv : v.state.Tallied f c policy.channel)
    (henv : v.env.Rooted fun n p => n = c ∧ p = policy) (hvisits : Visits f v w) :
    (w.env.context = c ∧ w.env.policy = policy) ∧ w.state.Tallied f c policy.channel ∧
      (w.result f).2.Tallied f c policy.channel := by
  obtain ⟨hroot, hw⟩ := (tallying f c policy).begins_of_visits hvisits henv hv
  exact ⟨hroot.policy, hw, ((tallying f c policy).evalNode w.limit w.ref w.env hroot _ hw).1⟩

/-! ## The evaluations of a call -/

theorem keeps_evalBuiltin {ev : Evaluator} (hev : ∀ ref env, Keeps State.Advances (ev ref env))
    (f : Forest) (id : NodeId) (b : Builtin) (operands : List Ref) (env : Env) :
    Keeps State.Advances (evalBuiltin ev id b operands true env) := by
  have hall : (advances f).Evaluators ev ev := fun ref env _ _ => hev ref env
  rw [evalBuiltin_eq]
  refine keeps_bind steady_advances (keeps_pure steady_advances ()) fun _ => ?_
  split
  · exact (advances f).printOperands hall (advances_like env) none operands
  · refine keeps_bind steady_advances ((advances f).evalOperands hall (advances_like env) _) fun _ => ?_
    split
    · exact keeps_applyBuiltin steady_advances trivial b _
    · exact keeps_pure steady_advances none

/-- **The first evaluation of a call with surplus operands counts them and remarks on them** before
anything else; at the beginning of the others they are counted already. -/
theorem counted_of_visit {w : Visit} {r : Remark} (href : w.ref = .node id) (hlimit : w.limit ≠ 0)
    (hr : f.surplus? id = some r) :
    (w.env.context, id) ∈ w.state.counted ∨
      State.Extends { w.state with
        counted := (w.env.context, id) :: w.state.counted
        reports := w.state.reports.push ⟨w.env.policy.channel, r⟩ } (w.result f).2 := by
  obtain ⟨limit, ref, env, s⟩ := w
  dsimp only at href hlimit ⊢
  subst href
  obtain ⟨limit, rfl⟩ := Nat.exists_eq_succ_of_ne_zero hlimit
  by_cases hmem : (env.context, id) ∈ s.counted
  · exact Or.inl hmem
  refine Or.inr ?_
  obtain ⟨node, hnode, hsurplus⟩ := Option.bind_eq_some_iff.1 hr
  obtain ⟨b, ident, operands, hshape, hcheck⟩ := Shape.surplus?_eq_some hsurplus
  have hcount := result_countOperands id b operands.length
    (Env.push (f.tablesOf node).reverse s.next env) { s with
      next := s.next + (f.tablesOf node).length }
  rw [Env.context_push, if_neg hmem, hcheck] at hcount
  have hrest := keeps_evalBuiltin (advances_evalNode f limit) f id b operands
    (Env.push (f.tablesOf node).reverse s.next env)
  rw [Visit.result, evalNode_node hnode, result_bind_ok (result_enter f node env s), hshape,
    evalShape, evalBuiltin_unchecked, result_bind_ok hcount]
  refine State.Extends.trans ?_ (hrest _).toExtends
  rw [Env.policy_push]
  exact { State.Extends.refl _ with next := Nat.le_add_right _ _ }

end

/-! ## Where calls are counted -/

def Forest.blanked (f : Forest) (id : NodeId) : Forest :=
  { f with nodes := f.nodes.modify id.index fun n => { n with shape := .symbol "" } }

/-- an evaluator that stops before it counts a certain call -/
def Evaluator.refusing (ev : Evaluator) (key : Nat × NodeId) : Evaluator := fun ref env s =>
  if key ∉ s.counted ∧ key ∈ ((ev ref env).result s).2.counted then (.error .tooDeep, s)
  else (ev ref env).result s

section
variable {f : Forest} {key : Nat × NodeId}

theorem refusing_evaluator (ev : Evaluator) (ref : Ref) (env : Env) {s : State}
    (hs : key ∉ s.counted) : key ∉ ((ev.refusing key ref env).result s).2.counted := by
  show key ∉ (if key ∉ s.counted ∧ key ∈ ((ev ref env).result s).2.counted then (.error .tooDeep, s)
    else (ev ref env).result s : Except Fault Value × State).2.counted
  split
  · exact hs
  · next h => exact fun hmem => h ⟨hs, hmem⟩

theorem uncounted_of_counting {id : NodeId} {node : Node} {b : Builtin} {ident : Option String}
    {operands : List Ref} (env : Env) (hnode : (f.blanked key.2).node? id = some node)
    (hshape : node.shape = .call (.builtin b) ident operands false) :
    Ensures (fun s => key ∉ s.counted) (fun _ => True) (countOperands id b operands.length env)
      fun _ => True := by
  have hne : key.2 ≠ id := by
    rintro rfl
    rw [Forest.blanked, Forest.node?_modify, if_pos rfl] at hnode
    obtain ⟨n, _, rfl⟩ := Option.map_eq_some_iff.1 hnode
    cases hshape
  intro s hs
  have hcons : key ∉ (env.context, id) :: s.counted := fun hmem =>
    (List.mem_cons.1 hmem).elim (fun heq => hne (congrArg Prod.snd heq)) hs
  rw [result_countOperands]
  split
  · exact ⟨hs, trivial⟩
  · split
    · exact ⟨hs, trivial⟩
    · exact ⟨hcons, trivial⟩
    · exact ⟨hcons, trivial⟩

def uncounting (f : Forest) (key : Nat × NodeId) : Assurance (f.blanked key.2) :=
  .ofCounting (I := fun s => key ∉ s.counted) _ (fun _ _ => True)
    (fun s t (h : t.counted = s.counted) _ => by rw [h]; exact id)
    fun {id node b ident operands env} hnode hshape _ => uncounted_of_counting env hnode hshape

/-- a call that the evaluation of another node counts is counted in a part of it -/
theorem part_of_counted {ev : Evaluator} {id : NodeId} {node : Node} {env : Env} {s : State}
    (hnode : f.node? id = some node) (hne : key.2 ≠ id) (hnew : key ∉ s.counted)
    (hkey : key ∈ ((evalShape f ev id node.shape env).result s).2.counted) :
    ∃ ref env' s', Part f ev id node.shape env s ref env' s' ∧ key ∉ s'.counted ∧
      key ∈ ((ev ref env').result s').2.counted := by
  by_contra hnone
  have hagree : (evalShape f ev id node.shape env).result s
      = (evalShape f (ev.refusing key) id node.shape env).result s :=
    evalShape_of_parts fun ref env' s' hpart =>
      (if_neg fun hcounts => hnone ⟨ref, env', s', hpart, hcounts⟩).symm
  have hblank : evalShape (f.blanked key.2) (ev.refusing key) id node.shape env
      = evalShape f (ev.refusing key) id node.shape env :=
    evalShape_of_lookup fun _ _ => lookup?_congr (f := f) (g := f.blanked key.2) (fun _ => rfl) env
  have hnode' : (f.blanked key.2).node? id = some node := by
    rw [Forest.blanked, Forest.node?_modify, if_neg hne.symm, hnode]
  have hev : (uncounting f key).Evaluator (ev.refusing key) := by
    intro ref env _ s hs
    refine ⟨refusing_evaluator ev ref env hs, ?_⟩
    split
    · exact fun _ _ => trivial
    · trivial
  rw [hagree, ← hblank] at hkey
  exact ((Assurance.holds_shape hev (fun _ _ _ => trivial) hnode') s hnew).1 hkey

/-- **A call that is counted in a run is counted by an evaluation of it** that finds it not counted
yet. -/
theorem visit_of_counted {v : Visit} (hnew : key ∉ v.state.counted)
    (hkey : key ∈ (v.result f).2.counted) :
    ∃ w, Visits f v w ∧ w.ref = .node key.2 ∧ w.limit ≠ 0 ∧ key ∉ w.state.counted := by
  obtain ⟨limit, ref, env, s⟩ := v
  induction limit generalizing ref env s with
  | zero => exact absurd hkey hnew
  | succ limit ih =>
    cases ref with
    | absent => exact absurd hkey hnew
    | foreign typeName serial => exact absurd hkey hnew
    | node id =>
      by_cases hid : id = key.2
      · exact ⟨_, .refl, congrArg Ref.node hid, Nat.succ_ne_zero limit, hnew⟩
      · rcases hnode : f.node? id with _ | node
        · simp only [Visit.result, evalNode, hnode] at hkey
          exact absurd hkey hnew
        · have henter := result_enter f node env s
          rw [Visit.result, evalNode_node hnode, result_bind_ok henter] at hkey
          have hentered : key ∉ ({ s with next := s.next + (f.tablesOf node).length } : State).counted :=
            hnew
          obtain ⟨ref', env', s', hpart, hnew', hkey'⟩ :=
            part_of_counted hnode (Ne.symm hid) hentered hkey
          obtain ⟨w, hw, hfirst⟩ := ih ref' env' s' hnew' hkey'
          exact ⟨w, .head (.part hnode henter hpart) hw, hfirst⟩

end

/-! ## First evaluations -/

/-- the evaluation is of a certain node, and is not cut off before it begins -/
structure Visit.Evaluates (w : Visit) (id : NodeId) : Prop where
  ref : w.ref = .node id
  limit : w.limit ≠ 0

/-- **The calls with surplus operands that are evaluated in a run are remarked on once each**, in a
certain order: when it is evaluated first, a call is remarked on before anything else, after those
before it in the order; at the beginning of all its other evaluations that has been done. -/
structure Visit.RemarksOnce (f : Forest) (v : Visit) (calls : List NodeId) : Prop where
  once : calls.Nodup
  reports : (v.result f).2.surplus = surplusReports f v.env.policy.channel calls
  evaluated : ∀ id, id ∈ calls ↔ (f.surplus? id).isSome ∧ ∃ w, Visits f v w ∧ w.Evaluates id
  first : ∀ id ∈ calls, ∃ w, Visits f v w ∧ w.Evaluates id ∧
    w.state.surplus.length = calls.idxOf id
  each : ∀ w id r, Visits f v w → w.Evaluates id → f.surplus? id = some r →
    calls.idxOf id < w.state.surplus.length ∨
      w.state.surplus.length = calls.idxOf id ∧
        w.state.reports.toList ++ [⟨v.env.policy.channel, r⟩] <+: (w.result f).2.reports.toList

section
variable {f : Forest} {c : Nat} {policy : Policy} {v w : Visit} {id : NodeId} {r : Remark}

/-- what an evaluation of a call with surplus operands finds done, and what it does -/
theorem place_of_visit (hv : v.state.Tallied f c policy.channel)
    (henv : v.env.Rooted fun n p => n = c ∧ p = policy) (hvisits : Visits f v w)
    (hw : w.Evaluates id) (hr : f.surplus? id = some r) :
    let calls := (v.result f).2.surplusCalls f
    id ∈ calls ∧
      ((c, id) ∈ w.state.counted ∧ calls.idxOf id < w.state.surplus.length ∨
        (c, id) ∉ w.state.counted ∧ w.state.surplus.length = calls.idxOf id ∧
        w.state.reports.toList ++ [⟨policy.channel, r⟩] <+: (w.result f).2.reports.toList) := by
  intro calls
  obtain ⟨⟨hcontext, hpolicy⟩, htallied, _⟩ := tallied_of_visits hv henv hvisits
  have hafter : (w.result f).2.Extends (v.result f).2 := extends_of_visits hvisits
  have hsome : (f.surplus? id).isSome := by rw [hr]; rfl
  rw [htallied.length]
  by_cases hmem : (c, id) ∈ w.state.counted
  · have hcalled : id ∈ w.state.surplusCalls f := mem_surplusCalls.2 ⟨⟨c, hmem⟩, hsome⟩
    have hwhole := (advances_evalNode f w.limit w.ref w.env w.state).toExtends.trans hafter
    obtain ⟨more, hmore⟩ := surplusCalls_of_extends (f := f) hwhole
    have hcalls : calls = w.state.surplusCalls f ++ more := hmore.symm
    rw [hcalls, List.idxOf_append_of_mem hcalled]
    exact ⟨List.mem_append_left more hcalled, Or.inl ⟨hmem, List.idxOf_lt_length_of_mem hcalled⟩⟩
  · have hcounts := counted_of_visit hw.ref hw.limit hr
    rw [hcontext, hpolicy] at hcounts
    have hextends := hcounts.resolve_left hmem
    have hnew : id ∉ w.state.surplusCalls f := by
      intro hcalled
      obtain ⟨⟨n, hn⟩, _⟩ := mem_surplusCalls.1 hcalled
      have hroot : n = c := htallied.root _ hn
      exact hmem (hroot ▸ hn)
    obtain ⟨more, hmore⟩ := surplusCalls_of_extends (f := f) (hextends.trans hafter)
    rw [surplusCalls_cons (s := w.state) rfl, if_pos hsome] at hmore
    have hcalls : calls = w.state.surplusCalls f ++ [id] ++ more := hmore.symm
    rw [hcalls, List.append_assoc, List.idxOf_append_of_notMem hnew]
    refine ⟨by simp, Or.inr ⟨hmem, by simp, ?_⟩⟩
    have hreports := hextends.reports
    rwa [Array.toList_push] at hreports

/-- **In a run from the beginning, every call with surplus operands that is evaluated is remarked on
once, at its first evaluation.** -/
theorem remarksOnce_of_start (f : Forest) (limit : Nat) (ref : Ref) (policy : Policy)
    (input : List Char) (generator : Generator) :
    let v : Visit := .start limit ref policy input generator
    v.RemarksOnce f ((v.result f).2.surplusCalls f) := by
  intro v
  have hv : v.state.Tallied f 0 policy.channel := .start input generator
  have henv : v.env.Rooted fun n p => n = 0 ∧ p = policy := .of_root ⟨rfl, rfl⟩
  obtain ⟨_, _, hend⟩ := tallied_of_visits hv henv (.refl (a := v))
  have hfirst (id : NodeId) (hid : id ∈ (v.result f).2.surplusCalls f) :
      ∃ w, Visits f v w ∧ w.Evaluates id ∧
        w.state.surplus.length = ((v.result f).2.surplusCalls f).idxOf id := by
    obtain ⟨⟨n, hn⟩, hsome⟩ := mem_surplusCalls.1 hid
    obtain ⟨r, hr⟩ := Option.isSome_iff_exists.1 hsome
    have hzero : n = 0 := hend.root _ hn
    subst hzero
    obtain ⟨w, hw, href, hlimit, hnew⟩ := visit_of_counted (v := v) List.not_mem_nil hn
    obtain ⟨_, ⟨hmem, _⟩ | ⟨_, hplace, _⟩⟩ := place_of_visit hv henv hw ⟨href, hlimit⟩ hr
    · exact absurd hmem hnew
    · exact ⟨w, hw, ⟨href, hlimit⟩, hplace⟩
  refine ⟨hend.nodup, hend.surplus, fun id => ⟨fun hid => ?_, ?_⟩, hfirst, ?_⟩
  · obtain ⟨w, hw, hevaluates, _⟩ := hfirst id hid
    exact ⟨(mem_surplusCalls.1 hid).2, w, hw, hevaluates⟩
  · rintro ⟨hsome, w, hw, hevaluates⟩
    obtain ⟨r, hr⟩ := Option.isSome_iff_exists.1 hsome
    exact (place_of_visit hv henv hw hevaluates hr).1
  · intro w id r hw hevaluates hr
    exact (place_of_visit hv henv hw hevaluates hr).2.imp And.right And.right

end

end Abacus
