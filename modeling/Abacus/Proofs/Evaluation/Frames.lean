import Abacus.Proofs.Evaluation.Visits

/-!
# The frames of a run

A frame takes the next serial number when it is made, inside frames that are there already.  So
serial numbers fall from a frame to those around it and to those of its arguments, and in the
evaluations inside an evaluation a frame of its own is the only one with its number.

* `Env.found_here`      a name is found in a frame of the chain;
* `Env.Sub`             an environment inside another one, as a frame around or in an argument;
* `Env.Made`            environments whose serial numbers fall inward;
* `made_of_visits`      all serial numbers were given before;
* `sub_of_visits`       an environment with an old number is an old one.
-/

namespace Abacus

open Run

theorem Forest.binding_of_find? {f : Forest} {t : TableId} {x : String} {id : BindingId} {b : Binding}
    (h : f.find? t x = some (id, b)) : f.binding? id = some b ∧ b.ident = x := by
  have hident := List.find?_some h
  refine ⟨?_, beq_iff_eq.1 hident⟩
  have hmem := List.mem_of_find?_eq_some h
  unfold Forest.bindingsOf at hmem
  split at hmem
  · obtain ⟨id', _, hid⟩ := List.mem_filterMap.1 hmem
    obtain ⟨b', hb, heq⟩ := Option.map_eq_some_iff.1 hid
    cases heq
    exact hb
  · cases hmem

namespace Env

variable {f : Forest} {env e owner caller : Env} {x : String} {n m : Nat} {label : Option String}
  {parameters : List (String × Ref × Env)} {table : Option TableId}

/-! ## Where a name is found -/

/-- **A name is found in a frame of the chain.** -/
theorem found_here {found : Found} (h : env.lookup? f x = some (found, owner)) :
    owner ∈ env.chain ∧ owner.here? f x = some found := by
  induction env using Env.induction with
  | onRoot n policy => cases h
  | onFrame n label parameters table parent _ ih =>
    simp only [Env.lookup?] at h
    split at h
    · next hhere =>
      cases h
      exact ⟨List.mem_cons_self, hhere⟩
    · obtain ⟨hmem, hhere⟩ := ih h
      exact ⟨List.mem_cons_of_mem _ hmem, hhere⟩

theorem here_thunk {ref : Ref} (h : owner.here? f x = some (.thunk ref caller)) :
    ∃ n label parameters table parent, owner = .frame n label parameters table parent ∧
      parameters.lookup x = some (ref, caller) := by
  cases owner with
  | root n policy => cases h
  | frame n label parameters table parent =>
    refine ⟨n, label, parameters, table, parent, rfl, ?_⟩
    rw [here?] at h
    split at h
    · next hlookup =>
      cases h
      exact hlookup
    · obtain ⟨_, _, hfound⟩ := Option.map_eq_some_iff.1 h
      cases hfound

theorem here_binding {id : BindingId} {b : Binding} (h : owner.here? f x = some (.binding id b)) :
    ∃ n label parameters t parent, owner = .frame n label parameters (some t) parent ∧
      f.find? t x = some (id, b) := by
  cases owner with
  | root n policy => cases h
  | frame n label parameters table parent =>
    rw [here?] at h
    split at h
    · cases h
    · obtain ⟨found, hfound, heq⟩ := Option.map_eq_some_iff.1 h
      obtain ⟨t, rfl, hfind⟩ := Option.bind_eq_some_iff.1 hfound
      cases heq
      exact ⟨n, label, parameters, t, parent, rfl, hfind⟩

theorem binding_of_lookup {id : BindingId} {b : Binding}
    (h : env.lookup? f x = some (.binding id b, owner)) : f.binding? id = some b := by
  obtain ⟨n, label, parameters, t, parent, rfl, hfind⟩ := here_binding (found_here h).2
  exact (Forest.binding_of_find? hfind).1

/-! ## Environments inside others -/

/-- **An environment inside another one**: the same one, one around it, or one of an argument -/
inductive Sub : Env → Env → Prop
  | refl {env : Env} : Sub env env
  | parent {e parent : Env} {n : Nat} {label : Option String}
      {parameters : List (String × Ref × Env)} {table : Option TableId} : Sub e parent →
      Sub e (.frame n label parameters table parent)
  | argument {e caller parent : Env} {n : Nat} {label : Option String} {x : String} {ref : Ref}
      {parameters : List (String × Ref × Env)} {table : Option TableId} :
      parameters.lookup x = some (ref, caller) → Sub e caller →
      Sub e (.frame n label parameters table parent)

theorem Sub.trans {e₁ e₂ e₃ : Env} (h : Sub e₁ e₂) (h' : Sub e₂ e₃) : Sub e₁ e₃ := by
  induction h' with
  | refl => exact h
  | parent _ ih => exact .parent ih
  | argument hx _ ih => exact .argument hx ih

theorem sub_of_mem_chain (h : owner ∈ env.chain) : Sub owner env := by
  induction env using Env.induction with
  | onRoot n policy =>
    rw [List.mem_singleton.1 h]
    exact .refl
  | onFrame n label parameters table parent _ ih =>
    rcases List.mem_cons.1 h with rfl | h
    · exact .refl
    · exact .parent (ih h)

theorem sub_of_binding {id : BindingId} {b : Binding}
    (h : env.lookup? f x = some (.binding id b, owner)) : Sub owner env :=
  sub_of_mem_chain (found_here h).1

theorem sub_of_thunk {ref : Ref} (h : env.lookup? f x = some (.thunk ref caller, owner)) :
    Sub caller env := by
  obtain ⟨hmem, hhere⟩ := found_here h
  obtain ⟨n, label, parameters, table, parent, rfl, hlookup⟩ := here_thunk hhere
  exact (Sub.argument hlookup .refl).trans (sub_of_mem_chain hmem)

theorem sub_push {tables : List TableId} (h : Sub e (push tables n env)) :
    Sub e env ∨ n ≤ e.serial := by
  induction tables generalizing n env with
  | nil => exact Or.inl h
  | cons t tables ih =>
    rcases ih h with h | h
    · cases h with
      | refl => exact Or.inr (Nat.le_refl n)
      | parent h => exact Or.inl h
      | argument hx _ => cases hx
    · exact Or.inr (Nat.le_of_succ_le h)

/-- inside the frame of a call, the environments of caller and definition and the frame itself -/
theorem sub_call {names : List String} {refs : List Ref}
    (h : Sub e (.frame n label (bind caller names refs) none owner)) :
    Sub e caller ∨ Sub e owner ∨ e.serial = n := by
  cases h with
  | refl => exact Or.inr (Or.inr rfl)
  | parent h => exact Or.inr (Or.inl h)
  | argument hx h =>
    rw [lookup_bind] at hx
    obtain ⟨ref, _, heq⟩ := Option.map_eq_some_iff.1 hx
    cases heq
    exact Or.inl h

/-! ## Serial numbers -/

/-- **Environments whose serial numbers fall inward**, all of them below a bound -/
inductive Made : Nat → Env → Prop
  | root {m n : Nat} {policy : Policy} : n < m → Made m (.root n policy)
  | frame {m n : Nat} {label : Option String} {parameters : List (String × Ref × Env)}
      {table : Option TableId} {parent : Env} : n < m →
      (∀ x ref caller, parameters.lookup x = some (ref, caller) → Made n caller) →
      Made n parent → Made m (.frame n label parameters table parent)

theorem Made.mono (h : Made n env) (hle : n ≤ m) : Made m env := by
  cases h with
  | root hlt => exact .root (Nat.lt_of_lt_of_le hlt hle)
  | frame hlt hcallers hparent => exact .frame (Nat.lt_of_lt_of_le hlt hle) hcallers hparent

theorem Made.serial_lt (h : Made n env) : env.serial < n := by
  cases h with
  | root hlt => exact hlt
  | frame hlt _ _ => exact hlt

theorem Made.sub (h : Made n env) (hsub : Sub e env) : Made n e := by
  induction hsub generalizing n with
  | refl => exact h
  | parent _ ih =>
    cases h with
    | frame hlt _ hparent => exact ih (hparent.mono (Nat.le_of_lt hlt))
  | argument hx _ ih =>
    cases h with
    | frame hlt hcallers _ => exact ih ((hcallers _ _ _ hx).mono (Nat.le_of_lt hlt))

/-- **The same number inside an environment means the same environment.** -/
theorem Made.eq_of_sub (h : Made n env) (hsub : Sub e env) (hserial : e.serial = env.serial) :
    e = env := by
  cases hsub with
  | refl => rfl
  | parent hsub =>
    cases h with
    | frame _ _ hparent =>
      exact absurd hserial (Nat.ne_of_lt (hparent.sub hsub).serial_lt)
  | argument hx hsub =>
    cases h with
    | frame _ hcallers _ =>
      exact absurd hserial (Nat.ne_of_lt ((hcallers _ _ _ hx).sub hsub).serial_lt)

theorem Made.push {tables : List TableId} (h : Made n env) :
    Made (n + tables.length) (Env.push tables n env) := by
  induction tables generalizing n env with
  | nil => exact h
  | cons t tables ih =>
    have hframe : Made (n + 1) (.frame n none [] (some t) env) :=
      .frame (Nat.lt_succ_self n) (fun _ _ _ hx => by cases hx) h
    have hpush := ih hframe
    rwa [Nat.add_assoc, Nat.add_comm 1] at hpush

theorem Made.call (h : Made n caller) (howner : Made n owner) (label : Option String)
    (names : List String) (refs : List Ref) :
    Made (n + 1) (.frame n label (bind caller names refs) none owner) := by
  refine .frame (Nat.lt_succ_self n) (fun x ref caller' hx => ?_) howner
  rw [lookup_bind] at hx
  obtain ⟨_, _, heq⟩ := Option.map_eq_some_iff.1 hx
  cases heq
  exact h

end Env

/-! ## The frames of the evaluations inside a run -/

section
variable {f : Forest}

/-- a part is evaluated in an environment that is there already, or in the frame of a call -/
theorem env_of_part {ev : Evaluator} {id : NodeId} {shape : Shape} {env env' : Env} {s s' : State}
    {ref : Ref} (h : Part f ev id shape env s ref env' s') :
    env'.Sub env ∨ ∃ label names refs owner n, env' = .frame n label (env.bind names refs) none owner ∧
      owner.Sub env ∧ s.next ≤ n ∧ s'.next = n + 1 := by
  cases h with
  | argument hfound => exact Or.inl (Env.sub_of_thunk hfound)
  | value hfound _ _ => exact Or.inl (Env.sub_of_binding hfound)
  | @body _ operands _ _ owner _ s₁ _ b parameters hfound _ hcheck =>
    have hargs : s.Advances _ := (advances f).checkArguments (advances_like env) b.ident
      parameters.length operands.length s
    rw [hcheck] at hargs
    exact Or.inr ⟨_, _, _, owner, s₁.next, rfl, Env.sub_of_binding hfound, hargs.next, rfl⟩
  | operand _ _ _ _ => exact Or.inl .refl
  | printed _ _ _ _ => exact Or.inl .refl
  | test => exact Or.inl .refl
  | branch _ => exact Or.inl .refl

theorem next_of_part {limit : Nat} {id : NodeId} {node : Node} {env env' : Env} {s s' : State}
    {ref : Ref} (hnode : f.node? id = some node)
    (h : Part f (evalNode f limit) id node.shape env s ref env' s') : s.next ≤ s'.next := by
  rcases advances_of_part (fun ref env => advances_evalNode f limit ref env) hnode h with
    hadvances | ⟨_, _, _, _, _, _, _, _, rfl⟩
  · exact hadvances.next
  · unfold State.finding
    split <;> exact Nat.le_refl _

variable {v w : Visit} {e : Env}

theorem next_of_visits (h : Visits f v w) : v.state.next ≤ w.state.next := by
  induction h with
  | refl => exact Nat.le_refl _
  | tail _ hbegins ih =>
    cases hbegins with
    | part hnode henter hpart =>
      rw [result_enter] at henter
      cases henter
      exact Nat.le_trans ih (Nat.le_trans (Nat.le_add_right _ _) (next_of_part hnode hpart))

/-- **All serial numbers were given before**, if they were so at the beginning. -/
theorem made_of_visits (hv : Env.Made v.state.next v.env) (h : Visits f v w) :
    Env.Made w.state.next w.env := by
  induction h with
  | refl => exact hv
  | tail _ hbegins ih =>
    cases hbegins with
    | @part limit id node env inner env' s s₁ s' ref hnode henter hpart =>
      rw [result_enter] at henter
      cases henter
      have hinner : Env.Made (s.next + (f.tablesOf node).reverse.length)
          (Env.push (f.tablesOf node).reverse s.next env) := ih.push
      rw [List.length_reverse] at hinner
      rcases env_of_part hpart with hsub | ⟨label, names, refs, owner, n, rfl, hsub, hle, hnext⟩
      · exact (hinner.sub hsub).mono (next_of_part hnode hpart)
      · show Env.Made s'.next _
        rw [hnext]
        exact (hinner.mono hle).call ((hinner.sub hsub).mono hle) label names refs

/-- **An environment with an old number is an old one.** -/
theorem sub_of_visits (h : Visits f v w) (hsub : e.Sub w.env) :
    e.Sub v.env ∨ v.state.next ≤ e.serial := by
  induction h with
  | refl => exact Or.inl hsub
  | tail hvisits hbegins ih =>
    cases hbegins with
    | @part limit id node env inner env' s s₁ s' ref hnode henter hpart =>
      rw [result_enter] at henter
      cases henter
      have hnext := next_of_visits hvisits
      have hinner (hsub : e.Sub (Env.push (f.tablesOf node).reverse s.next env)) :
          e.Sub v.env ∨ v.state.next ≤ e.serial := by
        rcases Env.sub_push hsub with hsub | hle
        · exact ih hsub
        · exact Or.inr (Nat.le_trans hnext hle)
      rcases env_of_part hpart with hsub' | ⟨label, names, refs, owner, n, rfl, hsub', hle, _⟩
      · exact hinner (hsub.trans hsub')
      · rcases Env.sub_call hsub with hsub | hsub | hserial
        · exact hinner hsub
        · exact hinner (hsub.trans hsub')
        · rw [hserial]
          exact Or.inr (Nat.le_trans hnext (Nat.le_trans (Nat.le_add_right _ _) hle))

end

end Abacus
