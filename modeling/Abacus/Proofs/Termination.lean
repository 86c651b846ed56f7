import Abacus.Proofs.Evaluation.Abreast
import Abacus.Proofs.Evaluation.Frames
import Abacus.Proofs.References
import Mathlib.Algebra.GroupWithZero.Nat
import Mathlib.Algebra.Order.BigOperators.Group.List
import Mathlib.Algebra.Order.Group.Nat

/-!
# Termination

Only recursive functions can recurse without bound.  Along an evaluation three things fall, the
first of them that changes: the rank of the node, when a function is called; the potential of the
environment, when the value of a variable is found and the variable marked; and the node itself,
when it goes on to a part.  An argument goes back to where the call was made, with a bound of its
own.

* `load`, `potential`     how much can still be marked in the frames of an environment;
* `Shallow`               an evaluation that is not too deep from some limit on;
* `Settles`               evaluations below three bounds, which are shallow;
* `settles`               there is such a limit for every evaluation;
* `terminates`            the runs of a source without recursive functions are shallow.
-/

namespace Abacus

open Run Forest

/-! ## Frames that can be marked -/

def Forest.width (f : Forest) : Nat := (f.tables.toList.map (·.bindings.length)).sum

def Forest.height (f : Forest) : Nat := f.nodes.size * (f.tables.size + 1)

def unmarked (f : Forest) (marks : List Mark) (serial : Nat) : Option TableId → Nat
  | none => 0
  | some t => ((f.bindingsOf t).filter fun p => (p.1, serial) ∉ marks).length

/-- what can be marked in the frames of an environment, outer frames counting for more than all
frames inside them -/
def load (f : Forest) (marks : List Mark) : Env → Nat
  | .root .. => 0
  | .frame serial _ _ table parent => load f marks parent +
      unmarked f marks serial table * (f.width + 1) ^ (f.height - (parent.depth + 1))

/-- **The potential of an environment**: its load, with room for the frames that can come inside -/
def potential (f : Forest) (marks : List Mark) (env : Env) : Nat :=
  load f marks env + (f.width + 1) ^ (f.height - env.depth)

section
variable {f : Forest} {marks : List Mark} {env owner : Env}

theorem length_bindingsOf_le (f : Forest) (t : TableId) : (f.bindingsOf t).length ≤ f.width := by
  unfold bindingsOf
  split
  · next table htable =>
    have hmem : table ∈ f.tables.toList := Array.mem_toList_iff.2 (Array.mem_of_getElem? htable)
    exact Nat.le_trans (List.length_filterMap_le _ _)
      (List.single_le_sum (fun _ _ => Nat.zero_le _) _ (List.mem_map_of_mem hmem))
  · exact Nat.zero_le _

theorem unmarked_le (f : Forest) (marks : List Mark) (serial : Nat) (table : Option TableId) :
    unmarked f marks serial table ≤ f.width := by
  cases table with
  | none => exact Nat.zero_le _
  | some t => exact Nat.le_trans (List.length_filter_le _ _) (length_bindingsOf_le f t)

theorem unmarked_mono {marks' : List Mark} (h : marks ⊆ marks') (serial : Nat)
    (table : Option TableId) : unmarked f marks' serial table ≤ unmarked f marks serial table := by
  cases table with
  | none => exact Nat.le_refl _
  | some t =>
    refine List.Sublist.length_le (List.monotone_filter_right _ fun p hp => ?_)
    rw [decide_eq_true_eq] at hp ⊢
    exact fun hmem => hp (h hmem)

theorem unmarked_mark {t : TableId} {bid : BindingId} {b : Binding} {serial : Nat}
    (hb : (bid, b) ∈ f.bindingsOf t) (hfree : (bid, serial) ∉ marks) :
    unmarked f ((bid, serial) :: marks) serial (some t) < unmarked f marks serial (some t) := by
  have hsplit : (f.bindingsOf t).filter (fun p => (p.1, serial) ∉ (bid, serial) :: marks)
      = ((f.bindingsOf t).filter fun p => (p.1, serial) ∉ marks).filter (·.1 ≠ bid) := by
    rw [List.filter_filter]
    congr 1
    funext p
    simp
  unfold unmarked
  dsimp only
  rw [hsplit, List.length_filter_lt_length_iff_exists]
  exact ⟨(bid, b), List.mem_filter.2 ⟨hb, by simpa using hfree⟩, by simp⟩

theorem load_mono {marks' : List Mark} (h : marks ⊆ marks') : load f marks' env ≤ load f marks env := by
  induction env using Env.induction with
  | onRoot n policy => exact Nat.le_refl _
  | onFrame n label parameters table parent _ ih =>
    exact Nat.add_le_add ih (Nat.mul_le_mul_right _ (unmarked_mono h n table))

theorem load_chain (h : owner ∈ env.chain) : load f marks owner ≤ load f marks env := by
  induction env using Env.induction with
  | onRoot n policy =>
    rw [List.mem_singleton.1 h]
  | onFrame n label parameters table parent _ ih =>
    rcases List.mem_cons.1 h with rfl | h
    · exact Nat.le_refl _
    · exact Nat.le_trans (ih h) (Nat.le_add_right _ _)

/-- **A frame more takes no more than the room that was kept for it.** -/
theorem potential_frame {parent : Env} (h : parent.depth < f.height) (serial : Nat)
    (label : Option String) (parameters : List (String × Ref × Env)) (table : Option TableId) :
    potential f marks (.frame serial label parameters table parent) ≤ potential f marks parent := by
  have hroom : f.height - parent.depth = f.height - (parent.depth + 1) + 1 := by omega
  have hcount : unmarked f marks serial table + 1 ≤ f.width + 1 :=
    Nat.succ_le_succ (unmarked_le f marks serial table)
  show load f marks parent + unmarked f marks serial table *
      (f.width + 1) ^ (f.height - (parent.depth + 1))
      + (f.width + 1) ^ (f.height - (parent.depth + 1))
    ≤ load f marks parent + (f.width + 1) ^ (f.height - parent.depth)
  rw [hroom, Nat.pow_succ, Nat.add_assoc, ← Nat.succ_mul, Nat.mul_comm]
  exact Nat.add_le_add_left (Nat.mul_le_mul_left _ hcount) _

/-- **Where the value of a variable is found, there is less to be marked.** -/
theorem potential_value {t : TableId} {bid : BindingId} {b : Binding} {serial : Nat}
    {label : Option String} {parameters : List (String × Ref × Env)} {parent : Env}
    (hmem : .frame serial label parameters (some t) parent ∈ env.chain)
    (hb : (bid, b) ∈ f.bindingsOf t) (hfree : (bid, serial) ∉ marks) :
    potential f ((bid, serial) :: marks) (.frame serial label parameters (some t) parent)
      < potential f marks env := by
  have hparent : load f ((bid, serial) :: marks) parent ≤ load f marks parent :=
    load_mono (List.subset_cons_self _ _)
  have hframe : load f marks (.frame serial label parameters (some t) parent) ≤ load f marks env :=
    load_chain hmem
  have hpos : 0 < (f.width + 1) ^ (f.height - env.depth) := Nat.pow_pos (Nat.succ_pos _)
  have hmark := Nat.mul_le_mul_right ((f.width + 1) ^ (f.height - (parent.depth + 1)))
    (Nat.succ_le_of_lt (unmarked_mark hb hfree))
  rw [Nat.succ_mul] at hmark
  have hself : potential f ((bid, serial) :: marks) (.frame serial label parameters (some t) parent)
      = load f ((bid, serial) :: marks) parent + unmarked f ((bid, serial) :: marks) serial (some t) *
        (f.width + 1) ^ (f.height - (parent.depth + 1))
        + (f.width + 1) ^ (f.height - (parent.depth + 1)) := rfl
  have hload : load f marks (.frame serial label parameters (some t) parent)
      = load f marks parent + unmarked f marks serial (some t) *
        (f.width + 1) ^ (f.height - (parent.depth + 1)) := rfl
  unfold potential at hself ⊢
  omega

theorem depth_push (tables : List TableId) (serial : Nat) (env : Env) :
    (Env.push tables serial env).depth = env.depth + tables.length := by
  induction tables generalizing env serial with
  | nil => rfl
  | cons t tables ih =>
    rw [Env.push_cons, ih, List.length_cons]
    show env.depth + 1 + tables.length = _
    omega

theorem potential_push {tables : List TableId} {serial : Nat}
    (h : (Env.push tables serial env).depth ≤ f.height) :
    potential f marks (Env.push tables serial env) ≤ potential f marks env := by
  induction tables generalizing env serial with
  | nil => exact Nat.le_refl _
  | cons t tables ih =>
    have hdepth := depth_push (t :: tables) serial env
    rw [List.length_cons] at hdepth
    exact Nat.le_trans (ih h) (potential_frame (by omega) _ _ _ _)

theorem potential_le (h : env.depth ≤ f.height) : potential f marks env ≤ (f.width + 1) ^ f.height := by
  induction env using Env.induction with
  | onRoot n policy => exact Nat.le_of_eq (Nat.zero_add _)
  | onFrame n label parameters table parent _ ih =>
    have hdepth : parent.depth < f.height := h
    exact Nat.le_trans (potential_frame hdepth _ _ _ _) (ih (Nat.le_of_lt hdepth))

/-! ## Environments have few frames -/

/-- how many frames an environment that follows a walk has at most -/
def framesOn (w : List Stop) : Nat := (w.map fun stop => stop.2.length + 1).sum

theorem depth_le_of_inside {begun : Ref → Env → Prop} {w : List Stop} (h : Inside f begun w env) :
    env.depth ≤ framesOn w := by
  unfold framesOn
  induction h with
  | root _ => exact Nat.zero_le _
  | table _ ih =>
    simp only [List.map_cons, List.sum_cons, List.length_cons, Env.depth] at ih ⊢
    omega
  | part _ _ ih =>
    simp only [List.map_cons, List.sum_cons, List.length_nil]
    omega
  | call _ _ _ _ _ _ _ _ _ _ ih _ =>
    simp only [List.map_cons, List.sum_cons, List.length_nil, Env.depth]
    omega

theorem framesOn_le_of_climb (hf : f.Linked) {id : NodeId} {child : Option NodeId} {w : List Stop}
    (h : f.Climb id child w) : framesOn w ≤ f.height := by
  have htables : ∀ stop ∈ w, stop.2.length ≤ f.tables.size := by
    have hnode {id : NodeId} {node : Node} (hnode : f.node? id = some node)
        (child : Option NodeId) : (f.visibleTables node child).length ≤ f.tables.size :=
      Nat.le_trans (hf.visibleTables hnode child).length_le (hf.linkedNode hnode).row.length_le
    induction h with
    | top hid _ => exact List.forall_mem_cons.2 ⟨hnode hid _, fun _ hs => by cases hs⟩
    | up hid _ _ _ ih => exact List.forall_mem_cons.2 ⟨hnode hid _, ih⟩
  have hsum : framesOn w ≤ w.length * (f.tables.size + 1) := by
    have hle := List.sum_le_card_nsmul (w.map fun stop => stop.2.length + 1) (f.tables.size + 1)
      fun x hx => by
        obtain ⟨stop, hstop, rfl⟩ := List.mem_map.1 hx
        exact Nat.succ_le_succ (htables stop hstop)
    rwa [List.length_map] at hle
  have hlength := h.length_le
  exact Nat.le_trans hsum (Nat.mul_le_mul_right _ (by omega))

/-- **An environment around or inside a node at its place** has no more frames than the height. -/
theorem depth_le_height (hf : f.Linked) {begun : Ref → Env → Prop} {id : NodeId} {w : List Stop}
    (hclimb : f.Climb id none w) (h : Inside f begun w env) : env.depth ≤ f.height :=
  Nat.le_trans (depth_le_of_inside h) (framesOn_le_of_climb hf hclimb)

theorem Placed.depth_le (hf : f.Linked) {begun : Ref → Env → Prop} {ref : Ref}
    (h : Placed f begun ref env) : env.depth ≤ f.height := by
  obtain ⟨id, node, w, rfl, hnode, hclimb, hinside⟩ := h
  have hdepth := depth_le_of_inside hinside
  have hframes := framesOn_le_of_climb hf hclimb
  unfold framesOn at hdepth hframes
  simp only [List.map_cons, List.sum_cons, List.length_nil] at hdepth hframes
  omega

/-! ## Shallow evaluations -/

/-- **An evaluation is not too deep** from a limit on, where at least some marks are set. -/
def Shallow (f : Forest) (limit : Nat) (marks : List Mark) (ref : Ref) (env : Env) : Prop :=
  ∀ s l, marks ⊆ s.active → limit ≤ l → ((evalNode f l ref env).result s).1 ≠ .error .tooDeep

theorem Shallow.mono {limit limit' : Nat} {marks' : List Mark} {ref : Ref}
    (h : Shallow f limit marks ref env) (hlimit : limit ≤ limit') (hmarks : marks ⊆ marks') :
    Shallow f limit' marks' ref env :=
  fun s l hs hl => h s l (List.Subset.trans hmarks hs) (Nat.le_trans hlimit hl)

def ArgumentsShallow (f : Forest) (limit : Nat) (marks : List Mark) (env : Env) : Prop :=
  ∀ n label parameters table parent, .frame n label parameters table parent ∈ env.chain →
    ∀ x ref caller, parameters.lookup x = some (ref, caller) → Shallow f limit marks ref caller

theorem chain_subset (h : owner ∈ env.chain) : owner.chain ⊆ env.chain := by
  induction env using Env.induction with
  | onRoot n policy =>
    rw [List.mem_singleton.1 h]
    exact List.Subset.refl _
  | onFrame n label parameters table parent _ ih =>
    rcases List.mem_cons.1 h with rfl | h
    · exact List.Subset.refl _
    · exact List.Subset.trans (ih h) (List.subset_cons_self _ _)

theorem policy_chain (h : owner ∈ env.chain) : owner.policy = env.policy := by
  induction env using Env.induction with
  | onRoot n policy => rw [List.mem_singleton.1 h]
  | onFrame n label parameters table parent _ ih =>
    rcases List.mem_cons.1 h with rfl | h
    · rfl
    · exact ih h

namespace ArgumentsShallow

variable {limit : Nat}

theorem mono {limit' : Nat} {marks' : List Mark} (h : ArgumentsShallow f limit marks env)
    (hlimit : limit ≤ limit') (hmarks : marks ⊆ marks') :
    ArgumentsShallow f limit' marks' env :=
  fun n label parameters table parent hmem x ref caller hx =>
    (h n label parameters table parent hmem x ref caller hx).mono hlimit hmarks

theorem chain (h : ArgumentsShallow f limit marks env) (hmem : owner ∈ env.chain) :
    ArgumentsShallow f limit marks owner :=
  fun n label parameters table parent hframe => h n label parameters table parent
    (chain_subset hmem hframe)

theorem root (n : Nat) (policy : Policy) : ArgumentsShallow f limit marks (.root n policy) :=
  fun _ _ _ _ _ hmem => by cases List.mem_singleton.1 hmem

theorem frame {parent : Env} (h : ArgumentsShallow f limit marks parent) {n : Nat}
    {label : Option String} {parameters : List (String × Ref × Env)} {table : Option TableId}
    (hparameters : ∀ x ref caller, parameters.lookup x = some (ref, caller) →
      Shallow f limit marks ref caller) :
    ArgumentsShallow f limit marks (.frame n label parameters table parent) := by
  intro n' label' parameters' table' parent' hmem
  rcases List.mem_cons.1 hmem with heq | hmem
  · cases heq
    exact hparameters
  · exact h n' label' parameters' table' parent' hmem

theorem push {tables : List TableId} {n : Nat} (h : ArgumentsShallow f limit marks env) :
    ArgumentsShallow f limit marks (Env.push tables n env) := by
  induction tables generalizing n env with
  | nil => exact h
  | cons t tables ih => exact ih (h.frame fun _ _ _ hx => by cases hx)

end ArgumentsShallow

end

/-! ## Three bounds -/

/-- the node is at its place; nothing is said of the calls around it -/
abbrev AtPlace (f : Forest) (ref : Ref) (env : Env) : Prop := Placed f (fun _ _ => True) ref env

/-- **Evaluations below three bounds are shallow**: one on the rank of the node, one on the potential
of the environment and one on the node itself, where arguments are shallow from a limit on. -/
def Settles (f : Forest) (r p z limit limit' : Nat) : Prop :=
  ∀ marks id env, AtPlace f (.node id) env → env.policy.guarded = true → rank f id < r →
    potential f marks env < p → id.index < z → ArgumentsShallow f limit marks env →
    Shallow f limit' marks (.node id) env

/-- a node at its place in a guarded run, with its frames pushed -/
structure Entered (f : Forest) (limit : Nat) (marks : List Mark) (id : NodeId) (node : Node)
    (w : List Stop) (inner : Env) : Prop where
  node : f.node? id = some node
  climb : f.Climb id none w
  inside : Inside f (fun _ _ => True) w inner
  guarded : inner.policy.guarded = true
  arguments : ArgumentsShallow f limit marks inner

section
variable {f : Forest} {marks : List Mark} {id : NodeId} {node : Node} {inner owner : Env}
  {w : List Stop} {r p z limit limit₁ limit₂ limit₃ : Nat} {ident : String} {bid : BindingId}
  {b : Binding}

theorem Entered.names (hf : f.Linked) (h : Entered f limit marks id node w inner)
    (hlooked : node.shape.lookedUp? = some ident)
    (hfound : inner.lookup? f ident = some (.binding bid b, owner)) : f.Names id bid := by
  have hdenotes := h.inside.denotes hf ident
  rw [hfound] at hdenotes
  exact names_of_denotes h.node hlooked h.climb hdenotes

theorem Entered.owner_guarded (h : Entered f limit marks id node w inner)
    (hmem : owner ∈ inner.chain) : owner.policy.guarded = true := by
  rw [policy_chain hmem, h.guarded]

theorem shallow_child (hf : f.Linked) (hchild : Settles f r p z limit limit₁)
    (h : Entered f limit marks id node w inner) (hrank : rank f id < r)
    (hpotential : potential f marks inner < p) (hid : id.index ≤ z) {ref : Ref}
    (href : ref ∈ node.shape.children) : Shallow f limit₁ marks ref inner := by
  obtain ⟨c, m, rfl, hlt, _, _, _, hc⟩ := hf.climb_child h.node h.climb href
  have hrank' : rank f c ≤ rank f id := rank_le fun g =>
    reaches_within hc (List.exists_mem_cons_of_exists (self_mem h.climb))
  exact hchild marks c inner (placed_child hf h.node h.climb h.inside href) h.guarded
    (Nat.lt_of_le_of_lt hrank' hrank) hpotential (Nat.lt_of_lt_of_le hlt hid) h.arguments

/-- the value of a variable is shallow once the variable is marked -/
theorem shallow_value (hf : f.Linked) (hvalue : Settles f r p f.nodes.size limit limit₂)
    (h : Entered f limit marks id node w inner) (hrank : rank f id < r)
    (hpotential : potential f marks inner ≤ p) (hlooked : node.shape.lookedUp? = some ident)
    (hfound : inner.lookup? f ident = some (.binding bid b, owner))
    (hplaced : AtPlace f b.body owner) (hfree : (bid, owner.serial) ∉ marks) :
    Shallow f limit₂ ((bid, owner.serial) :: marks) b.body owner := by
  have hnames := h.names hf hlooked hfound
  have hb := Env.binding_of_lookup hfound
  obtain ⟨hmem, hhere⟩ := Env.found_here hfound
  obtain ⟨serial, label, parameters, t, parent, rfl, hfind⟩ := Env.here_binding hhere
  have hat := hplaced
  obtain ⟨c, m, _, hbody, hm, _, _⟩ := hat
  rw [hbody] at hplaced ⊢
  have hrank' : rank f c ≤ rank f id := rank_le fun g => reaches_body h.climb hnames hb hbody
  have hpotential' := potential_value hmem (List.mem_of_find?_eq_some hfind) hfree
  exact hvalue _ c _ hplaced (h.owner_guarded hmem) (Nat.lt_of_le_of_lt hrank' hrank)
    (Nat.lt_of_lt_of_le hpotential' hpotential) (lt_of_node? hm)
    ((h.arguments.chain hmem).mono (Nat.le_refl _) (List.subset_cons_self _ _))

theorem shallow_body (hf : f.Linked) (hrec : f.Unrecursive)
    (hcall : Settles f r ((f.width + 1) ^ f.height + 1) f.nodes.size limit limit₃)
    (h : Entered f limit marks id node w inner) (hrank : rank f id ≤ r)
    {parameters : List String} {operands : List Ref} {n : Nat}
    (hlooked : node.shape.lookedUp? = some ident)
    (hfound : inner.lookup? f ident = some (.binding bid b, owner))
    (hrole : b.role = .function parameters)
    (hplaced : AtPlace f b.body
      (.frame n (some b.ident) (inner.bind parameters operands) none owner))
    (hoperands : ∀ ref ∈ operands, Shallow f limit marks ref inner) :
    Shallow f limit₃ marks b.body
      (.frame n (some b.ident) (inner.bind parameters operands) none owner) := by
  have hnames := h.names hf hlooked hfound
  have hb := Env.binding_of_lookup hfound
  have hmem := (Env.found_here hfound).1
  have hdepth := hplaced.depth_le hf
  have hat := hplaced
  obtain ⟨c, m, _, hbody, hm, _, _⟩ := hat
  rw [hbody] at hplaced ⊢
  have hrank' := rank_body_lt hrec h.climb hnames hb hbody hrole
  have harguments : ArgumentsShallow f limit marks
      (.frame n (some b.ident) (inner.bind parameters operands) none owner) := by
    refine (h.arguments.chain hmem).frame ?_
    intro x ref caller hx
    rw [Env.lookup_bind] at hx
    obtain ⟨ref', href, heq⟩ := Option.map_eq_some_iff.1 hx
    cases heq
    rcases Env.mem_of_argument? href with hnone | ⟨_, href⟩
    · cases hnone
    · exact hoperands ref href
  have hguard : owner.policy.guarded = true := h.owner_guarded hmem
  exact hcall marks c _ hplaced hguard (Nat.lt_of_lt_of_le hrank' hrank)
    (Nat.lt_succ_of_le (potential_le hdepth)) (lt_of_node? hm) harguments

theorem active_of_part {l : Nat} {env env' : Env} {s s' : State} {ref : Ref}
    (hnode : f.node? id = some node) (h : Part f (evalNode f l) id node.shape env s ref env' s') :
    s.active ⊆ s'.active := by
  rcases advances_of_part (fun ref env => advances_evalNode f l ref env) hnode h with
    hadvances | ⟨_, _, _, _, _, _, _, _, rfl⟩
  · rw [hadvances.active]
    exact List.Subset.refl _
  · unfold State.finding
    split
    · exact List.subset_cons_self _ _
    · exact List.Subset.refl _

/-- **Inside a node nothing is too deep**: its parts, the variables that it refers to and the functions
that it calls are shallow. -/
theorem shallow_shape (hf : f.Linked) (hrec : f.Unrecursive)
    (hchild : Settles f (r + 1) (p + 1) z limit limit₁)
    (hvalue : Settles f (r + 1) p f.nodes.size limit limit₂)
    (hcall : Settles f r ((f.width + 1) ^ f.height + 1) f.nodes.size (max limit limit₁) limit₃)
    (h : Entered f limit marks id node w inner) (hrank : rank f id < r + 1)
    (hpotential : potential f marks inner < p + 1) (hid : id.index < z + 1) {s : State} {l : Nat}
    (hmarks : marks ⊆ s.active) (hl : max (max limit limit₁) (max limit₂ limit₃) ≤ l) :
    ((evalShape f (evalNode f l) id node.shape inner).result s).1 ≠ .error .tooDeep := by
  intro hdeep
  have hpart {ref : Ref} (href : ref ∈ node.shape.children) : Shallow f limit₁ marks ref inner :=
    shallow_child hf hchild h hrank hpotential (Nat.le_of_lt_succ hid) href
  have hresult : (evalShape f (evalNode f l) id node.shape inner).result s = (.error .tooDeep,
      ((evalShape f (evalNode f l) id node.shape inner).result s).2) := Prod.ext hdeep rfl
  rcases part_of_fault hresult with hown | ⟨ref, env', s', t, hbegins, hfault⟩
  · exact not_ownFault_tooDeep hown
  · have hdeep' := congrArg Prod.fst hfault
    have hplaced := placed_of_part hf h.node h.climb h.inside hbegins trivial
    have hmarks' : marks ⊆ s'.active := List.Subset.trans hmarks (active_of_part h.node hbegins)
    have hlimit₁ : limit₁ ≤ l := by omega
    generalize hshape : node.shape = shape at hbegins hpart
    cases hbegins with
    | argument hfound =>
      obtain ⟨hmem, hhere⟩ := Env.found_here hfound
      obtain ⟨n, label, parameters, table, parent, rfl, hx⟩ := Env.here_thunk hhere
      exact h.arguments _ _ _ _ _ hmem _ _ _ hx s l hmarks (by omega) hdeep'
    | value hfound hrole hfree =>
      have hguard := h.owner_guarded (Env.found_here hfound).1
      have hshallow := shallow_value hf hvalue h hrank (Nat.le_of_lt_succ hpotential)
        (by rw [hshape]; rfl) hfound hplaced fun hmem => hfree hguard (hmarks hmem)
      refine hshallow _ l ?_ (by omega) hdeep'
      rw [State.finding, if_pos hguard]
      exact List.cons_subset_cons _ hmarks
    | body hfound hrole _ =>
      have h' : Entered f (max limit limit₁) marks id node w inner := { h with
        arguments := h.arguments.mono (Nat.le_max_left _ _) (List.Subset.refl _) }
      have hshallow := shallow_body hf hrec hcall h' (Nat.le_of_lt_succ hrank)
        (by rw [hshape]; rfl) hfound hrole hplaced fun ref href =>
          (hpart href).mono (Nat.le_max_right _ _) (List.Subset.refl _)
      exact hshallow _ l hmarks' (by omega) hdeep'
    | operand _ _ hused _ =>
      exact hpart (mem_of_usedOperands hused) s' l hmarks' hlimit₁ hdeep'
    | printed _ _ hused _ =>
      exact hpart (by rw [Shape.children, hused]; simp) s' l hmarks' hlimit₁ hdeep'
    | test => exact hpart (by simp [Shape.children]) s l hmarks hlimit₁ hdeep'
    | branch _ => exact hpart (mem_branch _ _ _ _) s' l hmarks' hlimit₁ hdeep'

/-- **One node more.** -/
theorem settles_succ (hf : f.Linked) (hrec : f.Unrecursive)
    (hchild : Settles f (r + 1) (p + 1) z limit limit₁)
    (hvalue : Settles f (r + 1) p f.nodes.size limit limit₂)
    (hcall : Settles f r ((f.width + 1) ^ f.height + 1) f.nodes.size (max limit limit₁) limit₃) :
    Settles f (r + 1) (p + 1) (z + 1) limit (max (max limit limit₁) (max limit₂ limit₃) + 1) := by
  intro marks id env hplaced hguard hrank hpotential hid harguments s l hmarks hl
  obtain ⟨l, rfl⟩ : ∃ l', l = l' + 1 := ⟨l - 1, by omega⟩
  have hat := hplaced
  obtain ⟨_, node, _, heq, hnode, _, _⟩ := hat
  cases heq
  obtain ⟨w, hclimb, hinside⟩ := hplaced.enter hnode s.next
  have hentered : Entered f limit marks id node w
      (Env.push (f.tablesOf node).reverse s.next env) :=
    ⟨hnode, hclimb, hinside, by rw [Env.policy_push, hguard], harguments.push⟩
  have hpotential' := Nat.lt_of_le_of_lt
    (potential_push (depth_le_height hf hclimb hinside)) hpotential
  rw [evalNode_node hnode, result_bind_ok (result_enter f node env s)]
  exact shallow_shape hf hrec hchild hvalue hcall hentered hrank hpotential' hid hmarks
    (Nat.le_of_succ_le_succ hl)

/-- **There is a limit from which on an evaluation below three bounds is not too deep.** -/
theorem settles (hf : f.Linked) (hrec : f.Unrecursive) (r p z limit : Nat) :
    ∃ limit', Settles f r p z limit limit' := by
  induction r generalizing p z limit with
  | zero => exact ⟨0, fun _ _ _ _ _ hrank => absurd hrank (Nat.not_lt_zero _)⟩
  | succ r ihr =>
    induction p generalizing z limit with
    | zero => exact ⟨0, fun _ _ _ _ _ _ hpotential => absurd hpotential (Nat.not_lt_zero _)⟩
    | succ p ihp =>
      induction z with
      | zero => exact ⟨0, fun _ _ _ _ _ _ _ hid => absurd hid (Nat.not_lt_zero _)⟩
      | succ z ihz =>
        obtain ⟨limit₁, hchild⟩ := ihz
        obtain ⟨limit₂, hvalue⟩ := ihp f.nodes.size limit
        obtain ⟨limit₃, hcall⟩ := ihr ((f.width + 1) ^ f.height + 1) f.nodes.size (max limit limit₁)
        exact ⟨_, settles_succ hf hrec hchild hvalue hcall⟩

theorem unrecursive_of_values (h : ∀ bid b, f.binding? bid = some b → b.role = .value) :
    f.Unrecursive := by
  intro bid b parameters hb hrole
  rw [h bid b hb] at hrole
  cases hrole

/-- **Only recursive functions can recurse without bound.**  Where no function comes back to itself, as
where there are no functions, there is a depth from which on no guarded run is too deep, whatever is
read and drawn; and a run that is too deep without the guard is stopped by it at a circular
definition. -/
theorem terminates {source : String} {root : NodeId} (h : Sown source root f)
    (hrec : f.Unrecursive ∨ ∀ bid b, f.binding? bid = some b → b.role = .value) :
    ∃ depth, ∀ limit (policy : Policy) input generator, depth ≤ limit →
      let guarded := Visit.start limit (.node root) { policy with guarded := true } input generator
      let unguarded :=
        Visit.start limit (.node root) { policy with guarded := false } input generator
      (guarded.result f).1 ≠ .error .tooDeep ∧
      ((unguarded.result f).1 = .error .tooDeep →
        ∃ ident, (guarded.result f).1 = .error (.circular ident)) := by
  obtain ⟨node, hnode, _⟩ := h.root
  have hrec : f.Unrecursive := hrec.elim id unrecursive_of_values
  obtain ⟨depth, hdepth⟩ := settles h.linked hrec (f.bindings.size + 1)
    ((f.width + 1) ^ f.height + 1) f.nodes.size 0
  refine ⟨depth, ?_⟩
  intro limit policy input generator hlimit guarded unguarded
  have hplaced := placed_root h (fun _ _ => True) { policy with guarded := true }
  have hshallow : (guarded.result f).1 ≠ .error .tooDeep :=
    hdepth [] root _ hplaced rfl (Nat.lt_succ_of_le (rank_le_size f root))
      (Nat.lt_succ_of_le (potential_le (Nat.zero_le _))) (Array.getElem?_eq_some_iff.1 hnode).1
      (.root 0 _) _ limit (List.nil_subset _) hlimit
  refine ⟨hshallow, ?_⟩
  intro hdeep
  rcases unguarded_of_guarded f limit (.node root) policy input generator with hcircular | hsame
  · exact hcircular
  · exact absurd ((congrArg Prod.fst hsame).symm.trans hdeep) hshallow

end

theorem unrecursive_identity : identityForest.Unrecursive := by
  intro bid b parameters hb hrole hrefs
  obtain ⟨bid', ⟨b', k, id, hb', hbody, hwithin, node, ident, b'', hnode, hlooked, hresolve, _⟩, _⟩ :=
    Relation.TransGen.head'_iff.1 hrefs
  have hbid : bid = ⟨0⟩ := congrArg BindingId.mk (Nat.lt_one_iff.1 (lt_of_binding? hb))
  subst hbid
  cases hb'
  cases hbody
  have hid : id = ⟨0⟩ := by
    obtain ⟨stop, hstop, hindex⟩ := hwithin
    obtain ⟨i⟩ := id
    rcases i with _ | _ | _ | i
    · rfl
    · have hwalk : identityForest.walk ⟨1⟩ = [(⟨1⟩, []), (⟨2⟩, [⟨0⟩])] := rfl
      rw [hwalk] at hstop
      rcases List.mem_cons.1 hstop with rfl | hstop
      · cases hindex
      · rw [List.mem_singleton.1 hstop] at hindex
        cases hindex
    · have hwalk : identityForest.walk ⟨2⟩ = [(⟨2⟩, [⟨0⟩])] := rfl
      rw [hwalk] at hstop
      rw [List.mem_singleton.1 hstop] at hindex
      cases hindex
    · cases hnode
  subst hid
  cases hnode
  cases hlooked
  cases hresolve

theorem terminates_identity : ∃ depth, ∀ limit (policy : Policy) input generator, depth ≤ limit →
    ((Visit.start limit (.node ⟨2⟩) { policy with guarded := true } input generator).result
      identityForest).1 ≠ .error .tooDeep := by
  obtain ⟨depth, hdepth⟩ := terminates sown_identity (Or.inl unrecursive_identity)
  exact ⟨depth, fun limit policy input generator hlimit =>
    (hdepth limit policy input generator hlimit).1⟩

end Abacus
