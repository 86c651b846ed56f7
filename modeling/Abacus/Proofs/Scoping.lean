import Abacus.Proofs.Evaluation.Visits
import Abacus.Proofs.Forest.Walk
import Abacus.Proofs.Source.Planting

/-!
# Lexical scoping

What a name denotes in a run is what it denotes at its place in the forest, whoever calls.  The
frames inside which a node is evaluated follow the walk of static lookup from that node: a frame for
each table that is looked at, and one for a call where the walk leaves the body of a function.

* `Inside`             environments that follow a walk;
* `Inside.denotes`     what a name denotes in such an environment;
* `Placed`             a node is evaluated around the frames of its place;
* `placed_of_visits`   so is every node that is evaluated in the run of a source;
* `lexical_scoping`    static lookup and lookup in a run agree.
-/

namespace Abacus

open Run Forest

/-! ## Environments that follow a walk -/

def Forest.IsParameter (f : Forest) (id : NodeId) (ident : String) : Prop :=
  ∃ k t bid b parameters, f.Binds k t bid b ∧ b.body = .node id ∧
    b.role = .function parameters ∧ ident ∈ parameters

/-- **Environments that follow a walk**: a frame for each table that is looked at, and a frame of a
call, begun somewhere, around the body of a function.  Arguments are parts of a node and evaluated
where the walk from that node is followed. -/
inductive Inside (f : Forest) (begun : Ref → Env → Prop) : List Stop → Env → Prop
  | root {id : NodeId} {serial : Nat} {policy : Policy} : (∀ ident, ¬ f.IsParameter id ident) →
      Inside f begun [(id, [])] (.root serial policy)
  | table {id : NodeId} {t : TableId} {ts : List TableId} {w : List Stop} {serial : Nat}
      {env : Env} : Inside f begun ((id, ts) :: w) env →
      Inside f begun ((id, t :: ts) :: w) (.frame serial none [] (some t) env)
  | part {id : NodeId} {w : List Stop} {env : Env} : (∀ ident, ¬ f.IsParameter id ident) →
      Inside f begun w env → Inside f begun ((id, []) :: w) env
  | call {id k j : NodeId} {t : TableId} {bid : BindingId} {b : Binding} {node : Node}
      {parameters : List String} {operands : List Ref} {w w' : List Stop} {serial : Nat}
      {caller owner : Env} : Inside f begun w owner → f.Binds k t bid b → b.body = .node id →
      b.role = .function parameters → parameters.length ≤ operands.length →
      begun b.body (.frame serial (some b.ident) (Env.bind caller parameters operands) none owner) →
      f.node? j = some node → (∀ ref ∈ operands, ref ∈ node.shape.children) →
      f.Climb j none w' → Inside f begun w' caller →
      Inside f begun ((id, []) :: w)
        (.frame serial (some b.ident) (Env.bind caller parameters operands) none owner)

section
variable {f : Forest} {begun : Ref → Env → Prop} {w : List Stop} {env : Env}

theorem Inside.push {id : NodeId} {ts : List TableId} (outer : List TableId) (serial : Nat)
    (h : Inside f begun ((id, ts) :: w) env) :
    Inside f begun ((id, outer.reverse ++ ts) :: w) (Env.push outer serial env) := by
  induction outer generalizing serial ts env with
  | nil => exact h
  | cons t outer ih =>
    rw [Env.push_cons, List.reverse_cons, List.append_assoc]
    exact ih _ h.table

/-! ## What names denote -/

theorem Forest.findIn?_append (ident : String) (before after : List TableId) :
    f.findIn? ident (before ++ after) = (f.findIn? ident before).or (f.findIn? ident after) := by
  induction before with
  | nil => rfl
  | cons t before ih =>
    simp only [List.cons_append, findIn?, ih]
    cases f.find? t ident <;> rfl

def Unbound (f : Forest) (ident : String) (w : List Stop) : Prop :=
  ∀ stop ∈ w, f.findIn? ident stop.2 = none

theorem unbound_cons {ident : String} {stop : Stop} :
    Unbound f ident (stop :: w) ↔ f.findIn? ident stop.2 = none ∧ Unbound f ident w :=
  List.forall_mem_cons

theorem findOn?_of_unbound {ident : String} (h : Unbound f ident w) : f.findOn? ident w = none :=
  List.findSome?_eq_none_iff.2 h

theorem findOn?_of_found {ident : String} {inner outer : List Stop} {k : NodeId}
    {before ts : List TableId} {t : TableId} {bid : BindingId} {b : Binding}
    (hinner : Unbound f ident inner) (hbefore : f.findIn? ident before = none)
    (hfind : f.find? t ident = some (bid, b)) :
    f.findOn? ident (inner ++ (k, before ++ t :: ts) :: outer) = some (bid, b) := by
  have hnone : inner.findSome? (fun stop => f.findIn? ident stop.2) = none :=
    findOn?_of_unbound hinner
  have hk : f.findIn? ident (before ++ t :: ts) = some (bid, b) := by
    rw [findIn?_append, hbefore, findIn?, hfind]
    rfl
  rw [findOn?, List.findSome?_append, hnone, List.findSome?_cons, hk]
  rfl

/-- **The parameter of a function that a name denotes on a walk**: the innermost such function with
that parameter, inside whose body no table binds the name, and the frame of a call of it. -/
def Captured (f : Forest) (begun : Ref → Env → Prop) (ident : String) (w : List Stop)
    (ref : Ref) (caller frame : Env) : Prop :=
  ∃ inner id tables outer k t bid b parameters operands serial owner,
    w = inner ++ (id, tables) :: outer ∧ f.Binds k t bid b ∧ b.body = .node id ∧
    b.role = .function parameters ∧ ident ∈ parameters ∧
    (∀ stop ∈ inner, ¬ f.IsParameter stop.1 ident) ∧
    Unbound f ident (inner ++ [(id, tables)]) ∧
    frame = .frame serial (some b.ident) (Env.bind caller parameters operands) none owner ∧
    Env.argument? ident none parameters operands = some ref ∧ begun b.body frame

/-- **What a name denotes in an environment that follows a walk.** -/
inductive Denotes (f : Forest) (begun : Ref → Env → Prop) (ident : String) :
    List Stop → Option (Env.Found × Env) → Prop
  | unbound {w : List Stop} : Unbound f ident w → Denotes f begun ident w none
  | binding (inner : List Stop) {outer : List Stop} {k : NodeId} (before : List TableId)
      {ts : List TableId} {t : TableId} {bid : BindingId} {b : Binding} {owner : Env} :
      (∀ stop ∈ inner, ¬ f.IsParameter stop.1 ident) → Unbound f ident inner →
      f.findIn? ident before = none → f.find? t ident = some (bid, b) →
      Inside f begun ((k, t :: ts) :: outer) owner →
      Denotes f begun ident (inner ++ (k, before ++ t :: ts) :: outer) (some (.binding bid b, owner))
  | thunk {w w' : List Stop} {j : NodeId} {node : Node} {ref : Ref} {caller frame : Env} :
      Captured f begun ident w ref caller frame → f.node? j = some node →
      ref ∈ node.shape.children → f.Climb j none w' → Inside f begun w' caller →
      Denotes f begun ident w (some (.thunk ref caller, frame))

theorem Captured.cons {ident : String} {ref : Ref} {caller frame : Env} {id : NodeId}
    {ts : List TableId} (h : Captured f begun ident w ref caller frame)
    (hid : ¬ f.IsParameter id ident) (hts : f.findIn? ident ts = none) :
    Captured f begun ident ((id, ts) :: w) ref caller frame := by
  obtain ⟨inner, id', tables, outer, k, t, bid, b, parameters, operands, serial, owner, rfl,
    hbinds, hbody, hrole, hmem, hinner, hunbound, hrest⟩ := h
  refine ⟨(id, ts) :: inner, id', tables, outer, k, t, bid, b, parameters, operands, serial, owner,
    rfl, hbinds, hbody, hrole, hmem, ?_, unbound_cons.2 ⟨hts, hunbound⟩, hrest⟩
  exact List.forall_mem_cons.2 ⟨hid, hinner⟩

theorem findIn?_cons_of_none {ident : String} {t : TableId} {ts : List TableId}
    (ht : f.find? t ident = none) : f.findIn? ident (t :: ts) = f.findIn? ident ts := by
  rw [findIn?, ht]

theorem Captured.table {ident : String} {ref : Ref} {caller frame : Env} {id : NodeId}
    {t : TableId} {ts : List TableId} (h : Captured f begun ident ((id, ts) :: w) ref caller frame)
    (ht : f.find? t ident = none) : Captured f begun ident ((id, t :: ts) :: w) ref caller frame := by
  obtain ⟨inner, id', tables, outer, k, t', bid, b, parameters, operands, serial, owner, heq,
    hbinds, hbody, hrole, hmem, hinner, hunbound, hrest⟩ := h
  cases inner with
  | nil =>
    cases heq
    obtain ⟨hts, hw⟩ := unbound_cons.1 hunbound
    exact ⟨[], id, t :: ts, w, k, t', bid, b, parameters, operands, serial, owner, rfl, hbinds,
      hbody, hrole, hmem, hinner, unbound_cons.2 ⟨(findIn?_cons_of_none ht).trans hts, hw⟩, hrest⟩
  | cons stop inner =>
    cases heq
    obtain ⟨hts, hw⟩ := unbound_cons.1 hunbound
    refine ⟨(id, t :: ts) :: inner, id', tables, outer, k, t', bid, b, parameters, operands,
      serial, owner, rfl, hbinds, hbody, hrole, hmem, ?_,
      unbound_cons.2 ⟨(findIn?_cons_of_none ht).trans hts, hw⟩, hrest⟩
    exact List.forall_mem_cons.2 (List.forall_mem_cons.1 hinner)

theorem Denotes.cons {ident : String} {found : Option (Env.Found × Env)} {id : NodeId}
    (h : Denotes f begun ident w found) (hid : ¬ f.IsParameter id ident) :
    Denotes f begun ident ((id, []) :: w) found := by
  cases h with
  | unbound hunbound => exact .unbound (unbound_cons.2 ⟨rfl, hunbound⟩)
  | binding inner before hinner hunbound hbefore hfound hinside =>
    exact .binding ((id, []) :: inner) before (List.forall_mem_cons.2 ⟨hid, hinner⟩)
      (unbound_cons.2 ⟨rfl, hunbound⟩) hbefore hfound hinside
  | thunk hcaptured hnode href hclimb hinside =>
    exact .thunk (hcaptured.cons hid rfl) hnode href hclimb hinside

theorem Denotes.table {ident : String} {found : Option (Env.Found × Env)} {id : NodeId}
    {t : TableId} {ts : List TableId} (h : Denotes f begun ident ((id, ts) :: w) found)
    (ht : f.find? t ident = none) : Denotes f begun ident ((id, t :: ts) :: w) found := by
  generalize hw : (id, ts) :: w = w₀ at h
  cases h with
  | unbound hunbound =>
    subst hw
    obtain ⟨hts, hw⟩ := unbound_cons.1 hunbound
    exact .unbound (unbound_cons.2 ⟨(findIn?_cons_of_none ht).trans hts, hw⟩)
  | binding inner before hinner hunbound hbefore hfound hinside =>
    cases inner with
    | nil =>
      cases hw
      exact .binding [] (t :: before) hinner hunbound
        ((findIn?_cons_of_none ht).trans hbefore) hfound hinside
    | cons stop inner =>
      cases hw
      obtain ⟨hts, hunbound⟩ := unbound_cons.1 hunbound
      exact .binding ((id, t :: ts) :: inner) before
        (List.forall_mem_cons.2 (List.forall_mem_cons.1 hinner))
        (unbound_cons.2 ⟨(findIn?_cons_of_none ht).trans hts, hunbound⟩) hbefore hfound hinside
  | thunk hcaptured hnode href hclimb hinside =>
    subst hw
    exact .thunk (hcaptured.table ht) hnode href hclimb hinside

/-- **A name denotes in an environment what it denotes on the walk that the environment follows.** -/
theorem Inside.denotes (hf : f.Linked) (h : Inside f begun w env) (ident : String) :
    Denotes f begun ident w (env.lookup? f ident) := by
  induction h with
  | root _ => exact .unbound (unbound_cons.2 ⟨rfl, fun _ hs => by cases hs⟩)
  | @table id t ts w serial env h ih =>
    rw [Env.lookup?, Env.here?]
    simp only [List.lookup_nil, Option.bind_some]
    rcases hfind : f.find? t ident with _ | ⟨bid, b⟩
    · exact ih.table hfind
    · exact .binding [] [] (fun _ hs => by cases hs) (fun _ hs => by cases hs)
        rfl hfind h.table
  | part hid _ ih => exact ih.cons (hid ident)
  | @call id k j t bid b node parameters operands w w' serial caller owner _ hbinds hbody hrole
      hlength hbegun hnode hoperands hclimb hcaller ih _ =>
    rw [Env.lookup?, Env.here?, Env.lookup_bind]
    rcases hargument : Env.argument? ident none parameters operands with _ | ref
    · refine ih.cons ?_
      intro hparameter
      obtain ⟨k', t', bid', b', parameters', hbinds', hbody', hrole', hmem⟩ := hparameter
      obtain ⟨rfl, rfl⟩ := hf.binds_unique hbinds hbinds' hbody hbody'
      rw [hrole] at hrole'
      cases hrole'
      exact (Env.notMem_of_argument? hlength hargument).2 hmem
    · rcases Env.mem_of_argument? hargument with hnone | ⟨hmem, href⟩
      · cases hnone
      · exact .thunk ⟨[], id, [], w, k, t, bid, b, parameters, operands, serial, owner, rfl, hbinds,
          hbody, hrole, hmem, fun _ hs => (by cases hs), unbound_cons.2 ⟨rfl, fun _ hs => by cases hs⟩,
          rfl, hargument, hbegun⟩ hnode (hoperands ref href) hclimb hcaller

/-! ## Nodes at their places -/

/-- **A node is evaluated around the frames of its place.** -/
def Placed (f : Forest) (begun : Ref → Env → Prop) (ref : Ref) (env : Env) : Prop :=
  ∃ id node w, ref = .node id ∧ f.node? id = some node ∧
    f.Climb id none ((id, f.tablesOf node) :: w) ∧ Inside f begun ((id, []) :: w) env

theorem Placed.enter {id : NodeId} {node : Node} (h : Placed f begun (.node id) env)
    (hnode : f.node? id = some node) (serial : Nat) : ∃ w, f.Climb id none w ∧
      Inside f begun w (Env.push (f.tablesOf node).reverse serial env) := by
  obtain ⟨id', node', w, heq, hnode', hclimb, hinside⟩ := h
  cases heq
  rw [hnode] at hnode'
  cases hnode'
  have hpush := hinside.push (f.tablesOf node).reverse serial
  rw [List.reverse_reverse, List.append_nil] at hpush
  exact ⟨_, hclimb, hpush⟩

theorem not_isParameter_of_child (hf : f.Linked) {id c : NodeId} {node m : Node}
    (hnode : f.node? id = some node) (hm : f.node? c = some m)
    (hparent : m.parent = some id) (hown : f.owningTable? node c = none) (ident : String) :
    ¬ f.IsParameter c ident := by
  rintro ⟨k, t, bid, b, parameters, hbinds, hbody, _, _⟩
  obtain ⟨node', m', hnode', hm', hparent', hown'⟩ := hf.parent_of_binds hbinds hbody
  rw [hm] at hm'
  cases hm'
  rw [hparent] at hparent'
  cases hparent'
  rw [hnode] at hnode'
  cases hnode'
  rw [hown] at hown'
  cases hown'

theorem not_isParameter_of_value (hf : f.Linked) {c k : NodeId} {t : TableId} {bid : BindingId}
    {b : Binding} (hb : f.Binds k t bid b) (hbody : b.body = .node c) (hrole : b.role = .value)
    (ident : String) : ¬ f.IsParameter c ident := by
  rintro ⟨k', t', bid', b', parameters, hb', hbody', hrole', _⟩
  obtain ⟨rfl, rfl⟩ := hf.binds_unique hb hb' hbody hbody'
  rw [hrole] at hrole'
  cases hrole'

theorem placed_child (hf : f.Linked) {id : NodeId} {node : Node} {ref : Ref}
    (hnode : f.node? id = some node) (hclimb : f.Climb id none w) (hinside : Inside f begun w env)
    (href : ref ∈ node.shape.children) : Placed f begun ref env := by
  obtain ⟨c, m, rfl, _, hm, hparent, hown, hc⟩ := hf.climb_child hnode hclimb href
  exact ⟨c, m, w, rfl, hm, hc,
    .part (not_isParameter_of_child hf hnode hm hparent hown) hinside⟩

theorem placed_value (hf : f.Linked) {id k : NodeId} {inner outer : List Stop}
    {before ts : List TableId} {t : TableId} {bid : BindingId} {b : Binding} {owner : Env}
    {ident : String} (hclimb : f.Climb id none (inner ++ (k, before ++ t :: ts) :: outer))
    (hfound : f.find? t ident = some (bid, b)) (hrole : b.role = .value)
    (howner : Inside f begun ((k, t :: ts) :: outer) owner) : Placed f begun b.body owner := by
  obtain ⟨hbinds, c, m, hbody, _, hm, hc⟩ :=
    hf.climb_body hclimb (List.mem_of_find?_eq_some hfound)
  exact ⟨c, m, _, hbody, hm, hc, .part (not_isParameter_of_value hf hbinds hbody hrole) howner⟩

theorem le_of_checkArguments {env : Env} {ident : String} {expected count : Nat} {s s' : State}
    (h : (checkArguments env ident expected count).result s = (.ok (), s')) : expected ≤ count := by
  unfold checkArguments at h
  split at h
  · cases h
  · omega

/-- **The parts that an evaluation begins are evaluated at their places.** -/
theorem placed_of_part (hf : f.Linked) {ev : Evaluator} {id : NodeId} {node : Node} {env' : Env}
    {s s' : State} {ref : Ref} (hnode : f.node? id = some node) (hclimb : f.Climb id none w)
    (hinside : Inside f begun w env) (hpart : Part f ev id node.shape env s ref env' s')
    (hbegun : begun ref env') : Placed f begun ref env' := by
  generalize hshape : node.shape = shape at hpart
  have hchild {ref : Ref} (href : ref ∈ shape.children) : Placed f begun ref env :=
    placed_child hf hnode hclimb hinside (hshape ▸ href)
  cases hpart with
  | @argument ident _ _ _ _ _ hfound =>
    have hdenotes := hinside.denotes hf ident
    rw [hfound] at hdenotes
    cases hdenotes with
    | thunk _ hj href hclimb' hcaller => exact placed_child hf hj hclimb' hcaller href
  | @value ident _ _ _ _ b hfound hrole _ =>
    have hdenotes := hinside.denotes hf ident
    rw [hfound] at hdenotes
    cases hdenotes with
    | binding _ _ _ _ _ hfind howner => exact placed_value hf hclimb hfind hrole howner
  | @body name operands _ _ owner _ s₁ bid b parameters hfound hrole hcheck =>
    have hdenotes := hinside.denotes hf name
    rw [hfound] at hdenotes
    cases hdenotes with
    | binding _ _ _ _ _ hfind howner =>
      obtain ⟨hbinds, c, m, hbody, _, hm, hc⟩ :=
        hf.climb_body hclimb (List.mem_of_find?_eq_some hfind)
      refine ⟨c, m, _, hbody, hm, hc, ?_⟩
      exact .call howner hbinds hbody hrole (le_of_checkArguments hcheck) hbegun hnode
        (fun ref href => by rw [hshape]; exact href) hclimb hinside
  | operand _ _ hused _ => exact hchild (mem_of_usedOperands hused)
  | printed _ _ hused _ =>
    refine hchild ?_
    rw [Shape.children, hused]
    simp
  | test => exact hchild (by simp [Shape.children])
  | branch _ => exact hchild (mem_branch _ _ _ _)

end

/-! ## The run of a source -/

section
variable {source : String} {root : NodeId} {f : Forest} {start : Visit}

def BegunIn (f : Forest) (start : Visit) (ref : Ref) (env : Env) : Prop :=
  ∃ limit s, Visits f start ⟨limit, ref, env, s⟩

theorem placed_root (h : Sown source root f) (begun : Ref → Env → Prop) (policy : Policy) :
    Placed f begun (.node root) (.root 0 policy) := by
  obtain ⟨node, hnode, hparent⟩ := h.root
  refine ⟨root, node, [], rfl, hnode, .top hnode hparent, .root ?_⟩
  rintro ident ⟨k, t, bid, b, parameters, hbinds, hbody, _, _⟩
  obtain ⟨_, m, _, hm, hparent', _⟩ := h.linked.parent_of_binds hbinds hbody
  rw [hnode] at hm
  cases hm
  rw [hparent] at hparent'
  cases hparent'

/-- **Every node is evaluated at its place**, once the first one is. -/
theorem placed_of_visits (hf : f.Linked)
    (hstart : Placed f (BegunIn f start) start.ref start.env) {v : Visit} (hv : Visits f start v) :
    Placed f (BegunIn f start) v.ref v.env := by
  induction hv with
  | refl => exact hstart
  | tail hvisits hbegins ih =>
    cases hbegins with
    | @part limit id node env inner env' s s₁ s' ref hnode henter hpart =>
      rw [result_enter] at henter
      cases henter
      obtain ⟨w, hclimb, hinside⟩ := ih.enter hnode s.next
      exact placed_of_part hf hnode hclimb hinside hpart
        ⟨_, _, hvisits.tail (.part hnode (result_enter f node env s) hpart)⟩

/-- **What static lookup finds at a node, lookup finds in every run.** -/
theorem lexical_scoping (h : Sown source root f) (limit : Nat) (policy : Policy)
    (input : List Char) (generator : Generator) {v : Visit}
    (hv : Visits f (.start limit (.node root) policy input generator) v) {id : NodeId}
    {ident : String} {inner : Env} {s : State} (hlookup : v.LooksUp f id ident inner s) :
    match inner.lookup? f ident with
    | none => f.resolve? id ident = none
    | some (.binding bid b, _) => f.resolve? id ident = some (bid, b)
    | some (.thunk ref caller, frame) => Captured f
        (BegunIn f (.start limit (.node root) policy input generator)) ident (f.walk id) ref caller
        frame := by
  obtain ⟨node, hnode, _, henter⟩ := hlookup.node
  rw [result_enter] at henter
  cases henter
  have hplaced := placed_of_visits h.linked (placed_root h _ policy) hv
  rw [hlookup.ref] at hplaced
  obtain ⟨w, hclimb, hinside⟩ := hplaced.enter hnode v.state.next
  have hdenotes := hinside.denotes h.linked ident
  rw [resolve?_eq_walk, hclimb.walk]
  generalize Env.lookup? f ident _ = found at hdenotes
  cases hdenotes with
  | unbound hunbound => exact findOn?_of_unbound hunbound
  | binding _ _ _ hunbound hbefore hfind _ => exact findOn?_of_found hunbound hbefore hfind
  | thunk hcaptured _ _ _ _ => exact hcaptured

end

/-- a function that gives its argument back, and a call of it -/
def identitySource : String := "(let ((f lambda (x) x)) (f f))"

def identityForest : Forest where
  nodes := #[⟨.symbol "x", none, some ⟨2⟩⟩, ⟨.symbol "f", none, some ⟨2⟩⟩,
    ⟨.call .custom (some "f") [.node ⟨1⟩] true, some ⟨0⟩, none⟩]
  tables := #[⟨[⟨0⟩], none, some ⟨2⟩⟩]
  bindings := #[⟨"f", none, .node ⟨0⟩, .function ["x"]⟩]

theorem parse_identity : parseForm identitySource.toList
    = .ok (.scoped [.function "f" ["x"] (.symbol "x") none] (.call "f" [.symbol "f"])) := by
  with_unfolding_all rfl

theorem sown_identity : Sown identitySource ⟨2⟩ identityForest := by
  refine ⟨[], ?_⟩
  unfold plantSource
  rw [parse_identity]
  rfl

def identityRun : Visit := .start 2 (.node ⟨2⟩) { strict := true } [] ⟨#[], 0⟩

def identityOuter : Env := .frame 1 none [] (some ⟨0⟩) identityRun.env

def identityInner : Env :=
  .frame 2 (some "f") (identityOuter.bind ["x"] [.node ⟨1⟩]) none identityOuter

def identityBody : Visit := ⟨1, .node ⟨0⟩, identityInner, { identityRun.state with next := 3 }⟩

theorem visits_identity : Visits identityForest identityRun identityBody := by
  have hnode : identityForest.node? ⟨2⟩
      = some ⟨.call .custom (some "f") [.node ⟨1⟩] true, some ⟨0⟩, none⟩ := rfl
  have hfound : identityOuter.lookup? identityForest "f"
      = some (.binding ⟨0⟩ ⟨"f", none, .node ⟨0⟩, .function ["x"]⟩, identityOuter) := rfl
  have hcheck : (checkArguments identityOuter "f" ["x"].length [Ref.node ⟨1⟩].length).result
      { identityRun.state with next := 2 } = (.ok (), { identityRun.state with next := 2 }) := rfl
  have hpart : Part identityForest (evalNode identityForest 1) ⟨2⟩
      (.call .custom (some "f") [.node ⟨1⟩] true) identityOuter { identityRun.state with next := 2 }
      (.node ⟨0⟩) identityInner identityBody.state := .body hfound rfl hcheck
  exact .single (.part hnode rfl hpart)

theorem looksUp_identity : identityBody.LooksUp identityForest ⟨0⟩ "x" identityInner
    identityBody.state :=
  ⟨rfl, Nat.one_ne_zero, ⟨.symbol "x", none, some ⟨2⟩⟩, rfl, rfl, rfl⟩

theorem captured_identity : Visits identityForest identityRun identityBody ∧
    Captured identityForest (BegunIn identityForest identityRun) "x" (identityForest.walk ⟨0⟩)
      (.node ⟨1⟩) identityOuter identityInner :=
  ⟨visits_identity, lexical_scoping sown_identity 2 { strict := true } [] ⟨#[], 0⟩ visits_identity
    looksUp_identity⟩

end Abacus
