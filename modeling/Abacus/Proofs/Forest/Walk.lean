import Abacus.Proofs.Forest.Linked

/-!
# Walking up

Static lookup walks from a node up to the outermost one and looks for a name in some tables of each
node on the way.  In a linked forest the walk from a part of a node, or from a node bound in one of
its tables, goes on as the walk from that node.

* `Forest.walk`          the nodes on the way up, each with the tables that are looked at;
* `resolve?_eq_walk`     static lookup finds the first binding on the way;
* `Forest.Climb`         walks that reach a node without parent;
* `Climb.child`, `Climb.body`   the walk from a part, and from a bound node;
* `Forest.Binds`, `Linked.binds_unique`   a node is bound once at most.
-/

namespace Abacus

namespace Forest

/-- a node on the way up, with the tables that a name is looked for in there -/
abbrev Stop := NodeId × List TableId

variable {f : Forest}

/-! ## The walk of static lookup -/

/-- a walk of at most so many nodes upward, coming from one of the nodes below or starting there -/
def walkUpTo (f : Forest) : Nat → NodeId → Option NodeId → List Stop
  | 0, _, _ => []
  | steps + 1, id, child =>
    match f.node? id with
    | none => []
    | some node => (id, f.visibleTables node child) ::
      match node.parent with
      | some parent => walkUpTo f steps parent (some id)
      | none => []

/-- **The walk from a node up**, as far as static lookup goes -/
def walk (f : Forest) (id : NodeId) : List Stop := f.walkUpTo (f.nodes.size + 1) id none

def findOn? (f : Forest) (ident : String) (w : List Stop) : Option (BindingId × Binding) :=
  w.findSome? fun stop => f.findIn? ident stop.2

theorem resolveUpTo_eq_walkUpTo (ident : String) (steps : Nat) (id : NodeId)
    (child : Option NodeId) :
    f.resolveUpTo ident steps id child = f.findOn? ident (f.walkUpTo steps id child) := by
  induction steps generalizing id child with
  | zero => rfl
  | succ steps ih =>
    unfold resolveUpTo walkUpTo
    rcases hnode : f.node? id with _ | node
    · rfl
    · simp only [findOn?, List.findSome?_cons]
      rcases hfind : f.findIn? ident (f.visibleTables node child) with _ | found
      · rcases hparent : node.parent with _ | parent
        · rfl
        · exact ih parent (some id)
      · rfl

/-- **Static lookup finds the first binding on the way up.** -/
theorem resolve?_eq_walk (id : NodeId) (ident : String) :
    f.resolve? id ident = f.findOn? ident (f.walk id) :=
  resolveUpTo_eq_walkUpTo ident _ id none

/-! ## Walks that reach the top -/

/-- **A walk that reaches a node without parent**, through nodes made later and later -/
inductive Climb (f : Forest) : NodeId → Option NodeId → List Stop → Prop
  | top {id : NodeId} {child : Option NodeId} {node : Node} : f.node? id = some node →
      node.parent = none → Climb f id child [(id, f.visibleTables node child)]
  | up {id parent : NodeId} {child : Option NodeId} {node : Node} {w : List Stop} :
      f.node? id = some node → node.parent = some parent → id.index < parent.index →
      Climb f parent (some id) w → Climb f id child ((id, f.visibleTables node child) :: w)

namespace Climb

variable {id : NodeId} {child : Option NodeId} {w : List Stop}

theorem length_le (h : f.Climb id child w) : id.index + w.length ≤ f.nodes.size := by
  induction h with
  | top hnode _ => exact (Array.getElem?_eq_some_iff.1 hnode).1
  | up _ _ hlt _ ih =>
    rw [List.length_cons]
    omega

theorem walkUpTo (h : f.Climb id child w) {steps : Nat} (hsteps : w.length ≤ steps) :
    f.walkUpTo steps id child = w := by
  induction h generalizing steps with
  | top hnode hparent =>
    cases steps with
    | zero => cases hsteps
    | succ steps =>
      unfold Forest.walkUpTo
      simp only [hnode, hparent]
  | up hnode hparent _ _ ih =>
    cases steps with
    | zero => cases hsteps
    | succ steps =>
      unfold Forest.walkUpTo
      simp only [hnode, hparent, ih (Nat.le_of_succ_le_succ hsteps)]

theorem walk (h : f.Climb id none w) : f.walk id = w := by
  have := h.length_le
  exact h.walkUpTo (by omega)

theorem head (h : f.Climb id child w) :
    ∃ node outer, f.node? id = some node ∧ w = (id, f.visibleTables node child) :: outer ∧
      ∀ child', f.Climb id child' ((id, f.visibleTables node child') :: outer) := by
  cases h with
  | top hnode hparent => exact ⟨_, [], hnode, rfl, fun _ => .top hnode hparent⟩
  | up hnode hparent hlt hclimb =>
    exact ⟨_, _, hnode, rfl, fun _ => .up hnode hparent hlt hclimb⟩

theorem drop {inner outer : List Stop} {k : NodeId} {tables : List TableId}
    (h : f.Climb id child (inner ++ (k, tables) :: outer)) :
    ∃ child', f.Climb k child' ((k, tables) :: outer) := by
  induction inner generalizing id child with
  | nil =>
    obtain ⟨node, outer', _, hw, _⟩ := h.head
    cases hw
    exact ⟨child, h⟩
  | cons stop inner ih =>
    rw [List.cons_append] at h
    generalize hw : inner ++ (k, tables) :: outer = w at h
    cases h with
    | top _ _ => simp at hw
    | up _ _ _ hclimb =>
      subst hw
      exact ih hclimb

end Climb

theorem Linked.visibleTables (h : f.Linked) {id : NodeId} {node : Node}
    (hnode : f.node? id = some node) (child : Option NodeId) :
    f.visibleTables node child <:+ f.tablesOf node := by
  unfold Forest.visibleTables
  split
  · next t ht =>
    obtain ⟨c, _, ht⟩ := Option.bind_eq_some_iff.1 ht
    unfold owningTable? at ht
    obtain ⟨before, after, hts⟩ := List.append_of_mem (List.mem_of_find?_eq_some ht)
    rw [h.tablesFrom hnode hts, hts]
    exact List.suffix_append before _
  · exact List.suffix_rfl

/-! ## Walks from below -/

/-- **A table of a node holds a binding.** -/
def Binds (f : Forest) (k : NodeId) (t : TableId) (bid : BindingId) (b : Binding) : Prop :=
  ∃ node, f.node? k = some node ∧ t ∈ f.tablesOf node ∧ (bid, b) ∈ f.bindingsOf t

namespace Linked

/-- **The walk from a part of a node** goes on as the walk from that node. -/
theorem climb_child (h : f.Linked) {id : NodeId} {node : Node} {w : List Stop} {ref : Ref}
    (hnode : f.node? id = some node) (hw : f.Climb id none w) (href : ref ∈ node.shape.children) :
    ∃ c m, ref = .node c ∧ c.index < id.index ∧ f.node? c = some m ∧ m.parent = some id ∧
      f.owningTable? node c = none ∧ f.Climb c none ((c, f.tablesOf m) :: w) := by
  obtain ⟨c, m, rfl, hlt, hm, hparent, hown⟩ := h.child hnode href
  obtain ⟨node', outer, hnode', rfl, hclimb⟩ := hw.head
  rw [hnode] at hnode'
  cases hnode'
  have hsame : f.visibleTables node (some c) = f.visibleTables node none := by
    simp only [Forest.visibleTables, Option.bind_some, hown, Option.bind_none]
  refine ⟨c, m, rfl, hlt, hm, hparent, hown, .up hm hparent hlt ?_⟩
  rw [← hsame]
  exact hclimb (some c)

/-- **The walk from a bound node** goes on at the table that binds it. -/
theorem climb_body (h : f.Linked) {id k : NodeId} {child : Option NodeId} {inner outer : List Stop}
    {before ts : List TableId} {t : TableId} {bid : BindingId} {b : Binding}
    (hw : f.Climb id child (inner ++ (k, before ++ t :: ts) :: outer))
    (hb : (bid, b) ∈ f.bindingsOf t) : f.Binds k t bid b ∧ ∃ c m, b.body = .node c ∧
      c.index < k.index ∧ f.node? c = some m ∧
      f.Climb c none ((c, f.tablesOf m) :: (k, t :: ts) :: outer) := by
  obtain ⟨child', hk⟩ := hw.drop
  obtain ⟨node, outer', hnode, heq, hclimb⟩ := hk.head
  obtain ⟨htables, rfl⟩ : before ++ t :: ts = f.visibleTables node child' ∧ outer = outer' := by
    simpa using heq
  obtain ⟨pre, hpre⟩ := h.visibleTables hnode child'
  rw [← htables, ← List.append_assoc] at hpre
  have ht : t ∈ f.tablesOf node := by
    rw [← hpre]
    simp
  obtain ⟨c, m, hbody, hlt, hm, hparent, hown⟩ := h.body hnode ht (mem_bodies hb)
  refine ⟨⟨node, hnode, ht, hb⟩, c, m, hbody, hlt, hm, .up hm hparent hlt ?_⟩
  have hsame : f.visibleTables node (some c) = t :: ts := by
    simp only [Forest.visibleTables, Option.bind_some, hown]
    exact h.tablesFrom hnode hpre.symm
  rw [← hsame]
  exact hclimb (some c)

theorem parent_of_binds (h : f.Linked) {k c : NodeId} {t : TableId} {bid : BindingId} {b : Binding}
    (hb : f.Binds k t bid b) (hbody : b.body = .node c) : ∃ node m, f.node? k = some node ∧
      f.node? c = some m ∧ m.parent = some k ∧ f.owningTable? node c = some t := by
  obtain ⟨node, hnode, ht, hmem⟩ := hb
  obtain ⟨c', m, heq, _, hm, hparent, hown⟩ := h.body hnode ht (mem_bodies hmem)
  rw [hbody] at heq
  cases heq
  exact ⟨node, m, hnode, hm, hparent, hown⟩

/-- **A node is bound once at most.** -/
theorem binds_unique (h : f.Linked) {k k' c : NodeId} {t t' : TableId} {bid bid' : BindingId}
    {b b' : Binding} (hb : f.Binds k t bid b) (hb' : f.Binds k' t' bid' b')
    (hbody : b.body = .node c) (hbody' : b'.body = .node c) : bid = bid' ∧ b = b' := by
  obtain ⟨node, m, hnode, hm, hparent, hown⟩ := h.parent_of_binds hb hbody
  obtain ⟨node', m', hnode', hm', hparent', hown'⟩ := h.parent_of_binds hb' hbody'
  rw [hm] at hm'
  cases hm'
  rw [hparent] at hparent'
  cases hparent'
  rw [hnode] at hnode'
  cases hnode'
  rw [hown] at hown'
  cases hown'
  obtain ⟨n, hn, ht, hmem⟩ := hb
  obtain ⟨n', hn', _, hmem'⟩ := hb'
  have hnodup := (List.nodup_flatMap.1 (List.nodup_append'.1 (h.linkedNode hn).nodup).1).1 t ht
  have heq := List.inj_on_of_nodup_map hnodup hmem hmem' (by rw [hbody, hbody'])
  exact ⟨congrArg Prod.fst heq, congrArg Prod.snd heq⟩

end Linked

end Forest

end Abacus
