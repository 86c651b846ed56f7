import Abacus.Proofs.Forest.Growing
import Abacus.Source.Planting

/-!
# Planted forests

Planting a form makes new nodes and leaves the old ones as they are; the node of the form is free,
and all nodes are linked to what is below them.

* `LinkedNode.mono`      what a linked node depends on;
* `Grown`                forests in which the old entries are still there;
* `Planted`              forests grown by free nodes;
* `planted_compound`, `planted_scope`   a new node around free ones, a new table around a node;
* `Sown`, `Sown.linked`  the forest of a source is linked.
-/

namespace Abacus

open Growth

namespace Forest

variable {f g h : Forest}

/-! ## What a linked node depends on -/

theorem bindingsOf_mono {t : TableId} {table table' : Table} (htable : f.table? t = some table)
    (htable' : g.table? t = some table') (hheld : table'.bindings = table.bindings)
    (hbound : ∀ b ∈ table.bindings, (f.binding? b).isSome)
    (hbindings : ∀ b x, f.binding? b = some x → g.binding? b = some x) :
    g.bindingsOf t = f.bindingsOf t := by
  simp only [bindingsOf, htable, htable', hheld]
  refine List.filterMap_congr ?_
  intro b hb
  obtain ⟨x, hx⟩ := Option.isSome_iff_exists.1 (hbound b hb)
  rw [hx, hbindings b x hx]

theorem Row.mono {id : NodeId} {start : Option TableId} {ts : List TableId}
    (hrow : f.Row id start ts) (htables : ∀ t table, f.table? t = some table →
      table.owner = some id → g.table? t = some table) : g.Row id start ts := by
  induction hrow with
  | nil => exact .nil
  | cons htable howner hnot _ ih => exact .cons (htables _ _ htable howner) howner hnot ih

/-- **A linked node depends on its own tables, its bindings and the nodes that it stands around.** -/
theorem LinkedNode.mono {id : NodeId} {node node' : Node} {ts : List TableId}
    (hlinked : f.LinkedNode id node ts) (hshape : node'.shape = node.shape)
    (hscope : node'.scope = node.scope)
    (htables : ∀ t table, f.table? t = some table → table.owner = some id →
      g.table? t = some table)
    (hbindings : ∀ b x, f.binding? b = some x → g.binding? b = some x)
    (hnodes : ∀ c m, f.node? c = some m → m.parent = some id →
      ∃ m', g.node? c = some m' ∧ m'.parent = some id) : g.LinkedNode id node' ts := by
  have hbodies : ∀ t ∈ ts, g.bodies t = f.bodies t := fun t ht => by
    obtain ⟨table, htable, howner⟩ := hlinked.row.table ht
    unfold bodies
    rw [bindingsOf_mono htable (htables t table htable howner) rfl
      (hlinked.bound t ht table htable) hbindings]
  have hbelow : g.below ts node'.shape = f.below ts node.shape := by
    unfold Forest.below
    rw [hshape, List.flatMap_congr hbodies]
  refine ⟨?_, ?_, ?_, ?_, ?_⟩
  · rw [hscope]
    exact hlinked.row.mono htables
  · intro t ht table htable b hb
    obtain ⟨table', htable', howner⟩ := hlinked.row.table ht
    rw [htables t table' htable' howner] at htable
    cases htable
    obtain ⟨x, hx⟩ := Option.isSome_iff_exists.1 (hlinked.bound t ht _ htable' b hb)
    rw [hbindings b x hx]
    rfl
  · intro ref href
    rw [hbelow] at href
    obtain ⟨c, m, rfl, hlt, hm, hparent⟩ := hlinked.below ref href
    obtain ⟨m', hm', hparent'⟩ := hnodes c m hm hparent
    exact ⟨c, m', rfl, hlt, hm', hparent'⟩
  · rw [hbelow]
    exact hlinked.nodup
  · rw [hshape]
    exact hlinked.counted

/-! ## Grown forests -/

/-- **A forest in which the entries of another one are still there**; tables may change that belong
to new nodes. -/
structure Grown (f g : Forest) : Prop where
  size : f.nodes.size ≤ g.nodes.size
  nodes : ∀ id node, f.node? id = some node → g.node? id = some node
  tables : ∀ t table o, f.table? t = some table → table.owner = some o →
    o.index < f.nodes.size → g.table? t = some table
  bindings : ∀ b x, f.binding? b = some x → g.binding? b = some x

theorem Grown.refl (f : Forest) : Grown f f :=
  ⟨Nat.le_refl _, fun _ _ hn => hn, fun _ _ _ ht _ _ => ht, fun _ _ hb => hb⟩

theorem Grown.trans (hfg : Grown f g) (hgh : Grown g h) : Grown f h where
  size := Nat.le_trans hfg.size hgh.size
  nodes id node hn := hgh.nodes id node (hfg.nodes id node hn)
  tables t table o ht ho hlt :=
    hgh.tables t table o (hfg.tables t table o ht ho hlt) ho (Nat.lt_of_lt_of_le hlt hfg.size)
  bindings b x hb := hgh.bindings b x (hfg.bindings b x hb)

structure Free (f : Forest) (cs : List NodeId) : Prop where
  nodup : cs.Nodup
  free : ∀ c ∈ cs, ∃ m, f.node? c = some m ∧ m.parent = none

theorem Free.notMem {cs : List NodeId} (hf : f.Free cs) {c id : NodeId} {m : Node}
    (hm : f.node? c = some m) (hparent : m.parent = some id) : c ∉ cs := fun hc => by
  obtain ⟨m', hm', hfree⟩ := hf.free c hc
  rw [hm] at hm'
  cases hm'
  rw [hfree] at hparent
  cases hparent

/-- **A linked forest that has grown by free nodes.** -/
structure Planted (f : Forest) (ids : List NodeId) (g : Forest) : Prop where
  linked : g.Linked
  grown : Grown f g
  free : g.Free ids
  new : ∀ id ∈ ids, f.nodes.size ≤ id.index

theorem Planted.notMem {ids : List NodeId} (hfg : Planted f ids g) {j : NodeId} {m : Node}
    (hm : f.node? j = some m) : j ∉ ids := fun hj => Nat.not_lt.2 (hfg.new j hj) (lt_of_node? hm)

theorem Planted.nil (hf : f.Linked) : Planted f [] f :=
  ⟨hf, .refl f, ⟨List.nodup_nil, fun _ hc => by cases hc⟩, fun _ hc => by cases hc⟩

theorem Planted.append {ids ids' : List NodeId} (hfg : Planted f ids g) (hgh : Planted g ids' h) :
    Planted f (ids ++ ids') h := by
  refine ⟨hgh.linked, hfg.grown.trans hgh.grown, ⟨?_, fun c hc => ?_⟩, fun c hc => ?_⟩
  · refine List.nodup_append'.2 ⟨hfg.free.nodup, hgh.free.nodup, fun c hc hc' => ?_⟩
    obtain ⟨m, hm, _⟩ := hfg.free.free c hc
    exact hgh.notMem hm hc'
  · rcases List.mem_append.1 hc with hc | hc
    · obtain ⟨m, hm, hfree⟩ := hfg.free.free c hc
      exact ⟨m, hgh.grown.nodes c m hm, hfree⟩
    · exact hgh.free.free c hc
  · rcases List.mem_append.1 hc with hc | hc
    · exact hfg.new c hc
    · exact Nat.le_trans hfg.grown.size (hgh.new c hc)

theorem Planted.step {ids : List NodeId} (hfg : Planted f ids g) (hh : h.Linked)
    (hgh : Grown g h) : Planted f ids h where
  linked := hh
  grown := hfg.grown.trans hgh
  free := ⟨hfg.free.nodup, fun c hc => by
    obtain ⟨m, hm, hfree⟩ := hfg.free.free c hc
    exact ⟨m, hgh.nodes c m hm, hfree⟩⟩
  new := hfg.new

/-! ## A new node around free ones -/

theorem node_injective : Function.Injective Ref.node := fun _ _ h => Ref.node.inj h

section
variable {cs : List NodeId} {shape : Shape} {id : NodeId}

theorem compound_other (hid : id = ⟨g.nodes.size⟩) (hh : Adopted id shape.children
      { g with nodes := g.nodes.push ⟨shape, none, none⟩ } h) {j : NodeId} (hj : j ≠ id) :
    h.node? j = (g.node? j).map (adoptedNode id shape.children j) := by
  have hne : j.index ≠ g.nodes.size := fun heq => hj (by rw [hid, ← heq])
  rw [hh.nodes, node?_push, if_neg hne]

theorem compound_kept (hid : id = ⟨g.nodes.size⟩) (hh : Adopted id shape.children
      { g with nodes := g.nodes.push ⟨shape, none, none⟩ } h) {j : NodeId} {m : Node}
    (hm : g.node? j = some m) (hj : .node j ∉ shape.children) : h.node? j = some m := by
  have hne : j ≠ id := fun heq => by
    have hlt := lt_of_node? hm
    rw [heq, hid] at hlt
    exact Nat.lt_irrefl _ hlt
  rw [compound_other hid hh hne, hm, Option.map_some, adoptedNode_of_notMem hj]

theorem compound_self (hid : id = ⟨g.nodes.size⟩) (hh : Adopted id shape.children
      { g with nodes := g.nodes.push ⟨shape, none, none⟩ } h) (hnotMem : .node id ∉ shape.children) :
    h.node? id = some ⟨shape, none, none⟩ := by
  rw [hh.nodes, node?_push, if_pos (by rw [hid]), Option.map_some, adoptedNode_of_notMem hnotMem]

theorem linkedNode_compound (hfree : g.Free cs) (hcs : shape.children = cs.map .node)
    (hcounted : shape.Counted) (hid : id = ⟨g.nodes.size⟩) (hh : Adopted id shape.children
      { g with nodes := g.nodes.push ⟨shape, none, none⟩ } h) :
    h.LinkedNode id ⟨shape, none, none⟩ [] := by
  refine ⟨.nil, fun t ht => (by cases ht), ?_, ?_, hcounted⟩
  · intro ref href
    have hchild : ref ∈ shape.children := href
    obtain ⟨c, hc, rfl⟩ := List.mem_map.1 (hcs ▸ hchild : ref ∈ cs.map .node)
    obtain ⟨m, hm, _⟩ := hfree.free c hc
    have hlt : c.index < id.index := by
      rw [hid]
      exact lt_of_node? hm
    have hne : c ≠ id := fun heq => Nat.lt_irrefl _ (heq ▸ hlt)
    refine ⟨c, { m with parent := some id }, rfl, hlt, ?_, rfl⟩
    rw [compound_other hid hh hne, hm, Option.map_some, adoptedNode_of_mem hchild]
  · show shape.children.Nodup
    rw [hcs]
    exact hfree.nodup.map node_injective

/-- **A new node around free ones.** -/
theorem planted_compound (hf : Planted f cs g) (hcs : shape.children = cs.map .node)
    (hcounted : shape.Counted) (hid : id = ⟨g.nodes.size⟩) (hh : Adopted id shape.children
      { g with nodes := g.nodes.push ⟨shape, none, none⟩ } h) : Planted f [id] h := by
  have hchild {j : NodeId} (hj : j ∉ cs) : .node j ∉ shape.children := by
    rwa [hcs, List.mem_map_of_injective node_injective]
  have hself : h.node? id = some ⟨shape, none, none⟩ := compound_self hid hh (hchild fun hmem => by
    obtain ⟨m, hm, _⟩ := hf.free.free id hmem
    have hlt := lt_of_node? hm
    rw [hid] at hlt
    exact Nat.lt_irrefl _ hlt)
  have hlinked : h.Linked := by
    intro j node hnode
    by_cases hj : j = id
    · subst hj
      rw [hself] at hnode
      cases hnode
      exact ⟨[], linkedNode_compound hf.free hcs hcounted hid hh⟩
    · rw [compound_other hid hh hj] at hnode
      obtain ⟨m, hm, rfl⟩ := Option.map_eq_some_iff.1 hnode
      obtain ⟨ts, hts⟩ := hf.linked j m hm
      refine ⟨ts, hts.mono (shape_adoptedNode _ _ _ _) (scope_adoptedNode _ _ _ _) ?_ ?_ ?_⟩
      · intro t table ht _
        rw [hh.table?]
        exact ht
      · intro b x hb
        rw [hh.binding?]
        exact hb
      · intro c m' hm' hparent
        have hc : c ∉ cs := hf.free.notMem hm' hparent
        exact ⟨m', compound_kept hid hh hm' (hchild hc), hparent⟩
  have hgrown : Grown f h := by
    refine ⟨?_, ?_, ?_, ?_⟩
    · rw [hh.size, Array.size_push]
      exact Nat.le_succ_of_le hf.grown.size
    · intro j m hm
      exact compound_kept hid hh (hf.grown.nodes j m hm) (hchild (hf.notMem hm))
    · intro t table o ht howner hlt
      rw [hh.table?]
      exact hf.grown.tables t table o ht howner hlt
    · intro b x hb
      rw [hh.binding?]
      exact hf.grown.bindings b x hb
  refine ⟨hlinked, hgrown, ⟨List.nodup_singleton id, ?_⟩, ?_⟩
  · intro c hc
    rw [List.mem_singleton.1 hc]
    exact ⟨_, hself, rfl⟩
  · intro c hc
    rw [List.mem_singleton.1 hc, hid]
    exact hf.grown.size

end

/-! ## A new table around a node -/

def Bind (f : Forest) (bs : List BindingId) (cs : List NodeId) : Prop :=
  List.Forall₂ (fun b c => ∃ x, f.binding? b = some x ∧ x.body = .node c) bs cs

theorem Bind.mono {bs : List BindingId} {cs : List NodeId} (hb : f.Bind bs cs)
    (hbindings : ∀ b x, f.binding? b = some x → g.binding? b = some x) : g.Bind bs cs :=
  List.Forall₂.imp (fun b _ ⟨x, hx, hbody⟩ => ⟨x, hbindings b x hx, hbody⟩) hb

theorem Bind.isSome {bs : List BindingId} {cs : List NodeId} (hb : f.Bind bs cs) :
    ∀ b ∈ bs, (f.binding? b).isSome := by
  induction hb with
  | nil => exact fun b hb => by cases hb
  | cons hx _ ih =>
    obtain ⟨x, hx, _⟩ := hx
    intro b hb
    rcases List.mem_cons.1 hb with rfl | hb
    · rw [hx]
      rfl
    · exact ih b hb

theorem Bind.bodies {bs : List BindingId} {cs : List NodeId} (hb : f.Bind bs cs) {t : TableId}
    {table : Table} (ht : f.table? t = some table) (hbs : table.bindings = bs) :
    f.bodies t = cs.map .node := by
  simp only [Forest.bodies, bindingsOf, ht, hbs]
  clear ht hbs
  induction hb with
  | nil => rfl
  | cons hx _ ih =>
    obtain ⟨x, hx, hbody⟩ := hx
    rw [List.filterMap_cons, hx]
    simp [hbody, ih]

theorem table?_filled {t t' : TableId} {table table' : Table} (ht : t = ⟨g.tables.size⟩)
    (hh : Filled t table g h) (ht' : g.table? t' = some table') : h.table? t' = some table' := by
  refine (hh.others t' fun heq => ?_).trans ht'
  have hlt := lt_of_table? ht'
  rw [heq, ht] at hlt
  exact Nat.lt_irrefl _ hlt

theorem planted_table {ids : List NodeId} {t : TableId} {table : Table} (hf : Planted f ids g)
    (ht : t = ⟨g.tables.size⟩) (hh : Filled t table g h) : Planted f ids h := by
  have hold (t' : TableId) (table' : Table) (ht' : g.table? t' = some table') :
      h.table? t' = some table' := table?_filled ht hh ht'
  have hlinked : h.Linked := by
    intro id node hnode
    rw [hh.node?] at hnode
    obtain ⟨ts, hts⟩ := hf.linked id node hnode
    refine ⟨ts, hts.mono rfl rfl (fun t' table' ht' _ => hold t' table' ht') ?_ ?_⟩
    · intro b x hb
      rw [hh.binding?]
      exact hb
    · intro c m hm hparent
      refine ⟨m, ?_, hparent⟩
      rw [hh.node?]
      exact hm
  have hgrown : Grown g h := by
    refine ⟨Nat.le_of_eq (congrArg Array.size hh.nodes.symm), ?_,
      fun t' table' _ ht' _ _ => hold t' table' ht', ?_⟩
    · intro id node hnode
      rw [hh.node?]
      exact hnode
    · intro b x hb
      rw [hh.binding?]
      exact hb
  exact hf.step hlinked hgrown

theorem bindingsOf_congr {t : TableId}
    (hheld : (g.table? t).map (·.bindings) = (f.table? t).map (·.bindings))
    (hbindings : g.bindings = f.bindings) : g.bindingsOf t = f.bindingsOf t := by
  unfold bindingsOf binding?
  rw [hbindings]
  rcases hg : g.table? t with _ | table
  · rw [hg, Option.map_none] at hheld
    rw [Option.map_eq_none_iff.1 hheld.symm]
  · rw [hg, Option.map_some] at hheld
    obtain ⟨table', htable', heq⟩ := Option.map_eq_some_iff.1 hheld.symm
    rw [htable']
    simp only [heq]

section
variable {k : Forest} {id : NodeId} {node : Node} {t : TableId} {ts : List TableId}
  {scope : Option TableId} {bs : List BindingId} {cs : List NodeId}

theorem attached_other (hh : Attached id t ts scope g h) (hk : Adopted id (cs.map .node) h k)
    {j : NodeId} {m : Node} (hm : g.node? j = some m) (hj : j ≠ id) :
    k.node? j = some (adoptedNode id (cs.map .node) j m) := by
  rw [hk.nodes, hh.nodes, if_neg hj, hm, Option.map_some]

theorem attached_kept (hh : Attached id t ts scope g h) (hk : Adopted id (cs.map .node) h k)
    {j : NodeId} {m : Node} (hm : g.node? j = some m) (hj : j ≠ id) (hcs : j ∉ cs) :
    k.node? j = some m := by
  rw [attached_other hh hk hm hj, adoptedNode_of_notMem]
  rwa [List.mem_map_of_injective node_injective]

theorem attached_self (hh : Attached id t ts scope g h) (hk : Adopted id (cs.map .node) h k)
    (hnode : g.node? id = some node) (hid : id ∉ cs) :
    k.node? id = some { node with scope := scope } := by
  rw [hk.nodes, hh.nodes, if_pos rfl, hnode, Option.map_some, Option.map_some,
    adoptedNode_of_notMem]
  rwa [List.mem_map_of_injective node_injective]

theorem attached_child (hh : Attached id t ts scope g h) (hk : Adopted id (cs.map .node) h k)
    {c : NodeId} {m : Node} (hm : g.node? c = some m) (hc : c ≠ id)
    (hparent : c ∈ cs ∨ m.parent = some id) :
    ∃ m', k.node? c = some m' ∧ m'.parent = some id := by
  refine ⟨_, attached_other hh hk hm hc, ?_⟩
  by_cases hcs : c ∈ cs
  · rw [adoptedNode_of_mem (List.mem_map_of_mem hcs)]
  · rw [adoptedNode_of_notMem (by rwa [List.mem_map_of_injective node_injective])]
    exact hparent.resolve_left hcs

/-- everything below the node of the new table: the nodes bound in it come before the parts -/
theorem below_attached (ht : g.table? t = some ⟨bs, none, none⟩) (hb : g.Bind bs cs)
    (hh : Attached id t ts scope g h) (hk : Adopted id (cs.map .node) h k) (shape : Shape) :
    k.below (ts ++ [t]) shape = ts.flatMap g.bodies ++ (cs.map .node ++ shape.children) := by
  have hbodies (t' : TableId) : k.bodies t' = g.bodies t' := by
    unfold bodies
    rw [bindingsOf_congr ?_ (hk.bindings.trans hh.bindings)]
    rw [hk.table?]
    exact hh.held t'
  unfold Forest.below
  rw [List.flatMap_congr fun t' _ => hbodies t', List.flatMap_append, List.flatMap_singleton,
    hb.bodies ht rfl, List.append_assoc]

theorem binding?_attached (hh : Attached id t ts scope g h) (hk : Adopted id (cs.map .node) h k)
    (b : BindingId) : k.binding? b = g.binding? b := by
  rw [hk.binding?]
  unfold binding?
  rw [hh.bindings]

theorem bound_attached (hlinked : g.LinkedNode id node ts) (ht : g.table? t = some ⟨bs, none, none⟩)
    (hb : g.Bind bs cs) (hh : Attached id t ts scope g h) (hk : Adopted id (cs.map .node) h k)
    {t' : TableId} (ht' : t' ∈ ts ++ [t]) {table : Table} (htable : k.table? t' = some table)
    {b : BindingId} (hmem : b ∈ table.bindings) : (k.binding? b).isSome := by
  rw [hk.table?] at htable
  have hheld := hh.held t'
  rw [htable, Option.map_some] at hheld
  obtain ⟨table', htable', heq⟩ := Option.map_eq_some_iff.1 hheld.symm
  rw [binding?_attached hh hk]
  rcases List.mem_append.1 ht' with ht' | ht'
  · exact hlinked.bound t' ht' table' htable' b (heq ▸ hmem)
  · rw [List.mem_singleton.1 ht', ht] at htable'
    cases htable'
    rw [← heq] at hmem
    exact hb.isSome b hmem

theorem linkedNode_scope (hlinked : g.LinkedNode id node ts) (hfree : g.Free (cs ++ [id]))
    (hlt : ∀ c ∈ cs, c.index < id.index) (ht : g.table? t = some ⟨bs, none, none⟩)
    (hb : g.Bind bs cs) (hh : Attached id t ts scope g h) (hk : Adopted id (cs.map .node) h k) :
    k.LinkedNode id { node with scope := scope } (ts ++ [t]) := by
  have hne {c : NodeId} (hc : c.index < id.index) : c ≠ id := fun heq => by
    rw [heq] at hc
    exact Nat.lt_irrefl _ hc
  refine ⟨hh.row.mono fun t' table htable _ => ?_,
    fun t' ht' table htable b hmem => bound_attached hlinked ht hb hh hk ht' htable hmem,
    fun ref href => ?_, ?_, hlinked.counted⟩
  · rw [hk.table?]
    exact htable
  · have hold : ref ∈ g.below ts node.shape ∨ ∃ c ∈ cs, .node c = ref := by
      rw [below_attached ht hb hh hk, List.mem_append, List.mem_append, List.mem_map] at href
      rcases href with href | href | href
      · exact Or.inl (List.mem_append_left _ href)
      · exact Or.inr href
      · exact Or.inl (List.mem_append_right _ href)
    rcases hold with href | ⟨c, hc, rfl⟩
    · obtain ⟨c, m, rfl, hc, hm, hparent⟩ := hlinked.below ref href
      obtain ⟨m', hm', hparent'⟩ := attached_child hh hk hm (hne hc) (Or.inr hparent)
      exact ⟨c, m', rfl, hc, hm', hparent'⟩
    · obtain ⟨m, hm, _⟩ := hfree.free c (List.mem_append_left _ hc)
      obtain ⟨m', hm', hparent'⟩ := attached_child hh hk hm (hne (hlt c hc)) (Or.inl hc)
      exact ⟨c, m', rfl, hlt c hc, hm', hparent'⟩
  · show (k.below (ts ++ [t]) node.shape).Nodup
    rw [below_attached ht hb hh hk]
    have hnodup : (cs.map Ref.node ++ g.below ts node.shape).Nodup := by
      refine List.nodup_append'.2 ⟨(List.nodup_append'.1 hfree.nodup).1.map node_injective,
        hlinked.nodup, fun ref href href' => ?_⟩
      obtain ⟨c, hc, rfl⟩ := List.mem_map.1 href
      obtain ⟨c', m, heq, _, hm, hparent⟩ := hlinked.below _ href'
      cases heq
      exact hfree.notMem hm hparent (List.mem_append_left _ hc)
    exact (List.perm_append_comm_assoc _ _ _).nodup_iff.1 hnodup

theorem table?_attached (ht : g.table? t = some ⟨bs, none, none⟩) (hh : Attached id t ts scope g h)
    (hk : Adopted id (cs.map .node) h k) {t' : TableId} {table : Table} {o : NodeId}
    (ht' : g.table? t' = some table) (howner : table.owner = some o) (hne : o ≠ id) :
    k.table? t' = some table := by
  rw [hk.table?]
  refine hh.others t' table ht' (fun heq => ?_) fun heq => ?_
  · rw [howner] at heq
    exact hne (Option.some.inj heq)
  · rw [heq, ht] at ht'
    cases ht'
    cases howner

/-- **A new table around a node.** -/
theorem planted_scope (hf : Planted f (cs ++ [id]) g) (hlt : ∀ c ∈ cs, c.index < id.index)
    (hnode : g.node? id = some node) (hlinked : g.LinkedNode id node ts)
    (ht : g.table? t = some ⟨bs, none, none⟩) (hb : g.Bind bs cs)
    (hh : Attached id t ts scope g h) (hk : Adopted id (g.bodies t) h k) : Planted f [id] k := by
  rw [hb.bodies ht rfl] at hk
  have hid : id ∉ cs := fun hmem => Nat.lt_irrefl _ (hlt id hmem)
  have hnew : f.nodes.size ≤ id.index := hf.new id (by simp)
  have hself := attached_self hh hk hnode hid
  have hkept {j : NodeId} {m : Node} (hm : g.node? j = some m) (hj : j ∉ cs ++ [id]) :
      k.node? j = some m := by
    rw [List.mem_append, List.mem_singleton, not_or] at hj
    exact attached_kept hh hk hm hj.2 hj.1
  have hlinked' : k.Linked := by
    intro j m' hm'
    by_cases hj : j = id
    · subst hj
      rw [hself] at hm'
      cases hm'
      exact ⟨ts ++ [t], linkedNode_scope hlinked hf.free hlt ht hb hh hk⟩
    · rw [hk.nodes, hh.nodes, if_neg hj] at hm'
      obtain ⟨m, hm, rfl⟩ := Option.map_eq_some_iff.1 hm'
      obtain ⟨ts', hts'⟩ := hf.linked j m hm
      refine ⟨ts', hts'.mono (shape_adoptedNode _ _ _ _) (scope_adoptedNode _ _ _ _) ?_ ?_ ?_⟩
      · intro t' table ht' howner
        exact table?_attached ht hh hk ht' howner hj
      · intro b x hx
        rw [binding?_attached hh hk]
        exact hx
      · intro c m' hm' hparent
        exact ⟨m', hkept hm' (hf.free.notMem hm' hparent), hparent⟩
  have hgrown : Grown f k := by
    refine ⟨?_, ?_, ?_, ?_⟩
    · rw [hk.size, hh.size]
      exact hf.grown.size
    · intro j m hm
      exact hkept (hf.grown.nodes j m hm) (hf.notMem hm)
    · intro t' table o ht' howner hlt'
      have hne : o ≠ id := fun heq => by
        rw [heq] at hlt'
        exact Nat.not_lt.2 hnew hlt'
      exact table?_attached ht hh hk (hf.grown.tables t' table o ht' howner hlt') howner hne
    · intro b x hx
      rw [binding?_attached hh hk]
      exact hf.grown.bindings b x hx
  refine ⟨hlinked', hgrown, ⟨List.nodup_singleton id, ?_⟩, ?_⟩
  · intro c hc
    rw [List.mem_singleton.1 hc]
    obtain ⟨m, hm, hfree⟩ := hf.free.free id (by simp)
    rw [hnode] at hm
    cases hm
    exact ⟨_, hself, hfree⟩
  · intro c hc
    rw [List.mem_singleton.1 hc]
    exact hnew

end

end Forest

/-! ## Planting -/

open Forest

variable {f g : Forest}

theorem grows_placeShape {shape : Shape} : Grows f (placeShape shape) fun id g =>
    id = ⟨f.nodes.size⟩ ∧ g = { f with nodes := f.nodes.push ⟨shape, none, none⟩ } := by
  unfold placeShape place
  refine grows_bind (grows_forest (Q := fun g h => g = f ∧ h = f) ⟨rfl, rfl⟩) ?_
  rintro _ f ⟨rfl, rfl⟩
  exact grows_bind (grows_change (Q := fun _ g => g = { f with nodes := f.nodes.push _ }) rfl)
    fun _ g hg => grows_pure ⟨rfl, hg⟩

theorem grows_leaf {shape : Shape} (hf : f.Linked) (hleaf : shape.children = [])
    (hcounted : shape.Counted) : Grows f (placeShape shape) fun id g => Planted f [id] g := by
  refine grows_mono grows_placeShape ?_
  rintro id g ⟨hid, rfl⟩
  refine planted_compound (.nil hf) hleaf hcounted hid ?_
  rw [hleaf]
  exact adopted_nil id _

theorem grows_shape (shape : Shape) : Grows g (do
      let id ← placeShape shape
      adoptAll id shape.children
      return id) fun id h => id = ⟨g.nodes.size⟩ ∧
        Adopted id shape.children { g with nodes := g.nodes.push ⟨shape, none, none⟩ } h := by
  refine grows_bind grows_placeShape ?_
  rintro id _ ⟨hid, rfl⟩
  exact grows_bind (grows_adoptAll id _) fun _ h hh => grows_pure ⟨hid, hh⟩

theorem grows_compound {cs : List NodeId} (shape : Shape) (hg : Planted f cs g)
    (hcs : shape.children = cs.map .node) (hcounted : shape.Counted) :
    Grows g (do
      let id ← placeShape shape
      adoptAll id shape.children
      return id) fun id h => Planted f [id] h :=
  grows_mono (grows_shape shape) fun _ _ ⟨hid, hh⟩ => planted_compound hg hcs hcounted hid hh

/-- the node of a call: a name that is not built in stays with it -/
def callShape (name : String) (operands : List Ref) : Shape :=
  .call (.ofName name) (if Operator.ofName name = .custom then some name else none) operands true

theorem counted_callShape (name : String) (operands : List Ref) :
    (callShape name operands).Counted := by
  unfold callShape
  cases Operator.ofName name with
  | custom => rfl
  | builtin b => rfl

theorem grows_call (name : String) (operands : List Ref) : Grows g (newCall name operands)
    fun id h => id = ⟨g.nodes.size⟩ ∧ Adopted id operands
      { g with nodes := g.nodes.push ⟨callShape name operands, none, none⟩ } h := by
  have hcall := grows_shape (g := g) (callShape name operands)
  unfold callShape at hcall ⊢
  unfold newCall
  rcases hop : Operator.ofName name with b | _
  · rw [hop] at hcall
    dsimp only
    refine grows_bind (P := fun _ h => h = g) (grows_lift fun _ _ => rfl) ?_
    rintro r g rfl
    split
    · refine grows_bind (P := fun _ h => h = g) (grows_remark rfl _) ?_
      rintro _ _ rfl
      exact hcall
    · exact hcall
  · rw [hop] at hcall
    exact hcall

theorem grows_newCall {cs : List NodeId} (name : String) (hg : Planted f cs g) :
    Grows g (newCall name (cs.map .node)) fun id h => Planted f [id] h :=
  grows_mono (grows_call name _) fun _ _ ⟨hid, hh⟩ =>
    planted_compound hg rfl (counted_callShape name _) hid hh

theorem grows_plantType (type : Option String) : Grows f (plantType type) fun kind g =>
    kind = type.bind Kind.ofName? ∧ g = f := by
  unfold plantType
  split
  · exact grows_pure ⟨rfl, rfl⟩
  · next name =>
    split
    · next kind hkind => exact grows_pure ⟨hkind.symm, rfl⟩
    · next hkind =>
      exact grows_bind (grows_remark (Q := fun _ g => g = f) rfl _) fun _ _ h =>
        grows_pure ⟨hkind.symm, h⟩

theorem grows_remarkAll (rs : List Remark) : Grows f (remarkAll rs) fun _ g => g = f := by
  induction rs generalizing f with
  | nil => exact grows_pure rfl
  | cons r rs ih =>
    refine grows_bind (grows_remark (Q := fun _ g => g = f) rfl r) ?_
    rintro _ g rfl
    exact ih

theorem planted_binding {ids : List NodeId} (hf : Planted f ids g) (binding : Binding) :
    Planted f ids { g with bindings := g.bindings.push binding } := by
  have hbindings (b : BindingId) (x : Binding) (hb : g.binding? b = some x) :
      ({ g with bindings := g.bindings.push binding } : Forest).binding? b = some x := by
    rw [binding?_push, if_neg (Nat.ne_of_lt (lt_of_binding? hb))]
    exact hb
  refine hf.step (fun id node hnode => ?_) ⟨Nat.le_refl _, fun _ _ hn => hn,
    fun _ _ _ ht _ _ => ht, hbindings⟩
  obtain ⟨ts, hts⟩ := hf.linked id node hnode
  exact ⟨ts, hts.mono rfl rfl (fun _ _ ht _ => ht) hbindings fun c m hm hc => ⟨m, hm, hc⟩⟩

theorem grows_bound (binding : Binding) : Grows g (placeBinding binding) fun b h =>
    b = ⟨g.bindings.size⟩ ∧ h = { g with bindings := g.bindings.push binding } := by
  unfold placeBinding
  refine grows_bind (grows_forest (Q := fun h k => h = g ∧ k = g) ⟨rfl, rfl⟩) ?_
  rintro _ g ⟨rfl, rfl⟩
  refine grows_bind (grows_change
    (Q := fun _ h => h = { g with bindings := g.bindings.push binding }) rfl) ?_
  rintro _ _ rfl
  exact grows_pure ⟨rfl, rfl⟩

theorem grows_placeBinding {c : NodeId} {binding : Binding} (hg : Planted f [c] g)
    (hbody : binding.body = .node c) :
    Grows g (placeBinding binding) fun b h => Planted f [c] h ∧ h.Bind [b] [c] := by
  refine grows_mono (grows_bound binding) ?_
  rintro b h ⟨rfl, rfl⟩
  refine ⟨planted_binding hg binding, .cons ⟨binding, ?_, hbody⟩ .nil⟩
  rw [binding?_push, if_pos rfl]

/-- what the new table of a scope is, and what it does to the node that it is attached to -/
def ScopeAdded (id : NodeId) (bs : List BindingId) (ts : List TableId) (g k : Forest) : Prop :=
  ∃ t h scope h', t = ⟨g.tables.size⟩ ∧ Filled t ⟨bs, none, none⟩ g h ∧
    Attached id t ts scope h h' ∧ Adopted id (h.bodies t) h' k

theorem grows_scope {id : NodeId} {node : Node} {ts : List TableId} {bs : List BindingId}
    (hnode : g.node? id = some node) (hrow : g.Row id node.scope ts)
    (hbs : ∀ b ∈ bs, (g.binding? b).isSome) :
    Grows g (plantScope id bs) fun _ k => bs = [] ∧ k = g ∨ bs ≠ [] ∧ ScopeAdded id bs ts g k := by
  unfold plantScope
  split
  · next hempty => exact grows_pure (Or.inl ⟨List.isEmpty_iff.1 hempty, rfl⟩)
  · next hne =>
    refine grows_bind (grows_newTable hbs) ?_
    rintro t h ⟨ht, hfilled⟩
    have hnode' : h.node? id = some node := (hfilled.node? id).trans hnode
    have hrow' : h.Row id node.scope ts :=
      hrow.mono fun _ _ htable _ => table?_filled ht hfilled htable
    refine grows_mono (grows_attach hnode' hrow' hfilled.table) ?_
    rintro _ k ⟨scope, h', hattached, hadopted⟩
    exact Or.inr ⟨fun heq => hne (List.isEmpty_iff.2 heq), t, h, scope, h', ht, hfilled, hattached,
      hadopted⟩

theorem grows_plantScope {cs : List NodeId} {id : NodeId} {bs : List BindingId}
    (hg : Planted f (cs ++ [id]) g) (hlt : ∀ c ∈ cs, c.index < id.index) (hb : g.Bind bs cs) :
    Grows g (plantScope id bs) fun _ h => Planted f [id] h := by
  obtain ⟨node, hnode, _⟩ := hg.free.free id (by simp)
  obtain ⟨ts, hts⟩ := hg.linked id node hnode
  refine grows_mono (grows_scope hnode hts.row hb.isSome) ?_
  rintro _ k (⟨rfl, rfl⟩ | ⟨_, t, h, scope, h', ht, hfilled, hattached, hadopted⟩)
  · cases hb
    exact hg
  · have hh := planted_table hg ht hfilled
    have hb' : h.Bind bs cs := hb.mono fun b x hx => by
      rw [hfilled.binding?]
      exact hx
    have hnode' : h.node? id = some node := (hfilled.node? id).trans hnode
    obtain ⟨ts', hts'⟩ := hh.linked id node hnode'
    have hsame : ts' = ts := by
      rw [← hts'.tablesOf]
      exact (hts.row.mono fun _ _ htable _ => table?_filled ht hfilled htable).tablesFrom
    rw [hsame] at hts'
    exact planted_scope hh hlt hnode' hts' hfilled.table hb' hattached hadopted

mutual

/-- **The node of a form is new and free.** -/
theorem grows_plantForm {f : Forest} (form : Form) (hf : f.Linked) :
    Grows f (plantForm form) fun id g => Planted f [id] g := by
  match form with
  | .numeral kind text => exact grows_leaf hf rfl trivial
  | .symbol name => exact grows_leaf hf rfl trivial
  | .call name operands =>
    unfold plantForm
    exact grows_bind (grows_plantForms operands hf) fun cs g hg => grows_newCall name hg
  | .choice test ifTrue ifFalse =>
    unfold plantForm
    refine grows_bind (grows_plantForm test hf) ?_
    intro a g hg
    refine grows_bind (grows_plantForm ifTrue hg.linked) ?_
    intro b h hh
    refine grows_bind (grows_plantForm ifFalse hh.linked) ?_
    intro c k hk
    exact grows_compound (.choice (.node a) (.node b) (.node c))
      ((hg.append hh).append hk) rfl trivial
  | .scoped definitions body =>
    unfold plantForm
    refine grows_bind (grows_plantDefinitions definitions hf) ?_
    intro bs g hg
    obtain ⟨cs, hg, hb⟩ := hg
    refine grows_bind (grows_plantForm body hg.linked) ?_
    intro id h hh
    refine grows_bind (grows_plantScope (hg.append hh) (fun c hc => ?_)
      (hb.mono hh.grown.bindings)) fun _ k hk => grows_pure hk
    obtain ⟨m, hm, _⟩ := hg.free.free c hc
    exact Nat.lt_of_lt_of_le (lt_of_node? hm) (hh.new id (List.mem_singleton_self id))

theorem grows_plantForms {f : Forest} (forms : List Form) (hf : f.Linked) :
    Grows f (plantForms forms) fun ids g => Planted f ids g := by
  cases forms with
  | nil => exact grows_pure (.nil hf)
  | cons form rest =>
    unfold plantForms
    refine grows_bind (grows_plantForm form hf) ?_
    intro id g hg
    exact grows_bind (grows_plantForms rest hg.linked) fun ids h hh => grows_pure (hg.append hh)

theorem grows_plantDefinition {f : Forest} (definition : Definition) (hf : f.Linked) :
    Grows f (plantDefinition definition) fun b g => ∃ c, Planted f [c] g ∧ g.Bind [b] [c] := by
  cases definition with
  | value name body type =>
    unfold plantDefinition
    refine grows_bind (grows_plantForm body hf) ?_
    intro c g hg
    refine grows_bind (grows_plantType type) ?_
    rintro kind g ⟨_, rfl⟩
    exact grows_mono (grows_placeBinding hg rfl) fun b h hh => ⟨c, hh⟩
  | function name parameters body type =>
    unfold plantDefinition
    refine grows_bind (grows_plantForm body hf) ?_
    intro c g hg
    refine grows_bind (grows_plantType type) ?_
    rintro kind g ⟨_, rfl⟩
    refine grows_bind (grows_remarkAll _) ?_
    rintro _ g rfl
    exact grows_mono (grows_placeBinding hg rfl) fun b h hh => ⟨c, hh⟩

theorem grows_plantDefinitions {f : Forest} (definitions : List Definition) (hf : f.Linked) :
    Grows f (plantDefinitions definitions) fun bs g => ∃ cs, Planted f cs g ∧ g.Bind bs cs := by
  cases definitions with
  | nil => exact grows_pure ⟨[], .nil hf, .nil⟩
  | cons definition rest =>
    unfold plantDefinitions
    refine grows_bind (grows_plantDefinition definition hf) ?_
    rintro b g ⟨c, hg, hb⟩
    refine grows_bind (grows_plantDefinitions rest hg.linked) ?_
    rintro bs h ⟨cs, hh, hbs⟩
    refine grows_pure ⟨c :: cs, hg.append hh, ?_⟩
    obtain ⟨hb, _⟩ := List.forall₂_cons.1 (hb.mono hh.grown.bindings)
    exact .cons hb hbs

end

/-! ## Sources -/

theorem linked_empty : Forest.empty.Linked := fun _ _ hnode => by cases hnode

/-- **The forest of a source that is accepted**, and the node of the source in it -/
def Sown (source : String) (root : NodeId) (f : Forest) : Prop :=
  ∃ remarks, (plantSource source).run.run ⟨.empty, []⟩ = (.ok root, ⟨f, remarks⟩)

namespace Sown

variable {source : String} {id : NodeId}

theorem planted (h : Sown source id f) : Planted .empty [id] f := by
  obtain ⟨remarks, hrun⟩ := h
  have hgrows : Grows .empty (plantSource source) fun id g => Planted .empty [id] g := by
    unfold plantSource
    refine grows_bind (P := fun _ g => g = .empty) (grows_lift fun _ _ => rfl) ?_
    rintro form g rfl
    exact grows_plantForm form linked_empty
  exact hgrows [] id _ hrun

/-- **The forest of a source is linked.** -/
theorem linked (h : Sown source id f) : f.Linked := h.planted.linked

theorem root (h : Sown source id f) : ∃ node, f.node? id = some node ∧ node.parent = none :=
  h.planted.free.free id (List.mem_singleton_self id)

end Sown

end Abacus
