import Abacus.Proofs.Forest.Chains
import Abacus.Proofs.Source.Housing
import Abacus.Proofs.Syntax
import Mathlib.Logic.Relation

/-!
# The links of a source

The nodes of a source make one tree: every node but the root is in just one place, and knows the
node of that place; every table is in just one chain, that of the node which it knows.  The chain of
a node has the tables of the scopes around one expression, the innermost first.

* `Form.scopes`, `Form.parts`   the scopes around an expression, and the forms directly inside;
* `scopes_of_stands`            the chain of a node has the tables of the scopes;
* `below_of_whole`              the nodes directly below a node stand for the parts of its form;
* `Forest.WellLinked`           nodes and tables that make one tree;
* `well_linked`                 **the nodes of a source make one tree**.
-/

namespace Abacus

open Forest

/-! ## Scopes and parts -/

namespace Form

/-- **The scopes around one expression**, the innermost first -/
def scopes : Form → List (List Definition)
  | .scoped [] body => body.scopes
  | .scoped (d :: ds) body => body.scopes ++ [d :: ds]
  | _ => []

/-- the operands or branches of the expression inside the scopes -/
def branches : Form → List Form
  | .call _ operands => operands
  | .choice test ifTrue ifFalse => [test, ifTrue, ifFalse]
  | .scoped _ body => body.branches
  | _ => []

/-- the forms directly inside a form: those of its definitions, and its operands or branches -/
def parts (form : Form) : List Form :=
  form.scopes.flatten.map Definition.body ++ form.branches

def HasPart (form part : Form) : Prop := part ∈ form.parts

end Form

def ServesScope (f : Forest) (id : NodeId) (t : TableId) (ds : List Definition) : Prop :=
  ∃ table, f.table? t = some table ∧ List.Forall₂ (Binds f id) table.bindings ds

section
variable {f : Forest} {id : NodeId} {ts : List TableId}

/-- **The tables of a node are those of the scopes**, innermost first. -/
theorem scopes_of_stands (form : Form) (h : Stands f id ts form) :
    List.Forall₂ (ServesScope f id) ts form.scopes := by
  induction form using Form.bodyInduction generalizing ts with
  | numeral kind text =>
    obtain ⟨rfl, _⟩ := h
    exact .nil
  | symbol name =>
    obtain ⟨rfl, _⟩ := h
    exact .nil
  | call name operands =>
    obtain ⟨rfl, _⟩ := h
    exact .nil
  | choice test ifTrue ifFalse =>
    obtain ⟨rfl, _⟩ := h
    exact .nil
  | scope definitions body ih =>
    rcases h with ⟨rfl, hbody⟩ | ⟨hne, inner, t, table, rfl, hbody, htable, hall⟩
    · exact ih hbody
    · obtain ⟨d, ds, rfl⟩ := List.exists_cons_of_ne_nil hne
      refine List.rel_append (ih hbody) ?_
      exact .cons ⟨table, htable, bindAll_iff.1 hall⟩ .nil

/-- the children of a node stand for the operands or branches of its form -/
theorem branches_of_stands {shape : Shape} (hshape : f.shape? id = some shape) (form : Form)
    (h : Stands f id ts form) :
    ∃ cs : List NodeId, shape.children = cs.map .node ∧ List.Forall₂ f.Whole cs form.branches := by
  induction form using Form.bodyInduction generalizing ts with
  | numeral kind text =>
    rw [Stands, hshape] at h
    obtain ⟨_, hnumber⟩ := h
    cases hnumber
    exact ⟨[], rfl, .nil⟩
  | symbol name =>
    rw [Stands, hshape] at h
    obtain ⟨_, hsymbol⟩ := h
    cases hsymbol
    exact ⟨[], rfl, .nil⟩
  | call name operands =>
    rw [Stands, hshape] at h
    obtain ⟨_, ids, hcall, _, hall⟩ := h
    cases hcall
    exact ⟨ids, rfl, standAll_iff.1 hall⟩
  | choice test ifTrue ifFalse =>
    rw [Stands, hshape] at h
    obtain ⟨_, a, b, c, hchoice, _, ha, hb, hc⟩ := h
    cases hchoice
    exact ⟨[a, b, c], rfl, .cons ha (.cons hb (.cons hc .nil))⟩
  | scope definitions body ih =>
    rcases h with ⟨_, hbody⟩ | ⟨_, inner, t, table, _, hbody, _⟩
    · exact ih hbody
    · exact ih hbody

theorem body_of_binds {b : BindingId} {d : Definition} (h : Binds f id b d) :
    ∃ x c, f.binding? b = some x ∧ x.body = .node c ∧ f.Whole c d.body := by
  cases d with
  | value name body type =>
    obtain ⟨c, hb, _, hc⟩ := h
    exact ⟨_, c, hb, rfl, hc⟩
  | function name parameters body type =>
    obtain ⟨c, hb, _, hc⟩ := h
    exact ⟨_, c, hb, rfl, hc⟩

theorem bind_of_binds {bs : List BindingId} {ds : List Definition}
    (h : List.Forall₂ (Binds f id) bs ds) :
    ∃ cs, f.Bind bs cs ∧ List.Forall₂ f.Whole cs (ds.map Definition.body) := by
  induction h with
  | nil => exact ⟨[], .nil, .nil⟩
  | cons hb _ ih =>
    obtain ⟨x, c, hx, hbody, hc⟩ := body_of_binds hb
    obtain ⟨cs, hbs, hcs⟩ := ih
    exact ⟨c :: cs, .cons ⟨x, hx, hbody⟩ hbs, .cons hc hcs⟩

theorem bodies_of_scopes {dss : List (List Definition)}
    (h : List.Forall₂ (ServesScope f id) ts dss) :
    ∃ cs : List NodeId, ts.flatMap f.bodies = cs.map .node ∧
      List.Forall₂ f.Whole cs (dss.flatten.map Definition.body) := by
  induction h with
  | nil => exact ⟨[], rfl, .nil⟩
  | cons ht _ ih =>
    obtain ⟨table, htable, hall⟩ := ht
    obtain ⟨cs, hbs, hcs⟩ := bind_of_binds hall
    obtain ⟨rest, hrest, hwhole⟩ := ih
    refine ⟨cs ++ rest, ?_, ?_⟩
    · rw [List.flatMap_cons, hbs.bodies htable rfl, hrest, List.map_append]
    · rw [List.flatten_cons, List.map_append]
      exact List.rel_append hcs hwhole

/-- **The nodes directly below a node stand for the parts of its form**, in their order. -/
theorem below_of_whole {form : Form} {node : Node} (hnode : f.node? id = some node)
    (h : f.Whole id form) : List.Forall₂ (ServesScope f id) (f.tablesOf node) form.scopes ∧
      ∃ cs : List NodeId, f.below (f.tablesOf node) node.shape = cs.map .node ∧
        List.Forall₂ f.Whole cs form.parts := by
  obtain ⟨node', ts, hnode', hrow, hstands⟩ := h
  rw [hnode, Option.some.injEq] at hnode'
  subst hnode'
  rw [show f.tablesOf node = ts from hrow.tablesFrom]
  have hshape : f.shape? id = some node.shape := by rw [Forest.shape?, hnode, Option.map_some]
  have hscopes := scopes_of_stands form hstands
  obtain ⟨cs, hbodies, hcs⟩ := bodies_of_scopes hscopes
  obtain ⟨ds, hchildren, hds⟩ := branches_of_stands hshape form hstands
  refine ⟨hscopes, cs ++ ds, ?_, List.rel_append hcs hds⟩
  rw [Forest.below, hbodies, hchildren, List.map_append]

end

/-! ## Nodes and tables that make one tree -/

namespace Forest

def ids (f : Forest) : List NodeId := (List.range f.nodes.size).map NodeId.mk

def tableIds (f : Forest) : List TableId := (List.range f.tables.size).map TableId.mk

/-- what is in the places of a node: what is bound in its tables, and its operands or branches -/
def belowOf (f : Forest) (id : NodeId) : List Ref :=
  match f.node? id with
  | some node => f.below (f.tablesOf node) node.shape
  | none => []

def chainOf (f : Forest) (id : NodeId) : List TableId :=
  match f.node? id with
  | some node => f.tablesOf node
  | none => []

def HasBelow (f : Forest) (id c : NodeId) : Prop := .node c ∈ f.belowOf id

def Around (f : Forest) (c id : NodeId) : Prop := ∃ m, f.node? c = some m ∧ m.parent = some id

/-- **Nodes and tables that make one tree.** -/
structure WellLinked (f : Forest) (root : NodeId) : Prop where
  top : ∃ node, f.node? root = some node ∧ node.parent = none
  /-- every node but the root is in just one place, and there is nothing else in any -/
  places : (f.ids.flatMap f.belowOf).Perm ((f.ids.erase root).map .node)
  /-- a node knows the node in whose place it is -/
  parents : ∀ id c, f.HasBelow id c → f.Around c id
  /-- every table is in just one chain, once -/
  chains : (f.ids.flatMap f.chainOf).Perm f.tableIds
  /-- a table knows the node in whose chain it is -/
  owners : ∀ id, ∀ t ∈ f.chainOf id, ∃ table, f.table? t = some table ∧ table.owner = some id
  /-- the chain is all there is from the first table of a node outward -/
  ends : ∀ id node, f.node? id = some node → f.chain? node.scope = some (f.chainOf id)
  /-- every node is reached from the root, going from nodes to their places -/
  reached : ∀ id ∈ f.ids, Relation.ReflTransGen f.HasBelow root id
  /-- going from any node to that around it, and so on, ends at the root -/
  rooted : ∀ id ∈ f.ids, Relation.ReflTransGen f.Around id root

section
variable {f : Forest} {id root : NodeId}

theorem mem_ids : id ∈ f.ids ↔ (f.node? id).isSome := by
  obtain ⟨i⟩ := id
  simp [ids, node?]

theorem mem_tableIds {t : TableId} : t ∈ f.tableIds ↔ (f.table? t).isSome := by
  obtain ⟨i⟩ := t
  simp [tableIds, table?]

theorem nodup_ids (f : Forest) : f.ids.Nodup :=
  List.nodup_range.map fun _ _ h => NodeId.mk.inj h

theorem nodup_tableIds (f : Forest) : f.tableIds.Nodup :=
  List.nodup_range.map fun _ _ h => TableId.mk.inj h

theorem belowOf_eq {node : Node} (hnode : f.node? id = some node) :
    f.belowOf id = f.below (f.tablesOf node) node.shape := by
  rw [belowOf, hnode]

theorem chainOf_eq {node : Node} (hnode : f.node? id = some node) :
    f.chainOf id = f.tablesOf node := by
  rw [chainOf, hnode]

/-- what is in a place of a linked forest is a node made before that of the place, which it knows -/
theorem Linked.mem_belowOf (hf : f.Linked) {ref : Ref} (href : ref ∈ f.belowOf id) :
    ∃ c, ref = .node c ∧ f.Around c id ∧ c.index < id.index ∧ (f.node? id).isSome := by
  unfold belowOf at href
  split at href
  · next node hnode =>
    obtain ⟨c, m, rfl, hlt, hm, hparent⟩ := (hf.linkedNode hnode).below ref href
    exact ⟨c, rfl, ⟨m, hm, hparent⟩, hlt, by rw [hnode]; rfl⟩
  · cases href

theorem Linked.mem_chainOf (hf : f.Linked) {t : TableId} (ht : t ∈ f.chainOf id) :
    ∃ table, f.table? t = some table ∧ table.owner = some id := by
  unfold chainOf at ht
  split at ht
  · next node hnode => exact (hf.linkedNode hnode).row.table ht
  · cases ht

theorem Around.unique {c id id' : NodeId} (h : f.Around c id) (h' : f.Around c id') : id = id' := by
  obtain ⟨m, hm, hparent⟩ := h
  obtain ⟨m', hm', hparent'⟩ := h'
  rw [hm, Option.some.injEq] at hm'
  rw [← hm', hparent, Option.some.injEq] at hparent'
  exact hparent'

/-- **No node is in two places** of a linked forest. -/
theorem Linked.nodup_places (hf : f.Linked) : (f.ids.flatMap f.belowOf).Nodup := by
  refine List.nodup_flatMap.2 ⟨?_, ?_⟩
  · intro id hid
    obtain ⟨node, hnode⟩ := Option.isSome_iff_exists.1 (mem_ids.1 hid)
    rw [belowOf_eq hnode]
    exact (hf.linkedNode hnode).nodup
  · refine f.nodup_ids.pairwise_of_forall_ne ?_
    intro id _ id' _ hne ref href href'
    obtain ⟨c, rfl, haround, _⟩ := hf.mem_belowOf href
    obtain ⟨c', heq, haround', _⟩ := hf.mem_belowOf href'
    cases heq
    exact hne (haround.unique haround')

/-- **No table is in two chains** of a linked forest, and none is there twice. -/
theorem Linked.nodup_chains (hf : f.Linked) : (f.ids.flatMap f.chainOf).Nodup := by
  refine List.nodup_flatMap.2 ⟨?_, ?_⟩
  · intro id hid
    obtain ⟨node, hnode⟩ := Option.isSome_iff_exists.1 (mem_ids.1 hid)
    rw [chainOf_eq hnode]
    exact (hf.linkedNode hnode).row.nodup
  · refine f.nodup_ids.pairwise_of_forall_ne ?_
    intro id _ id' _ hne t ht ht'
    obtain ⟨table, htable, howner⟩ := hf.mem_chainOf ht
    obtain ⟨table', htable', howner'⟩ := hf.mem_chainOf ht'
    rw [htable, Option.some.injEq] at htable'
    rw [← htable', howner, Option.some.injEq] at howner'
    exact hne howner'

/-- a node that waits for none is in a place of another one -/
theorem Housed.place {waiting : List NodeId} (hf : f.Linked) (hhoused : f.Housed waiting)
    (hid : id ∈ f.ids) (hwaiting : id ∉ waiting) : ∃ p ∈ f.ids, f.HasBelow p id := by
  obtain ⟨p, ts, refs, hhome, hmem⟩ := hhoused.node id (mem_ids.1 hid) hwaiting
  obtain ⟨node, hlinked, hnode, rfl⟩ := hf.home hhome
  refine ⟨p, mem_ids.2 (by rw [hnode]; rfl), ?_⟩
  rwa [HasBelow, belowOf_eq hnode, hlinked.tablesOf]

theorem Housed.chain {waiting : List NodeId} {t : TableId} (hhoused : f.Housed waiting)
    (ht : t ∈ f.tableIds) : ∃ id ∈ f.ids, t ∈ f.chainOf id := by
  obtain ⟨id, ts, refs, ⟨node, hnode, hrow, _⟩, hmem⟩ := hhoused.table t (mem_tableIds.1 ht)
  refine ⟨id, mem_ids.2 (by rw [hnode]; rfl), ?_⟩
  rwa [chainOf_eq hnode, tablesOf, hrow.tablesFrom]

/-- **Induction from the root downward**: what holds of a node passes on to those in its places. The
places are reached from a node upward, where the numbers of nodes grow. -/
theorem Housed.induction (hf : f.Linked) (hhoused : f.Housed [root]) {P : NodeId → Prop}
    (top : P root) (down : ∀ p c, P p → f.HasBelow p c → P c) : ∀ id ∈ f.ids, P id := by
  intro id hid
  induction hn : f.nodes.size - id.index using Nat.strongRecOn generalizing id with
  | ind n ih =>
    by_cases hroot : id = root
    · rw [hroot]
      exact top
    · obtain ⟨p, hp, hmem⟩ := hhoused.place hf hid (by simpa using hroot)
      obtain ⟨c, heq, _, hlt, _⟩ := hf.mem_belowOf hmem
      cases heq
      obtain ⟨node, hnode⟩ := Option.isSome_iff_exists.1 (mem_ids.1 hp)
      have hbound : p.index < f.nodes.size := lt_of_node? hnode
      exact down p id (ih _ (by omega) p hp rfl) hmem

/-- **Nodes that all have places but for one make one tree.** -/
theorem Housed.wellLinked (hf : f.Linked) (hhoused : f.Housed [root])
    (htop : ∃ node, f.node? root = some node ∧ node.parent = none) : f.WellLinked root where
  top := htop
  places := by
    refine (List.perm_ext_iff_of_nodup hf.nodup_places
      ((f.nodup_ids.erase root).map node_injective)).2 ?_
    intro ref
    rw [List.mem_flatMap, List.mem_map]
    constructor
    · rintro ⟨id, _, hmem⟩
      obtain ⟨c, rfl, ⟨m, hm, hparent⟩, _⟩ := hf.mem_belowOf hmem
      refine ⟨c, f.nodup_ids.mem_erase_iff.2 ⟨?_, mem_ids.2 (by rw [hm]; rfl)⟩, rfl⟩
      rintro rfl
      obtain ⟨node, hnode, hnone⟩ := htop
      rw [hm, Option.some.injEq] at hnode
      rw [hnode, hnone] at hparent
      cases hparent
    · rintro ⟨c, hc, rfl⟩
      obtain ⟨hne, hc⟩ := f.nodup_ids.mem_erase_iff.1 hc
      exact hhoused.place hf hc (by simpa using hne)
  parents id c hmem := by
    obtain ⟨c', heq, haround, _⟩ := hf.mem_belowOf hmem
    cases heq
    exact haround
  chains := by
    refine (List.perm_ext_iff_of_nodup hf.nodup_chains f.nodup_tableIds).2 ?_
    intro t
    rw [List.mem_flatMap]
    constructor
    · rintro ⟨id, _, hmem⟩
      obtain ⟨table, htable, _⟩ := hf.mem_chainOf hmem
      exact mem_tableIds.2 (by rw [htable]; rfl)
    · exact hhoused.chain
  owners id t ht := hf.mem_chainOf ht
  ends id node hnode := by
    rw [chainOf_eq hnode]
    exact chain?_eq_some_iff.2 (hf.linkedNode hnode).row.chain
  reached := hhoused.induction hf .refl fun _ _ hp hmem => hp.tail hmem
  rooted := by
    refine hhoused.induction hf .refl ?_
    intro p c hp hmem
    obtain ⟨c', heq, haround, _⟩ := hf.mem_belowOf hmem
    cases heq
    exact .head haround hp

end

end Forest

/-! ## Sources -/

section
variable {source : String} {root : NodeId} {f : Forest}

theorem Sown.whole (h : Sown source root f) : ∃ form : Form, form.Proper ∧
    Spelled EndGap form.terminals source.toList ∧ f.Whole root form := by
  obtain ⟨remarks, hrun⟩ := h
  rcases hparse : parseForm source.toList with e | form
  · rw [plantSource_error hparse] at hrun
    cases hrun
  · obtain ⟨hproper, hspelled⟩ := parseForm_eq_ok_iff.1 hparse
    rw [plantSource_ok hparse] at hrun
    obtain ⟨hwhole, _⟩ := grows_form.1 form .empty linked_empty [] root _ hrun
    exact ⟨form, hproper, hspelled, hwhole⟩

/-- **Every node of a source stands for a form in it.** -/
theorem Sown.stands (h : Sown source root f) {form : Form} (hwhole : f.Whole root form) :
    ∀ id ∈ f.ids, ∃ part, Relation.ReflTransGen Form.HasPart form part ∧ f.Whole id part := by
  refine h.housed.induction h.linked ⟨form, .refl, hwhole⟩ ?_
  rintro p c ⟨part, hpart, hp⟩ hmem
  have ⟨node, _, hnode, _⟩ := hp
  obtain ⟨_, cs, hbelow, hcs⟩ := below_of_whole hnode hp
  rw [HasBelow, belowOf_eq hnode, hbelow, List.mem_map_of_injective node_injective] at hmem
  obtain ⟨part', hpart', hc⟩ := mem_of_forall₂ hcs hmem
  exact ⟨part', hpart.tail hpart', hc⟩

end

/-- **The nodes of a source make one tree**, and every node stands for a form of the derivation of
the source: its chain has the tables of the scopes around one expression, innermost first. -/
theorem well_linked {source : String} {root : NodeId} {f : Forest} (h : Sown source root f) :
    f.WellLinked root ∧ ∃ form : Form, form.Proper ∧
      Spelled EndGap form.terminals source.toList ∧ f.Whole root form ∧
      ∀ id ∈ f.ids, ∃ part, Relation.ReflTransGen Form.HasPart form part ∧ f.Whole id part ∧
        List.Forall₂ (ServesScope f id) (f.chainOf id) part.scopes := by
  refine ⟨h.housed.wellLinked h.linked h.root, ?_⟩
  obtain ⟨form, hproper, hspelled, hwhole⟩ := h.whole
  refine ⟨form, hproper, hspelled, hwhole, ?_⟩
  intro id hid
  obtain ⟨part, hpart, hid'⟩ := h.stands hwhole id hid
  obtain ⟨node, hnode⟩ := Option.isSome_iff_exists.1 (mem_ids.1 hid)
  refine ⟨part, hpart, hid', ?_⟩
  rw [chainOf_eq hnode]
  exact (below_of_whole hnode hid').1

/-- two scopes around one call -/
def nestedSource : String := "(let ((x z)) (let ((y x)) (add x y)))"

def nestedForest : Forest where
  nodes := #[⟨.symbol "z", none, some ⟨4⟩⟩, ⟨.symbol "x", none, some ⟨4⟩⟩,
    ⟨.symbol "x", none, some ⟨4⟩⟩, ⟨.symbol "y", none, some ⟨4⟩⟩,
    ⟨.call (.builtin .add) none [.node ⟨2⟩, .node ⟨3⟩] true, some ⟨0⟩, none⟩]
  tables := #[⟨[⟨1⟩], some ⟨1⟩, some ⟨4⟩⟩, ⟨[⟨0⟩], none, some ⟨4⟩⟩]
  bindings := #[⟨"x", none, .node ⟨0⟩, .value⟩, ⟨"y", none, .node ⟨1⟩, .value⟩]

theorem parse_nested : parseForm nestedSource.toList
    = .ok (.scoped [.value "x" (.symbol "z") none] (.scoped [.value "y" (.symbol "x") none]
      (.call "add" [.symbol "x", .symbol "y"]))) := by
  with_unfolding_all rfl

theorem sown_nested : Sown nestedSource ⟨4⟩ nestedForest := by
  refine ⟨[], ?_⟩
  unfold plantSource
  rw [parse_nested]
  rfl

/-- the table of the inner scope comes before that of the outer one -/
theorem well_linked_nested : Sown nestedSource ⟨4⟩ nestedForest ∧
    nestedForest.chainOf ⟨4⟩ = [⟨0⟩, ⟨1⟩] ∧ nestedForest.idents ⟨0⟩ = ["y"] ∧
    nestedForest.WellLinked ⟨4⟩ ∧ ∃ form : Form, form.Proper ∧
      Spelled EndGap form.terminals nestedSource.toList ∧ nestedForest.Whole ⟨4⟩ form ∧
      ∀ id ∈ nestedForest.ids, ∃ part, Relation.ReflTransGen Form.HasPart form part ∧
        nestedForest.Whole id part ∧
        List.Forall₂ (ServesScope nestedForest id) (nestedForest.chainOf id) part.scopes :=
  ⟨sown_nested, rfl, rfl, well_linked sown_nested⟩

end Abacus
