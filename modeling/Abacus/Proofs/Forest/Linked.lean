import Abacus.Forest.Lookup
import Mathlib.Data.List.Nodup
import Mathlib.Data.List.Pairwise

/-!
# Linked forests

In a forest whose nodes are linked, the nodes around a node can be read off from below: a part of a
node and a node bound in one of its tables have that node as their parent, and no node stands below
another one in two places.

* `Forest.Row`         the tables of a node, from one on outward;
* `Forest.below`       everything directly below a node;
* `Forest.Linked`      every node is linked to what is directly below it;
* `Linked.child`, `Linked.body`   what is known of a part, and of a bound node, from below.
-/

namespace Abacus

namespace Forest

variable {f : Forest} {owner : NodeId} {start : Option TableId} {ts : List TableId}

/-! ## Rows of tables -/

theorem length_le_of_nodup (hnodup : ts.Nodup) (hts : ∀ t ∈ ts, (f.table? t).isSome) :
    ts.length ≤ f.tables.size := by
  have hsub : ts.map TableId.index ⊆ List.range f.tables.size := by
    intro i hi
    obtain ⟨t, ht, rfl⟩ := List.mem_map.1 hi
    obtain ⟨table, htable⟩ := Option.isSome_iff_exists.1 (hts t ht)
    obtain ⟨hlt, _⟩ := Array.getElem?_eq_some_iff.1 htable
    exact List.mem_range.2 hlt
  have hinj : Function.Injective TableId.index := fun a b hab => by
    cases a
    cases b
    exact congrArg TableId.mk hab
  have hle := (hnodup.map hinj).length_le_of_subset hsub
  rwa [List.length_map, List.length_range] at hle

inductive Row (f : Forest) (owner : NodeId) : Option TableId → List TableId → Prop
  | nil : Row f owner none []
  | cons {t : TableId} {ts : List TableId} {table : Table} : f.table? t = some table →
      table.owner = some owner → t ∉ ts → Row f owner table.enclosing ts →
      Row f owner (some t) (t :: ts)

namespace Row

theorem nodup (h : Row f owner start ts) : ts.Nodup := by
  induction h with
  | nil => exact List.nodup_nil
  | cons _ _ hnot _ ih => exact List.nodup_cons.2 ⟨hnot, ih⟩

theorem table (h : Row f owner start ts) {t : TableId} (ht : t ∈ ts) :
    ∃ table, f.table? t = some table ∧ table.owner = some owner := by
  induction h with
  | nil => cases ht
  | cons htable howner _ _ ih =>
    rcases List.mem_cons.1 ht with rfl | ht
    · exact ⟨_, htable, howner⟩
    · exact ih ht

theorem length_le (h : Row f owner start ts) : ts.length ≤ f.tables.size := by
  refine length_le_of_nodup h.nodup ?_
  intro t ht
  obtain ⟨table, htable, _⟩ := h.table ht
  exact Option.isSome_iff_exists.2 ⟨table, htable⟩

theorem tablesUpTo (h : Row f owner start ts) {count : Nat} (hcount : ts.length ≤ count) :
    f.tablesUpTo count start = ts := by
  induction h generalizing count with
  | nil => cases count <;> rfl
  | cons htable _ _ _ ih =>
    cases count with
    | zero => cases hcount
    | succ count =>
      rw [Forest.tablesUpTo, htable, Option.bind_some, ih (Nat.le_of_succ_le_succ hcount)]

theorem tablesFrom (h : Row f owner start ts) : f.tablesFrom start = ts := h.tablesUpTo h.length_le

theorem drop {inner outer : List TableId} {t : TableId}
    (h : Row f owner start (inner ++ t :: outer)) : Row f owner (some t) (t :: outer) := by
  induction inner generalizing start with
  | nil =>
    cases h with
    | cons htable howner hnot hrow => exact .cons htable howner hnot hrow
  | cons s inner ih =>
    cases h with
    | cons _ _ _ hrow => exact ih hrow

end Row

/-! ## What is directly below a node -/

def bodies (f : Forest) (t : TableId) : List Ref := (f.bindingsOf t).map (·.2.body)

/-- everything directly below a node with some tables: its bound nodes and its parts -/
def below (f : Forest) (ts : List TableId) (shape : Shape) : List Ref :=
  ts.flatMap f.bodies ++ shape.children

theorem mem_bodies {t : TableId} {bid : BindingId} {b : Binding} (h : (bid, b) ∈ f.bindingsOf t) :
    b.body ∈ f.bodies t :=
  List.mem_map.2 ⟨(bid, b), h, rfl⟩

theorem mem_below_child {shape : Shape} {ref : Ref} (h : ref ∈ shape.children) :
    ref ∈ f.below ts shape :=
  List.mem_append_right _ h

theorem mem_below_body {shape : Shape} {t : TableId} {ref : Ref} (ht : t ∈ ts)
    (h : ref ∈ f.bodies t) : ref ∈ f.below ts shape :=
  List.mem_append_left _ (List.mem_flatMap.2 ⟨t, ht, h⟩)

theorem any_body_iff {t : TableId} {c : NodeId} :
    (f.bindingsOf t).any (·.2.body == .node c) = true ↔ Ref.node c ∈ f.bodies t := by
  simp [bodies, List.any_eq_true]

/-! ## Linked nodes -/

end Forest

/-- a call whose operands were counted when it was made, with a name if it is one of a function -/
def Shape.Counted : Shape → Prop
  | .call .custom none _ _ => False
  | .call _ _ _ checked => checked = true
  | _ => True

namespace Forest

variable {f : Forest} {id : NodeId} {node : Node} {ts : List TableId}

/-- **A node is linked to what is directly below it.** -/
structure LinkedNode (f : Forest) (id : NodeId) (node : Node) (ts : List TableId) : Prop where
  row : f.Row id node.scope ts
  bound : ∀ t ∈ ts, ∀ table, f.table? t = some table → ∀ b ∈ table.bindings, (f.binding? b).isSome
  below : ∀ ref ∈ f.below ts node.shape, ∃ c m, ref = .node c ∧ c.index < id.index ∧
    f.node? c = some m ∧ m.parent = some id
  nodup : (f.below ts node.shape).Nodup
  counted : node.shape.Counted

/-- **Every node is linked to what is directly below it.** -/
def Linked (f : Forest) : Prop := ∀ id node, f.node? id = some node → ∃ ts, f.LinkedNode id node ts

theorem LinkedNode.tablesOf (h : f.LinkedNode id node ts) : f.tablesOf node = ts := h.row.tablesFrom

namespace Linked

theorem linkedNode (h : f.Linked) (hnode : f.node? id = some node) :
    f.LinkedNode id node (f.tablesOf node) := by
  obtain ⟨ts, hts⟩ := h id node hnode
  rw [hts.tablesOf]
  exact hts

theorem counted (h : f.Linked) (hnode : f.node? id = some node) : node.shape.Counted :=
  (h.linkedNode hnode).counted

theorem tablesFrom (h : f.Linked) (hnode : f.node? id = some node) {inner outer : List TableId}
    {t : TableId} (hts : f.tablesOf node = inner ++ t :: outer) :
    f.tablesFrom (some t) = t :: outer := by
  have hrow := (h.linkedNode hnode).row
  rw [hts] at hrow
  exact hrow.drop.tablesFrom

theorem child (h : f.Linked) (hnode : f.node? id = some node) {ref : Ref}
    (href : ref ∈ node.shape.children) : ∃ c m, ref = .node c ∧ c.index < id.index ∧
      f.node? c = some m ∧ m.parent = some id ∧ f.owningTable? node c = none := by
  have hlinked := h.linkedNode hnode
  obtain ⟨c, m, rfl, hlt, hm, hparent⟩ := hlinked.below ref (mem_below_child href)
  refine ⟨c, m, rfl, hlt, hm, hparent, List.find?_eq_none.2 fun t ht hany => ?_⟩
  have hdisjoint := (List.nodup_append'.1 hlinked.nodup).2.2
  exact hdisjoint (List.mem_flatMap.2 ⟨t, ht, any_body_iff.1 hany⟩) href

theorem body (h : f.Linked) (hnode : f.node? id = some node) {t : TableId}
    (ht : t ∈ f.tablesOf node) {ref : Ref} (href : ref ∈ f.bodies t) :
    ∃ c m, ref = .node c ∧ c.index < id.index ∧ f.node? c = some m ∧ m.parent = some id ∧
      f.owningTable? node c = some t := by
  have hlinked := h.linkedNode hnode
  obtain ⟨c, m, rfl, hlt, hm, hparent⟩ := hlinked.below ref (mem_below_body ht href)
  refine ⟨c, m, rfl, hlt, hm, hparent, ?_⟩
  have hpairwise := (List.nodup_flatMap.1 (List.nodup_append'.1 hlinked.nodup).1).2
  rcases hfind : f.owningTable? node c with _ | t'
  · exact absurd (any_body_iff.2 href) (List.find?_eq_none.1 hfind t ht)
  · unfold owningTable? at hfind
    have ht' := List.mem_of_find?_eq_some hfind
    have href' := any_body_iff.1 (List.find?_some hfind :)
    by_contra hne
    have hsymm : Std.Symm (Function.onFun List.Disjoint f.bodies) := ⟨fun _ _ h => List.disjoint_symm h⟩
    exact hpairwise.forall ht' ht (fun heq => hne (by rw [heq])) href' href

end Linked

end Forest

end Abacus
