import Abacus.Proofs.Forest.Making
import Mathlib.Data.List.Induction

/-!
# The tables of a node

The tables attached to a node are linked from each to the one around it.  The row of them is walked
by every lookup, so it has to end.  It does, and lists the tables in the order in which they were
attached, as long as none but the first one of a node is attached to that node again: the last table
is then linked back into the row.

* `Forest.Chain`            walks from a table outward that come to an end;
* `chain?_eq_some_iff`      they are what `Forest.chain?` finds;
* `Performs`, `attachedTo`  factories called one after another, and the tables attached by them;
* `Forest.Orderly`          every node has the tables attached to it, and these alone;
* `Scoped`                  what the factories keep;
* `chains_orderly_iff`      exactly when all nodes are orderly all along.
-/

namespace Abacus

open Growth Forest

namespace Forest

variable {f g : Forest} {owner : NodeId} {start : Option TableId} {ts : List TableId}

/-! ## Walks that end -/

/-- **A walk from a table outward**, from each table to the one around it, that comes to an end -/
inductive Chain (f : Forest) : Option TableId → List TableId → Prop
  | nil : Chain f none []
  | cons {t : TableId} {ts : List TableId} {table : Table} : f.table? t = some table →
      Chain f table.enclosing ts → Chain f (some t) (t :: ts)

theorem Row.chain (h : f.Row owner start ts) : f.Chain start ts := by
  induction h with
  | nil => exact .nil
  | cons htable _ _ _ ih => exact .cons htable ih

theorem Row.next (h : f.Row owner start ts) {t : TableId} (ht : t ∈ ts)
    (hlast : ts.getLast? ≠ some t) :
    ∃ u, (∃ table, f.table? t = some table ∧ table.enclosing = some u) ∧ u ∈ ts := by
  induction h with
  | nil => cases ht
  | @cons s ts table htable _ _ hrest ih =>
    cases ts with
    | nil => exact absurd (congrArg some (List.mem_singleton.1 ht).symm) hlast
    | cons u ts =>
      rcases List.mem_cons.1 ht with rfl | ht
      · refine ⟨u, ⟨table, htable, ?_⟩, by simp⟩
        generalize table.enclosing = enclosing at hrest
        cases hrest with
        | cons _ _ _ _ => rfl
      · rw [List.getLast?_cons_cons] at hlast
        obtain ⟨v, hv, hmem⟩ := ih ht hlast
        exact ⟨v, hv, List.mem_cons_of_mem s hmem⟩

namespace Chain

theorem unique {us : List TableId} (h : f.Chain start ts) (h' : f.Chain start us) : ts = us := by
  induction h generalizing us with
  | nil =>
    cases h' with
    | nil => rfl
  | cons htable _ ih =>
    cases h' with
    | cons htable' hrest =>
      rw [htable] at htable'
      cases htable'
      rw [ih hrest]

theorem drop {inner outer : List TableId} {t : TableId}
    (h : f.Chain start (inner ++ t :: outer)) : f.Chain (some t) (t :: outer) := by
  induction inner generalizing start with
  | nil =>
    cases h with
    | cons htable hrest => exact .cons htable hrest
  | cons s inner ih =>
    cases h with
    | cons _ hrest => exact ih hrest

/-- a walk that ends never comes back to a table: it would go on from there as it did before -/
theorem nodup (h : f.Chain start ts) : ts.Nodup := by
  induction h with
  | nil => exact List.nodup_nil
  | @cons t ts table htable hrest ih =>
    refine List.nodup_cons.2 ⟨fun hmem => ?_, ih⟩
    obtain ⟨inner, outer, rfl⟩ := List.append_of_mem hmem
    have hback : f.Chain (some t) (t :: outer) := hrest.drop
    have hsame := hback.unique (.cons htable hrest)
    have hlength := congrArg List.length hsame
    simp only [List.length_cons, List.length_append] at hlength
    omega

theorem table (h : f.Chain start ts) {t : TableId} (ht : t ∈ ts) : (f.table? t).isSome := by
  induction h with
  | nil => cases ht
  | cons htable _ ih =>
    rcases List.mem_cons.1 ht with rfl | ht
    · rw [htable]
      rfl
    · exact ih ht

/-- a walk among tables that are linked to one another never ends -/
theorem notMem_of_closed {us : List TableId} {t : TableId} (h : f.Chain (some t) ts)
    (hclosed : ∀ u ∈ us, ∃ table v, f.table? u = some table ∧ table.enclosing = some v ∧ v ∈ us) :
    t ∉ us := by
  induction ts generalizing t with
  | nil => cases h
  | cons s ts ih =>
    intro ht
    obtain ⟨table, v, htable, hv, hmem⟩ := hclosed t ht
    cases h with
    | cons htable' hrest =>
      rw [htable] at htable'
      cases htable'
      rw [hv] at hrest
      exact ih hrest hmem

end Chain

theorem chainUpTo_of_chain (h : f.Chain start ts) {count : Nat} (hcount : ts.length ≤ count) :
    f.chainUpTo count start = some ts := by
  induction h generalizing count with
  | nil => cases count <;> rfl
  | cons htable _ ih =>
    cases count with
    | zero => cases hcount
    | succ count =>
      rw [chainUpTo, htable]
      dsimp only
      rw [ih (Nat.le_of_succ_le_succ hcount), Option.map_some]

theorem chain_of_chainUpTo {count : Nat} (h : f.chainUpTo count start = some ts) :
    f.Chain start ts := by
  induction count generalizing start ts with
  | zero =>
    cases start with
    | none =>
      cases h
      exact .nil
    | some t => cases h
  | succ count ih =>
    cases start with
    | none =>
      cases h
      exact .nil
    | some t =>
      rw [chainUpTo] at h
      rcases htable : f.table? t with _ | table
      · rw [htable] at h
        cases h
      · rw [htable] at h
        obtain ⟨rest, hrest, rfl⟩ := Option.map_eq_some_iff.1 h
        exact .cons htable (ih hrest)

/-- **The tables from one on are found exactly where walking outward ends.** -/
theorem chain?_eq_some_iff : f.chain? start = some ts ↔ f.Chain start ts := by
  refine ⟨chain_of_chainUpTo, fun h => chainUpTo_of_chain h ?_⟩
  exact length_le_of_nodup h.nodup fun t ht => h.table ht

theorem Chain.row (h : f.Chain start ts)
    (hts : ∀ t ∈ ts, ∃ table, f.table? t = some table ∧ table.owner = some owner) :
    f.Row owner start ts := by
  have hnodup := h.nodup
  induction h with
  | nil => exact .nil
  | @cons t ts table htable _ ih =>
    obtain ⟨hnot, hrest⟩ := List.nodup_cons.1 hnodup
    obtain ⟨table', htable', howner⟩ := hts t List.mem_cons_self
    rw [htable] at htable'
    cases htable'
    exact .cons htable howner hnot (ih (fun s hs => hts s (List.mem_cons_of_mem t hs)) hrest)

/-! ## Links of tables -/

def scope? (f : Forest) (id : NodeId) : Option (Option TableId) := (f.node? id).map (·.scope)

def links? (f : Forest) (t : TableId) : Option (Option TableId × Option NodeId) :=
  (f.table? t).map fun table => (table.enclosing, table.owner)

theorem links?_of_table? {t : TableId} {table : Table} (h : f.table? t = some table) :
    f.links? t = some (table.enclosing, table.owner) := by
  rw [links?, h, Option.map_some]

theorem Row.of_links (h : f.Row owner start ts) (hlinks : ∀ t ∈ ts, g.links? t = f.links? t) :
    g.Row owner start ts := by
  induction h with
  | nil => exact .nil
  | @cons t ts table htable howner hnot _ ih =>
    have hg := hlinks t List.mem_cons_self
    rw [links?_of_table? htable] at hg
    obtain ⟨table', htable', heq⟩ := Option.map_eq_some_iff.1 hg
    have hrest := ih fun s hs => hlinks s (List.mem_cons_of_mem t hs)
    have henclosing : table'.enclosing = table.enclosing := (Prod.mk.inj heq).1
    rw [← henclosing] at hrest
    exact .cons htable' ((Prod.mk.inj heq).2.trans howner) hnot hrest

/-- **A forest in which all links of tables are those of another one**, but for new nodes without
tables and new tables without a node -/
structure Laid (f g : Forest) : Prop where
  scope : ∀ id, g.scope? id = f.scope? id ∨ f.scope? id = none ∧ g.scope? id = some none
  links : ∀ t, g.links? t = f.links? t ∨ f.links? t = none ∧ g.links? t = some (none, none)

theorem laid_of_eq (hscope : ∀ id, g.scope? id = f.scope? id)
    (hlinks : ∀ t, g.links? t = f.links? t) : Laid f g :=
  ⟨fun id => Or.inl (hscope id), fun t => Or.inl (hlinks t)⟩

theorem scope?_modify (f : Forest) (id : NodeId) {step : Node → Node}
    (hstep : ∀ n, (step n).scope = n.scope) (j : NodeId) :
    ({ f with nodes := f.nodes.modify id.index step } : Forest).scope? j = f.scope? j := by
  unfold scope?
  rw [node?_modify]
  split
  · rw [Option.map_map]
    congr 1
    funext n
    exact hstep n
  · rfl

theorem links?_modify (f : Forest) (id : TableId) {step : Table → Table}
    (hstep : ∀ t, (step t).enclosing = t.enclosing ∧ (step t).owner = t.owner) (t : TableId) :
    ({ f with tables := f.tables.modify id.index step } : Forest).links? t = f.links? t := by
  unfold links?
  rw [table?_modify]
  split
  · rw [Option.map_map]
    congr 1
    funext table
    show ((step table).enclosing, (step table).owner) = _
    rw [(hstep table).1, (hstep table).2]
  · rfl

theorem Laid.trans {h : Forest} (hfg : Laid f g) (hgh : Laid g h) : Laid f h where
  scope id := by
    rcases hgh.scope id with hgh | ⟨hg, hh⟩
    · rw [hgh]
      exact hfg.scope id
    · rcases hfg.scope id with hfg | ⟨_, hg'⟩
      · exact Or.inr ⟨hfg ▸ hg, hh⟩
      · rw [hg] at hg'
        cases hg'
  links t := by
    rcases hgh.links t with hgh | ⟨hg, hh⟩
    · rw [hgh]
      exact hfg.links t
    · rcases hfg.links t with hfg | ⟨_, hg'⟩
      · exact Or.inr ⟨hfg ▸ hg, hh⟩
      · rw [hg] at hg'
        cases hg'

/-- **Filling tables and making nodes links no tables.** -/
theorem steady_laid {made : Shape → Prop} : SteadyFilling made Laid where
  refl f := laid_of_eq (fun _ => rfl) fun _ => rfl
  trans := Laid.trans
  node f shape _ := by
    refine ⟨fun id => ?_, fun t => Or.inl rfl⟩
    unfold scope?
    rw [node?_push]
    split
    · next hid =>
      refine Or.inr ⟨?_, rfl⟩
      have hnone : f.node? id = none := Array.getElem?_eq_none (Nat.le_of_eq hid.symm)
      rw [hnone, Option.map_none]
    · exact Or.inl rfl
  binding f b := laid_of_eq (fun _ => rfl) fun _ => rfl
  table f := by
    refine ⟨fun id => Or.inl rfl, fun t => ?_⟩
    unfold links?
    rw [table?_push]
    split
    · next ht =>
      refine Or.inr ⟨?_, rfl⟩
      have hnone : f.table? t = none := Array.getElem?_eq_none (Nat.le_of_eq ht.symm)
      rw [hnone, Option.map_none]
    · exact Or.inl rfl
  parent f id _ := laid_of_eq (scope?_modify f id fun _ => rfl) fun _ => rfl
  bound f id _ := laid_of_eq (fun _ => rfl) (links?_modify f id fun _ => ⟨rfl, rfl⟩)

end Forest

/-! ## Factories called one after another -/

def Making.Known (f : Forest) : Making → Prop
  | .attach id t => (f.node? id).isSome ∧ (f.table? t).isSome
  | _ => True

/-- **Calls of the factories one after another**, none of which fails, from one forest to another -/
def Performs (f : Forest) : List Making → Forest → Prop
  | [], g => g = f
  | m :: ms, g => ∃ h, m.Known f ∧ m.Makes f h ∧ Performs h ms g

theorem performs_append {f g : Forest} {ms ns : List Making} :
    Performs f (ms ++ ns) g ↔ ∃ h, Performs f ms h ∧ Performs h ns g := by
  induction ms generalizing f with
  | nil => simp [Performs]
  | cons m ms ih =>
    simp only [List.cons_append, Performs, ih]
    constructor
    · rintro ⟨h, hknown, hmakes, k, hms, hns⟩
      exact ⟨k, ⟨h, hknown, hmakes, hms⟩, hns⟩
    · rintro ⟨k, ⟨h, hknown, hmakes, hms⟩, hns⟩
      exact ⟨h, hknown, hmakes, k, hms, hns⟩

/-- the tables of a node after one more call: a table that it has keeps its place -/
def attachedAfter (id : NodeId) (ts : List TableId) : Making → List TableId
  | .attach n t => if n = id ∧ t ∉ ts then ts ++ [t] else ts
  | _ => ts

/-- **The tables attached to a node** by calls of the factories, in the order of their first
attachment -/
def attachedTo (id : NodeId) (ms : List Making) : List TableId := ms.foldl (attachedAfter id) []

@[simp] theorem attachedTo_concat (id : NodeId) (ms : List Making) (m : Making) :
    attachedTo id (ms ++ [m]) = attachedAfter id (attachedTo id ms) m := by
  simp [attachedTo]

/-- a table is attached again to its node, and it is not the first one of the node -/
def Reattaches (ms : List Making) : Prop :=
  ∃ before id t after, ms = before ++ .attach id t :: after ∧ t ∈ (attachedTo id before).tail

/-! ## What the factories keep -/

/-- **Every node has certain tables, and these alone**: walking from its first table outward ends,
and lists them, each once; all of them are tables of that node. -/
def Forest.Orderly (f : Forest) (attached : NodeId → List TableId) : Prop :=
  ∀ id node, f.node? id = some node → f.chain? node.scope = some (attached id) ∧
    f.tablesOf node = attached id ∧ (attached id).Nodup ∧
    ∀ t ∈ attached id, ∃ table, f.table? t = some table ∧ table.owner = some id

def Forest.Unscoped (f : Forest) : Prop :=
  (∀ id node, f.node? id = some node → node.scope = none) ∧
    ∀ t table, f.table? t = some table → table.enclosing = none ∧ table.owner = none

/-- **The links of tables in a forest where nodes have certain tables.** -/
structure Scoped (f : Forest) (attached : NodeId → List TableId) : Prop where
  row : ∀ id start, f.scope? id = some start → f.Row id start (attached id)
  missing : ∀ id, f.scope? id = none → attached id = []
  owned : ∀ t enclosing id, f.links? t = some (enclosing, some id) → t ∈ attached id
  free : ∀ t enclosing, f.links? t = some (enclosing, none) → enclosing = none

section
variable {f g : Forest} {attached attached' : NodeId → List TableId} {id : NodeId} {t : TableId}

theorem scoped_of_unscoped (hf : f.Unscoped) : Scoped f fun _ => [] where
  row id start hscope := by
    obtain ⟨node, hnode, rfl⟩ := Option.map_eq_some_iff.1 hscope
    rw [hf.1 id node hnode]
    exact .nil
  missing _ _ := rfl
  owned t enclosing id hlinks := by
    obtain ⟨table, htable, heq⟩ := Option.map_eq_some_iff.1 hlinks
    rw [(hf.2 t table htable).2] at heq
    cases heq
  free t enclosing hlinks := by
    obtain ⟨table, htable, heq⟩ := Option.map_eq_some_iff.1 hlinks
    rw [(hf.2 t table htable).1] at heq
    exact (Prod.mk.inj heq).1.symm

namespace Scoped

theorem table_of_mem (hf : Scoped f attached) (ht : t ∈ attached id) :
    ∃ table, f.table? t = some table ∧ table.owner = some id := by
  rcases hscope : f.scope? id with _ | start
  · rw [hf.missing id hscope] at ht
    cases ht
  · exact (hf.row id start hscope).table ht

theorem links_of_mem (hf : Scoped f attached) (ht : t ∈ attached id) :
    ∃ enclosing, f.links? t = some (enclosing, some id) := by
  obtain ⟨table, htable, howner⟩ := hf.table_of_mem ht
  exact ⟨table.enclosing, by rw [links?_of_table? htable, howner]⟩

theorem laid (hf : Scoped f attached) (hfg : Laid f g) : Scoped g attached where
  row id start hscope := by
    rcases hfg.scope id with hsame | ⟨hnone, hnew⟩
    · refine (hf.row id start (hsame ▸ hscope)).of_links ?_
      intro t ht
      obtain ⟨enclosing, hlinks⟩ := hf.links_of_mem ht
      rcases hfg.links t with hsame | ⟨hnone, _⟩
      · exact hsame
      · rw [hlinks] at hnone
        cases hnone
    · rw [hnew] at hscope
      cases hscope
      rw [hf.missing id hnone]
      exact .nil
  missing id hscope := by
    rcases hfg.scope id with hsame | ⟨_, hnew⟩
    · exact hf.missing id (hsame ▸ hscope)
    · rw [hnew] at hscope
      cases hscope
  owned t enclosing id hlinks := by
    rcases hfg.links t with hsame | ⟨_, hnew⟩
    · exact hf.owned t enclosing id (hsame ▸ hlinks)
    · rw [hnew] at hlinks
      cases hlinks
  free t enclosing hlinks := by
    rcases hfg.links t with hsame | ⟨_, hnew⟩
    · exact hf.free t enclosing (hsame ▸ hlinks)
    · rw [hnew] at hlinks
      cases hlinks
      rfl

theorem orderly (hf : Scoped f attached) : f.Orderly attached := by
  intro id node hnode
  have hrow : f.Row id node.scope (attached id) :=
    hf.row id node.scope (by rw [scope?, hnode, Option.map_some])
  exact ⟨chain?_eq_some_iff.2 hrow.chain, hrow.tablesFrom, hrow.nodup, fun t ht => hrow.table ht⟩

end Scoped

/-! ## Attaching a table of no node -/

theorem grows_attach_taken {table : Table} {owner : NodeId} (ht : f.table? t = some table)
    (howner : table.owner = some owner) (hne : owner ≠ id) :
    Grows f (attach id t) fun _ _ => False := by
  rw [attach_eq]
  refine grows_bind (grows_forest (Q := fun g h => g = f ∧ h = f) ⟨rfl, rfl⟩) ?_
  rintro _ f ⟨rfl, rfl⟩
  rw [if_pos ⟨owner, by rw [ht, Option.bind_some, howner], hne⟩]
  exact grows_throw _

/-- a table that is neither the new one nor one of the node is as it was -/
theorem links_of_attached {ts : List TableId} {scope : Option TableId}
    (hf : Scoped f attached) (hts : ts = attached id) (hg : Attached id t ts scope f g)
    {s : TableId} {links : Option TableId × Option NodeId} (hs : g.links? s = some links)
    (hnot : s ∉ ts ++ [t]) : f.links? s = some links := by
  have hheld := hg.held s
  obtain ⟨table, htable, hlinks⟩ := Option.map_eq_some_iff.1 hs
  rw [htable, Option.map_some] at hheld
  obtain ⟨old, hold, _⟩ := Option.map_eq_some_iff.1 hheld.symm
  have hne : s ≠ t := fun heq => hnot (by simp [heq])
  have howner : old.owner ≠ some id := by
    intro howner
    have hmem : s ∈ attached id :=
      hf.owned s old.enclosing id (by rw [links?_of_table? hold, howner])
    exact hnot (List.mem_append_left _ (hts ▸ hmem))
  rw [hg.others s old hold howner hne] at htable
  cases htable
  rw [links?_of_table? hold, hlinks]

theorem scoped_attached {ts : List TableId} {bs : List BindingId} {scope : Option TableId}
    (hf : Scoped f attached) (hnode : (f.node? id).isSome)
    (ht : f.table? t = some ⟨bs, none, none⟩) (hts : ts = attached id)
    (hg : Attached id t ts scope f g) (hself : attached' id = ts ++ [t])
    (hothers : ∀ j, j ≠ id → attached' j = attached j) : Scoped g attached' := by
  have hscope : ∀ j, j ≠ id → g.scope? j = f.scope? j := fun j hj => by
    rw [scope?, scope?, hg.nodes, if_neg hj]
  have hsome : g.scope? id = some scope := by
    obtain ⟨node, hnode⟩ := Option.isSome_iff_exists.1 hnode
    rw [scope?, hg.nodes, if_pos rfl, hnode]
    rfl
  have howns : ∀ s ∈ ts ++ [t], ∃ enclosing, g.links? s = some (enclosing, some id) := by
    intro s hs
    obtain ⟨table, htable, howner⟩ := hg.row.table hs
    exact ⟨table.enclosing, by rw [links?_of_table? htable, howner]⟩
  refine ⟨?_, ?_, ?_, ?_⟩
  · intro j start hj
    by_cases hjd : j = id
    · rw [hjd, hsome] at hj
      cases hj
      rw [hjd, hself]
      exact hg.row
    · rw [hscope j hjd] at hj
      rw [hothers j hjd]
      refine (hf.row j start hj).of_links ?_
      intro s hs
      obtain ⟨table, htable, howner⟩ := hf.table_of_mem hs
      have hne : s ≠ t := fun heq => by
        rw [heq, ht] at htable
        cases htable
        cases howner
      have howner' : table.owner ≠ some id := fun h => hjd (Option.some.inj (howner.symm.trans h))
      rw [links?_of_table? htable, links?_of_table? (hg.others s table htable howner' hne)]
  · intro j hj
    have hjd : j ≠ id := fun heq => by
      rw [heq, hsome] at hj
      cases hj
    rw [hothers j hjd]
    exact hf.missing j (hscope j hjd ▸ hj)
  · intro s enclosing j hs
    by_cases hmem : s ∈ ts ++ [t]
    · obtain ⟨_, hlinks⟩ := howns s hmem
      rw [hlinks] at hs
      cases hs
      rwa [hself]
    · have hjs := hf.owned s enclosing j (links_of_attached hf hts hg hs hmem)
      by_cases hjd : j = id
      · rw [hjd, ← hts] at hjs
        exact absurd (List.mem_append_left _ hjs) hmem
      · rwa [hothers j hjd]
  · intro s enclosing hs
    by_cases hmem : s ∈ ts ++ [t]
    · obtain ⟨_, hlinks⟩ := howns s hmem
      rw [hlinks] at hs
      cases hs
    · exact hf.free s enclosing (links_of_attached hf hts hg hs hmem)

theorem laid_of_adopted {parent : NodeId} {refs : List Ref} (h : Adopted parent refs f g) :
    Laid f g := by
  refine laid_of_eq (fun j => ?_) fun t => ?_
  · rw [scope?, scope?, h.nodes, Option.map_map]
    congr 1
    funext node
    exact scope_adoptedNode parent refs j node
  · rw [links?, links?, h.table?]

/-- **A table of no node becomes the last one of the node that it is attached to.** -/
theorem grows_attach_new (hf : Scoped f attached) (hnode : (f.node? id).isSome)
    (ht : ∃ table, f.table? t = some table ∧ table.owner = none)
    (hself : attached' id = attached id ++ [t]) (hothers : ∀ j, j ≠ id → attached' j = attached j) :
    Grows f (attach id t) fun _ g => Scoped g attached' := by
  obtain ⟨node, hid⟩ := Option.isSome_iff_exists.1 hnode
  obtain ⟨⟨bs, enclosing, owner⟩, htable, rfl⟩ := ht
  have hfree : enclosing = none := hf.free t enclosing (links?_of_table? htable)
  rw [hfree] at htable
  have hrow : f.Row id node.scope (attached id) :=
    hf.row id node.scope (by rw [scope?, hid, Option.map_some])
  refine grows_mono (grows_attach hid hrow htable) ?_
  rintro _ g ⟨scope, h, hattached, hadopted⟩
  exact (scoped_attached hf hnode htable rfl hattached hself hothers).laid (laid_of_adopted hadopted)

/-! ## Attaching a table again -/

theorem table?_same {table : Table} (ht : f.table? t = some table) (howner : table.owner = some id)
    (hg : Filled t { table with owner := some id } f g) (s : TableId) : g.table? s = f.table? s := by
  by_cases hs : s = t
  · rw [hs, hg.table, ht, ← howner]
  · exact hg.others s hs

theorem grows_attach_first {node : Node} {table : Table} (hid : f.node? id = some node)
    (hscope : node.scope = some t) (ht : f.table? t = some table) (howner : table.owner = some id) :
    Grows f (attach id t) fun _ g => Laid f g := by
  rw [attach_eq]
  refine grows_bind (grows_forest (Q := fun g h => g = f ∧ h = f) ⟨rfl, rfl⟩) ?_
  rintro _ f ⟨rfl, rfl⟩
  rw [if_neg (by simp [ht, howner])]
  unfold linkTable
  refine grows_bind (grows_changeTable ht fun t => { t with owner := some id }) ?_
  intro _ g hg
  have hlaid : Laid f g := laid_of_eq (fun j => by rw [scope?, scope?, hg.node?]) fun s => by
    rw [links?, links?, table?_same ht howner hg]
  simp only [hid, Option.bind_some, hscope, ne_eq, not_true_eq_false, if_false]
  have hsteady : SteadyFilling (fun _ => True) Laid := steady_laid
  exact grows_mono (hsteady.adoptAll id _ g) fun _ h hh => hlaid.trans hh

/-- **Attaching another table of a node again links the last table of the node back to it**, so
that walking outward from the first one no longer ends. -/
theorem grows_attach_again {node : Node} {ts : List TableId} (hid : f.node? id = some node)
    (hrow : f.Row id node.scope ts) (ht : t ∈ ts.tail) :
    Grows f (attach id t) fun _ g =>
      ∃ node', g.node? id = some node' ∧ ∀ us, ¬ g.Chain node'.scope us := by
  obtain ⟨table, htable, howner⟩ := hrow.table (List.mem_of_mem_tail ht)
  rcases hscope : node.scope with _ | innermost
  · rw [hscope] at hrow
    cases hrow
    cases ht
  have hne : innermost ≠ t := by
    rw [hscope] at hrow
    cases hrow with
    | cons _ _ hnot _ => exact fun heq => hnot (heq ▸ ht)
  obtain ⟨last, hlast⟩ : ∃ last, ts.getLast? = some last := by
    refine ⟨_, List.getLast?_eq_some_getLast ?_⟩
    exact List.ne_nil_of_mem (List.mem_of_mem_tail ht)
  obtain ⟨outermost, houtermost, _⟩ := hrow.table (List.mem_of_getLast? hlast)
  rw [attach_eq]
  refine grows_bind (grows_forest (Q := fun g h => g = f ∧ h = f) ⟨rfl, rfl⟩) ?_
  rintro _ f ⟨rfl, rfl⟩
  rw [if_neg (by simp [htable, howner])]
  unfold linkTable
  refine grows_bind (grows_changeTable htable fun t => { t with owner := some id }) ?_
  intro _ g hg
  have hsame := table?_same htable howner hg
  have hfrom := hrow.tablesFrom
  rw [hscope] at hfrom
  simp only [hid, Option.bind_some, hscope, ne_eq, hne, not_false_eq_true, if_true, hfrom, hlast]
  rw [← hsame last] at houtermost
  refine grows_bind (grows_changeTable houtermost fun o => { o with enclosing := some t }) ?_
  intro _ h hh
  refine grows_mono (grows_adoptAll id _) ?_
  intro _ k hk
  refine ⟨adoptedNode id _ id node, by rw [hk.nodes, hh.node?, hg.node?, hid]; rfl, ?_⟩
  rw [scope_adoptedNode, hscope]
  intro us hchain
  have hfirst : innermost ∈ ts := by
    rw [hscope] at hrow
    cases hrow with
    | cons _ _ _ _ => exact List.mem_cons_self
  refine absurd hfirst (hchain.notMem_of_closed ?_)
  intro u hu
  rw [hk.table?]
  by_cases hul : u = last
  · rw [hul]
    exact ⟨_, t, hh.table, rfl, List.mem_of_mem_tail ht⟩
  · obtain ⟨v, hv, hmem⟩ := hrow.next hu fun heq => hul (Option.some.inj (heq.symm.trans hlast))
    obtain ⟨inner, hinner, hvs⟩ := hv
    exact ⟨inner, v, ((hh.others u hul).trans (hsame u)).trans hinner, hvs, hmem⟩

end

/-! ## When all nodes are orderly -/

section
variable {f g : Forest} {ms : List Making} {attached : NodeId → List TableId}

/-- **One more call** of a factory links the tables of nodes as it should, unless it attaches again
a table that is not the first one of its node. -/
theorem Scoped.makes {m : Making} (hf : Scoped f attached) (hknown : m.Known f) (hm : m.Makes f g)
    (hagain : ∀ id t, m = .attach id t → t ∉ (attached id).tail) :
    Scoped g fun id => attachedAfter id (attached id) m := by
  by_cases hattach : ∃ id t, m = .attach id t
  · obtain ⟨id, t, rfl⟩ := hattach
    obtain ⟨hnode, htable⟩ := hknown
    obtain ⟨node, hid⟩ := Option.isSome_iff_exists.1 hnode
    obtain ⟨table, ht⟩ := Option.isSome_iff_exists.1 htable
    have hrow : f.Row id node.scope (attached id) :=
      hf.row id node.scope (by rw [scope?, hid, Option.map_some])
    have hother (j : NodeId) (hj : j ≠ id) :
        attachedAfter j (attached j) (.attach id t) = attached j :=
      if_neg fun h => hj h.1.symm
    by_cases hmem : t ∈ attached id
    · have hsame : (fun j => attachedAfter j (attached j) (.attach id t)) = attached := by
        funext j
        by_cases hj : j = id
        · exact if_neg fun h => h.2 (hj ▸ hmem)
        · exact hother j hj
      rw [hsame]
      obtain ⟨table', ht', howner⟩ := hrow.table hmem
      have hfirst : node.scope = some t := by
        have hnot := hagain id t rfl
        generalize attached id = ts at hrow hmem hnot
        generalize node.scope = start at hrow
        cases hrow with
        | nil => cases hmem
        | cons _ _ _ _ =>
          rcases List.mem_cons.1 hmem with rfl | hmem
          · rfl
          · exact absurd hmem hnot
      exact hm.of_grows (grows_mono (grows_attach_first hid hfirst ht' howner) fun _ g hg =>
        hf.laid hg)
    · have howner : table.owner = none := by
        rcases howner : table.owner with _ | owner
        · rfl
        · have hne : owner ≠ id := fun heq =>
            hmem (hf.owned t table.enclosing id (by rw [links?_of_table? ht, howner, heq]))
          exact (hm.of_grows (grows_attach_taken ht howner hne)).elim
      refine hm.of_grows (grows_attach_new hf hnode ⟨table, ht, howner⟩ ?_ hother)
      exact if_pos ⟨rfl, hmem⟩
  · have hsame : (fun id => attachedAfter id (attached id) m) = attached := by
      funext id
      cases m with
      | attach n t => exact absurd ⟨n, t, rfl⟩ hattach
      | _ => rfl
    rw [hsame]
    refine hf.laid (hm.of_grows (steady_laid.perform m (fun id t h => hattach ⟨id, t, h⟩) f))

theorem scoped_of_performs (hf : f.Unscoped) (h : Performs f ms g) (hms : ¬ Reattaches ms) :
    Scoped g (attachedTo · ms) := by
  induction ms using List.reverseRecOn generalizing g with
  | nil =>
    cases h
    exact scoped_of_unscoped hf
  | append_singleton ms m ih =>
    obtain ⟨k, hk, _, hknown, hmakes, rfl⟩ := performs_append.1 h
    have hbefore : ¬ Reattaches ms := by
      rintro ⟨before, id, t, after, rfl, ht⟩
      exact hms ⟨before, id, t, after ++ [m], by simp, ht⟩
    simp only [attachedTo_concat]
    refine (ih hk hbefore).makes hknown hmakes ?_
    rintro id t rfl ht
    exact hms ⟨ms, id, t, [], rfl, ht⟩

/-- **All nodes are orderly all along** exactly when no table is attached again to its node, other
than the first one of the node: then, whatever has been called so far, every node has the tables
attached to it, in the order of their first attachment. -/
theorem chains_orderly_iff (hf : f.Unscoped) (h : Performs f ms g) :
    (∀ before after k, ms = before ++ after → Performs f before k →
      k.Orderly (attachedTo · before)) ↔ ¬ Reattaches ms := by
  constructor
  · rintro horderly ⟨before, id, t, after, rfl, ht⟩
    obtain ⟨k, hk, k', hknown, hmakes, _⟩ := performs_append.1 h
    obtain ⟨node, hid⟩ := Option.isSome_iff_exists.1 hknown.1
    obtain ⟨hchain, _, _, howned⟩ := horderly before _ k rfl hk id node hid
    have hrow : k.Row id node.scope (attachedTo id before) := (chain?_eq_some_iff.1 hchain).row howned
    have hk' : Performs f (before ++ [.attach id t]) k' :=
      performs_append.2 ⟨k, hk, k', hknown, hmakes, rfl⟩
    obtain ⟨node', hid', hendless⟩ := hmakes.of_grows (grows_attach_again hid hrow ht)
    obtain ⟨hchain', _⟩ := horderly (before ++ [.attach id t]) after k' (by simp) hk' id node' hid'
    exact hendless _ (chain?_eq_some_iff.1 hchain')
  · rintro hms before after k rfl hk
    refine (scoped_of_performs hf hk ?_).orderly
    rintro ⟨before, id, t, rest, rfl, ht⟩
    exact hms ⟨before, id, t, rest ++ after, by simp, ht⟩

end

/-! ## A row without an end -/

def twoTables : Forest := ⟨#[⟨.symbol "n", none, none⟩], #[⟨[], none, none⟩, ⟨[], none, none⟩], #[]⟩

theorem unscoped_twoTables : twoTables.Unscoped := by
  constructor
  · rintro ⟨i⟩ node hnode
    match i with
    | 0 =>
      cases hnode
      rfl
    | i + 1 => cases hnode
  · rintro ⟨i⟩ table htable
    match i with
    | 0 =>
      cases htable
      exact ⟨rfl, rfl⟩
    | 1 =>
      cases htable
      exact ⟨rfl, rfl⟩
    | i + 2 => cases htable

def attachBoth : List Making := [.attach ⟨0⟩ ⟨0⟩, .attach ⟨0⟩ ⟨1⟩]

def bothAttached : Forest :=
  ⟨#[⟨.symbol "n", some ⟨0⟩, none⟩], #[⟨[], some ⟨1⟩, some ⟨0⟩⟩, ⟨[], none, some ⟨0⟩⟩], #[]⟩

theorem performs_attachBoth : Performs twoTables attachBoth bothAttached :=
  ⟨_, ⟨rfl, rfl⟩, ⟨[], [], rfl⟩, _, ⟨rfl, rfl⟩, ⟨[], [], rfl⟩, rfl⟩

theorem not_reattaches_attachBoth : ¬ Reattaches attachBoth := by
  rintro ⟨before, id, t, after, hms, ht⟩
  match before with
  | [] => cases ht
  | [m] =>
    cases hms
    cases ht
  | m :: n :: rest => simp [attachBoth] at hms

theorem chains_orderly_attachBoth : twoTables.Unscoped ∧ Performs twoTables attachBoth bothAttached ∧
    ∀ before after k, attachBoth = before ++ after → Performs twoTables before k →
      k.Orderly (attachedTo · before) :=
  ⟨unscoped_twoTables, performs_attachBoth,
    (chains_orderly_iff unscoped_twoTables performs_attachBoth).2 not_reattaches_attachBoth⟩

def linkedBack : Forest :=
  ⟨#[⟨.symbol "n", some ⟨0⟩, none⟩], #[⟨[], some ⟨1⟩, some ⟨0⟩⟩, ⟨[], some ⟨1⟩, some ⟨0⟩⟩], #[]⟩

/-- **A row without an end**: the second table of a node, attached to it again, stands around
itself. -/
theorem chains_endless : twoTables.Unscoped ∧
    Performs twoTables (attachBoth ++ [.attach ⟨0⟩ ⟨1⟩]) linkedBack ∧
    linkedBack.node? ⟨0⟩ = some ⟨.symbol "n", some ⟨0⟩, none⟩ ∧
    (∀ ts, ¬ linkedBack.Chain (some ⟨0⟩) ts) ∧
    ¬ linkedBack.Orderly (attachedTo · (attachBoth ++ [.attach ⟨0⟩ ⟨1⟩])) := by
  have hnone : linkedBack.chain? (some ⟨0⟩) = none := rfl
  have hendless (ts : List TableId) : ¬ linkedBack.Chain (some ⟨0⟩) ts := by
    intro h
    rw [chain?_eq_some_iff.2 h] at hnone
    cases hnone
  refine ⟨unscoped_twoTables, ?_, rfl, hendless, ?_⟩
  · exact performs_append.2 ⟨bothAttached, performs_attachBoth, _, ⟨rfl, rfl⟩, ⟨[], [], rfl⟩, rfl⟩
  · intro h
    exact hendless _ (chain?_eq_some_iff.1 (h ⟨0⟩ _ rfl).1)

end Abacus
