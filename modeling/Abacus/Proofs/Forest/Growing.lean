import Abacus.Forest.Growth
import Abacus.Proofs.Forest.Linked

/-!
# Growing linked forests

What growing a forest gives, step by step, where no fault stops it: nodes and tables that are added
link what they are put around, and leave everything else as it was.

* `Grows`                 what holds of the result and the forest after growing;
* `grows_adoptAll`, `grows_insertAll`   linking children in turn, filling a table in turn;
* `grows_newTable`        a new table, which holds the given bindings;
* `grows_attach`          a table that becomes the outermost one of a node.
-/

namespace Abacus

open Growth

/-! ## Growing -/

/-- **Growing from a forest, unless a fault stops it, gives a result and a forest with a property.** -/
def Grows {α : Type} (f : Forest) (x : Growth α) (Q : α → Forest → Prop) : Prop :=
  ∀ remarks a d, x.run.run ⟨f, remarks⟩ = (.ok a, d) → Q a d.forest

section
variable {α β : Type} {f : Forest} {Q : α → Forest → Prop}

theorem run_bind (x : Growth β) (k : β → Growth α) (d : Draft) :
    (x >>= k).run.run d = match x.run.run d with
      | (.ok b, d') => (k b).run.run d'
      | (.error fault, d') => (.error fault, d') := by
  simp only [ExceptT.run_bind, StateT.run_bind]
  rcases StateT.run (ExceptT.run x) d with ⟨_ | b, d'⟩
  · rfl
  · rfl

theorem run_bind_ok {x : Growth β} {k : β → Growth α} {d d' : Draft} {b : β}
    (h : x.run.run d = (.ok b, d')) : (x >>= k).run.run d = (k b).run.run d' := by
  rw [run_bind, h]

theorem grows_pure {a : α} (h : Q a f) : Grows f (pure a) Q := by
  intro remarks a d hrun
  cases hrun
  exact h

theorem grows_throw (fault : Fault) : Grows f (throw fault : Growth α) Q := by
  intro remarks a d hrun
  cases hrun

theorem grows_bind {P : β → Forest → Prop} {x : Growth β} {k : β → Growth α} (hx : Grows f x P)
    (hk : ∀ b g, P b g → Grows g (k b) Q) : Grows f (x >>= k) Q := by
  intro remarks a d hrun
  rw [run_bind] at hrun
  rcases hr : x.run.run ⟨f, remarks⟩ with ⟨_ | b, d'⟩
  · rw [hr] at hrun
    cases hrun
  · rw [hr] at hrun
    exact hk b d'.forest (hx remarks b d' hr) d'.remarks a d hrun

theorem grows_mono {P : α → Forest → Prop} {x : Growth α} (h : Grows f x P)
    (hPQ : ∀ a g, P a g → Q a g) : Grows f x Q := fun remarks a d hrun =>
  hPQ a d.forest (h remarks a d hrun)

theorem grows_and {P : α → Forest → Prop} {x : Growth α} (hP : Grows f x P) (hQ : Grows f x Q) :
    Grows f x fun a g => P a g ∧ Q a g := fun remarks a d hrun =>
  ⟨hP remarks a d hrun, hQ remarks a d hrun⟩

theorem grows_forest {Q : Forest → Forest → Prop} (h : Q f f) : Grows f forest Q := by
  intro remarks a d hrun
  cases hrun
  exact h

theorem grows_change {Q : Unit → Forest → Prop} {step : Forest → Forest} (h : Q () (step f)) :
    Grows f (change step) Q := by
  intro remarks a d hrun
  cases hrun
  exact h

theorem grows_remark {Q : Unit → Forest → Prop} (h : Q () f) (r : Remark) :
    Grows f (remark r) Q := by
  intro remarks a d hrun
  cases hrun
  exact h

theorem grows_lift {x : Except Fault α} (h : ∀ a, x = .ok a → Q a f) :
    Grows f (liftM x : Growth α) Q := by
  cases x with
  | error fault => exact grows_throw fault
  | ok a => exact grows_pure (h a rfl)

end

namespace Forest

variable {f g : Forest}

/-! ## Adding and changing entries -/

theorem node?_push (f : Forest) (node : Node) (j : NodeId) :
    ({ f with nodes := f.nodes.push node } : Forest).node? j
      = if j.index = f.nodes.size then some node else f.node? j :=
  Array.getElem?_push

theorem node?_modify (f : Forest) (id : NodeId) (step : Node → Node) (j : NodeId) :
    ({ f with nodes := f.nodes.modify id.index step } : Forest).node? j
      = if j = id then (f.node? j).map step else f.node? j := by
  obtain ⟨i⟩ := id
  obtain ⟨j⟩ := j
  simp only [node?, Array.getElem?_modify, NodeId.mk.injEq, eq_comm]

theorem table?_push (f : Forest) (table : Table) (t : TableId) :
    ({ f with tables := f.tables.push table } : Forest).table? t
      = if t.index = f.tables.size then some table else f.table? t :=
  Array.getElem?_push

theorem table?_modify (f : Forest) (id : TableId) (step : Table → Table) (t : TableId) :
    ({ f with tables := f.tables.modify id.index step } : Forest).table? t
      = if t = id then (f.table? t).map step else f.table? t := by
  obtain ⟨i⟩ := id
  obtain ⟨t⟩ := t
  simp only [table?, Array.getElem?_modify, TableId.mk.injEq, eq_comm]

theorem binding?_push (f : Forest) (binding : Binding) (b : BindingId) :
    ({ f with bindings := f.bindings.push binding } : Forest).binding? b
      = if b.index = f.bindings.size then some binding else f.binding? b :=
  Array.getElem?_push

theorem lt_of_node? {id : NodeId} {node : Node} (h : f.node? id = some node) :
    id.index < f.nodes.size :=
  (Array.getElem?_eq_some_iff.1 h).1

theorem lt_of_table? {t : TableId} {table : Table} (h : f.table? t = some table) :
    t.index < f.tables.size :=
  (Array.getElem?_eq_some_iff.1 h).1

theorem lt_of_binding? {b : BindingId} {binding : Binding} (h : f.binding? b = some binding) :
    b.index < f.bindings.size :=
  (Array.getElem?_eq_some_iff.1 h).1

/-! ## Linking children -/

/-- a node with another one around it, if it is among those linked to that -/
def adoptedNode (parent : NodeId) (refs : List Ref) (j : NodeId) (node : Node) : Node :=
  if .node j ∈ refs then { node with parent := some parent } else node

@[simp] theorem shape_adoptedNode (parent : NodeId) (refs : List Ref) (j : NodeId) (node : Node) :
    (adoptedNode parent refs j node).shape = node.shape := by
  unfold adoptedNode
  split <;> rfl

@[simp] theorem scope_adoptedNode (parent : NodeId) (refs : List Ref) (j : NodeId) (node : Node) :
    (adoptedNode parent refs j node).scope = node.scope := by
  unfold adoptedNode
  split <;> rfl

theorem adoptedNode_of_mem {parent : NodeId} {refs : List Ref} {j : NodeId} (h : .node j ∈ refs)
    (node : Node) : adoptedNode parent refs j node = { node with parent := some parent } :=
  if_pos h

theorem adoptedNode_of_notMem {parent : NodeId} {refs : List Ref} {j : NodeId}
    (h : .node j ∉ refs) (node : Node) : adoptedNode parent refs j node = node :=
  if_neg h

theorem map_adoptedNode_of_notMem {parent : NodeId} {refs : List Ref} {j : NodeId}
    (h : .node j ∉ refs) (node : Option Node) : node.map (adoptedNode parent refs j) = node := by
  cases node with
  | none => rfl
  | some node => rw [Option.map_some, adoptedNode_of_notMem h]

structure Adopted (parent : NodeId) (refs : List Ref) (f g : Forest) : Prop where
  tables : g.tables = f.tables
  bindings : g.bindings = f.bindings
  size : g.nodes.size = f.nodes.size
  nodes : ∀ j, g.node? j = (f.node? j).map (adoptedNode parent refs j)

theorem Adopted.table? {parent : NodeId} {refs : List Ref} (h : Adopted parent refs f g)
    (t : TableId) : g.table? t = f.table? t := by
  unfold Forest.table?
  rw [h.tables]

theorem Adopted.binding? {parent : NodeId} {refs : List Ref} (h : Adopted parent refs f g)
    (b : BindingId) : g.binding? b = f.binding? b := by
  unfold Forest.binding?
  rw [h.bindings]

theorem adopted_nil (parent : NodeId) (f : Forest) : Adopted parent [] f f where
  tables := rfl
  bindings := rfl
  size := rfl
  nodes _ := (map_adoptedNode_of_notMem List.not_mem_nil _).symm

theorem adopted_cons {parent : NodeId} {ref : Ref} {refs : List Ref} {h : Forest}
    (hfg : Adopted parent [ref] f g) (hgh : Adopted parent refs g h) :
    Adopted parent (ref :: refs) f h where
  tables := hgh.tables.trans hfg.tables
  bindings := hgh.bindings.trans hfg.bindings
  size := hgh.size.trans hfg.size
  nodes j := by
    rw [hgh.nodes, hfg.nodes, Option.map_map]
    congr 1
    funext node
    unfold adoptedNode
    by_cases hj : .node j = ref
    · by_cases hrefs : .node j ∈ refs
      · simp [hj, hj ▸ hrefs]
      · simp [hj, hj ▸ hrefs]
    · simp [hj]

end Forest

open Forest

variable {f : Forest}

theorem grows_adopt (parent : NodeId) (ref : Ref) :
    Grows f (adopt parent ref) fun _ g => Adopted parent [ref] f g := by
  cases ref with
  | node child =>
    unfold adopt changeNode
    apply grows_change
    refine ⟨rfl, rfl, Array.size_modify, ?_⟩
    intro j
    rw [node?_modify]
    by_cases hj : j = child
    · rw [if_pos hj, hj]
      congr 1
      funext node
      exact (adoptedNode_of_mem (List.mem_singleton_self _) node).symm
    · rw [if_neg hj, map_adoptedNode_of_notMem]
      simpa using hj
  | absent => exact grows_pure ⟨rfl, rfl, rfl, fun j => (map_adoptedNode_of_notMem (by simp) _).symm⟩
  | foreign typeName serial =>
    exact grows_pure ⟨rfl, rfl, rfl, fun j => (map_adoptedNode_of_notMem (by simp) _).symm⟩

theorem grows_adoptAll (parent : NodeId) (refs : List Ref) :
    Grows f (adoptAll parent refs) fun _ g => Adopted parent refs f g := by
  induction refs generalizing f with
  | nil => exact grows_pure (adopted_nil parent f)
  | cons ref refs ih =>
    exact grows_bind (grows_adopt parent ref) fun _ g hg => grows_mono ih fun _ h hh =>
      adopted_cons hg hh

/-! ## Filling tables -/

/-- a forest in which one table has changed -/
structure Filled (t : TableId) (table : Table) (f g : Forest) : Prop where
  nodes : g.nodes = f.nodes
  bindings : g.bindings = f.bindings
  table : g.table? t = some table
  others : ∀ t', t' ≠ t → g.table? t' = f.table? t'

namespace Filled

variable {t : TableId} {table table' : Table} {g h : Forest}

theorem trans (hfg : Filled t table f g) (hgh : Filled t table' g h) : Filled t table' f h where
  nodes := hgh.nodes.trans hfg.nodes
  bindings := hgh.bindings.trans hfg.bindings
  table := hgh.table
  others t' ht' := (hgh.others t' ht').trans (hfg.others t' ht')

theorem node? (h : Filled t table f g) (j : NodeId) : g.node? j = f.node? j := by
  unfold Forest.node?
  rw [h.nodes]

theorem binding? (h : Filled t table f g) (b : BindingId) : g.binding? b = f.binding? b := by
  unfold Forest.binding?
  rw [h.bindings]

end Filled

theorem grows_changeTable {t : TableId} {table : Table} (h : f.table? t = some table)
    (step : Table → Table) :
    Grows f (changeTable t step) fun _ g => Filled t (step table) f g := by
  unfold changeTable
  apply grows_change
  refine ⟨rfl, rfl, ?_, ?_⟩
  · rw [table?_modify, if_pos rfl, h, Option.map_some]
  · intro t' ht'
    rw [table?_modify, if_neg ht']

theorem grows_insertInto {t : TableId} {bs : List BindingId} {b : BindingId}
    (ht : f.table? t = some ⟨bs, none, none⟩) (hb : (f.binding? b).isSome) :
    Grows f (insertInto t b) fun _ g => Filled t ⟨bs ++ [b], none, none⟩ f g := by
  unfold insertInto
  refine grows_bind (grows_forest (Q := fun g h => g = f ∧ h = f) ⟨rfl, rfl⟩) ?_
  rintro _ _ ⟨rfl, rfl⟩
  obtain ⟨binding, hbinding⟩ := Option.isSome_iff_exists.1 hb
  have hchange := grows_changeTable ht fun t => { t with bindings := t.bindings ++ [b] }
  simp only [hbinding, ht, Option.bind_some]
  split
  · refine grows_bind (grows_remark (Q := fun _ h => h = _) rfl _) ?_
    rintro _ _ rfl
    exact grows_bind hchange fun _ g hg => grows_pure hg
  · exact grows_bind hchange fun _ g hg => grows_pure hg

theorem grows_insertAll {t : TableId} {bs : List BindingId} (more : List BindingId)
    (ht : f.table? t = some ⟨bs, none, none⟩) (hmore : ∀ b ∈ more, (f.binding? b).isSome) :
    Grows f (insertAll t more) fun _ g => Filled t ⟨bs ++ more, none, none⟩ f g := by
  induction more generalizing f bs with
  | nil => exact grows_pure ⟨rfl, rfl, by rwa [List.append_nil], fun _ _ => rfl⟩
  | cons b more ih =>
    refine grows_bind (grows_insertInto ht (hmore b List.mem_cons_self)) ?_
    intro _ g hg
    refine grows_mono (ih hg.table fun b' hb' => ?_) fun _ h hh => ?_
    · rw [hg.binding?]
      exact hmore b' (List.mem_cons_of_mem b hb')
    · rw [List.append_assoc] at hh
      exact hg.trans hh

theorem grows_placeTable :
    Grows f placeTable fun t g => t = ⟨f.tables.size⟩ ∧ Filled t ⟨[], none, none⟩ f g := by
  unfold placeTable
  refine grows_bind (grows_forest (Q := fun g h => g = f ∧ h = f) ⟨rfl, rfl⟩) ?_
  rintro _ f ⟨rfl, rfl⟩
  refine grows_bind (grows_change
    (Q := fun _ g => Filled ⟨f.tables.size⟩ ⟨[], none, none⟩ f g) ⟨rfl, rfl, ?_, ?_⟩)
    fun _ g hg => grows_pure ⟨rfl, hg⟩
  · rw [table?_push, if_pos rfl]
  · rintro ⟨t'⟩ ht'
    rw [table?_push, if_neg fun heq => ht' (congrArg TableId.mk heq)]

theorem grows_newTable {bs : List BindingId} (hbs : ∀ b ∈ bs, (f.binding? b).isSome) :
    Grows f (newTable bs) fun t g => t = ⟨f.tables.size⟩ ∧ Filled t ⟨bs, none, none⟩ f g := by
  refine grows_bind grows_placeTable ?_
  rintro t g ⟨ht, hg⟩
  refine grows_bind (grows_insertAll bs hg.table fun b hb => ?_) fun _ h hh =>
    grows_pure ⟨ht, hg.trans hh⟩
  rw [hg.binding?]
  exact hbs b hb

/-! ## Attaching tables -/

theorem Forest.Row.append {g : Forest} {owner : NodeId} {start : Option TableId}
    {ts : List TableId} {last t : TableId} (h : f.Row owner start ts)
    (hts : ts.getLast? = some last) (hnew : t ∉ ts) (ht : g.Row owner (some t) [t])
    (hothers : ∀ s table, s ≠ last → s ≠ t → f.table? s = some table → g.table? s = some table)
    (hlast : ∀ table, f.table? last = some table →
      g.table? last = some { table with enclosing := some t }) :
    g.Row owner start (ts ++ [t]) := by
  induction h with
  | nil => cases hts
  | @cons s ts table htable howner hnot hrow ih =>
    have hst : s ≠ t := fun heq => hnew (by simp [heq])
    cases ts with
    | nil =>
      cases hts
      exact .cons (hlast table htable) howner (by simpa using hst) ht
    | cons s' ts' =>
      rw [List.getLast?_cons_cons] at hts
      have hmem := List.mem_of_getLast? hts
      have hne : s ≠ last := fun heq => hnot (heq ▸ hmem)
      refine .cons (hothers s table hne hst htable) howner ?_
        (ih hts fun hmem => hnew (List.mem_cons_of_mem s hmem))
      simpa [hst] using hnot

/-- a forest in which a table has become the outermost one of a node -/
structure Attached (id : NodeId) (t : TableId) (ts : List TableId) (scope : Option TableId)
    (f g : Forest) : Prop where
  bindings : g.bindings = f.bindings
  size : g.nodes.size = f.nodes.size
  row : g.Row id scope (ts ++ [t])
  nodes : ∀ j, g.node? j = if j = id then (f.node? j).map fun node => { node with scope := scope }
    else f.node? j
  held : ∀ t', (g.table? t').map (·.bindings) = (f.table? t').map (·.bindings)
  others : ∀ t' table, f.table? t' = some table → table.owner ≠ some id → t' ≠ t →
    g.table? t' = some table

theorem Filled.held {t : TableId} {table table' : Table} {g : Forest} (h : Filled t table' f g)
    (ht : f.table? t = some table) (hsame : table'.bindings = table.bindings) (t' : TableId) :
    (g.table? t').map (·.bindings) = (f.table? t').map (·.bindings) := by
  by_cases heq : t' = t
  · rw [heq, h.table, ht, Option.map_some, Option.map_some, hsame]
  · rw [h.others t' heq]

section
variable {g : Forest} {id : NodeId} {node : Node} {t : TableId} {ts : List TableId}
  {bs : List BindingId}

theorem attached_first (hscope : node.scope = none) (hrow : f.Row id node.scope ts)
    (ht : f.table? t = some ⟨bs, none, none⟩) (hg : Filled t ⟨bs, none, some id⟩ f g) :
    Attached id t ts (some t) f
      { g with nodes := g.nodes.modify id.index fun n => { n with scope := some t } } := by
  rw [hscope] at hrow
  cases hrow with
  | nil =>
    refine ⟨hg.bindings, ?_, ?_, ?_, hg.held ht rfl, ?_⟩
    · rw [Array.size_modify, hg.nodes]
    · exact Row.cons hg.table rfl List.not_mem_nil .nil
    · intro j
      rw [node?_modify, hg.node?]
    · intro t' table h _ hne
      exact (hg.others t' hne).trans h

theorem attached_last {h : Forest} {last : TableId} {outermost : Table}
    (hnode : f.node? id = some node) (hrow : f.Row id node.scope ts)
    (ht : f.table? t = some ⟨bs, none, none⟩) (hg : Filled t ⟨bs, none, some id⟩ f g)
    (hlast : ts.getLast? = some last) (houtermost : g.table? last = some outermost)
    (hh : Filled last { outermost with enclosing := some t } g h) (hnew : t ∉ ts) :
    Attached id t ts node.scope f h := by
  have hne : t ≠ last := fun heq => hnew (heq ▸ List.mem_of_getLast? hlast)
  have hrow' : h.Row id (some t) [t] := by
    have ht' : h.table? t = some ⟨bs, none, some id⟩ := (hh.others t hne).trans hg.table
    exact .cons ht' rfl List.not_mem_nil .nil
  refine ⟨hh.bindings.trans hg.bindings, by rw [hh.nodes, hg.nodes], ?_, fun j => ?_, fun t' => ?_,
    fun t' table htable howner hne' => ?_⟩
  · refine hrow.append hlast hnew hrow' (fun s table hs hst htable => ?_) fun table htable => ?_
    · rw [hh.others s hs, hg.others s hst, htable]
    · rw [← hg.others last hne.symm, houtermost] at htable
      cases htable
      exact hh.table
  · rw [hh.node?, hg.node?]
    split
    · next hj =>
      rw [hj, hnode]
      rfl
    · rfl
  · rw [hh.held houtermost rfl, hg.held ht rfl]
  · obtain ⟨table', htable', howner'⟩ := hrow.table (List.mem_of_getLast? hlast)
    have hne'' : t' ≠ last := fun heq => by
      rw [heq, htable'] at htable
      cases htable
      exact howner howner'
    rw [hh.others t' hne'', hg.others t' hne', htable]

/-- **A new table becomes the outermost one of a node**, to which its bound nodes are linked. -/
theorem grows_attach (hnode : f.node? id = some node) (hrow : f.Row id node.scope ts)
    (ht : f.table? t = some ⟨bs, none, none⟩) :
    Grows f (attach id t) fun _ g =>
      ∃ scope h, Attached id t ts scope f h ∧ Adopted id (f.bodies t) h g := by
  have hnew : t ∉ ts := fun hmem => by
    obtain ⟨table, htable, howner⟩ := hrow.table hmem
    rw [ht] at htable
    cases htable
    cases howner
  unfold attach
  refine grows_bind (grows_forest (Q := fun g h => g = f ∧ h = f) ⟨rfl, rfl⟩) ?_
  rintro _ _ ⟨rfl, rfl⟩
  simp only [ht, hnode, Option.bind_some]
  refine grows_bind (grows_changeTable ht fun t => { t with owner := some id }) ?_
  intro _ g hg
  rcases hscope : node.scope with _ | innermost
  · refine grows_bind (grows_change (Q := fun _ h => Attached id t ts (some t) _ h)
      (attached_first hscope hrow ht hg)) fun _ h hh => ?_
    exact grows_mono (grows_adoptAll id _) fun _ k hk => ⟨some t, h, hh, hk⟩
  · have hne : innermost ≠ t := by
      rw [hscope] at hrow
      cases hrow with
      | cons _ _ _ _ => exact fun heq => hnew (by simp [heq])
    rw [hscope] at hrow
    dsimp only
    rw [if_pos hne, hrow.tablesFrom]
    rcases hlast : ts.getLast? with _ | last
    · cases hrow with
      | cons _ _ _ _ => simp at hlast
    · have hmem := List.mem_of_getLast? hlast
      obtain ⟨outermost, houtermost, _⟩ := hrow.table hmem
      rw [← hg.others last fun heq => hnew (heq ▸ hmem)] at houtermost
      rw [← hscope] at hrow
      refine grows_bind (grows_changeTable houtermost fun t' => { t' with enclosing := some t })
        fun _ h hh => ?_
      exact grows_mono (grows_adoptAll id _) fun _ k hk => ⟨node.scope, h,
        attached_last hnode hrow ht hg hlast houtermost hh hnew, hk⟩

end

end Abacus
