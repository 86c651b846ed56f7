import Abacus.Proofs.Source.Grammar
import Abacus.Proofs.Source.Planting

/-!
# Where the nodes of a planted forest are

While a form is planted, every node is directly below another one, unless it is one of those that
wait for a node around them, and every table is one of a node.  No step takes a node or a table away
from where it is.

* `Forest.Home`       the tables of a node, and what is directly below it;
* `Forest.Housed`     every node has a place, but for some that wait for one;
* `Kept`              what is at a node stays there;
* `housed_form`       **planting a form leaves its node waiting**, and no other;
* `Sown.housed`       every node of a source has a place, but for the root.
-/

namespace Abacus

open Growth

namespace Forest

variable {f g h : Forest}

/-! ## Homes -/

/-- the tables of a node, and everything directly below it -/
def Home (f : Forest) (id : NodeId) (ts : List TableId) (refs : List Ref) : Prop :=
  ∃ node, f.node? id = some node ∧ f.Row id node.scope ts ∧ refs = f.below ts node.shape

/-- **Every node is directly below another one**, but for those that wait, and every table is one of
a node. -/
structure Housed (f : Forest) (waiting : List NodeId) : Prop where
  node : ∀ c, (f.node? c).isSome → c ∉ waiting → ∃ id ts refs, f.Home id ts refs ∧ .node c ∈ refs
  table : ∀ t, (f.table? t).isSome → ∃ id ts refs, f.Home id ts refs ∧ t ∈ ts

def Kept (f g : Forest) : Prop :=
  ∀ id ts refs, f.Home id ts refs → ∃ ts' refs', g.Home id ts' refs' ∧ ts ⊆ ts' ∧ refs ⊆ refs'

theorem Kept.trans (hfg : Kept f g) (hgh : Kept g h) : Kept f h := by
  intro id ts refs hhome
  obtain ⟨ts', refs', hhome', hts, hrefs⟩ := hfg id ts refs hhome
  obtain ⟨ts'', refs'', hhome'', hts', hrefs'⟩ := hgh id ts' refs' hhome'
  exact ⟨ts'', refs'', hhome'', fun t ht => hts' (hts ht), fun r hr => hrefs' (hrefs hr)⟩

theorem bodies_congr {t : TableId}
    (hheld : (g.table? t).map (·.bindings) = (f.table? t).map (·.bindings))
    (hbindings : g.bindings = f.bindings) : g.bodies t = f.bodies t := by
  unfold bodies
  rw [bindingsOf_congr hheld hbindings]

theorem Home.mono {id : NodeId} {ts : List TableId} {refs : List Ref} (hhome : f.Home id ts refs)
    (hnode : ∀ node, f.node? id = some node →
      ∃ node', g.node? id = some node' ∧ node'.shape = node.shape ∧ node'.scope = node.scope)
    (htables : ∀ t table, f.table? t = some table → table.owner = some id →
      g.table? t = some table)
    (hbodies : ∀ t ∈ ts, g.bodies t = f.bodies t) : g.Home id ts refs := by
  obtain ⟨node, hid, hrow, rfl⟩ := hhome
  obtain ⟨node', hid', hshape, hscope⟩ := hnode node hid
  refine ⟨node', hid', ?_, ?_⟩
  · rw [hscope]
    exact hrow.mono htables
  · unfold below
    rw [hshape, List.flatMap_congr hbodies]

theorem Linked.home (hf : f.Linked) {id : NodeId} {ts : List TableId} {refs : List Ref}
    (hhome : f.Home id ts refs) :
    ∃ node, f.LinkedNode id node ts ∧ f.node? id = some node ∧ refs = f.below ts node.shape := by
  obtain ⟨node, hnode, hrow, hrefs⟩ := hhome
  have hlinked := hf.linkedNode hnode
  rw [show f.tablesOf node = ts from hrow.tablesFrom] at hlinked
  exact ⟨node, hlinked, hnode, hrefs⟩

theorem Bind.unique {bs : List BindingId} {cs cs' : List NodeId} (h : f.Bind bs cs)
    (h' : f.Bind bs cs') : cs = cs' := by
  induction h generalizing cs' with
  | nil =>
    cases h'
    rfl
  | cons hx _ ih =>
    cases h' with
    | cons hx' hrest =>
      obtain ⟨x, hx, hbody⟩ := hx
      obtain ⟨x', hx', hbody'⟩ := hx'
      rw [hx, Option.some.injEq] at hx'
      rw [hx', hbody', Ref.node.injEq] at hbody
      rw [hbody, ih hrest]

/-- **What has a place keeps it**, so that only what is new must be given one. -/
theorem Housed.step {waiting waiting' : List NodeId} (hf : f.Housed waiting) (hk : Kept f g)
    (hnode : ∀ c, (g.node? c).isSome → c ∉ waiting' → ((f.node? c).isSome ∧ c ∉ waiting) ∨
      ∃ id ts refs, g.Home id ts refs ∧ .node c ∈ refs)
    (htable : ∀ t, (g.table? t).isSome → (f.table? t).isSome ∨
      ∃ id ts refs, g.Home id ts refs ∧ t ∈ ts) : g.Housed waiting' where
  node c hc hwaiting := by
    rcases hnode c hc hwaiting with ⟨hold, hwaiting⟩ | hnew
    · obtain ⟨id, ts, refs, hhome, hmem⟩ := hf.node c hold hwaiting
      obtain ⟨ts', refs', hhome', _, hrefs⟩ := hk id ts refs hhome
      exact ⟨id, ts', refs', hhome', hrefs hmem⟩
    · exact hnew
  table t ht := by
    rcases htable t ht with hold | hnew
    · obtain ⟨id, ts, refs, hhome, hmem⟩ := hf.table t hold
      obtain ⟨ts', refs', hhome', hts, _⟩ := hk id ts refs hhome
      exact ⟨id, ts', refs', hhome', hts hmem⟩
    · exact hnew

theorem Housed.mono {waiting waiting' : List NodeId} (hf : f.Housed waiting)
    (hsub : waiting ⊆ waiting') : f.Housed waiting' where
  node c hc hwaiting := hf.node c hc fun hmem => hwaiting (hsub hmem)
  table := hf.table

/-! ## A new node around others -/

section
variable {cs waiting : List NodeId} {shape : Shape} {id : NodeId}

theorem kept_compound (hid : id = ⟨g.nodes.size⟩) (hh : Adopted id shape.children
    { g with nodes := g.nodes.push ⟨shape, none, none⟩ } h) : Kept g h := by
  intro j ts refs hhome
  have hj : j ≠ id := by
    obtain ⟨node, hnode, _⟩ := hhome
    have hlt := lt_of_node? hnode
    rintro rfl
    rw [hid] at hlt
    exact Nat.lt_irrefl _ hlt
  refine ⟨ts, refs, hhome.mono ?_ ?_ ?_, List.Subset.refl ts, List.Subset.refl refs⟩
  · intro node hnode
    refine ⟨adoptedNode id shape.children j node, ?_, by simp, by simp⟩
    rw [compound_other hid hh hj, hnode, Option.map_some]
  · intro t table ht _
    rw [hh.table?]
    exact ht
  · intro t _
    refine bodies_congr ?_ hh.bindings
    rw [hh.table?]
    rfl

/-- **A new node around nodes that wait** waits in their place. -/
theorem housed_compound (hg : g.Housed (cs ++ waiting)) (hfree : g.Free cs)
    (hcs : shape.children = cs.map .node) (hid : id = ⟨g.nodes.size⟩)
    (hh : Adopted id shape.children { g with nodes := g.nodes.push ⟨shape, none, none⟩ } h) :
    h.Housed (id :: waiting) := by
  have hself : h.Home id [] (cs.map .node) := by
    have hnot : .node id ∉ shape.children := by
      rw [hcs, List.mem_map_of_injective node_injective]
      intro hmem
      obtain ⟨m, hm, _⟩ := hfree.free id hmem
      have hlt := lt_of_node? hm
      rw [hid] at hlt
      exact Nat.lt_irrefl _ hlt
    refine ⟨_, compound_self hid hh hnot, .nil, ?_⟩
    exact hcs.symm
  refine hg.step (kept_compound hid hh) ?_ ?_
  · intro c hc hwaiting
    rw [List.mem_cons, not_or] at hwaiting
    by_cases hmem : c ∈ cs
    · exact Or.inr ⟨id, [], _, hself, List.mem_map_of_mem hmem⟩
    · rw [compound_other hid hh hwaiting.1, Option.isSome_map] at hc
      refine Or.inl ⟨hc, fun h => ?_⟩
      exact (List.mem_append.1 h).elim hmem hwaiting.2
  · intro t ht
    rw [hh.table?] at ht
    exact Or.inl ht

end

/-! ## New bindings, and a new table around a node -/

section
variable {cs waiting : List NodeId}

theorem housed_binding (hf : f.Linked) (hhoused : f.Housed waiting) (binding : Binding) :
    ({ f with bindings := f.bindings.push binding } : Forest).Housed waiting := by
  have hkept : Kept f { f with bindings := f.bindings.push binding } := by
    intro id ts refs hhome
    refine ⟨ts, refs, hhome.mono ?_ ?_ ?_, List.Subset.refl ts, List.Subset.refl refs⟩
    · intro node hnode
      exact ⟨node, hnode, rfl, rfl⟩
    · intro t table ht _
      exact ht
    · intro t ht
      obtain ⟨node, hlinked, _, _⟩ := hf.home hhome
      obtain ⟨table, htable, _⟩ := hlinked.row.table ht
      have hsame : ({ f with bindings := f.bindings.push binding } : Forest).bindingsOf t =
          f.bindingsOf t := by
        refine bindingsOf_mono htable htable rfl (hlinked.bound t ht table htable) ?_
        intro b x hb
        rw [binding?_push, if_neg (Nat.ne_of_lt (lt_of_binding? hb))]
        exact hb
      exact congrArg (List.map (·.2.body)) hsame
  exact hhoused.step hkept (fun c hc hwaiting => Or.inl ⟨hc, hwaiting⟩) fun t ht => Or.inl ht

theorem kept_filled {t : TableId} {table : Table} (ht : t = ⟨g.tables.size⟩)
    (hh : Filled t table g h) : Kept g h := by
  intro id ts refs hhome
  refine ⟨ts, refs, hhome.mono ?_ ?_ ?_, List.Subset.refl ts, List.Subset.refl refs⟩
  · intro node hnode
    exact ⟨node, (hh.node? id).trans hnode, rfl, rfl⟩
  · intro t' table' ht' _
    exact table?_filled ht hh ht'
  · intro t' ht'
    obtain ⟨node, _, hrow, _⟩ := hhome
    obtain ⟨table', htable', _⟩ := hrow.table ht'
    refine bodies_congr ?_ hh.bindings
    rw [table?_filled ht hh htable', htable']

variable {k : Forest} {id : NodeId} {t : TableId} {ts : List TableId} {scope : Option TableId}
  {bs : List BindingId}

/-- the node that a table is attached to has it, and what is bound in it is below the node -/
theorem home_attached {refs : List Ref} (hhome : g.Home id ts refs)
    (ht : g.table? t = some ⟨bs, none, none⟩) (hb : g.Bind bs cs) (hid : id ∉ cs)
    (hh : Attached id t ts scope g h) (hk : Adopted id (cs.map .node) h k) :
    ∃ refs', k.Home id (ts ++ [t]) refs' ∧ refs ⊆ refs' ∧ cs.map .node ⊆ refs' := by
  obtain ⟨node, hnode, _, rfl⟩ := hhome
  refine ⟨_, ⟨_, attached_self hh hk hnode hid, ?_, rfl⟩, ?_⟩
  · exact hh.row.mono fun t' table htable _ => by rwa [hk.table?]
  · rw [below_attached ht hb hh hk]
    unfold below
    constructor
    · intro ref href
      simp only [List.mem_append] at href ⊢
      tauto
    · intro ref href
      simp only [List.mem_append]
      tauto

theorem kept_attached (hhome : ∃ refs, g.Home id ts refs) (ht : g.table? t = some ⟨bs, none, none⟩)
    (hb : g.Bind bs cs) (hid : id ∉ cs) (hh : Attached id t ts scope g h)
    (hk : Adopted id (cs.map .node) h k) : Kept g k := by
  intro j us refs hj
  by_cases heq : j = id
  · subst heq
    have hus : us = ts := by
      obtain ⟨_, node, hnode, hrow, _⟩ := hhome
      obtain ⟨node', hnode', hrow', _⟩ := hj
      rw [hnode, Option.some.injEq] at hnode'
      rw [← hrow.tablesFrom, ← hrow'.tablesFrom, hnode']
    subst hus
    obtain ⟨refs', hhome', hrefs, _⟩ := home_attached hj ht hb hid hh hk
    exact ⟨_, refs', hhome', fun t ht => List.mem_append_left _ ht, hrefs⟩
  · refine ⟨us, refs, hj.mono ?_ ?_ ?_, List.Subset.refl us, List.Subset.refl refs⟩
    · intro node hnode
      exact ⟨_, attached_other hh hk hnode heq, by simp, by simp⟩
    · intro t' table htable howner
      exact table?_attached ht hh hk htable howner heq
    · intro t' _
      refine bodies_congr ?_ (hk.bindings.trans hh.bindings)
      rw [hk.table?]
      exact hh.held t'

/-- **A new table around a node that waits**: what is bound in the table waits no longer. -/
theorem housed_scope (hg : g.Housed (cs ++ id :: waiting)) (hhome : ∃ refs, g.Home id ts refs)
    (hb : g.Bind bs cs) (hid : id ∉ cs) (hadded : ScopeAdded id bs ts g k) :
    k.Housed (id :: waiting) := by
  obtain ⟨t, h, scope, h', ht, hfilled, hattached, hadopted⟩ := hadded
  have hb' : h.Bind bs cs := hb.mono fun b x hx => by
    rw [hfilled.binding?]
    exact hx
  rw [hb'.bodies hfilled.table rfl] at hadopted
  have hhome' : ∃ refs, h.Home id ts refs := by
    obtain ⟨refs, node, hnode, hrow, _⟩ := hhome
    refine ⟨_, node, (hfilled.node? id).trans hnode, ?_, rfl⟩
    exact hrow.mono fun t' table htable _ => table?_filled ht hfilled htable
  have hkept : Kept g k := (kept_filled ht hfilled).trans
    (kept_attached hhome' hfilled.table hb' hid hattached hadopted)
  obtain ⟨refs, hrefs⟩ := hhome'
  obtain ⟨refs', hnew, _, hcs⟩ := home_attached hrefs hfilled.table hb' hid hattached hadopted
  refine hg.step hkept ?_ ?_
  · intro c hc hwaiting
    rw [List.mem_cons, not_or] at hwaiting
    by_cases hmem : c ∈ cs
    · exact Or.inr ⟨id, _, refs', hnew, hcs (List.mem_map_of_mem hmem)⟩
    · rw [hadopted.nodes, hattached.nodes, if_neg hwaiting.1, Option.isSome_map,
        hfilled.node?] at hc
      refine Or.inl ⟨hc, ?_⟩
      rw [List.mem_append, List.mem_cons]
      tauto
  · intro t' ht'
    by_cases heq : t' = t
    · exact Or.inr ⟨id, _, refs', hnew, by simp [heq]⟩
    · left
      rw [hadopted.table?, ← Option.isSome_map (f := (·.bindings)), hattached.held, Option.isSome_map,
        hfilled.others t' heq] at ht'
      exact ht'

end

end Forest

/-! ## Planting -/

open Forest

variable {f g : Forest} {waiting : List NodeId}

theorem housed_leaf {shape : Shape} (hf : f.Housed waiting) (hleaf : shape.children = []) :
    Grows f (placeShape shape) fun id g => g.Housed (id :: waiting) := by
  refine grows_mono grows_placeShape ?_
  rintro id g ⟨hid, rfl⟩
  have hfree : f.Free [] := ⟨List.nodup_nil, fun c hc => by cases hc⟩
  refine housed_compound (show f.Housed ([] ++ waiting) from hf) hfree hleaf hid ?_
  rw [hleaf]
  exact adopted_nil id _

theorem housed_forms {forms : List Form} (hforms : ∀ form ∈ forms, ∀ (f : Forest) waiting,
      f.Linked → f.Housed waiting → Grows f (plantForm form) fun id g => g.Housed (id :: waiting))
    (hf : f.Linked) (hhoused : f.Housed waiting) :
    Grows f (plantForms forms) fun ids g => g.Housed (ids ++ waiting) := by
  induction forms generalizing f waiting with
  | nil => exact grows_pure hhoused
  | cons form rest ih =>
    unfold plantForms
    refine grows_bind (grows_and (grows_plantForm form hf)
      (hforms form List.mem_cons_self f waiting hf hhoused)) ?_
    rintro id g ⟨hg, hhousedg⟩
    refine grows_bind (ih (fun form hform => hforms form (List.mem_cons_of_mem _ hform))
      hg.linked hhousedg) ?_
    intro ids h hh
    refine grows_pure (hh.mono ?_)
    intro c hc
    simp only [List.mem_append, List.mem_cons, List.cons_append] at hc ⊢
    tauto

theorem housed_placeBinding {c : NodeId} {binding : Binding} (hf : f.Linked)
    (hhoused : f.Housed (c :: waiting)) (hbody : binding.body = .node c) :
    Grows f (placeBinding binding) fun b g => ∀ cs, g.Bind [b] cs → g.Housed (cs ++ waiting) := by
  refine grows_mono (grows_bound binding) ?_
  rintro b g ⟨rfl, rfl⟩ cs hb
  obtain ⟨c', _, ⟨x, hx, hbody'⟩, hnil, rfl⟩ := List.forall₂_cons_left_iff.1 hb
  cases hnil
  rw [binding?_push, if_pos rfl, Option.some.injEq] at hx
  rw [← hx, hbody] at hbody'
  cases hbody'
  exact housed_binding hf hhoused binding

theorem housed_definitions {ds : List Definition} (hds : ∀ d ∈ ds, ∀ (f : Forest) waiting,
      f.Linked → f.Housed waiting → Grows f (plantDefinition d) fun b g =>
        ∀ cs, g.Bind [b] cs → g.Housed (cs ++ waiting))
    (hf : f.Linked) (hhoused : f.Housed waiting) : Grows f (plantDefinitions ds) fun bs g =>
      ∀ cs, g.Bind bs cs → g.Housed (cs ++ waiting) := by
  induction ds generalizing f waiting with
  | nil =>
    refine grows_pure ?_
    intro cs hcs
    cases hcs
    exact hhoused
  | cons d rest ih =>
    unfold plantDefinitions
    refine grows_bind (grows_and (grows_plantDefinition d hf)
      (hds d List.mem_cons_self f waiting hf hhoused)) ?_
    rintro b g ⟨⟨c, hg, hb⟩, hhousedg⟩
    refine grows_bind (grows_and (grows_plantDefinitions rest hg.linked)
      (ih (fun d hd => hds d (List.mem_cons_of_mem _ hd)) hg.linked (hhousedg [c] hb))) ?_
    rintro bs h ⟨⟨_, hh, _⟩, hhousedh⟩
    refine grows_pure ?_
    intro cs hcs
    obtain ⟨c', cs, hb', hbs, rfl⟩ := List.forall₂_cons_left_iff.1 hcs
    obtain rfl : c = c' := by
      have hsame : h.Bind [b] [c'] := .cons hb' .nil
      exact List.head_eq_of_cons_eq ((hb.mono hh.grown.bindings).unique hsame)
    refine (hhousedh cs hbs).mono ?_
    intro j hj
    simp only [List.mem_append, List.mem_cons, List.cons_append, List.not_mem_nil] at hj ⊢
    tauto

/-- **Planting a form leaves its node waiting**, and no other than those that waited before. -/
theorem housed_form :
    (∀ form : Form, ∀ (f : Forest) waiting, f.Linked → f.Housed waiting →
      Grows f (plantForm form) fun id g => g.Housed (id :: waiting)) ∧
    ∀ d : Definition, ∀ (f : Forest) waiting, f.Linked → f.Housed waiting →
      Grows f (plantDefinition d) fun b g => ∀ cs, g.Bind [b] cs → g.Housed (cs ++ waiting) := by
  refine Form.induction ?_ ?_ ?_ ?_ ?_ ?_ ?_
  · intro kind text f waiting _ hhoused
    exact housed_leaf hhoused rfl
  · intro name f waiting _ hhoused
    exact housed_leaf hhoused rfl
  · intro name operands ih f waiting hf hhoused
    unfold plantForm
    refine grows_bind (grows_and (grows_plantForms operands hf) (housed_forms ih hf hhoused)) ?_
    rintro ids g ⟨hg, hhousedg⟩
    refine grows_mono (grows_call name _) ?_
    rintro id h ⟨hid, hh⟩
    have hchildren : (callShape name (ids.map .node)).children = ids.map .node := rfl
    exact housed_compound hhousedg hg.free hchildren hid hh
  · intro test ifTrue ifFalse iha ihb ihc f waiting hf hhoused
    unfold plantForm
    refine grows_bind (grows_and (grows_plantForm test hf) (iha f waiting hf hhoused)) ?_
    rintro a g ⟨hg, hhousedg⟩
    refine grows_bind (grows_and (grows_plantForm ifTrue hg.linked)
      (ihb g _ hg.linked hhousedg)) ?_
    rintro b h ⟨hh, hhousedh⟩
    refine grows_bind (grows_and (grows_plantForm ifFalse hh.linked)
      (ihc h _ hh.linked hhousedh)) ?_
    rintro c k ⟨hk, hhousedk⟩
    refine grows_mono (grows_shape (.choice (.node a) (.node b) (.node c))) ?_
    rintro id l ⟨hid, hl⟩
    refine housed_compound (hhousedk.mono ?_) ((hg.append hh).append hk).free rfl hid hl
    intro j hj
    simp only [List.mem_append, List.mem_cons, List.cons_append, List.not_mem_nil] at hj ⊢
    tauto
  · intro definitions body ihds ihbody f waiting hf hhoused
    unfold plantForm
    refine grows_bind (grows_and (grows_plantDefinitions definitions hf)
      (housed_definitions ihds hf hhoused)) ?_
    rintro bs g ⟨⟨cs, hg, hb⟩, hhousedg⟩
    refine grows_bind (grows_and (grows_plantForm body hg.linked)
      (ihbody g _ hg.linked (hhousedg cs hb))) ?_
    rintro id h ⟨hh, hhousedh⟩
    have hall := hg.append hh
    obtain ⟨node, hnode, _⟩ := hall.free.free id (by simp)
    obtain ⟨ts, hlinked⟩ := hh.linked id node hnode
    have hb' := hb.mono hh.grown.bindings
    refine grows_bind (grows_scope hnode hlinked.row hb'.isSome) ?_
    rintro _ k hk
    refine grows_pure ?_
    rcases hk with ⟨rfl, rfl⟩ | ⟨_, hadded⟩
    · cases hb
      exact hhousedh
    · refine housed_scope (hhousedh.mono ?_) ⟨_, node, hnode, hlinked.row, rfl⟩ hb' ?_ hadded
      · intro j hj
        simp only [List.mem_append, List.mem_cons] at hj ⊢
        tauto
      · intro hmem
        exact (List.nodup_append'.1 hall.free.nodup).2.2 hmem (List.mem_singleton_self id)
  · intro name body type ih f waiting hf hhoused
    unfold plantDefinition
    refine grows_bind (grows_and (grows_plantForm body hf) (ih f waiting hf hhoused)) ?_
    rintro c g ⟨hg, hhousedg⟩
    refine grows_bind (grows_plantType type) ?_
    rintro kind _ ⟨_, rfl⟩
    exact housed_placeBinding hg.linked hhousedg rfl
  · intro name parameters body type ih f waiting hf hhoused
    unfold plantDefinition
    refine grows_bind (grows_and (grows_plantForm body hf) (ih f waiting hf hhoused)) ?_
    rintro c g ⟨hg, hhousedg⟩
    refine grows_bind (grows_plantType type) ?_
    rintro kind _ ⟨_, rfl⟩
    refine grows_bind (grows_remarkAll _) ?_
    rintro _ _ rfl
    exact housed_placeBinding hg.linked hhousedg rfl

theorem housed_empty : Forest.empty.Housed [] := by
  refine ⟨fun c hc => ?_, fun t ht => ?_⟩
  · cases hc
  · cases ht

/-- **Every node of a source has a place**, but for its root, and every table too. -/
theorem Sown.housed {source : String} {root : NodeId} (h : Sown source root f) :
    f.Housed [root] := by
  obtain ⟨remarks, hrun⟩ := h
  have hgrows : Grows .empty (plantSource source) fun id g => g.Housed [id] := by
    unfold plantSource
    refine grows_bind (P := fun _ g => g = .empty) (grows_lift fun _ _ => rfl) ?_
    rintro form g rfl
    exact housed_form.1 form .empty [] linked_empty housed_empty
  exact hgrows [] root _ hrun

end Abacus
