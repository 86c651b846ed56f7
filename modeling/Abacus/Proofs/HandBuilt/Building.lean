import Abacus.Proofs.Evaluation.Counting

/-!
# Trees with calls put together by hand

The same is made twice: by the factories alone, and with a call put together by hand wherever a
factory makes one.  Where calls of built-in operators have enough operands, the two come to the same
end, with the same tables and bindings and the same nodes, except that the calls of the second are
still to be counted.  What the factories remark on surplus operands, the second leaves out.

* `Making.byHand`, `Making.Ample`, `assemble`   the two ways, and where they are compared;
* `Forest.ByHand`     how the forests are related;
* `Draft.Twin`        how the forests and the remarks are;
* `twin_assemble`     **the two ways come to the same end**.
-/

namespace Abacus

open Growth Forest

/-! ## The two ways -/

namespace Making

/-- what the factory makes, but a call is put together by hand: its operands are neither counted
nor linked to it -/
def byHand : Making → Growth Unit
  | .call name operands =>
    let operator := Operator.ofName name
    discard (newRawCall operator (if operator = .custom then some name else none) operands)
  | m => m.perform

def Ample : Making → Prop
  | .call name operands => ∀ b, Operator.ofName name = .builtin b → b.arity.least ≤ operands.length
  | _ => True

end Making

def assemble (make : Making → Growth Unit) : List Making → Growth Unit
  | [] => pure ()
  | m :: rest => do
    make m
    assemble make rest

/-! ## Forests -/

def Shape.byHand : Shape → Shape
  | .call operator ident operands _ => .call operator ident operands false
  | shape => shape

namespace Forest

def shapes (f : Forest) : List Shape := f.nodes.toList.map (·.shape)

def scopes (f : Forest) : List (Option TableId) := f.nodes.toList.map (·.scope)

@[simp] theorem shapes_push (f : Forest) (n : Node) :
    ({ f with nodes := f.nodes.push n } : Forest).shapes = f.shapes ++ [n.shape] := by
  simp [shapes]

@[simp] theorem scopes_push (f : Forest) (n : Node) :
    ({ f with nodes := f.nodes.push n } : Forest).scopes = f.scopes ++ [n.scope] := by
  simp [scopes]

/-- **The second forest is the first one with calls put together by hand**: the same but for the
nodes around nodes, and with calls still to be counted. -/
structure ByHand (g h : Forest) : Prop where
  tables : h.tables = g.tables
  bindings : h.bindings = g.bindings
  shapes : h.shapes = g.shapes.map Shape.byHand
  scopes : h.scopes = g.scopes
  made : ∀ shape ∈ g.shapes, shape.Made

/-- forests that differ at most in the nodes around nodes -/
structure Kin (f f' : Forest) : Prop where
  tables : f'.tables = f.tables
  bindings : f'.bindings = f.bindings
  shapes : f'.shapes = f.shapes
  scopes : f'.scopes = f.scopes

section
variable {f g g' h h' : Forest}

theorem Kin.refl (f : Forest) : f.Kin f := ⟨rfl, rfl, rfl, rfl⟩

theorem Kin.trans (h : f.Kin g) (h' : g.Kin g') : f.Kin g' :=
  ⟨h'.tables.trans h.tables, h'.bindings.trans h.bindings, h'.shapes.trans h.shapes,
    h'.scopes.trans h.scopes⟩

theorem map_modify {α β : Type} {part : α → β} {step : α → α} (k : β → β)
    (h : ∀ a, part (step a) = k (part a)) (l : List α) (i : Nat) :
    (l.modify i step).map part = (l.map part).modify i k := by
  refine List.ext_getElem? fun j => ?_
  simp only [List.getElem?_map, List.getElem?_modify, Option.map_eq_map, Option.map_map]
  congr 1
  funext a
  by_cases hij : i = j
  · simp [hij, h]
  · simp [hij]

theorem shapes_modify (f : Forest) (id : NodeId) (step : Node → Node)
    (hstep : ∀ n, (step n).shape = n.shape) :
    ({ f with nodes := f.nodes.modify id.index step } : Forest).shapes = f.shapes := by
  rw [shapes, Array.toList_modify, map_modify (fun shape => shape) hstep]
  exact List.modify_id _ _

theorem scopes_modify (f : Forest) (id : NodeId) (step : Node → Node)
    (k : Option TableId → Option TableId) (hstep : ∀ n, (step n).scope = k n.scope) :
    ({ f with nodes := f.nodes.modify id.index step } : Forest).scopes
      = f.scopes.modify id.index k := by
  rw [scopes, Array.toList_modify, map_modify k hstep, scopes]

theorem kin_parent (f : Forest) (id : NodeId) (p : Option NodeId) :
    f.Kin { f with nodes := f.nodes.modify id.index fun n => { n with parent := p } } where
  tables := rfl
  bindings := rfl
  shapes := shapes_modify f id (fun n => { n with parent := p }) fun _ => rfl
  scopes := by
    rw [scopes_modify f id (fun n => { n with parent := p }) (fun scope => scope) fun _ => rfl]
    exact List.modify_id _ _

namespace ByHand

variable (hgh : g.ByHand h)
include hgh

theorem kin (hg : g.Kin g') (hh : h.Kin h') : g'.ByHand h' where
  tables := by rw [hh.tables, hg.tables, hgh.tables]
  bindings := by rw [hh.bindings, hg.bindings, hgh.bindings]
  shapes := by rw [hh.shapes, hg.shapes, hgh.shapes]
  scopes := by rw [hh.scopes, hg.scopes, hgh.scopes]
  made := by
    rw [hg.shapes]
    exact hgh.made

theorem size : h.nodes.size = g.nodes.size := by
  have hlength := congrArg List.length hgh.shapes
  simpa [Forest.shapes] using hlength

theorem scope? (id : NodeId) : (h.node? id).map (·.scope) = (g.node? id).map (·.scope) := by
  have hentry := congrArg (·[id.index]?) hgh.scopes
  simpa [Forest.scopes, node?] using hentry

theorem shape? (id : NodeId) : (h.node? id).map (·.shape) = (g.node? id).map (·.shape.byHand) := by
  have hentry := congrArg (·[id.index]?) hgh.shapes
  simpa [Forest.shapes, node?, Function.comp_def] using hentry

theorem node?_eq_none {id : NodeId} (hnode : g.node? id = none) : h.node? id = none := by
  have hshape := hgh.shape? id
  rw [hnode] at hshape
  exact Option.map_eq_none_iff.1 hshape

theorem node?_eq_some {id : NodeId} {n : Node} (hnode : g.node? id = some n) :
    n.shape.Made ∧ ∃ m, h.node? id = some m ∧ m.shape = n.shape.byHand ∧ m.scope = n.scope := by
  have hshape := hgh.shape? id
  have hscope := hgh.scope? id
  rw [hnode] at hshape hscope
  obtain ⟨m, hm, hm'⟩ := Option.map_eq_some_iff.1 hshape
  rw [hm] at hscope
  refine ⟨hgh.made _ ?_, m, hm, hm', Option.some.inj hscope⟩
  exact List.mem_map_of_mem (Array.mem_toList_iff.2 (Array.mem_of_getElem? hnode))

theorem table? (t : TableId) : h.table? t = g.table? t := by
  rw [Forest.table?, Forest.table?, hgh.tables]

theorem binding? (b : BindingId) : h.binding? b = g.binding? b := by
  rw [Forest.binding?, Forest.binding?, hgh.bindings]

theorem bindingsOf (t : TableId) : h.bindingsOf t = g.bindingsOf t := by
  simp only [Forest.bindingsOf, hgh.table?, hgh.binding?]

theorem find? (t : TableId) (x : String) : h.find? t x = g.find? t x := by
  rw [Forest.find?, Forest.find?, hgh.bindingsOf]

theorem tablesFrom (start : Option TableId) : h.tablesFrom start = g.tablesFrom start := by
  have hupTo (count : Nat) (start : Option TableId) :
      h.tablesUpTo count start = g.tablesUpTo count start := by
    induction count generalizing start with
    | zero => rfl
    | succ count ih =>
      cases start with
      | none => rfl
      | some t => rw [tablesUpTo, tablesUpTo, hgh.table?, ih]
  rw [Forest.tablesFrom, Forest.tablesFrom, hgh.tables, hupTo]

theorem attached (id : NodeId) (t : Option TableId) :
    ByHand { g with nodes := g.nodes.modify id.index fun n => { n with scope := t } }
      { h with nodes := h.nodes.modify id.index fun n => { n with scope := t } } where
  tables := hgh.tables
  bindings := hgh.bindings
  shapes := by
    rw [shapes_modify h id (fun n => { n with scope := t }) fun _ => rfl,
      shapes_modify g id (fun n => { n with scope := t }) fun _ => rfl, hgh.shapes]
  scopes := by
    rw [scopes_modify h id (fun n => { n with scope := t }) (fun _ => t) fun _ => rfl,
      scopes_modify g id (fun n => { n with scope := t }) (fun _ => t) fun _ => rfl, hgh.scopes]
  made := by
    rw [shapes_modify g id (fun n => { n with scope := t }) fun _ => rfl]
    exact hgh.made

end ByHand

end

end Forest

/-! ## Drafts -/

/-- **The second draft leaves out the remarks on surplus operands**, of which the first has one for
each call that has them, in the order of making. -/
structure Draft.Twin (d d' : Draft) : Prop where
  forest : d.forest.ByHand d'.forest
  remarks : d'.remarks = d.remarks.filter (!·.isSurplus)
  surplus : d.remarks.filter (·.isSurplus) = d'.forest.shapes.filterMap Shape.surplus?

/-- from drafts that are twins both computations come to the same end, with drafts that are twins -/
def Paired {α : Type} (x y : Growth α) : Prop :=
  ∀ d d', d.Twin d' →
    (y.run.run d').1 = (x.run.run d).1 ∧ (x.run.run d).2.Twin (y.run.run d').2

section
variable {α β : Type} {d d' : Draft}

theorem Draft.Twin.change (h : d.Twin d') {g' h' : Forest} (hforest : g'.ByHand h')
    (hshapes : h'.shapes = d'.forest.shapes) : Draft.Twin ⟨g', d.remarks⟩ ⟨h', d'.remarks⟩ :=
  ⟨hforest, h.remarks, by rw [h.surplus, hshapes]⟩

theorem Draft.Twin.kin (h : d.Twin d') {g' h' : Forest} (hg : d.forest.Kin g')
    (hh : d'.forest.Kin h') : Draft.Twin ⟨g', d.remarks⟩ ⟨h', d'.remarks⟩ :=
  h.change (h.forest.kin hg hh) hh.shapes

theorem paired_pure (a : α) : Paired (pure a) (pure a) := fun _ _ h => ⟨rfl, h⟩

theorem paired_throw (fault : Fault) : Paired (throw fault : Growth α) (throw fault) :=
  fun _ _ h => ⟨rfl, h⟩

theorem paired_bind {x y : Growth α} {k l : α → Growth β} (hx : Paired x y)
    (hk : ∀ a, Paired (k a) (l a)) : Paired (x >>= k) (y >>= l) := by
  intro d d' h
  have hpair := hx d d' h
  rw [run_bind, run_bind]
  generalize x.run.run d = xd, y.run.run d' = yd at hpair
  obtain ⟨outcome, d₁⟩ := xd
  obtain ⟨outcome', d₁'⟩ := yd
  obtain ⟨hvalue, htwin⟩ := hpair
  have hvalue : outcome' = outcome := hvalue
  subst hvalue
  cases outcome' with
  | error fault => exact ⟨rfl, htwin⟩
  | ok a => exact hk a d₁ d₁' htwin

theorem paired_discard {x y : Growth α} (h : Paired x y) : Paired (discard x) (discard y) := by
  have hbind := paired_bind h fun _ => paired_pure PUnit.unit
  rwa [bind_pure_comp, bind_pure_comp] at hbind

theorem paired_forest {k l : Forest → Growth α} (h : ∀ g h, g.ByHand h → Paired (k g) (l h)) :
    Paired (forest >>= k) (forest >>= l) :=
  fun d d' hd => h d.forest d'.forest hd.forest d d' hd

theorem paired_change {step : Forest → Forest}
    (h : ∀ g h, g.ByHand h → (step g).ByHand (step h) ∧ (step h).shapes = h.shapes) :
    Paired (change step) (change step) :=
  fun d d' hd => ⟨rfl, hd.change (h d.forest d'.forest hd.forest).1 (h _ _ hd.forest).2⟩

theorem paired_remark {r : Remark} (hr : r.isSurplus = false) :
    Paired (remark r) (remark r) := by
  intro d d' h
  refine ⟨rfl, h.forest, ?_, ?_⟩
  · show d'.remarks ++ [r] = (d.remarks ++ [r]).filter _
    rw [List.filter_append, h.remarks]
    simp [hr]
  · show (d.remarks ++ [r]).filter _ = d'.forest.shapes.filterMap _
    rw [List.filter_append, h.surplus]
    simp [hr]

/-- a node is placed, and what there is to remark on it is remarked on the first side only -/
theorem twin_place (h : d.Twin d') {shape : Shape} (hmade : shape.Made) :
    Draft.Twin
      ⟨{ d.forest with nodes := d.forest.nodes.push ⟨shape, none, none⟩ },
        d.remarks ++ shape.byHand.surplus?.toList⟩
      ⟨{ d'.forest with nodes := d'.forest.nodes.push ⟨shape.byHand, none, none⟩ }, d'.remarks⟩ where
  forest :=
    { tables := h.forest.tables
      bindings := h.forest.bindings
      shapes := by simp [h.forest.shapes]
      scopes := by simp [h.forest.scopes]
      made := by
        simp only [shapes_push, List.forall_mem_append, List.forall_mem_singleton]
        exact ⟨h.forest.made, hmade⟩ }
  remarks := by
    have hnone : shape.byHand.surplus?.toList.filter (!·.isSurplus) = [] := by
      rw [List.filter_eq_nil_iff]
      intro r hr
      simp [Shape.isSurplus_of_surplus? (Option.mem_toList.1 hr)]
    rw [List.filter_append, hnone, List.append_nil]
    exact h.remarks
  surplus := by
    have hall : shape.byHand.surplus?.toList.filter (·.isSurplus) = shape.byHand.surplus?.toList := by
      rw [List.filter_eq_self]
      exact fun r hr => Shape.isSurplus_of_surplus? (Option.mem_toList.1 hr)
    rw [List.filter_append, hall, h.surplus, shapes_push, List.filterMap_append]
    rfl

/-- a node of which there is nothing to remark is placed on both sides -/
theorem paired_placeShape {shape : Shape} (hmade : shape.Made) (hsame : shape.byHand = shape)
    (hnone : shape.surplus? = none) : Paired (placeShape shape) (placeShape shape) := by
  intro d d' h
  have hplaced := twin_place h hmade
  rw [hsame, hnone, Option.toList_none, List.append_nil] at hplaced
  refine ⟨?_, hplaced⟩
  show Except.ok (NodeId.mk _) = Except.ok (NodeId.mk _)
  rw [h.forest.size]

theorem paired_placeBinding (b : Binding) : Paired (placeBinding b) (placeBinding b) := by
  refine paired_forest fun g h hgh => paired_bind (paired_change fun g h hgh => ⟨?_, rfl⟩) fun _ => ?_
  · exact { hgh with bindings := congrArg (Array.push · b) hgh.bindings }
  · rw [hgh.bindings]
    exact paired_pure _

theorem paired_changeTable (t : TableId) (step : Table → Table) :
    Paired (changeTable t step) (changeTable t step) :=
  paired_change fun _ _ hgh =>
    ⟨{ hgh with tables := congrArg (Array.modify · t.index step) hgh.tables }, rfl⟩

theorem paired_placeTable : Paired placeTable placeTable := by
  refine paired_forest fun g h hgh => paired_bind (paired_change fun g h hgh => ⟨?_, rfl⟩) fun _ => ?_
  · exact { hgh with tables := congrArg (Array.push · _) hgh.tables }
  · rw [hgh.tables]
    exact paired_pure _

/-! ## Linking children -/

theorem kin_adoptAll (parent : NodeId) (refs : List Ref) (d : Draft) :
    ∃ g, (adoptAll parent refs).run.run d = (.ok (), ⟨g, d.remarks⟩) ∧ d.forest.Kin g := by
  induction refs generalizing d with
  | nil => exact ⟨d.forest, rfl, .refl _⟩
  | cons ref refs ih =>
    cases ref with
    | node child =>
      obtain ⟨g, hrun, hkin⟩ := ih ⟨_, d.remarks⟩
      exact ⟨g, hrun, (kin_parent d.forest child (some parent)).trans hkin⟩
    | absent => exact ih d
    | foreign typeName serial => exact ih d

theorem paired_adoptAll (parent : NodeId) (refs : List Ref) :
    Paired (adoptAll parent refs) (adoptAll parent refs) := by
  intro d d' h
  obtain ⟨g, hrun, hkin⟩ := kin_adoptAll parent refs d
  obtain ⟨g', hrun', hkin'⟩ := kin_adoptAll parent refs d'
  rw [hrun, hrun']
  exact ⟨rfl, h.kin hkin hkin'⟩

theorem paired_adopt (parent : NodeId) (ref : Ref) : Paired (adopt parent ref) (adopt parent ref) := by
  have hone := paired_adoptAll parent [ref]
  rwa [adoptAll, adoptAll, bind_pure_unit] at hone

/-! ## The factories -/

theorem paired_newChoice (test ifTrue ifFalse : Ref) :
    Paired (newChoice test ifTrue ifFalse) (newChoice test ifTrue ifFalse) :=
  paired_bind (paired_placeShape (.choice _ _ _) rfl rfl) fun id =>
    paired_bind (paired_adoptAll id _) fun _ => paired_pure id

theorem paired_remarkAll {rs : List Remark} (h : ∀ r ∈ rs, r.isSurplus = false) :
    Paired (remarkAll rs) (remarkAll rs) := by
  induction rs with
  | nil => exact paired_pure ()
  | cons r rs ih =>
    exact paired_bind (paired_remark (h r List.mem_cons_self)) fun _ =>
      ih fun r hr => h r (List.mem_cons_of_mem _ hr)

theorem not_isSurplus_of_repeatedParameters {ident : String} {seen parameters : List String}
    {r : Remark} (h : r ∈ repeatedParameters ident seen parameters) : r.isSurplus = false := by
  induction parameters generalizing seen with
  | nil => cases h
  | cons p rest ih =>
    unfold repeatedParameters at h
    split at h
    · rcases List.mem_cons.1 h with rfl | h
      · rfl
      · exact ih h
    · exact ih h

theorem paired_newFunction (ident : String) (body : Ref) (kind : Option Kind)
    (parameters : List String) :
    Paired (newFunction ident body kind parameters) (newFunction ident body kind parameters) :=
  paired_bind (paired_remarkAll fun _ => not_isSurplus_of_repeatedParameters) fun _ =>
    paired_placeBinding _

theorem paired_insertInto (t : TableId) (b : BindingId) :
    Paired (insertInto t b) (insertInto t b) := by
  have hchange {k : Unit → Growth Unit} (hk : ∀ u, Paired (k u) (k u)) : Paired
      (changeTable t (fun t => { t with bindings := t.bindings ++ [b] }) >>= k)
      (changeTable t (fun t => { t with bindings := t.bindings ++ [b] }) >>= k) :=
    paired_bind (paired_changeTable t _) hk
  refine paired_forest fun g h hgh => ?_
  rw [hgh.binding?]
  split
  · exact paired_pure ()
  · next x _ =>
    rw [hgh.find?, hgh.table?]
    dsimp only
    rcases (g.table? t).bind (·.owner) with _ | owner
    · split
      · exact paired_bind (paired_remark rfl) fun _ => hchange fun _ => paired_pure ()
      · exact hchange fun _ => paired_pure ()
    · split
      · exact paired_bind (paired_remark rfl) fun _ => hchange fun _ => paired_adopt owner x.body
      · exact hchange fun _ => paired_adopt owner x.body

theorem paired_insert (t : Option TableId) (b : BindingId) :
    Paired (Growth.insert t b) (Growth.insert t b) := by
  cases t with
  | none =>
    exact paired_bind paired_placeTable fun t =>
      paired_bind (paired_insertInto t b) fun _ => paired_pure t
  | some t =>
    exact paired_bind (paired_pure t) fun t =>
      paired_bind (paired_insertInto t b) fun _ => paired_pure t

theorem paired_newTable (bs : List BindingId) : Paired (newTable bs) (newTable bs) := by
  refine paired_bind paired_placeTable fun t => paired_bind ?_ fun _ => paired_pure t
  induction bs with
  | nil => exact paired_pure ()
  | cons b bs ih => exact paired_bind (paired_insertInto t b) fun _ => ih

theorem paired_attach (id : NodeId) (t : TableId) : Paired (attach id t) (attach id t) := by
  rw [attach_eq]
  refine paired_forest fun g h hgh => ?_
  rw [hgh.table?]
  split
  · exact paired_throw _
  · refine paired_bind (paired_changeTable t _) fun _ => ?_
    have hadopt := paired_adoptAll id ((g.bindingsOf t).map (·.2.body))
    have hscope := congrArg (Option.bind · fun scope => scope) (hgh.scope? id)
    simp only [Option.bind_map, Function.comp_def] at hscope
    rw [hgh.bindingsOf, hscope]
    rcases (g.node? id).bind (·.scope) with _ | innermost
    · refine paired_bind (paired_change fun g h hgh => ?_) fun _ => hadopt
      exact ⟨hgh.attached id (some t), shapes_modify h id _ fun _ => rfl⟩
    · dsimp only
      rw [hgh.tablesFrom]
      split
      · rcases (g.tablesFrom (some innermost)).getLast? with _ | outermost
        · exact hadopt
        · exact paired_bind (paired_changeTable _ _) fun _ => hadopt
      · exact hadopt

/-- a call is made: it is placed, and its operands are linked to it -/
theorem run_placeCall (shape : Shape) (operands : List Ref) (d : Draft) :
    ∃ g, (do
        let id ← placeShape shape
        adoptAll id operands
        return id : Growth NodeId).run.run d = (.ok ⟨d.forest.nodes.size⟩, ⟨g, d.remarks⟩) ∧
      Kin { d.forest with nodes := d.forest.nodes.push ⟨shape, none, none⟩ } g := by
  have hplace : (placeShape shape).run.run d = (.ok ⟨d.forest.nodes.size⟩,
      ⟨{ d.forest with nodes := d.forest.nodes.push ⟨shape, none, none⟩ }, d.remarks⟩) := rfl
  obtain ⟨g, hrun, hkin⟩ := kin_adoptAll ⟨d.forest.nodes.size⟩ operands
    ⟨{ d.forest with nodes := d.forest.nodes.push ⟨shape, none, none⟩ }, d.remarks⟩
  exact ⟨g, by rw [run_bind_ok hplace, run_bind_ok hrun]; rfl, hkin⟩

/-- **A call is made by the factory and put together by hand**: what the factory remarks on it, and
the links of its operands, are on the first side only. -/
theorem paired_newCall {name : String} {operands : List Ref}
    (hample : (Making.call name operands).Ample) :
    Paired (newCall name operands) (newRawCall (Operator.ofName name)
      (if Operator.ofName name = .custom then some name else none) operands) := by
  intro d d' h
  have hplaced {shape : Shape} (hmade : shape.Made) {out : Except Fault NodeId × Draft}
      (hout : ∃ g, out = (.ok ⟨d.forest.nodes.size⟩, ⟨g, d.remarks ++ shape.byHand.surplus?.toList⟩) ∧
        Kin { d.forest with nodes := d.forest.nodes.push ⟨shape, none, none⟩ } g) :
      ((placeShape shape.byHand).run.run d').1 = out.1 ∧
        out.2.Twin ((placeShape shape.byHand).run.run d').2 := by
    obtain ⟨g, rfl, hkin⟩ := hout
    refine ⟨?_, (twin_place h hmade).kin hkin (.refl _)⟩
    show Except.ok (NodeId.mk _) = Except.ok (NodeId.mk _)
    rw [h.forest.size]
  unfold newCall
  rcases hop : Operator.ofName name with b | _
  · have hleast := hample b hop
    dsimp only
    rw [checkOperands_of_least hleast none]
    refine hplaced (.builtin hleast) ?_
    cases hsurplus : (Shape.call (.builtin b) none operands false).surplus? with
    | none =>
      rw [Shape.byHand, hsurplus, Option.toList_none, List.append_nil]
      exact run_placeCall _ operands d
    | some r =>
      rw [Shape.byHand, hsurplus]
      exact run_placeCall _ operands ⟨d.forest, d.remarks ++ [r]⟩
  · refine hplaced (.function name operands) ?_
    rw [Shape.byHand, Shape.surplus?_function, Option.toList_none, List.append_nil]
    exact run_placeCall _ operands d

end

/-! ## The two ways compared -/

theorem paired_perform {m : Making} (hample : m.Ample) : Paired m.perform m.byHand := by
  cases m with
  | number amount kind => exact paired_discard (paired_placeShape (.number amount kind) rfl rfl)
  | symbol ident => exact paired_discard (paired_placeShape (.symbol ident) rfl rfl)
  | call name operands => exact paired_discard (paired_newCall hample)
  | choice test ifTrue ifFalse => exact paired_discard (paired_newChoice test ifTrue ifFalse)
  | value ident body kind => exact paired_discard (paired_placeBinding _)
  | function ident body kind parameters =>
    exact paired_discard (paired_newFunction ident body kind parameters)
  | insert t b => exact paired_discard (paired_insert t b)
  | table bs => exact paired_discard (paired_newTable bs)
  | attach id t => exact paired_attach id t

theorem paired_assemble {ms : List Making} (hample : ∀ m ∈ ms, m.Ample) :
    Paired (assemble Making.perform ms) (assemble Making.byHand ms) := by
  induction ms with
  | nil => exact paired_pure ()
  | cons m ms ih =>
    exact paired_bind (paired_perform (hample m List.mem_cons_self)) fun _ =>
      ih fun m hm => hample m (List.mem_cons_of_mem _ hm)

theorem twin_empty : Draft.Twin ⟨.empty, []⟩ ⟨.empty, []⟩ where
  forest :=
    { tables := rfl
      bindings := rfl
      shapes := rfl
      scopes := rfl
      made := fun _ h => (nomatch h) }
  remarks := rfl
  surplus := rfl

/-- **The two ways come to the same end.** -/
theorem twin_assemble {ms : List Making} (hample : ∀ m ∈ ms, m.Ample) :
    let made := (assemble Making.perform ms).run.run ⟨.empty, []⟩
    let put := (assemble Making.byHand ms).run.run ⟨.empty, []⟩
    put.1 = made.1 ∧ made.2.Twin put.2 :=
  paired_assemble hample _ _ twin_empty

end Abacus
