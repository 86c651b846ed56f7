import Abacus.Proofs.Forest.Growing
import Abacus.Source.Planting

/-!
# Forests made by the factories

The factories make nodes, bindings and tables, fill tables and attach them to nodes.  Whatever
relation between forests is kept by each small step of growing is kept by the factories and by the
planting of a form, which calls nothing else.

* `SteadyFilling`, `SteadyGrowth`   relations that the steps of growing keep;
* `SteadyGrowth.plantSource`        planting keeps them;
* `Making`                          the calls of the factories;
* `SteadyGrowth.perform`            they keep them too;
* `Built`                           the forests that factories and planting give;
* `Shape.Made`, `made_of_built`     what is known of their nodes.
-/

namespace Abacus

open Growth Forest

/-! ## What growing keeps -/

/-- from every forest, the relation holds to the forest after growing, unless a fault stops it -/
def Maintains {α : Type} (K : Forest → Forest → Prop) (x : Growth α) : Prop :=
  ∀ f, Grows f x fun _ g => K f g

/-- **A relation between forests that every step of growing keeps**, where new nodes are of certain
shapes and no table is attached. -/
structure SteadyFilling (made : Shape → Prop) (K : Forest → Forest → Prop) : Prop where
  refl : ∀ f, K f f
  trans : ∀ {f g h}, K f g → K g h → K f h
  node : ∀ f shape, made shape → K f { f with nodes := f.nodes.push ⟨shape, none, none⟩ }
  binding : ∀ f b, K f { f with bindings := f.bindings.push b }
  table : ∀ f, K f { f with tables := f.tables.push ⟨[], none, none⟩ }
  parent : ∀ f (id : NodeId) p,
    K f { f with nodes := f.nodes.modify id.index fun n => { n with parent := p } }
  bound : ∀ f (id : TableId) b,
    K f { f with tables := f.tables.modify id.index fun t => { t with bindings := t.bindings ++ b } }

structure SteadyGrowth (made : Shape → Prop) (K : Forest → Forest → Prop) : Prop
    extends SteadyFilling made K where
  scope : ∀ f (id : NodeId) t,
    K f { f with nodes := f.nodes.modify id.index fun n => { n with scope := t } }
  enclosing : ∀ f (id : TableId) t,
    K f { f with tables := f.tables.modify id.index fun n => { n with enclosing := t } }
  owner : ∀ f (id : TableId) o,
    K f { f with tables := f.tables.modify id.index fun n => { n with owner := o } }

theorem SteadyGrowth.mono {made made' : Shape → Prop} {K : Forest → Forest → Prop}
    (hK : SteadyGrowth made K) (h : ∀ shape, made' shape → made shape) : SteadyGrowth made' K :=
  { hK with node := fun f shape hshape => hK.node f shape (h shape hshape) }

namespace SteadyFilling

variable {α β : Type} {made : Shape → Prop} {K : Forest → Forest → Prop}

theorem pure (hK : SteadyFilling made K) (a : α) : Maintains K (Pure.pure a : Growth α) :=
  fun f => grows_pure (hK.refl f)

theorem throw (fault : Fault) : Maintains K (MonadExcept.throw fault : Growth α) :=
  fun _ => grows_throw fault

theorem bind (hK : SteadyFilling made K) {x : Growth β} {k : β → Growth α} (hx : Maintains K x)
    (hk : ∀ b, Maintains K (k b)) : Maintains K (x >>= k) := by
  intro f
  refine grows_bind (hx f) ?_
  intro b g hg
  exact grows_mono (hk b g) fun _ h hh => hK.trans hg hh

theorem change {step : Forest → Forest} (h : ∀ f, K f (step f)) : Maintains K (Growth.change step) :=
  fun f => grows_change (h f)

theorem remark (hK : SteadyFilling made K) (r : Remark) : Maintains K (Growth.remark r) :=
  fun f => grows_remark (hK.refl f) r

theorem forest (hK : SteadyFilling made K) : Maintains K Growth.forest :=
  fun f => grows_forest (hK.refl f)

theorem remarkAll (hK : SteadyFilling made K) (rs : List Remark) :
    Maintains K (Growth.remarkAll rs) := by
  induction rs with
  | nil => exact hK.pure ()
  | cons r rs ih => exact hK.bind (hK.remark r) fun _ => ih

theorem placeShape (hK : SteadyFilling made K) {shape : Shape} (h : made shape) :
    Maintains K (Growth.placeShape shape) :=
  hK.bind hK.forest fun _ => hK.bind (change fun f => hK.node f shape h) fun _ => hK.pure _

theorem placeBinding (hK : SteadyFilling made K) (b : Binding) :
    Maintains K (Growth.placeBinding b) :=
  hK.bind hK.forest fun _ => hK.bind (change fun f => hK.binding f b) fun _ => hK.pure _

theorem placeTable (hK : SteadyFilling made K) : Maintains K Growth.placeTable :=
  hK.bind hK.forest fun _ => hK.bind (change hK.table) fun _ => hK.pure _

theorem adopt (hK : SteadyFilling made K) (parent : NodeId) (ref : Ref) :
    Maintains K (Growth.adopt parent ref) := by
  cases ref with
  | node child => exact change fun f => hK.parent f child _
  | absent => exact hK.pure ()
  | foreign typeName serial => exact hK.pure ()

theorem adoptAll (hK : SteadyFilling made K) (parent : NodeId) (refs : List Ref) :
    Maintains K (Growth.adoptAll parent refs) := by
  induction refs with
  | nil => exact hK.pure ()
  | cons ref refs ih => exact hK.bind (hK.adopt parent ref) fun _ => ih

theorem newChoice (hK : SteadyFilling made K) {test ifTrue ifFalse : Ref}
    (h : made (.choice test ifTrue ifFalse)) :
    Maintains K (Growth.newChoice test ifTrue ifFalse) :=
  hK.bind (hK.placeShape h) fun id => hK.bind (hK.adoptAll id _) fun _ => hK.pure _

theorem newCall (hK : SteadyFilling made K) {name : String} {operands : List Ref}
    (hbuiltin : ∀ b r, Operator.ofName name = .builtin b →
      checkOperands b operands.length = .ok r → made (.call (.builtin b) none operands true))
    (hcustom : made (.call .custom (some name) operands true)) :
    Maintains K (Growth.newCall name operands) := by
  have hplace {shape : Shape} (h : made shape) : Maintains K (do
      let id ← Growth.placeShape shape
      Growth.adoptAll id operands
      return id) :=
    hK.bind (hK.placeShape h) fun id => hK.bind (hK.adoptAll id _) fun _ => hK.pure _
  unfold Growth.newCall
  rcases hop : Operator.ofName name with b | _
  · intro f
    dsimp only
    have hcheck : Grows f (liftM (checkOperands b operands.length) : Growth (Option Remark))
        fun r g => checkOperands b operands.length = .ok r ∧ g = f :=
      grows_lift fun r hr => ⟨hr, rfl⟩
    refine grows_bind hcheck ?_
    rintro r g ⟨hr, rfl⟩
    have hmade := hplace (hbuiltin b r hop hr)
    cases r with
    | none => exact hmade g
    | some r => exact hK.bind (hK.remark r) (fun _ => hmade) g
  · exact hplace hcustom

theorem newFunction (hK : SteadyFilling made K) (ident : String) (body : Ref) (kind : Option Kind)
    (parameters : List String) : Maintains K (Growth.newFunction ident body kind parameters) :=
  hK.bind (hK.remarkAll _) fun _ => hK.placeBinding _

theorem insertInto (hK : SteadyFilling made K) (t : TableId) (b : BindingId) :
    Maintains K (Growth.insertInto t b) := by
  have hchange {α : Type} {k : Unit → Growth α} (hk : ∀ u, Maintains K (k u)) : Maintains K
      (Growth.changeTable t (fun t => { t with bindings := t.bindings ++ [b] }) >>= k) :=
    hK.bind (change fun f => hK.bound f t [b]) hk
  unfold Growth.insertInto
  refine hK.bind hK.forest ?_
  intro f
  split
  · exact hK.pure ()
  · next x _ =>
    dsimp only
    rcases (f.table? t).bind (·.owner) with _ | owner
    · split
      · exact hK.bind (hK.remark _) fun _ => hchange fun _ => hK.pure ()
      · exact hchange fun _ => hK.pure ()
    · split
      · exact hK.bind (hK.remark _) fun _ => hchange fun _ => hK.adopt owner x.body
      · exact hchange fun _ => hK.adopt owner x.body

theorem insert (hK : SteadyFilling made K) (t : Option TableId) (b : BindingId) :
    Maintains K (Growth.insert t b) := by
  have hrest (t : TableId) : Maintains K (do
      Growth.insertInto t b
      return t) := hK.bind (hK.insertInto t b) fun _ => hK.pure t
  cases t with
  | none => exact hK.bind hK.placeTable hrest
  | some t => exact hK.bind (hK.pure t) hrest

theorem newTable (hK : SteadyFilling made K) (bs : List BindingId) :
    Maintains K (Growth.newTable bs) := by
  refine hK.bind hK.placeTable fun t => hK.bind ?_ fun _ => hK.pure _
  induction bs with
  | nil => exact hK.pure ()
  | cons b bs ih => exact hK.bind (hK.insertInto t b) fun _ => ih

theorem plantType (hK : SteadyFilling made K) (type : Option String) :
    Maintains K (Abacus.plantType type) := by
  unfold Abacus.plantType
  split
  · exact hK.pure _
  · split
    · exact hK.pure _
    · exact hK.bind (hK.remark _) fun _ => hK.pure _

end SteadyFilling

/-! ## Shapes of new nodes -/

/-- **The shapes that the factories make**: numbers of their kind, calls that bear the name of a
function or have enough operands -/
inductive Shape.Made : Shape → Prop
  | number (amount : Amount) (kind : Kind) : Made (.number (.make amount kind))
  | symbol (ident : String) : Made (.symbol ident)
  | builtin {b : Builtin} {operands : List Ref} : b.arity.least ≤ operands.length →
      Made (.call (.builtin b) none operands true)
  | function (name : String) (operands : List Ref) :
      Made (.call .custom (some name) operands true)
  | choice (test ifTrue ifFalse : Ref) : Made (.choice test ifTrue ifFalse)

theorem least_of_checkOperands {b : Builtin} {n : Nat} {r : Option Remark}
    (h : checkOperands b n = .ok r) : b.arity.least ≤ n := by
  unfold checkOperands at h
  split at h
  · cases h
  · omega

/-! ## Attaching tables -/

def linkTable (id : NodeId) (t : TableId) (f : Forest) : Growth Unit := do
  changeTable t fun t => { t with owner := some id }
  match (f.node? id).bind (·.scope) with
  | none => changeNode id fun n => { n with scope := some t }
  | some innermost =>
    if innermost ≠ t then
      match (f.tablesFrom (some innermost)).getLast? with
      | some outermost => changeTable outermost fun o => { o with enclosing := some t }
      | none => pure ()
  adoptAll id ((f.bindingsOf t).map (·.2.body))

theorem attach_eq (id : NodeId) (t : TableId) :
    attach id t = (forest >>= fun f =>
      if ∃ owner, (f.table? t).bind (·.owner) = some owner ∧ owner ≠ id then throw .tableTaken
      else linkTable id t f) := by
  unfold attach
  congr 1
  funext f
  rcases (f.table? t).bind (·.owner) with _ | owner
  · rw [if_neg (by simp)]
    rfl
  · by_cases howner : owner = id
    · dsimp only
      rw [if_neg (not_not.2 howner), if_neg (by simp [howner])]
      rfl
    · dsimp only
      rw [if_pos howner, if_pos ⟨owner, rfl, howner⟩]
      rfl

namespace SteadyGrowth

variable {K : Forest → Forest → Prop}

theorem attach {made : Shape → Prop} (hK : SteadyGrowth made K) (id : NodeId) (t : TableId) :
    Maintains K (Growth.attach id t) := by
  rw [attach_eq]
  refine hK.bind hK.forest ?_
  intro f
  have hadopt := hK.adoptAll id ((f.bindingsOf t).map (·.2.body))
  split
  · exact SteadyFilling.throw _
  · refine hK.bind (SteadyFilling.change fun f => hK.owner f t _) ?_
    intro _
    rcases (f.node? id).bind (·.scope) with _ | innermost
    · exact hK.bind (SteadyFilling.change fun f => hK.scope f id _) fun _ => hadopt
    · dsimp only
      split
      · rcases (f.tablesFrom (some innermost)).getLast? with _ | outermost
        · exact hadopt
        · exact hK.bind (SteadyFilling.change fun f => hK.enclosing f _ _) fun _ => hadopt
      · exact hadopt

variable (hK : SteadyGrowth Shape.Made K)
include hK

theorem makesCall (name : String) (operands : List Ref) :
    Maintains K (Growth.newCall name operands) :=
  hK.newCall (fun _ _ _ hcheck => .builtin (least_of_checkOperands hcheck)) (.function name operands)

/-! ## Planting -/

mutual

theorem plantForm (form : Form) : Maintains K (Abacus.plantForm form) := by
  match form with
  | .numeral kind text => exact hK.placeShape (.number _ kind)
  | .symbol name => exact hK.placeShape (.symbol name)
  | .call name operands =>
    unfold Abacus.plantForm
    exact hK.bind (plantForms operands) fun _ => hK.makesCall name _
  | .choice test ifTrue ifFalse =>
    unfold Abacus.plantForm
    exact hK.bind (plantForm test) fun _ => hK.bind (plantForm ifTrue) fun _ =>
      hK.bind (plantForm ifFalse) fun _ => hK.newChoice (.choice _ _ _)
  | .scoped definitions body =>
    unfold Abacus.plantForm
    refine hK.bind (plantDefinitions definitions) fun bs => hK.bind (plantForm body) fun id =>
      hK.bind ?_ fun _ => hK.pure id
    unfold plantScope
    split
    · exact hK.pure ()
    · exact hK.bind (hK.newTable bs) fun t => hK.attach id t

theorem plantForms (forms : List Form) : Maintains K (Abacus.plantForms forms) := by
  cases forms with
  | nil => exact hK.pure []
  | cons form rest =>
    unfold Abacus.plantForms
    exact hK.bind (plantForm form) fun _ => hK.bind (plantForms rest) fun _ => hK.pure _

theorem plantDefinition (definition : Definition) :
    Maintains K (Abacus.plantDefinition definition) := by
  cases definition with
  | value name body type =>
    unfold Abacus.plantDefinition
    exact hK.bind (plantForm body) fun _ => hK.bind (hK.plantType type) fun _ =>
      hK.placeBinding _
  | function name parameters body type =>
    unfold Abacus.plantDefinition
    exact hK.bind (plantForm body) fun _ => hK.bind (hK.plantType type) fun _ =>
      hK.newFunction _ _ _ _

theorem plantDefinitions (definitions : List Definition) :
    Maintains K (Abacus.plantDefinitions definitions) := by
  cases definitions with
  | nil => exact hK.pure []
  | cons definition rest =>
    unfold Abacus.plantDefinitions
    exact hK.bind (plantDefinition definition) fun _ => hK.bind (plantDefinitions rest) fun _ =>
      hK.pure _

end

theorem plantSource (source : String) : Maintains K (Abacus.plantSource source) := by
  refine hK.bind (fun f => grows_lift fun _ _ => hK.refl f) ?_
  exact hK.plantForm

end SteadyGrowth

/-! ## Calls of the factories -/

/-- **A call of one of the factories** with its arguments -/
inductive Making where
  | number (amount : Amount) (kind : Kind)
  | symbol (ident : String)
  | call (name : String) (operands : List Ref)
  | choice (test ifTrue ifFalse : Ref)
  | value (ident : String) (body : Ref) (kind : Option Kind)
  | function (ident : String) (body : Ref) (kind : Option Kind) (parameters : List String)
  | insert (table : Option TableId) (binding : BindingId)
  | table (bindings : List BindingId)
  | attach (node : NodeId) (table : TableId)

namespace Making

def perform : Making → Growth Unit
  | .number amount kind => discard (newNumber amount kind)
  | .symbol ident => discard (newSymbol ident)
  | .call name operands => discard (newCall name operands)
  | .choice test ifTrue ifFalse => discard (newChoice test ifTrue ifFalse)
  | .value ident body kind => discard (newVariable ident body kind)
  | .function ident body kind parameters => discard (newFunction ident body kind parameters)
  | .insert t b => discard (Growth.insert t b)
  | .table bs => discard (newTable bs)
  | .attach id t => Growth.attach id t

def Makes (m : Making) (f g : Forest) : Prop :=
  ∃ remarks after, m.perform.run.run ⟨f, remarks⟩ = (.ok (), ⟨g, after⟩)

theorem Makes.of_grows {m : Making} {f g : Forest} {Q : Forest → Prop} (h : m.Makes f g)
    (hm : Grows f m.perform fun _ g => Q g) : Q g := by
  obtain ⟨remarks, after, hrun⟩ := h
  exact hm remarks () _ hrun

end Making

theorem SteadyFilling.discard {α : Type} {made : Shape → Prop} {K : Forest → Forest → Prop}
    (hK : SteadyFilling made K) {x : Growth α} (hx : Maintains K x) :
    Maintains K (Functor.discard x) := by
  have h := hK.bind hx fun _ => hK.pure PUnit.unit
  rwa [bind_pure_comp] at h

/-- **The factories other than the one that attaches tables keep what filling keeps.** -/
theorem SteadyFilling.perform {K : Forest → Forest → Prop} (hK : SteadyFilling Shape.Made K) :
    (m : Making) → (∀ id t, m ≠ .attach id t) → Maintains K m.perform
  | .number _ _, _ => hK.discard (hK.placeShape (.number _ _))
  | .symbol _, _ => hK.discard (hK.placeShape (.symbol _))
  | .call name operands, _ => hK.discard (hK.newCall
      (fun _ _ _ hcheck => .builtin (least_of_checkOperands hcheck)) (.function name operands))
  | .choice _ _ _, _ => hK.discard (hK.newChoice (.choice _ _ _))
  | .value _ _ _, _ => hK.discard (hK.placeBinding _)
  | .function _ _ _ _, _ => hK.discard (hK.newFunction _ _ _ _)
  | .insert _ _, _ => hK.discard (hK.insert _ _)
  | .table _, _ => hK.discard (hK.newTable _)
  | .attach id t, h => absurd rfl (h id t)

/-- **The factories keep what growing keeps.** -/
theorem SteadyGrowth.perform {K : Forest → Forest → Prop} (hK : SteadyGrowth Shape.Made K)
    (m : Making) : Maintains K m.perform := by
  by_cases h : ∃ id t, m = .attach id t
  · obtain ⟨id, t, rfl⟩ := h
    exact hK.attach id t
  · exact hK.toSteadyFilling.perform m fun id t heq => h ⟨id, t, heq⟩

/-! ## Built forests -/

/-- **The forests that the factories give**, calls of them and planted sources in any order -/
inductive Built : Forest → Prop
  | empty : Built .empty
  | made {f g : Forest} {m : Making} : Built f → m.Makes f g → Built g
  | planted {f g : Forest} {source : String} {remarks after : List Remark} {root : NodeId} :
      Built f → (plantSource source).run.run ⟨f, remarks⟩ = (.ok root, ⟨g, after⟩) → Built g

def Forest.AllMade (f : Forest) : Prop := ∀ id node, f.node? id = some node → node.shape.Made

theorem allMade_empty : Forest.empty.AllMade := fun _ _ hnode => by cases hnode

theorem allMade_modify {f : Forest} {id : NodeId} {step : Node → Node}
    (hstep : ∀ n, (step n).shape = n.shape) (hf : f.AllMade) :
    ({ f with nodes := f.nodes.modify id.index step } : Forest).AllMade := by
  intro j node hnode
  rw [node?_modify] at hnode
  split at hnode
  · obtain ⟨n, hn, rfl⟩ := Option.map_eq_some_iff.1 hnode
    rw [hstep]
    exact hf j n hn
  · exact hf j node hnode

theorem steady_allMade :
    SteadyGrowth Shape.Made fun f g => f.AllMade → g.AllMade where
  refl _ := id
  trans h h' := h' ∘ h
  node f shape hshape hf j node hnode := by
    rw [node?_push] at hnode
    split at hnode
    · cases hnode
      exact hshape
    · exact hf j node hnode
  binding _ _ hf := hf
  table _ hf := hf
  parent _ _ _ := allMade_modify fun _ => rfl
  bound _ _ _ hf := hf
  scope _ _ _ := allMade_modify fun _ => rfl
  enclosing _ _ _ hf := hf
  owner _ _ _ hf := hf

/-- **Every node of a built forest is of a shape that the factories make.** -/
theorem made_of_built {f : Forest} (h : Built f) : f.AllMade := by
  induction h with
  | empty => exact allMade_empty
  | made _ hmakes ih => exact hmakes.of_grows (steady_allMade.perform _ _) ih
  | planted _ hrun ih => exact steady_allMade.plantSource _ _ _ _ _ hrun ih

end Abacus
