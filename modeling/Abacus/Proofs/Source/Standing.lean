import Abacus.Proofs.Source.Grammar
import Abacus.Proofs.Source.Planting

/-!
# The node that stands for a form

A node stands for a form if it has the shape of the form, with nodes of the parts below it, and a
table for each scope, the scopes inside coming first.  Where planting a form gives a node, it stands
for the form.

* `Stands`, `Forest.Whole`     the nodes of a form;
* `KeptBelow`, `stands_mono`   what the node of a form depends on;
* `Form.Lacks`, `Form.Ample`   a call of a built-in operator has too few operands, or none has;
* `grows_form`                 **the planted node stands for the form**.
-/

namespace Abacus

open Growth

/-! ## The nodes of a form -/

def Forest.shape? (f : Forest) (id : NodeId) : Option Shape := (f.node? id).map (·.shape)

def Forest.Holds (f : Forest) (id : NodeId) (P : List TableId → Prop) : Prop :=
  ∃ node ts, f.node? id = some node ∧ f.Row id node.scope ts ∧ P ts

mutual

/-- **A node stands for a form**, some of its tables being those of the scopes; the parts were made
before it. -/
def Stands (f : Forest) (id : NodeId) (ts : List TableId) : Form → Prop
  | .numeral kind text => ts = [] ∧ f.shape? id = some (.number (.make (.ofNumeral text) kind))
  | .symbol name => ts = [] ∧ f.shape? id = some (.symbol name)
  | .call name operands => ts = [] ∧ ∃ ids, f.shape? id = some (callShape name (ids.map .node)) ∧
      (∀ c ∈ ids, c.index < id.index) ∧ StandAll f ids operands
  | .choice test ifTrue ifFalse => ts = [] ∧ ∃ a b c,
      f.shape? id = some (.choice (.node a) (.node b) (.node c)) ∧
      (∀ j ∈ [a, b, c], j.index < id.index) ∧ f.Holds a (fun us => Stands f a us test) ∧
      f.Holds b (fun us => Stands f b us ifTrue) ∧ f.Holds c (fun us => Stands f c us ifFalse)
  | .scoped definitions body => definitions = [] ∧ Stands f id ts body ∨
      definitions ≠ [] ∧ ∃ inner t table, ts = inner ++ [t] ∧ Stands f id inner body ∧
        f.table? t = some table ∧ BindAll f id table.bindings definitions

def StandAll (f : Forest) : List NodeId → List Form → Prop
  | ids, [] => ids = []
  | ids, form :: rest => ∃ c cs, ids = c :: cs ∧ f.Holds c (fun us => Stands f c us form) ∧
      StandAll f cs rest

/-- a binding stands for a definition, the node bound being made before the node of the scope -/
def Binds (f : Forest) (id : NodeId) (b : BindingId) : Definition → Prop
  | .value name body type => ∃ c,
      f.binding? b = some ⟨name, type.bind Kind.ofName?, .node c, .value⟩ ∧
      c.index < id.index ∧ f.Holds c (fun us => Stands f c us body)
  | .function name parameters body type => ∃ c,
      f.binding? b = some ⟨name, type.bind Kind.ofName?, .node c, .function parameters⟩ ∧
      c.index < id.index ∧ f.Holds c (fun us => Stands f c us body)

def BindAll (f : Forest) (id : NodeId) : List BindingId → List Definition → Prop
  | bs, [] => bs = []
  | bs, d :: rest => ∃ b cs, bs = b :: cs ∧ Binds f id b d ∧ BindAll f id cs rest

end

/-- **A node with all of its tables stands for a form.** -/
def Forest.Whole (f : Forest) (id : NodeId) (form : Form) : Prop :=
  f.Holds id fun ts => Stands f id ts form

theorem standAll_iff {f : Forest} {ids : List NodeId} {forms : List Form} :
    StandAll f ids forms ↔ List.Forall₂ f.Whole ids forms := by
  induction forms generalizing ids with
  | nil => simp [StandAll]
  | cons form forms ih =>
    rw [StandAll, List.forall₂_cons_right_iff]
    constructor
    · rintro ⟨c, cs, rfl, hc, hcs⟩
      exact ⟨c, cs, hc, ih.1 hcs, rfl⟩
    · rintro ⟨c, cs, hc, hcs, rfl⟩
      exact ⟨c, cs, rfl, hc, ih.2 hcs⟩

theorem bindAll_iff {f : Forest} {id : NodeId} {bs : List BindingId} {ds : List Definition} :
    BindAll f id bs ds ↔ List.Forall₂ (Binds f id) bs ds := by
  induction ds generalizing bs with
  | nil => simp [BindAll]
  | cons d ds ih =>
    rw [BindAll, List.forall₂_cons_right_iff]
    constructor
    · rintro ⟨b, cs, rfl, hb, hcs⟩
      exact ⟨b, cs, hb, ih.1 hcs, rfl⟩
    · rintro ⟨b, cs, hb, hcs, rfl⟩
      exact ⟨b, cs, rfl, hb, ih.2 hcs⟩

theorem forall₂_mono {α β : Type} {R S : α → β → Prop} {l : List α} {u : List β}
    (h : List.Forall₂ R l u) (hRS : ∀ a ∈ l, ∀ b ∈ u, R a b → S a b) : List.Forall₂ S l u := by
  induction h with
  | nil => exact .nil
  | cons hab _ ih =>
    refine .cons (hRS _ List.mem_cons_self _ List.mem_cons_self hab) (ih ?_)
    exact fun a ha b hb => hRS a (List.mem_cons_of_mem _ ha) b (List.mem_cons_of_mem _ hb)

theorem mem_of_forall₂ {α β : Type} {R : α → β → Prop} {l : List α} {u : List β} {a : α}
    (h : List.Forall₂ R l u) (ha : a ∈ l) : ∃ b ∈ u, R a b := by
  induction h with
  | nil => cases ha
  | cons hab _ ih =>
    rcases List.mem_cons.1 ha with rfl | ha
    · exact ⟨_, List.mem_cons_self, hab⟩
    · obtain ⟨b, hb, hR⟩ := ih ha
      exact ⟨b, List.mem_cons_of_mem _ hb, hR⟩

/-! ## What the node of a form depends on -/

/-- the nodes below a bound keep their shapes and tables, and bindings are kept -/
structure KeptBelow (n : Nat) (f g : Forest) : Prop where
  nodes : ∀ j node, j.index < n → f.node? j = some node →
    ∃ node', g.node? j = some node' ∧ node'.shape = node.shape ∧ node'.scope = node.scope
  tables : ∀ t table o, f.table? t = some table → table.owner = some o → o.index < n →
    g.table? t = some table
  bindings : ∀ b x, f.binding? b = some x → g.binding? b = some x

section
variable {n : Nat} {f g h : Forest} {id : NodeId} {ts : List TableId}

theorem KeptBelow.holds {P P' : List TableId → Prop} (hk : KeptBelow n f g) (hlt : id.index < n)
    (hP : ∀ ts, f.Row id (f.node? id |>.bind (·.scope)) ts → P ts → P' ts) (h : f.Holds id P) :
    g.Holds id P' := by
  obtain ⟨node, ts, hnode, hrow, hts⟩ := h
  obtain ⟨node', hnode', _, hscope⟩ := hk.nodes id node hlt hnode
  refine ⟨node', ts, hnode', ?_, hP ts (by rwa [hnode]) hts⟩
  rw [hscope]
  exact hrow.mono fun t table ht howner => hk.tables t table id ht howner hlt

def HeldIn (f g : Forest) (ts : List TableId) : Prop :=
  ∀ t ∈ ts, ∀ table, f.table? t = some table →
    ∃ table', g.table? t = some table' ∧ table'.bindings = table.bindings

theorem KeptBelow.held (hk : KeptBelow n f g) (hlt : id.index < n) {start : Option TableId}
    (hrow : f.Row id start ts) : HeldIn f g ts := by
  intro t ht table htable
  obtain ⟨table', htable', howner⟩ := hrow.table ht
  rw [htable] at htable'
  cases htable'
  exact ⟨table, hk.tables t table id htable howner hlt, rfl⟩

/-- **The node of a form depends on its shape and tables, and on the nodes made before it.** -/
theorem stands_mono (hk : KeptBelow n f g) :
    (∀ form id ts, id.index ≤ n → g.shape? id = f.shape? id → HeldIn f g ts →
      Stands f id ts form → Stands g id ts form) ∧
    ∀ d id b, id.index ≤ n → Binds f id b d → Binds g id b d := by
  have hpart {form : Form} (ih : ∀ id ts, id.index ≤ n → g.shape? id = f.shape? id →
      HeldIn f g ts → Stands f id ts form → Stands g id ts form) {c : NodeId} (hlt : c.index < n)
      (hc : f.Holds c fun us => Stands f c us form) : g.Holds c fun us => Stands g c us form := by
    refine hk.holds hlt ?_ hc
    intro us hrow hus
    refine ih c us (Nat.le_of_lt hlt) ?_ (hk.held hlt hrow) hus
    obtain ⟨node, _, hnode, _⟩ := hc
    obtain ⟨node', hnode', hshape, _⟩ := hk.nodes c node hlt hnode
    rw [Forest.shape?, Forest.shape?, hnode, hnode', Option.map_some, Option.map_some, hshape]
  refine Form.induction ?_ ?_ ?_ ?_ ?_ ?_ ?_
  · rintro kind text id ts _ hshape _ ⟨hts, hnumber⟩
    exact ⟨hts, hshape.trans hnumber⟩
  · rintro name id ts _ hshape _ ⟨hts, hsymbol⟩
    exact ⟨hts, hshape.trans hsymbol⟩
  · rintro name operands ih id ts hle hshape _ ⟨hts, ids, hcall, hlt, hall⟩
    refine ⟨hts, ids, hshape.trans hcall, hlt, ?_⟩
    rw [standAll_iff] at hall ⊢
    refine forall₂_mono hall ?_
    intro c hc form hform h
    exact hpart (ih form hform) (Nat.lt_of_lt_of_le (hlt c hc) hle) h
  · intro test ifTrue ifFalse iha ihb ihc id ts hle hshape _ hstands
    obtain ⟨hts, a, b, c, hchoice, hlt, ha, hb, hc⟩ := hstands
    have hbelow (j : NodeId) (hj : j ∈ [a, b, c]) : j.index < n :=
      Nat.lt_of_lt_of_le (hlt j hj) hle
    exact ⟨hts, a, b, c, hshape.trans hchoice, hlt, hpart iha (hbelow a (by simp)) ha,
      hpart ihb (hbelow b (by simp)) hb, hpart ihc (hbelow c (by simp)) hc⟩
  · rintro definitions body ihds ihbody id ts hle hshape hheld
      (⟨hnil, hbody⟩ | ⟨hne, inner, t, table, rfl, hbody, htable, hall⟩)
    · exact Or.inl ⟨hnil, ihbody id ts hle hshape hheld hbody⟩
    · obtain ⟨table', htable', hbindings⟩ := hheld t (by simp) table htable
      refine Or.inr ⟨hne, inner, t, table', rfl, ?_, htable', ?_⟩
      · exact ihbody id inner hle hshape (fun t ht => hheld t (by simp [ht])) hbody
      · rw [hbindings]
        rw [bindAll_iff] at hall ⊢
        exact forall₂_mono hall fun b _ d hd hb => ihds d hd id b hle hb
  · rintro name body type ih id b hle ⟨c, hb, hlt, hc⟩
    exact ⟨c, hk.bindings b _ hb, hlt, hpart ih (Nat.lt_of_lt_of_le hlt hle) hc⟩
  · rintro name parameters body type ih id b hle ⟨c, hb, hlt, hc⟩
    exact ⟨c, hk.bindings b _ hb, hlt, hpart ih (Nat.lt_of_lt_of_le hlt hle) hc⟩

theorem KeptBelow.whole {form : Form} (hk : KeptBelow n f g) (hlt : id.index < n)
    (h : f.Whole id form) : g.Whole id form := by
  refine hk.holds hlt ?_ h
  intro ts hrow hts
  refine (stands_mono hk).1 form id ts (Nat.le_of_lt hlt) ?_ (hk.held hlt hrow) hts
  obtain ⟨node, _, hnode, _⟩ := h
  obtain ⟨node', hnode', hshape, _⟩ := hk.nodes id node hlt hnode
  rw [Forest.shape?, Forest.shape?, hnode, hnode', Option.map_some, Option.map_some, hshape]

theorem Forest.Whole.lt {form : Form} (h : f.Whole id form) : id.index < f.nodes.size := by
  obtain ⟨node, _, hnode, _⟩ := h
  exact Forest.lt_of_node? hnode

theorem lt_of_standAll {ids : List NodeId} {forms : List Form} (h : StandAll f ids forms) :
    ∀ c ∈ ids, c.index < f.nodes.size := by
  rw [standAll_iff] at h
  induction h with
  | nil => exact fun c hc => by cases hc
  | cons hwhole _ ih => exact List.forall_mem_cons.2 ⟨hwhole.lt, ih⟩

theorem keptBelow_grown (hg : f.Grown g) : KeptBelow f.nodes.size f g where
  nodes j node _ hnode := ⟨node, hg.nodes j node hnode, rfl, rfl⟩
  tables := hg.tables
  bindings := hg.bindings

theorem keptBelow_compound {shape : Shape} {refs : List Ref} {parent : NodeId}
    (hh : Forest.Adopted parent refs
      { g with nodes := g.nodes.push ⟨shape, none, none⟩ } h) : KeptBelow g.nodes.size g h where
  nodes j node hlt hnode := by
    refine ⟨Forest.adoptedNode parent refs j node, ?_, by simp, by simp⟩
    rw [hh.nodes, Forest.node?_push, if_neg (Nat.ne_of_lt hlt), hnode, Option.map_some]
  tables t table _ ht _ _ := by
    rw [hh.table?]
    exact ht
  bindings b x hb := by
    rw [hh.binding?]
    exact hb

theorem keptBelow_attached {h' k : Forest} {t : TableId} {refs : List Ref} {scope : Option TableId}
    {bs : List BindingId} (ht : t = ⟨g.tables.size⟩) (hh : Filled t ⟨bs, none, none⟩ g h)
    (hattached : Attached id t ts scope h h') (hadopted : Forest.Adopted id refs h' k) :
    KeptBelow id.index g k where
  nodes j node hlt hnode := by
    have hne : j ≠ id := fun heq => Nat.lt_irrefl _ (heq ▸ hlt)
    refine ⟨Forest.adoptedNode id refs j node, ?_, by simp, by simp⟩
    rw [hadopted.nodes, hattached.nodes, if_neg hne, hh.node?, hnode, Option.map_some]
  tables t' table o htable howner hlt := by
    have hne : table.owner ≠ some id := fun heq => by
      rw [howner, Option.some.injEq] at heq
      exact Nat.lt_irrefl _ (heq ▸ hlt)
    have hnew : t' ≠ t := fun heq => by
      have hlt' := Forest.lt_of_table? htable
      rw [heq, ht] at hlt'
      exact Nat.lt_irrefl _ hlt'
    rw [hadopted.table?]
    exact hattached.others t' table (Forest.table?_filled ht hh htable) hne hnew
  bindings b x hb := by
    rw [hadopted.binding?, Forest.binding?, hattached.bindings, hh.bindings]
    exact hb

/-- **A new table around the node of the body** makes it the node of the scope. -/
theorem whole_scope {k : Forest} {definitions : List Definition} {body : Form}
    {bs : List BindingId} {node : Node} (hne : definitions ≠ []) (hnode : g.node? id = some node)
    (hbody : Stands g id ts body)
    (hbs : BindAll g id bs definitions) (hadded : ScopeAdded id bs ts g k) :
    k.Whole id (.scoped definitions body) := by
  obtain ⟨t, h, scope, h', ht, hfilled, hattached, hadopted⟩ := hadded
  have hkept := keptBelow_attached ht hfilled hattached hadopted
  have hshape : k.shape? id = g.shape? id := by
    rw [Forest.shape?, Forest.shape?, hadopted.nodes, hattached.nodes, if_pos rfl, hfilled.node?,
      hnode, Option.map_some, Option.map_some, Option.map_some, Option.map_some,
      Forest.shape_adoptedNode]
  have hheld (t' : TableId) : (k.table? t').map (·.bindings) = (h.table? t').map (·.bindings) := by
    rw [hadopted.table?]
    exact hattached.held t'
  have hold : HeldIn g k ts := by
    intro t' ht' table htable
    have hsame := hheld t'
    rw [Forest.table?_filled ht hfilled htable, Option.map_some] at hsame
    exact Option.map_eq_some_iff.1 hsame
  have hnew := hheld t
  rw [hfilled.table, Option.map_some] at hnew
  obtain ⟨table, htable, hbindings⟩ := Option.map_eq_some_iff.1 hnew
  refine ⟨Forest.adoptedNode id (h.bodies t) id { node with scope := scope }, ts ++ [t], ?_, ?_, ?_⟩
  · rw [hadopted.nodes, hattached.nodes, if_pos rfl, hfilled.node?, hnode]
    rfl
  · rw [Forest.scope_adoptedNode]
    exact hattached.row.mono fun t' table' htable' _ => by rwa [hadopted.table?]
  · refine Or.inr ⟨hne, ts, t, table, rfl, ?_, htable, ?_⟩
    · exact (stands_mono hkept).1 body id ts (Nat.le_refl _) hshape hold hbody
    · rw [hbindings, bindAll_iff]
      exact (bindAll_iff.1 hbs).imp fun b d hb => (stands_mono hkept).2 d id b (Nat.le_refl _) hb

end

/-! ## Calls with too few operands -/

mutual

/-- **A call of a built-in operator with too few operands**, whose number is given, stands in a
form. -/
inductive Form.Lacks : Form → Builtin → Nat → Prop
  | here {name : String} {operands : List Form} {b : Builtin} : Builtin.ofName? name = some b →
      operands.length < b.arity.least → Form.Lacks (.call name operands) b operands.length
  | operand {name : String} {operands : List Form} {form : Form} {b : Builtin} {n : Nat} :
      form ∈ operands → form.Lacks b n → Form.Lacks (.call name operands) b n
  | test {test ifTrue ifFalse : Form} {b : Builtin} {n : Nat} : test.Lacks b n →
      Form.Lacks (.choice test ifTrue ifFalse) b n
  | ifTrue {test ifTrue ifFalse : Form} {b : Builtin} {n : Nat} : ifTrue.Lacks b n →
      Form.Lacks (.choice test ifTrue ifFalse) b n
  | ifFalse {test ifTrue ifFalse : Form} {b : Builtin} {n : Nat} : ifFalse.Lacks b n →
      Form.Lacks (.choice test ifTrue ifFalse) b n
  | definition {definitions : List Definition} {body : Form} {d : Definition} {b : Builtin}
      {n : Nat} : d ∈ definitions → d.Lacks b n → Form.Lacks (.scoped definitions body) b n
  | body {definitions : List Definition} {body : Form} {b : Builtin} {n : Nat} : body.Lacks b n →
      Form.Lacks (.scoped definitions body) b n

inductive Definition.Lacks : Definition → Builtin → Nat → Prop
  | value {name : String} {body : Form} {type : Option String} {b : Builtin} {n : Nat} :
      body.Lacks b n → Definition.Lacks (.value name body type) b n
  | function {name : String} {parameters : List String} {body : Form} {type : Option String}
      {b : Builtin} {n : Nat} : body.Lacks b n →
      Definition.Lacks (.function name parameters body type) b n

end

/-- no call of a built-in operator has too few operands -/
def Form.Ample (form : Form) : Prop := ∀ b n, ¬ form.Lacks b n

def Definition.Ample (d : Definition) : Prop := ∀ b n, ¬ d.Lacks b n

/-! ## Planting succeeds -/

section
variable {f g : Forest}

theorem whole_compound {shape : Shape} {refs : List Ref} {id : NodeId} {form : Form} {h : Forest}
    (hid : id = ⟨g.nodes.size⟩) (hh : Forest.Adopted id refs
      { g with nodes := g.nodes.push ⟨shape, none, none⟩ } h)
    (hstands : h.shape? id = some shape → KeptBelow id.index g h → Stands h id [] form) :
    h.Whole id form := by
  have hnode : h.node? id = some (Forest.adoptedNode id refs id ⟨shape, none, none⟩) := by
    rw [hh.nodes, Forest.node?_push, if_pos (by rw [hid]), Option.map_some]
  have hkept : KeptBelow id.index g h := by
    rw [hid]
    exact keptBelow_compound hh
  refine ⟨_, [], hnode, ?_, hstands ?_ hkept⟩
  · rw [Forest.scope_adoptedNode]
    exact .nil
  · rw [Forest.shape?, hnode, Option.map_some, Forest.shape_adoptedNode]

theorem whole_leaf {shape : Shape} (form : Form)
    (hstands : ∀ h id, Forest.shape? h id = some shape → Stands h id [] form) :
    Grows f (placeShape shape) fun id g => g.Whole id form := by
  refine grows_mono grows_placeShape ?_
  rintro id g ⟨hid, rfl⟩
  exact whole_compound hid (Forest.adopted_nil id _) fun hshape _ => hstands _ id hshape

theorem binds_le {id id' : NodeId} {b : BindingId} {d : Definition} (hle : id.index ≤ id'.index)
    (h : Binds f id b d) : Binds f id' b d := by
  cases d with
  | value name body type =>
    obtain ⟨c, hb, hlt, hc⟩ := h
    exact ⟨c, hb, Nat.lt_of_lt_of_le hlt hle, hc⟩
  | function name parameters body type =>
    obtain ⟨c, hb, hlt, hc⟩ := h
    exact ⟨c, hb, Nat.lt_of_lt_of_le hlt hle, hc⟩

theorem grows_ampleCall {name : String} {operands : List Form} {ids : List NodeId}
    (hlength : ids.length = operands.length) (hoperands : ∀ form ∈ operands, form.Ample) :
    Grows g (newCall name (ids.map .node)) fun _ _ => (Form.call name operands).Ample := by
  intro remarks id d hrun b n hlacks
  cases hlacks with
  | operand hform hlacks => exact hoperands _ hform b n hlacks
  | here hname hlt =>
    unfold newCall Operator.ofName at hrun
    rw [hname] at hrun
    have hcheck : checkOperands b (ids.map Ref.node).length =
        .error (.tooFewOperands b.name b.arity.least (ids.map Ref.node).length) := by
      refine if_pos ?_
      rw [List.length_map, hlength]
      exact Int.ofNat_lt.2 hlt
    simp only [hcheck] at hrun
    cases hrun

theorem grows_forms {forms : List Form} (hforms : ∀ form ∈ forms, ∀ f : Forest, f.Linked →
      Grows f (plantForm form) fun id g => g.Whole id form ∧ form.Ample) (hf : f.Linked) :
    Grows f (plantForms forms) fun ids g =>
      StandAll g ids forms ∧ ∀ form ∈ forms, form.Ample := by
  induction forms generalizing f with
  | nil => exact grows_pure ⟨rfl, fun _ h => by cases h⟩
  | cons form rest ih =>
    unfold plantForms
    refine grows_bind (grows_and (grows_plantForm form hf) (hforms form List.mem_cons_self f hf)) ?_
    rintro id g ⟨hg, hwhole, hample⟩
    refine grows_bind (grows_and (grows_plantForms rest hg.linked) (ih
      (fun form hform => hforms form (List.mem_cons_of_mem _ hform)) hg.linked)) ?_
    rintro ids h ⟨hh, hall, hrest⟩
    refine grows_pure ⟨⟨id, ids, rfl, ?_, hall⟩, List.forall_mem_cons.2 ⟨hample, hrest⟩⟩
    exact (keptBelow_grown hh.grown).whole hwhole.lt hwhole

/-- the binding of a definition of a form that has been planted -/
theorem grows_binds {binding : Binding} {d : Definition}
    (hbinds : ∀ (h : Forest) (b : BindingId), KeptBelow g.nodes.size g h →
      h.binding? b = some binding → Binds h ⟨g.nodes.size⟩ b d) (hg : g.Linked) :
    Grows g (placeBinding binding) fun b h => Binds h ⟨h.nodes.size⟩ b d := by
  refine grows_mono (grows_bound binding) ?_
  rintro b h ⟨rfl, rfl⟩
  refine hbinds _ _ (keptBelow_grown (planted_binding (.nil hg) binding).grown) ?_
  rw [Forest.binding?_push, if_pos rfl]

theorem grows_definitions {ds : List Definition} (hds : ∀ d ∈ ds, ∀ f : Forest, f.Linked →
      Grows f (plantDefinition d) fun b g => Binds g ⟨g.nodes.size⟩ b d ∧ d.Ample)
    (hf : f.Linked) : Grows f (plantDefinitions ds) fun bs g =>
      BindAll g ⟨g.nodes.size⟩ bs ds ∧ ∀ d ∈ ds, d.Ample := by
  induction ds generalizing f with
  | nil => exact grows_pure ⟨rfl, fun _ h => by cases h⟩
  | cons d rest ih =>
    unfold plantDefinitions
    refine grows_bind (grows_and (grows_plantDefinition d hf) (hds d List.mem_cons_self f hf)) ?_
    rintro b g ⟨⟨_, hg, _⟩, hbinds, hample⟩
    refine grows_bind (grows_and (grows_plantDefinitions rest hg.linked) (ih
      (fun d hd => hds d (List.mem_cons_of_mem _ hd)) hg.linked)) ?_
    rintro bs h ⟨⟨_, hh, _⟩, hall, hrest⟩
    refine grows_pure ⟨⟨b, bs, rfl, ?_, hall⟩, List.forall_mem_cons.2 ⟨hample, hrest⟩⟩
    have hkept := (stands_mono (keptBelow_grown hh.grown)).2 d _ b (Nat.le_refl _) hbinds
    exact binds_le hh.grown.size hkept

theorem grows_choice {test ifTrue ifFalse : Form}
    (iha : ∀ f : Forest, f.Linked →
      Grows f (plantForm test) fun id g => g.Whole id test ∧ test.Ample)
    (ihb : ∀ f : Forest, f.Linked →
      Grows f (plantForm ifTrue) fun id g => g.Whole id ifTrue ∧ ifTrue.Ample)
    (ihc : ∀ f : Forest, f.Linked →
      Grows f (plantForm ifFalse) fun id g => g.Whole id ifFalse ∧ ifFalse.Ample)
    (hf : f.Linked) : Grows f (plantForm (.choice test ifTrue ifFalse)) fun id g =>
      g.Whole id (.choice test ifTrue ifFalse) ∧ (Form.choice test ifTrue ifFalse).Ample := by
  unfold plantForm
  refine grows_bind (grows_and (grows_plantForm test hf) (iha f hf)) ?_
  rintro a g ⟨hg, ha, hampleA⟩
  refine grows_bind (grows_and (grows_plantForm ifTrue hg.linked) (ihb g hg.linked)) ?_
  rintro b h ⟨hh, hb, hampleB⟩
  refine grows_bind (grows_and (grows_plantForm ifFalse hh.linked) (ihc h hh.linked)) ?_
  rintro c k ⟨hk, hc, hampleC⟩
  have ha := (keptBelow_grown (hh.grown.trans hk.grown)).whole ha.lt ha
  have hb := (keptBelow_grown hk.grown).whole hb.lt hb
  refine grows_mono (grows_shape (.choice (.node a) (.node b) (.node c))) ?_
  rintro id l ⟨hid, hl⟩
  refine ⟨whole_compound hid hl fun hshape hkept => ?_, ?_⟩
  · have hlt (j : NodeId) (form : Form) (hj : k.Whole j form) : j.index < id.index := by
      rw [hid]
      exact hj.lt
    have hltA := hlt a test ha
    have hltB := hlt b ifTrue hb
    have hltC := hlt c ifFalse hc
    refine ⟨rfl, a, b, c, hshape, by simp [hltA, hltB, hltC], ?_, ?_, ?_⟩
    · exact hkept.whole hltA ha
    · exact hkept.whole hltB hb
    · exact hkept.whole hltC hc
  · intro b n hlacks
    cases hlacks with
    | test h => exact hampleA b n h
    | ifTrue h => exact hampleB b n h
    | ifFalse h => exact hampleC b n h

theorem grows_scoped {definitions : List Definition} {body : Form}
    (ihds : ∀ d ∈ definitions, ∀ f : Forest, f.Linked →
      Grows f (plantDefinition d) fun b g => Binds g ⟨g.nodes.size⟩ b d ∧ d.Ample)
    (ihbody : ∀ f : Forest, f.Linked →
      Grows f (plantForm body) fun id g => g.Whole id body ∧ body.Ample)
    (hf : f.Linked) : Grows f (plantForm (.scoped definitions body)) fun id g =>
      g.Whole id (.scoped definitions body) ∧ (Form.scoped definitions body).Ample := by
  unfold plantForm
  refine grows_bind (grows_and (grows_plantDefinitions definitions hf)
    (grows_definitions ihds hf)) ?_
  rintro bs g ⟨⟨cs, hg, hb⟩, hall, hdefinitions⟩
  refine grows_bind (grows_and (grows_plantForm body hg.linked) (ihbody g hg.linked)) ?_
  rintro id h ⟨hh, ⟨node, ts, hnode, hrow, hbody⟩, hample⟩
  have hbs : ∀ b ∈ bs, (h.binding? b).isSome := (hb.mono hh.grown.bindings).isSome
  refine grows_bind (grows_scope hnode hrow hbs) ?_
  intro _ k hk
  have hample' : (Form.scoped definitions body).Ample := by
    intro b n hlacks
    cases hlacks with
    | definition hd h => exact hdefinitions _ hd b n h
    | body h => exact hample b n h
  refine grows_pure ⟨?_, hample'⟩
  have hall' := bindAll_iff.1 hall
  rcases hk with ⟨rfl, rfl⟩ | ⟨hne, hadded⟩
  · cases hall'
    exact ⟨node, ts, hnode, hrow, Or.inl ⟨rfl, hbody⟩⟩
  · have hne' : definitions ≠ [] := by
      rintro rfl
      cases hall'
      exact hne rfl
    refine whole_scope hne' hnode hbody ?_ hadded
    refine bindAll_iff.2 (hall'.imp fun b d hbinds => ?_)
    refine binds_le (hh.new id (List.mem_singleton_self id)) ?_
    exact (stands_mono (keptBelow_grown hh.grown)).2 d _ b (Nat.le_refl _) hbinds

/-- **The planted node stands for the form**, in which no call has too few operands. -/
theorem grows_form :
    (∀ form : Form, ∀ f : Forest, f.Linked →
      Grows f (plantForm form) fun id g => g.Whole id form ∧ form.Ample) ∧
    ∀ d : Definition, ∀ f : Forest, f.Linked →
      Grows f (plantDefinition d) fun b g => Binds g ⟨g.nodes.size⟩ b d ∧ d.Ample := by
  refine Form.induction ?_ ?_ ?_ ?_ ?_ ?_ ?_
  · intro kind text f _
    refine grows_mono (whole_leaf (.numeral kind text) fun h id hshape => ⟨rfl, hshape⟩) ?_
    exact fun id g hwhole => ⟨hwhole, fun b n h => by cases h⟩
  · intro name f _
    refine grows_mono (whole_leaf (.symbol name) fun h id hshape => ⟨rfl, hshape⟩) ?_
    exact fun id g hwhole => ⟨hwhole, fun b n h => by cases h⟩
  · intro name operands ih f hf
    unfold plantForm
    refine grows_bind (grows_forms ih hf) ?_
    rintro ids g ⟨hall, hoperands⟩
    have hall' := standAll_iff.1 hall
    refine grows_mono (grows_and (grows_call name (ids.map .node))
      (grows_ampleCall hall'.length_eq hoperands)) ?_
    rintro id h ⟨⟨hid, hh⟩, hample⟩
    refine ⟨whole_compound hid hh fun hshape hkept => ?_, hample⟩
    have hlt (c : NodeId) (hc : c ∈ ids) : c.index < id.index := by
      rw [hid]
      exact lt_of_standAll hall c hc
    refine ⟨rfl, ids, hshape, hlt, standAll_iff.2 (forall₂_mono hall' ?_)⟩
    exact fun c hc form _ hwhole => hkept.whole (hlt c hc) hwhole
  · exact fun test ifTrue ifFalse iha ihb ihc f hf => grows_choice iha ihb ihc hf
  · exact fun definitions body ihds ihbody f hf => grows_scoped ihds ihbody hf
  · intro name body type ih f hf
    unfold plantDefinition
    refine grows_bind (grows_and (grows_plantForm body hf) (ih f hf)) ?_
    rintro c g ⟨hg, hwhole, hample⟩
    refine grows_bind (grows_plantType type) ?_
    rintro kind g ⟨rfl, rfl⟩
    refine grows_mono (grows_binds (fun h b hkept hb => ?_) hg.linked)
      fun b h hbinds => ⟨hbinds, ?_⟩
    · exact ⟨c, hb, hwhole.lt, hkept.whole hwhole.lt hwhole⟩
    · intro b n hlacks
      cases hlacks with
      | value h => exact hample b n h
  · intro name parameters body type ih f hf
    unfold plantDefinition
    refine grows_bind (grows_and (grows_plantForm body hf) (ih f hf)) ?_
    rintro c g ⟨hg, hwhole, hample⟩
    refine grows_bind (grows_plantType type) ?_
    rintro kind g ⟨rfl, rfl⟩
    refine grows_bind (grows_remarkAll _) ?_
    rintro _ g rfl
    refine grows_mono (grows_binds (fun h b hkept hb => ?_) hg.linked)
      fun b h hbinds => ⟨hbinds, ?_⟩
    · exact ⟨c, hb, hwhole.lt, hkept.whole hwhole.lt hwhole⟩
    · intro b n hlacks
      cases hlacks with
      | function h => exact hample b n h

end

end Abacus
