import Abacus.Proofs.Source.Standing

/-!
# What planting reports

Planting a form makes remarks, and stops at a call of a built-in operator with too few operands.
What is reported is read off the form by a walk that takes the parts of a construct first, left to
right, and then the construct; planting makes the remarks of this walk up to its first fault, and
stops there.

* `Notice`             what is reported: a remark, or a fault;
* `Form.notices`       the notices of a form, in the order of the walk;
* `Tells`, `Quiet`     a step reports some notices, up to the first fault, or none;
* `tells_form`         **planting reports the notices of the form**;
* `lacks_of_notices`   the faults among them are those of calls with too few operands;
* `plantForm_cases`    **what planting a form gives**.
-/

namespace Abacus

open Growth

/-! ## The notices of a form -/

inductive Notice where
  | remark (r : Remark)
  /-- a fault, at which planting stops -/
  | fault (e : Fault)

/-- the names of a row that some given ones, or earlier ones of the row, have already -/
def repeatedAfter (before : List String) : List String → List String
  | [] => []
  | name :: rest => (if name ∈ before then [name] else []) ++ repeatedAfter (before ++ [name]) rest

def repeated (names : List String) : List String := repeatedAfter [] names

def countNotices (b : Builtin) (count : Nat) : List Notice :=
  if count < b.arity.least then [.fault (.tooFewOperands b.name b.arity.least count)]
  else match b.arity.most? with
    | some most => if most < count then [.remark (.surplusOperands b.name most count)] else []
    | none => []

/-- the notice of a call; the operands of a function are not counted before it is called -/
def callNotices (name : String) (count : Nat) : List Notice :=
  match Builtin.ofName? name with
  | none => []
  | some b => countNotices b count

def typeNotices : Option String → List Notice
  | none => []
  | some type => if Kind.ofName? type = none then [.remark (.unknownType type)] else []

def parameterNotices (name : String) (parameters : List String) : List Notice :=
  (repeated parameters).map fun p => .remark (.repeatedParameter p name)

def conflictNotices (names : List String) : List Notice :=
  (repeated names).map fun name => .remark (.conflictingDefinition name)

mutual

/-- **The notices of a form**: those of its parts, left to right, and then its own -/
def Form.notices : Form → List Notice
  | .numeral .. => []
  | .symbol _ => []
  | .call name operands => Form.noticesAll operands ++ callNotices name operands.length
  | .choice test ifTrue ifFalse => test.notices ++ (ifTrue.notices ++ ifFalse.notices)
  | .scoped definitions body =>
    Definition.noticesAll definitions ++
      (body.notices ++ conflictNotices (definitions.map Definition.name))

def Form.noticesAll : List Form → List Notice
  | [] => []
  | form :: rest => form.notices ++ Form.noticesAll rest

def Definition.notices : Definition → List Notice
  | .value _ body type => body.notices ++ typeNotices type
  | .function name parameters body type =>
    body.notices ++ (typeNotices type ++ parameterNotices name parameters)

def Definition.noticesAll : List Definition → List Notice
  | [] => []
  | definition :: rest => definition.notices ++ Definition.noticesAll rest

end

/-! ## Reporting -/

/-- **Growing from a forest reports some notices**, up to the first fault, and stops there; without
a fault it gives a result and a forest with a property. -/
def Tells {α : Type} (f : Forest) (x : Growth α) (told : List Notice) (Q : α → Forest → Prop) :
    Prop :=
  ∀ remarks, ∃ made : List Remark,
    (told = made.map .remark ∧
      ∃ a g, x.run.run ⟨f, remarks⟩ = (.ok a, ⟨g, remarks ++ made⟩) ∧ Q a g) ∨
    ∃ e rest g, told = made.map .remark ++ .fault e :: rest ∧
      x.run.run ⟨f, remarks⟩ = (.error e, ⟨g, remarks ++ made⟩)

section
variable {α β : Type} {f : Forest} {told later : List Notice} {P : β → Forest → Prop}
  {Q : α → Forest → Prop}

theorem tells_pure {a : α} (h : Q a f) : Tells f (pure a) [] Q := fun remarks =>
  ⟨[], Or.inl ⟨rfl, a, f, by rw [List.append_nil]; rfl, h⟩⟩

theorem tells_bind {x : Growth β} {k : β → Growth α} (hx : Tells f x told P)
    (hk : ∀ b g, P b g → Tells g (k b) later Q) : Tells f (x >>= k) (told ++ later) Q := by
  intro remarks
  obtain ⟨made, ⟨rfl, b, g, hrun, hb⟩ | ⟨e, rest, g, rfl, hrun⟩⟩ := hx remarks
  · obtain ⟨more, ⟨rfl, a, h, hrun', ha⟩ | ⟨e, rest, h, rfl, hrun'⟩⟩ := hk b g hb (remarks ++ made)
    · refine ⟨made ++ more, Or.inl ⟨List.map_append.symm, a, h, ?_, ha⟩⟩
      rw [run_bind_ok hrun, hrun', List.append_assoc]
    · refine ⟨made ++ more, Or.inr ⟨e, rest, h, ?_, ?_⟩⟩
      · rw [List.map_append, List.append_assoc]
      · rw [run_bind_ok hrun, hrun', List.append_assoc]
  · refine ⟨made, Or.inr ⟨e, rest ++ later, g, ?_, ?_⟩⟩
    · rw [List.append_assoc]
      rfl
    · rw [run_bind, hrun]

theorem tells_next {x : Growth β} {k : β → Growth α} (hx : Tells f x [] P)
    (hk : ∀ b g, P b g → Tells g (k b) later Q) : Tells f (x >>= k) later Q :=
  tells_bind hx hk

theorem tells_last {x : Growth β} {k : β → Growth α} (hx : Tells f x told P)
    (hk : ∀ b g, P b g → Tells g (k b) [] Q) : Tells f (x >>= k) told Q := by
  have h := tells_bind hx hk
  rwa [List.append_nil] at h

theorem tells_grows {x : Growth α} {P : α → Forest → Prop} (h : Tells f x told P)
    (hQ : Grows f x Q) : Tells f x told Q := by
  intro remarks
  obtain ⟨made, ⟨htold, a, g, hrun, _⟩ | hfault⟩ := h remarks
  · exact ⟨made, Or.inl ⟨htold, a, g, hrun, hQ remarks a _ hrun⟩⟩
  · exact ⟨made, Or.inr hfault⟩

theorem tells_remark (r : Remark) : Tells f (remark r) [.remark r] fun _ g => g = f := fun _ =>
  ⟨[r], Or.inl ⟨rfl, (), f, rfl, rfl⟩⟩

theorem tells_throw (e : Fault) : Tells f (throw e : Growth α) [.fault e] Q := fun remarks =>
  ⟨[], Or.inr ⟨e, [], f, rfl, by rw [List.append_nil]; rfl⟩⟩

theorem tells_remarkAll (rs : List Remark) :
    Tells f (remarkAll rs) (rs.map .remark) fun _ g => g = f := by
  induction rs with
  | nil => exact tells_pure rfl
  | cons r rs ih =>
    have hrest : ∀ (_ : Unit) (g : Forest), g = f →
        Tells g (remarkAll rs) (rs.map .remark) fun _ h => h = f := by
      rintro _ g rfl
      exact ih
    have htold := tells_bind (tells_remark r) hrest
    exact htold

end

/-! ## Steps that report nothing -/

def Quiet {α : Type} (f : Forest) (x : Growth α) : Prop := Tells f x [] fun _ _ => True

section
variable {α β : Type} {f : Forest}

theorem quiet_pure (a : α) : Quiet f (pure a : Growth α) := tells_pure trivial

theorem quiet_bind {x : Growth β} {k : β → Growth α} (hx : Quiet f x) (hk : ∀ b g, Quiet g (k b)) :
    Quiet f (x >>= k) := tells_next hx fun b g _ => hk b g

theorem quiet_change (step : Forest → Forest) : Quiet f (change step) := fun remarks =>
  ⟨[], Or.inl ⟨rfl, (), step f, by rw [List.append_nil]; rfl, trivial⟩⟩

theorem tells_forest : Tells f forest [] fun g h => g = f ∧ h = f := fun remarks =>
  ⟨[], Or.inl ⟨rfl, f, f, by rw [List.append_nil]; rfl, rfl, rfl⟩⟩

theorem quiet_add (step : Forest → Forest) (next : Forest → α) : Quiet f (do
    let id := next (← forest)
    change step
    return id) :=
  tells_next tells_forest fun _ _ _ => quiet_bind (quiet_change step) fun _ _ => quiet_pure _

theorem quiet_placeShape (shape : Shape) : Quiet f (placeShape shape) := quiet_add _ _

theorem quiet_placeBinding (binding : Binding) : Quiet f (placeBinding binding) := quiet_add _ _

theorem quiet_placeTable : Quiet f placeTable := quiet_add _ _

theorem quiet_adopt (parent : NodeId) (ref : Ref) : Quiet f (adopt parent ref) := by
  unfold adopt changeNode
  cases ref with
  | node child => exact quiet_change _
  | absent => exact quiet_pure ()
  | foreign typeName serial => exact quiet_pure ()

theorem quiet_adoptAll (parent : NodeId) (refs : List Ref) : Quiet f (adoptAll parent refs) := by
  induction refs generalizing f with
  | nil => exact quiet_pure ()
  | cons ref refs ih => exact quiet_bind (quiet_adopt parent ref) fun _ _ => ih

theorem quiet_shape (shape : Shape) (refs : List Ref) : Quiet f (do
    let id ← placeShape shape
    adoptAll id refs
    return id) :=
  quiet_bind (quiet_placeShape shape) fun id _ =>
    quiet_bind (quiet_adoptAll id refs) fun _ _ => quiet_pure id

theorem quiet_attach {id : NodeId} {t : TableId} {table : Table} (ht : f.table? t = some table)
    (howner : table.owner = none) : Quiet f (attach id t) := by
  unfold attach
  refine tells_next tells_forest ?_
  rintro _ _ ⟨rfl, rfl⟩
  simp only [ht, Option.bind_some, howner]
  refine quiet_bind (quiet_change _) fun _ g => ?_
  split
  · exact quiet_bind (quiet_change _) fun _ _ => quiet_adoptAll id _
  · split
    · split
      · exact quiet_bind (quiet_change _) fun _ _ => quiet_adoptAll id _
      · exact quiet_adoptAll id _
    · exact quiet_adoptAll id _

end

/-! ## Steps that report -/

section
variable {f : Forest}

theorem tells_count {α : Type} {b : Builtin} {count : Nat} {k : Option Remark → Growth α}
    (hquiet : ∀ g, Quiet g (k none))
    (hremark : ∀ r, Tells f (k (some r)) [.remark r] fun _ _ => True) :
    Tells f (liftM (checkOperands b count) >>= k) (countNotices b count) fun _ _ => True := by
  unfold checkOperands countNotices
  by_cases hleast : count < b.arity.least
  · rw [if_pos hleast, if_pos (by omega)]
    apply tells_last (tells_throw (Q := fun _ _ => False) _)
    intro _ _ hfalse
    exact hfalse.elim
  · rw [if_neg hleast, if_neg (by omega)]
    rcases b.arity.most? with _ | most
    · exact hquiet f
    · by_cases hmost : most < count
      · dsimp only
        rw [if_pos hmost, if_pos (by omega)]
        exact hremark _
      · dsimp only
        rw [if_neg hmost, if_neg (by omega)]
        exact hquiet f

theorem tells_newCall (name : String) (operands : List Ref) :
    Tells f (newCall name operands) (callNotices name operands.length) fun _ _ => True := by
  have hcall (operator : Operator) (g : Forest) : Quiet g (do
      let ident := if operator = .custom then some name else none
      let id ← placeShape (.call operator ident operands true)
      adoptAll id operands
      return id) := quiet_shape _ operands
  unfold newCall callNotices
  rcases hop : Builtin.ofName? name with _ | b
  · rw [show Operator.ofName name = .custom by rw [Operator.ofName, hop]]
    exact hcall .custom f
  · rw [show Operator.ofName name = .builtin b by rw [Operator.ofName, hop]]
    apply tells_count
    · intro g
      exact hcall (.builtin b) g
    · intro r
      exact tells_last (tells_remark r) fun _ g _ => hcall (.builtin b) g

theorem tells_plantType (type : Option String) :
    Tells f (plantType type) (typeNotices type) fun _ g => g = f := by
  refine tells_grows (P := fun _ _ => True) ?_
    (grows_mono (grows_plantType type) fun _ _ ⟨_, hg⟩ => hg)
  unfold plantType typeNotices
  cases type with
  | none => exact quiet_pure none
  | some name =>
    dsimp only
    cases Kind.ofName? name with
    | some kind => exact quiet_pure (some kind)
    | none => exact tells_last (tells_remark _) fun _ _ _ => quiet_pure none

/-- the parameters that are remarked on are those that occur earlier in the list -/
theorem repeatedParameters_eq (name : String) {seen before : List String} (parameters : List String)
    (hseen : ∀ p, p ∈ seen ↔ p ∈ before) : repeatedParameters name seen parameters =
      (repeatedAfter before parameters).map (.repeatedParameter · name) := by
  induction parameters generalizing seen before with
  | nil => rfl
  | cons p rest ih =>
    rw [repeatedParameters, repeatedAfter]
    by_cases hp : p ∈ before
    · rw [if_pos (List.contains_iff_mem.2 ((hseen p).2 hp)), if_pos hp, ih]
      · rfl
      · intro q
        rw [hseen q, List.mem_append, List.mem_singleton]
        exact ⟨Or.inl, fun h => h.elim id fun heq => heq ▸ hp⟩
    · rw [if_neg (fun h => hp ((hseen p).1 (List.contains_iff_mem.1 h))), if_neg hp, ih]
      · rfl
      · intro q
        rw [List.mem_cons, hseen q, List.mem_append, List.mem_singleton, or_comm]

theorem tells_newFunction (name : String) (body : Ref) (kind : Option Kind)
    (parameters : List String) : Tells f (newFunction name body kind parameters)
      (parameterNotices name parameters) fun _ _ => True := by
  have htold : parameterNotices name parameters =
      (repeatedParameters name [] parameters).map .remark := by
    rw [repeatedParameters_eq name parameters fun _ => Iff.rfl, List.map_map]
    rfl
  rw [htold]
  exact tells_last (tells_remarkAll _) fun _ _ _ => quiet_placeBinding _

end

/-! ## Scopes -/

def Forest.Named (f : Forest) (bs : List BindingId) (names : List String) : Prop :=
  List.Forall₂ (fun b name => ∃ x, f.binding? b = some x ∧ x.ident = name) bs names

section
variable {f g : Forest} {t : TableId} {bs : List BindingId} {names : List String}

theorem Forest.Named.mono (h : f.Named bs names)
    (hbindings : ∀ b x, f.binding? b = some x → g.binding? b = some x) : g.Named bs names :=
  List.Forall₂.imp (fun b _ ⟨x, hx, hname⟩ => ⟨x, hbindings b x hx, hname⟩) h

theorem Forest.Named.isSome (h : f.Named bs names) : ∀ b ∈ bs, (f.binding? b).isSome := by
  induction h with
  | nil => exact fun b hb => by cases hb
  | cons hx _ ih =>
    obtain ⟨x, hx, _⟩ := hx
    exact List.forall_mem_cons.2 ⟨by rw [hx]; rfl, ih⟩

theorem named_of_binds {id : NodeId} {b : BindingId} {d : Definition} (h : Binds f id b d) :
    ∃ x, f.binding? b = some x ∧ x.ident = d.name := by
  cases d with
  | value name body type =>
    obtain ⟨c, hb, _⟩ := h
    exact ⟨_, hb, rfl⟩
  | function name parameters body type =>
    obtain ⟨c, hb, _⟩ := h
    exact ⟨_, hb, rfl⟩

theorem named_of_bindAll {id : NodeId} {ds : List Definition} (h : BindAll f id bs ds) :
    f.Named bs (ds.map Definition.name) :=
  List.forall₂_map_right_iff.2 ((bindAll_iff.1 h).imp fun _ _ hb => named_of_binds hb)

theorem find?_isSome_iff {name : String} :
    (f.find? t name).isSome = true ↔ name ∈ f.idents t := by
  simp [Forest.find?, Forest.idents, List.find?_isSome]

theorem idents_filled {b : BindingId} {x : Binding} (ht : f.table? t = some ⟨bs, none, none⟩)
    (hb : f.binding? b = some x) (hg : Filled t ⟨bs ++ [b], none, none⟩ f g) :
    g.idents t = f.idents t ++ [x.ident] := by
  have hsame : g.binding? = f.binding? := by
    funext b'
    exact hg.binding? b'
  simp [Forest.idents, Forest.bindingsOf, ht, hg.table, hsame, hb]

theorem tells_insertInto {b : BindingId} {x : Binding} (ht : f.table? t = some ⟨bs, none, none⟩)
    (hb : f.binding? b = some x) : Tells f (insertInto t b)
      ((if x.ident ∈ f.idents t then [x.ident] else []).map fun name =>
        .remark (.conflictingDefinition name))
      fun _ g => Filled t ⟨bs ++ [b], none, none⟩ f g := by
  have hgrows := grows_insertInto ht (b := b) (by rw [hb]; rfl)
  refine tells_grows (P := fun _ _ => True) ?_ hgrows
  have hplace (g : Forest) : Quiet g (do
      changeTable t fun t => { t with bindings := t.bindings ++ [b] }
      pure ()) :=
    quiet_bind (quiet_change _) fun _ _ => quiet_pure ()
  unfold insertInto
  refine tells_next tells_forest ?_
  rintro _ f ⟨rfl, rfl⟩
  simp only [hb, ht, Option.bind_some]
  by_cases hmem : x.ident ∈ f.idents t
  · rw [if_pos (find?_isSome_iff.2 hmem), if_pos hmem]
    exact tells_last (tells_remark _) fun _ g _ => hplace g
  · rw [if_neg (fun h => hmem (find?_isSome_iff.1 h)), if_neg hmem]
    exact hplace f

/-- **The bindings that go to a table are reported** if their names are bound there already, or
earlier among them. -/
theorem tells_insertAll {more : List BindingId} (hmore : f.Named more names)
    (ht : f.table? t = some ⟨bs, none, none⟩) : Tells f (insertAll t more)
      ((repeatedAfter (f.idents t) names).map fun name => .remark (.conflictingDefinition name))
      fun _ _ => True := by
  induction more generalizing f bs names with
  | nil =>
    cases hmore
    exact quiet_pure ()
  | cons b more ih =>
    cases hmore with
    | cons hb hrest =>
      obtain ⟨x, hx, rfl⟩ := hb
      rw [repeatedAfter, List.map_append]
      refine tells_bind (tells_insertInto ht hx) ?_
      intro _ g hg
      rw [← idents_filled ht hx hg]
      refine ih (Forest.Named.mono hrest ?_) hg.table
      intro b' x' h
      rw [hg.binding?]
      exact h

theorem tells_newTable (hbs : f.Named bs names) :
    Tells f (newTable bs) (conflictNotices names) fun t g =>
      t = ⟨f.tables.size⟩ ∧ Filled t ⟨bs, none, none⟩ f g := by
  refine tells_grows (P := fun _ _ => True) ?_ (grows_newTable hbs.isSome)
  refine tells_next (tells_grows (quiet_placeTable) grows_placeTable) ?_
  rintro t g ⟨_, hg⟩
  have hempty : g.idents t = [] := by
    simp [Forest.idents, Forest.bindingsOf, hg.table]
  have hnamed : g.Named bs names := hbs.mono fun b x h => by
    rw [hg.binding?]
    exact h
  have htells := tells_insertAll hnamed hg.table
  rw [hempty] at htells
  exact tells_last htells fun _ _ _ => quiet_pure t

theorem tells_plantScope (id : NodeId) (hbs : f.Named bs names) :
    Tells f (plantScope id bs) (conflictNotices names) fun _ _ => True := by
  unfold plantScope
  split
  · next hempty =>
    obtain rfl := List.isEmpty_iff.1 hempty
    cases hbs
    exact quiet_pure ()
  · apply tells_last (tells_newTable hbs)
    intro t g hg
    exact quiet_attach hg.2.table rfl

end

/-! ## Forms -/

section
variable {f : Forest}

theorem tells_forms {forms : List Form} (hforms : ∀ form ∈ forms, ∀ f : Forest, f.Linked →
      Tells f (plantForm form) form.notices fun _ _ => True) (hf : f.Linked) :
    Tells f (plantForms forms) (Form.noticesAll forms) fun _ _ => True := by
  induction forms generalizing f with
  | nil => exact quiet_pure []
  | cons form rest ih =>
    unfold plantForms Form.noticesAll
    have hform := hforms form List.mem_cons_self f hf
    refine tells_bind (tells_grows hform (grows_plantForm form hf)) ?_
    intro id g hg
    have hrest := ih (fun form h => hforms form (List.mem_cons_of_mem _ h)) hg.linked
    exact tells_last hrest fun ids _ _ => quiet_pure (id :: ids)

theorem tells_definitions {ds : List Definition} (hds : ∀ d ∈ ds, ∀ f : Forest, f.Linked →
      Tells f (plantDefinition d) d.notices fun _ _ => True) (hf : f.Linked) :
    Tells f (plantDefinitions ds) (Definition.noticesAll ds) fun _ _ => True := by
  induction ds generalizing f with
  | nil => exact quiet_pure []
  | cons d rest ih =>
    unfold plantDefinitions Definition.noticesAll
    have hd := hds d List.mem_cons_self f hf
    refine tells_bind (tells_grows hd (grows_plantDefinition d hf)) ?_
    rintro b g ⟨_, hg, _⟩
    have hrest := ih (fun d h => hds d (List.mem_cons_of_mem _ h)) hg.linked
    exact tells_last hrest fun bs _ _ => quiet_pure (b :: bs)

/-- **Planting a form reports its notices**, up to the first fault. -/
theorem tells_form :
    (∀ form : Form, ∀ f : Forest, f.Linked →
      Tells f (plantForm form) form.notices fun _ _ => True) ∧
    ∀ d : Definition, ∀ f : Forest, f.Linked →
      Tells f (plantDefinition d) d.notices fun _ _ => True := by
  refine Form.induction ?_ ?_ ?_ ?_ ?_ ?_ ?_
  · intro kind text f _
    exact quiet_placeShape _
  · intro name f _
    exact quiet_placeShape _
  · intro name operands ih f hf
    unfold plantForm Form.notices
    have hstand := grows_forms (fun form (_ : form ∈ operands) f hf => grows_form.1 form f hf) hf
    refine tells_bind (tells_grows (tells_forms ih hf) hstand) ?_
    intro ids g hg
    have hlength := (standAll_iff.1 hg.1).length_eq
    rw [← hlength, ← List.length_map (f := Ref.node)]
    exact tells_newCall name _
  · intro test ifTrue ifFalse iha ihb ihc f hf
    unfold plantForm Form.notices
    refine tells_bind (tells_grows (iha f hf) (grows_plantForm test hf)) ?_
    intro a g hg
    refine tells_bind (tells_grows (ihb g hg.linked) (grows_plantForm ifTrue hg.linked)) ?_
    intro b h hh
    refine tells_last (ihc h hh.linked) ?_
    intro c k _
    exact quiet_shape _ _
  · intro definitions body ihds ihbody f hf
    unfold plantForm Form.notices
    have hgrows := grows_and (grows_plantDefinitions definitions hf)
      (grows_definitions (fun d _ f hf => grows_form.2 d f hf) hf)
    refine tells_bind (tells_grows (tells_definitions ihds hf) hgrows) ?_
    rintro bs g ⟨⟨_, hg, _⟩, hall, _⟩
    refine tells_bind (tells_grows (ihbody g hg.linked) (grows_plantForm body hg.linked)) ?_
    intro id h hh
    have hnamed := (named_of_bindAll hall).mono hh.grown.bindings
    exact tells_last (tells_plantScope id hnamed) fun _ _ _ => quiet_pure id
  · intro name body type ih f hf
    unfold plantDefinition Definition.notices
    refine tells_bind (ih f hf) ?_
    intro c g _
    exact tells_last (tells_plantType type) fun _ _ _ => quiet_placeBinding _
  · intro name parameters body type ih f hf
    unfold plantDefinition Definition.notices
    refine tells_bind (ih f hf) ?_
    intro c g _
    refine tells_bind (tells_plantType type) ?_
    intro kind h _
    exact tells_newFunction name _ kind parameters

end

/-! ## Calls with too few operands -/

def LackFault (lacks : Builtin → Nat → Prop) (e : Fault) : Prop :=
  ∃ b n, lacks b n ∧ e = .tooFewOperands b.name b.arity.least n

theorem LackFault.mono {lacks lacks' : Builtin → Nat → Prop} {e : Fault} (h : LackFault lacks e)
    (hlacks : ∀ b n, lacks b n → lacks' b n) : LackFault lacks' e := by
  obtain ⟨b, n, hb, he⟩ := h
  exact ⟨b, n, hlacks b n hb, he⟩

section
variable {e : Fault}

theorem lacks_of_callNotices {name : String} {count : Nat}
    (h : .fault e ∈ callNotices name count) :
    LackFault (fun b n => Builtin.ofName? name = some b ∧ n < b.arity.least ∧ n = count) e := by
  unfold callNotices at h
  split at h
  · cases h
  · next b hb =>
    unfold countNotices at h
    split at h
    · next hlt =>
      cases List.mem_singleton.1 h
      exact ⟨b, count, ⟨hb, hlt, rfl⟩, rfl⟩
    · split at h
      · split at h
        · cases List.mem_singleton.1 h
        · cases h
      · cases h

theorem not_mem_typeNotices (type : Option String) : .fault e ∉ typeNotices type := by
  unfold typeNotices
  split
  · simp
  · split <;> simp

theorem not_mem_remarks {α : Type} (names : List α) (remark : α → Remark) :
    .fault e ∉ names.map fun name => Notice.remark (remark name) := by
  simp

theorem mem_noticesAll {forms : List Form} {notice : Notice}
    (h : notice ∈ Form.noticesAll forms) : ∃ form ∈ forms, notice ∈ form.notices := by
  induction forms with
  | nil => cases h
  | cons form rest ih =>
    rcases List.mem_append.1 h with h | h
    · exact ⟨form, List.mem_cons_self, h⟩
    · obtain ⟨form', hform, h⟩ := ih h
      exact ⟨form', List.mem_cons_of_mem _ hform, h⟩

theorem mem_definitionNoticesAll {ds : List Definition} {notice : Notice}
    (h : notice ∈ Definition.noticesAll ds) : ∃ d ∈ ds, notice ∈ d.notices := by
  induction ds with
  | nil => cases h
  | cons d rest ih =>
    rcases List.mem_append.1 h with h | h
    · exact ⟨d, List.mem_cons_self, h⟩
    · obtain ⟨d', hd, h⟩ := ih h
      exact ⟨d', List.mem_cons_of_mem _ hd, h⟩

/-- **The faults among the notices** are those of calls with too few operands. -/
theorem lacks_of_notices :
    (∀ form : Form, .fault e ∈ form.notices → LackFault form.Lacks e) ∧
    ∀ d : Definition, .fault e ∈ d.notices → LackFault d.Lacks e := by
  refine Form.induction ?_ ?_ ?_ ?_ ?_ ?_ ?_
  · intro kind text h
    cases h
  · intro name h
    cases h
  · intro name operands ih h
    rcases List.mem_append.1 h with h | h
    · obtain ⟨form, hform, h⟩ := mem_noticesAll h
      exact (ih form hform h).mono fun b n hlacks => .operand hform hlacks
    · refine (lacks_of_callNotices h).mono ?_
      rintro b n ⟨hb, hlt, rfl⟩
      exact .here hb hlt
  · intro test ifTrue ifFalse iha ihb ihc h
    rcases List.mem_append.1 h with h | h
    · exact (iha h).mono fun b n hlacks => .test hlacks
    · rcases List.mem_append.1 h with h | h
      · exact (ihb h).mono fun b n hlacks => .ifTrue hlacks
      · exact (ihc h).mono fun b n hlacks => .ifFalse hlacks
  · intro definitions body ihds ihbody h
    rcases List.mem_append.1 h with h | h
    · obtain ⟨d, hd, h⟩ := mem_definitionNoticesAll h
      exact (ihds d hd h).mono fun b n hlacks => .definition hd hlacks
    · rcases List.mem_append.1 h with h | h
      · exact (ihbody h).mono fun b n hlacks => .body hlacks
      · exact absurd h (not_mem_remarks _ _)
  · intro name body type ih h
    rcases List.mem_append.1 h with h | h
    · exact (ih h).mono fun b n hlacks => .value hlacks
    · exact absurd h (not_mem_typeNotices type)
  · intro name parameters body type ih h
    rcases List.mem_append.1 h with h | h
    · exact (ih h).mono fun b n hlacks => .function hlacks
    · rcases List.mem_append.1 h with h | h
      · exact absurd h (not_mem_typeNotices type)
      · exact absurd h (not_mem_remarks _ _)

end

/-! ## Remarks -/

def Remark.OfTree : Remark → Prop
  | .surplusOperands .. => True
  | .repeatedParameter .. => True
  | .conflictingDefinition _ => True
  | .unknownType _ => True
  | _ => False

theorem Remark.OfTree.concern {r : Remark} (h : r.OfTree) :
    r.concern ≠ .unresolvedSymbol ∧ r.concern ≠ .precisionLoss := by
  cases r with
  | undefinedSymbol _ => cases h
  | undefinedFunction _ => cases h
  | precisionLoss _ _ => cases h
  | _ => exact ⟨by simp [Remark.concern], by simp [Remark.concern]⟩

theorem ofTree_of_callNotices {name : String} {count : Nat} {r : Remark}
    (h : .remark r ∈ callNotices name count) : r.OfTree := by
  unfold callNotices at h
  split at h
  · cases h
  · unfold countNotices at h
    split at h
    · cases List.mem_singleton.1 h
    · split at h
      · split at h
        · cases List.mem_singleton.1 h
          trivial
        · cases h
      · cases h

theorem ofTree_of_typeNotices {type : Option String} {r : Remark}
    (h : .remark r ∈ typeNotices type) : r.OfTree := by
  unfold typeNotices at h
  split at h
  · cases h
  · split at h
    · cases List.mem_singleton.1 h
      trivial
    · cases h

theorem ofTree_of_conflictNotices {names : List String} {r : Remark}
    (h : .remark r ∈ conflictNotices names) : r.OfTree := by
  obtain ⟨name, _, heq⟩ := List.mem_map.1 h
  cases heq
  trivial

theorem ofTree_of_parameterNotices {name : String} {parameters : List String} {r : Remark}
    (h : .remark r ∈ parameterNotices name parameters) : r.OfTree := by
  obtain ⟨p, _, heq⟩ := List.mem_map.1 h
  cases heq
  trivial

/-- **Planting remarks on how the tree is put together alone.** -/
theorem ofTree_of_notices {r : Remark} :
    (∀ form : Form, .remark r ∈ form.notices → r.OfTree) ∧
    ∀ d : Definition, .remark r ∈ d.notices → r.OfTree := by
  refine Form.induction ?_ ?_ ?_ ?_ ?_ ?_ ?_
  · intro kind text h
    cases h
  · intro name h
    cases h
  · intro name operands ih h
    rcases List.mem_append.1 h with h | h
    · obtain ⟨form, hform, h⟩ := mem_noticesAll h
      exact ih form hform h
    · exact ofTree_of_callNotices h
  · intro test ifTrue ifFalse iha ihb ihc h
    rcases List.mem_append.1 h with h | h
    · exact iha h
    · exact (List.mem_append.1 h).elim ihb ihc
  · intro definitions body ihds ihbody h
    rcases List.mem_append.1 h with h | h
    · obtain ⟨d, hd, h⟩ := mem_definitionNoticesAll h
      exact ihds d hd h
    · exact (List.mem_append.1 h).elim ihbody ofTree_of_conflictNotices
  · intro name body type ih h
    exact (List.mem_append.1 h).elim ih ofTree_of_typeNotices
  · intro name parameters body type ih h
    rcases List.mem_append.1 h with h | h
    · exact ih h
    · exact (List.mem_append.1 h).elim ofTree_of_typeNotices ofTree_of_parameterNotices

/-- **What planting a form gives**: the node of the form, or the fault of a call of a built-in
operator with too few operands if there is one. -/
theorem plantForm_cases (form : Form) :
    (form.Ample ∧ ∃ root d, (plantForm form).run.run ⟨.empty, []⟩ = (.ok root, d) ∧
      d.forest.Whole root form) ∨
    ∃ b n d, form.Lacks b n ∧ (plantForm form).run.run ⟨.empty, []⟩ =
      (.error (.tooFewOperands b.name b.arity.least n), d) := by
  obtain ⟨made, ⟨_, root, f, hrun, _⟩ | ⟨e, rest, f, htold, hrun⟩⟩ :=
    tells_form.1 form .empty linked_empty []
  · obtain ⟨hwhole, hample⟩ := grows_form.1 form .empty linked_empty [] root _ hrun
    exact Or.inl ⟨hample, root, _, hrun, hwhole⟩
  · have hfault : .fault e ∈ form.notices := by
      rw [htold]
      exact List.mem_append_right _ List.mem_cons_self
    obtain ⟨b, n, hlacks, rfl⟩ := lacks_of_notices.1 form hfault
    exact Or.inr ⟨b, n, _, hlacks, hrun⟩

end Abacus
