import Abacus.Proofs.Scoping
import Mathlib.Data.Finset.Card

/-!
# References between bindings

A binding refers to another one if a node inside its value or body names it.  Which bindings a node
can come to this way bounds how functions can call one another.

* `Forest.Refers`       a binding refers to another one;
* `Forest.Unrecursive`  no function comes back to itself along references;
* `names_of_denotes`    a binding that a name denotes in a run is one that the node names;
* `Forest.Reaches`      the bindings that a node can come to;
* `rank`                how many they are; it falls from a call to the body of the function.
-/

namespace Abacus

open Forest

namespace Forest

/-! ## References -/

def Within (f : Forest) (id k : NodeId) : Prop := ∃ stop ∈ f.walk id, stop.1 = k

/-- a name at a node means a parameter: that of a function around it, inside whose body no table on
the way binds the name -/
def CapturedAt (f : Forest) (id : NodeId) (ident : String) : Prop :=
  ∃ inner k tables outer, f.walk id = inner ++ (k, tables) :: outer ∧ f.IsParameter k ident ∧
    Unbound f ident (inner ++ [(k, tables)])

/-- **A node names a binding**: a symbol or a call whose name means it, and no parameter -/
def Names (f : Forest) (id : NodeId) (bid : BindingId) : Prop :=
  ∃ node ident b, f.node? id = some node ∧ node.shape.lookedUp? = some ident ∧
    f.resolve? id ident = some (bid, b) ∧ ¬ f.CapturedAt id ident

/-- **A binding refers to another one**: a node inside its value or body names it. -/
def Refers (f : Forest) (bid bid' : BindingId) : Prop :=
  ∃ b k id, f.binding? bid = some b ∧ b.body = .node k ∧ f.Within id k ∧ f.Names id bid'

/-- **No function comes back to itself along references.** -/
def Unrecursive (f : Forest) : Prop :=
  ∀ bid b parameters, f.binding? bid = some b → b.role = .function parameters →
    ¬ Relation.TransGen f.Refers bid bid

end Forest

variable {f : Forest} {begun : Ref → Env → Prop} {id k c : NodeId} {w : List Stop}

theorem within_iff (h : f.Climb id none w) : f.Within id k ↔ ∃ stop ∈ w, stop.1 = k := by
  unfold Within
  rw [h.walk]

theorem within_trans {w' : List Stop} (hid : f.Climb id none w) (hc : f.Climb c none w')
    (h : ∃ stop ∈ w, stop.1 = c) (h' : ∃ stop ∈ w', stop.1 = k) : ∃ stop ∈ w, stop.1 = k := by
  obtain ⟨⟨_, tables⟩, hmem, rfl⟩ := h
  obtain ⟨inner, outer, rfl⟩ := List.append_of_mem hmem
  obtain ⟨child, hclimb⟩ := hid.drop
  obtain ⟨node, outer', _, heq, hany⟩ := hclimb.head
  obtain ⟨stop, hstop, rfl⟩ := h'
  rw [← hc.walk, (hany none).walk] at hstop
  rcases List.mem_cons.1 hstop with rfl | hstop
  · exact ⟨_, hmem, rfl⟩
  · refine ⟨stop, List.mem_append_right _ ?_, rfl⟩
    rw [heq]
    exact List.mem_cons_of_mem _ hstop

theorem self_mem (h : f.Climb id none w) : ∃ stop ∈ w, stop.1 = id := by
  obtain ⟨node, outer, _, rfl, _⟩ := h.head
  exact ⟨_, List.mem_cons_self, rfl⟩

/-- **A binding that a name denotes in a run is one that the node names.** -/
theorem names_of_denotes {node : Node} {ident : String} {bid : BindingId} {b : Binding} {owner : Env}
    (hnode : f.node? id = some node) (hlooked : node.shape.lookedUp? = some ident)
    (hclimb : f.Climb id none w) (h : Denotes f begun ident w (some (.binding bid b, owner))) :
    f.Names id bid := by
  cases h with
  | @binding inner outer k before ts t _ _ _ hinner hunbound hbefore hfind _ =>
    have hfound : f.findOn? ident (inner ++ (k, before ++ t :: ts) :: outer) = some (bid, b) :=
      findOn?_of_found hunbound hbefore hfind
    refine ⟨node, ident, b, hnode, hlooked, ?_, ?_⟩
    · rw [resolve?_eq_walk, hclimb.walk, hfound]
    · rintro ⟨inner', k', tables, outer', hwalk, hparameter, hunbound'⟩
      rw [hclimb.walk] at hwalk
      have hbound : f.findIn? ident (before ++ t :: ts) ≠ none := by
        rw [findIn?_append, hbefore, findIn?, hfind]
        exact Option.some_ne_none _
      rcases List.append_eq_append_iff.1 hwalk with ⟨as, rfl, has⟩ | ⟨bs, rfl, hbs⟩
      · refine hbound (hunbound' (k, before ++ t :: ts) ?_)
        cases as with
        | nil =>
          cases has
          simp
        | cons a as =>
          cases has
          simp
      · cases bs with
        | nil =>
          cases hbs
          exact hbound (hunbound' (k, before ++ t :: ts) (by simp))
        | cons b' bs =>
          cases hbs
          exact hinner (k', tables) (by simp) hparameter

/-! ## The bindings that a node can come to -/

/-- **A node can come to a binding**: from a binding that a node inside it names, along references -/
def Forest.Reaches (f : Forest) (k : NodeId) (g : BindingId) : Prop :=
  ∃ id w bid, f.Climb id none w ∧ (∃ stop ∈ w, stop.1 = k) ∧ f.Names id bid ∧
    Relation.ReflTransGen f.Refers bid g

theorem reaches_within {g : BindingId} (hc : f.Climb c none w) (h : ∃ stop ∈ w, stop.1 = k)
    (hg : f.Reaches c g) : f.Reaches k g := by
  obtain ⟨id, w', bid, hclimb, hwithin, hrest⟩ := hg
  exact ⟨id, w', bid, hclimb, within_trans hclimb hc hwithin h, hrest⟩

theorem refers_of_reaches {bid g : BindingId} {b : Binding} (hb : f.binding? bid = some b)
    (hbody : b.body = .node c) (hg : f.Reaches c g) : Relation.TransGen f.Refers bid g := by
  obtain ⟨id, w, bid', hclimb, hwithin, hnames, hrefs⟩ := hg
  exact .head' ⟨b, c, id, hb, hbody, (within_iff hclimb).2 hwithin, hnames⟩ hrefs

theorem reaches_body {bid g : BindingId} {b : Binding} (hclimb : f.Climb id none w)
    (hnames : f.Names id bid) (hb : f.binding? bid = some b) (hbody : b.body = .node c)
    (hg : f.Reaches c g) : f.Reaches id g :=
  ⟨id, w, bid, hclimb, self_mem hclimb, hnames, (refers_of_reaches hb hbody hg).to_reflTransGen⟩

open Classical in
noncomputable def rank (f : Forest) (k : NodeId) : Nat :=
  ((Finset.range f.bindings.size).filter fun i => f.Reaches k ⟨i⟩).card

theorem rank_le_size (f : Forest) (k : NodeId) : rank f k ≤ f.bindings.size := by
  classical
  unfold rank
  exact (Finset.card_filter_le _ _).trans_eq (Finset.card_range _)

theorem rank_le (h : ∀ g, f.Reaches c g → f.Reaches k g) : rank f c ≤ rank f k := by
  classical
  unfold rank
  exact Finset.card_le_card (Finset.monotone_filter_right _ fun i _ => h ⟨i⟩)

/-- **The rank falls from a call to the body of the function.** -/
theorem rank_body_lt (hf : f.Unrecursive) {bid : BindingId} {b : Binding}
    {parameters : List String} (hclimb : f.Climb id none w) (hnames : f.Names id bid)
    (hb : f.binding? bid = some b) (hbody : b.body = .node c)
    (hrole : b.role = .function parameters) : rank f c < rank f id := by
  classical
  unfold rank
  refine Finset.card_lt_card ((Finset.ssubset_iff_of_subset ?_).2 ⟨bid.index, ?_, ?_⟩)
  · exact Finset.monotone_filter_right _ fun i _ => reaches_body hclimb hnames hb hbody
  · refine Finset.mem_filter.2 ⟨Finset.mem_range.2 (Array.getElem?_eq_some_iff.1 hb).1, ?_⟩
    exact ⟨id, w, bid, hclimb, self_mem hclimb, hnames, .refl⟩
  · intro hmem
    exact hf bid b parameters hb hrole (refers_of_reaches hb hbody (Finset.mem_filter.1 hmem).2)

end Abacus
