import Abacus.Proofs.Evaluation.Locality
import Abacus.Proofs.Source.Planting

/-!
# Definitions in another order

A table is asked for the first of its bindings that has a name, and for nothing else.  So a binding
after another one of the same name may be left out, and bindings of different names may change
places: the same bindings are found in the same frames, and a run stays the same.

* `Thins`                 a row from which repetitions of names are left out;
* `Rearranges`            what is kept has different names, and is put into another order;
* `find?_thins`, `find?_perm`   the first binding of a name stays the same;
* `Forest.Rearranged`     some tables of a forest are rearranged;
* `rearranged_same`       **runs stay the same**.
-/

namespace Abacus

/-! ## Rows with names -/

section
variable {α β : Type} (name : α → β)

/-- **Some of the repetitions are left out of a row**: of the elements whose names occur earlier in
it, or before it. -/
inductive Thins : List β → List α → List α → Prop
  | nil {before : List β} : Thins before [] []
  | keep {before : List β} {x : α} {rest kept : List α} :
      Thins (name x :: before) rest kept → Thins before (x :: rest) (x :: kept)
  | leave {before : List β} {x : α} {rest kept : List α} : name x ∈ before →
      Thins (name x :: before) rest kept → Thins before (x :: rest) kept

/-- **Repetitions are left out until all names are different**, and what is kept is put into any
order. -/
def Rearranges (row row' : List α) : Prop :=
  ∃ kept, Thins name [] row kept ∧ (kept.map name).Nodup ∧ kept.Perm row'

variable {name} [BEq β] [LawfulBEq β]

theorem find?_thins {before : List β} {row kept : List α} (h : Thins name before row kept) {k : β}
    (hk : k ∉ before) : kept.find? (name · == k) = row.find? (name · == k) := by
  induction h with
  | nil => rfl
  | @keep before x rest kept _ ih =>
    by_cases hx : name x = k
    · rw [List.find?_cons_of_pos (by simpa using hx), List.find?_cons_of_pos (by simpa using hx)]
    · rw [List.find?_cons_of_neg (by simpa using hx), List.find?_cons_of_neg (by simpa using hx)]
      exact ih fun hmem => (List.mem_cons.1 hmem).elim (fun heq => hx heq.symm) hk
  | @leave before x rest kept hrepeated _ ih =>
    have hx : name x ≠ k := fun heq => hk (heq ▸ hrepeated)
    rw [List.find?_cons_of_neg (by simpa using hx)]
    exact ih fun hmem => (List.mem_cons.1 hmem).elim (fun heq => hx heq.symm) hk

theorem find?_perm {row row' : List α} (h : row.Perm row') (hnodup : (row.map name).Nodup) (k : β) :
    row.find? (name · == k) = row'.find? (name · == k) := by
  induction h with
  | nil => rfl
  | cons x _ ih =>
    rw [List.find?_cons, List.find?_cons, ih (List.nodup_cons.1 hnodup).2]
  | swap x y rest =>
    have hne : name y ≠ name x := fun heq =>
      (List.nodup_cons.1 hnodup).1 (by simp [heq])
    by_cases hx : name x = k
    · have hy : name y ≠ k := fun heq => hne (heq.trans hx.symm)
      simp [hx, hy]
    · simp [List.find?_cons, hx]
  | trans hleft _ ihleft ihright =>
    exact (ihleft hnodup).trans (ihright ((hleft.map name).nodup hnodup))

theorem find?_rearranges {row row' : List α} (h : Rearranges name row row') (k : β) :
    row'.find? (name · == k) = row.find? (name · == k) := by
  obtain ⟨kept, hthins, hnodup, hperm⟩ := h
  rw [← find?_perm hperm hnodup, find?_thins hthins List.not_mem_nil]

end

/-! ## Tables -/

def Forest.ident? (f : Forest) (id : BindingId) : Option String := (f.binding? id).map (·.ident)

/-- **A table with its bindings rearranged, or as they are**, on the same node -/
structure Table.Rearranged (name : BindingId → Option String) (t t' : Table) : Prop where
  enclosing : t'.enclosing = t.enclosing
  owner : t'.owner = t.owner
  bindings : t'.bindings = t.bindings ∨ Rearranges name t.bindings t'.bindings

/-- **A forest with some of its tables rearranged** -/
structure Forest.Rearranged (f g : Forest) : Prop where
  nodes : g.nodes = f.nodes
  bindings : g.bindings = f.bindings
  tables : ∀ t, Option.Rel (Table.Rearranged f.ident?) (f.table? t) (g.table? t)

theorem Forest.find?_eq {f : Forest} {t : TableId} {table : Table} (ht : f.table? t = some table)
    (ident : String) : f.find? t ident = (table.bindings.find? (f.ident? · == some ident)).bind
      fun id => (f.binding? id).map (id, ·) := by
  have hname (id : BindingId) : (((f.binding? id).map (id, ·)).any (·.2.ident == ident))
      = (f.ident? id == some ident) := by
    rw [ident?]
    cases f.binding? id with
    | none => rfl
    | some b => simp
  rw [find?, bindingsOf, ht]
  dsimp only
  rw [List.find?_filterMap]
  simp only [hname]

namespace Forest.Rearranged

variable {f g : Forest} (h : f.Rearranged g)
include h

theorem node? (id : NodeId) : g.node? id = f.node? id := by
  rw [Forest.node?, Forest.node?, h.nodes]

theorem binding? (id : BindingId) : g.binding? id = f.binding? id := by
  rw [Forest.binding?, Forest.binding?, h.bindings]

theorem enclosing (t : TableId) :
    (g.table? t).bind (·.enclosing) = (f.table? t).bind (·.enclosing) := by
  have ht := h.tables t
  generalize f.table? t = table at ht
  generalize g.table? t = table' at ht
  cases ht with
  | none => rfl
  | some ht => exact ht.enclosing

theorem size : g.tables.size = f.tables.size := by
  have hnone (i : Nat) : g.tables[i]? = none ↔ f.tables[i]? = none := by
    have ht := h.tables ⟨i⟩
    unfold Forest.table? at ht
    generalize f.tables[i]? = table at ht
    generalize g.tables[i]? = table' at ht
    cases ht with
    | none => exact Iff.rfl
    | some _ => simp
  have hle := Array.getElem?_eq_none_iff.1 ((hnone f.tables.size).2 (by simp))
  have hge := Array.getElem?_eq_none_iff.1 ((hnone g.tables.size).1 (by simp))
  omega

theorem tablesUpTo (count : Nat) (start : Option TableId) :
    g.tablesUpTo count start = f.tablesUpTo count start := by
  induction count generalizing start with
  | zero => rfl
  | succ count ih =>
    cases start with
    | none => rfl
    | some t => rw [Forest.tablesUpTo, Forest.tablesUpTo, h.enclosing, ih]

theorem tablesOf (node : Node) : g.tablesOf node = f.tablesOf node := by
  rw [Forest.tablesOf, Forest.tablesOf, tablesFrom, tablesFrom, h.size, h.tablesUpTo]

/-- **A name is found in a rearranged table as before.** -/
theorem find? (t : TableId) (ident : String) : g.find? t ident = f.find? t ident := by
  have hnames : g.ident? = f.ident? := funext fun id => by
    rw [Forest.ident?, Forest.ident?, h.binding?]
  have ht := h.tables t
  rcases hf : f.table? t with _ | table
  · rw [hf] at ht
    rcases hg : g.table? t with _ | table'
    · rw [Forest.find?, Forest.find?, bindingsOf, bindingsOf, hf, hg]
    · rw [hg] at ht
      cases ht
  · rw [hf] at ht
    rcases hg : g.table? t with _ | table'
    · rw [hg] at ht
      cases ht
    · rw [hg] at ht
      cases ht with
      | some ht =>
        rw [find?_eq hf, find?_eq hg, hnames]
        simp only [h.binding?]
        rcases ht.bindings with hsame | hrow
        · rw [hsame]
        · rw [find?_rearranges hrow]

end Forest.Rearranged

/-! ## Runs -/

/-- **A run does not depend on the order of definitions**, nor on those after a definition of the
same name: whatever is evaluated, where and from which state, in the forest with rearranged tables it
ends with the same value or fault and in the same state. -/
theorem rearranged_same {f g : Forest} (h : f.Rearranged g) (v : Visit) :
    v.result g = v.result f :=
  result_of_visits (fun _ id _ _ => h.node? id) (fun _ _ node _ _ _ => h.tablesOf node)
    fun _ _ _ inner _ _ _ => lookup?_congr (fun t => h.find? t _) inner

/-- a definition that refers to an earlier one, and then a definition in conflict with that one -/
def conflictingSource : String := "(let ((x 1) (y x) (x 2)) y)"

def conflictingForest (order : List BindingId) : Forest where
  nodes := #[⟨.number (.make (.ofNumeral ['1']) .int), none, some ⟨3⟩⟩,
    ⟨.symbol "x", none, some ⟨3⟩⟩, ⟨.number (.make (.ofNumeral ['2']) .int), none, some ⟨3⟩⟩,
    ⟨.symbol "y", some ⟨0⟩, none⟩]
  tables := #[⟨order, none, some ⟨3⟩⟩]
  bindings := #[⟨"x", none, .node ⟨0⟩, .value⟩, ⟨"y", none, .node ⟨1⟩, .value⟩,
    ⟨"x", none, .node ⟨2⟩, .value⟩]

theorem parse_conflicting : parseForm conflictingSource.toList
    = .ok (.scoped [.value "x" (.numeral .int ['1']) none, .value "y" (.symbol "x") none,
      .value "x" (.numeral .int ['2']) none] (.symbol "y")) := by
  with_unfolding_all rfl

theorem sown_conflicting : Sown conflictingSource ⟨3⟩ (conflictingForest [⟨0⟩, ⟨1⟩, ⟨2⟩]) := by
  refine ⟨[.conflictingDefinition "x"], ?_⟩
  unfold plantSource
  rw [parse_conflicting]
  rfl

theorem rearranged_conflicting :
    (conflictingForest [⟨0⟩, ⟨1⟩, ⟨2⟩]).Rearranged (conflictingForest [⟨1⟩, ⟨0⟩]) where
  nodes := rfl
  bindings := rfl
  tables := by
    rintro ⟨i⟩
    rcases i with _ | i
    · refine .some ⟨rfl, rfl, Or.inr ⟨[⟨0⟩, ⟨1⟩], ?_, by decide, .swap _ _ _⟩⟩
      exact .keep (.keep (.leave (by decide) .nil))
    · exact .none

/-- without the definition in conflict, and with the other two exchanged, the value is the same -/
theorem rearranged_same_conflicting :
    let f := conflictingForest [⟨0⟩, ⟨1⟩, ⟨2⟩]
    let g := conflictingForest [⟨1⟩, ⟨0⟩]
    let v := Visit.start 3 (.node ⟨3⟩) { strict := true } [] (.ofSeed 0)
    Sown conflictingSource ⟨3⟩ f ∧ f.Rearranged g ∧ v.result g = v.result f ∧
      (v.result g).1 = .ok (some (.make (.ofNumeral ['1']) .int)) := by
  intro f g v
  have hsame := rearranged_same rearranged_conflicting v
  refine ⟨sown_conflicting, rearranged_conflicting, hsame, ?_⟩
  rfl

end Abacus
