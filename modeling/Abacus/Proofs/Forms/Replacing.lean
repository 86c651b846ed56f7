import Abacus.Proofs.Forms.Mapping

/-!
# A name replaced by another one

The free occurrences of a name in a form are replaced by a new name, one that does not occur in the
form.  Then the form is got back by mapping the new name to the old one, and in doing so no name is
taken for another one.

* `Form.rename`, `Definition.rebind`   the free occurrences of a name replaced;
* `Form.names`                         the names that occur in a form;
* `mapNames_self`, `mapNames_rename`   the form that is got back;
* `rename_rename`                      the new name replaced in turn;
* `clear_old`, `clear_rename`          no name is taken for another one.
-/

namespace Abacus

/-! ## Changing a name -/

def replaceName (old new x : String) : String := if x = old then new else x

mutual

/-- **The free occurrences of a name changed**; a call of a built-in operator refers to nothing. -/
def Form.rename (old new : String) : Form → Form
  | .numeral kind text => .numeral kind text
  | .symbol name => .symbol (replaceName old new name)
  | .call name operands =>
    .call (if Builtin.ofName? name = none then replaceName old new name else name)
      (Form.renameAll old new operands)
  | .choice test ifTrue ifFalse =>
    .choice (test.rename old new) (ifTrue.rename old new) (ifFalse.rename old new)
  | .scoped definitions body =>
    if old ∈ definitions.map (·.name) then .scoped definitions body
    else .scoped (Definition.renameAll old new definitions) (body.rename old new)

def Form.renameAll (old new : String) : List Form → List Form
  | [] => []
  | form :: rest => form.rename old new :: Form.renameAll old new rest

def Definition.rename (old new : String) : Definition → Definition
  | .value name body type => .value name (body.rename old new) type
  | .function name parameters body type =>
    if old ∈ parameters then .function name parameters body type
    else .function name parameters (body.rename old new) type

def Definition.renameAll (old new : String) : List Definition → List Definition
  | [] => []
  | d :: rest => d.rename old new :: Definition.renameAll old new rest

end

def Definition.named (name : String) : Definition → Definition
  | .value _ body type => .value name body type
  | .function _ parameters body type => .function name parameters body type

def Definition.rebind (old new : String) (d : Definition) : Definition :=
  (d.rename old new).named (replaceName old new d.name)

mutual

def Form.names : Form → List String
  | .numeral _ _ => []
  | .symbol name => [name]
  | .call name operands => name :: Form.namesAll operands
  | .choice test ifTrue ifFalse => test.names ++ ifTrue.names ++ ifFalse.names
  | .scoped definitions body => Definition.namesAll definitions ++ body.names

def Form.namesAll : List Form → List String
  | [] => []
  | form :: rest => form.names ++ Form.namesAll rest

def Definition.names : Definition → List String
  | .value name body _ => name :: body.names
  | .function name parameters body _ => name :: parameters ++ body.names

def Definition.namesAll : List Definition → List String
  | [] => []
  | d :: rest => d.names ++ Definition.namesAll rest

end

section
variable {old new x : String}

theorem Form.renameAll_eq (forms : List Form) :
    Form.renameAll old new forms = forms.map (Form.rename old new) := by
  induction forms with
  | nil => rfl
  | cons form rest ih => rw [Form.renameAll, ih, List.map_cons]

theorem Definition.renameAll_eq (definitions : List Definition) :
    Definition.renameAll old new definitions = definitions.map (Definition.rename old new) := by
  induction definitions with
  | nil => rfl
  | cons d rest ih => rw [Definition.renameAll, ih, List.map_cons]

theorem Form.mem_namesAll {forms : List Form} :
    x ∈ Form.namesAll forms ↔ ∃ form ∈ forms, x ∈ form.names := by
  induction forms with
  | nil => simp [Form.namesAll]
  | cons form rest ih => simp [Form.namesAll, ih]

theorem Definition.mem_namesAll {definitions : List Definition} :
    x ∈ Definition.namesAll definitions ↔ ∃ d ∈ definitions, x ∈ d.names := by
  induction definitions with
  | nil => simp [Definition.namesAll]
  | cons d rest ih => simp [Definition.namesAll, ih]

theorem Definition.name_mem_names (d : Definition) : d.name ∈ d.names := by
  cases d <;> exact List.mem_cons_self

theorem Definition.named_name (d : Definition) : d.named d.name = d := by
  cases d <;> rfl

@[simp] theorem Definition.name_named (name : String) (d : Definition) :
    (d.named name).name = name := by
  cases d <;> rfl

theorem Definition.mapNames_named (φ : String → String) (name : String) (d : Definition) :
    (d.named name).mapNames φ = (d.mapNames φ).named (φ name) := by
  cases d <;> rfl

theorem Definition.name_rename (d : Definition) : (d.rename old new).name = d.name := by
  cases d with
  | value name body type => rfl
  | function name parameters body type =>
    rw [Definition.rename]
    split <;> rfl

theorem names_rename (definitions : List Definition) :
    (definitions.map (Definition.rename old new)).map (·.name) = definitions.map (·.name) := by
  rw [List.map_map]
  exact List.map_congr_left fun d _ => d.name_rename

theorem names_rebind (definitions : List Definition) :
    (definitions.map (Definition.rebind old new)).map (·.name)
      = (definitions.map (·.name)).map (replaceName old new) := by
  rw [List.map_map, List.map_map]
  exact List.map_congr_left fun d _ => Definition.name_named _ _

theorem new_call {name : String} {operands : List Form} :
    new ∉ (Form.call name operands).names ↔ new ≠ name ∧ ∀ form ∈ operands, new ∉ form.names := by
  simp [Form.names, Form.mem_namesAll]

theorem new_choice {a b c : Form} : new ∉ (Form.choice a b c).names ↔
    new ∉ a.names ∧ new ∉ b.names ∧ new ∉ c.names := by
  simp [Form.names]

theorem new_scope {definitions : List Definition} {body : Form} :
    new ∉ (Form.scoped definitions body).names ↔
      (∀ d ∈ definitions, new ∉ d.names) ∧ new ∉ body.names := by
  simp [Form.names, Definition.mem_namesAll]

theorem new_value {name : String} {body : Form} {type : Option String} :
    new ∉ (Definition.value name body type).names ↔ new ≠ name ∧ new ∉ body.names := by
  simp [Definition.names]

theorem new_function {name : String} {parameters : List String} {body : Form}
    {type : Option String} : new ∉ (Definition.function name parameters body type).names ↔
      new ≠ name ∧ new ∉ parameters ∧ new ∉ body.names := by
  simp [Definition.names]

theorem new_place {before after : List Definition} {d : Definition} {body : Form}
    (h : new ∉ (Form.scoped (before ++ d :: after) body).names) : new ∉ d.names :=
  (new_scope.1 h).1 d (List.mem_append_right before List.mem_cons_self)

theorem new_names {definitions : List Definition} (h : ∀ d ∈ definitions, new ∉ d.names) :
    new ∉ definitions.map (·.name) := by
  intro hmem
  obtain ⟨d, hd, hname⟩ := List.mem_map.1 hmem
  exact h d hd (hname ▸ d.name_mem_names)

theorem replaceName_of_ne (h : x ≠ old) : replaceName old new x = x := if_neg h

theorem replaceName_self : replaceName old new old = new := if_pos rfl

theorem replaceName_back (h : x ≠ new) : replaceName new old (replaceName old new x) = x := by
  by_cases hx : x = old
  · rw [hx, replaceName_self, replaceName_self]
  · rw [replaceName_of_ne hx, replaceName_of_ne h]

/-! ## Changing it back -/

theorem map_eq_self {α : Type} {l : List α} {g : α → α} (h : ∀ a ∈ l, g a = a) : l.map g = l :=
  (List.map_congr_left h).trans (List.map_id l)

theorem map_replaceName {names : List String} (h : new ∉ names) :
    names.map (replaceName new old) = names := by
  refine map_eq_self fun y hy => replaceName_of_ne ?_
  exact fun heq => h (heq ▸ hy)

theorem mapNames_self : (∀ form : Form, new ∉ form.names →
      form.mapNames (replaceName new old) = form) ∧
    ∀ d : Definition, new ∉ d.names → d.mapNames (replaceName new old) = d := by
  have hkept {x : String} (h : new ≠ x) : replaceName new old x = x := replaceName_of_ne h.symm
  refine Form.induction ?_ ?_ ?_ ?_ ?_ ?_ ?_
  · intro kind text _
    rfl
  · intro name h
    rw [Form.mapNames, hkept (List.ne_of_not_mem_cons h)]
  · intro name operands ih h
    obtain ⟨hname, hoperands⟩ := new_call.1 h
    rw [Form.mapNames, Form.mapNamesAll_eq, hkept hname,
      map_eq_self fun form hform => ih form hform (hoperands form hform)]
  · intro a b c iha ihb ihc h
    obtain ⟨ha, hb, hc⟩ := new_choice.1 h
    rw [Form.mapNames, iha ha, ihb hb, ihc hc]
  · intro definitions body ihds ihbody h
    obtain ⟨hds, hbody⟩ := new_scope.1 h
    rw [Form.mapNames, Definition.mapNamesAll_eq, ihbody hbody,
      map_eq_self fun d hd => ihds d hd (hds d hd)]
  · intro name body type ih h
    obtain ⟨hname, hbody⟩ := new_value.1 h
    rw [Definition.mapNames, hkept hname, ih hbody]
  · intro name parameters body type ih h
    obtain ⟨hname, hparameters, hbody⟩ := new_function.1 h
    rw [Definition.mapNames, hkept hname, ih hbody, map_replaceName hparameters]

/-- a changed name is changed back -/
theorem mapNames_rename : (∀ form : Form, new ∉ form.names →
      (form.rename old new).mapNames (replaceName new old) = form) ∧
    ∀ d : Definition, new ∉ d.names →
      (d.rename old new).mapNames (replaceName new old) = d := by
  refine Form.induction ?_ ?_ ?_ ?_ ?_ ?_ ?_
  · intro kind text _
    rfl
  · intro name h
    rw [Form.rename, Form.mapNames, replaceName_back (List.ne_of_not_mem_cons h).symm]
  · intro name operands ih h
    obtain ⟨hname, hoperands⟩ := new_call.1 h
    have hback : operands.map (Form.mapNames (replaceName new old) ∘ Form.rename old new)
        = operands :=
      map_eq_self fun form hform => ih form hform (hoperands form hform)
    rw [Form.rename, Form.renameAll_eq, Form.mapNames, Form.mapNamesAll_eq, List.map_map, hback]
    split
    · rw [replaceName_back hname.symm]
    · rw [replaceName_of_ne hname.symm]
  · intro a b c iha ihb ihc h
    obtain ⟨ha, hb, hc⟩ := new_choice.1 h
    rw [Form.rename, Form.mapNames, iha ha, ihb hb, ihc hc]
  · intro definitions body ihds ihbody h
    obtain ⟨hds, hbody⟩ := new_scope.1 h
    rw [Form.rename]
    split
    · exact mapNames_self.1 _ h
    · have hback : definitions.map (Definition.mapNames (replaceName new old) ∘
          Definition.rename old new) = definitions :=
        map_eq_self fun d hd => ihds d hd (hds d hd)
      rw [Form.mapNames, Definition.renameAll_eq, Definition.mapNamesAll_eq, List.map_map,
        ihbody hbody, hback]
  · intro name body type ih h
    obtain ⟨hname, hbody⟩ := new_value.1 h
    rw [Definition.rename, Definition.mapNames, replaceName_of_ne hname.symm, ih hbody]
  · intro name parameters body type ih h
    obtain ⟨hname, hparameters, hbody⟩ := new_function.1 h
    rw [Definition.rename]
    split
    · exact mapNames_self.2 _ h
    · rw [Definition.mapNames, replaceName_of_ne hname.symm, ih hbody, map_replaceName hparameters]

theorem mapNames_rebind {d : Definition} (h : new ∉ d.names) :
    (d.rebind old new).mapNames (replaceName new old) = d := by
  have hname : d.name ≠ new := fun heq => h (heq ▸ d.name_mem_names)
  rw [Definition.rebind, Definition.mapNames_named, (@mapNames_rename old new).2 d h,
    replaceName_back hname, Definition.named_name]

theorem names_mapNames (φ : String → String) {form : Form} (h : x ∈ form.names) :
    φ x ∈ (form.mapNames φ).names := by
  have hall : (∀ form : Form, x ∈ form.names → φ x ∈ (form.mapNames φ).names) ∧
      ∀ d : Definition, x ∈ d.names → φ x ∈ (d.mapNames φ).names := by
    refine Form.induction ?_ ?_ ?_ ?_ ?_ ?_ ?_
    · intro kind text h
      cases h
    · intro name h
      rw [List.mem_singleton.1 h]
      exact List.mem_singleton_self _
    · intro name operands ih h
      rw [Form.names, List.mem_cons, Form.mem_namesAll] at h
      rw [Form.mapNames, Form.mapNamesAll_eq, Form.names, List.mem_cons, Form.mem_namesAll]
      refine h.imp (congrArg φ) ?_
      rintro ⟨form, hform, hx⟩
      exact ⟨form.mapNames φ, List.mem_map_of_mem hform, ih form hform hx⟩
    · intro a b c iha ihb ihc h
      simp only [Form.names, List.mem_append] at h
      simp only [Form.mapNames, Form.names, List.mem_append]
      exact h.imp (Or.imp iha ihb) ihc
    · intro definitions body ihds ihbody h
      rw [Form.names, List.mem_append, Definition.mem_namesAll] at h
      rw [Form.mapNames, Definition.mapNamesAll_eq, Form.names, List.mem_append,
        Definition.mem_namesAll]
      refine h.imp ?_ ihbody
      rintro ⟨d, hd, hx⟩
      exact ⟨d.mapNames φ, List.mem_map_of_mem hd, ihds d hd hx⟩
    · intro name body type ih h
      rw [Definition.names, List.mem_cons] at h
      rw [Definition.mapNames, Definition.names, List.mem_cons]
      exact h.imp (congrArg φ) ih
    · intro name parameters body type ih h
      simp only [Definition.names, List.mem_append, List.mem_cons] at h
      simp only [Definition.mapNames, Definition.names, List.mem_append, List.mem_cons]
      exact h.imp (Or.imp (congrArg φ) List.mem_map_of_mem) ih
  exact hall.1 form h

/-! ## Changing it once more -/

theorem rename_self {y : String} : (∀ form : Form, x ∉ form.names → form.rename x y = form) ∧
    ∀ d : Definition, x ∉ d.names → d.rename x y = d := by
  have hkept {z : String} (h : x ≠ z) : replaceName x y z = z := replaceName_of_ne h.symm
  refine Form.induction ?_ ?_ ?_ ?_ ?_ ?_ ?_
  · intro kind text _
    rfl
  · intro name h
    rw [Form.rename, hkept (List.ne_of_not_mem_cons h)]
  · intro name operands ih h
    obtain ⟨hname, hoperands⟩ := new_call.1 h
    rw [Form.rename, Form.renameAll_eq, hkept hname, ite_self,
      map_eq_self fun form hform => ih form hform (hoperands form hform)]
  · intro a b c iha ihb ihc h
    obtain ⟨ha, hb, hc⟩ := new_choice.1 h
    rw [Form.rename, iha ha, ihb hb, ihc hc]
  · intro definitions body ihds ihbody h
    obtain ⟨hds, hbody⟩ := new_scope.1 h
    rw [Form.rename, Definition.renameAll_eq, ihbody hbody,
      map_eq_self fun d hd => ihds d hd (hds d hd), ite_self]
  · intro name body type ih h
    rw [Definition.rename, ih (new_value.1 h).2]
  · intro name parameters body type ih h
    rw [Definition.rename, ih (new_function.1 h).2.2, ite_self]

theorem replaceName_again {y : String} (h : x ≠ new) :
    replaceName new y (replaceName old new x) = replaceName old y x := by
  by_cases hx : x = old
  · rw [hx, replaceName_self, replaceName_self, replaceName_self]
  · rw [replaceName_of_ne hx, replaceName_of_ne h, replaceName_of_ne hx]

/-- **A changed name is changed once more** as it would have been at once. -/
theorem rename_rename (hop : Builtin.ofName? new = none) (y : String) :
    (∀ form : Form, new ∉ form.names →
      (form.rename old new).rename new y = form.rename old y) ∧
    ∀ d : Definition, new ∉ d.names → (d.rename old new).rename new y = d.rename old y := by
  refine Form.induction ?_ ?_ ?_ ?_ ?_ ?_ ?_
  · intro kind text _
    rfl
  · intro name h
    rw [Form.rename, Form.rename, Form.rename,
      replaceName_again (List.ne_of_not_mem_cons h).symm]
  · intro name operands ih h
    obtain ⟨hname, hoperands⟩ := new_call.1 h
    have hagain : operands.map (Form.rename new y ∘ Form.rename old new)
        = operands.map (Form.rename old y) :=
      List.map_congr_left fun form hform => ih form hform (hoperands form hform)
    simp only [Form.rename, Form.renameAll_eq, List.map_map, hagain]
    by_cases hcustom : Builtin.ofName? name = none
    · have hcustom' : Builtin.ofName? (replaceName old new name) = none := by
        by_cases hold : name = old
        · rwa [hold, replaceName_self]
        · rwa [replaceName_of_ne hold]
      rw [if_pos hcustom, if_pos hcustom', if_pos hcustom, replaceName_again hname.symm]
    · rw [if_neg hcustom, if_neg hcustom, if_neg hcustom]
  · intro a b c iha ihb ihc h
    obtain ⟨ha, hb, hc⟩ := new_choice.1 h
    rw [Form.rename, Form.rename, Form.rename, iha ha, ihb hb, ihc hc]
  · intro definitions body ihds ihbody h
    obtain ⟨hds, hbody⟩ := new_scope.1 h
    by_cases hold : old ∈ definitions.map (·.name)
    · have hstays (z : String) : (Form.scoped definitions body).rename old z
          = .scoped definitions body := by
        rw [Form.rename, if_pos hold]
      rw [hstays, hstays, rename_self.1 _ h]
    · have hagain : definitions.map (Definition.rename new y ∘ Definition.rename old new)
          = definitions.map (Definition.rename old y) :=
        List.map_congr_left fun d hd => ihds d hd (hds d hd)
      have hnew : new ∉ (definitions.map (Definition.rename old new)).map (·.name) := by
        rw [names_rename]
        exact new_names hds
      rw [Form.rename, if_neg hold, Definition.renameAll_eq, Form.rename, if_neg hnew,
        Definition.renameAll_eq, List.map_map, hagain, ihbody hbody, Form.rename, if_neg hold,
        Definition.renameAll_eq]
  · intro name body type ih h
    rw [Definition.rename, Definition.rename, Definition.rename, ih (new_value.1 h).2]
  · intro name parameters body type ih h
    obtain ⟨_, hparameters, hbody⟩ := new_function.1 h
    by_cases hold : old ∈ parameters
    · have hstays (z : String) : (Definition.function name parameters body type).rename old z
          = .function name parameters body type := by
        rw [Definition.rename, if_pos hold]
      rw [hstays, hstays, rename_self.2 _ h]
    · rw [Definition.rename, if_neg hold, Definition.rename, if_neg hparameters, ih hbody,
        Definition.rename, if_neg hold]

theorem rename_named (name : String) (d : Definition) :
    (d.named name).rename old new = (d.rename old new).named name := by
  cases d with
  | value _ body type => rfl
  | function _ parameters body type =>
    unfold Definition.named Definition.rename
    by_cases hold : old ∈ parameters
    · rw [if_pos hold, if_pos hold]
    · rw [if_neg hold, if_neg hold]

theorem rebind_rebind (hop : Builtin.ofName? new = none) (y : String) {d : Definition}
    (h : new ∉ d.names) : (d.rebind old new).rebind new y = d.rebind old y := by
  have hname : d.name ≠ new := fun heq => h (heq ▸ d.name_mem_names)
  unfold Definition.rebind
  rw [Definition.name_named, rename_named, (rename_rename hop y).2 d h, replaceName_again hname]
  cases d.rename old y <;> rfl

/-! ## Names kept apart -/

variable {frames : List (String → Prop)}

theorem apart_other (hold : x ≠ old) (hnew : x ≠ new) : Apart (replaceName new old) x frames := by
  induction frames with
  | nil => trivial
  | cons bound outer ih =>
    refine ⟨fun y _ heq => ?_, Or.inr ih⟩
    rw [replaceName_of_ne hnew] at heq
    by_cases hy : y = new
    · rw [hy, replaceName_self] at heq
      exact absurd heq.symm hold
    · rwa [replaceName_of_ne hy] at heq

theorem apart_old {bound : String → Prop} (hnew : ¬ bound new)
    (h : bound old ∨ Apart (replaceName new old) old frames) :
    Apart (replaceName new old) old (bound :: frames) := by
  refine ⟨fun y hy heq => ?_, h⟩
  have hne : y ≠ new := fun hynew => hnew (hynew ▸ hy)
  have hold : replaceName new old old = old := by
    by_cases hsame : old = new
    · rw [hsame, replaceName_self]
    · exact replaceName_of_ne hsame
  rwa [replaceName_of_ne hne, hold] at heq

theorem apart_new {bound : String → Prop} (hold : ¬ bound old)
    (h : bound new ∨ Apart (replaceName new old) new frames) :
    Apart (replaceName new old) new (bound :: frames) := by
  refine ⟨fun y hy heq => ?_, h⟩
  rw [replaceName_self] at heq
  by_cases hne : y = new
  · exact hne
  · rw [replaceName_of_ne hne] at heq
    exact absurd (heq ▸ hy) hold

/-- **Where the new name does not occur**, no name is taken for another one if the old name is
not. -/
theorem clear_old : (∀ form : Form, ∀ frames, new ∉ form.names →
      Apart (replaceName new old) old frames → form.Clear (replaceName new old) frames) ∧
    ∀ d : Definition, ∀ frames, new ∉ d.names → Apart (replaceName new old) old frames →
      d.Clear (replaceName new old) frames := by
  have hapart {x : String} {frames : List (String → Prop)} (hx : new ≠ x)
      (h : Apart (replaceName new old) old frames) : Apart (replaceName new old) x frames := by
    by_cases hold : x = old
    · rwa [hold]
    · exact apart_other hold hx.symm
  refine Form.induction ?_ ?_ ?_ ?_ ?_ ?_ ?_
  · intro kind text frames _ _
    exact .numeral
  · intro name frames hnew h
    exact .symbol (hapart (List.ne_of_not_mem_cons hnew) h)
  · intro name operands ih frames hnew h
    obtain ⟨hname, hoperands⟩ := new_call.1 hnew
    refine .call (by rw [replaceName_of_ne hname.symm]) (fun _ => hapart hname h) ?_
    exact fun form hform => ih form hform frames (hoperands form hform) h
  · intro a b c iha ihb ihc frames hnew h
    obtain ⟨ha, hb, hc⟩ := new_choice.1 hnew
    exact .choice (iha frames ha h) (ihb frames hb h) (ihc frames hc h)
  · intro definitions body ihds ihbody frames hnew h
    obtain ⟨hds, hbody⟩ := new_scope.1 hnew
    have hinside : Apart (replaceName new old) old ((· ∈ definitions.map (·.name)) :: frames) :=
      apart_old (new_names hds) (Or.inr h)
    exact .scope (fun d hd => ihds d hd _ (hds d hd) hinside) (ihbody _ hbody hinside)
  · intro name body type ih frames hnew h
    exact .value (ih frames (new_value.1 hnew).2 h)
  · intro name parameters body type ih frames hnew h
    obtain ⟨_, hparameters, hbody⟩ := new_function.1 hnew
    exact .function (ih _ hbody (apart_old hparameters (Or.inr h)))

/-- **Where the old name is changed**, no name is taken for another one if the new name is not. -/
theorem clear_rename (hop : Builtin.ofName? new = none) :
    (∀ form : Form, ∀ frames, new ∉ form.names → Apart (replaceName new old) new frames →
      (form.rename old new).Clear (replaceName new old) frames) ∧
    ∀ d : Definition, ∀ frames, new ∉ d.names → Apart (replaceName new old) new frames →
      (d.rename old new).Clear (replaceName new old) frames := by
  have hapart {x : String} {frames : List (String → Prop)} (hx : new ≠ x)
      (h : Apart (replaceName new old) new frames) :
      Apart (replaceName new old) (replaceName old new x) frames := by
    by_cases hold : x = old
    · rwa [hold, replaceName_self]
    · rw [replaceName_of_ne hold]
      exact apart_other hold hx.symm
  refine Form.induction ?_ ?_ ?_ ?_ ?_ ?_ ?_
  · intro kind text frames _ _
    exact .numeral
  · intro name frames hnew h
    exact .symbol (hapart (List.ne_of_not_mem_cons hnew) h)
  · intro name operands ih frames hnew h
    obtain ⟨hname, hoperands⟩ := new_call.1 hnew
    have hall : ∀ form ∈ operands.map (Form.rename old new),
        form.Clear (replaceName new old) frames :=
      List.forall_mem_map.2 fun form hform => ih form hform frames (hoperands form hform) h
    rw [Form.rename, Form.renameAll_eq]
    split
    · next hcustom =>
      refine .call ?_ (fun _ => hapart hname h) hall
      rw [replaceName_back hname.symm]
      by_cases hold : name = old
      · rw [hold, replaceName_self, hop, ← hold, hcustom]
      · rw [replaceName_of_ne hold]
    · next hbuiltin =>
      refine .call ?_ (fun hcustom => absurd hcustom hbuiltin) hall
      rw [replaceName_of_ne hname.symm]
  · intro a b c iha ihb ihc frames hnew h
    obtain ⟨ha, hb, hc⟩ := new_choice.1 hnew
    exact .choice (iha frames ha h) (ihb frames hb h) (ihc frames hc h)
  · intro definitions body ihds ihbody frames hnew h
    obtain ⟨hds, hbody⟩ := new_scope.1 hnew
    rw [Form.rename]
    split
    · next hold =>
      have hinside : Apart (replaceName new old) old ((· ∈ definitions.map (·.name)) :: frames) :=
        apart_old (new_names hds) (Or.inl hold)
      exact .scope (fun d hd => clear_old.2 d _ (hds d hd) hinside)
        (clear_old.1 body _ hbody hinside)
    · next hold =>
      have hinside : Apart (replaceName new old) new ((· ∈ definitions.map (·.name)) :: frames) :=
        apart_new hold (Or.inr h)
      rw [Definition.renameAll_eq]
      refine .scope ?_ ?_
      · rw [names_rename]
        exact List.forall_mem_map.2 fun d hd => ihds d hd _ (hds d hd) hinside
      · rw [names_rename]
        exact ihbody _ hbody hinside
  · intro name body type ih frames hnew h
    exact .value (ih frames (new_value.1 hnew).2 h)
  · intro name parameters body type ih frames hnew h
    obtain ⟨_, hparameters, hbody⟩ := new_function.1 hnew
    rw [Definition.rename]
    split
    · next hold =>
      exact .function (clear_old.1 body _ hbody (apart_old hparameters (Or.inl hold)))
    · next hold => exact .function (ih _ hbody (apart_new hold (Or.inr h)))

theorem clear_named {d : Definition} {φ : String → String} (h : d.Clear φ frames) (name : String) :
    (d.named name).Clear φ frames := by
  cases h with
  | value hbody => exact .value hbody
  | function hbody => exact .function hbody

/-- among names of which the old one is changed there is the new one, and not the old one -/
theorem apart_replaced {names : List String} (hold : old ∈ names) (hnew : new ∉ names) :
    Apart (replaceName new old) new ((· ∈ names.map (replaceName old new)) :: frames) := by
  refine apart_new ?_ (Or.inl ?_)
  · intro hmem
    obtain ⟨y, hy, heq⟩ := List.mem_map.1 hmem
    by_cases hyold : y = old
    · rw [hyold, replaceName_self] at heq
      exact hnew (heq ▸ hold)
    · rw [replaceName_of_ne hyold] at heq
      exact hyold heq
  · exact List.mem_map.2 ⟨old, hold, replaceName_self⟩

end

end Abacus
