import XevXml.Tools.Cell
import Mathlib.Data.List.Perm.Basic

/-!
# Forms of Variables

The configuration of the template generator has a list of forms. A form is an
element in which the value `variable_name` of an attribute stands for the name
of a variable, `any_value` for any value, and the names `any_node`, `any_name`
and `any_list` for elements. Where a node of a template has such a form, it
stands for the variable whose name is bound.

`do_match_varformat` goes through the children and the siblings of both trees in
lockstep. Attributes are compared one after the other, so they have to be
written in the order of the form, although the order of attributes means nothing
in XML. The rest of the siblings is looked at only if there is one in the tree
and one in the form, so `any_list` does not stand for no siblings at all. And
nothing is done about `any_name`, which is the name of an element like any other
one. The form of `SgInitializedName` in the configuration has an element with
that name, so no initialized name is found to be a variable.

What is found is right all the same. The name that is returned is bound by one
of the attributes with `variable_name`: the last one of the element itself, and
if that has no value the one found below it or behind it.

## Main definitions

* `matchAttrs`, `matchElement`, `do_match_varformat`: The comparison.
* `match_varformat`, `check_varformat`: The first form that a node has.
* `Instance`, `Instances`: What the forms stand for.
* `Form`: A form of the configuration.
* `Recognised`: A form is found exactly where it should be.
* `InOrder`, `InOrderAll`: The order and the names that the comparison needs.

## Theorems

* `matchAttrs_sound`, `matchAttrs_complete`: The comparison of attributes.
* `match_spec`: The comparison finds the instances that are in order.
* `recognised_iff`: When exactly the instances of a form are found.
* `instances_of_check_varformat`: What is reported is an instance of a form.
-/

namespace XevXml.Tools.Tgen

section Matching

/-- The attributes of an element. -/
abbrev Attributes := List (String × Option Text)

/-- The value that stands for the name of a variable. -/
def variable_name : Option Text := some "variable_name".toList

/-- The value that stands for any value. -/
def any_value : Option Text := some "any_value".toList

/-- The comparison of attributes in their order, and the name that is bound by the last of
    them, if there is one. -/
def matchAttrs : Attributes → Attributes → Option Text → Option (Option Text)
  | [], [], nam => some nam
  | xa :: xas, fa :: fas, nam =>
      if xa.1 ≠ fa.1 then none
      else if fa.2 = variable_name then matchAttrs xas fas xa.2
      else if xa.2 ≠ fa.2 ∧ fa.2 ≠ any_value then none
      else matchAttrs xas fas nam
  | _, _, _ => none

/-- What follows in both trees is compared if there is something in one of them. A name that
    has been bound is kept. -/
def following (xs fs : List Cell) (nam : Option Text) (res : Option (Option Text)) :
    Option (Option Text) :=
  if xs.isEmpty && fs.isEmpty then some nam
  else if xs.isEmpty || fs.isEmpty then none
  else res.map nam.or

mutual

/-- The comparison of an element with an element of a form: its name, its attributes and its
    children. -/
def matchElement : Cell → Cell → Option (Option Text)
  | .mk _ name attrs _ _ cs, f =>
      if name ≠ f.name then none
      else
        (matchAttrs attrs f.attrs none).bind fun nam =>
          following cs f.children nam (do_match_varformat cs f.children)

/-- The comparison of a node and its siblings with an element of a form and its siblings: the
    name that is bound, if the node has the form. -/
def do_match_varformat : List Cell → List Cell → Option (Option Text)
  | [], _ => some none
  | _ :: _, [] => some none
  | x :: xs, f :: fs =>
      if f.name = "any_list" then some none
      else
        (if f.name ≠ "any_node" then matchElement x f else some none).bind fun nam =>
          following xs fs nam (do_match_varformat xs fs)

end

/-- The name of the variable that a node stands for. A copy without the siblings is compared. -/
def match_varformat (x f : Cell) : Option Text := (do_match_varformat [x] [f]).join

/-- The parts of the configuration. -/
inductive VarType
  | name | value | ignore | term | clause | exp | stmt | ends
deriving DecidableEq, Repr

/-- The parts with forms of variables. -/
def VarType.isForm (type : VarType) : Bool :=
  type = .exp ∨ type = .term ∨ type = .clause ∨ type = .stmt ∨ type = .ends

/-- An element of the configuration with the part it is in. -/
structure VarForm where
  type : VarType
  form : Cell

/-- The variable that a node stands for, and what kind of variable it is. -/
def check_varformat (vflist : List VarForm) (x : Cell) : Option (VarType × Text) :=
  vflist.findSome? fun vt =>
    if vt.type.isForm then (match_varformat x vt.form).map fun name => (vt.type, name) else none

end Matching

section Meaning

/-- An attribute is what one of a form stands for. -/
def AttrMatches (xa fa : String × Option Text) : Prop :=
  xa.1 = fa.1 ∧ (fa.2 = variable_name ∨ fa.2 = any_value ∨ xa.2 = fa.2)

/-- The values that are bound by the attributes of a form. -/
def boundValues : Attributes → Attributes → List (Option Text)
  | xa :: xas, fa :: fas =>
      if fa.2 = variable_name then xa.2 :: boundValues xas fas else boundValues xas fas
  | _, _ => []

mutual

/-- A node has a form, which binds some values. The attributes may be written in any order. -/
inductive Instance : Cell → Cell → List (Option Text) → Prop
  | any (x f : Cell) (hf : f.name = "any_node" ∨ f.name = "any_name") : Instance x f []
  | element (x f : Cell) (attrs : Attributes) (vs : List (Option Text))
      (hnode : f.name ≠ "any_node") (hname : f.name ≠ "any_name") (heq : x.name = f.name)
      (hperm : attrs.Perm x.attrs) (hattrs : List.Forall₂ AttrMatches attrs f.attrs)
      (hchildren : Instances x.children f.children vs) :
      Instance x f (boundValues attrs f.attrs ++ vs)

/-- Siblings have the forms that stand one behind the other. -/
inductive Instances : List Cell → List Cell → List (Option Text) → Prop
  | nil : Instances [] [] []
  | any_list (xs : List Cell) (f : Cell) (fs : List Cell) (hf : f.name = "any_list") :
      Instances xs (f :: fs) []
  | cons (x f : Cell) (xs fs : List Cell) (v w : List (Option Text)) (hf : f.name ≠ "any_list")
      (hx : Instance x f v) (hxs : Instances xs fs w) : Instances (x :: xs) (f :: fs) (v ++ w)

end

mutual

/-- The attributes of an element have different names, what stands for an element of any name
    is empty, and what stands for the rest of the siblings is the last of them. -/
def IsForm : Cell → Prop
  | .mk _ name attrs _ _ cs =>
      (attrs.map Prod.fst).Nodup ∧ (name = "any_name" → attrs = [] ∧ cs = []) ∧ IsFormAll cs

/-- The same for siblings. -/
def IsFormAll : List Cell → Prop
  | [] => True
  | f :: fs => IsForm f ∧ (f.name = "any_list" → fs = []) ∧ IsFormAll fs

end

/-- A form of the configuration. -/
structure Form where
  cell : Cell
  isForm : IsForm cell

/-- The form is found in a node exactly if the node has it, and the name that is returned is a
    value that is bound, if there is one. -/
def Recognised (x f : Cell) : Prop :=
  ((do_match_varformat [x] [f]).isSome ↔ ∃ vs, Instances [x] [f] vs) ∧
    ∀ nam, do_match_varformat [x] [f] = some nam →
      ∃ vs, Instances [x] [f] vs ∧ (vs ≠ [] → nam ∈ vs)

mutual

/-- The names of the attributes in a node have the order of the form, and what stands for any
    name meets an element with that name. -/
def InOrder : Cell → Cell → Prop
  | .mk _ name attrs _ _ cs, f =>
      f.name = "any_node" ∨
        name = f.name ∧ attrs.map Prod.fst = f.attrs.map Prod.fst ∧ InOrderAll cs f.children

/-- The same for siblings. What stands for the rest of them meets one at least. -/
def InOrderAll : List Cell → List Cell → Prop
  | [], fs => fs = []
  | _ :: _, [] => False
  | x :: xs, f :: fs => f.name = "any_list" ∨ InOrder x f ∧ InOrderAll xs fs

end

end Meaning

section Attributes

/-- The name that is returned is one of the values, if there are any. -/
def Bound (nam : Option Text) (vs : List (Option Text)) : Prop :=
  if vs = [] then nam = none else nam ∈ vs

theorem bound_nil (nam : Option Text) : Bound nam [] ↔ nam = none := by
  unfold Bound
  rw [if_pos rfl]

/-- A name that has been bound is kept. -/
theorem bound_or {nam cname : Option Text} {vs ws : List (Option Text)} (h : Bound nam vs)
    (hc : Bound cname ws) : Bound (nam.or cname) (vs ++ ws) := by
  unfold Bound at h hc ⊢
  by_cases hvs : vs = []
  · rw [if_pos hvs] at h
    rw [h, hvs, Option.none_or, List.nil_append]
    exact hc
  · rw [if_neg hvs] at h
    rw [if_neg (List.append_ne_nil_of_left_ne_nil hvs ws)]
    cases nam with
    | some v =>
        rw [Option.some_or]
        exact List.mem_append_left ws h
    | none =>
        -- The values are absent so far, and the name is the one found next.
        rw [Option.none_or]
        by_cases hws : ws = []
        · rw [if_pos hws] at hc
          rw [hc]
          exact List.mem_append_left ws h
        · rw [if_neg hws] at hc
          exact List.mem_append_right vs hc

/-- Attributes that are found match in their order, and the name is one of the values. -/
theorem matchAttrs_sound (xas fas : Attributes) (nam res : Option Text)
    (h : matchAttrs xas fas nam = some res) :
    List.Forall₂ AttrMatches xas fas ∧
      if boundValues xas fas = [] then res = nam else res ∈ boundValues xas fas := by
  induction xas generalizing fas nam with
  | nil =>
      cases fas with
      | nil =>
          unfold matchAttrs at h
          cases h
          exact ⟨List.Forall₂.nil, rfl⟩
      | cons fa fas => exact nomatch h
  | cons xa xas ih =>
      cases fas with
      | nil => exact nomatch h
      | cons fa fas =>
          unfold matchAttrs at h
          unfold boundValues
          by_cases hname : xa.1 = fa.1
          · rw [if_neg (not_not_intro hname)] at h
            by_cases hvar : fa.2 = variable_name
            · rw [if_pos hvar] at h
              rcases ih fas xa.2 h with ⟨hrest, hres⟩
              refine ⟨List.Forall₂.cons ⟨hname, Or.inl hvar⟩ hrest, ?_⟩
              rw [if_pos hvar, if_neg (List.cons_ne_nil _ _), List.mem_cons]
              -- The value is kept unless an attribute behind it binds one.
              by_cases hbound : boundValues xas fas = []
              · rw [if_pos hbound] at hres
                exact Or.inl hres
              · rw [if_neg hbound] at hres
                exact Or.inr hres
            · rw [if_neg hvar] at h
              by_cases hvalue : xa.2 ≠ fa.2 ∧ fa.2 ≠ any_value
              · rw [if_pos hvalue] at h
                exact nomatch h
              · rw [if_neg hvalue] at h
                rcases ih fas nam h with ⟨hrest, hres⟩
                rw [if_neg hvar]
                refine ⟨List.Forall₂.cons ⟨hname, Or.inr ?_⟩ hrest, hres⟩
                by_contra hno
                rw [not_or] at hno
                exact hvalue ⟨hno.2, hno.1⟩
          · rw [if_pos hname] at h
            exact nomatch h

/-- Attributes that match in their order are found. -/
theorem matchAttrs_complete {xas fas : Attributes} (h : List.Forall₂ AttrMatches xas fas)
    (nam : Option Text) : ∃ res, matchAttrs xas fas nam = some res := by
  induction h generalizing nam with
  | nil => exact ⟨nam, rfl⟩
  | cons hfirst _ ih =>
      rcases hfirst with ⟨hname, hvalue⟩
      unfold matchAttrs
      rw [if_neg (not_not_intro hname)]
      split_ifs with hvar hno
      · exact ih _
      · rcases hvalue with hvalue | hvalue | hvalue
        · exact absurd hvalue hvar
        · exact absurd hvalue hno.2
        · exact absurd hvalue hno.1
      · exact ih nam

/-- Attributes with different names are determined by the order of the names. -/
theorem eq_of_perm_of_names {xas yas : Attributes} (hperm : xas.Perm yas)
    (hnames : xas.map Prod.fst = yas.map Prod.fst) (hnodup : (yas.map Prod.fst).Nodup) :
    xas = yas := by
  induction xas generalizing yas with
  | nil => exact hperm.nil_eq
  | cons xa xas ih =>
      cases yas with
      | nil => exact nomatch hnames
      | cons ya yas =>
          rw [List.map_cons, List.map_cons, List.cons.injEq] at hnames
          rw [List.map_cons, List.nodup_cons] at hnodup
          -- The first attribute is the only one with its name.
          have hfirst : xa = ya := by
            rcases List.mem_cons.mp (hperm.subset List.mem_cons_self) with heq | hmem
            · exact heq
            · exact absurd (hnames.1 ▸ List.mem_map_of_mem hmem) hnodup.1
          rw [hfirst] at hperm ⊢
          rw [ih hperm.cons_inv hnames.2 hnodup.2]

/-- The names of attributes that match are the same. -/
theorem names_of_attrMatches {xas fas : Attributes} (h : List.Forall₂ AttrMatches xas fas) :
    xas.map Prod.fst = fas.map Prod.fst := by
  induction h with
  | nil => rfl
  | cons hfirst _ ih => rw [List.map_cons, List.map_cons, hfirst.1, ih]

end Attributes

section Recognition

/-- A name that has been bound before is kept. -/
theorem following_eq (xs fs : List Cell) (nam : Option Text) (res : Option (Option Text)) :
    following xs fs nam res = (following xs fs none res).map nam.or := by
  unfold following
  split_ifs
  · rw [Option.map_some, Option.or_none]
  · rfl
  · rw [Option.map_map]
    congr 1

/-- Where something follows in both trees it is compared. -/
theorem following_cons (x f : Cell) (xs fs : List Cell) (res : Option (Option Text)) :
    following (x :: xs) (f :: fs) none res = res := by
  unfold following
  simp only [List.isEmpty_cons, Bool.and_self, Bool.or_self, Bool.false_eq_true, if_false]
  cases res <;> rfl

/-- What stands for any element needs no order. -/
theorem inOrder_any_node (x : Cell) {f : Cell} (h : f.name = "any_node") : InOrder x f := by
  cases x
  unfold InOrder
  exact Or.inl h

/-- What an element of a form has to be like. -/
theorem isForm_iff (f : Cell) :
    IsForm f ↔ (f.attrs.map Prod.fst).Nodup ∧
      (f.name = "any_name" → f.attrs = [] ∧ f.children = []) ∧ IsFormAll f.children := by
  cases f
  unfold IsForm
  rfl

/-- Nothing is an instance of no form but nothing. -/
theorem instances_nil_iff (xs : List Cell) (vs : List (Option Text)) :
    Instances xs [] vs ↔ xs = [] ∧ vs = [] := by
  constructor
  · intro h
    cases h
    exact ⟨rfl, rfl⟩
  · rintro ⟨hxs, hvs⟩
    rw [hxs, hvs]
    exact Instances.nil

/-- An element that is found is an instance, and everything in it is in order. -/
def FoundIn (found : Option (Option Text)) (is : List (Option Text) → Prop) (inOrder : Prop) :
    Prop :=
  (∀ nam, found = some nam → (∃ vs, is vs ∧ Bound nam vs) ∧ inOrder) ∧
    ∀ vs, is vs → inOrder → ∃ nam, found = some nam

/-- The comparison of an element, if its children are compared as they should be. -/
theorem matchElement_foundIn {x f : Cell} (hform : IsForm f) (hnode : f.name ≠ "any_node")
    (hchildren : FoundIn (following x.children f.children none
      (do_match_varformat x.children f.children)) (Instances x.children f.children)
      (InOrderAll x.children f.children)) :
    FoundIn (matchElement x f) (Instance x f) (InOrder x f) := by
  rcases (isForm_iff f).mp hform with ⟨hnodup, hempty, -⟩
  rcases x with ⟨type, name, attrs, pretext, posttext, cs⟩
  change FoundIn (following cs f.children none (do_match_varformat cs f.children))
    (Instances cs f.children) (InOrderAll cs f.children) at hchildren
  constructor
  · intro nam h
    unfold matchElement at h
    by_cases hname : name = f.name
    · rw [if_neg (not_not_intro hname), Option.bind_eq_some_iff] at h
      rcases h with ⟨own, hown, h⟩
      rw [following_eq, Option.map_eq_some_iff] at h
      rcases h with ⟨cname, hcname, hnam⟩
      rcases matchAttrs_sound attrs f.attrs none own hown with ⟨hattrs, hbound⟩
      rcases hchildren.1 cname hcname with ⟨⟨vs, hvs, hcbound⟩, horder⟩
      refine ⟨?_, ?_⟩
      · by_cases hany : f.name = "any_name"
        · -- The element is as empty as the one in the form, so nothing is bound.
          rcases hempty hany with ⟨hnoattrs, hnochildren⟩
          rw [hnoattrs, List.forall₂_nil_right_iff] at hattrs
          rw [hattrs, hnoattrs] at hbound
          rw [hnochildren, instances_nil_iff] at hvs
          rw [hvs.2, bound_nil] at hcbound
          refine ⟨[], Instance.any _ f (Or.inr hany), ?_⟩
          rw [bound_nil, ← hnam, hcbound, Option.or_none]
          exact hbound
        · refine ⟨_, Instance.element _ f attrs vs hnode hany hname (List.Perm.refl _) hattrs
            hvs, ?_⟩
          rw [← hnam]
          exact bound_or hbound hcbound
      · unfold InOrder
        exact Or.inr ⟨hname, names_of_attrMatches hattrs, horder⟩
    · rw [if_pos hname] at h
      exact nomatch h
  · intro vs hinst horder
    unfold InOrder at horder
    rcases horder with horder | ⟨hname, hnames, horder⟩
    · exact absurd horder hnode
    · unfold matchElement
      rw [if_neg (not_not_intro hname)]
      -- The attributes match in the order in which they are written.
      have hmatch : List.Forall₂ AttrMatches attrs f.attrs ∧
          ∃ ws, Instances cs f.children ws := by
        cases hinst with
        | any _ _ hf =>
            rcases hf with hf | hf
            · exact absurd hf hnode
            · rcases hempty hf with ⟨hnoattrs, hnochildren⟩
              rw [hnoattrs, List.map_nil, List.map_eq_nil_iff] at hnames
              rw [hnochildren] at horder ⊢
              rw [hnames, hnoattrs]
              refine ⟨List.Forall₂.nil, [], ?_⟩
              cases cs with
              | nil => exact Instances.nil
              | cons c cs =>
                  unfold InOrderAll at horder
                  exact horder.elim
        | element _ _ written ws _ _ _ hperm hattrs hbelow =>
            have hwritten : written = attrs := by
              apply eq_of_perm_of_names hperm
              · rw [names_of_attrMatches hattrs]
                exact hnames.symm
              · change (attrs.map Prod.fst).Nodup
                rw [hnames]
                exact hnodup
            rw [← hwritten]
            exact ⟨hattrs, ws, hbelow⟩
      rcases hmatch with ⟨hattrs, ws, hbelow⟩
      rcases matchAttrs_complete hattrs none with ⟨own, hown⟩
      rcases hchildren.2 ws hbelow horder with ⟨cname, hcname⟩
      rw [hown, Option.bind_some, following_eq, hcname]
      exact ⟨_, rfl⟩

/-- The comparison finds exactly the instances that are in order, for an element and for
    siblings. -/
theorem match_spec :
    (∀ x f : Cell, IsForm f → f.name ≠ "any_node" →
      FoundIn (matchElement x f) (Instance x f) (InOrder x f)) ∧
      ∀ xs fs : List Cell, IsFormAll fs →
        FoundIn (following xs fs none (do_match_varformat xs fs)) (Instances xs fs)
          (InOrderAll xs fs) := by
  apply Cell.induct (P := fun x => ∀ f, IsForm f → f.name ≠ "any_node" →
      FoundIn (matchElement x f) (Instance x f) (InOrder x f))
    (Q := fun xs => ∀ fs, IsFormAll fs →
      FoundIn (following xs fs none (do_match_varformat xs fs)) (Instances xs fs)
        (InOrderAll xs fs))
  · intro type name attrs pretext posttext cs ih f hform hnode
    exact matchElement_foundIn hform hnode (ih f.children ((isForm_iff f).mp hform).2.2)
  · intro fs _
    cases fs with
    | nil =>
        refine ⟨?_, fun _ _ _ => ⟨none, rfl⟩⟩
        intro nam h
        cases h
        exact ⟨⟨[], Instances.nil, (bound_nil none).mpr rfl⟩, by unfold InOrderAll; rfl⟩
    | cons f fs =>
        refine ⟨fun nam h => (nomatch h), ?_⟩
        intro vs _ horder
        unfold InOrderAll at horder
        exact nomatch horder
  · intro x xs hx hxs fs hforms
    cases fs with
    | nil =>
        refine ⟨fun nam h => (nomatch h), ?_⟩
        intro vs _ horder
        unfold InOrderAll at horder
        exact horder.elim
    | cons f fs =>
        unfold IsFormAll at hforms
        rcases hforms with ⟨hform, -, hforms⟩
        rw [following_cons]
        unfold do_match_varformat InOrderAll
        by_cases hlist : f.name = "any_list"
        · rw [if_pos hlist]
          refine ⟨?_, fun _ _ _ => ⟨none, rfl⟩⟩
          intro nam h
          cases h
          exact ⟨⟨[], Instances.any_list _ f fs hlist, (bound_nil none).mpr rfl⟩, Or.inl hlist⟩
        · rw [if_neg hlist]
          -- The first node of the siblings, whether or not it is compared.
          have hfirst : FoundIn (if f.name ≠ "any_node" then matchElement x f else some none)
              (Instance x f) (InOrder x f) := by
            by_cases hnode : f.name = "any_node"
            · rw [if_neg (not_not_intro hnode)]
              refine ⟨?_, fun _ _ _ => ⟨none, rfl⟩⟩
              intro nam h
              cases h
              exact ⟨⟨[], Instance.any x f (Or.inl hnode), (bound_nil none).mpr rfl⟩,
                inOrder_any_node x hnode⟩
            · rw [if_pos hnode]
              exact hx f hform hnode
          constructor
          · intro nam h
            rw [Option.bind_eq_some_iff] at h
            rcases h with ⟨own, hown, h⟩
            rw [following_eq, Option.map_eq_some_iff] at h
            rcases h with ⟨nname, hnname, hnam⟩
            rcases hfirst.1 own hown with ⟨⟨v, hv, hvbound⟩, horder⟩
            rcases (hxs fs hforms).1 nname hnname with ⟨⟨w, hw, hwbound⟩, horders⟩
            refine ⟨⟨v ++ w, Instances.cons x f xs fs v w hlist hv hw, ?_⟩,
              Or.inr ⟨horder, horders⟩⟩
            rw [← hnam]
            exact bound_or hvbound hwbound
          · intro vs hinst horder
            rcases horder with horder | ⟨horder, horders⟩
            · exact absurd horder hlist
            · cases hinst with
              | any_list _ _ _ hf => exact absurd hf hlist
              | cons _ _ _ _ v w _ hv hw =>
                  rcases hfirst.2 v hv horder with ⟨own, hown⟩
                  rcases (hxs fs hforms).2 w hw horders with ⟨nname, hnname⟩
                  rw [hown, Option.bind_some, following_eq, hnname]
                  exact ⟨_, rfl⟩

/-- What the comparison of a node with a form finds. -/
theorem do_match_foundIn (x : Cell) (f : Form) :
    FoundIn (do_match_varformat [x] [f.cell]) (Instances [x] [f.cell])
      (InOrderAll [x] [f.cell]) := by
  have hforms : IsFormAll [f.cell] := by
    unfold IsFormAll
    exact ⟨f.isForm, fun _ => rfl, by unfold IsFormAll; trivial⟩
  have h := match_spec.2 [x] [f.cell] hforms
  rw [following_cons] at h
  exact h

/-- A form of the configuration is found exactly in the nodes that have it, with the name that
    is bound, if and only if the node does not have the form, or the attributes in it have the
    order of the form, what stands for an element of any name meets one with just that name,
    and what stands for the rest of the siblings does not stand for nothing. -/
theorem recognised_iff (x : Cell) (f : Form) :
    Recognised x f.cell ↔
      ((∃ vs, Instances [x] [f.cell] vs) → InOrderAll [x] [f.cell]) := by
  have hfound := do_match_foundIn x f
  unfold Recognised
  rw [Option.isSome_iff_exists]
  constructor
  · rintro ⟨hiff, -⟩ hinst
    rcases hiff.mpr hinst with ⟨nam, hnam⟩
    exact (hfound.1 nam hnam).2
  · intro h
    refine ⟨⟨?_, ?_⟩, ?_⟩
    · rintro ⟨nam, hnam⟩
      rcases hfound.1 nam hnam with ⟨⟨vs, hvs, -⟩, -⟩
      exact ⟨vs, hvs⟩
    · rintro ⟨vs, hvs⟩
      exact hfound.2 vs hvs (h ⟨vs, hvs⟩)
    · intro nam hnam
      rcases hfound.1 nam hnam with ⟨⟨vs, hvs, hbound⟩, -⟩
      refine ⟨vs, hvs, ?_⟩
      intro hne
      unfold Bound at hbound
      rw [if_neg hne] at hbound
      exact hbound

/-- A variable that is reported for a node is bound by a form of its part of the configuration
    that the node has. -/
theorem instances_of_check_varformat (vflist : List VarForm)
    (hforms : ∀ vt ∈ vflist, IsForm vt.form) (x : Cell) (type : VarType) (name : Text)
    (h : check_varformat vflist x = some (type, name)) :
    ∃ vt ∈ vflist, vt.type = type ∧ ∃ vs, Instances [x] [vt.form] vs ∧ some name ∈ vs := by
  unfold check_varformat at h
  rcases List.exists_of_findSome?_eq_some h with ⟨vt, hvt, hvalue⟩
  by_cases hkind : vt.type.isForm = true
  · rw [if_pos hkind, Option.map_eq_some_iff] at hvalue
    rcases hvalue with ⟨found, hfound, heq⟩
    cases heq
    unfold match_varformat at hfound
    rw [Option.join_eq_some_iff] at hfound
    rcases (do_match_foundIn x ⟨vt.form, hforms vt hvt⟩).1 _ hfound with ⟨⟨vs, hvs, hbound⟩, -⟩
    refine ⟨vt, hvt, rfl, vs, hvs, ?_⟩
    unfold Bound at hbound
    split_ifs at hbound
    exact hbound
  · rw [if_neg hkind] at hvalue
    exact nomatch hvalue

section Examples

/-- The form of initialized names in the configuration. -/
def initializedName : Form where
  cell :=
    .mk .node "SgInitializedName" [("name", variable_name)] none none
      [.mk .node "any_name" [] none none []]
  isForm := by
    unfold IsForm IsFormAll
    refine ⟨List.nodup_cons.mpr ⟨List.not_mem_nil, List.nodup_nil⟩, fun h => absurd h
      (by decide), ?_,
      fun h => absurd h (by decide), ?_⟩
    · unfold IsForm IsFormAll
      exact ⟨List.nodup_nil, fun _ => ⟨rfl, rfl⟩, trivial⟩
    · unfold IsFormAll
      trivial

/-- An initialized name with its type. -/
def integerName : Cell :=
  .mk .node "SgInitializedName" [("name", some ['x'])] none none
    [.mk .node "SgTypeInt" [] none none []]

/-- The initialized name has the form, and it is not found. -/
theorem integerName_not_recognised : ¬ Recognised integerName initializedName.cell := by
  rw [recognised_iff]
  intro h
  have htype : Instances [.mk .node "SgTypeInt" [] none none []]
      [.mk .node "any_name" [] none none []] [] :=
    Instances.cons _ _ [] [] [] [] (by decide) (Instance.any _ _ (Or.inr rfl)) Instances.nil
  have hattrs : List.Forall₂ AttrMatches [("name", some ['x'])] [("name", variable_name)] :=
    List.Forall₂.cons ⟨rfl, Or.inl rfl⟩ List.Forall₂.nil
  have hname : Instance integerName initializedName.cell _ :=
    Instance.element _ _ _ [] (by decide) (by decide) rfl (List.Perm.refl _) hattrs htype
  have horder := h ⟨_, Instances.cons _ _ [] [] _ [] (by decide) hname Instances.nil⟩
  simp [InOrderAll, InOrder, integerName, initializedName, Cell.name, Cell.children] at horder

end Examples

end Recognition

end XevXml.Tools.Tgen
