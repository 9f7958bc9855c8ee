import XevXml.Trans.Nest
import XevXml.Trans.Position

/-!
# Trees that Do the Same

A rule that makes several copies of a statement puts other operands in the
place of variables, leaves out comments and what stands between the elements of
a block, and may leave out the attributes of a block. Nothing of this changes
what the statement does as long as every operand has the value of the variable
it stands for. Two trees that differ in no other way are the same here.

The values of the variables are those of two environments, one for either tree.

## Main definitions

* `Same`, `Sames`: Trees and lists of trees that do the same.

## Theorems

* `sames_iff`: Lists are compared element by element.
* `Same.operandValues_eq`: What is the same has the same values.
* `same_copied`: Copies are the same.
-/

namespace XevXml

section Definition

mutual

/-- Trees that do the same in two environments: the second one may have other
    operands for variables. -/
def Same (μ : Machine) (σ σ' : Env) : Xml → Xml → Prop
  | .elem name attrs cs, x' =>
      if name = "SgVarRefExp" then
        x'.isElem = true ∧ (reserved.any fun n => x'.hasName n) = false ∧
          x'.hasName "SgFunctionRefExp" = false ∧
            eval μ σ' x' = eval μ σ (.elem "SgVarRefExp" attrs cs)
      else
        ∃ attrs' cs', x' = .elem name attrs' cs' ∧ (attrs' = attrs ∨ name = "SgBasicBlock") ∧
          Sames μ σ σ' cs (elements cs')
  | .text _, _ => False
  | .comment _, _ => False

/-- Lists of trees whose elements do the same, one by one. -/
def Sames (μ : Machine) (σ σ' : Env) : List Xml → List Xml → Prop
  | [], ys => ys = []
  | x :: xs, ys =>
      if x.isElem = true then
        ∃ y rest, ys = y :: rest ∧ Same μ σ σ' x y ∧ Sames μ σ σ' xs rest
      else Sames μ σ σ' xs ys

end

end Definition

section Lists

theorem hasName_of_reserved {x : Xml} {name : String}
    (h : (reserved.any fun n => x.hasName n) = false) (hname : name ∈ reserved) :
    x.hasName name = false := by
  rw [List.any_eq_false] at h
  simpa using h name hname

variable {μ : Machine} {σ σ' : Env}

/-- Lists are compared element by element. -/
theorem sames_iff (xs ys : List Xml) :
    Sames μ σ σ' xs ys ↔ List.Forall₂ (Same μ σ σ') (elements xs) ys := by
  induction xs generalizing ys with
  | nil => rw [Sames, elements_nil, List.forall₂_nil_left_iff]
  | cons x xs ih =>
      rw [Sames]
      by_cases hx : x.isElem = true
      · rw [if_pos hx, elements_cons_of_isElem hx, List.forall₂_cons_left_iff]
        simp only [ih]
        constructor
        · intro h
          rcases h with ⟨y, rest, hys, hxy, hrest⟩
          exact ⟨y, rest, hxy, hrest, hys⟩
        · intro h
          rcases h with ⟨y, rest, hxy, hrest, hys⟩
          exact ⟨y, rest, hys, hxy, hrest⟩
      · have hdrop : elements (x :: xs) = elements xs := List.filter_cons_of_neg hx
        rw [if_neg hx, hdrop, ih]

theorem Same.isElem {x x' : Xml} (h : Same μ σ σ' x x') : x.isElem = true ∧ x'.isElem = true := by
  cases x with
  | elem name attrs cs =>
      rw [Same] at h
      by_cases hvar : name = "SgVarRefExp"
      · rw [if_pos hvar] at h
        exact ⟨rfl, h.1⟩
      · rw [if_neg hvar] at h
        rcases h with ⟨attrs', cs', rfl, -, -⟩
        exact ⟨rfl, rfl⟩
  | text t => exact absurd h (by simp [Same])
  | comment t => exact absurd h (by simp [Same])

/-- What is the same has the same name, among those the rules look for. -/
theorem Same.hasName_eq {x x' : Xml} {name : String} (hname : name ∈ reserved)
    (h : Same μ σ σ' x x') : x'.hasName name = x.hasName name := by
  cases x with
  | elem n attrs cs =>
      rw [Same] at h
      by_cases hvar : n = "SgVarRefExp"
      · rw [if_pos hvar] at h
        have hne : ¬ n = name := by
          intro heq
          rw [← heq, hvar] at hname
          exact absurd hname (by decide)
        rw [hasName_of_reserved h.2.1 hname, Xml.hasName_elem, beq_eq_false_iff_ne.mpr hne]
      · rw [if_neg hvar] at h
        rcases h with ⟨attrs', cs', rfl, -, -⟩
        rfl
  | text t => exact absurd h (by simp [Same])
  | comment t => exact absurd h (by simp [Same])

theorem loopFree_elem {name : String} {attrs : Attrs} {cs : List Xml} :
    (Xml.elem name attrs cs).loopFree = true ↔
      name ≠ "SgFortranDo" ∧ name ≠ "SgBasicBlock" ∧ loopFreeAll cs = true := by
  simp [Xml.loopFree, and_assoc]

end Lists

section Values

variable {μ : Machine} {σ σ' : Env}

/-- References to a function are the same in both. -/
theorem Same.hasName_function {x x' : Xml} (h : Same μ σ σ' x x') :
    x'.hasName "SgFunctionRefExp" = x.hasName "SgFunctionRefExp" ∧
      (x.hasName "SgFunctionRefExp" = true → x'.attr "name" = x.attr "name") := by
  cases x with
  | elem name attrs cs =>
      rw [Same] at h
      by_cases hvar : name = "SgVarRefExp"
      · rw [if_pos hvar] at h
        subst hvar
        exact ⟨h.2.2.1, fun hfun => absurd hfun (by simp)⟩
      · rw [if_neg hvar] at h
        rcases h with ⟨attrs', cs', rfl, hattrs, -⟩
        refine ⟨rfl, fun hfun => ?_⟩
        rcases hattrs with rfl | hblock
        · rfl
        · exact absurd hfun (by simp [hblock])
  | text t => exact absurd h (by simp [Same])
  | comment t => exact absurd h (by simp [Same])

/-- Calls of the same function have the same name. -/
theorem Sames.callee_eq {cs cs' : List Xml} (h : Sames μ σ σ' cs (elements cs')) :
    callee cs' = callee cs := by
  have hselect : ∀ xs ys : List Xml, List.Forall₂ (Same μ σ σ') xs ys →
      attributes "name" (named "SgFunctionRefExp" ys) =
        attributes "name" (named "SgFunctionRefExp" xs) := by
    intro xs ys hsame
    induction hsame with
    | nil => rfl
    | @cons x y xs ys hxy _ ih =>
        rw [attributes, attributes] at ih
        rw [named_cons, named_cons, hxy.hasName_function.1, attributes, attributes]
        by_cases hfun : x.hasName "SgFunctionRefExp" = true
        · rw [if_pos hfun, if_pos hfun, List.filterMap_cons, List.filterMap_cons,
            hxy.hasName_function.2 hfun, ih]
        · rw [if_neg hfun, if_neg hfun, ih]
  rw [callee, callee, valueOf, valueOf, ← named_elements _ cs', ← named_elements _ cs,
    hselect _ _ ((sames_iff _ _).mp h)]

/-- What is the same has the same values. -/
theorem Same.operandValues_eq :
    (∀ x x' : Xml, x.loopFree = true → Same μ σ σ' x x' →
        operandValues μ σ' x' = operandValues μ σ x) ∧
      ∀ xs ys : List Xml, loopFreeAll xs = true → Sames μ σ σ' xs ys →
        operandsValues μ σ' ys = operandsValues μ σ xs := by
  refine Xml.induct ?elem ?text ?comment ?nil ?cons
  case elem =>
    intro name attrs cs ih x' hfree hsame
    rw [loopFree_elem] at hfree
    rw [Same] at hsame
    -- Variables may be other trees of the same value; all else is copied.
    by_cases hvar : name = "SgVarRefExp"
    · rw [if_pos hvar] at hsame
      subst hvar
      rw [XevXml.operandValues_eq μ σ' hsame.1 (hasName_of_reserved hsame.2.1 (by decide)),
        hsame.2.2.2,
        XevXml.operandValues_eq μ σ rfl rfl]
    · rw [if_neg hvar] at hsame
      rcases hsame with ⟨attrs', cs', rfl, hattrs, hparts⟩
      have hsameAttrs : attrs' = attrs := hattrs.resolve_right hfree.2.1
      have hvalues : operandsValues μ σ' cs' = operandsValues μ σ cs := by
        rw [← operandsValues_elements, ih _ hfree.2.2 hparts]
      rw [operandValues, operandValues, if_neg hvar, if_neg hvar, hvalues, hparts.callee_eq,
        hsameAttrs]
  case text =>
    intro t x' _ hsame
    exact absurd hsame (by simp [Same])
  case comment =>
    intro t x' _ hsame
    exact absurd hsame (by simp [Same])
  case nil =>
    intro ys _ hsame
    rw [Sames] at hsame
    rw [hsame, operandsValues, operandsValues]
  case cons =>
    intro x xs hx ih ys hfree hsame
    rw [loopFreeAll, Bool.and_eq_true] at hfree
    rw [Sames] at hsame
    by_cases helem : x.isElem = true
    · rw [if_pos helem] at hsame
      rcases hsame with ⟨y, rest, rfl, hxy, hrest⟩
      rw [operandsValues, operandsValues, hx y hfree.1 hxy, ih rest hfree.2 hrest]
    · have hnone : elements (x :: xs) = elements xs := List.filter_cons_of_neg helem
      rw [if_neg helem] at hsame
      rw [ih ys hfree.2 hsame, ← operandsValues_elements μ σ (x :: xs), hnone,
        operandsValues_elements]

end Values

section Copies

variable {μ : Machine} {σ σ' : Env}

/-- A variable is the same where it has the same value. -/
theorem eval_varRefExp_of_getD {attrs : Attrs} (cs cs' : List Xml)
    (h : ∀ y, (σ' y).getD (μ.load y) = (σ y).getD (μ.load y)) :
    eval μ σ' (.elem "SgVarRefExp" attrs cs') = eval μ σ (.elem "SgVarRefExp" attrs cs) := by
  cases hname : attrs.lookup "name" with
  | none =>
      exact eval_varRefExp_congr μ cs cs' fun y hy => absurd hy (by simp [hname])
  | some y => rw [eval_varRefExp μ σ' _ hname, eval_varRefExp μ σ _ hname, h y]

/-- Copies are the same. -/
theorem same_copied (h : ∀ y, (σ' y).getD (μ.load y) = (σ y).getD (μ.load y)) :
    (∀ x : Xml, x.isElem = true → Same μ σ σ' x x.copied) ∧
      ∀ xs, Sames μ σ σ' xs (elements (copiedAll xs)) := by
  refine Xml.induct ?elem ?text ?comment ?nil ?cons
  case elem =>
    intro name attrs cs ih _
    rw [Same, Xml.copied]
    by_cases hvar : name = "SgVarRefExp"
    · subst hvar
      rw [if_pos rfl]
      exact ⟨rfl, rfl, rfl, eval_varRefExp_of_getD _ _ h⟩
    · rw [if_neg hvar]
      exact ⟨attrs, _, rfl, Or.inl rfl, ih⟩
  case text =>
    intro t h
    exact Bool.noConfusion h
  case comment =>
    intro t h
    exact Bool.noConfusion h
  case nil => rw [copiedAll_nil, elements_nil, Sames]
  case cons =>
    intro x xs hx ih
    rw [Sames]
    by_cases helem : x.isElem = true
    · rw [if_pos helem, copiedAll_cons_of_not (not_isComment_of_isElem helem),
        elements_cons_of_isElem (by rwa [isElem_copied])]
      exact ⟨_, _, rfl, hx helem, ih⟩
    · rw [if_neg helem, elements_copiedAll]
      have hdrop : elements (x :: xs) = elements xs := List.filter_cons_of_neg helem
      rw [hdrop, ← elements_copiedAll]
      exact ih

end Copies

end XevXml
