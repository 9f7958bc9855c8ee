import XevXml.Trans.Loop

/-!
# Expressions in a Tree

Rules that replace a variable in a body copy everything else. The expressions
of the body and those of the result stand at the same positions, which are
paths of numbers of child elements; a variable has no parts.

If the replacement has the value of the variable wherever it is made, every
expression at every position keeps its value, however deep it stands.

## Main definitions

* `exprAt`: The tree at a position.
* `mentions`: Whether a variable occurs in a tree.
* `Rewrites`: Functions that copy everything but variables.
* `SameExpressions`: Trees with the same values at the same positions.

## Theorems

* `exists_exprAt_of_mentions`, `mentions_of_exprAt`: A variable that occurs
  stands at a position.
* `Rewrites.exprAt_eq`: Where things are after rewriting.
* `Rewrites.sameExpressions`: When rewriting keeps the values.
-/

namespace XevXml

section Positions

/-- The tree at a position. -/
def exprAt : List Nat → Xml → Option Xml
  | [], x => some x
  | k :: p, x =>
      if x.hasName "SgVarRefExp" = true then none
      else (elements x.children)[k]?.bind (exprAt p)

/-- Positions in a tree at a position. -/
theorem exprAt_append {p q : List Nat} {x e z : Xml} (hp : exprAt p x = some e)
    (hq : exprAt q e = some z) : exprAt (p ++ q) x = some z := by
  induction p generalizing x with
  | nil =>
      rw [exprAt, Option.some.injEq] at hp
      rw [List.nil_append, hp, hq]
  | cons k p ih =>
      rw [exprAt] at hp
      rw [List.cons_append, exprAt]
      by_cases hvar : x.hasName "SgVarRefExp" = true
      · rw [if_pos hvar] at hp
        exact absurd hp (by simp)
      · rw [if_neg hvar] at hp ⊢
        rcases Option.bind_eq_some_iff.mp hp with ⟨w, hw, he⟩
        rw [hw, Option.bind_some, ih he]

/-- Only elements stand at positions of an element. -/
theorem isElem_of_exprAt {p : List Nat} {x e : Xml} (hx : x.isElem = true)
    (h : exprAt p x = some e) : e.isElem = true := by
  induction p generalizing x with
  | nil =>
      rw [exprAt, Option.some.injEq] at h
      rwa [← h]
  | cons k p ih =>
      rw [exprAt] at h
      by_cases hvar : x.hasName "SgVarRefExp" = true
      · rw [if_pos hvar] at h
        exact absurd h (by simp)
      · rw [if_neg hvar] at h
        rcases Option.bind_eq_some_iff.mp h with ⟨w, hw, he⟩
        exact ih (List.mem_filter.mp (List.mem_of_getElem? hw)).2 he

mutual

/-- Whether a variable occurs in a tree. -/
def mentions (y : Text) : Xml → Bool
  | .elem name attrs cs =>
      if name = "SgVarRefExp" then decide (attrs.lookup "name" = some y) else mentionsAny y cs
  | .text _ => false
  | .comment _ => false

/-- Whether a variable occurs in one of several trees. -/
def mentionsAny (y : Text) : List Xml → Bool
  | [] => false
  | x :: xs => mentions y x || mentionsAny y xs

end

theorem mentionsAny_iff (y : Text) (ns : List Xml) :
    mentionsAny y ns = true ↔ ∃ x ∈ elements ns, mentions y x = true := by
  induction ns with
  | nil => simp [mentionsAny]
  | cons n ns ih =>
      rw [mentionsAny, Bool.or_eq_true, ih]
      by_cases hn : n.isElem = true
      · rw [elements_cons_of_isElem hn]
        simp
      · have hnone : elements (n :: ns) = elements ns := List.filter_cons_of_neg hn
        have hmention : mentions y n = false := by
          cases n with
          | elem name attrs cs => exact absurd rfl hn
          | text t => rfl
          | comment t => rfl
        rw [hnone, hmention]
        simp

/-- A position in a part of an element is one in the element. -/
theorem exists_exprAt_of_mem {name : String} {attrs : Attrs} {cs : List Xml} {x e : Xml}
    {p : List Nat} (hname : name ≠ "SgVarRefExp") (hx : x ∈ elements cs)
    (h : exprAt p x = some e) : ∃ k, exprAt (k :: p) (.elem name attrs cs) = some e := by
  rcases List.mem_iff_getElem?.mp hx with ⟨k, hk⟩
  refine ⟨k, ?_⟩
  rw [exprAt, if_neg (by simpa using hname), Xml.children_elem, hk, Option.bind_some, h]

/-- A variable that occurs stands at a position. -/
theorem exists_exprAt_of_mentions {y : Text} :
    (∀ x : Xml, mentions y x = true → ∃ p attrs cs,
        exprAt p x = some (.elem "SgVarRefExp" attrs cs) ∧ attrs.lookup "name" = some y) ∧
      ∀ ns, mentionsAny y ns = true → ∃ x ∈ elements ns, ∃ p attrs cs,
        exprAt p x = some (.elem "SgVarRefExp" attrs cs) ∧ attrs.lookup "name" = some y := by
  refine Xml.induct ?elem ?text ?comment ?nil ?cons
  case elem =>
    intro name attrs cs ih h
    rw [mentions] at h
    by_cases hvar : name = "SgVarRefExp"
    · rw [if_pos hvar, decide_eq_true_eq] at h
      subst hvar
      exact ⟨[], attrs, cs, rfl, h⟩
    · rw [if_neg hvar] at h
      rcases ih h with ⟨x, hx, p, attrs', cs', hp, hname⟩
      rcases exists_exprAt_of_mem hvar hx hp with ⟨k, hk⟩
      exact ⟨k :: p, attrs', cs', hk, hname⟩
  case text =>
    intro t h
    exact Bool.noConfusion h
  case comment =>
    intro t h
    exact Bool.noConfusion h
  case nil =>
    intro h
    exact Bool.noConfusion h
  case cons =>
    intro x xs hx ih h
    rw [mentionsAny, Bool.or_eq_true] at h
    by_cases helem : x.isElem = true
    · rw [elements_cons_of_isElem helem]
      rcases h with h | h
      · exact ⟨x, List.mem_cons_self, hx h⟩
      · rcases ih h with ⟨z, hz, hpos⟩
        exact ⟨z, List.mem_cons_of_mem _ hz, hpos⟩
    · have hnone : elements (x :: xs) = elements xs := List.filter_cons_of_neg helem
      rw [hnone]
      rcases h with h | h
      · cases x with
        | elem name attrs cs => exact absurd rfl helem
        | text t => exact Bool.noConfusion h
        | comment t => exact Bool.noConfusion h
      · exact ih h

theorem mentions_of_exprAt {y : Text} {p : List Nat} {x : Xml} {attrs : Attrs} {cs : List Xml}
    (h : exprAt p x = some (.elem "SgVarRefExp" attrs cs)) (hname : attrs.lookup "name" = some y) :
    mentions y x = true := by
  induction p generalizing x with
  | nil =>
      rw [exprAt, Option.some.injEq] at h
      rw [h, mentions, if_pos rfl, hname]
      exact decide_eq_true rfl
  | cons k p ih =>
      rw [exprAt] at h
      by_cases hvar : x.hasName "SgVarRefExp" = true
      · rw [if_pos hvar] at h
        exact absurd h (by simp)
      · rw [if_neg hvar] at h
        rcases Option.bind_eq_some_iff.mp h with ⟨w, hw, he⟩
        cases x with
        | elem name attrs' cs' =>
            rw [mentions, if_neg fun heq => hvar (by simp [heq]), mentionsAny_iff]
            exact ⟨w, List.mem_of_getElem? hw, ih he⟩
        | text t => exact absurd hw (by simp [Xml.children])
        | comment t => exact absurd hw (by simp [Xml.children])

end Positions

section Rewriting

/-- Functions that copy everything but variables, for which they put a single
    operand. -/
structure Rewrites (f : Xml → Xml) : Prop where
  copies : ∀ name attrs cs, name ≠ "SgVarRefExp" →
    ∃ cs', f (.elem name attrs cs) = .elem name attrs cs' ∧ elements cs' = (elements cs).map f
  operand : ∀ attrs cs, (f (.elem "SgVarRefExp" attrs cs)).isElem = true ∧
    (f (.elem "SgVarRefExp" attrs cs)).hasName "SgExprListExp" = false ∧
    (f (.elem "SgVarRefExp" attrs cs)).hasName "SgFunctionRefExp" = false

/-- Trees with the same values at the same positions. -/
def SameExpressions (μ : Machine) (σ σ' : Env) (x x' : Xml) : Prop :=
  ∀ p e, exprAt p x = some e → ∃ e', exprAt p x' = some e' ∧ eval μ σ' e' = eval μ σ e

variable {f : Xml → Xml} {μ : Machine} {σ σ' : Env}

/-- Rewriting keeps the positions. -/
theorem Rewrites.exprAt_eq (hf : Rewrites f) {p : List Nat} {x e : Xml}
    (h : exprAt p x = some e) : exprAt p (f x) = some (f e) := by
  induction p generalizing x with
  | nil =>
      rw [exprAt, Option.some.injEq] at h
      rw [exprAt, h]
  | cons k p ih =>
      rw [exprAt] at h
      by_cases hvar : x.hasName "SgVarRefExp" = true
      · rw [if_pos hvar] at h
        exact absurd h (by simp)
      · rw [if_neg hvar] at h
        cases x with
        | elem name attrs cs =>
            have hname : name ≠ "SgVarRefExp" := fun heq => hvar (by simp [heq])
            rcases hf.copies name attrs cs hname with ⟨cs', hcopy, hchildren⟩
            rw [hcopy, exprAt, if_neg (by simpa using hname), Xml.children_elem, hchildren,
              List.getElem?_map]
            rcases Option.bind_eq_some_iff.mp h with ⟨z, hz, he⟩
            rw [Xml.children_elem] at hz
            rw [hz, Option.map_some, Option.bind_some, ih he]
        | text t => exact absurd h (by simp [Xml.children])
        | comment t => exact absurd h (by simp [Xml.children])

theorem operandsValues_append (μ : Machine) (σ : Env) (ns ms : List Xml) :
    operandsValues μ σ (ns ++ ms) = operandsValues μ σ ns ++ operandsValues μ σ ms := by
  induction ns with
  | nil => rfl
  | cons n ns ih => rw [List.cons_append, operandsValues, operandsValues, ih, List.append_assoc]

/-- Only elements have values. -/
theorem operandsValues_elements (μ : Machine) (σ : Env) (ns : List Xml) :
    operandsValues μ σ (elements ns) = operandsValues μ σ ns := by
  induction ns with
  | nil => rfl
  | cons n ns ih =>
      cases n with
      | elem name attrs cs => rw [elements_cons_elem, operandsValues, operandsValues, ih]
      | text t => exact ih
      | comment t => exact ih

/-- Rewriting keeps the function a call refers to. -/
theorem Rewrites.callee_eq (hf : Rewrites f) {cs cs' : List Xml}
    (h : elements cs' = (elements cs).map f) : callee cs' = callee cs := by
  have hselect : ∀ ns : List Xml, (∀ x ∈ ns, x.isElem = true) →
      attributes "name" (named "SgFunctionRefExp" (ns.map f)) =
        attributes "name" (named "SgFunctionRefExp" ns) := by
    intro ns hns
    induction ns with
    | nil => rfl
    | cons n ns ih =>
        have hrest := ih fun x hx => hns x (List.mem_cons_of_mem _ hx)
        rw [List.map_cons, named_cons, named_cons]
        cases n with
        | elem name attrs cs =>
            by_cases hvar : name = "SgVarRefExp"
            · subst hvar
              rw [if_neg (by simp [(hf.operand attrs cs).2.2]), if_neg (by simp), hrest]
            · rcases hf.copies name attrs cs hvar with ⟨cs', hcopy, -⟩
              rw [hcopy, Xml.hasName_elem, Xml.hasName_elem]
              by_cases hname : name = "SgFunctionRefExp"
              · rw [if_pos (by simp [hname]), if_pos (by simp [hname]), attributes, attributes,
                  List.filterMap_cons, List.filterMap_cons, Xml.attr_elem, Xml.attr_elem]
                rw [attributes, attributes] at hrest
                rw [hrest]
              · rw [if_neg (by simp [hname]), if_neg (by simp [hname]), hrest]
        | text t => exact absurd (hns _ List.mem_cons_self) (by simp [Xml.isElem])
        | comment t => exact absurd (hns _ List.mem_cons_self) (by simp [Xml.isElem])
  have helems : ∀ x ∈ elements cs, x.isElem = true := fun x hx => (List.mem_filter.mp hx).2
  rw [callee, callee, valueOf, valueOf, ← named_elements, h, hselect _ helems, named_elements]

/-- If the replacements have the values of the variables, the values of all
    operands are kept. -/
theorem Rewrites.operandValues_map (hf : Rewrites f) {P : Attrs → List Xml → Prop}
    (hvar : ∀ attrs cs, P attrs cs → eval μ σ' (f (.elem "SgVarRefExp" attrs cs)) =
      eval μ σ (.elem "SgVarRefExp" attrs cs)) :
    (∀ x : Xml, x.isElem = true → (∀ p attrs cs, exprAt p x = some (.elem "SgVarRefExp" attrs cs) →
        P attrs cs) → operandValues μ σ' (f x) = operandValues μ σ x) ∧
      ∀ ns, (∀ x ∈ elements ns, ∀ p attrs cs,
        exprAt p x = some (.elem "SgVarRefExp" attrs cs) → P attrs cs) →
        operandsValues μ σ' ((elements ns).map f) = operandsValues μ σ ns := by
  refine Xml.induct ?elem ?text ?comment ?nil ?cons
  case elem =>
    intro name attrs cs ih _ hP
    by_cases hname : name = "SgVarRefExp"
    · subst hname
      have hvalue := hvar attrs cs (hP [] attrs cs rfl)
      rw [operandValues_eq μ σ' (hf.operand attrs cs).1 (hf.operand attrs cs).2.1, hvalue,
        operandValues_eq μ σ rfl rfl]
    · rcases hf.copies name attrs cs hname with ⟨cs', hcopy, hchildren⟩
      have hparts : ∀ x ∈ elements cs, ∀ p attrs cs,
          exprAt p x = some (.elem "SgVarRefExp" attrs cs) → P attrs cs := by
        intro x hx p attrs' cs' hp
        rcases exists_exprAt_of_mem hname hx hp with ⟨k, hk⟩
        exact hP (k :: p) attrs' cs' hk
      have hvalues : operandsValues μ σ' cs' = operandsValues μ σ cs := by
        rw [← operandsValues_elements, hchildren, ih hparts]
      rw [hcopy, operandValues, operandValues, if_neg hname, if_neg hname, hvalues,
        hf.callee_eq hchildren]
  case text =>
    intro t h
    exact Bool.noConfusion h
  case comment =>
    intro t h
    exact Bool.noConfusion h
  case nil =>
    intro _
    rfl
  case cons =>
    intro x xs hx ih hP
    by_cases helem : x.isElem = true
    · rw [elements_cons_of_isElem helem] at hP ⊢
      rw [List.map_cons, operandsValues, operandsValues,
        hx helem (hP x List.mem_cons_self), ih fun z hz => hP z (List.mem_cons_of_mem _ hz)]
    · have hnone : elements (x :: xs) = elements xs := List.filter_cons_of_neg helem
      rw [hnone] at hP ⊢
      rw [ih hP, ← operandsValues_elements μ σ (x :: xs), hnone, operandsValues_elements]

/-- If the replacement has the value of the variable wherever it is made, every
    expression keeps its value. -/
theorem Rewrites.sameExpressions (hf : Rewrites f) {x : Xml} (helem : x.isElem = true)
    (hvar : ∀ p attrs cs, exprAt p x = some (.elem "SgVarRefExp" attrs cs) →
      eval μ σ' (f (.elem "SgVarRefExp" attrs cs)) = eval μ σ (.elem "SgVarRefExp" attrs cs)) :
    SameExpressions μ σ σ' x (f x) := by
  intro p e hp
  have hvalues : operandValues μ σ' (f e) = operandValues μ σ e :=
    (hf.operandValues_map (P := fun attrs cs => eval μ σ' (f (.elem "SgVarRefExp" attrs cs)) =
      eval μ σ (.elem "SgVarRefExp" attrs cs)) fun attrs cs h => h).1 e
        (isElem_of_exprAt helem hp) fun q attrs cs hq => hvar _ attrs cs (exprAt_append hp hq)
  exact ⟨f e, hf.exprAt_eq hp, by rw [eval, eval, hvalues]⟩

end Rewriting

end XevXml
