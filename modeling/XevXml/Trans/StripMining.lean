import XevXml.Trans.Loop

/-!
# Strip Mining

The rule cuts a loop into strips. An outer loop, whose index has the name of
the old one with a suffix, goes from strip to strip, and an inner loop with
the old index goes through one strip and stops at its end or at the bound of
the original loop, whichever comes first.

The start of the inner loop is copied together with the old index by the path
`SgAssignOp/SgVarRefExp`. If the lower bound is a variable the path selects it
as well, and the reader takes it for the start of every strip, so the inner
loop begins from the beginning each time. With a single strip this makes no
difference, and that is the only case in which it makes none.

## Main definitions

* `stripLoop`, `pointLoop`: The loop over the strips and the loop over one.
* `xevLoopStripMining`: The rule.

## Theorems

* `loopRuns_stripLoop`, `loopRuns_pointLoop`: The blocks these loops execute.
* `runs_xevLoopStripMining`: The runs of the new nest.
* `strip_mining_values_iff`: When they are those of the original loop.
-/

namespace XevXml

section Pieces

/-- A numeric parameter of a rule as a constant. -/
def sizeVal (n : Nat) : Xml :=
  .elem "SgIntVal" [("value", Numeral.printNat n), ("string", Numeral.printNat n)] []

/-- The last value of a strip that starts at a variable. -/
def stripEnd (t : Text) (size : Nat) : Xml :=
  .elem "SgSubtractOp" [] [.elem "SgAddOp" [] [varRef t, sizeVal size], oneVal]

/-- A call of the function `min`. -/
def minCall (args : List Xml) : Xml :=
  .elem "SgFunctionCallExp" []
    [.elem "SgFunctionRefExp" [("name", "min".toList), ("kind", ['1'])] [],
      .elem "SgExprListExp" [] args]

/-- The loop from strip to strip, with the selected bounds. -/
def stripLoop (t : Text) (size : Nat) (lowers uppers rest : List Xml) : Xml :=
  .elem "SgFortranDo" builtAttrs
    ([.elem "SgAssignOp" [] (varRef t :: lowers)] ++ uppers ++ [sizeVal size] ++ rest)

/-- The loop through the strip that starts at a variable, with the selected
    index and bound. -/
def pointLoop (t : Text) (size : Nat) (vars uppers rest : List Xml) : Xml :=
  .elem "SgFortranDo" builtAttrs
    ([.elem "SgAssignOp" [] (vars ++ [varRef t])] ++ [minCall (uppers ++ [stripEnd t size])] ++
      [nullExpression] ++ rest)

variable (μ : Machine) (ρ : Env)

@[simp]
theorem eval_sizeVal (n : Nat) : eval μ ρ (sizeVal n) = n :=
  eval_intVal μ ρ [] (v := Int.ofNat n) rfl

/-- The end of a strip. -/
theorem eval_stripEnd (t : Text) (size : Nat) :
    eval μ ρ (stripEnd t size) = (ρ t).getD (μ.load t) + size - 1 := by
  have hone : intVal [("value", ['1']), ("string", ['1'])] = 1 := by decide
  have hsize : intVal [("value", Numeral.printNat size), ("string", Numeral.printNat size)] =
      size := intVal_of_lookup (v := Int.ofNat size) rfl
  simp [eval, stripEnd, operandValues, operandsValues, apply, varRef, sizeVal, oneVal, hone, hsize]

/-- The bound of the inner loop: the end of the strip or the bound of the
    original loop. -/
theorem eval_minCall (e : Expr) (t : Text) (size : Nat) :
    eval μ ρ (minCall [e.xml, stripEnd t size]) =
      min (eval μ ρ e.xml) ((ρ t).getD (μ.load t) + size - 1) := by
  have hend : operandValues μ ρ (stripEnd t size) = [eval μ ρ (stripEnd t size)] :=
    operandValues_eq μ ρ rfl rfl
  have hargs : operandsValues μ ρ [e.xml, stripEnd t size] =
      [eval μ ρ e.xml, (ρ t).getD (μ.load t) + size - 1] := by
    rw [operandsValues, operandsValues, operandsValues, operandValues_expr, hend, eval_stripEnd]
    rfl
  have hmin : callee [.elem "SgFunctionRefExp" [("name", "min".toList), ("kind", ['1'])] [],
      .elem "SgExprListExp" [] [e.xml, stripEnd t size]] = "min".toList := rfl
  rw [eval, minCall, operandValues, if_neg (by decide), if_neg (by decide), hmin, operandsValues,
    operandsValues, operandValues, operandValues, if_neg (by decide), if_neg (by decide),
    if_pos rfl, hargs]
  simp [apply, operandsValues]

/-- The starts of the strips. -/
theorem loopRuns_stripLoop (t : Text) (size : Nat) (lower upper : Expr) (cs rest : List Xml) :
    loopRuns μ ρ (stripLoop t size [lower.xml] [upper.xml] (basicBlock cs :: rest)) =
      (Progression.values (eval μ ρ lower.xml) (eval μ ρ upper.xml) size).map fun y =>
        (basicBlock cs, ρ.set t y) := by
  have hstride : strideValue μ ρ (sizeVal size) = size := by
    rw [strideValue, if_neg (by simp [sizeVal]), eval_sizeVal]
  rw [← hstride]
  exact loopRuns_built μ ρ [] rest (by rfl) (by rfl) lower.isElem_xml upper.isOperand_xml (by rfl)
    (by rfl)

/-- A single loop in the block is run for every strip. -/
theorem runs_stripLoop (d : Nat) (t : Text) (size : Nat) (lower upper : Expr) (x : Xml)
    (rest : List Xml) :
    runs μ (d + 1) ρ (stripLoop t size [lower.xml] [upper.xml] (basicBlock [x] :: rest)) =
      (Progression.values (eval μ ρ lower.xml) (eval μ ρ upper.xml) size).flatMap fun y =>
        runs μ d (ρ.set t y) x := by
  rw [runs, loopRuns_stripLoop, List.flatMap_map]
  simp only [basicBlock, Xml.children_elem, List.flatMap_singleton]

/-- The values of one strip. Whatever is selected behind the index comes before
    the start of the strip. -/
theorem loopRuns_pointLoop (t : Text) (size : Nat) {vars more : List Xml} {x : Text}
    {var start block : Xml} (upper : Expr) (rest : List Xml)
    (hvars : vars ++ [varRef t] = var :: start :: more) (hvar : var.hasName "SgVarRefExp" = true)
    (hname : var.attr "name" = some x) (hstart : start.isElem = true)
    (hblock : block.hasName "SgBasicBlock" = true) :
    loopRuns μ ρ (pointLoop t size vars [upper.xml] (block :: rest)) =
      (Progression.values (eval μ ρ start)
        (min (eval μ ρ upper.xml) ((ρ t).getD (μ.load t) + size - 1)) 1).map fun v =>
          (block, ρ.set x v) := by
  rw [← eval_minCall, pointLoop, hvars]
  exact loopRuns_built μ ρ more rest hvar hname hstart (by rfl) (by rfl) hblock

end Pieces

/-- The name of the index of the outer loop. -/
def smName (x : Text) : Text := x ++ "_sm".toList

/-- The rule, on the children of the loop. -/
def xevLoopStripMining (size : Nat) (cs : List Xml) : Xml :=
  let sm := smName (indexName cs)
  stripLoop sm size (secondOfAssign cs) (nth 2 cs)
    (basicBlock [pointLoop sm size (path ["SgAssignOp", "SgVarRefExp"] cs) (nth 2 cs)
        (copiedAll (named "SgBasicBlock" cs))] ::
      named "PreprocessingInfo" cs)

section Runs

variable (μ : Machine) (ρ : Env) (L : DoLoop)

/-- What the inner loop starts from. -/
def stripStart (t : Text) : Xml := if L.lower.isVar = true then L.lower.xml else varRef t

/-- The path to the index takes the lower bound along, and it comes first. -/
theorem path_var_append (t : Text) :
    ∃ more, path ["SgAssignOp", "SgVarRefExp"] L.children ++ [varRef t] =
      L.var :: stripStart L t :: more := by
  rw [path_var_children, stripStart]
  by_cases hvar : L.lower.isVar = true
  · exact ⟨[varRef t], by simp [hvar]⟩
  · exact ⟨[], by simp [hvar]⟩

theorem isElem_stripStart (t : Text) : (stripStart L t).isElem = true := by
  unfold stripStart
  split <;> rfl

/-- The strip that starts at a value, or at the lower bound if that is a
    variable. -/
theorem loopRuns_pointLoop_children (t : Text) (size : Nat) {a b y : Int} {block : Xml}
    (hblock : block.hasName "SgBasicBlock" = true) (hlower : eval μ ρ L.lower.xml = a)
    (hupper : eval μ ρ L.upper.xml = b) (hstart : ρ t = some y) :
    loopRuns μ ρ
        (pointLoop t size (path ["SgAssignOp", "SgVarRefExp"] L.children) [L.upper.xml] [block]) =
      (Progression.values (if L.lower.isVar = true then a else y) (min b (y + size - 1)) 1).map
        fun v => (block, ρ.set L.index v) := by
  rcases path_var_append L t with ⟨more, hmore⟩
  have hfirst : eval μ ρ (stripStart L t) = if L.lower.isVar = true then a else y := by
    unfold stripStart
    split
    · exact hlower
    · rw [eval_varRef, hstart, Option.getD_some]
  rw [loopRuns_pointLoop μ ρ t size L.upper [] hmore rfl L.named (isElem_stripStart L t) hblock,
    hfirst, hupper, hstart, Option.getD_some]

/-- A single loop in the block is run for every value of the strip. -/
theorem runs_pointLoop_children (d : Nat) (t : Text) (size : Nat) {a b y : Int} (x : Xml)
    (hlower : eval μ ρ L.lower.xml = a) (hupper : eval μ ρ L.upper.xml = b)
    (hstart : ρ t = some y) :
    runs μ (d + 1) ρ
        (pointLoop t size (path ["SgAssignOp", "SgVarRefExp"] L.children) [L.upper.xml]
          [basicBlock [x]]) =
      (Progression.values (if L.lower.isVar = true then a else y)
        (min b (y + size - 1)) 1).flatMap fun v => runs μ d (ρ.set L.index v) x := by
  rw [runs, loopRuns_pointLoop_children μ ρ L t size rfl hlower hupper hstart, List.flatMap_map]
  simp only [basicBlock, Xml.children_elem, List.flatMap_singleton]

/-- The nest executes the body for the values of one strip after the other. -/
theorem runs_xevLoopStripMining (size : Nat)
    (hlower : Unaffected μ ρ [smName L.index, L.index] L.lower.xml)
    (hupper : Unaffected μ ρ [smName L.index, L.index] L.upper.xml) :
    ((runs μ 1 ρ (xevLoopStripMining size L.children)).map fun r => (r.1, r.2 L.index)) =
      (((Progression.values (eval μ ρ L.lower.xml) (eval μ ρ L.upper.xml) size).flatMap fun y =>
        Progression.values (if L.lower.isVar = true then eval μ ρ L.lower.xml else y)
          (min (eval μ ρ L.upper.xml) (y + size - 1)) 1).map fun v =>
        (L.block.copied, some v)) := by
  have hname : L.block.copied.hasName "SgBasicBlock" = true := hasName_copied _ _
  have hrule : xevLoopStripMining size L.children =
      stripLoop (smName L.index) size [L.lower.xml] [L.upper.xml]
        (basicBlock [pointLoop (smName L.index) size
          (path ["SgAssignOp", "SgVarRefExp"] L.children) [L.upper.xml] [L.block.copied]] ::
            L.infoList) := by
    rw [xevLoopStripMining, indexName_children, secondOfAssign_children, nth_two_children,
      named_children_block, named_children_info, copiedAll_block]
  have hstrip : ∀ y : Int, runs μ 0 (ρ.set (smName L.index) y)
      (pointLoop (smName L.index) size (path ["SgAssignOp", "SgVarRefExp"] L.children)
        [L.upper.xml] [L.block.copied]) =
      (Progression.values (if L.lower.isVar = true then eval μ ρ L.lower.xml else y)
        (min (eval μ ρ L.upper.xml) (y + size - 1)) 1).map fun v =>
          (L.block.copied, (ρ.set (smName L.index) y).set L.index v) := by
    intro y
    exact loopRuns_pointLoop_children μ _ L (smName L.index) size hname
      (hlower.eval_set List.mem_cons_self y) (hupper.eval_set List.mem_cons_self y)
      (Env.set_self ρ _ y)
  rw [hrule, runs_stripLoop, List.map_flatMap, List.map_flatMap]
  refine List.flatMap_congr fun y _ => ?_
  rw [hstrip, List.map_map]
  simp only [Function.comp_def, Env.set_self]

/-- The strips have the values of the loop in order exactly if they do not start from the first
    value again, or there is only one. -/
theorem strips_eq_values_iff {size : Nat} (hsize : 0 < size)
    (hunit : strideValue μ ρ L.stride.xml = 1) :
    ((Progression.values (eval μ ρ L.lower.xml) (eval μ ρ L.upper.xml) size).flatMap fun y =>
        Progression.values (if L.lower.isVar = true then eval μ ρ L.lower.xml else y)
          (min (eval μ ρ L.upper.xml) (y + size - 1)) 1) = L.values μ ρ ↔
      L.lower.isVar = false ∨ (L.values μ ρ).length ≤ size := by
  have hpos : (0 : Int) < size := by omega
  rw [DoLoop.values_eq, hunit, Progression.length_values]
  cases hvar : L.lower.isVar with
  | false =>
      simp only [Bool.false_eq_true, if_false, true_or, iff_true]
      exact (Progression.strips hpos _ _).symm
  | true =>
      simp only [if_true, Bool.true_eq_false, false_or]
      rw [Progression.restarted_strips_iff hpos]
      exact Int.ofNat_le

/-- The nest has the runs of the loop exactly if the strips have its values. -/
theorem runs_stripMined_eq_iff (size : Nat)
    (hlower : Unaffected μ ρ [smName L.index, L.index] L.lower.xml)
    (hupper : Unaffected μ ρ [smName L.index, L.index] L.upper.xml) :
    ((runs μ 1 ρ (xevLoopStripMining size L.children)).map fun r => (r.1, r.2 L.index)) =
        ((runs μ 0 ρ L.xml).map fun r => (r.1.copied, r.2 L.index)) ↔
      ((Progression.values (eval μ ρ L.lower.xml) (eval μ ρ L.upper.xml) size).flatMap fun y =>
        Progression.values (if L.lower.isVar = true then eval μ ρ L.lower.xml else y)
          (min (eval μ ρ L.upper.xml) (y + size - 1)) 1) = L.values μ ρ := by
  have hloop : ((runs μ 0 ρ L.xml).map fun r => (r.1.copied, r.2 L.index)) =
      (L.values μ ρ).map fun v => (L.block.copied, some v) := by
    rw [runs, loopRuns_xml, List.map_map]
    simp only [Function.comp_def, Env.set_self]
  have hinj : Function.Injective fun v : Int => (L.block.copied, some v) := by
    intro v w h
    exact Option.some.inj (Prod.mk.inj h).2
  rw [runs_xevLoopStripMining μ ρ L size hlower hupper, hloop,
    (List.map_injective_iff.mpr hinj).eq_iff]

end Runs

section Examples

/-- The loop `do i = a, 3`. -/
def loopFromA : DoLoop := DoLoop.plain ['i'] (Expr.var ['a']) (Expr.int 3) Expr.null []

/-- The loop `do i = 1, 3`. -/
def loopFromOne : DoLoop := DoLoop.plain ['i'] (Expr.int 1) (Expr.int 3) Expr.null []

end Examples

end XevXml
