import XevXml.Trans.Flow

/-!
# Inversion

The rule moves the test of a `DO WHILE` loop to the bottom. The first test
becomes a conditional statement around a loop without a header; behind the body
a second one goes back with `CYCLE` if the condition holds, and an `EXIT` ends
the loop otherwise.

A `CYCLE` of the body for this loop went to the test; in the new loop it skips
the one at the bottom and starts the next iteration unasked. Without it both
loops evaluate the same conditions and execute the same statements in the same
order, and end in the same way or not at all. An `EXIT` makes no difference: if
it mentions the name of the loop, this is now the name of the conditional
statement, which it leaves.

## Main definitions

* `WhileLoop`: Well-formed `DO WHILE` loops.
* `xevLoopInversion`: The rule.
* `cycleFree`: Runs in which no iteration is ended by `CYCLE`.

## Theorems

* `execStmt_whileLoop`, `execStmt_xevLoopInversion`: Both loops.
* `doRun_eq_iterate`: The loop without a header, from one test to the next.
* `inversion_correct`: Such runs are preserved.
-/

namespace XevXml

/-- The conditional statement at the bottom of the new loop. -/
def bottomTest (conditions : List Xml) : Xml :=
  .elem "SgIfStmt" [("end", ['0']), ("then", ['0'])]
    (conditions ++ [basicBlock [.elem "SgContinueStmt" [] []], basicBlock []])

/-- The rule, on the attributes and the children of the loop. -/
def xevLoopInversion (attrs : Attrs) (cs : List Xml) : Xml :=
  .elem "SgIfStmt" attrs
    (named "SgExprStatement" cs ++
      [basicBlock
        [.elem "SgFortranDo" builtAttrs
          [nullExpression, nullExpression, nullExpression,
            basicBlock (((named "SgBasicBlock" cs).flatMap fun b => elements b.children) ++
              [bottomTest (named "SgExprStatement" cs), .elem "SgBreakStmt" [] []])]],
        basicBlock []] ++
      named "PreprocessingInfo" cs)

/-- Well-formed `DO WHILE` loops. -/
structure WhileLoop where
  attrs : Attrs
  conditionAttrs : Attrs
  condition : List Xml
  blockAttrs : Attrs
  body : List Xml
  infos : List (Attrs × List Xml)

namespace WhileLoop

variable (W : WhileLoop)

/-- The statement that is the condition. -/
def test : Xml := .elem "SgExprStatement" W.conditionAttrs W.condition

/-- The children of the loop element. -/
def children : List Xml :=
  W.test :: .elem "SgBasicBlock" W.blockAttrs W.body ::
    W.infos.map fun i => .elem "PreprocessingInfo" i.1 i.2

/-- The loop element. -/
def xml : Xml := .elem "SgWhileStmt" W.attrs W.children

/-- The name of the loop, empty if it has none. -/
def name : Text := slabel W.attrs

end WhileLoop

section Loops

variable {S : Type} (b : Behaviour S) (n : Nat) (W : WhileLoop)

theorem named_whileLoop_test : named "SgExprStatement" W.children = [W.test] := by
  have hinfos : named "SgExprStatement"
    (W.infos.map fun i => Xml.elem "PreprocessingInfo" i.1 i.2) =
      [] := by
    refine List.filter_eq_nil_iff.mpr fun x hx => ?_
    rcases List.mem_map.mp hx with ⟨i, -, rfl⟩
    simp
  simp [WhileLoop.children, WhileLoop.test, hinfos]

theorem named_whileLoop_block :
    named "SgBasicBlock" W.children = [.elem "SgBasicBlock" W.blockAttrs W.body] := by
  have hinfos : named "SgBasicBlock" (W.infos.map fun i => Xml.elem "PreprocessingInfo" i.1 i.2) =
      [] := by
    refine List.filter_eq_nil_iff.mpr fun x hx => ?_
    rcases List.mem_map.mp hx with ⟨i, -, rfl⟩
    simp
  simp [WhileLoop.children, WhileLoop.test, hinfos]

theorem execStmt_whileLoop :
    execStmt b n W.xml = whileRun b W.name W.test (execAll b n W.body) n := by
  funext s
  have hblocks : blockAt (execBlocks b n W.children) 0 = execAll b n W.body := by
    rw [WhileLoop.children, execBlocks_cons_of_not b n rfl, execBlocks_cons_block, blockAt_zero]
  rw [WhileLoop.xml, execStmt, if_neg (by decide), if_neg (by decide), if_pos rfl,
    named_whileLoop_test, List.head?_cons]
  simp only [hblocks]
  rfl

/-- The test at the bottom and what follows it. -/
def bottomRun (s : S) : Result S :=
  ([.test W.test],
    some (if (b.test W.test s).1 = true then .cycle [] else .leave [], (b.test W.test s).2))

theorem execAll_bottom (s : S) :
    execAll b n [bottomTest [W.test], .elem "SgBreakStmt" [] []] s = bottomRun b W s := by
  have hblocks : execBlocks b n ([W.test] ++ [basicBlock [.elem "SgContinueStmt" [] []],
      basicBlock []]) = [execAll b n [.elem "SgContinueStmt" [] []], execAll b n []] := by
    rw [List.singleton_append, execBlocks_cons_of_not b n rfl, execBlocks_cons_basicBlock,
      execBlocks_cons_basicBlock, execBlocks]
  have hcondition : (named "SgExprStatement" ([W.test] ++
      [basicBlock [.elem "SgContinueStmt" [] []], basicBlock []])).head? = some W.test := rfl
  have htest : execStmt b n (bottomTest [W.test]) s =
      Result.named [] (Result.after [.test W.test]
        (if (b.test W.test s).1 = true then
          execAll b n [.elem "SgContinueStmt" [] []] (b.test W.test s).2
        else skip (b.test W.test s).2)) := by
    rw [bottomTest, execStmt, if_neg (by decide), if_pos rfl, hcondition, hblocks]
    rfl
  rw [execAll, htest, bottomRun]
  by_cases h : (b.test W.test s).1 = true
  · simp only [if_pos h]
    rfl
  · simp only [if_neg h]
    rfl

/-- The new loop: a test, and then the loop without a header. -/
theorem execStmt_xevLoopInversion (s : S) :
    execStmt b n (xevLoopInversion W.attrs W.children) s =
      Result.named W.name (Result.after [.test W.test]
        (if (b.test W.test s).1 = true then
          doRun [] (fun s => (execAll b n W.body s).andThen (bottomRun b W)) n (b.test W.test s).2
        else skip (b.test W.test s).2)) := by
  have hbody : (fun s => execAll b n (elements W.body ++
      [bottomTest [W.test], .elem "SgBreakStmt" [] []]) s) =
      fun s => (execAll b n W.body s).andThen (bottomRun b W) := by
    funext s
    have hbottom := funext (execAll_bottom b n W)
    rw [execAll_append, execAll_elements, hbottom]
  have hloop : execStmt b n (.elem "SgFortranDo" builtAttrs
      [nullExpression, nullExpression, nullExpression,
        basicBlock (elements W.body ++ [bottomTest [W.test], .elem "SgBreakStmt" [] []])]) =
      doRun [] (fun s => (execAll b n W.body s).andThen (bottomRun b W)) n := by
    funext s
    rw [execStmt, if_neg (by decide), if_neg (by decide), if_neg (by decide), if_pos ⟨rfl, rfl⟩,
      execBlocks_cons_of_not b n rfl, execBlocks_cons_of_not b n rfl,
      execBlocks_cons_of_not b n rfl, execBlocks_cons_basicBlock, blockAt_zero, ← hbody]
    rfl
  -- Only blocks are executed among the children.
  have hinfos : ∀ is : List (Attrs × List Xml),
      execBlocks b n (is.map fun i => Xml.elem "PreprocessingInfo" i.1 i.2) = [] := by
    intro is
    induction is with
    | nil => rfl
    | cons i is ih => rw [List.map_cons, execBlocks_cons_of_not b n rfl, ih]
  have hselect : named "PreprocessingInfo" W.children =
      W.infos.map fun i => .elem "PreprocessingInfo" i.1 i.2 := by
    have hall : named "PreprocessingInfo"
        (W.infos.map fun i => Xml.elem "PreprocessingInfo" i.1 i.2) =
          W.infos.map fun i => .elem "PreprocessingInfo" i.1 i.2 := by
      refine List.filter_eq_self.mpr fun x hx => ?_
      rcases List.mem_map.mp hx with ⟨i, -, rfl⟩
      rfl
    simp [WhileLoop.children, WhileLoop.test, hall]
  rw [xevLoopInversion, named_whileLoop_test, named_whileLoop_block, List.flatMap_singleton,
    Xml.children_elem, hselect, execStmt, if_neg (by decide), if_pos rfl]
  have hcondition : ∀ xs : List Xml, (named "SgExprStatement" (W.test :: xs)).head? = some W.test :=
    fun _ => rfl
  simp only [List.cons_append, List.nil_append, hcondition,
    execBlocks_cons_of_not b n (by rfl : W.test.hasName "SgBasicBlock" = false)]
  have hloopAll : execAll b n [.elem "SgFortranDo" builtAttrs
      [nullExpression, nullExpression, nullExpression,
        basicBlock (elements W.body ++ [bottomTest [W.test], .elem "SgBreakStmt" [] []])]] =
      doRun [] (fun s => (execAll b n W.body s).andThen (bottomRun b W)) n := by
    funext s
    rw [execAll_singleton, hloop]
  rw [execBlocks_cons_basicBlock, execBlocks_cons_basicBlock, blockAt_zero, blockAt_one, hloopAll]
  rfl

/-- Whether none of the next `n` iterations of a loop is ended by a `CYCLE` for
    it, where the condition has just been found to hold. -/
def cycleFree (name : Text) (condition : Xml) (body : S → Result S) : Nat → S → Prop
  | 0, _ => True
  | n + 1, s =>
      match (body s).2 with
      | some (.next, s') =>
          (b.test condition s').1 = true →
            cycleFree name condition body n (b.test condition s').2
      | some (.cycle l, _) => ¬ (l = [] ∨ l = name)
      | _ => True

/-- Runs of a loop in which no iteration is ended by a `CYCLE` for it. -/
def WhileLoop.CycleFree (W : WhileLoop) (n : Nat) (s : S) : Prop :=
  (b.test W.test s).1 = true →
    cycleFree b W.name W.test (execAll b n W.body) n (b.test W.test s).2

variable {b n W} {body : S → Result S}

theorem Result.named_after (name : Text) (es : List Event) (r : Result S) :
    Result.named name (Result.after es r) = Result.after es (Result.named name r) := by
  rcases r with ⟨fs, _ | ⟨_ | _ | l | _, s⟩⟩
  · rfl
  · rfl
  · rfl
  · simp only [Result.named, Result.after]
    split <;> rfl
  · rfl

/-- What is left of a run when the condition has been found to hold. -/
def bodyRun (b : Behaviour S) (name : Text) (condition : Xml) (body : S → Result S) :
    Nat → S → Result S
  | 0, _ => ([], none)
  | m + 1, s => (body s).iterate name (whileRun b name condition body m)

theorem whileRun_of_test {name : Text} {condition : Xml} (m : Nat) {s : S}
    (h : (b.test condition s).1 = true) :
    whileRun b name condition body m s = Result.after [.test condition]
      (bodyRun b name condition body m (b.test condition s).2) := by
  cases m with
  | zero => rw [whileRun, if_pos h]; rfl
  | succ m => rw [whileRun, if_pos h]; rfl

theorem whileRun_of_not {name : Text} {condition : Xml} (m : Nat) {s : S}
    (h : ¬ (b.test condition s).1 = true) :
    whileRun b name condition body m s =
      ([.test condition], some (.next, (b.test condition s).2)) := by
  cases m with
  | zero => rw [whileRun, if_neg h]
  | succ m => rw [whileRun, if_neg h]

/-- After a test that succeeds the new loop does what the old one does. -/
theorem doRun_eq_iterate (m : Nat) (s : S) (hfree : cycleFree b W.name W.test body m s) :
    Result.named W.name (doRun [] (fun s => (body s).andThen (bottomRun b W)) m s) =
      bodyRun b W.name W.test body m s := by
  induction m generalizing s with
  | zero => rfl
  | succ m ih =>
      rw [doRun, bodyRun]
      rw [cycleFree] at hfree
      rcases hbody : body s with ⟨es, _ | ⟨_ | l | l | _, s'⟩⟩
      · -- A statement of the body does not come to an end.
        rfl
      · -- The body ends normally, and the test at the bottom is reached.
        rw [hbody] at hfree
        have hbottom : Result.andThen (es, some (.next, s')) (bottomRun b W) =
            Result.after es (bottomRun b W s') := rfl
        rw [hbottom, bottomRun]
        by_cases htest : (b.test W.test s').1 = true
        · have hnew : Result.iterate [] (Result.after es ([.test W.test],
              some (if (b.test W.test s').1 = true then .cycle [] else .leave [],
                (b.test W.test s').2)))
              (doRun [] (fun s => (body s).andThen (bottomRun b W)) m) =
              Result.after (es ++ [.test W.test])
                (doRun [] (fun s => (body s).andThen (bottomRun b W)) m (b.test W.test s').2) := by
            rw [if_pos htest]
            rfl
          have hold : Result.iterate W.name (es, some (.next, s'))
              (whileRun b W.name W.test body m) =
              Result.after es (whileRun b W.name W.test body m s') := rfl
          rw [hnew, Result.named_after, ih _ (hfree htest), hold, whileRun_of_test m htest,
            Result.after_after]
        · have hold : Result.iterate W.name (es, some (.next, s'))
              (whileRun b W.name W.test body m) =
              Result.after es (whileRun b W.name W.test body m s') := rfl
          rw [if_neg htest, hold, whileRun_of_not m htest]
          rfl
      · -- A `CYCLE` for another loop.
        rw [hbody] at hfree
        have hother : ¬ (l = [] ∨ l = []) := fun h => hfree (Or.inl (by simpa using h))
        simp only [Result.andThen, Result.iterate, Result.named, if_neg hfree, if_neg hother]
      · -- An `EXIT`, without a name, by the name of the loop, or for another one.
        simp only [Result.andThen, Result.iterate]
        by_cases hnone : l = []
        · rw [if_pos (Or.inl hnone), if_pos (Or.inl hnone)]
          rfl
        · rw [if_neg (by simpa using hnone)]
          by_cases hname : l = W.name
          · simp only [Result.named]
            rw [if_pos ⟨hname, hnone⟩, if_pos (Or.inr hname)]
          · simp only [Result.named]
            rw [if_neg fun h => hname h.1, if_neg fun h => h.elim hnone hname]
      · rfl

/-- Runs in which no iteration is ended by a `CYCLE` for the loop are preserved:
    the same conditions and statements in the same order, and the same end. -/
theorem inversion_correct (b : Behaviour S) (n : Nat) (W : WhileLoop) (s : S)
    (hfree : W.CycleFree b n s) :
    execStmt b n (xevLoopInversion W.attrs W.children) s = execStmt b n W.xml s := by
  rw [execStmt_xevLoopInversion, execStmt_whileLoop]
  by_cases htest : (b.test W.test s).1 = true
  · have hloop := doRun_eq_iterate n _ (hfree htest)
    rw [if_pos htest, Result.named_after, hloop, whileRun_of_test n htest]
  · rw [if_neg htest, whileRun_of_not n htest]
    rfl

end Loops

section Examples

/-- A statement that counts, and the condition that the count is zero. -/
def counting : Behaviour Nat where
  test _ s := (decide (s = 0), s)
  other _ s := some (.next, s + 1)

/-- The loop `do while (...)` around a statement and `cycle`. -/
def cyclingLoop : WhileLoop where
  attrs := []
  conditionAttrs := []
  condition := []
  blockAttrs := []
  body := [.elem "SgExprStatement" [] [], .elem "SgContinueStmt" [] []]
  infos := []

/-- The same loop without `cycle`. -/
def plainLoop : WhileLoop where
  attrs := []
  conditionAttrs := []
  condition := []
  blockAttrs := []
  body := [.elem "SgExprStatement" [] []]
  infos := []

/-- The loop ends after one iteration. The inverted loop, in which `cycle` skips
    the test, executes the statement until the bound is reached. -/
theorem cyclingLoop_not_preserved :
    (execStmt counting 3 cyclingLoop.xml 0).2 = some (.next, 1) ∧
      (execStmt counting 3 cyclingLoop.xml 0).1.length = 3 ∧
      (execStmt counting 3 (xevLoopInversion cyclingLoop.attrs cyclingLoop.children) 0).2 = none ∧
      (execStmt counting 3 (xevLoopInversion cyclingLoop.attrs cyclingLoop.children) 0).1.length =
        4 := by
  decide +kernel

theorem plainLoop_preserved :
    execStmt counting 3 (xevLoopInversion plainLoop.attrs plainLoop.children) 0 =
      execStmt counting 3 plainLoop.xml 0 :=
  inversion_correct counting 3 plainLoop 0 fun _ h => Bool.noConfusion h

end Examples

end XevXml
