import XevXml.Trans.Fission

/-!
# Unswitching

The rule puts the conditional statements of a loop body outside. It builds one
conditional statement with two copies of the loop, whose bodies begin with the
statements that are not conditional. The contents of all branches, the ones for
a condition that holds as well as the others, come next in the first loop, and
not at all in the second. The conditions of all conditional statements are
collected in one place, where only the first of them counts.

So the first branches come last, whatever stood behind them, and the other
branches are executed in the wrong case or not at all.

## Main definitions

* `xevLoopUnswitching`: The rule.
* `IfStmt`, `BodyItem`: Well-formed conditional statements, and bodies.
* `chosen`: What a statement executes, given the values of the conditions.
* `Switchable`: Bodies for which the rule is right.

## Theorems

* `loopInstances_xml`, `switched_xevLoopUnswitching`: What the old loop and the chosen one execute.
* `unswitching_iff`: When they execute the same.
-/

namespace XevXml

section Rule

/-- The rule for the statements of the body. -/
def xevLoopUnswitchingCopyStatement (x : Xml) : List Xml :=
  if x.hasName "SgIfStmt" = true then [] else [x]

/-- One of the new loops. -/
def unswitchedLoop (cs body : List Xml) : Xml :=
  basicBlock [.elem "SgFortranDo" builtAttrs
    (nth 1 cs ++ nth 2 cs ++ nth 3 cs ++ [basicBlock body])]

/-- The rule, on the children of the loop. -/
def xevLoopUnswitching (cs : List Xml) : Xml :=
  let kept := ((named "SgBasicBlock" cs).flatMap fun b => elements b.children).flatMap
    xevLoopUnswitchingCopyStatement
  .elem "SgIfStmt" [("end", ['1']), ("then", ['1'])]
    ([.elem "SgExprStatement" []
        ((path ["SgBasicBlock", "SgIfStmt", "SgExprStatement"] cs).flatMap
          fun c => elements c.children),
      unswitchedLoop cs (kept ++
        (path ["SgBasicBlock", "SgIfStmt", "SgBasicBlock"] cs).flatMap fun b =>
          elements b.children),
      unswitchedLoop cs kept] ++
      named "PreprocessingInfo" cs)

end Rule

section Bodies

/-- Well-formed conditional statements. -/
structure IfStmt where
  attrs : Attrs
  conditionAttrs : Attrs
  condition : Expr
  thenAttrs : Attrs
  thenBody : List Xml
  elsePart : Option (Attrs × List Xml)
  infos : List (Attrs × List Xml)

namespace IfStmt

variable (i : IfStmt)

/-- The statement that is the condition. -/
def test : Xml := .elem "SgExprStatement" i.conditionAttrs [i.condition.xml]

/-- The branches. -/
def branches : List Xml :=
  .elem "SgBasicBlock" i.thenAttrs i.thenBody ::
    (i.elsePart.map fun e => Xml.elem "SgBasicBlock" e.1 e.2).toList

/-- The children of the element. -/
def children : List Xml :=
  i.test :: (i.branches ++ i.infos.map fun e => Xml.elem "PreprocessingInfo" e.1 e.2)

/-- The element. -/
def xml : Xml := .elem "SgIfStmt" i.attrs i.children

/-- The statements for a condition that holds. -/
def thenStatements : List Xml := statements i.thenBody

/-- The other statements. -/
def elseStatements : List Xml := (i.elsePart.map fun e => statements e.2).getD []

end IfStmt

/-- The nodes of a body: conditional statements and others. -/
abbrev BodyItem := {x : Xml // x.hasName "SgIfStmt" = false} ⊕ IfStmt

/-- The node of an item. -/
def BodyItem.xml : BodyItem → Xml
  | .inl x => x.1
  | .inr i => i.xml

/-- The conditional statements of a body. -/
def conditionals (items : List BodyItem) : List IfStmt := items.filterMap Sum.getRight?

/-- The statements of a body that are not conditional. -/
def plainStatements (items : List BodyItem) : List Xml :=
  items.flatMap fun
    | .inl x => statements [x.1]
    | .inr _ => []

/-- The statements of a body with the branches for conditions that hold in
    their places. -/
def thenInPlace (items : List BodyItem) : List Xml :=
  items.flatMap fun
    | .inl x => statements [x.1]
    | .inr i => i.thenStatements

end Bodies

section Execution

/-- The expression that decides a conditional statement: the first one in its
    first condition. -/
def decisive (cs : List Xml) : Option Xml :=
  (named "SgExprStatement" cs).head?.bind fun c => (elements c.children).head?

/-- The statements a statement executes: itself, or the ones of the branch that
    is chosen by the value of the condition. -/
def chosen (truth : Xml → Bool) (x : Xml) : List Xml :=
  if x.hasName "SgIfStmt" = true then
    match decisive x.children with
    | some c =>
        statements (((named "SgBasicBlock" x.children)[if truth c = true then 0 else 1]?.map
          Xml.children).getD [])
    | none => [x]
  else statements [x]

/-- The statements of a body. -/
def executed (truth : Xml → Bool) (ns : List Xml) : List Xml := ns.flatMap (chosen truth)

/-- What a loop executes, with the values of its index. -/
def loopInstances (μ : Machine) (ρ : Env) (index : Text) (choose : List Xml → List Xml) (x : Xml) :
    List (Xml × Option Int) :=
  (runs μ 0 ρ x).flatMap fun r => (choose r.1.children).map fun s => (s, r.2 index)

/-- What is executed by the loops of the chosen branch of a conditional
    statement. -/
def switchedInstances (μ : Machine) (ρ : Env) (index : Text) (truth : Xml → Bool) (x : Xml) :
    List (Xml × Option Int) :=
  (chosen truth x).flatMap (loopInstances μ ρ index statements)

/-- Bodies for which the rule is right: there are no other branches, the
    conditional statements with another condition than the first one do nothing,
    and the branches may as well come at the end. -/
def Switchable (items : List BodyItem) : Prop :=
  (∀ i ∈ conditionals items, i.elseStatements = []) ∧
    (∀ i ∈ conditionals items, ∀ first ∈ (conditionals items).head?,
      i.condition.xml ≠ first.condition.xml → i.thenStatements = []) ∧
    plainStatements items ++ (conditionals items).flatMap IfStmt.thenStatements = thenInPlace items

variable (truth : Xml → Bool)

theorem named_ifStmt {name : String} (hname : name ≠ "PreprocessingInfo") (i : IfStmt) :
    named name i.children = named name (i.test :: i.branches) := by
  have hinfos : named name (i.infos.map fun e => Xml.elem "PreprocessingInfo" e.1 e.2) = [] := by
    refine List.filter_eq_nil_iff.mpr fun x hx => ?_
    rcases List.mem_map.mp hx with ⟨e, -, rfl⟩
    simp [Ne.symm hname]
  rw [IfStmt.children, ← List.cons_append, named_append, hinfos, List.append_nil]

theorem named_ifStmt_test (i : IfStmt) : named "SgExprStatement" i.children = [i.test] := by
  rw [named_ifStmt (by decide), IfStmt.branches, IfStmt.test]
  cases i.elsePart <;> simp

theorem named_ifStmt_block (i : IfStmt) : named "SgBasicBlock" i.children = i.branches := by
  rw [named_ifStmt (by decide), IfStmt.branches, IfStmt.test]
  cases i.elsePart <;> simp

/-- A conditional statement executes one of its branches. -/
theorem chosen_ifStmt (i : IfStmt) :
    chosen truth i.xml =
      if truth i.condition.xml = true then i.thenStatements else i.elseStatements := by
  have hdecisive : decisive i.children = some i.condition.xml := by
    rw [decisive, named_ifStmt_test]
    rfl
  rw [chosen, if_pos (by rfl), IfStmt.xml, Xml.children_elem, hdecisive, named_ifStmt_block]
  by_cases h : truth i.condition.xml = true
  · simp only [if_pos h]
    rfl
  · simp only [if_neg h, IfStmt.branches, IfStmt.elseStatements]
    cases i.elsePart <;> rfl

/-- The statements a body executes, item by item. -/
theorem executed_items (items : List BodyItem) :
    executed truth (items.map BodyItem.xml) = items.flatMap fun
      | .inl x => statements [x.1]
      | .inr i =>
          if truth i.condition.xml = true then i.thenStatements else i.elseStatements := by
  rw [executed, List.flatMap_map]
  congr 1
  funext item
  cases item with
  | inl x =>
      have hplain : ¬ x.1.hasName "SgIfStmt" = true := by simp [x.2]
      exact if_neg hplain
  | inr i => exact chosen_ifStmt truth i

theorem named_items (items : List BodyItem) :
    named "SgIfStmt" (items.map BodyItem.xml) = (conditionals items).map IfStmt.xml := by
  induction items with
  | nil => rfl
  | cons item items ih =>
      rw [List.map_cons, named_cons, ih]
      cases item with
      | inl x =>
          have hplain : ¬ (BodyItem.xml (.inl x)).hasName "SgIfStmt" = true := by
            simp [BodyItem.xml, x.2]
          rw [if_neg hplain]
          rfl
      | inr i => rfl

/-- Both loops begin with the statements that are not conditional. -/
theorem statements_kept (items : List BodyItem) :
    statements ((elements (items.map BodyItem.xml)).flatMap xevLoopUnswitchingCopyStatement) =
      plainStatements items := by
  have hnode : ∀ x : Xml, xevLoopUnswitchingCopyStatement x =
      [x].filter fun y => !y.hasName "SgIfStmt" := by
    intro x
    rw [xevLoopUnswitchingCopyStatement]
    by_cases h : x.hasName "SgIfStmt" = true <;> simp [h]
  induction items with
  | nil => rfl
  | cons item items ih =>
      rw [List.map_cons]
      cases item with
      | inl x =>
          have hplain : xevLoopUnswitchingCopyStatement x.1 = [x.1] := by
            rw [hnode]
            simp [x.2]
          have hitem : plainStatements (.inl x :: items) =
              statements [x.1] ++ plainStatements items := rfl
          rw [hitem, ← ih]
          by_cases helem : x.1.isElem = true
          · rw [BodyItem.xml, elements_cons_of_isElem helem, List.flatMap_cons, hplain,
              statements_append]
          · have hdrop : elements (x.1 :: items.map BodyItem.xml) =
                elements (items.map BodyItem.xml) := List.filter_cons_of_neg helem
            have hnone : statements [x.1] = [] := by
              rw [← statements_elements]
              have : elements [x.1] = [] := List.filter_cons_of_neg helem
              rw [this]
              rfl
            rw [BodyItem.xml, hdrop, hnone, List.nil_append]
      | inr i =>
          rw [show plainStatements (.inr i :: items) = plainStatements items from rfl, ← ih]
          rfl

end Execution

section Switched

variable (μ : Machine) (ρ : Env) (L : DoLoop) (truth : Xml → Bool) (items : List BodyItem)

/-- The branches the first loop gets. -/
def allBranches (items : List BodyItem) : List Xml :=
  (conditionals items).flatMap fun i => i.thenStatements ++ i.elseStatements

/-- The statements of one iteration of the loop that is chosen. -/
def switchedBody (truth : Xml → Bool) (items : List BodyItem) : List Xml :=
  plainStatements items ++
    if (conditionals items).head?.any (fun i => truth i.condition.xml) = true then
      allBranches items else []

theorem loopInstances_xml :
    loopInstances μ ρ L.index (executed truth) L.xml =
      (L.values μ ρ).flatMap fun v => (executed truth L.body).map fun s => (s, some v) := by
  rw [loopInstances, runs, loopRuns_xml, List.flatMap_map]
  simp only [Env.set_self]
  rfl

theorem loopRuns_unswitchedLoop (body : List Xml) :
    (unswitchedLoop L.children body).children.flatMap (loopRuns μ ρ) =
      (L.values μ ρ).map fun v => (basicBlock body, ρ.set L.index v) := by
  rw [unswitchedLoop, nth_one_children, nth_two_children, nth_three_children, basicBlock,
    Xml.children_elem, List.flatMap_singleton]
  exact loopRuns_built μ ρ [] [] (by rfl) L.named L.lower.isElem_xml L.upper.isOperand_xml
    L.stride.isOperand_xml (by rfl)

theorem loopInstances_unswitchedLoop (body : List Xml) :
    (statements (unswitchedLoop L.children body).children).flatMap
        (loopInstances μ ρ L.index statements) =
      (L.values μ ρ).flatMap fun v => (statements body).map fun s => (s, some v) := by
  have hloop : statements (unswitchedLoop L.children body).children =
      (unswitchedLoop L.children body).children := rfl
  have hinst : loopInstances μ ρ L.index statements = fun x =>
      (loopRuns μ ρ x).flatMap fun r => (statements r.1.children).map fun s => (s, r.2 L.index) :=
    rfl
  rw [hloop, hinst, ← List.flatMap_assoc, loopRuns_unswitchedLoop, List.flatMap_map]
  simp only [Env.set_self, basicBlock, Xml.children_elem]

variable {L items}

/-- The conditions, one behind the other. -/
theorem conditions_path (hbody : L.body = items.map BodyItem.xml) :
    (path ["SgBasicBlock", "SgIfStmt", "SgExprStatement"] L.children).flatMap
        (fun c => elements c.children) =
      (conditionals items).map fun i => i.condition.xml := by
  rw [path_cons_cons, named_children_block, List.flatMap_singleton, DoLoop.block,
    Xml.children_elem, path_cons_cons, hbody, named_items, List.flatMap_map, List.flatMap_assoc]
  have hone : ∀ i : IfStmt, (path ["SgExprStatement"] i.xml.children).flatMap
      (fun c => elements c.children) = [i.condition.xml] := by
    intro i
    rw [IfStmt.xml, Xml.children_elem, path, named_ifStmt_test]
    rfl
  simp only [hone]
  exact List.flatMap_pure_eq_map _ _

/-- The branches, one behind the other. -/
theorem branches_path (hbody : L.body = items.map BodyItem.xml) :
    statements ((path ["SgBasicBlock", "SgIfStmt", "SgBasicBlock"] L.children).flatMap
        fun b => elements b.children) =
      allBranches items := by
  rw [path_cons_cons, named_children_block, List.flatMap_singleton, DoLoop.block,
    Xml.children_elem, path_cons_cons, hbody, named_items, List.flatMap_map, List.flatMap_assoc,
    allBranches, statements, List.filter_flatMap]
  congr 1
  funext i
  have hpath : path ["SgBasicBlock"] i.xml.children = i.branches := by
    rw [IfStmt.xml, Xml.children_elem, path, named_ifStmt_block]
  have hpart : ∀ attrs cs, (elements (Xml.elem "SgBasicBlock" attrs cs).children).filter
      Xml.isStatement = statements cs := fun attrs cs => statements_elements cs
  rw [hpath, IfStmt.branches, List.flatMap_cons, List.filter_append, hpart,
    IfStmt.thenStatements, IfStmt.elseStatements]
  congr 1
  cases i.elsePart with
  | none => rfl
  | some e =>
      rw [Option.map_some, Option.toList_some, List.flatMap_singleton, hpart]
      rfl

/-- What is attached to the loop has no part in the choice. -/
theorem chosen_built {attrs : Attrs} {c : Xml} (hc : c.isElem = true)
    (cs onTrue onFalse ns : List Xml) :
    chosen truth (.elem "SgIfStmt" attrs
        ([.elem "SgExprStatement" [] (c :: cs), basicBlock onTrue, basicBlock onFalse] ++
          named "PreprocessingInfo" ns)) =
      statements (if truth c = true then onTrue else onFalse) := by
  have hinfos : ∀ name, name ≠ "PreprocessingInfo" →
      named name (named "PreprocessingInfo" ns) = [] := by
    intro name hne
    refine List.filter_eq_nil_iff.mpr fun x hx hname => ?_
    have hinfo := (List.mem_filter.mp hx).2
    cases x with
    | elem n attrs cs =>
        rw [Xml.hasName_elem, beq_iff_eq] at hname hinfo
        exact hne (hname.symm.trans hinfo)
    | text t => exact absurd hname (by simp [Xml.hasName])
    | comment t => exact absurd hname (by simp [Xml.hasName])
  have hdecisive : decisive ([.elem "SgExprStatement" [] (c :: cs), basicBlock onTrue,
      basicBlock onFalse] ++ named "PreprocessingInfo" ns) = some c := by
    rw [decisive, named_append, hinfos _ (by decide), List.append_nil]
    simp [basicBlock, elements_cons_of_isElem hc]
  have hblocks : named "SgBasicBlock" ([.elem "SgExprStatement" [] (c :: cs), basicBlock onTrue,
      basicBlock onFalse] ++ named "PreprocessingInfo" ns) =
        [basicBlock onTrue, basicBlock onFalse] := by
    rw [named_append, hinfos _ (by decide), List.append_nil]
    simp [basicBlock]
  rw [chosen, if_pos (by rfl), Xml.children_elem, hdecisive, hblocks]
  by_cases h : truth c = true
  · simp only [if_pos h]
    rfl
  · simp only [if_neg h]
    rfl

/-- What the loop of the chosen branch executes. -/
theorem switched_xevLoopUnswitching (hbody : L.body = items.map BodyItem.xml)
    (hsome : conditionals items ≠ []) :
    switchedInstances μ ρ L.index truth (xevLoopUnswitching L.children) =
      (L.values μ ρ).flatMap fun v => (switchedBody truth items).map fun s => (s, some v) := by
  rcases List.exists_cons_of_ne_nil hsome with ⟨first, rest, hfirst⟩
  have hkept : statements (((named "SgBasicBlock" L.children).flatMap fun b =>
      elements b.children).flatMap xevLoopUnswitchingCopyStatement) = plainStatements items := by
    rw [named_children_block, List.flatMap_singleton, DoLoop.block, Xml.children_elem, hbody,
      statements_kept]
  have hchosen : chosen truth (xevLoopUnswitching L.children) =
      statements (unswitchedLoop L.children (((named "SgBasicBlock" L.children).flatMap fun b =>
        elements b.children).flatMap xevLoopUnswitchingCopyStatement ++
          if truth first.condition.xml = true then
            (path ["SgBasicBlock", "SgIfStmt", "SgBasicBlock"] L.children).flatMap
              fun b => elements b.children
          else [])).children := by
    rw [xevLoopUnswitching, conditions_path hbody, hfirst]
    refine (chosen_built truth first.condition.isElem_xml (rest.map fun i => i.condition.xml) _ _
      L.children).trans ?_
    by_cases h : truth first.condition.xml = true
    · rw [if_pos h, if_pos h]
      rfl
    · rw [if_neg h, if_neg h, List.append_nil]
      rfl
  rw [switchedInstances, hchosen, loopInstances_unswitchedLoop, statements_append, hkept,
    switchedBody, hfirst, List.head?_cons, Option.any_some]
  by_cases h : truth first.condition.xml = true
  · rw [if_pos h, if_pos h, branches_path hbody]
  · rw [if_neg h, if_neg h]
    rfl

end Switched

section Lengths

variable (truth : Xml → Bool) (items : List BodyItem)

theorem conditionals_cons_inr (i : IfStmt) (items : List BodyItem) :
    conditionals (.inr i :: items) = i :: conditionals items := rfl

theorem plainStatements_cons_inl (x : {x : Xml // x.hasName "SgIfStmt" = false})
    (items : List BodyItem) :
    plainStatements (.inl x :: items) = statements [x.1] ++ plainStatements items := rfl

/-- The number of statements of a body is that of the statements outside the
    conditional ones and those of the chosen branches. -/
theorem length_executed :
    (executed truth (items.map BodyItem.xml)).length = (plainStatements items).length +
      ((conditionals items).map fun i =>
        if truth i.condition.xml = true then i.thenStatements.length
        else i.elseStatements.length).sum := by
  rw [executed_items]
  induction items with
  | nil => rfl
  | cons item items ih =>
      rw [List.flatMap_cons, List.length_append, ih]
      cases item with
      | inl x =>
          have hcond : conditionals (.inl x :: items) = conditionals items := rfl
          rw [plainStatements_cons_inl, hcond, List.length_append, Nat.add_assoc]
      | inr i =>
          have hplain : plainStatements (.inr i :: items) = plainStatements items := rfl
          rw [conditionals_cons_inr, hplain, List.map_cons, List.sum_cons]
          by_cases h : truth i.condition.xml = true
          · simp only [if_pos h]
            omega
          · simp only [if_neg h]
            omega

theorem length_allBranches :
    (allBranches items).length =
      ((conditionals items).map fun i => i.thenStatements.length).sum +
        ((conditionals items).map fun i => i.elseStatements.length).sum := by
  rw [allBranches, List.length_flatMap]
  simp only [List.length_append]
  exact List.sum_map_add

end Lengths

section Main

variable (μ : Machine) (ρ : Env) {L : DoLoop} {items : List BodyItem}

/-- Without other branches a body executes the branches of the conditions that
    hold. -/
theorem executed_of_else_nil (truth : Xml → Bool)
    (helse : ∀ i ∈ conditionals items, i.elseStatements = []) {f : IfStmt → List Xml}
    (hf : ∀ i ∈ conditionals items,
      (if truth i.condition.xml = true then i.thenStatements else []) = f i) :
    executed truth (items.map BodyItem.xml) = items.flatMap fun
      | .inl x => statements [x.1]
      | .inr i => f i := by
  rw [executed_items]
  refine List.flatMap_congr fun item hitem => ?_
  cases item with
  | inl x => rfl
  | inr i =>
      have hi : i ∈ conditionals items := List.mem_filterMap.mpr ⟨.inr i, hitem, rfl⟩
      simp only [← hf i hi, helse i hi]

/-- Where a body executes the same before and after, it is as it should be. -/
theorem switchable_of_forall (hsome : conditionals items ≠ [])
    (h : ∀ truth, switchedBody truth items = executed truth (items.map BodyItem.xml)) :
    Switchable items := by
  rcases List.exists_cons_of_ne_nil hsome with ⟨first, rest, hfirst⟩
  -- If no condition holds, the other branches would have to be executed.
  have helse : ∀ i ∈ conditionals items, i.elseStatements = [] := by
    have hlen := congrArg List.length (h fun _ => false)
    rw [length_executed, switchedBody, hfirst, List.head?_cons, Option.any_some, ← hfirst] at hlen
    simp only [Bool.false_eq_true, if_false, List.append_nil] at hlen
    intro i hi
    have hsum : ((conditionals items).map fun i => i.elseStatements.length).sum = 0 := by omega
    exact List.length_eq_zero_iff.mp
      (List.sum_eq_zero_iff_forall_eq_nat.mp hsum _ (List.mem_map_of_mem hi))
  have hall : allBranches items = (conditionals items).flatMap IfStmt.thenStatements := by
    refine List.flatMap_congr fun i hi => ?_
    rw [helse i hi, List.append_nil]
  refine ⟨helse, ?_, ?_⟩
  · -- If only the first condition holds, all branches are executed nevertheless.
    intro i hi other hother hne
    rw [hfirst, List.head?_cons, Option.mem_some_iff] at hother
    subst hother
    classical
    have hlen := congrArg List.length (h fun x => decide (x = first.condition.xml))
    rw [length_executed, switchedBody, hfirst, List.head?_cons, Option.any_some, ← hfirst,
      decide_eq_true rfl, if_pos rfl, List.length_append, length_allBranches] at hlen
    simp only [decide_eq_true_iff] at hlen
    by_contra hthen
    have hless : ((conditionals items).map fun i => if i.condition.xml = first.condition.xml then
        i.thenStatements.length else i.elseStatements.length).sum <
          ((conditionals items).map fun i => i.thenStatements.length).sum := by
      refine List.sum_lt_sum _ _ (fun j hj => ?_) ⟨i, hi, ?_⟩
      · rw [helse j hj, List.length_nil]
        by_cases hj' : j.condition.xml = first.condition.xml
        · rw [if_pos hj']
        · rw [if_neg hj']
          exact Nat.zero_le _
      · rw [if_neg hne, helse i hi, List.length_nil]
        exact List.length_pos_iff.mpr hthen
    omega
  · -- If all conditions hold, the branches come at the end.
    have htrue := h fun _ => true
    rw [executed_of_else_nil (fun _ => true) helse (f := IfStmt.thenStatements)
      (fun i _ => if_pos rfl), switchedBody, hfirst, List.head?_cons, Option.any_some, if_pos rfl,
      hall] at htrue
    exact htrue

/-- Where the rule is right, the chosen loop executes what the body does. -/
theorem switchedBody_of_switchable (hsome : conditionals items ≠ []) (h : Switchable items)
    (truth : Xml → Bool) : switchedBody truth items = executed truth (items.map BodyItem.xml) := by
  rcases List.exists_cons_of_ne_nil hsome with ⟨first, rest, hfirst⟩
  rcases h with ⟨helse, hother, horder⟩
  have hmem : first ∈ (conditionals items).head? := by rw [hfirst]; rfl
  by_cases htrue : truth first.condition.xml = true
  · have hall : allBranches items = (conditionals items).flatMap IfStmt.thenStatements := by
      refine List.flatMap_congr fun i hi => ?_
      rw [helse i hi, List.append_nil]
    rw [executed_of_else_nil truth helse (f := IfStmt.thenStatements), switchedBody, hfirst,
      List.head?_cons, Option.any_some, if_pos htrue, hall, horder]
    · rfl
    · intro i hi
      by_cases hi' : truth i.condition.xml = true
      · rw [if_pos hi']
      · have hne : i.condition.xml ≠ first.condition.xml := fun heq => hi' (by rw [heq, htrue])
        rw [if_neg hi', hother i hi first hmem hne]
  · rw [executed_of_else_nil truth helse (f := fun _ => []), switchedBody, hfirst,
      List.head?_cons, Option.any_some, if_neg htrue, List.append_nil]
    · rfl
    · intro i hi
      by_cases hi' : truth i.condition.xml = true
      · have hne : i.condition.xml ≠ first.condition.xml := fun heq => htrue (by rw [← heq, hi'])
        rw [if_pos hi', hother i hi first hmem hne]
      · rw [if_neg hi']

/-- For all values of the conditions the chosen loop executes what the old one
    does, exactly if there is no iteration or the body is one for which the rule
    is right. -/
theorem unswitching_iff (hbody : L.body = items.map BodyItem.xml)
    (hsome : conditionals items ≠ []) :
    (∀ truth : Xml → Bool,
      switchedInstances μ ρ L.index truth (xevLoopUnswitching L.children) =
        loopInstances μ ρ L.index (executed truth) L.xml) ↔
      L.values μ ρ = [] ∨ Switchable items := by
  have hinj : ∀ v : Int, Function.Injective fun s : Xml => (s, some v) :=
    fun _ _ _ h => congrArg Prod.fst h
  simp only [switched_xevLoopUnswitching μ ρ _ hbody hsome, loopInstances_xml, hbody]
  constructor
  · intro h
    by_cases hnone : L.values μ ρ = []
    · exact Or.inl hnone
    · exact Or.inr (switchable_of_forall hsome fun truth =>
        Progression.flatMap_map_inj hnone hinj (h truth))
  · intro h truth
    rcases h with hnone | hswitch
    · rw [hnone, List.flatMap_nil, List.flatMap_nil]
    · rw [switchedBody_of_switchable hsome hswitch]

end Main

section Examples

/-- A conditional statement with the given branches, on the variable `c`. -/
def onC (thenBody elseBody : List Xml) : IfStmt where
  attrs := []
  conditionAttrs := []
  condition := Expr.var ['c']
  thenAttrs := []
  thenBody := thenBody
  elsePart := some ([], elseBody)
  infos := []

/-- A body with an assignment in each branch. -/
def eitherWay : List BodyItem := [.inr (onC [assignTo ['a']] [assignTo ['b']])]

/-- The loop `do i = 1, 1` around it. -/
def eitherWayLoop : DoLoop :=
  DoLoop.plain ['i'] (Expr.int 1) (Expr.int 1) Expr.null (eitherWay.map BodyItem.xml)

/-- The other branch is not executed where it should, but where it should not. -/
theorem eitherWayLoop_not_kept :
    switchedInstances (Machine.const 0) (fun _ => none) ['i'] (fun _ => false)
        (xevLoopUnswitching eitherWayLoop.children) = [] ∧
      loopInstances (Machine.const 0) (fun _ => none) ['i'] (executed fun _ => false)
        eitherWayLoop.xml = [(assignTo ['b'], some 1)] ∧
      switchedInstances (Machine.const 0) (fun _ => none) ['i'] (fun _ => true)
        (xevLoopUnswitching eitherWayLoop.children) =
          [(assignTo ['a'], some 1), (assignTo ['b'], some 1)] ∧
      loopInstances (Machine.const 0) (fun _ => none) ['i'] (executed fun _ => true)
        eitherWayLoop.xml = [(assignTo ['a'], some 1)] := by
  exact ⟨rfl, rfl, rfl, rfl⟩

/-- The theorem for this loop, where the branches make the difference. -/
theorem unswitching_eitherWay :
    (∀ truth : Xml → Bool,
      switchedInstances (Machine.const 0) (fun _ => none) ['i'] truth
        (xevLoopUnswitching eitherWayLoop.children) =
        loopInstances (Machine.const 0) (fun _ => none) ['i'] (executed truth) eitherWayLoop.xml) ↔
      eitherWayLoop.values (Machine.const 0) (fun _ => none) = [] ∨ Switchable eitherWay := by
  have hbody : eitherWayLoop.body = eitherWay.map BodyItem.xml := rfl
  exact unswitching_iff (Machine.const 0) (fun _ => none) hbody (by simp [eitherWay, conditionals])

end Examples

end XevXml
