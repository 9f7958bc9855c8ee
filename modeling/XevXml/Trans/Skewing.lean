import XevXml.Trans.Position

/-!
# Skewing

The rule shifts the range of a loop by the value of another variable, the
parameter `index`, and gives the index a new name. In the body the old index is
replaced by the difference of the new one and the parameter.

The names to be replaced are selected by `SgAssignOp/SgVarRefExp/@name`, and
the comparison is with all of them. If the lower bound is a variable, the body
may mention that variable, and then it is replaced by the difference as well.
This has its value in the first iteration only.

## Main definitions

* `skName`: The new name of the index.
* `skewReplace`: The replacement in the body.
* `xevLoopSkewing`: The rule.
* `SameIteration`: Iterations in which every expression has the same value.

## Theorems

* `loopRuns_xevLoopSkewing`: The blocks the new loop executes.
* `skewing_values_iff`: When each of them does what it did.
-/

namespace XevXml

section Rule

/-- The new name of the index. -/
def skName (x : Text) : Text := x ++ "_sk".toList

/-- What the index is replaced by. -/
def skewRef (old : List Text) (index : Text) : Xml :=
  .elem "SgSubtractOp" [] [varRef (skName (old.headD [])), varRef index]

mutual

/-- The text in a tree. -/
def Xml.content : Xml → Text
  | .elem _ _ cs => contents cs
  | .text t => t
  | .comment _ => []

/-- The text in a list of trees. -/
def contents : List Xml → Text
  | [] => []
  | x :: xs => x.content ++ contents xs

end

mutual

/-- The replacement in the body. Below a variable that is not replaced the names
    are read from children called `old`, of which there are none. -/
def skewReplace (index : Text) : List Text → Xml → Xml
  | old, .elem name attrs cs =>
      if name = "SgVarRefExp" then
        if (attrs.lookup "name").any (fun x => old.contains x) = true then skewRef old index
        else .elem name attrs (skewReplaceAll index ((named "old" cs).map Xml.content) cs)
      else .elem name attrs (skewReplaceAll index old cs)
  | _, .text t => .text t
  | _, .comment t => .comment t

/-- The replacement in a list of nodes. Comments are not copied. -/
def skewReplaceAll (index : Text) : List Text → List Xml → List Xml
  | _, [] => []
  | old, x :: xs =>
      if x.isComment = true then skewReplaceAll index old xs
      else skewReplace index old x :: skewReplaceAll index old xs

end

/-- The sum of the parameter and the selected bound. -/
def skewBound (index : Text) (bounds : List Xml) : Xml :=
  .elem "SgAddOp" [] (varRef index :: bounds)

/-- The rule, on the children of the loop. -/
def xevLoopSkewing (index : Text) (cs : List Xml) : Xml :=
  .elem "SgFortranDo" builtAttrs
    ([.elem "SgAssignOp" []
        [varRef (skName (indexName cs)), skewBound index (secondOfAssign cs)],
      skewBound index (nth 2 cs), nullExpression] ++
      skewReplaceAll index (attributes "name" (path ["SgAssignOp", "SgVarRefExp"] cs))
        (named "SgBasicBlock" cs))

end Rule

section Replace

variable (index : Text) (old : List Text)

theorem isElem_skewReplace (x : Xml) : (skewReplace index old x).isElem = x.isElem := by
  cases x with
  | elem name attrs cs =>
      rw [skewReplace]
      split
      · split <;> rfl
      · rfl
  | text t => rfl
  | comment t => rfl

theorem elements_skewReplaceAll (ns : List Xml) :
    elements (skewReplaceAll index old ns) = (elements ns).map (skewReplace index old) := by
  induction ns with
  | nil => rfl
  | cons n ns ih =>
      rw [skewReplaceAll]
      by_cases helem : n.isElem = true
      · rw [if_neg (not_isComment_of_isElem helem), elements_cons_of_isElem helem, List.map_cons,
          elements_cons_of_isElem (by rwa [isElem_skewReplace]), ih]
      · have hnone : elements (n :: ns) = elements ns := List.filter_cons_of_neg helem
        rw [hnone]
        split
        · exact ih
        · have hskip : elements (skewReplace index old n :: skewReplaceAll index old ns) =
              elements (skewReplaceAll index old ns) :=
            List.filter_cons_of_neg (by rwa [isElem_skewReplace])
          rw [hskip, ih]

/-- The rule for the body rewrites variables. -/
theorem rewrites_skewReplace : Rewrites (skewReplace index old) where
  copies name attrs cs hname :=
    ⟨_, by rw [skewReplace, if_neg hname], elements_skewReplaceAll index old cs⟩
  operand attrs cs := by
    rw [skewReplace, if_pos rfl]
    split <;> exact ⟨rfl, rfl, rfl⟩

variable (μ : Machine) (ρ : Env)

/-- The difference has the old value. -/
theorem eval_skewRef : eval μ ρ (skewRef old index) =
    eval μ ρ (varRef (skName (old.headD []))) - eval μ ρ (varRef index) := by
  rw [skewRef, eval_elem μ ρ _ _ (by decide) (by decide), operandsValues, operandsValues,
    operandsValues, operandValues_eq μ ρ rfl rfl, operandValues_eq μ ρ rfl rfl]
  simp [apply]

theorem eval_skewBound (e : Expr) :
    eval μ ρ (skewBound index [e.xml]) = eval μ ρ (varRef index) + eval μ ρ e.xml := by
  rw [skewBound, eval_elem μ ρ _ _ (by decide) (by decide), operandsValues, operandsValues,
    operandsValues, operandValues_eq μ ρ rfl rfl, operandValues_expr]
  simp [apply]

end Replace

section Runs

/-- Iterations of two loops in which every expression of the block has the same
    value, whatever the block has made of the variables it assigns. The second
    loop has a new index. -/
def SameIteration (μ : Machine) (assigned : List Text) (index fresh : Text) (r r' : Xml × Env) :
    Prop :=
  ∀ σ σ' : Env, Env.Agree assigned σ r.2 → Env.Agree assigned σ' r'.2 →
    Env.Agree [index, fresh] σ' σ → SameExpressions μ σ σ' r.1 r'.1

variable (μ : Machine) (ρ : Env) (L : DoLoop) (index : Text)

/-- The names that are replaced. -/
def oldNames : List Text := attributes "name" (path ["SgAssignOp", "SgVarRefExp"] L.children)

theorem mem_oldNames (y : Text) :
    y ∈ oldNames L ↔
      y = L.index ∨ (L.lower.isVar = true ∧ L.lower.attrs.lookup "name" = some y) := by
  rw [oldNames, path_var_children]
  by_cases hvar : L.lower.isVar = true
  · rw [if_pos hvar]
    cases hname : L.lower.attrs.lookup "name" with
    | none => simp [attributes, DoLoop.var, L.named, Expr.xml, hname]
    | some a => simp [attributes, DoLoop.var, L.named, Expr.xml, hvar, hname, eq_comm]
  · rw [if_neg hvar]
    simp [attributes, DoLoop.var, L.named, hvar]

theorem headD_oldNames : (oldNames L).headD [] = L.index := by
  rw [oldNames, path_var_children, attributes, List.filterMap_cons, DoLoop.var, Xml.attr_elem,
    L.named]
  rfl

/-- The new loop runs through the shifted range. -/
theorem loopRuns_xevLoopSkewing :
    loopRuns μ ρ (xevLoopSkewing index L.children) =
      (Progression.values (eval μ ρ L.lower.xml) (eval μ ρ L.upper.xml) 1).map fun v =>
        (skewReplace index (oldNames L) L.block,
          ρ.set (skName L.index) (v + eval μ ρ (varRef index))) := by
  have hblock : (skewReplace index (oldNames L) L.block).hasName "SgBasicBlock" = true := by
    rw [DoLoop.block, skewReplace, if_neg (by decide)]
    rfl
  have hbody : skewReplaceAll index (oldNames L) [L.block] =
      [skewReplace index (oldNames L) L.block] := by
    rw [DoLoop.block, skewReplaceAll, if_neg (by simp [Xml.isComment]), skewReplaceAll]
  have hrule : xevLoopSkewing index L.children = .elem "SgFortranDo" builtAttrs
      (.elem "SgAssignOp" [] [varRef (skName L.index), skewBound index [L.lower.xml]] ::
        skewBound index [L.upper.xml] :: nullExpression ::
          [skewReplace index (oldNames L) L.block]) := by
    rw [← hbody, oldNames, xevLoopSkewing, indexName_children, secondOfAssign_children,
      nth_two_children, named_children_block]
    rfl
  have hstride : strideValue μ ρ nullExpression = 1 := rfl
  rw [hrule, loopRuns_built μ ρ [] [] rfl rfl rfl rfl rfl hblock, eval_skewBound, eval_skewBound,
    hstride, Progression.values_add, List.map_map]
  rfl

/-- The environments of two loops with different indices. -/
theorem agree_renamed (ρ : Env) (index fresh : Text) (v w : Int) :
    Env.Agree [index, fresh] (ρ.set fresh w) (ρ.set index v) := by
  intro y hy
  have hindex : y ≠ index := fun h => hy (h ▸ List.mem_cons_self)
  have hfresh : y ≠ fresh := fun h => hy (h ▸ List.mem_cons_of_mem _ List.mem_cons_self)
  rw [Env.set_of_ne ρ w hfresh, Env.set_of_ne ρ v hindex]

variable {μ ρ L index} {assigned : List Text} {v : Int} {σ σ' : Env}

/-- In every iteration the difference has the old value of the index. -/
theorem eval_skewRef_of_agree (hindex : index ∉ assigned) (hne : index ≠ skName L.index)
    (hfresh : skName L.index ∉ assigned)
    (hσ' : Env.Agree assigned σ' (ρ.set (skName L.index) (v + eval μ ρ (varRef index)))) :
    eval μ σ' (skewRef (oldNames L) index) = v := by
  have hvalue : eval μ σ' (varRef index) = eval μ ρ (varRef index) := by
    rw [eval_varRef, hσ' index hindex, Env.set_of_ne ρ _ hne, ← eval_varRef]
  have hnew : eval μ σ' (varRef (skName L.index)) = v + eval μ ρ (varRef index) := by
    rw [eval_varRef, hσ' _ hfresh, Env.set_self, Option.getD_some]
  rw [eval_skewRef, headD_oldNames, hvalue, hnew]
  omega

/-- A variable that is replaced. -/
theorem skewReplace_of_mem {attrs : Attrs} {y : Text} (cs : List Xml)
    (hname : attrs.lookup "name" = some y) (hy : y ∈ oldNames L) :
    skewReplace index (oldNames L) (.elem "SgVarRefExp" attrs cs) = skewRef (oldNames L) index := by
  rw [skewReplace, if_pos rfl, if_pos (by simpa [hname] using hy)]

/-- A variable that is not replaced keeps its value. -/
theorem eval_skewReplace_of_not_mem {attrs : Attrs} (cs : List Xml)
    (hname : ∀ y, attrs.lookup "name" = some y → y ∉ oldNames L ∧ y ≠ skName L.index)
    (hagree : Env.Agree [L.index, skName L.index] σ' σ) :
    eval μ σ' (skewReplace index (oldNames L) (.elem "SgVarRefExp" attrs cs)) =
      eval μ σ (.elem "SgVarRefExp" attrs cs) := by
  have hkeep : ¬ (attrs.lookup "name").any (fun x => (oldNames L).contains x) = true := by
    cases hlookup : attrs.lookup "name" with
    | none => simp
    | some y => simpa using (hname y hlookup).1
  rw [skewReplace, if_pos rfl, if_neg hkeep]
  refine eval_varRefExp_congr μ _ _ fun y hlookup => hagree y fun hmem => ?_
  rcases List.mem_cons.mp hmem with heq | hmem
  · exact (hname y hlookup).1 ((mem_oldNames L y).mpr (Or.inl heq))
  · exact (hname y hlookup).2 (List.mem_singleton.mp hmem)

/-- The lower bound, if it is a variable. -/
theorem eval_lower_of_isVar {a : Text} (hvar : L.lower.isVar = true)
    (hname : L.lower.attrs.lookup "name" = some a) :
    eval μ ρ L.lower.xml = (ρ a).getD (μ.load a) := by
  have hxml : L.lower.xml = .elem "SgVarRefExp" L.lower.attrs L.lower.children := by
    rw [Expr.xml, beq_iff_eq.mp hvar]
  rw [hxml, eval_varRefExp μ ρ _ hname]

/-- The loops are compared iteration by iteration. -/
theorem forall₂_runs_skewed_iff (assigned : List Text)
    (hunit : strideValue μ ρ L.stride.xml = 1) :
    List.Forall₂ (SameIteration μ assigned L.index (skName L.index)) (runs μ 0 ρ L.xml)
        (runs μ 0 ρ (xevLoopSkewing index L.children)) ↔
      ∀ v ∈ L.values μ ρ, SameIteration μ assigned L.index (skName L.index)
        (L.block, ρ.set L.index v) (skewReplace index (oldNames L) L.block,
          ρ.set (skName L.index) (v + eval μ ρ (varRef index))) := by
  have hvalues : L.values μ ρ =
      Progression.values (eval μ ρ L.lower.xml) (eval μ ρ L.upper.xml) 1 := by
    rw [DoLoop.values_eq, hunit]
  rw [runs, runs, loopRuns_xml, loopRuns_xevLoopSkewing, ← hvalues, List.forall₂_map_left_iff,
    List.forall₂_map_right_iff, List.forall₂_same]

/-- An iteration is the same if a variable lower bound is not mentioned in the body, or there is
    a single iteration in which that variable keeps its value. -/
theorem sameIteration_skewed (hunit : strideValue μ ρ L.stride.xml = 1) (hindex : index ∉ assigned)
    (hown : L.index ∉ assigned) (hne : index ≠ skName L.index) (hfresh : skName L.index ∉ assigned)
    (hbody : mentions (skName L.index) L.block = false)
    (h : ∀ a, L.lower.isVar = true → L.lower.attrs.lookup "name" = some a →
      a = L.index ∨ mentions a L.block = false ∨ L.values μ ρ = [] ∨
        ((L.values μ ρ).length = 1 ∧ a ∉ assigned)) (hv : v ∈ L.values μ ρ) :
    SameIteration μ assigned L.index (skName L.index) (L.block, ρ.set L.index v)
      (skewReplace index (oldNames L) L.block,
        ρ.set (skName L.index) (v + eval μ ρ (varRef index))) := by
  have hvalues : L.values μ ρ =
      Progression.values (eval μ ρ L.lower.xml) (eval μ ρ L.upper.xml) 1 := by
    rw [DoLoop.values_eq, hunit]
  intro σ σ' hσ hσ' hagree
  have hvalue : ∀ y, y ∉ assigned → σ y = ρ.set L.index v y := hσ
  refine (rewrites_skewReplace index (oldNames L)).sameExpressions rfl fun p attrs cs hp => ?_
  by_cases hold : ∃ y, attrs.lookup "name" = some y ∧ y ∈ oldNames L
  · rcases hold with ⟨y, hname, hy⟩
    rw [skewReplace_of_mem cs hname hy, eval_skewRef_of_agree hindex hne hfresh hσ',
      eval_varRefExp μ σ cs hname]
    by_cases hself : y = L.index
    · rw [hself, hvalue _ hown, Env.set_self, Option.getD_some]
    · rcases (mem_oldNames L y).mp hy with heq | ⟨hvar, hlookup⟩
      · exact absurd heq hself
      · rcases h y hvar hlookup with heq | hnone | hempty | ⟨hone, hkept⟩
        · exact absurd heq hself
        · have hmention := mentions_of_exprAt hp hname
          rw [hnone] at hmention
          exact Bool.noConfusion hmention
        · rw [hempty] at hv
          exact absurd hv List.not_mem_nil
        · -- In the only iteration the index has the value of the bound.
          rw [hvalue y hkept, Env.set_of_ne ρ v hself, ← eval_lower_of_isVar hvar hlookup]
          rw [hvalues, Progression.length_values] at hone
          rw [hvalues, Progression.values_of_tripCount_one hone] at hv
          exact List.mem_singleton.mp hv
  · refine eval_skewReplace_of_not_mem cs (fun y hname => ⟨fun hy => hold ⟨y, hname, hy⟩, ?_⟩)
      hagree
    intro heq
    have hmention := mentions_of_exprAt hp hname
    rw [heq, hbody] at hmention
    exact Bool.noConfusion hmention

/-- Every iteration of the new loop does what the corresponding iteration of the
    old one did, exactly if the lower bound is not a variable the body mentions,
    or there is no iteration, or a single one in which that variable keeps its
    value. -/
theorem skewing_values_iff (assigned : List Text)
    (hunit : strideValue μ ρ L.stride.xml = 1) (hindex : index ∉ assigned)
    (hown : L.index ∉ assigned) (hne : index ≠ skName L.index) (hfresh : skName L.index ∉ assigned)
    (hbody : mentions (skName L.index) L.block = false) :
    List.Forall₂ (SameIteration μ assigned L.index (skName L.index)) (runs μ 0 ρ L.xml)
        (runs μ 0 ρ (xevLoopSkewing index L.children)) ↔
      ∀ a, L.lower.isVar = true → L.lower.attrs.lookup "name" = some a →
        a = L.index ∨ mentions a L.block = false ∨ L.values μ ρ = [] ∨
          ((L.values μ ρ).length = 1 ∧ a ∉ assigned) := by
  have hvalues : L.values μ ρ =
      Progression.values (eval μ ρ L.lower.xml) (eval μ ρ L.upper.xml) 1 := by
    rw [DoLoop.values_eq, hunit]
  rw [forall₂_runs_skewed_iff assigned hunit]
  constructor
  · intro h a hvar hname
    by_cases hdone : a = L.index ∨ mentions a L.block = false ∨ L.values μ ρ = []
    · rcases hdone with hself | hnone | hempty
      · exact Or.inl hself
      · exact Or.inr (Or.inl hnone)
      · exact Or.inr (Or.inr (Or.inl hempty))
    · simp only [not_or, Bool.not_eq_false] at hdone
      rcases hdone with ⟨hself, hmention, hnonempty⟩
      have hold : a ∈ oldNames L := (mem_oldNames L a).mpr (Or.inr ⟨hvar, hname⟩)
      have hsk : a ≠ skName L.index := by
        intro heq
        rw [heq, hbody] at hmention
        exact Bool.noConfusion hmention
      rcases exists_exprAt_of_mentions.1 _ hmention with ⟨p, attrs, cs, hp, hlookup⟩
      -- Where the body mentions the variable, it has the value of the index.
      have hforced : ∀ v ∈ L.values μ ρ, ∀ σ σ' : Env, Env.Agree assigned σ (ρ.set L.index v) →
          Env.Agree assigned σ' (ρ.set (skName L.index) (v + eval μ ρ (varRef index))) →
          Env.Agree [L.index, skName L.index] σ' σ → (σ a).getD (μ.load a) = v := by
        intro v hv σ σ' hσ hσ' hagree
        rcases h v hv σ σ' hσ hσ' hagree p _ hp with ⟨e', he', hvalue⟩
        rw [(rewrites_skewReplace index (oldNames L)).exprAt_eq hp, Option.some.injEq,
          skewReplace_of_mem cs hlookup hold] at he'
        rw [← he', eval_skewRef_of_agree hindex hne hfresh hσ', eval_varRefExp μ σ cs hlookup]
          at hvalue
        exact hvalue.symm
      have hkept : a ∉ assigned := by
        intro hassigned
        rcases List.exists_mem_of_ne_nil _ hnonempty with ⟨v, hv⟩
        have hvalue := hforced v hv ((ρ.set L.index v).set a (v + 1))
          ((ρ.set (skName L.index) (v + eval μ ρ (varRef index))).set a (v + 1))
          ((Env.Agree.refl _ _).set hassigned _) ((Env.Agree.refl _ _).set hassigned _)
          ((agree_renamed _ _ _ _ _).set_both a _)
        rw [Env.set_self, Option.getD_some] at hvalue
        omega
      have hfirst : ∀ v ∈ L.values μ ρ, v = eval μ ρ L.lower.xml := by
        intro v hv
        have hvalue := hforced v hv (ρ.set L.index v)
          (ρ.set (skName L.index) (v + eval μ ρ (varRef index))) (Env.Agree.refl _ _)
          (Env.Agree.refl _ _) (agree_renamed _ _ _ _ _)
        rw [Env.set_of_ne ρ v hself] at hvalue
        rw [eval_lower_of_isVar hvar hname, hvalue]
      refine Or.inr (Or.inr (Or.inr ⟨?_, hkept⟩))
      rw [hvalues] at hfirst hnonempty ⊢
      exact Progression.length_eq_one_of_forall hnonempty hfirst
  · intro h v hv
    exact sameIteration_skewed hunit hindex hown hne hfresh hbody h hv

end Runs

section Examples

/-- The loop `do j = a, 2` around the assignment `x = a`. -/
def loopReadsBound : DoLoop :=
  DoLoop.plain ['j'] (Expr.var ['a']) (Expr.int 2) Expr.null
    [.elem "SgExprStatement" [] [.elem "SgAssignOp" [] [varRef ['x'], varRef ['a']]]]

/-- The loop `do j = 1, 2` around the same statement. -/
def loopReadsOther : DoLoop :=
  DoLoop.plain ['j'] (Expr.int 1) (Expr.int 2) Expr.null
    [.elem "SgExprStatement" [] [.elem "SgAssignOp" [] [varRef ['x'], varRef ['a']]]]

/-- With `a` equal to one, the right side of the assignment has the values 1 and
    1 in the iterations of `loopReadsBound`, and 1 and 2 after skewing. -/
theorem loopReadsBound_not_preserved :
    ((runs (Machine.const 1) 0 (fun _ => none) loopReadsBound.xml).map fun r =>
        (exprAt [0, 0, 1] r.1).map (eval (Machine.const 1) r.2)) = [some 1, some 1] ∧
      ((runs (Machine.const 1) 0 (fun _ => none)
        (xevLoopSkewing ['i'] loopReadsBound.children)).map fun r =>
          (exprAt [0, 0, 1] r.1).map (eval (Machine.const 1) r.2)) = [some 1, some 2] := by
  decide +kernel

theorem loopReadsOther_preserved :
    List.Forall₂ (SameIteration (Machine.const 1) [['x']] ['j'] (skName ['j']))
      (runs (Machine.const 1) 0 (fun _ => none) loopReadsOther.xml)
      (runs (Machine.const 1) 0 (fun _ => none)
        (xevLoopSkewing ['i'] loopReadsOther.children)) := by
  have hunit : strideValue (Machine.const 1) (fun _ => none) loopReadsOther.stride.xml = 1 := rfl
  have hindex : ['i'] ∉ [['x']] := by decide
  exact (skewing_values_iff [['x']] hunit hindex (by decide) (by decide) (by decide) (by rfl)).mpr
    fun _ hvar _ => Bool.noConfusion hvar

end Examples

end XevXml
