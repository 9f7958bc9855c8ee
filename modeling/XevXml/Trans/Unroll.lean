import XevXml.Trans.Same

/-!
# Unrolling

The rule looks for the loop over a variable. It makes the factor the stride of
the loop and puts copies of the body behind the body, in which the variable is
replaced by its sum with the number of the copy.

The old stride is dropped, nothing is done about a number of iterations that is
no multiple of the factor, and the loop is found by `SgAssignOp/SgVarRefExp`,
so also by a lower bound that is the variable. Blocks with a loop in them are
searched further and not copied. There are never more copies than elements in
the document, over which the rule counts them.

## Main definitions

* `loopUnrollBody`: One of the copies.
* `xevLoopUnroll`, `chillUnroll`: The rules.
* `unrolledRuns`: The runs of the body in the new loop.

## Theorems

* `runs_xevLoopUnroll`: The blocks the new loop executes.
* `HoldsBody.not_same`: Copies inside of nested loops make a difference.
* `unroll_values_iff`: When they run the body for the values of the old one.
-/

namespace XevXml

section Rule

/-- The number of copies the rule makes of a body, besides the body itself: the
    elements of the document whose position is below the factor are counted. -/
def furtherCopies (total factor : Nat) : Nat := min (factor - 1) total

/-- A parameter as a constant. -/
def paramVal (n : Nat) : Xml := .elem "SgIntVal" [("value", Numeral.printNat n)] []

mutual

/-- A copy of a statement. A variable without a name is compared with nothing,
    and is left out. -/
def loopUnrollBody (loopName : Text) (cnt : Nat) : Xml → List Xml
  | .elem name attrs cs =>
      if name = "SgVarRefExp" then
        match attrs.lookup "name" with
        | some x =>
            if x = loopName then
              [.elem "SgAddOp" [] [.elem name attrs cs, paramVal cnt]]
            else [.elem name attrs cs]
        | none => []
      else [.elem name attrs (loopUnrollBodies loopName cnt cs)]
  | .text t => [.text t]
  | .comment _ => []

/-- Copies of statements. -/
def loopUnrollBodies (loopName : Text) (cnt : Nat) : List Xml → List Xml
  | [] => []
  | x :: xs => loopUnrollBody loopName cnt x ++ loopUnrollBodies loopName cnt xs

end

/-- The copy with a number; the first one is made by the identity templates. -/
def unrolledCopy (loopName : Text) (ns : List Xml) (k : Nat) : List Xml :=
  if k = 0 then copiedAll (elements ns) else loopUnrollBodies loopName k (elements ns)

/-- The statements of a block and their copies. -/
def unrolledBlock (total factor : Nat) (loopName : Text) (ns : List Xml) : Xml :=
  basicBlock ((List.range (furtherCopies total factor + 1)).flatMap (unrolledCopy loopName ns))

/-- Whether the rule takes a loop for the one with the variable. -/
def selectsLoop (loopName : Text) (cs : List Xml) : Bool :=
  (attributes "name" (path ["SgAssignOp", "SgVarRefExp"] cs)).contains loopName

mutual

/-- The rule. -/
def xevLoopUnroll (total factor : Nat) (loopName : Text) : Xml → List Xml
  | .elem name attrs cs =>
      if name = "SgFortranDo" ∧ selectsLoop loopName cs = true then
        [.elem name attrs (nth 1 cs ++ nth 2 cs ++ [paramVal factor] ++
          xevLoopUnrollBlocks total factor loopName cs ++ named "PreprocessingInfo" cs)]
      else if name = "SgBasicBlock" ∧ named "SgFortranDo" cs = [] then
        [unrolledBlock total factor loopName cs]
      else [.elem name attrs (xevLoopUnrolls total factor loopName cs)]
  | .text t => [.text t]
  | .comment _ => []

/-- The rule on the nodes it is applied to. -/
def xevLoopUnrolls (total factor : Nat) (loopName : Text) : List Xml → List Xml
  | [] => []
  | x :: xs => xevLoopUnroll total factor loopName x ++ xevLoopUnrolls total factor loopName xs

/-- The rule on the blocks among the nodes. -/
def xevLoopUnrollBlocks (total factor : Nat) (loopName : Text) : List Xml → List Xml
  | [] => []
  | x :: xs =>
      (if x.hasName "SgBasicBlock" = true then xevLoopUnroll total factor loopName x else []) ++
        xevLoopUnrollBlocks total factor loopName xs

end

/-- The rule under its other name leaves a comment. -/
def chillUnroll (total factor : Nat) (loopName : Text) (x : Xml) : List Xml :=
  .comment "\n\t\t\tlibCHiLL.xsl chill_unroll\n\t\t".toList ::
    xevLoopUnroll total factor loopName x

end Rule

section Copies

mutual

/-- Whether all variables in a tree have a name. -/
def variablesNamed : Xml → Bool
  | .elem name attrs cs =>
      if name = "SgVarRefExp" then (attrs.lookup "name").isSome else allVariablesNamed cs
  | .text _ => true
  | .comment _ => true

/-- Whether all variables in a list of trees have a name. -/
def allVariablesNamed : List Xml → Bool
  | [] => true
  | x :: xs => variablesNamed x && allVariablesNamed xs

end

mutual

/-- Whether the rule takes no loop in a tree for the one with the variable. -/
def unselected (loopName : Text) : Xml → Bool
  | .elem name _ cs =>
      !(name == "SgFortranDo" && selectsLoop loopName cs) && allUnselected loopName cs
  | .text _ => true
  | .comment _ => true

/-- Whether the rule takes no loop in a list of trees for it. -/
def allUnselected (loopName : Text) : List Xml → Bool
  | [] => true
  | x :: xs => unselected loopName x && allUnselected loopName xs

end

/-- Only elements have variables in them. -/
theorem allVariablesNamed_elements (ns : List Xml) :
    allVariablesNamed (elements ns) = allVariablesNamed ns := by
  induction ns with
  | nil => rfl
  | cons n ns ih =>
      cases n with
      | elem name attrs cs => rw [elements_cons_elem, allVariablesNamed, allVariablesNamed, ih]
      | text t => exact ih
      | comment t => exact ih

variable {μ : Machine} {σ σ' : Env} {loopName : Text}

theorem eval_paramVal (μ : Machine) (ρ : Env) (n : Nat) : eval μ ρ (paramVal n) = n :=
  eval_intVal μ ρ [] (v := Int.ofNat n) rfl

/-- The sum of a variable and a number. -/
theorem eval_addParam {attrs : Attrs} (cs : List Xml) (k : Nat)
    (hname : attrs.lookup "name" = some loopName) :
    eval μ σ' (.elem "SgAddOp" [] [.elem "SgVarRefExp" attrs cs, paramVal k]) =
      (σ' loopName).getD (μ.load loopName) + k := by
  rw [eval_elem μ σ' _ _ (by decide) (by decide), operandsValues, operandsValues, operandsValues,
    operandValues_eq μ σ' rfl rfl, operandValues_eq μ σ' rfl rfl, eval_paramVal,
    eval_varRefExp μ σ' cs hname]
  simp [apply]

/-- A copy is the same, if the variable has the value of the sum. -/
theorem same_loopUnrollBody {k : Nat}
    (hown : (σ loopName).getD (μ.load loopName) = (σ' loopName).getD (μ.load loopName) + k)
    (hrest : ∀ y, y ≠ loopName → (σ' y).getD (μ.load y) = (σ y).getD (μ.load y)) :
    (∀ x : Xml, x.isElem = true → variablesNamed x = true →
        ∃ x', loopUnrollBody loopName k x = [x'] ∧ Same μ σ σ' x x') ∧
      ∀ xs, allVariablesNamed xs = true →
        Sames μ σ σ' xs (elements (loopUnrollBodies loopName k xs)) := by
  refine Xml.induct ?elem ?text ?comment ?nil ?cons
  case elem =>
    intro name attrs cs ih _ hnamed
    rw [variablesNamed] at hnamed
    rw [loopUnrollBody]
    by_cases hvar : name = "SgVarRefExp"
    · subst hvar
      rw [if_pos rfl] at hnamed ⊢
      rcases Option.isSome_iff_exists.mp hnamed with ⟨y, hname⟩
      simp only [hname]
      -- The variable of the loop becomes a sum; any other is the same in both places.
      by_cases hy : y = loopName
      · subst hy
        rw [if_pos rfl]
        refine ⟨_, rfl, ?_⟩
        rw [Same, if_pos rfl, eval_addParam cs k hname, eval_varRefExp μ σ cs hname, hown]
        exact ⟨rfl, rfl, rfl, rfl⟩
      · rw [if_neg hy]
        refine ⟨_, rfl, ?_⟩
        rw [Same, if_pos rfl, eval_varRefExp μ σ' cs hname, eval_varRefExp μ σ cs hname, hrest y hy]
        exact ⟨rfl, rfl, rfl, rfl⟩
    · rw [if_neg hvar] at hnamed ⊢
      refine ⟨_, rfl, ?_⟩
      rw [Same, if_neg hvar]
      exact ⟨attrs, _, rfl, Or.inl rfl, ih hnamed⟩
  case text =>
    intro t h
    exact Bool.noConfusion h
  case comment =>
    intro t h
    exact Bool.noConfusion h
  case nil =>
    intro _
    rw [loopUnrollBodies, elements_nil, Sames]
  case cons =>
    intro x xs hx ih hnamed
    rw [allVariablesNamed, Bool.and_eq_true] at hnamed
    rw [Sames, loopUnrollBodies, elements_append]
    by_cases helem : x.isElem = true
    · rcases hx helem hnamed.1 with ⟨x', hx', hsame⟩
      rw [if_pos helem, hx', elements_cons_of_isElem hsame.isElem.2]
      exact ⟨x', _, rfl, hsame, ih hnamed.2⟩
    · have hnone : elements (loopUnrollBody loopName k x) = [] := by
        cases x with
        | elem name attrs cs => exact absurd rfl helem
        | text t => rfl
        | comment t => rfl
      rw [if_neg helem, hnone, List.nil_append]
      exact ih hnamed.2

/-- With the factor one nothing happens but copying. -/
theorem same_xevLoopUnroll_one (total : Nat)
    (h : ∀ y, (σ' y).getD (μ.load y) = (σ y).getD (μ.load y)) :
    (∀ x : Xml, x.isElem = true → unselected loopName x = true →
        ∃ x', xevLoopUnroll total 1 loopName x = [x'] ∧ Same μ σ σ' x x') ∧
      ∀ xs, allUnselected loopName xs = true →
        Sames μ σ σ' xs (elements (xevLoopUnrolls total 1 loopName xs)) := by
  refine Xml.induct ?elem ?text ?comment ?nil ?cons
  case elem =>
    intro name attrs cs ih _ hfree
    rw [unselected, Bool.and_eq_true, Bool.not_eq_true', Bool.and_eq_false_iff] at hfree
    have hnot : ¬ (name = "SgFortranDo" ∧ selectsLoop loopName cs = true) := by
      intro hsel
      rcases hfree.1 with hname | hselect
      · exact absurd hsel.1 (by simpa using hname)
      · rw [hsel.2] at hselect
        exact Bool.noConfusion hselect
    rw [xevLoopUnroll, if_neg hnot]
    by_cases hplain : name = "SgBasicBlock" ∧ named "SgFortranDo" cs = []
    · rw [if_pos hplain]
      refine ⟨_, rfl, ?_⟩
      -- With a factor of one the block is copied once, without a sum in it.
      have hcopies : (List.range (furtherCopies total 1 + 1)).flatMap (unrolledCopy loopName cs) =
          copiedAll (elements cs) := by
        have hone : furtherCopies total 1 + 1 = 1 := by simp [furtherCopies]
        rw [hone, List.range_one, List.flatMap_singleton, unrolledCopy, if_pos rfl]
      have hparts := (sames_iff _ _).mp ((same_copied h).2 (elements cs))
      rw [elements_elements] at hparts
      rw [hplain.1, Same, if_neg (by decide), unrolledBlock, basicBlock, hcopies]
      exact ⟨[], _, rfl, Or.inr rfl, (sames_iff _ _).mpr hparts⟩
    · rw [if_neg hplain]
      refine ⟨_, rfl, ?_⟩
      rw [Same]
      by_cases hvar : name = "SgVarRefExp"
      · subst hvar
        rw [if_pos rfl]
        exact ⟨rfl, rfl, rfl, eval_varRefExp_of_getD _ _ h⟩
      · rw [if_neg hvar]
        exact ⟨attrs, _, rfl, Or.inl rfl, ih hfree.2⟩
  case text =>
    intro t h
    exact Bool.noConfusion h
  case comment =>
    intro t h
    exact Bool.noConfusion h
  case nil =>
    intro _
    rw [xevLoopUnrolls, elements_nil, Sames]
  case cons =>
    intro x xs hx ih hfree
    rw [allUnselected, Bool.and_eq_true] at hfree
    rw [Sames, xevLoopUnrolls, elements_append]
    by_cases helem : x.isElem = true
    · rcases hx helem hfree.1 with ⟨x', hx', hsame⟩
      rw [if_pos helem, hx', elements_cons_of_isElem hsame.isElem.2]
      exact ⟨x', _, rfl, hsame, ih hfree.2⟩
    · have hnone : elements (xevLoopUnroll total 1 loopName x) = [] := by
        cases x with
        | elem name attrs cs => exact absurd rfl helem
        | text t => rfl
        | comment t => rfl
      rw [if_neg helem, hnone, List.nil_append]
      exact ih hfree.2

end Copies

section Runs

/-- A run of a body: its statements, the environment, and the value that stands
    for the index. -/
structure BodyRun where
  nodes : List Xml
  env : Env
  value : Int

variable (μ : Machine) (ρ : Env) (total factor : Nat) (loopName : Text) (L : DoLoop)

/-- The copies of the body that are in the new loop, with their numbers. With a
    loop in it the body is not copied. -/
def unrolledPieces : List (List Xml × Nat) :=
  if named "SgFortranDo" L.body = [] then
    (List.range (furtherCopies total factor + 1)).map fun k => (unrolledCopy loopName L.body k, k)
  else [(xevLoopUnrolls total factor loopName L.body, 0)]

/-- The block of the new loop. -/
def unrolledBody : Xml :=
  if named "SgFortranDo" L.body = [] then unrolledBlock total factor loopName L.body
  else .elem "SgBasicBlock" L.blockAttrs (xevLoopUnrolls total factor loopName L.body)

/-- The values of the index in the new loop. -/
def unrolledValues : List Int :=
  Progression.values (eval μ ρ L.lower.xml) (eval μ ρ L.upper.xml) factor

/-- The runs of the body in one iteration of the new loop. What a copy has in the
    place of the index tells for which value it is run. -/
def unrolledRuns (w : Int) : List BodyRun :=
  (unrolledPieces total factor loopName L).map fun p =>
    { nodes := p.1, env := ρ.set L.index w,
      value := (operandsValues μ (ρ.set L.index w) (unrolledCopy loopName [L.var] p.2)).headD 0 }

/-- The blocks that are executed consist of the given runs. -/
def ConsistOf (blocks : List (Xml × Env)) (groups : List (List BodyRun)) : Prop :=
  List.Forall₂ (fun b g => b.1.children = g.flatMap BodyRun.nodes ∧ ∀ r ∈ g, r.env = b.2)
    blocks groups

/-- A run of the body does what the body does for a value of its index, whatever
    it has made of the variables it assigns. -/
def RunsFor (assigned : List Text) (r : BodyRun) (v : Int) : Prop :=
  r.value = v ∧ ∀ σ σ' : Env, Env.Agree assigned σ (ρ.set L.index v) → Env.Agree assigned σ' r.env →
    Env.Agree [L.index] σ' σ → List.Forall₂ (Same μ σ σ') (elements L.body) (elements r.nodes)

/-- Loops that run the body of another one for the values of its index. -/
def RunsBody (assigned : List Text) (loops : List Xml) : Prop :=
  ConsistOf (loops.flatMap (runs μ 0 ρ))
      ((unrolledValues μ ρ factor L).map (unrolledRuns μ ρ total factor loopName L)) ∧
    List.Forall₂ (RunsFor μ ρ L assigned)
      ((unrolledValues μ ρ factor L).flatMap (unrolledRuns μ ρ total factor loopName L))
      (L.values μ ρ)

theorem xevLoopUnrollBlocks_eq (cs : List Xml) :
    xevLoopUnrollBlocks total factor loopName cs =
      (named "SgBasicBlock" cs).flatMap (xevLoopUnroll total factor loopName) := by
  induction cs with
  | nil => rfl
  | cons x cs ih =>
      rw [xevLoopUnrollBlocks, ih, named_cons]
      by_cases hx : x.hasName "SgBasicBlock" = true
      · rw [if_pos hx, if_pos hx, List.flatMap_cons]
      · rw [if_neg hx, if_neg hx, List.nil_append]

theorem xevLoopUnroll_block :
    xevLoopUnroll total factor loopName L.block = [unrolledBody total factor loopName L] := by
  rw [DoLoop.block, xevLoopUnroll, if_neg (by simp), unrolledBody]
  by_cases h : named "SgFortranDo" L.body = []
  · rw [if_pos ⟨rfl, h⟩, if_pos h]
  · rw [if_neg (fun hand => h hand.2), if_neg h]

theorem children_unrolledBody :
    (unrolledBody total factor loopName L).children =
      (unrolledPieces total factor loopName L).flatMap Prod.fst := by
  rw [unrolledBody, unrolledPieces]
  by_cases h : named "SgFortranDo" L.body = []
  · rw [if_pos h, if_pos h, List.flatMap_map]
    rfl
  · rw [if_neg h, if_neg h, List.flatMap_singleton]
    rfl

/-- The new loop. -/
theorem xevLoopUnroll_xml (hsel : selectsLoop loopName L.children = true) :
    xevLoopUnroll total factor loopName L.xml =
      [.elem "SgFortranDo" L.attrs (L.init :: L.upper.xml :: paramVal factor ::
        unrolledBody total factor loopName L :: L.infoList)] := by
  rw [DoLoop.xml, xevLoopUnroll, if_pos ⟨rfl, hsel⟩, nth_one_children, nth_two_children,
    xevLoopUnrollBlocks_eq, named_children_block, List.flatMap_singleton, xevLoopUnroll_block,
    named_children_info]
  rfl

/-- The blocks the new loop executes. -/
theorem runs_xevLoopUnroll (hsel : selectsLoop loopName L.children = true) :
    (xevLoopUnroll total factor loopName L.xml).flatMap (runs μ 0 ρ) =
      (unrolledValues μ ρ factor L).map fun w =>
        (unrolledBody total factor loopName L, ρ.set L.index w) := by
  have hblock : (unrolledBody total factor loopName L).hasName "SgBasicBlock" = true := by
    rw [unrolledBody]
    split <;> rfl
  have hstride : strideValue μ ρ (paramVal factor) = factor := by
    rw [strideValue, if_neg (by simp [paramVal]), eval_paramVal]
  rw [xevLoopUnroll_xml _ _ _ _ hsel, List.flatMap_singleton, runs, unrolledValues, ← hstride]
  exact loopRuns_built μ ρ [] L.infoList (by rfl) L.named L.lower.isElem_xml L.upper.isOperand_xml
    (by rfl) hblock

theorem runs_chillUnroll (hsel : selectsLoop loopName L.children = true) :
    (chillUnroll total factor loopName L.xml).flatMap (runs μ 0 ρ) =
      (unrolledValues μ ρ factor L).map fun w =>
        (unrolledBody total factor loopName L, ρ.set L.index w) := by
  rw [chillUnroll, List.flatMap_cons, runs_xevLoopUnroll μ ρ total factor loopName L hsel]
  rfl

theorem consistOf_unrolledRuns :
    ConsistOf ((unrolledValues μ ρ factor L).map fun w =>
        (unrolledBody total factor loopName L, ρ.set L.index w))
      ((unrolledValues μ ρ factor L).map (unrolledRuns μ ρ total factor loopName L)) := by
  rw [ConsistOf, List.forall₂_map_left_iff, List.forall₂_map_right_iff, List.forall₂_same]
  intro w _
  refine ⟨?_, fun r hr => ?_⟩
  · rw [children_unrolledBody, unrolledRuns, List.flatMap_map]
  · rcases List.mem_map.mp hr with ⟨p, -, rfl⟩
    rfl

/-- What stands for the index in a copy. -/
theorem value_unrolledCopy (w : Int) (k : Nat) :
    (operandsValues μ (ρ.set L.index w) (unrolledCopy loopName [L.var] k)).headD 0 =
      w + if loopName = L.index then (k : Int) else 0 := by
  have hindex : ∀ cs, eval μ (ρ.set L.index w) (.elem "SgVarRefExp" L.varAttrs cs) = w := by
    intro cs
    rw [eval_varRefExp _ _ cs L.named, Env.set_self, Option.getD_some]
  have hone : ∀ x : Xml, x.isElem = true → x.hasName "SgExprListExp" = false →
      (operandsValues μ (ρ.set L.index w) [x]).headD 0 = eval μ (ρ.set L.index w) x := by
    intro x hx hlist
    rw [operandsValues, operandsValues, operandValues_eq _ _ hx hlist]
    rfl
  rw [unrolledCopy]
  by_cases hk : k = 0
  · have hcopy : copiedAll (elements [L.var]) = [L.var.copied] := by
      rw [DoLoop.var, elements_cons_elem, elements_nil, copiedAll_elem_cons, copiedAll_nil]
    rw [if_pos hk, hcopy, hone _ (by rw [isElem_copied]; rfl) (by rw [hasName_copied]; rfl),
      eval_copied, DoLoop.var, hindex, hk]
    simp
  · rw [if_neg hk, DoLoop.var, elements_cons_elem, elements_nil, loopUnrollBodies, loopUnrollBodies,
      List.append_nil, loopUnrollBody, if_pos rfl]
    simp only [L.named]
    by_cases hname : L.index = loopName
    · rw [if_pos hname, if_pos hname.symm, hone _ rfl rfl,
        eval_addParam _ k (hname ▸ L.named), ← hname, Env.set_self, Option.getD_some]
    · rw [if_neg hname, if_neg (fun h => hname h.symm), hone _ rfl rfl, hindex, add_zero]

end Runs

section Main

variable {μ : Machine} {ρ : Env} {total factor : Nat} {loopName : Text} {L : DoLoop}
  {assigned : List Text}

/-- The number of copies of the body in the new loop. -/
def pieceCount (total factor : Nat) (L : DoLoop) : Nat :=
  if named "SgFortranDo" L.body = [] then furtherCopies total factor + 1 else 1

/-- The values for which the body is run. -/
theorem map_value_unrolledRuns (μ : Machine) (ρ : Env) (total factor : Nat) (loopName : Text)
    (L : DoLoop) :
    ((unrolledValues μ ρ factor L).flatMap (unrolledRuns μ ρ total factor loopName L)).map
        BodyRun.value =
      (unrolledValues μ ρ factor L).flatMap fun w =>
        (List.range (pieceCount total factor L)).map fun k : Nat =>
          w + if loopName = L.index then (k : Int) else 0 := by
  rw [List.map_flatMap]
  refine List.flatMap_congr fun w _ => ?_
  rw [unrolledRuns, unrolledPieces, pieceCount]
  by_cases h : named "SgFortranDo" L.body = []
  · rw [if_pos h, if_pos h, List.map_map, List.map_map]
    refine List.map_congr_left fun k _ => ?_
    exact value_unrolledCopy μ ρ loopName L w k
  · rw [if_neg h, if_neg h, List.range_one, List.map_singleton, List.map_singleton,
      List.map_singleton]
    exact congrArg (fun v => [v]) (value_unrolledCopy μ ρ loopName L w 0)

/-- Every run of the body does what the body does for the value of the run. -/
theorem runsFor_unrolledRuns (hown : L.index ∉ assigned)
    (hnamed : 0 < furtherCopies total factor → allVariablesNamed L.body = true)
    (hkind : named "SgFortranDo" L.body = [] ∨
      factor = 1 ∧ allUnselected loopName L.body = true)
    (hname : loopName = L.index ∨ pieceCount total factor L = 1) {w : Int} {r : BodyRun}
    (hr : r ∈ unrolledRuns μ ρ total factor loopName L w) : RunsFor μ ρ L assigned r r.value := by
  rcases List.mem_map.mp hr with ⟨p, hp, rfl⟩
  refine ⟨rfl, fun σ σ' hσ hσ' hagree => ?_⟩
  have hindex : (σ L.index).getD (μ.load L.index) =
      w + if loopName = L.index then (p.2 : Int) else 0 := by
    rw [hσ _ hown, Env.set_self, Option.getD_some]
    exact value_unrolledCopy μ ρ loopName L w p.2
  have hindex' : (σ' L.index).getD (μ.load L.index) = w := by
    rw [hσ' _ hown]
    exact congrArg (fun v => Option.getD v _) (Env.set_self ρ L.index w)
  have hother : ∀ y, y ≠ L.index → (σ' y).getD (μ.load y) = (σ y).getD (μ.load y) := by
    intro y hy
    rw [hagree y (by simpa using hy)]
  have hzero : p.2 = 0 → ∀ y, (σ' y).getD (μ.load y) = (σ y).getD (μ.load y) := by
    intro hp0 y
    by_cases hy : y = L.index
    · rw [hy, hindex, hindex', hp0]
      simp
    · exact hother y hy
  rw [unrolledPieces] at hp
  by_cases hplain : named "SgFortranDo" L.body = []
  · rw [if_pos hplain] at hp
    rcases List.mem_map.mp hp with ⟨k, hk, rfl⟩
    have hlist : List.Forall₂ (Same μ σ σ') (elements (elements L.body))
        (elements (unrolledCopy loopName L.body k)) := by
      rw [unrolledCopy, ← sames_iff]
      by_cases hk0 : k = 0
      · rw [if_pos hk0]
        exact (same_copied (hzero hk0)).2 _
      · -- There is a second copy, so it is made for the index.
        have hlt := List.mem_range.mp hk
        have hself : loopName = L.index := by
          refine hname.resolve_right fun hone => ?_
          rw [pieceCount, if_pos hplain] at hone
          omega
        rw [if_neg hk0, hself]
        refine (same_loopUnrollBody ?_ hother).2 _ ?_
        · rw [hindex, hindex', if_pos hself]
        · rw [allVariablesNamed_elements]
          exact hnamed (by omega)
    rwa [elements_elements] at hlist
  · rw [if_neg hplain, List.mem_singleton] at hp
    subst hp
    rcases hkind.resolve_left hplain with ⟨rfl, hfree⟩
    exact (sames_iff _ _).mp ((same_xevLoopUnroll_one total (hzero rfl)).2 _ hfree)

/-- A loop that runs several copies for the same value does not have the values
    of a loop. -/
theorem repeated_ne_values {c : Nat} (hc : 1 < c) {ws : List Int} (hne : ws ≠ []) (a b s : Int) :
    (ws.flatMap fun w => (List.range c).map fun _ : Nat => w) ≠ Progression.values a b s := by
  intro h
  have hnodup := Progression.nodup_values a b s
  rw [← h] at hnodup
  rcases List.exists_mem_of_ne_nil _ hne with ⟨w, hw⟩
  have hrow := (List.nodup_flatMap.mp hnodup).1 w hw
  rw [List.map_const', List.nodup_replicate, List.length_range] at hrow
  omega

/-- Nested loops whose innermost body is not empty. -/
inductive HoldsBody : Xml → Prop
  | plain (M : DoLoop) {x : Xml} (hplain : named "SgFortranDo" M.body = []) (hmem : x ∈ M.body)
      (helem : x.isElem = true) (hvar : x.hasName "SgVarRefExp" = false) : HoldsBody M.xml
  | nested (M : DoLoop) {x : Xml} (hmem : x ∈ M.body) (h : HoldsBody x) : HoldsBody M.xml

theorem HoldsBody.isLoop {x : Xml} (h : HoldsBody x) : x.hasName "SgFortranDo" = true := by
  cases h <;> rfl

/-- The rule makes one element of an element. -/
theorem xevLoopUnroll_elem (total factor : Nat) (loopName : Text) (name : String) (attrs : Attrs)
    (cs : List Xml) :
    ∃ attrs' cs', xevLoopUnroll total factor loopName (.elem name attrs cs) =
      [.elem name attrs' cs'] := by
  rw [xevLoopUnroll]
  by_cases hloop : name = "SgFortranDo" ∧ selectsLoop loopName cs = true
  · rw [if_pos hloop]
    exact ⟨attrs, _, rfl⟩
  · rw [if_neg hloop]
    by_cases hblock : name = "SgBasicBlock" ∧ named "SgFortranDo" cs = []
    · rw [if_pos hblock, hblock.1]
      exact ⟨[], _, rfl⟩
    · rw [if_neg hblock]
      exact ⟨attrs, _, rfl⟩

/-- Whether the loop is the one with the variable or not, its block becomes the
    fourth element. -/
theorem fourth_xevLoopUnroll (M : DoLoop) {x' : Xml}
    (h : xevLoopUnroll total factor loopName M.xml = [x']) :
    (elements x'.children)[3]? = some (unrolledBody total factor loopName M) := by
  have hblock : (unrolledBody total factor loopName M).isElem = true := by
    rw [unrolledBody]
    split <;> rfl
  by_cases hsel : selectsLoop loopName M.children = true
  · rw [xevLoopUnroll_xml _ _ _ _ hsel, List.cons.injEq] at h
    rw [← h.1, Xml.children_elem, DoLoop.init, paramVal, elements_cons_elem,
      elements_cons_of_isElem M.upper.isElem_xml, elements_cons_elem, elements_cons_of_isElem
        hblock]
    rfl
  · have hloop : xevLoopUnroll total factor loopName M.xml =
        [.elem "SgFortranDo" M.attrs (xevLoopUnrolls total factor loopName M.children)] := by
      rw [DoLoop.xml, xevLoopUnroll, if_neg (fun hand => hsel hand.2), if_neg (by simp)]
    rw [hloop, List.cons.injEq] at h
    rcases xevLoopUnroll_elem total factor loopName
      "SgAssignOp" M.initAttrs [M.var, M.lower.xml] with ⟨_, _, hinit⟩
    rcases xevLoopUnroll_elem total factor loopName
      M.upper.name M.upper.attrs M.upper.children with ⟨_, _, hupper⟩
    rcases xevLoopUnroll_elem total factor loopName
      M.stride.name M.stride.attrs M.stride.children with ⟨_, _, hstride⟩
    rw [← h.1, Xml.children_elem, DoLoop.children, xevLoopUnrolls, xevLoopUnrolls, xevLoopUnrolls,
      xevLoopUnrolls, DoLoop.init, hinit, Expr.xml, hupper, Expr.xml, hstride, xevLoopUnroll_block]
    simp only [List.cons_append, List.nil_append, elements_cons_elem]
    rw [elements_cons_of_isElem hblock]
    rfl

variable {σ σ' : Env}

/-- What is the same after the rule has been applied has the same body. -/
theorem sames_body_of_same (M : DoLoop) {x' : Xml}
    (hx' : xevLoopUnroll total factor loopName M.xml = [x']) (h : Same μ σ σ' M.xml x') :
    Sames μ σ σ' M.body (elements (unrolledBody total factor loopName M).children) := by
  have hfourth := fourth_xevLoopUnroll M hx'
  rw [DoLoop.xml, Same, if_neg (by decide)] at h
  rcases h with ⟨attrs', cs', rfl, -, hparts⟩
  rw [sames_iff, elements_children] at hparts
  rw [Xml.children_elem] at hfourth
  have hblock : Same μ σ σ' M.block (unrolledBody total factor loopName M) := by
    have hlt : 3 < (elements cs').length := (List.getElem?_eq_some_iff.mp hfourth).1
    have hget : (elements cs')[3] = unrolledBody total factor loopName M :=
      (List.getElem?_eq_some_iff.mp hfourth).2
    rw [← hget]
    exact hparts.get (i := 3) (by rw [hparts.length_eq]; exact hlt) hlt
  rw [DoLoop.block, Same, if_neg (by decide)] at hblock
  rcases hblock with ⟨attrs', cs'', heq, -, hbody⟩
  rw [heq]
  exact hbody

/-- The elements are searched one by one. -/
theorem same_of_mem_xevLoopUnrolls {ns : List Xml}
    (h : Sames μ σ σ' ns (elements (xevLoopUnrolls total factor loopName ns))) {x : Xml}
    (hx : x ∈ ns) (helem : x.isElem = true) :
    ∃ x', xevLoopUnroll total factor loopName x = [x'] ∧ Same μ σ σ' x x' := by
  induction ns with
  | nil => exact absurd hx (by simp)
  | cons n ns ih =>
      rw [Sames, xevLoopUnrolls, elements_append] at h
      cases n with
      | elem name attrs cs =>
          rcases xevLoopUnroll_elem total factor loopName
            name attrs cs with ⟨attrs', cs', hrule⟩
          rw [if_pos (Xml.isElem_elem name attrs cs), hrule, elements_cons_elem, elements_nil,
            List.singleton_append] at h
          rcases h with ⟨y, rest, heq, hsame, hrest⟩
          rw [List.cons.injEq] at heq
          rcases heq with ⟨rfl, rfl⟩
          rcases List.mem_cons.mp hx with rfl | hmem
          · exact ⟨_, hrule, hsame⟩
          · exact ih hrest hmem
      | text t =>
          rcases List.mem_cons.mp hx with rfl | hmem
          · exact absurd helem (by simp [Xml.isElem])
          · exact ih h hmem
      | comment t =>
          rcases List.mem_cons.mp hx with rfl | hmem
          · exact absurd helem (by simp [Xml.isElem])
          · exact ih h hmem

/-- A copy of a statement is a statement. -/
theorem elements_loopUnrollBodies_ne_nil {k : Nat} {ns : List Xml} {x : Xml} (hx : x ∈ ns)
    (helem : x.isElem = true) (hvar : x.hasName "SgVarRefExp" = false) :
    elements (loopUnrollBodies loopName k ns) ≠ [] := by
  induction ns with
  | nil => exact absurd hx (by simp)
  | cons n ns ih =>
      rw [loopUnrollBodies, elements_append]
      intro hnil
      rw [List.append_eq_nil_iff] at hnil
      rcases List.mem_cons.mp hx with rfl | hmem
      · cases x with
        | elem name attrs cs =>
            have hname : name ≠ "SgVarRefExp" := by simpa using hvar
            rw [loopUnrollBody, if_neg hname] at hnil
            exact absurd hnil.1 (by simp)
        | text t => exact Bool.noConfusion helem
        | comment t => exact Bool.noConfusion helem
      · exact ih hmem hnil.2

/-- Copies inside of nested loops make a difference. -/
theorem HoldsBody.not_same {x : Xml} (h : HoldsBody x) (hmore : 0 < furtherCopies total factor)
    {x' : Xml} (hx' : xevLoopUnroll total factor loopName x = [x']) : ¬ Same μ σ σ' x x' := by
  induction h generalizing x' with
  | plain M hplain hmem helem hvar =>
      intro hsame
      have hlen := ((sames_iff _ _).mp (sames_body_of_same M hx' hsame)).length_eq
      rcases Nat.exists_eq_add_one.mpr hmore with ⟨m, hm⟩
      have hfirst : elements (unrolledCopy loopName M.body 0) =
        (elements M.body).map Xml.copied := by
        rw [unrolledCopy, if_pos rfl, elements_copiedAll, elements_elements]
      have hsecond : elements (unrolledCopy loopName M.body (Nat.succ 0)) ≠ [] := by
        rw [unrolledCopy, if_neg (Nat.succ_ne_zero 0)]
        exact elements_loopUnrollBodies_ne_nil (List.mem_filter.mpr ⟨hmem, helem⟩) helem hvar
      rw [unrolledBody, if_pos hplain, unrolledBlock, basicBlock, Xml.children_elem, hm,
        List.range_succ_eq_map, List.range_succ_eq_map, List.flatMap_cons, List.map_cons,
        List.flatMap_cons, elements_append, elements_append, List.length_append,
        List.length_append, hfirst, List.length_map] at hlen
      have hpos := List.length_pos_iff.mpr hsecond
      omega
  | nested M hmem hx ih =>
      intro hsame
      have hloop : named "SgFortranDo" M.body ≠ [] :=
        List.ne_nil_of_mem (List.mem_filter.mpr ⟨hmem, hx.isLoop⟩)
      have hbody := sames_body_of_same M hx' hsame
      rw [unrolledBody, if_neg hloop, Xml.children_elem] at hbody
      have helem : ∀ {y : Xml}, HoldsBody y → y.isElem = true := by
        intro y hy
        cases hy <;> rfl
      rcases same_of_mem_xevLoopUnrolls hbody hmem (helem hx) with ⟨y, hy, hsameInner⟩
      exact ih hy hsameInner

/-- Only the runs of the body matter. -/
theorem runsBody_iff (hsel : selectsLoop loopName L.children = true) :
    (RunsBody μ ρ total factor loopName L assigned (xevLoopUnroll total factor loopName L.xml) ∧
      RunsBody μ ρ total factor loopName L assigned (chillUnroll total factor loopName L.xml)) ↔
      List.Forall₂ (RunsFor μ ρ L assigned)
        ((unrolledValues μ ρ factor L).flatMap (unrolledRuns μ ρ total factor loopName L))
        (L.values μ ρ) := by
  rw [RunsBody, RunsBody, runs_xevLoopUnroll μ ρ total factor loopName L hsel,
    runs_chillUnroll μ ρ total factor loopName L hsel, and_self]
  exact and_iff_right (consistOf_unrolledRuns μ ρ total factor loopName L)

/-- The values of a loop come in groups: there are as many of them, the members
    of a group have the stride of the loop, and so have the first ones. -/
def Grouped (μ : Machine) (ρ : Env) (total factor : Nat) (L : DoLoop) : Prop :=
  (L.values μ ρ).length =
      (unrolledValues μ ρ factor L).length * (furtherCopies total factor + 1) ∧
    (0 < furtherCopies total factor → unrolledValues μ ρ factor L ≠ [] →
      strideValue μ ρ L.stride.xml = 1) ∧
    (1 < (unrolledValues μ ρ factor L).length →
      (furtherCopies total factor + 1 : Nat) * strideValue μ ρ L.stride.xml = factor)

theorem grouped_iff (μ : Machine) (ρ : Env) (total factor : Nat) (L : DoLoop) :
    ((unrolledValues μ ρ factor L).flatMap fun w =>
      (List.range (furtherCopies total factor + 1)).map fun k : Nat => w + (k : Int)) =
        L.values μ ρ ↔ Grouped μ ρ total factor L := by
  have hsome : unrolledValues μ ρ factor L ≠ [] ↔
      0 < Progression.tripCount (eval μ ρ L.lower.xml) (eval μ ρ L.upper.xml) factor := by
    rw [← List.length_pos_iff, unrolledValues, Progression.length_values]
  rw [Grouped, hsome, DoLoop.values_eq, unrolledValues,
    Progression.grouped_eq_iff (Nat.succ_pos _), Progression.length_values,
    Progression.length_values, Nat.lt_add_left_iff_pos]

/-- With stride one a factor that divides the number of iterations gives groups,
    if the document has elements enough. -/
theorem grouped_of_dvd (hunit : strideValue μ ρ L.stride.xml = 1) (hpos : 0 < factor)
    (hle : factor ≤ total + 1) (hdvd : factor ∣ (L.values μ ρ).length) :
    Grouped μ ρ total factor L := by
  have hcopies : furtherCopies total factor + 1 = factor := by
    rw [furtherCopies]
    omega
  rw [DoLoop.values_eq, hunit, Progression.length_values] at hdvd
  refine ⟨?_, fun _ _ => hunit, fun _ => ?_⟩
  · rw [DoLoop.values_eq, hunit, hcopies, unrolledValues, Progression.length_values,
      Progression.length_values, Progression.tripCount_one_eq_mul hpos hdvd]
  · rw [hcopies, hunit, mul_one]

/-- With copies of the body as a whole the values decide. -/
theorem forall₂_runsFor_iff (hown : L.index ∉ assigned)
    (hnamed : 0 < furtherCopies total factor → allVariablesNamed L.body = true)
    (hkind : named "SgFortranDo" L.body = [] ∨
      factor = 1 ∧ allUnselected loopName L.body = true) :
    List.Forall₂ (RunsFor μ ρ L assigned)
        ((unrolledValues μ ρ factor L).flatMap (unrolledRuns μ ρ total factor loopName L))
        (L.values μ ρ) ↔
      (L.values μ ρ).length =
          (unrolledValues μ ρ factor L).length * (furtherCopies total factor + 1) ∧
        (0 < furtherCopies total factor → unrolledValues μ ρ factor L ≠ [] →
          strideValue μ ρ L.stride.xml = 1 ∧ loopName = L.index) ∧
        (1 < (unrolledValues μ ρ factor L).length →
          (furtherCopies total factor + 1 : Nat) * strideValue μ ρ L.stride.xml = factor) := by
  have hcount : pieceCount total factor L = furtherCopies total factor + 1 := by
    rw [pieceCount]
    by_cases hplain : named "SgFortranDo" L.body = []
    · rw [if_pos hplain]
    · rw [if_neg hplain, (hkind.resolve_left hplain).1]
      simp [furtherCopies]
  have hvalues := map_value_unrolledRuns μ ρ total factor loopName L
  rw [hcount] at hvalues
  have hsame : List.Forall₂ (RunsFor μ ρ L assigned)
      ((unrolledValues μ ρ factor L).flatMap (unrolledRuns μ ρ total factor loopName L))
      (L.values μ ρ) →
      ((unrolledValues μ ρ factor L).flatMap (unrolledRuns μ ρ total factor loopName L)).map
        BodyRun.value = L.values μ ρ := by
    intro h
    rw [← List.forall₂_eq_eq_eq, List.forall₂_map_left_iff]
    exact h.imp fun _ _ hr => hr.1
  by_cases hname : loopName = L.index ∨ furtherCopies total factor = 0 ∨
      unrolledValues μ ρ factor L = []
  · -- Every copy is run for its value, so only the values matter.
    have hgroups : ((unrolledValues μ ρ factor L).flatMap fun w =>
        (List.range (furtherCopies total factor + 1)).map fun k : Nat =>
          w + if loopName = L.index then (k : Int) else 0) =
        (unrolledValues μ ρ factor L).flatMap fun w =>
          (List.range (furtherCopies total factor + 1)).map fun k : Nat => w + (k : Int) := by
      rcases hname with hself | hzero | hnone
      · simp only [if_pos hself]
      · simp [hzero]
      · rw [hnone, List.flatMap_nil, List.flatMap_nil]
    have hiff : List.Forall₂ (RunsFor μ ρ L assigned)
        ((unrolledValues μ ρ factor L).flatMap (unrolledRuns μ ρ total factor loopName L))
        (L.values μ ρ) ↔
        ((unrolledValues μ ρ factor L).flatMap fun w =>
          (List.range (furtherCopies total factor + 1)).map fun k : Nat => w + (k : Int)) =
            L.values μ ρ := by
      rw [← hgroups, ← hvalues]
      refine ⟨hsame, fun h => ?_⟩
      rw [← h, List.forall₂_map_right_iff, List.forall₂_same]
      intro r hr
      rcases List.mem_flatMap.mp hr with ⟨w, hw, hrw⟩
      refine runsFor_unrolledRuns hown hnamed hkind ?_ hrw
      rcases hname with hself | hzero | hnone
      · exact Or.inl hself
      · exact Or.inr (by rw [hcount, hzero])
      · rw [hnone] at hw
        exact absurd hw (by simp)
    rw [hiff, grouped_iff, Grouped]
    refine and_congr_right fun _ => and_congr_left fun _ => ?_
    refine ⟨fun h hc hm => ⟨h hc hm, ?_⟩, fun h hc hm => (h hc hm).1⟩
    rcases hname with hself | hzero | hnone
    · exact hself
    · omega
    · exact absurd hnone hm
  · -- The copies are made for another variable.
    simp only [not_or] at hname
    have hc : 0 < furtherCopies total factor := Nat.pos_of_ne_zero hname.2.1
    refine iff_of_false (fun h => ?_) fun h => hname.1 (h.2.1 hc hname.2.2).2
    have hlist := hvalues.symm.trans (hsame h)
    simp only [if_neg hname.1, add_zero] at hlist
    exact repeated_ne_values (by omega) hname.2.2 _ _ _ hlist

/-- With copies inside of nested loops the body is not run at all. -/
theorem forall₂_runsFor_iff_of_holdsBody (hmore : 0 < furtherCopies total factor)
    (hholds : ∃ x ∈ L.body, HoldsBody x) :
    List.Forall₂ (RunsFor μ ρ L assigned)
        ((unrolledValues μ ρ factor L).flatMap (unrolledRuns μ ρ total factor loopName L))
        (L.values μ ρ) ↔
      unrolledValues μ ρ factor L = [] ∧ L.values μ ρ = [] := by
  rcases hholds with ⟨x, hx, hbody⟩
  have hloop : named "SgFortranDo" L.body ≠ [] :=
    List.ne_nil_of_mem (List.mem_filter.mpr ⟨hx, hbody.isLoop⟩)
  have helem : x.isElem = true := by
    cases hbody <;> rfl
  by_cases hnone : unrolledValues μ ρ factor L = []
  · rw [hnone, List.flatMap_nil, List.forall₂_nil_left_iff]
    exact (and_iff_right rfl).symm
  · refine iff_of_false (fun h => ?_) fun h => hnone h.1
    rcases List.exists_cons_of_ne_nil hnone with ⟨w, ws, hws⟩
    rw [hws, List.flatMap_cons, unrolledRuns, unrolledPieces, if_neg hloop, List.map_singleton,
      List.singleton_append, List.forall₂_cons_left_iff] at h
    rcases h with ⟨v, vs, hfirst, -, -⟩
    have hagree : Env.Agree [L.index] (ρ.set L.index w) (ρ.set L.index v) := by
      intro y hy
      have hne : y ≠ L.index := by simpa using hy
      rw [Env.set_of_ne ρ w hne, Env.set_of_ne ρ v hne]
    have hsame := hfirst.2 _ _ (Env.Agree.refl _ _) (Env.Agree.refl _ _) hagree
    rcases same_of_mem_xevLoopUnrolls ((sames_iff _ _).mpr hsame) hx helem with ⟨x', hx', hxx'⟩
    exact hbody.not_same hmore hx' hxx'

end Main

section Examples

/-- The loop `do i = 1, n` around the assignment `a = i`. -/
def countTo (n : Int) : DoLoop :=
  DoLoop.plain ['i'] (Expr.int 1) (Expr.int n) Expr.null
    [.elem "SgExprStatement" [] [.elem "SgAssignOp" [] [varRef ['a'], varRef ['i']]]]

end Examples

end XevXml
