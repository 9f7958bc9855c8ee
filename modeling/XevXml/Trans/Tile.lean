import XevXml.Trans.StripMining

/-!
# Tiling

The rule cuts both loops of a perfect nest into strips and moves the loops from
strip to strip outwards, so that the nest goes from tile to tile. The headers
are those of strip mining, but the index of the inner point loop is built from
its name, while that of the outer one is copied by a path that takes a variable
lower bound along. So only the outer lower bound matters: if it is a variable,
the rows of the first tile are executed again with every further tile.

## Main definitions

* `tileName`: The names of the new loops.
* `xevLoopTile`: The rule.

## Theorems

* `runs_xevLoopTile`: The pairs of values of the two indices.
* `tile_values_iff`: When they are those of the original nest.
-/

namespace XevXml

/-- The name of the index of a loop over tiles. -/
def tileName (x : Text) : Text := x ++ "_tile".toList

/-- The rule, on the children of the outer loop. -/
def xevLoopTile (size1 size2 : Nat) (cs : List Xml) : Xml :=
  let nest := path ["SgBasicBlock", "SgFortranDo"] cs
  let inner := valueOf "name" (path ["SgBasicBlock", "SgFortranDo", "SgAssignOp", "SgVarRefExp"] cs)
  stripLoop (tileName (indexName cs)) size1 (secondOfAssign cs) (nth 2 cs)
    [basicBlock
      [stripLoop (tileName inner) size2 (nest.flatMap fun n => secondOfAssign n.children)
        (nest.flatMap fun n => nth 2 n.children)
        [basicBlock
          [pointLoop (tileName (indexName cs)) size1 (path ["SgAssignOp", "SgVarRefExp"] cs)
            (nth 2 cs)
            [basicBlock
              [pointLoop (tileName inner) size2 [varRef inner]
                (nest.flatMap fun n => nth 2 n.children)
                (copiedAll (nest.flatMap fun n => named "SgBasicBlock" n.children))]]]]]]

section Runs

variable (μ : Machine) (ρ : Env) {L M : DoLoop}

/-- The four loops of the new nest. -/
theorem xevLoopTile_children (hbody : elements L.body = [M.xml]) (size1 size2 : Nat) :
    xevLoopTile size1 size2 L.children =
      stripLoop (tileName L.index) size1 [L.lower.xml] [L.upper.xml]
        [basicBlock
          [stripLoop (tileName M.index) size2 [M.lower.xml] [M.upper.xml]
            [basicBlock
              [pointLoop (tileName L.index) size1 (path ["SgAssignOp", "SgVarRefExp"] L.children)
                [L.upper.xml]
                [basicBlock
                  [pointLoop (tileName M.index) size2 [varRef M.index] [M.upper.xml]
                    [M.block.copied]]]]]]] := by
  rw [xevLoopTile, path_nest hbody, indexName_nest hbody]
  simp only [indexName_children, secondOfAssign_children, nth_two_children, List.flatMap_singleton,
    DoLoop.xml, Xml.children_elem, named_children_block, copiedAll_block]

/-- The nest executes the body for the pairs of one tile after the other. -/
theorem runs_xevLoopTile (hbody : elements L.body = [M.xml]) (size1 size2 : Nat)
    (hne : L.index ≠ M.index) (hfresh : L.index ≠ tileName M.index)
    (houter : L.Fixed μ ρ [tileName L.index, tileName M.index, L.index, M.index])
    (hinner : M.Fixed μ ρ [tileName L.index, tileName M.index, L.index, M.index]) :
    ((runs μ 3 ρ (xevLoopTile size1 size2 L.children)).map
        fun r => (r.1, r.2 L.index, r.2 M.index)) =
      (Progression.values (eval μ ρ L.lower.xml) (eval μ ρ L.upper.xml) size1).flatMap fun y =>
        (Progression.values (eval μ ρ M.lower.xml) (eval μ ρ M.upper.xml) size2).flatMap fun z =>
          (Progression.values (if L.lower.isVar = true then eval μ ρ L.lower.xml else y)
            (min (eval μ ρ L.upper.xml) (y + size1 - 1)) 1).flatMap fun v =>
              (Progression.values z (min (eval μ ρ M.upper.xml) (z + size2 - 1)) 1).map fun w =>
                (M.block.copied, some v, some w) := by
  have hname : M.block.copied.hasName "SgBasicBlock" = true := hasName_copied _ _
  have htiles : tileName L.index ≠ tileName M.index := by
    intro h
    exact hne (List.append_cancel_right h)
  set names := [tileName L.index, tileName M.index, L.index, M.index] with hnames
  rw [xevLoopTile_children hbody, runs_stripLoop, List.map_flatMap]
  refine List.flatMap_congr fun y _ => ?_
  have hy := (Env.Agree.refl names ρ).set (by simp [names] : tileName L.index ∈ names) y
  rw [runs_stripLoop, hinner.lower _ hy, hinner.upper _ hy, List.map_flatMap]
  refine List.flatMap_congr fun z _ => ?_
  have hz := hy.set (by simp [names] : tileName M.index ∈ names) z
  -- The outer point loop reads the start of its tile, or the lower bound.
  have hrow : ((ρ.set (tileName L.index) y).set (tileName M.index) z) (tileName L.index) =
      some y := by
    rw [Env.set_of_ne _ _ htiles, Env.set_self]
  rw [runs_pointLoop_children μ _ L 0 (tileName L.index) size1 _ (houter.lower _ hz)
    (houter.upper _ hz) hrow, List.map_flatMap]
  refine List.flatMap_congr fun v _ => ?_
  have hv := hz.set (by simp [names] : L.index ∈ names) v
  have hcol : (((ρ.set (tileName L.index) y).set (tileName M.index) z).set L.index v)
      (tileName M.index) = some z := by
    rw [Env.set_of_ne _ _ (Ne.symm hfresh), Env.set_self]
  rw [runs, loopRuns_pointLoop μ _ (tileName M.index) size2 M.upper [] rfl rfl rfl rfl hname,
    eval_varRef, hcol, Option.getD_some, hinner.upper _ hv, List.map_map]
  simp only [Function.comp_def, Env.set_self, Env.set_of_ne _ _ hne]

/-- The nest has the pairs of the original one, in some order, exactly if the rows have the values
    of the outer loop as often as it does. -/
theorem runs_tiled_perm_iff (hbody : elements L.body = [M.xml]) (size1 size2 : Nat)
    (hsize2 : 0 < size2) (hunit2 : strideValue μ ρ M.stride.xml = 1)
    (hne : L.index ≠ M.index) (hfresh : L.index ≠ tileName M.index)
    (houter : L.Fixed μ ρ [tileName L.index, tileName M.index, L.index, M.index])
    (hinner : M.Fixed μ ρ [tileName L.index, tileName M.index, L.index, M.index]) :
    ((runs μ 3 ρ (xevLoopTile size1 size2 L.children)).map
        fun r => (r.1, r.2 L.index, r.2 M.index)).Perm
      ((runs μ 1 ρ L.xml).map fun r => (r.1.copied, r.2 L.index, r.2 M.index)) ↔
      (((Progression.values (eval μ ρ L.lower.xml) (eval μ ρ L.upper.xml) size1).flatMap fun y =>
          Progression.values (if L.lower.isVar = true then eval μ ρ L.lower.xml else y)
            (min (eval μ ρ L.upper.xml) (y + size1 - 1)) 1).flatMap fun v =>
        (M.values μ ρ).map fun w => (M.block.copied, some v, some w)).Perm
      ((L.values μ ρ).flatMap fun v => (M.values μ ρ).map fun w =>
        (M.block.copied, some v, some w)) := by
  have hpos2 : (0 : Int) < size2 := by omega
  have hcols : M.values μ ρ =
      Progression.values (eval μ ρ M.lower.xml) (eval μ ρ M.upper.xml) 1 := by
    rw [DoLoop.values_eq, hunit2]
  have hnest : ((runs μ 1 ρ L.xml).map fun r => (r.1.copied, r.2 L.index, r.2 M.index)) =
      (L.values μ ρ).flatMap fun v => (M.values μ ρ).map fun w =>
        (M.block.copied, some v, some w) := by
    rw [runs_nest μ ρ hbody, List.map_flatMap]
    refine List.flatMap_congr fun v _ => ?_
    have hv := (Env.Agree.refl _ ρ).set
      (by simp : L.index ∈ [tileName L.index, tileName M.index, L.index, M.index]) v
    rw [runs, loopRuns_xml, hinner.values hv, List.map_map]
    simp only [Function.comp_def, Env.set_self, Env.set_of_ne _ _ hne]
  rw [runs_xevLoopTile μ ρ hbody size1 size2 hne hfresh houter hinner, hnest,
    (Progression.tiles_perm _ _ _ _ fun v w => (M.block.copied, some v, some w)).congr_left,
    ← Progression.strips hpos2, ← hcols]

/-- A single row of tiles, or rows that do not start again, have the pairs of the nest. -/
theorem runs_tiled_perm (hbody : elements L.body = [M.xml]) (size1 size2 : Nat)
    (hsize1 : 0 < size1) (hsize2 : 0 < size2)
    (hunit1 : strideValue μ ρ L.stride.xml = 1) (hunit2 : strideValue μ ρ M.stride.xml = 1)
    (hne : L.index ≠ M.index) (hfresh : L.index ≠ tileName M.index)
    (houter : L.Fixed μ ρ [tileName L.index, tileName M.index, L.index, M.index])
    (hinner : M.Fixed μ ρ [tileName L.index, tileName M.index, L.index, M.index])
    (h : L.lower.isVar = false ∨ (L.values μ ρ).length ≤ size1 ∨ M.values μ ρ = []) :
    ((runs μ 3 ρ (xevLoopTile size1 size2 L.children)).map
        fun r => (r.1, r.2 L.index, r.2 M.index)).Perm
      ((runs μ 1 ρ L.xml).map fun r => (r.1.copied, r.2 L.index, r.2 M.index)) := by
  rw [runs_tiled_perm_iff μ ρ hbody size1 size2 hsize2 hunit2 hne hfresh houter hinner]
  by_cases hrow : M.values μ ρ = []
  · simp only [hrow, List.map_nil, Progression.flatMap_const_nil, List.Perm.refl]
  · have hrows : L.lower.isVar = false ∨ (L.values μ ρ).length ≤ size1 := by
      rcases h with hvar | hone | hnone
      · exact Or.inl hvar
      · exact Or.inr hone
      · exact absurd hnone hrow
    rw [(strips_eq_values_iff μ ρ L hsize1 hunit1).mpr hrows]

end Runs

section Examples

/-- The nest `do i = a, 3` around `do j = 1, 1`. -/
def nestFromA : DoLoop :=
  DoLoop.plain ['i'] (Expr.var ['a']) (Expr.int 3) Expr.null
    [(DoLoop.plain ['j'] (Expr.int 1) (Expr.int 1) Expr.null []).xml]

/-- The nest `do i = 1, 3` around `do j = 1, 1`. -/
def nestFromOne : DoLoop :=
  DoLoop.plain ['i'] (Expr.int 1) (Expr.int 3) Expr.null
    [(DoLoop.plain ['j'] (Expr.int 1) (Expr.int 1) Expr.null []).xml]

end Examples

end XevXml
