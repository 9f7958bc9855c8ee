import XevXml.Trans.Fusion
import XevXml.Trans.Interchange
import XevXml.Trans.Jam
import XevXml.Trans.Tile

/-!
# Undoing

Two rules are meant to take back others. The one for unrolling replaces the stride by the missing
one, and puts only the first statement into the block. That is the whole body if there is one
statement. A further statement is lost, and so are the copies.

The one for tiling reads the bounds of the old nest from a nest of another shape. A lower bound is
looked for among the integer constants of an assignment, an upper bound below a sum, a product and
two calls. The rule for tiling keeps the upper bound as it is, so what is found is never the bound.

## Main definitions

* `xevLoopUnrollUndo`, `xevLoopTileUndo`: The rules.
* `Restored`: The loop with the missing stride.
* `GivesBack`: The nest with its indices, bounds and body.

## Theorems

* `undo_unroll_iff`: When the loop is given back.
* `hasName_of_mem_path`: What is selected has the last name of the path.
* `undo_tile_not_givesBack`: The nest is not given back.
-/

namespace XevXml

section Unroll

mutual

/-- The rule that takes back the unrolling. Nothing depends on the factor. -/
def xevLoopUnrollUndo : Xml → List Xml
  | .elem name attrs cs =>
      if name = "SgFortranDo" then
        [.elem name attrs (nth 1 cs ++ nth 2 cs ++
          [nullExpression, .elem "SgBasicBlock" (attrsOf (path ["SgFortranDo", "SgBasicBlock"] cs))
            (copiedAll ((named "SgBasicBlock" cs).flatMap fun b => nth 1 b.children))] ++
          named "PreprocessingInfo" cs)]
      else [.elem name attrs (xevLoopUnrollUndos cs)]
  | .text t => [.text t]
  | .comment _ => []

/-- The rule on the nodes it is applied to. -/
def xevLoopUnrollUndos : List Xml → List Xml
  | [] => []
  | x :: xs => xevLoopUnrollUndo x ++ xevLoopUnrollUndos xs

end

/-- The loop with the missing stride and the statements of its body. -/
def Restored (L : DoLoop) (result : List Xml) : Prop :=
  ∃ blockAttrs body, result = [.elem "SgFortranDo" L.attrs
      (L.init :: L.upper.xml :: nullExpression :: .elem "SgBasicBlock" blockAttrs body ::
        L.infoList)] ∧ elements body = elements L.body

variable (L : DoLoop)

/-- The first statement of the unrolled block is the first one of the body. -/
theorem nth_one_unrolledBlock (total factor : Nat) (loopName : Text) :
    nth 1 (unrolledBlock total factor loopName L.body).children =
      ((elements L.body).head?.map Xml.copied).toList := by
  have hcopies : (unrolledBlock total factor loopName L.body).children =
      copiedAll (elements L.body) ++
        ((List.range (furtherCopies total factor)).map Nat.succ).flatMap
          (unrolledCopy loopName L.body) := by
    rw [unrolledBlock, basicBlock, Xml.children_elem, List.range_succ_eq_map, List.flatMap_cons,
      unrolledCopy, if_pos rfl]
  rw [hcopies]
  cases hbody : elements L.body with
  | nil =>
      -- Without statements there are no copies.
      have hnone : ((List.range (furtherCopies total factor)).map Nat.succ).flatMap
          (unrolledCopy loopName L.body) = [] := by
        rw [List.flatMap_eq_nil_iff]
        intro k _
        rw [unrolledCopy, hbody]
        split
        · rfl
        · rfl
      rw [hnone]
      rfl
  | cons s ss =>
      have hs : s.isElem = true := by
        have hmem : s ∈ elements L.body := hbody ▸ List.mem_cons_self
        exact (List.mem_filter.mp hmem).2
      rw [copiedAll_cons_of_not (not_isComment_of_isElem hs), List.cons_append, nth,
        elements_cons_of_isElem ((isElem_copied s).trans hs)]
      rfl

/-- What is made of the unrolled loop. -/
theorem xevLoopUnrollUndo_unrolled (total factor : Nat)
    (hinner : named "SgFortranDo" L.body = []) :
    (xevLoopUnroll total factor L.index L.xml).flatMap xevLoopUnrollUndo =
      [.elem "SgFortranDo" L.attrs (L.init :: L.upper.xml :: nullExpression ::
        .elem "SgBasicBlock" [] (((elements L.body).head?.map Xml.copied).toList) ::
          L.infoList)] := by
  have hbody : unrolledBody total factor L.index L = unrolledBlock total factor L.index L.body := by
    rw [unrolledBody, if_pos hinner]
  have hnames : ∀ name, (unrolledBody total factor L.index L).hasName name =
      ("SgBasicBlock" == name) := by
    intro name
    rw [hbody]
    rfl
  have hupper : ∀ name ∈ reserved, L.upper.xml.hasName name = false := fun name hname =>
    Expr.hasName_xml hname _
  -- The unrolled loop keeps its children, the stride and the block apart.
  set cs := L.init :: L.upper.xml :: paramVal factor :: unrolledBody total factor L.index L ::
    L.infoList with hcs
  have hfirst : nth 1 cs = [L.init] := rfl
  have hsecond : nth 2 cs = [L.upper.xml] := rfl
  have hblocks : named "SgBasicBlock" cs = [unrolledBody total factor L.index L] := by
    simp [hcs, DoLoop.init, paramVal, hnames, hupper "SgBasicBlock" (by decide),
      named_infoList L (by decide : "SgBasicBlock" ≠ "PreprocessingInfo")]
  have hloops : named "SgFortranDo" cs = [] := by
    simp [hcs, DoLoop.init, paramVal, hnames, hupper "SgFortranDo" (by decide),
      named_infoList L (by decide : "SgFortranDo" ≠ "PreprocessingInfo")]
  have hinfos : named "PreprocessingInfo" cs = L.infoList := by
    simp [hcs, DoLoop.init, paramVal, hnames, hupper "PreprocessingInfo" (by decide),
      named_infoList_self]
  have hattrs : attrsOf (path ["SgFortranDo", "SgBasicBlock"] cs) = [] := by
    rw [path_cons_cons, hloops]
    rfl
  have hkept : copiedAll (((elements L.body).head?.map Xml.copied).toList) =
      ((elements L.body).head?.map Xml.copied).toList := by
    cases hhead : (elements L.body).head? with
    | none => rfl
    | some s =>
        have hs : s.isElem = true := (List.mem_filter.mp (List.mem_of_head? hhead)).2
        have hnot : ¬ s.copied.isComment = true :=
          not_isComment_of_isElem ((isElem_copied s).trans hs)
        rw [Option.map_some, Option.toList_some, copiedAll_cons_of_not hnot, copiedAll_nil,
          copied_copied]
  rw [xevLoopUnroll_xml total factor L.index L (selectsLoop_of_index rfl), List.flatMap_singleton,
    xevLoopUnrollUndo, if_pos rfl, hfirst, hsecond, hblocks, hinfos, hattrs,
    List.flatMap_singleton, hbody, nth_one_unrolledBlock, hkept]
  rfl

/-- Undoing gives back the loop exactly if its body has at most one statement, and there is no
    comment in it. -/
theorem undo_unroll_iff (total factor : Nat) (hinner : named "SgFortranDo" L.body = []) :
    Restored L ((xevLoopUnroll total factor L.index L.xml).flatMap xevLoopUnrollUndo) ↔
      (elements L.body).length ≤ 1 ∧ ∀ s ∈ elements L.body, s.copied = s := by
  rw [xevLoopUnrollUndo_unrolled L total factor hinner, Restored]
  have hone : ∀ s : Xml, s.isElem = true → elements [s.copied] = [s.copied] := by
    intro s hs
    rw [elements_cons_of_isElem ((isElem_copied s).trans hs), elements_nil]
  have hiff : elements (((elements L.body).head?.map Xml.copied).toList) = elements L.body ↔
      (elements L.body).length ≤ 1 ∧ ∀ s ∈ elements L.body, s.copied = s := by
    cases hbody : elements L.body with
    | nil => exact iff_of_true rfl ⟨Nat.zero_le _, List.forall_mem_nil _⟩
    | cons s ss =>
        have hs : s.isElem = true := by
          have hmem : s ∈ elements L.body := hbody ▸ List.mem_cons_self
          exact (List.mem_filter.mp hmem).2
        rw [List.head?_cons, Option.map_some, Option.toList_some, hone s hs, List.cons.injEq]
        constructor
        · intro h
          rcases h with ⟨hcopy, rfl⟩
          exact ⟨Nat.le_refl _, List.forall_mem_singleton.mpr hcopy⟩
        · intro h
          rcases h with ⟨hlen, hcopy⟩
          rw [List.length_cons] at hlen
          exact ⟨hcopy s List.mem_cons_self,
            (List.length_eq_zero_iff.mp (by omega)).symm⟩
  rw [← hiff]
  constructor
  · intro h
    rcases h with ⟨blockAttrs, body, heq, hsame⟩
    simp only [List.cons.injEq, Xml.elem.injEq, true_and, and_true] at heq
    rw [heq.2]
    exact hsame
  · intro h
    exact ⟨[], _, rfl, h⟩

/-- The loop `do i = 1, 4` around the assignments to two variables. -/
def assignTwo (x y : Text) : DoLoop :=
  DoLoop.plain ['i'] (Expr.int 1) (Expr.int 4) Expr.null [assignTo x, assignTo y]

theorem oneAssignment_restored :
    Restored (assignLoop ['a'])
      ((xevLoopUnroll 20 2 (assignLoop ['a']).index (assignLoop ['a']).xml).flatMap
        xevLoopUnrollUndo) :=
  (undo_unroll_iff (assignLoop ['a']) 20 2 rfl).mpr
    ⟨Nat.le_refl 1, List.forall_mem_singleton.mpr rfl⟩

/-- The second assignment is lost. -/
theorem assignTwo_not_restored :
    ¬ Restored (assignTwo ['a'] ['b'])
      ((xevLoopUnroll 20 2 (assignTwo ['a'] ['b']).index (assignTwo ['a'] ['b']).xml).flatMap
        xevLoopUnrollUndo) := by
  intro h
  rcases h with ⟨blockAttrs, body, heq, hsame⟩
  have hundone := xevLoopUnrollUndo_unrolled (assignTwo ['a'] ['b']) 20 2 rfl
  replace heq := hundone.symm.trans heq
  simp only [List.cons.injEq, Xml.elem.injEq, true_and, and_true] at heq
  rw [← heq.2] at hsame
  have hlen := congrArg List.length hsame
  exact absurd hlen (by decide)

end Unroll

section Tile

/-- Where the rule looks for an upper bound. -/
def upperPath : List String :=
  ["SgAddOp", "SgMultiplyOp", "SgFunctionCallExp", "SgExprListExp", "SgDivideOp",
    "SgFunctionCallExp", "SgExprListExp", "SgSubtractOp", "SgVarRefExp"]

/-- The path to the loop in the block of a loop. -/
def nestPath : List String := ["SgBasicBlock", "SgFortranDo"]

/-- The rule that takes back the tiling, on the children of the outermost loop. -/
def xevLoopTileUndo (cs : List Xml) : Xml :=
  .elem "SgFortranDo" builtAttrs
    ([.elem "SgAssignOp" []
        (path (nestPath ++ nestPath ++ ["SgAssignOp", "SgVarRefExp"]) cs ++
          path ["SgAssignOp", "SgIntVal"] cs)] ++
      path upperPath cs ++
      [nullExpression,
        basicBlock [.elem "SgFortranDo" builtAttrs
          ([.elem "SgAssignOp" []
              (path (nestPath ++ nestPath ++ nestPath ++ ["SgAssignOp", "SgVarRefExp"]) cs ++
                path (nestPath ++ ["SgAssignOp", "SgIntVal"]) cs)] ++
            path (nestPath ++ upperPath) cs ++ [nullExpression] ++
            copiedAll (path (nestPath ++ nestPath ++ nestPath ++ ["SgBasicBlock"]) cs))]] ++
      named "PreprocessingInfo" cs)

/-- A nest with the indices, the bounds and the body of another one. -/
def GivesBack (L M : DoLoop) (x : Xml) : Prop :=
  ∃ L' M' : DoLoop, x = L'.xml ∧ elements L'.body = [M'.xml] ∧
    L'.index = L.index ∧ L'.lower.xml = L.lower.xml ∧ L'.upper.xml = L.upper.xml ∧
    M'.index = M.index ∧ M'.lower.xml = M.lower.xml ∧ M'.upper.xml = M.upper.xml ∧
    elements M'.body = elements M.body

/-- What is selected has the last name of the path. -/
theorem hasName_of_mem_path {names : List String} {last : String} {ns : List Xml} {x : Xml}
    (h : x ∈ path (names ++ [last]) ns) : x.hasName last = true := by
  induction names generalizing ns with
  | nil => exact (List.mem_filter.mp h).2
  | cons name names ih =>
      have hpath : path (name :: names ++ [last]) ns =
          (named name ns).flatMap fun n => path (names ++ [last]) n.children := by
        cases names with
        | nil => rfl
        | cons next rest => rfl
      rw [hpath, List.mem_flatMap] at h
      rcases h with ⟨n, -, hx⟩
      exact ih hx

/-- What is found as an upper bound is not the one of the nest. -/
theorem upper_not_found {L M : DoLoop} (hbody : elements L.body = [M.xml]) (size1 size2 : Nat) :
    L.upper.xml ∉ path upperPath (xevLoopTile size1 size2 L.children).children := by
  intro h
  have hsplit : upperPath = upperPath.dropLast ++ ["SgVarRefExp"] := rfl
  have hvar : L.upper.xml.hasName "SgVarRefExp" = true := by
    rw [hsplit] at h
    exact hasName_of_mem_path h
  -- Only below a sum is anything found.
  have hsum : named "SgAddOp" (xevLoopTile size1 size2 L.children).children = [] := by
    rw [xevLoopTile_children hbody, stripLoop]
    have hupper : L.upper.xml.hasName "SgAddOp" = false := by
      have hname : L.upper.name = "SgVarRefExp" := by simpa [Expr.xml] using hvar
      simp [Expr.xml, hname]
    simp [sizeVal, basicBlock, hupper]
  have hnone : path upperPath (xevLoopTile size1 size2 L.children).children = [] := by
    have hstep : path upperPath (xevLoopTile size1 size2 L.children).children =
        (named "SgAddOp" (xevLoopTile size1 size2 L.children).children).flatMap
          fun n => path upperPath.tail n.children := rfl
    rw [hstep, hsum, List.flatMap_nil]
  rw [hnone] at h
  exact absurd h List.not_mem_nil

/-- A nest that the rule makes has no upper bound but one that was found. -/
theorem upper_of_undone {cs : List Xml} {L' : DoLoop} (h : xevLoopTileUndo cs = L'.xml) :
    L'.upper.xml ∈ path upperPath cs := by
  rw [xevLoopTileUndo, DoLoop.xml, Xml.elem.injEq, DoLoop.children] at h
  have hlist := h.2.2
  rw [List.append_assoc, List.append_assoc, List.singleton_append, List.cons.injEq] at hlist
  cases hfound : path upperPath cs with
  | nil =>
      -- The block would be the stride.
      rw [hfound] at hlist
      simp only [List.nil_append, List.cons_append, List.cons.injEq] at hlist
      have hstride : L'.stride.xml.hasName "SgBasicBlock" = false :=
        Expr.hasName_xml (by decide) _
      rw [← hlist.2.2.1] at hstride
      exact Bool.noConfusion hstride
  | cons u us =>
      rw [hfound] at hlist
      simp only [List.cons_append, List.cons.injEq] at hlist
      rw [← hlist.2.1]
      exact List.mem_cons_self

/-- The nest is not given back, whatever it is and whatever the sizes are. -/
theorem undo_tile_not_givesBack {L M : DoLoop} (hbody : elements L.body = [M.xml])
    (size1 size2 : Nat) :
    ¬ GivesBack L M (xevLoopTileUndo (xevLoopTile size1 size2 L.children).children) := by
  intro h
  rcases h with ⟨L', M', hxml, -, -, -, hupper, -⟩
  have hfound := upper_of_undone hxml
  rw [hupper] at hfound
  exact upper_not_found hbody size1 size2 hfound

/-- The loop `do j = 1, 20` around an assignment. -/
def rowLoop : DoLoop :=
  DoLoop.plain ['j'] (Expr.int 1) (Expr.int 20) Expr.null [assignTo ['a']]

/-- A nest around this loop, with a given upper bound. -/
def nestUpTo (upper : Expr) : DoLoop :=
  DoLoop.plain ['i'] (Expr.int 1) upper Expr.null [rowLoop.xml]

theorem nestUpTo_n_lost :
    ¬ GivesBack (nestUpTo (Expr.var ['n'])) rowLoop
      (xevLoopTileUndo (xevLoopTile 4 8 (nestUpTo (Expr.var ['n'])).children).children) :=
  undo_tile_not_givesBack rfl 4 8

/-- There is nothing in the place of the upper bound, so an element of the loop is missing. -/
theorem nestUpTo_ten_lost :
    ¬ GivesBack (nestUpTo (Expr.int 10)) rowLoop
      (xevLoopTileUndo (xevLoopTile 2 2 (nestUpTo (Expr.int 10)).children).children) := by
  intro h
  rcases h with ⟨L', M', hxml, -⟩
  have hlen := congrArg (fun x => x.children.length) hxml
  have hthree : (xevLoopTileUndo (xevLoopTile 2 2
      (nestUpTo (Expr.int 10)).children).children).children.length = 3 := rfl
  have hfour : 4 ≤ L'.children.length := by
    rw [DoLoop.children, List.length_cons, List.length_cons, List.length_cons, List.length_cons]
    omega
  have hchildren : L'.xml.children = L'.children := rfl
  rw [hthree, hchildren] at hlen
  omega

end Tile

end XevXml
