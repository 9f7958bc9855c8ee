import XevXml.Trans.Collapse

/-!
# Loops Found by Name

The rules find a loop by the name of its index. They go through the tree and
copy it, and what they find in the place of a loop they replace and do not
search. The test compares the name with all variables that stand right below
the assignment of the loop, and one of them is enough. Besides the index this is
the lower bound, if it is a variable.

The rule for unrolling has a second template, for the blocks without a loop
right in them. It is meant for the body of the loop but is used wherever such a
block stands. The statements of the block are multiplied, its attributes are
lost, and a loop further down is not found.

What a rule puts in the place of a loop does not matter here. The search is the
same whatever it is, so it is a parameter.

## Main definitions

* `xevGoToLoop`: The rule that has nothing but the search.
* `unrollSearch`: The search of the rule for unrolling.
* `controlVariable`: The index of a loop.
* `atLoops`: The outermost loops over a variable replaced, everything else kept.
* `SelectsByName`: The rules find the loops over the variable and no others.
* `OwnIndex`, `BlocksKept`: What the tree must be like for that.

## Theorems

* `loopCollapseFindFirst_eq`, `loopCollapseFindSecond_eq`: The two searches of
  the rule for collapsing.
* `xevGoToLoop_iff`: When the search finds the right loops.
* `unrollSearch_iff`: When the one for unrolling does.
* `selects_by_name_iff`: When all rules do.
-/

namespace XevXml

section Searches

/-- The rule. The template of the user for the loop is a parameter. -/
def xevGoToLoop (hook : Attrs → List Xml → List Xml) (loopName : Text) : Xml → List Xml :=
  searched fun attrs cs => if selectsLoop loopName cs = true then some (hook attrs cs) else none

/-- The first search of the rule for collapsing. -/
theorem loopCollapseFindFirst_eq (firstLoop secondLoop : Text) :
    loopCollapseFindFirst firstLoop secondLoop =
      xevGoToLoop (fun _ cs => (path ["SgBasicBlock", "SgFortranDo"] cs).flatMap
        (loopCollapseFindSecond (nth 2 cs) firstLoop secondLoop)) firstLoop := rfl

/-- The second search of the rule for collapsing. -/
theorem loopCollapseFindSecond_eq (firstEnd : List Xml) (firstLoop secondLoop : Text) :
    loopCollapseFindSecond firstEnd firstLoop secondLoop =
      xevGoToLoop (fun attrs cs => [collapsedLoop firstEnd firstLoop attrs cs]) secondLoop := rfl

mutual

/-- The rule for unrolling, with anything in the place of the loop. -/
def unrollSearch (total factor : Nat) (loopName : Text) (loop : Attrs → List Xml → List Xml) :
    Xml → List Xml
  | .elem name attrs cs =>
      if name = "SgFortranDo" ∧ selectsLoop loopName cs = true then loop attrs cs
      else if name = "SgBasicBlock" ∧ named "SgFortranDo" cs = [] then
        [unrolledBlock total factor loopName cs]
      else [.elem name attrs (unrollSearchAll total factor loopName loop cs)]
  | .text t => [.text t]
  | .comment _ => []

/-- The rule on the nodes it is applied to. -/
def unrollSearchAll (total factor : Nat) (loopName : Text) (loop : Attrs → List Xml → List Xml) :
    List Xml → List Xml
  | [] => []
  | x :: xs =>
      unrollSearch total factor loopName loop x ++ unrollSearchAll total factor loopName loop xs

end

/-- What the rule for unrolling puts in the place of a loop. -/
def unrolledLoop (total factor : Nat) (loopName : Text) (attrs : Attrs) (cs : List Xml) :
    List Xml :=
  [.elem "SgFortranDo" attrs (nth 1 cs ++ nth 2 cs ++ [paramVal factor] ++
    xevLoopUnrollBlocks total factor loopName cs ++ named "PreprocessingInfo" cs)]

theorem xevLoopUnroll_eq_search (total factor : Nat) (loopName : Text) :
    (∀ x, xevLoopUnroll total factor loopName x =
        unrollSearch total factor loopName (unrolledLoop total factor loopName) x) ∧
      ∀ xs, xevLoopUnrolls total factor loopName xs =
        unrollSearchAll total factor loopName (unrolledLoop total factor loopName) xs := by
  refine Xml.induct ?elem ?text ?comment ?nil ?cons
  case elem =>
    intro name attrs cs ih
    rw [xevLoopUnroll, unrollSearch, ih]
    by_cases hsel : name = "SgFortranDo" ∧ selectsLoop loopName cs = true
    · rw [if_pos hsel, if_pos hsel, unrolledLoop, hsel.1]
    · rw [if_neg hsel, if_neg hsel]
  case text =>
    intro t
    rw [xevLoopUnroll, unrollSearch]
  case comment =>
    intro t
    rw [xevLoopUnroll, unrollSearch]
  case nil => rw [xevLoopUnrolls, unrollSearchAll]
  case cons =>
    intro x xs hx ih
    rw [xevLoopUnrolls, unrollSearchAll, hx, ih]

end Searches

section Property

/-- The index of a loop: the variable its first child assigns to. -/
def controlVariable (cs : List Xml) : Option Text :=
  match elements cs with
  | [] => none
  | init :: _ =>
      if init.hasName "SgAssignOp" = true then
        match elements init.children with
        | [] => none
        | var :: _ => if var.hasName "SgVarRefExp" = true then var.attr "name" else none
      else none

mutual

/-- The tree in which something is put in the place of the loops over a variable that are not
    inside of another one, and everything else is as it was. -/
def atLoops (loopName : Text) (act : Attrs → List Xml → List Xml) : Xml → List Xml
  | .elem name attrs cs =>
      if name = "SgFortranDo" ∧ controlVariable cs = some loopName then act attrs cs
      else [.elem name attrs (atLoopsAll loopName act cs)]
  | .text t => [.text t]
  | .comment t => [.comment t]

/-- The same for a list of trees. -/
def atLoopsAll (loopName : Text) (act : Attrs → List Xml → List Xml) : List Xml → List Xml
  | [] => []
  | x :: xs => atLoops loopName act x ++ atLoopsAll loopName act xs

end

/-- The rules find the outermost loops over a variable and no others, whatever they put in
    their places, and copy the rest. -/
def SelectsByName (total factor : Nat) (loopName : Text) (x : Xml) : Prop :=
  (∀ hook, xevGoToLoop hook loopName x = atLoops loopName hook x) ∧
    (∀ loop, unrollSearch total factor loopName loop x = atLoops loopName loop x) ∧
    xevLoopUnroll total factor loopName x =
      atLoops loopName (unrolledLoop total factor loopName) x ∧
    (∀ secondLoop, loopCollapseFindFirst loopName secondLoop x =
      atLoops loopName (fun _ cs => (path ["SgBasicBlock", "SgFortranDo"] cs).flatMap
        (loopCollapseFindSecond (nth 2 cs) loopName secondLoop)) x) ∧
    ∀ firstEnd firstLoop, loopCollapseFindSecond firstEnd firstLoop loopName x =
      atLoops loopName (fun attrs cs => [collapsedLoop firstEnd firstLoop attrs cs]) x

mutual

/-- The loops that are found have the variable for their index, and there is no comment
    outside of them. -/
def OwnIndex (loopName : Text) : Xml → Prop
  | .elem name _ cs =>
      if name = "SgFortranDo" ∧ selectsLoop loopName cs = true then
        controlVariable cs = some loopName
      else OwnIndexes loopName cs
  | .text _ => True
  | .comment _ => False

/-- The same for a list of trees. -/
def OwnIndexes (loopName : Text) : List Xml → Prop
  | [] => True
  | x :: xs => OwnIndex loopName x ∧ OwnIndexes loopName xs

end

/-- A block that is not changed by being unrolled: it has no attributes and nothing but
    elements in it, no loop is found in it, and there are no further copies of anything. -/
def Idle (total factor : Nat) (loopName : Text) (attrs : Attrs) (cs : List Xml) : Prop :=
  attrs = [] ∧ (∀ c ∈ cs, c.isElem = true) ∧ allUnselected loopName cs = true ∧
    (furtherCopies total factor = 0 ∨
      ∀ c ∈ cs, c.hasName "SgVarRefExp" = true ∧ c.attr "name" = none)

mutual

/-- Outside of the loops that are found, the blocks without a loop right in them are not
    changed by being unrolled. -/
def BlocksKept (total factor : Nat) (loopName : Text) : Xml → Prop
  | .elem name attrs cs =>
      if name = "SgFortranDo" ∧ selectsLoop loopName cs = true then True
      else if name = "SgBasicBlock" ∧ named "SgFortranDo" cs = [] then
        Idle total factor loopName attrs cs
      else AllBlocksKept total factor loopName cs
  | .text _ => True
  | .comment _ => True

/-- The same for a list of trees. -/
def AllBlocksKept (total factor : Nat) (loopName : Text) : List Xml → Prop
  | [] => True
  | x :: xs => BlocksKept total factor loopName x ∧ AllBlocksKept total factor loopName xs

end

end Property

section Selection

variable {loopName : Text}

theorem mem_of_mem_elements {x : Xml} {ns : List Xml} (h : x ∈ elements ns) : x ∈ ns :=
  List.mem_of_mem_filter h

/-- The test is passed by every loop over the variable. -/
theorem selectsLoop_of_controlVariable {cs : List Xml} (h : controlVariable cs = some loopName) :
    selectsLoop loopName cs = true := by
  unfold controlVariable at h
  cases hcs : elements cs with
  | nil =>
      rw [hcs] at h
      exact absurd h (by simp)
  | cons init rest =>
      simp only [hcs] at h
      by_cases hassign : init.hasName "SgAssignOp" = true
      · rw [if_pos hassign] at h
        cases hparts : elements init.children with
        | nil =>
            rw [hparts] at h
            exact absurd h (by simp)
        | cons var vars =>
            simp only [hparts] at h
            by_cases hvar : var.hasName "SgVarRefExp" = true
            · rw [if_pos hvar] at h
              have hinit : init ∈ named "SgAssignOp" cs :=
                List.mem_filter.mpr ⟨mem_of_mem_elements (by rw [hcs]; exact List.mem_cons_self),
                  hassign⟩
              have hmem : var ∈ named "SgVarRefExp" init.children :=
                List.mem_filter.mpr ⟨mem_of_mem_elements (by rw [hparts]; exact List.mem_cons_self),
                  hvar⟩
              unfold selectsLoop attributes
              rw [List.contains_iff_mem, List.mem_filterMap]
              refine ⟨var, ?_, h⟩
              rw [path_cons_cons, List.mem_flatMap]
              exact ⟨init, hinit, hmem⟩
            · rw [if_neg hvar] at h
              exact absurd h (by simp)
      · rw [if_neg hassign] at h
        exact absurd h (by simp)

/-- The search on the nodes below an element. -/
def xevGoToLoops (hook : Attrs → List Xml → List Xml) (loopName : Text) : List Xml → List Xml :=
  searchedAll fun attrs cs => if selectsLoop loopName cs = true then some (hook attrs cs) else none

theorem xevGoToLoop_elem (hook : Attrs → List Xml → List Xml) (name : String) (attrs : Attrs)
    (cs : List Xml) :
    xevGoToLoop hook loopName (.elem name attrs cs) =
      if name = "SgFortranDo" ∧ selectsLoop loopName cs = true then hook attrs cs
      else [.elem name attrs (xevGoToLoops hook loopName cs)] := by
  unfold xevGoToLoop xevGoToLoops
  rw [searched]
  by_cases hname : name = "SgFortranDo"
  · by_cases hsel : selectsLoop loopName cs = true
    · rw [if_pos hname, if_pos hsel, if_pos ⟨hname, hsel⟩]
    · rw [if_pos hname, if_neg hsel, if_neg fun h => hsel h.2]
  · rw [if_neg hname, if_neg fun h => hname h.1]

theorem xevGoToLoops_cons (hook : Attrs → List Xml → List Xml) (x : Xml) (xs : List Xml) :
    xevGoToLoops hook loopName (x :: xs) =
      xevGoToLoop hook loopName x ++ xevGoToLoops hook loopName xs := rfl

mutual

/-- The number of nodes in a tree. -/
def nodeCount : Xml → Nat
  | .elem _ _ cs => nodeCounts cs + 1
  | .text _ => 1
  | .comment _ => 1

/-- The number of nodes in a list of trees. -/
def nodeCounts : List Xml → Nat
  | [] => 0
  | x :: xs => nodeCount x + nodeCounts xs

end

theorem nodeCounts_append (xs ys : List Xml) :
    nodeCounts (xs ++ ys) = nodeCounts xs + nodeCounts ys := by
  induction xs with
  | nil => rw [List.nil_append, nodeCounts, Nat.zero_add]
  | cons x xs ih =>
      rw [List.cons_append, nodeCounts, nodeCounts, ih]
      omega

theorem nodeCounts_singleton (x : Xml) : nodeCounts [x] = nodeCount x := by
  rw [nodeCounts, nodeCounts, Nat.add_zero]

/-- If what is found is left out, the search leaves out at least the loops over the variable.
    It leaves out no more only if all loops it finds are such ones. -/
theorem nodeCount_search :
    (∀ x, nodeCounts (xevGoToLoop (fun _ _ => []) loopName x) ≤
          nodeCounts (atLoops loopName (fun _ _ => []) x) ∧
        (nodeCounts (xevGoToLoop (fun _ _ => []) loopName x) =
          nodeCounts (atLoops loopName (fun _ _ => []) x) → OwnIndex loopName x)) ∧
      ∀ xs, nodeCounts (xevGoToLoops (fun _ _ => []) loopName xs) ≤
          nodeCounts (atLoopsAll loopName (fun _ _ => []) xs) ∧
        (nodeCounts (xevGoToLoops (fun _ _ => []) loopName xs) =
          nodeCounts (atLoopsAll loopName (fun _ _ => []) xs) → OwnIndexes loopName xs) := by
  refine Xml.induct ?elem ?text ?comment ?nil ?cons
  case elem =>
    intro name attrs cs ih
    rw [xevGoToLoop_elem, atLoops, OwnIndex]
    by_cases hsel : name = "SgFortranDo" ∧ selectsLoop loopName cs = true
    · rw [if_pos hsel, if_pos hsel, nodeCounts]
      by_cases hown : controlVariable cs = some loopName
      · exact ⟨Nat.zero_le _, fun _ => hown⟩
      · -- A loop is left out that should have stayed.
        rw [if_neg fun h => hown h.2, nodeCounts_singleton, nodeCount]
        exact ⟨Nat.zero_le _, fun h => absurd h (by omega)⟩
    · have hnot : ¬ (name = "SgFortranDo" ∧ controlVariable cs = some loopName) :=
        fun h => hsel ⟨h.1, selectsLoop_of_controlVariable h.2⟩
      rw [if_neg hsel, if_neg hsel, if_neg hnot, nodeCounts_singleton, nodeCounts_singleton,
        nodeCount, nodeCount]
      exact ⟨Nat.add_le_add_right ih.1 1, fun h => ih.2 (Nat.add_right_cancel h)⟩
  case text =>
    intro t
    exact ⟨Nat.le_refl _, fun _ => trivial⟩
  case comment =>
    intro t
    -- A comment is lost.
    exact ⟨Nat.zero_le _, fun h => absurd (show 0 = 1 from h) (by decide)⟩
  case nil => exact ⟨Nat.le_refl _, fun _ => trivial⟩
  case cons =>
    intro x xs hx ih
    rw [xevGoToLoops_cons, atLoopsAll, nodeCounts_append, nodeCounts_append, OwnIndexes]
    refine ⟨Nat.add_le_add hx.1 ih.1, fun h => ?_⟩
    have hone := hx.1
    have hothers := ih.1
    exact ⟨hx.2 (by omega), ih.2 (by omega)⟩

/-- The search is right if the loops it finds have the variable for their index. -/
theorem xevGoToLoop_of_ownIndex (hook : Attrs → List Xml → List Xml) :
    (∀ x, OwnIndex loopName x → xevGoToLoop hook loopName x = atLoops loopName hook x) ∧
      ∀ xs, OwnIndexes loopName xs →
        xevGoToLoops hook loopName xs = atLoopsAll loopName hook xs := by
  refine Xml.induct ?elem ?text ?comment ?nil ?cons
  case elem =>
    intro name attrs cs ih hown
    rw [OwnIndex] at hown
    rw [xevGoToLoop_elem, atLoops]
    by_cases hsel : name = "SgFortranDo" ∧ selectsLoop loopName cs = true
    · rw [if_pos hsel] at hown
      rw [if_pos hsel, if_pos ⟨hsel.1, hown⟩]
    · have hnot : ¬ (name = "SgFortranDo" ∧ controlVariable cs = some loopName) :=
        fun h => hsel ⟨h.1, selectsLoop_of_controlVariable h.2⟩
      rw [if_neg hsel] at hown
      rw [if_neg hsel, if_neg hnot, ih hown]
  case text =>
    intro t _
    rfl
  case comment =>
    intro t hown
    exact hown.elim
  case nil =>
    intro _
    rfl
  case cons =>
    intro x xs hx ih hown
    rw [OwnIndexes] at hown
    rw [xevGoToLoops_cons, atLoopsAll, hx hown.1, ih hown.2]

/-- The search finds the outermost loops over the variable and no others exactly if the loops
    it finds have it for their index and no comment is in the way. -/
theorem xevGoToLoop_iff (loopName : Text) (x : Xml) :
    (∀ hook, xevGoToLoop hook loopName x = atLoops loopName hook x) ↔ OwnIndex loopName x := by
  constructor
  · intro h
    exact (nodeCount_search.1 x).2 (by rw [h])
  · intro h hook
    exact (xevGoToLoop_of_ownIndex hook).1 x h

end Selection

section Unrolling

variable {total factor : Nat} {loopName : Text}

/-- Where no loop is found, nothing is put in the place of one. -/
theorem atLoops_of_unselected (act : Attrs → List Xml → List Xml) :
    (∀ x, unselected loopName x = true → atLoops loopName act x = [x]) ∧
      ∀ xs, allUnselected loopName xs = true → atLoopsAll loopName act xs = xs := by
  refine Xml.induct ?elem ?text ?comment ?nil ?cons
  case elem =>
    intro name attrs cs ih hnone
    rw [unselected, Bool.and_eq_true] at hnone
    have hnot : ¬ (name = "SgFortranDo" ∧ controlVariable cs = some loopName) := by
      intro h
      have hsel := selectsLoop_of_controlVariable h.2
      rw [h.1, hsel] at hnone
      exact absurd hnone.1 (by decide)
    rw [atLoops, if_neg hnot, ih hnone.2]
  case text =>
    intro t _
    rfl
  case comment =>
    intro t _
    rfl
  case nil =>
    intro _
    rfl
  case cons =>
    intro x xs hx ih hnone
    rw [allUnselected, Bool.and_eq_true] at hnone
    rw [atLoopsAll, hx hnone.1, ih hnone.2, List.singleton_append]

/-- Two things put in the places of the loops make a difference if there is a loop. -/
theorem unselected_of_atLoops :
    (∀ x, OwnIndex loopName x →
        nodeCounts (atLoops loopName (fun _ _ => []) x) ≤
          nodeCounts (atLoops loopName (fun _ _ => [.text []]) x) ∧
        (nodeCounts (atLoops loopName (fun _ _ => []) x) =
          nodeCounts (atLoops loopName (fun _ _ => [.text []]) x) →
            unselected loopName x = true)) ∧
      ∀ xs, OwnIndexes loopName xs →
        nodeCounts (atLoopsAll loopName (fun _ _ => []) xs) ≤
          nodeCounts (atLoopsAll loopName (fun _ _ => [.text []]) xs) ∧
        (nodeCounts (atLoopsAll loopName (fun _ _ => []) xs) =
          nodeCounts (atLoopsAll loopName (fun _ _ => [.text []]) xs) →
            allUnselected loopName xs = true) := by
  refine Xml.induct ?elem ?text ?comment ?nil ?cons
  case elem =>
    intro name attrs cs ih hown
    rw [OwnIndex] at hown
    rw [atLoops, atLoops]
    -- A selected loop leaves nothing in the one tree and a node in the other.
    by_cases hsel : name = "SgFortranDo" ∧ selectsLoop loopName cs = true
    · rw [if_pos hsel] at hown
      rw [if_pos ⟨hsel.1, hown⟩, if_pos ⟨hsel.1, hown⟩]
      exact ⟨Nat.zero_le _, fun h => absurd h (by simp only [nodeCounts, nodeCount]; omega)⟩
    · have hnot : ¬ (name = "SgFortranDo" ∧ controlVariable cs = some loopName) :=
        fun h => hsel ⟨h.1, selectsLoop_of_controlVariable h.2⟩
      rw [if_neg hsel] at hown
      rw [if_neg hnot, if_neg hnot, nodeCounts_singleton, nodeCounts_singleton, nodeCount,
        nodeCount, unselected]
      refine ⟨Nat.add_le_add_right (ih hown).1 1, fun h => ?_⟩
      rw [(ih hown).2 (Nat.add_right_cancel h), Bool.and_true, Bool.not_eq_true',
        Bool.and_eq_false_iff, beq_eq_false_iff_ne]
      by_cases hname : name = "SgFortranDo"
      · right
        exact Bool.eq_false_iff.mpr fun h => hsel ⟨hname, h⟩
      · left
        exact hname
  case text =>
    intro t _
    exact ⟨Nat.le_refl _, fun _ => rfl⟩
  case comment =>
    intro t hown
    exact hown.elim
  case nil =>
    intro _
    exact ⟨Nat.le_refl _, fun _ => rfl⟩
  case cons =>
    intro x xs hx ih hown
    rw [OwnIndexes] at hown
    rw [atLoopsAll, atLoopsAll, nodeCounts_append, nodeCounts_append, allUnselected,
      Bool.and_eq_true]
    have hone := hx hown.1
    have hothers := ih hown.2
    refine ⟨Nat.add_le_add hone.1 hothers.1, fun h => ⟨hone.2 ?_, hothers.2 ?_⟩⟩
    · have h1 := hone.1
      have h2 := hothers.1
      omega
    · have h1 := hone.1
      have h2 := hothers.1
      omega

/-- A tree without comments and found loops is its own copy. -/
theorem copied_of_unselected :
    (∀ x, OwnIndex loopName x → unselected loopName x = true →
        x.copied = x ∧ x.isComment = false) ∧
      ∀ xs, OwnIndexes loopName xs → allUnselected loopName xs = true → copiedAll xs = xs := by
  refine Xml.induct ?elem ?text ?comment ?nil ?cons
  case elem =>
    intro name attrs cs ih hown hnone
    rw [unselected, Bool.and_eq_true] at hnone
    have hnot : ¬ (name = "SgFortranDo" ∧ selectsLoop loopName cs = true) := by
      intro h
      rw [h.1, h.2] at hnone
      exact absurd hnone.1 (by decide)
    rw [OwnIndex, if_neg hnot] at hown
    rw [Xml.copied, ih hown hnone.2]
    exact ⟨rfl, rfl⟩
  case text =>
    intro t _ _
    exact ⟨rfl, rfl⟩
  case comment =>
    intro t hown _
    exact hown.elim
  case nil =>
    intro _ _
    rfl
  case cons =>
    intro x xs hx ih hown hnone
    rw [OwnIndexes] at hown
    rw [allUnselected, Bool.and_eq_true] at hnone
    have hone := hx hown.1 hnone.1
    rw [copiedAll_cons_of_not (by rw [hone.2]; decide), hone.1, ih hown.2 hnone.2]

/-- Copies of elements are elements. -/
theorem isElem_of_mem_copiedAll {ns : List Xml} (hns : ∀ x ∈ ns, x.isElem = true) {y : Xml}
    (hy : y ∈ copiedAll ns) : y.isElem = true := by
  induction ns with
  | nil => exact absurd hy List.not_mem_nil
  | cons n ns ih =>
      have hn := hns n List.mem_cons_self
      rw [copiedAll_cons_of_not (not_isComment_of_isElem hn)] at hy
      rcases List.mem_cons.mp hy with rfl | hy
      · rw [isElem_copied, hn]
      · exact ih (fun x hx => hns x (List.mem_cons_of_mem _ hx)) hy

/-- A statement of a further copy is an element. -/
theorem isElem_of_mem_loopUnrollBody {k : Nat} {x y : Xml} (hx : x.isElem = true)
    (hy : y ∈ loopUnrollBody loopName k x) : y.isElem = true := by
  cases x with
  | text t => exact Bool.noConfusion hx
  | comment t => exact Bool.noConfusion hx
  | elem name attrs cs =>
      rw [loopUnrollBody] at hy
      by_cases hvar : name = "SgVarRefExp"
      · rw [if_pos hvar] at hy
        cases hname : attrs.lookup "name" with
        | none =>
            rw [hname] at hy
            exact absurd hy List.not_mem_nil
        | some z =>
            simp only [hname] at hy
            by_cases hz : z = loopName
            · rw [if_pos hz] at hy
              obtain rfl := List.mem_singleton.mp hy
              rfl
            · rw [if_neg hz] at hy
              obtain rfl := List.mem_singleton.mp hy
              rfl
      · rw [if_neg hvar] at hy
        obtain rfl := List.mem_singleton.mp hy
        rfl

theorem isElem_of_mem_loopUnrollBodies {k : Nat} {ns : List Xml}
    (hns : ∀ x ∈ ns, x.isElem = true) {y : Xml} (hy : y ∈ loopUnrollBodies loopName k ns) :
    y.isElem = true := by
  induction ns with
  | nil => exact absurd hy List.not_mem_nil
  | cons n ns ih =>
      rw [loopUnrollBodies] at hy
      rcases List.mem_append.mp hy with hy | hy
      · exact isElem_of_mem_loopUnrollBody (hns n List.mem_cons_self) hy
      · exact ih (fun x hx => hns x (List.mem_cons_of_mem _ hx)) hy

/-- An unrolled block has nothing but elements in it. -/
theorem isElem_of_mem_unrolledCopy {k : Nat} {ns : List Xml} {y : Xml}
    (hy : y ∈ unrolledCopy loopName ns k) : y.isElem = true := by
  have hns : ∀ x ∈ elements ns, x.isElem = true := fun x hx => (List.mem_filter.mp hx).2
  unfold unrolledCopy at hy
  by_cases hk : k = 0
  · rw [if_pos hk] at hy
    exact isElem_of_mem_copiedAll hns hy
  · rw [if_neg hk] at hy
    exact isElem_of_mem_loopUnrollBodies hns hy

/-- A statement leaves nothing in a further copy only if it is a variable without a name. -/
theorem loopUnrollBody_eq_nil_iff {k : Nat} {x : Xml} (hx : x.isElem = true) :
    loopUnrollBody loopName k x = [] ↔
      x.hasName "SgVarRefExp" = true ∧ x.attr "name" = none := by
  cases x with
  | text t => exact Bool.noConfusion hx
  | comment t => exact Bool.noConfusion hx
  | elem name attrs cs =>
      rw [loopUnrollBody, Xml.hasName_elem, Xml.attr_elem, beq_iff_eq]
      by_cases hvar : name = "SgVarRefExp"
      · rw [if_pos hvar]
        cases hname : attrs.lookup "name" with
        | none => simp [hvar]
        | some z =>
            simp only [hvar, true_and, reduceCtorEq, iff_false]
            by_cases hz : z = loopName
            · rw [if_pos hz]
              exact List.cons_ne_nil _ _
            · rw [if_neg hz]
              exact List.cons_ne_nil _ _
      · rw [if_neg hvar]
        exact iff_of_false (List.cons_ne_nil _ _) fun h => hvar h.1

theorem loopUnrollBodies_eq_nil_iff {k : Nat} {ns : List Xml} (hns : ∀ x ∈ ns, x.isElem = true) :
    loopUnrollBodies loopName k ns = [] ↔
      ∀ x ∈ ns, x.hasName "SgVarRefExp" = true ∧ x.attr "name" = none := by
  induction ns with
  | nil => simp [loopUnrollBodies]
  | cons n ns ih =>
      rw [loopUnrollBodies, List.append_eq_nil_iff, List.forall_mem_cons,
        loopUnrollBody_eq_nil_iff (hns n List.mem_cons_self),
        ih fun x hx => hns x (List.mem_cons_of_mem _ hx)]

/-- The statements of an unrolled block are the old ones exactly if these are elements and no
    further copy has anything in it. -/
theorem unrolledCopies_eq_self_iff {cs : List Xml} (hcopy : copiedAll cs = cs) :
    (List.range (furtherCopies total factor + 1)).flatMap (unrolledCopy loopName cs) = cs ↔
      (∀ c ∈ cs, c.isElem = true) ∧ (furtherCopies total factor = 0 ∨
        ∀ c ∈ cs, c.hasName "SgVarRefExp" = true ∧ c.attr "name" = none) := by
  have hfirst : unrolledCopy loopName cs 0 = copiedAll (elements cs) := if_pos rfl
  rw [List.range_succ_eq_map, List.flatMap_cons, hfirst, List.flatMap_map]
  constructor
  · intro h
    have helems : ∀ c ∈ cs, c.isElem = true := by
      intro c hc
      rw [← h] at hc
      rcases List.mem_append.mp hc with hc | hc
      · have hcopied : c ∈ unrolledCopy loopName cs 0 := hfirst ▸ hc
        exact isElem_of_mem_unrolledCopy hcopied
      · rcases List.mem_flatMap.mp hc with ⟨k, -, hc⟩
        exact isElem_of_mem_unrolledCopy hc
    have hall : elements cs = cs := List.filter_eq_self.mpr helems
    refine ⟨helems, ?_⟩
    rw [hall, hcopy] at h
    have hrest := List.append_right_eq_self.mp h
    rcases Nat.eq_zero_or_pos (furtherCopies total factor) with hzero | hpos
    · exact .inl hzero
    · right
      -- A further copy is empty only when all it copies are variables without a name.
      have hone := List.flatMap_eq_nil_iff.mp hrest 0 (List.mem_range.mpr hpos)
      unfold unrolledCopy at hone
      rw [if_neg (Nat.succ_ne_zero 0), hall] at hone
      exact (loopUnrollBodies_eq_nil_iff helems).mp hone
  · intro h
    have hall : elements cs = cs := List.filter_eq_self.mpr h.1
    have hrest : (List.range (furtherCopies total factor)).flatMap
        (fun k => unrolledCopy loopName cs (k + 1)) = [] := by
      rcases h.2 with hzero | hunnamed
      · rw [hzero]
        rfl
      · rw [List.flatMap_eq_nil_iff]
        intro k _
        unfold unrolledCopy
        rw [if_neg (Nat.succ_ne_zero k), hall]
        exact (loopUnrollBodies_eq_nil_iff h.1).mpr hunnamed
    rw [hall, hcopy]
    exact List.append_right_eq_self.mpr hrest

/-- A block without a loop right in it is kept exactly if it is idle. -/
theorem unrolledBlock_iff (attrs : Attrs) {cs : List Xml} (hown : OwnIndexes loopName cs) :
    (∀ act, [unrolledBlock total factor loopName cs] =
        [.elem "SgBasicBlock" attrs (atLoopsAll loopName act cs)]) ↔
      Idle total factor loopName attrs cs := by
  unfold unrolledBlock basicBlock Idle
  simp only [List.cons.injEq, Xml.elem.injEq, true_and, and_true]
  constructor
  · intro h
    -- The left side does not depend on what is put in the place of a loop.
    have hsame := (h fun _ _ => []).2.symm.trans (h fun _ _ => [.text []]).2
    have hnone : allUnselected loopName cs = true :=
      ((unselected_of_atLoops.2 cs hown).2 (by rw [hsame]))
    have hcopies := (h fun _ _ => []).2
    rw [(atLoops_of_unselected _).2 cs hnone,
      unrolledCopies_eq_self_iff (copied_of_unselected.2 cs hown hnone)] at hcopies
    exact ⟨(h fun _ _ => []).1.symm, hcopies.1, hnone, hcopies.2⟩
  · intro h act
    rw [(atLoops_of_unselected act).2 cs h.2.2.1,
      unrolledCopies_eq_self_iff (copied_of_unselected.2 cs hown h.2.2.1)]
    exact ⟨h.1.symm, h.2.1, h.2.2.2⟩

theorem length_unrollSearch (act : Attrs → List Xml → List Xml) {x : Xml}
    (hown : OwnIndex loopName x) :
    (unrollSearch total factor loopName act x).length = (atLoops loopName act x).length := by
  cases x with
  | text t => rfl
  | comment t => exact hown.elim
  | elem name attrs cs =>
      rw [OwnIndex] at hown
      rw [unrollSearch, atLoops]
      by_cases hsel : name = "SgFortranDo" ∧ selectsLoop loopName cs = true
      · rw [if_pos hsel] at hown
        rw [if_pos hsel, if_pos ⟨hsel.1, hown⟩]
      · have hnot : ¬ (name = "SgFortranDo" ∧ controlVariable cs = some loopName) :=
          fun h => hsel ⟨h.1, selectsLoop_of_controlVariable h.2⟩
        rw [if_neg hsel, if_neg hnot]
        by_cases hblock : name = "SgBasicBlock" ∧ named "SgFortranDo" cs = []
        · rw [if_pos hblock]
          rfl
        · rw [if_neg hblock]
          rfl

/-- If the loops that are found are the right ones, the rule for unrolling copies everything
    else exactly if the blocks without a loop right in them are idle. -/
theorem unrollSearch_iff :
    (∀ x, OwnIndex loopName x →
        ((∀ act, unrollSearch total factor loopName act x = atLoops loopName act x) ↔
          BlocksKept total factor loopName x)) ∧
      ∀ xs, OwnIndexes loopName xs →
        ((∀ act, unrollSearchAll total factor loopName act xs = atLoopsAll loopName act xs) ↔
          AllBlocksKept total factor loopName xs) := by
  refine Xml.induct ?elem ?text ?comment ?nil ?cons
  case elem =>
    intro name attrs cs ih hown
    rw [OwnIndex] at hown
    simp only [unrollSearch, atLoops, BlocksKept]
    by_cases hsel : name = "SgFortranDo" ∧ selectsLoop loopName cs = true
    · rw [if_pos hsel] at hown
      simp only [if_pos hsel, if_pos (And.intro hsel.1 hown), implies_true]
    · have hnot : ¬ (name = "SgFortranDo" ∧ controlVariable cs = some loopName) :=
        fun h => hsel ⟨h.1, selectsLoop_of_controlVariable h.2⟩
      rw [if_neg hsel] at hown
      simp only [if_neg hsel, if_neg hnot]
      -- A block without a loop is where the search puts copies.
      by_cases hblock : name = "SgBasicBlock" ∧ named "SgFortranDo" cs = []
      · simp only [if_pos hblock]
        rw [hblock.1]
        exact unrolledBlock_iff attrs hown
      · simp only [if_neg hblock]
        rw [← ih hown]
        simp only [List.cons.injEq, Xml.elem.injEq, true_and, and_true]
  case text =>
    intro t _
    exact iff_of_true (fun _ => rfl) trivial
  case comment =>
    intro t hown
    exact hown.elim
  case nil =>
    intro _
    exact iff_of_true (fun _ => rfl) trivial
  case cons =>
    intro x xs hx ih hown
    rw [OwnIndexes] at hown
    rw [AllBlocksKept, ← hx hown.1, ← ih hown.2, ← forall_and]
    refine forall_congr' fun act => ?_
    rw [unrollSearchAll, atLoopsAll]
    constructor
    · intro h
      exact List.append_inj h (length_unrollSearch act hown.1)
    · intro h
      rw [h.1, h.2]

end Unrolling

section Examples

/-- A loop over `j` whose lower bound is the variable `i`. -/
def fromVariable : DoLoop :=
  DoLoop.plain ['j'] (Expr.var ['i']) (Expr.int 9) (Expr.int 1) []

end Examples

end XevXml
