import XevXml.Trans.Unroll

/-!
# How Many Copies

The rule for unrolling has no counter. It visits the first elements of the
document, as many as it wants copies, and makes one copy at each. A temporary
tree, such as a chain of rules hands on, has only the elements of the loop
itself, and if these are fewer, so are the copies. The stride is the factor
all the same, so the new loop leaves iterations out.

A copy is the body with the number of the copy added to the index. The number
of elements in it tells whether that is what was made: it does not depend on
the number that is added, and it is smaller where a variable is left out.

## Main definitions

* `allElements`: The selection of all elements of a document.
* `incremented`: A statement with a number added to a variable.
* `EmitsCopies`: The new loop has as many copies as the factor says, and
  executes the instances of the body that the old one did.

## Theorems

* `length_forEach`: The number of copies the rule makes.
* `unrolled_statements_iff`: When the body consists of the copies it should.
* `emits_copies_iff`: When the new loop is what it should be.
-/

namespace XevXml

section Document

mutual

/-- The elements of a tree in the order of the document. -/
def allElements : Xml → List Xml
  | .elem name attrs cs => .elem name attrs cs :: allElementsOf cs
  | .text _ => []
  | .comment _ => []

/-- The selection of all elements of a document with the given nodes. -/
def allElementsOf : List Xml → List Xml
  | [] => []
  | x :: xs => allElements x ++ allElementsOf xs

end

theorem allElementsOf_append (ns ms : List Xml) :
    allElementsOf (ns ++ ms) = allElementsOf ns ++ allElementsOf ms := by
  induction ns with
  | nil => rfl
  | cons n ns ih =>
      rw [List.cons_append, allElementsOf, allElementsOf, ih, List.append_assoc]

theorem length_allElementsOf_flatMap {α : Type*} (l : List α) (f : α → List Xml) :
    (allElementsOf (l.flatMap f)).length = (l.map fun a => (allElementsOf (f a)).length).sum := by
  induction l with
  | nil => rfl
  | cons a l ih =>
      rw [List.flatMap_cons, allElementsOf_append, List.length_append, ih, List.map_cons,
        List.sum_cons]

/-- The rule in a document with the given nodes. -/
def unrollIn (doc : List Xml) (factor : Nat) (loopName : Text) (x : Xml) : List Xml :=
  xevLoopUnroll (allElementsOf doc).length factor loopName x

/-- One copy is made at each of the first elements of the document. -/
theorem length_forEach (doc : List Xml) (factor : Nat) :
    ((allElementsOf doc).take (factor - 1)).length =
      furtherCopies (allElementsOf doc).length factor := by
  rw [List.length_take, furtherCopies]

end Document

section Incremented

mutual

/-- A statement in which a number is added to every reference to a variable. -/
def incremented (loopName : Text) (cnt : Nat) : Xml → Xml
  | .elem name attrs cs =>
      if name = "SgVarRefExp" then
        if attrs.lookup "name" = some loopName then
          .elem "SgAddOp" [] [.elem name attrs cs, paramVal cnt]
        else .elem name attrs cs
      else .elem name attrs (incrementedAll loopName cnt cs)
  | .text t => .text t
  | .comment t => .comment t

/-- The same for a list of nodes. Comments are not copied. -/
def incrementedAll (loopName : Text) (cnt : Nat) : List Xml → List Xml
  | [] => []
  | x :: xs =>
      if x.isComment = true then incrementedAll loopName cnt xs
      else incremented loopName cnt x :: incrementedAll loopName cnt xs

end

variable (loopName : Text)

/-- If all variables have a name, this is what the copies are. -/
theorem loopUnrollBody_eq_incremented (cnt : Nat) :
    (∀ x : Xml, variablesNamed x = true →
        loopUnrollBody loopName cnt x = if x.isComment = true then [] else
          [incremented loopName cnt x]) ∧
      ∀ xs, allVariablesNamed xs = true →
        loopUnrollBodies loopName cnt xs = incrementedAll loopName cnt xs := by
  refine Xml.induct ?elem ?text ?comment ?nil ?cons
  case elem =>
    intro name attrs cs ih hnamed
    rw [variablesNamed] at hnamed
    have hcomment : ¬ (Xml.elem name attrs cs).isComment = true := Bool.false_ne_true
    rw [if_neg hcomment, loopUnrollBody, incremented]
    by_cases hvar : name = "SgVarRefExp"
    · rw [if_pos hvar] at hnamed ⊢
      rw [if_pos hvar]
      rcases Option.isSome_iff_exists.mp hnamed with ⟨y, hname⟩
      simp only [hname, Option.some.injEq]
      split <;> rfl
    · rw [if_neg hvar] at hnamed ⊢
      rw [if_neg hvar, ih hnamed]
  case text =>
    intro t _
    rfl
  case comment =>
    intro t _
    rfl
  case nil =>
    intro _
    rfl
  case cons =>
    intro x xs hx ih hnamed
    rw [allVariablesNamed, Bool.and_eq_true] at hnamed
    rw [loopUnrollBodies, incrementedAll, hx hnamed.1, ih hnamed.2]
    split <;> rfl

/-- The number of elements does not depend on the number that is added. -/
theorem length_incremented (cnt : Nat) :
    (∀ x, (allElements (incremented loopName cnt x)).length =
        (allElements (incremented loopName 0 x)).length) ∧
      ∀ xs, (allElementsOf (incrementedAll loopName cnt xs)).length =
        (allElementsOf (incrementedAll loopName 0 xs)).length := by
  refine Xml.induct ?elem ?text ?comment ?nil ?cons
  case elem =>
    intro name attrs cs ih
    rw [incremented, incremented]
    by_cases hvar : name = "SgVarRefExp"
    · rw [if_pos hvar, if_pos hvar]
      split <;> simp [allElements, allElementsOf, paramVal]
    · rw [if_neg hvar, if_neg hvar, allElements, allElements, List.length_cons,
        List.length_cons, ih]
  case text =>
    intro t
    rfl
  case comment =>
    intro t
    rfl
  case nil => rfl
  case cons =>
    intro x xs hx ih
    rw [incrementedAll, incrementedAll]
    split
    · exact ih
    · rw [allElementsOf, allElementsOf, List.length_append, List.length_append, hx, ih]

theorem length_loopUnrollBody (cnt : Nat) :
    (∀ x, (allElementsOf (loopUnrollBody loopName cnt x)).length =
        (allElementsOf (loopUnrollBody loopName 0 x)).length) ∧
      ∀ xs, (allElementsOf (loopUnrollBodies loopName cnt xs)).length =
        (allElementsOf (loopUnrollBodies loopName 0 xs)).length := by
  refine Xml.induct ?elem ?text ?comment ?nil ?cons
  case elem =>
    intro name attrs cs ih
    rw [loopUnrollBody, loopUnrollBody]
    by_cases hvar : name = "SgVarRefExp"
    · rw [if_pos hvar, if_pos hvar]
      cases attrs.lookup "name" with
      | none => rfl
      | some y =>
          simp only
          split <;> simp [allElements, allElementsOf, paramVal]
    · rw [if_neg hvar, if_neg hvar]
      simp only [allElementsOf, allElements, List.append_nil, List.length_cons, ih]
  case text =>
    intro t
    rfl
  case comment =>
    intro t
    rfl
  case nil => rfl
  case cons =>
    intro x xs hx ih
    rw [loopUnrollBodies, loopUnrollBodies, allElementsOf_append, allElementsOf_append,
      List.length_append, List.length_append, hx, ih]

/-- A copy has all elements exactly if no variable is left out. -/
theorem length_loopUnrollBody_le (cnt : Nat) :
    (∀ x, (allElementsOf (loopUnrollBody loopName cnt x)).length ≤
          (allElements (incremented loopName cnt x)).length ∧
        ((allElementsOf (loopUnrollBody loopName cnt x)).length =
          (allElements (incremented loopName cnt x)).length → variablesNamed x = true)) ∧
      ∀ xs, (allElementsOf (loopUnrollBodies loopName cnt xs)).length ≤
          (allElementsOf (incrementedAll loopName cnt xs)).length ∧
        ((allElementsOf (loopUnrollBodies loopName cnt xs)).length =
          (allElementsOf (incrementedAll loopName cnt xs)).length →
            allVariablesNamed xs = true) := by
  refine Xml.induct ?elem ?text ?comment ?nil ?cons
  case elem =>
    intro name attrs cs ih
    rw [loopUnrollBody, incremented, variablesNamed]
    -- A variable without a name is left out of a copy, and nothing else is.
    by_cases hvar : name = "SgVarRefExp"
    · rw [if_pos hvar, if_pos hvar, if_pos hvar]
      cases hname : attrs.lookup "name" with
      | none => simp [allElementsOf, allElements]
      | some y =>
          simp only [Option.some.injEq, Option.isSome_some, implies_true, and_true]
          split <;> simp [allElementsOf]
    · rw [if_neg hvar, if_neg hvar, if_neg hvar]
      simp only [allElementsOf, allElements, List.append_nil, List.length_cons,
        Nat.add_le_add_iff_right, Nat.add_right_cancel_iff]
      exact ih
  case text =>
    intro t
    exact ⟨Nat.le_refl _, fun _ => rfl⟩
  case comment =>
    intro t
    exact ⟨Nat.le_refl _, fun _ => rfl⟩
  case nil => exact ⟨Nat.le_refl _, fun _ => rfl⟩
  case cons =>
    intro x xs hx ih
    rw [loopUnrollBodies, incrementedAll, allElementsOf_append, List.length_append,
      allVariablesNamed, Bool.and_eq_true]
    by_cases hcomment : x.isComment = true
    · have hnone : loopUnrollBody loopName cnt x = [] := by
        cases x with
        | elem name attrs cs => exact Bool.noConfusion hcomment
        | text t => exact Bool.noConfusion hcomment
        | comment t => rfl
      have hnamed : variablesNamed x = true := by
        cases x with
        | elem name attrs cs => exact Bool.noConfusion hcomment
        | text t => rfl
        | comment t => rfl
      rw [if_pos hcomment, hnone, allElementsOf, List.length_nil, Nat.zero_add]
      exact ⟨ih.1, fun h => ⟨hnamed, ih.2 h⟩⟩
    · rw [if_neg hcomment, allElementsOf, List.length_append]
      have hle := hx.1
      have hles := ih.1
      refine ⟨by omega, fun h => ⟨hx.2 ?_, ih.2 ?_⟩⟩
      · omega
      · omega

end Incremented

section Statements

variable {total factor : Nat} {loopName : Text} {ns : List Xml}

theorem isElem_incremented (loopName : Text) (cnt : Nat) (x : Xml) :
    (incremented loopName cnt x).isElem = x.isElem := by
  cases x with
  | elem name attrs cs =>
      rw [incremented]
      split
      · split <;> rfl
      · rfl
  | text t => rfl
  | comment t => rfl

theorem incrementedAll_elements (cnt : Nat) (ns : List Xml) :
    incrementedAll loopName cnt (elements ns) = (elements ns).map (incremented loopName cnt) := by
  induction ns with
  | nil => rfl
  | cons n ns ih =>
      by_cases helem : n.isElem = true
      · rw [elements_cons_of_isElem helem, incrementedAll,
          if_neg (not_isComment_of_isElem helem), List.map_cons, ih]
      · have hnone : elements (n :: ns) = elements ns := List.filter_cons_of_neg helem
        rw [hnone, ih]

/-- The statements that should be in the block. -/
def wantedStatements (factor : Nat) (loopName : Text) (ns : List Xml) : List Xml :=
  (elements ns).map Xml.copied ++
    (List.range (factor - 1)).flatMap fun i => (elements ns).map (incremented loopName (i + 1))

/-- The statements of the block are a copy by the identity templates and the further ones. -/
theorem elements_unrolledBlock (total factor : Nat) (loopName : Text) (ns : List Xml) :
    elements (unrolledBlock total factor loopName ns).children =
      (elements ns).map Xml.copied ++ (List.range (furtherCopies total factor)).flatMap fun i =>
        elements (loopUnrollBodies loopName (i + 1) (elements ns)) := by
  have hparts : ∀ l : List Nat, elements (l.flatMap (unrolledCopy loopName ns)) =
      l.flatMap fun k => elements (unrolledCopy loopName ns k) := fun _ => List.filter_flatMap
  have hfirst : elements (unrolledCopy loopName ns 0) = (elements ns).map Xml.copied := by
    rw [unrolledCopy, if_pos rfl, elements_copiedAll, elements_elements]
  rw [unrolledBlock, basicBlock, Xml.children_elem, hparts, List.range_succ_eq_map,
    List.flatMap_cons, hfirst, List.flatMap_map]
  rfl

theorem elements_loopUnrollBodies (cnt : Nat) :
    elements (loopUnrollBodies loopName cnt (elements ns)) =
      loopUnrollBodies loopName cnt (elements ns) := by
  induction ns with
  | nil => rfl
  | cons n ns ih =>
      by_cases helem : n.isElem = true
      · rw [elements_cons_of_isElem helem, loopUnrollBodies, elements_append, ih]
        congr 1
        cases n with
        | elem name attrs cs =>
            rw [loopUnrollBody]
            split
            · split
              · split <;> rfl
              · rfl
            · rfl
        | text t => exact Bool.noConfusion helem
        | comment t => exact Bool.noConfusion helem
      · have hnone : elements (n :: ns) = elements ns := List.filter_cons_of_neg helem
        rw [hnone, ih]

/-- The copies are there: the body has no statement, or there are as many elements in the document
    as copies are made, and no variable is left out of them. -/
def CopiesMade (total factor : Nat) (ns : List Xml) : Prop :=
  elements ns = [] ∨ factor ≤ total + 1 ∧ (factor ≤ 1 ∨ allVariablesNamed ns = true)

/-- A copy with an element has a positive number of elements. -/
theorem length_incremented_pos (hne : elements ns ≠ []) :
    0 < (allElementsOf (incrementedAll loopName 0 (elements ns))).length := by
  rcases List.exists_cons_of_ne_nil hne with ⟨x, xs, hxs⟩
  have hx : x.isElem = true := by
    have hmem : x ∈ elements ns := hxs ▸ List.mem_cons_self
    exact (List.mem_filter.mp hmem).2
  rw [incrementedAll_elements, hxs, List.map_cons, allElementsOf, List.length_append]
  have hpos : 0 < (allElements (incremented loopName 0 x)).length := by
    have helem := isElem_incremented loopName 0 x
    rw [hx] at helem
    cases hinc : incremented loopName 0 x with
    | elem name attrs cs =>
        rw [allElements]
        exact Nat.succ_pos _
    | text t =>
        rw [hinc] at helem
        exact Bool.noConfusion helem
    | comment t =>
        rw [hinc] at helem
        exact Bool.noConfusion helem
  omega

/-- The block has the statements it should have exactly if the copies are made. -/
theorem unrolled_statements_iff :
    elements (unrolledBlock total factor loopName ns).children =
        wantedStatements factor loopName ns ↔ CopiesMade total factor ns := by
  rw [elements_unrolledBlock, wantedStatements, List.append_cancel_left_eq, CopiesMade]
  simp only [elements_loopUnrollBodies, ← incrementedAll_elements]
  constructor
  · intro h
    by_cases hnil : elements ns = []
    · exact Or.inl hnil
    · refine Or.inr ?_
      -- Both sides have the same number of elements.
      have hlen := congrArg (fun l => (allElementsOf l).length) h
      simp only [length_allElementsOf_flatMap, (length_loopUnrollBody loopName _).2 (elements ns),
        (length_incremented loopName _).2 (elements ns), List.map_const', List.sum_replicate,
        List.length_range, smul_eq_mul] at hlen
      have hpos : 0 < (allElementsOf (incrementedAll loopName 0 (elements ns))).length :=
        length_incremented_pos hnil
      rcases (length_loopUnrollBody_le loopName 0).2 (elements ns) with ⟨hle, hnamed⟩
      set made := (allElementsOf (loopUnrollBodies loopName 0 (elements ns))).length
      set wanted := (allElementsOf (incrementedAll loopName 0 (elements ns))).length
      have hcopies : furtherCopies total factor ≤ factor - 1 := Nat.min_le_left _ _
      have hcount : furtherCopies total factor = factor - 1 := by
        refine Nat.le_antisymm hcopies (Nat.le_of_not_lt fun hlt => ?_)
        have hless : furtherCopies total factor * made < (factor - 1) * wanted :=
          calc furtherCopies total factor * made
              ≤ furtherCopies total factor * wanted := Nat.mul_le_mul_left _ hle
            _ < (factor - 1) * wanted := Nat.mul_lt_mul_of_pos_right hlt hpos
        omega
      refine ⟨?_, ?_⟩
      · rw [furtherCopies] at hcount
        omega
      · by_cases hone : factor ≤ 1
        · exact Or.inl hone
        · rw [hcount] at hlen
          rw [← allVariablesNamed_elements]
          exact Or.inr (hnamed (Nat.eq_of_mul_eq_mul_left (by omega) hlen))
  · intro h
    rcases h with hnil | ⟨hle, hnamed⟩
    · rw [hnil]
      simp only [loopUnrollBodies, incrementedAll, Progression.flatMap_const_nil]
    · have hcount : furtherCopies total factor = factor - 1 := by
        rw [furtherCopies]
        omega
      rw [hcount]
      rcases hnamed with hone | hnamed
      · have hzero : factor - 1 = 0 := by omega
        rw [hzero, List.range_zero, List.flatMap_nil, List.flatMap_nil]
      · rw [← allVariablesNamed_elements] at hnamed
        simp only [(loopUnrollBody_eq_incremented loopName _).2 _ hnamed]

end Statements

section Main

variable (μ : Machine) (ρ : Env) (doc : List Xml) (factor : Nat) (L : DoLoop)

/-- Loops that execute the body for the values of a loop, one after the other. -/
def RunsInstances (assigned : List Text) (loops : List Xml) : Prop :=
  ∃ groups, ConsistOf (loops.flatMap (runs μ 0 ρ)) groups ∧
    List.Forall₂ (RunsFor μ ρ L assigned) groups.flatten (L.values μ ρ)

/-- The rule for a loop in a document does what it should: the stride is the factor, the body is
    followed by its copies, and the instances of the body are those of the loop whenever the factor
    divides their number. -/
structure EmitsCopies : Prop where
  copies : ∃ block, unrollIn doc factor L.index L.xml =
      [.elem "SgFortranDo" L.attrs
        (L.init :: L.upper.xml :: paramVal factor :: block :: L.infoList)] ∧
    block.hasName "SgBasicBlock" = true ∧
      elements block.children = wantedStatements factor L.index L.body
  instances : ∀ (μ : Machine) (ρ : Env) (assigned : List Text),
    strideValue μ ρ L.stride.xml = 1 → factor ∣ (L.values μ ρ).length → L.index ∉ assigned →
      RunsInstances μ ρ L assigned (unrollIn doc factor L.index L.xml)

theorem selectsLoop_index : selectsLoop L.index L.children = true := by
  rw [selectsLoop, path_var_children, attributes, List.filterMap_cons, DoLoop.var, Xml.attr_elem,
    L.named]
  simp

variable {μ ρ doc factor L} {total : Nat} {assigned : List Text}

/-- With the copies made it makes no difference how many elements there are. -/
theorem unrolledBody_eq_of_copiesMade (hplain : named "SgFortranDo" L.body = [])
    (h : CopiesMade total factor L.body) :
    unrolledBody total factor L.index L = unrolledBody factor factor L.index L := by
  rw [unrolledBody, unrolledBody, if_pos hplain, if_pos hplain, unrolledBlock, unrolledBlock]
  rcases h with hnil | ⟨hle, -⟩
  · have hnone : unrolledCopy L.index L.body = fun _ => [] := by
      ext k
      rw [unrolledCopy, hnil]
      split <;> rfl
    rw [hnone, Progression.flatMap_const_nil, Progression.flatMap_const_nil]
  · have hcount : furtherCopies total factor = furtherCopies factor factor := by
      rw [furtherCopies, furtherCopies]
      omega
    rw [hcount]

/-- With the copies made the instances are those of the loop. -/
theorem runsInstances_of_copiesMade (hplain : named "SgFortranDo" L.body = []) (hpos : 0 < factor)
    (h : CopiesMade total factor L.body) (hunit : strideValue μ ρ L.stride.xml = 1)
    (hdvd : factor ∣ (L.values μ ρ).length) (hown : L.index ∉ assigned) :
    RunsInstances μ ρ L assigned (xevLoopUnroll total factor L.index L.xml) := by
  have hcount : furtherCopies factor factor + 1 = factor := by
    rw [furtherCopies]
    omega
  have hnamed : 0 < furtherCopies factor factor → allVariablesNamed L.body = true := by
    intro hmore
    rcases h with hnil | ⟨-, hone | hnamed⟩
    · rw [← allVariablesNamed_elements, hnil]
      rfl
    · omega
    · exact hnamed
  have hgrouped : Grouped μ ρ factor factor L :=
    grouped_of_dvd hunit hpos (Nat.le_succ _) hdvd
  rcases hgrouped with ⟨hlength, -, hstride⟩
  refine ⟨(unrolledValues μ ρ factor L).map (unrolledRuns μ ρ factor factor L.index L), ?_, ?_⟩
  · rw [runs_xevLoopUnroll μ ρ total factor L.index L (selectsLoop_index L),
      unrolledBody_eq_of_copiesMade hplain h]
    exact consistOf_unrolledRuns μ ρ factor factor L.index L
  · rw [← List.flatMap_def]
    exact (forall₂_runsFor_iff hown hnamed (Or.inl hplain)).mpr
      ⟨hlength, fun _ _ => ⟨hunit, rfl⟩, hstride⟩

/-- The block of the new loop is as it should be exactly if the copies are made. -/
theorem copies_iff (hplain : named "SgFortranDo" L.body = []) :
    (∃ block, unrollIn doc factor L.index L.xml =
        [.elem "SgFortranDo" L.attrs
          (L.init :: L.upper.xml :: paramVal factor :: block :: L.infoList)] ∧
      block.hasName "SgBasicBlock" = true ∧
        elements block.children = wantedStatements factor L.index L.body) ↔
      CopiesMade (allElementsOf doc).length factor L.body := by
  have hrule := xevLoopUnroll_xml (allElementsOf doc).length factor L.index L (selectsLoop_index L)
  have hbody : unrolledBody (allElementsOf doc).length factor L.index L =
      unrolledBlock (allElementsOf doc).length factor L.index L.body := if_pos hplain
  rw [hbody] at hrule
  have hiff : elements (unrolledBlock (allElementsOf doc).length factor L.index L.body).children =
      wantedStatements factor L.index L.body ↔
        CopiesMade (allElementsOf doc).length factor L.body :=
    unrolled_statements_iff
  rw [unrollIn, hrule, ← hiff]
  constructor
  · intro h
    rcases h with ⟨block, heq, -, hwanted⟩
    simp only [List.cons.injEq, Xml.elem.injEq, true_and, and_true] at heq
    rwa [← heq] at hwanted
  · intro h
    exact ⟨_, rfl, rfl, h⟩

end Main

section Examples

end Examples

end XevXml
