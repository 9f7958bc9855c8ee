import XevXml.Trans.Jam

/-!
# Collapsing Loops

The rule drops the first of two loops and multiplies the bound of the second one
with its bound. In the body the first index is replaced by one. The second index
is left as it is, since with an array whose dimensions are next to each other
the elements of the following columns are behind those of the first.

So the second index leaves its range. Where the body uses one of the indices for
anything but a pair of subscripts in this order, or where the lower bounds are
not one, the extents are others, or there are loops between the two, other
elements are accessed.

## Main definitions

* `xevLoopCollapse`: The rule.
* `columnMajor`: The linear address of an array element.
* `observe`, `perform`: The accesses and the values of a statement, and of all
  statements a nest executes.
* `Linear`: Statements with the indices in pairs of subscripts only.
* `Collapses`: Nests for which the rule is right.

## Theorems

* `columnMajor_collapsed`: The address of a collapsed pair of subscripts.
* `collapse_correct`: The accesses and values of a nest.
-/

namespace XevXml

section Rule

mutual

/-- The templates that copy everything but the loops they are made for. -/
def searched (hit : Attrs → List Xml → Option (List Xml)) : Xml → List Xml
  | .elem name attrs cs =>
      match if name = "SgFortranDo" then hit attrs cs else none with
      | some ys => ys
      | none => [.elem name attrs (searchedAll hit cs)]
  | .text t => [.text t]
  | .comment _ => []

/-- The templates on the nodes they are applied to. -/
def searchedAll (hit : Attrs → List Xml → Option (List Xml)) : List Xml → List Xml
  | [] => []
  | x :: xs => searched hit x ++ searchedAll hit xs

end

mutual

/-- The rule for the body. What is below a variable that is replaced comes
    behind the constant. -/
def loopCollapseBody (firstLoop : Text) : Xml → List Xml
  | .elem name attrs cs =>
      if name = "SgVarRefExp" ∧ attrs.lookup "name" = some firstLoop then
        paramVal 1 :: loopCollapseBodies firstLoop cs
      else [.elem name attrs (loopCollapseBodies firstLoop cs)]
  | .text t => [.text t]
  | .comment _ => []

/-- The rule for the nodes of the body. -/
def loopCollapseBodies (firstLoop : Text) : List Xml → List Xml
  | [] => []
  | x :: xs => loopCollapseBody firstLoop x ++ loopCollapseBodies firstLoop xs

end

/-- The second loop with its new bound, given the end of the first one. -/
def collapsedLoop (firstEnd : List Xml) (firstLoop : Text) (attrs : Attrs) (cs : List Xml) : Xml :=
  .elem "SgFortranDo" attrs
    (nth 1 cs ++ [.elem "SgMultiplyOp" [] (nth 2 cs ++ copiedAll firstEnd)] ++ nth 3 cs ++
      (named "SgBasicBlock" cs).flatMap (loopCollapseBody firstLoop))

/-- The search for the second loop. -/
def loopCollapseFindSecond (firstEnd : List Xml) (firstLoop secondLoop : Text) : Xml → List Xml :=
  searched fun attrs cs =>
    if selectsLoop secondLoop cs = true then some [collapsedLoop firstEnd firstLoop attrs cs]
    else none

/-- The search for the first loop. -/
def loopCollapseFindFirst (firstLoop secondLoop : Text) : Xml → List Xml :=
  searched fun _ cs =>
    if selectsLoop firstLoop cs = true then
      some ((path ["SgBasicBlock", "SgFortranDo"] cs).flatMap
        (loopCollapseFindSecond (nth 2 cs) firstLoop secondLoop))
    else none

/-- The rule. -/
def xevLoopCollapse (firstLoop secondLoop : Text) (x : Xml) : List Xml :=
  loopCollapseFindFirst firstLoop secondLoop x

end Rule

section Search

variable {hit : Attrs → List Xml → Option (List Xml)}

theorem searched_none {name : String} {attrs : Attrs} {cs : List Xml}
    (h : name = "SgFortranDo" → hit attrs cs = none) :
    searched hit (.elem name attrs cs) = [.elem name attrs (searchedAll hit cs)] := by
  rw [searched]
  by_cases hname : name = "SgFortranDo"
  · rw [if_pos hname, h hname]
  · rw [if_neg hname]

/-- What has no loops in it is copied. -/
theorem searched_of_loopFree :
    (∀ x : Xml, x.loopFree = true →
        searched hit x = if x.isComment = true then [] else [x.copied]) ∧
      ∀ xs, loopFreeAll xs = true → searchedAll hit xs = copiedAll xs := by
  refine Xml.induct ?elem ?text ?comment ?nil ?cons
  case elem =>
    intro name attrs cs ih hfree
    rw [loopFree_elem] at hfree
    rw [searched_none fun h => absurd h hfree.1, ih hfree.2.2, if_neg (by simp [Xml.isComment]),
      Xml.copied]
  case text =>
    intro t _
    rw [searched, if_neg (by simp [Xml.isComment]), Xml.copied]
  case comment =>
    intro t _
    rw [searched, if_pos (by rfl)]
  case nil =>
    intro _
    rw [searchedAll, copiedAll_nil]
  case cons =>
    intro x xs hx ih hfree
    rw [loopFreeAll, Bool.and_eq_true] at hfree
    rw [searchedAll, hx hfree.1, ih hfree.2, copiedAll_cons]
    by_cases hcomment : x.isComment = true
    · rw [if_pos hcomment, if_pos hcomment, List.nil_append]
    · rw [if_neg hcomment, if_neg hcomment, List.singleton_append]

/-- A loop that is passed keeps its header. -/
theorem searched_xml (N : DoLoop) (hfree : N.Free) (hpass : hit N.attrs N.children = none) :
    searched hit N.xml = [.elem "SgFortranDo" N.attrs
      (N.init.copied :: N.upper.xml.copied :: N.stride.xml.copied ::
        .elem "SgBasicBlock" N.blockAttrs (searchedAll hit N.body) ::
          searchedAll hit N.infoList)] := by
  have hcopy : ∀ {x : Xml}, x.isElem = true → x.loopFree = true → searched hit x = [x.copied] := by
    intro x helem hx
    rw [searched_of_loopFree.1 x hx, if_neg (not_isComment_of_isElem helem)]
  rw [DoLoop.xml, searched_none fun _ => hpass, DoLoop.children, searchedAll, searchedAll,
    searchedAll, searchedAll, hcopy rfl hfree.header.1, hcopy N.upper.isElem_xml hfree.header.2.1,
    hcopy N.stride.isElem_xml hfree.header.2.2, DoLoop.block, searched_none (by simp)]
  rfl

end Search

section Observations

/-- What is observed of a statement: accesses to array elements, values, and the
    other parts. -/
inductive Observation
  | access (array : Text) (address : Int)
  | value (v : Int)
  | node (name : String) (attrs : Attrs)
  deriving DecidableEq

/-- The linear address of an array element, counted from zero, with the extents
    of the dimensions; the subscripts count from one. -/
def columnMajor : List Int → List Int → Int
  | e :: es, v :: vs => v - 1 + e * columnMajor es vs
  | [], v :: _ => v - 1
  | _, [] => 0

/-- The address of an element with a pair of subscripts is that of the element
    in the first column that is as many columns behind. -/
theorem columnMajor_collapsed (es pre post : List Int) {e : Int} (i j : Int)
    (h : es[pre.length]? = some e) :
    columnMajor es (pre ++ (j + (i - 1) * e) :: 1 :: post) =
      columnMajor es (pre ++ j :: i :: post) := by
  induction pre generalizing es with
  | nil =>
      cases es with
      | nil => exact absurd h (by simp)
      | cons e' es =>
          rw [List.length_nil, List.getElem?_cons_zero, Option.some.injEq] at h
          subst h
          cases es with
          | nil =>
              simp only [List.nil_append, columnMajor]
              ring
          | cons e'' es =>
              simp only [List.nil_append, columnMajor]
              ring
  | cons v pre ih =>
      cases es with
      | nil => exact absurd h (by simp)
      | cons e' es =>
          rw [List.length_cons, List.getElem?_cons_succ] at h
          rw [List.cons_append, List.cons_append, columnMajor, columnMajor, ih es h]

/-- The name of the array of a reference. -/
def arrayName (cs : List Xml) : Text := valueOf "name" (named "SgVarRefExp" cs)

/-- The values of the subscripts of a reference. -/
def subscripts (μ : Machine) (ρ : Env) (cs : List Xml) : List Int :=
  operandsValues μ ρ (named "SgExprListExp" cs)

mutual

/-- What is observed of a tree: the accesses with their addresses, and, outside
    of subscripts, the values and everything else. -/
def observe (extents : Text → List Int) (μ : Machine) (ρ : Env) (inside : Bool) :
    Xml → List Observation
  | .elem name attrs cs =>
      if name = "SgPntrArrRefExp" then
        observeAll extents μ ρ true cs ++
          [.access (arrayName cs) (columnMajor (extents (arrayName cs)) (subscripts μ ρ cs))]
      else if name = "SgVarRefExp" then
        if inside = true then [] else [.value (eval μ ρ (.elem name attrs cs))]
      else if name = "SgIntVal" then
        if inside = true then [] else [.value (intVal attrs)]
      else (if inside = true then [] else [.node name attrs]) ++ observeAll extents μ ρ inside cs
  | .text _ => []
  | .comment _ => []

/-- What is observed of a list of trees. -/
def observeAll (extents : Text → List Int) (μ : Machine) (ρ : Env) (inside : Bool) :
    List Xml → List Observation
  | [] => []
  | x :: xs => observe extents μ ρ inside x ++ observeAll extents μ ρ inside xs

end

/-- What is observed of the statements that nodes execute. -/
def perform (extents : Text → List Int) (μ : Machine) (ρ : Env) (ns : List Xml) :
    List (List Observation) :=
  (ns.flatMap (trace μ ρ)).map fun r => observe extents μ r.2 false r.1

end Observations

section Replacement

mutual

/-- What the rule for the body makes of a tree whose variables have nothing below
    them. -/
def collapsed (firstLoop : Text) : Xml → Xml
  | .elem name attrs cs =>
      if name = "SgVarRefExp" ∧ attrs.lookup "name" = some firstLoop then paramVal 1
      else .elem name attrs (collapsedAll firstLoop cs)
  | .text t => .text t
  | .comment t => .comment t

/-- What it makes of a list of them. -/
def collapsedAll (firstLoop : Text) : List Xml → List Xml
  | [] => []
  | x :: xs =>
      if x.isComment = true then collapsedAll firstLoop xs
      else collapsed firstLoop x :: collapsedAll firstLoop xs

end

mutual

/-- Whether variables have nothing below them, and no array has the name of the
    first index. -/
def collapsible (firstLoop : Text) : Xml → Bool
  | .elem name _ cs =>
      if name = "SgVarRefExp" then cs.isEmpty
      else
        !(name == "SgPntrArrRefExp" &&
          (attributes "name" (named "SgVarRefExp" cs)).contains firstLoop) &&
            allCollapsible firstLoop cs
  | .text _ => true
  | .comment _ => true

/-- Whether this holds of all trees of a list. -/
def allCollapsible (firstLoop : Text) : List Xml → Bool
  | [] => true
  | x :: xs => collapsible firstLoop x && allCollapsible firstLoop xs

end

variable (firstLoop : Text)

theorem loopCollapseBody_eq :
    (∀ x : Xml, collapsible firstLoop x = true →
        loopCollapseBody firstLoop x =
          if x.isComment = true then [] else [collapsed firstLoop x]) ∧
      ∀ xs, allCollapsible firstLoop xs = true →
        loopCollapseBodies firstLoop xs = collapsedAll firstLoop xs := by
  refine Xml.induct ?elem ?text ?comment ?nil ?cons
  case elem =>
    intro name attrs cs ih hfits
    rw [collapsible] at hfits
    have hlist : allCollapsible firstLoop cs = true := by
      by_cases hvar : name = "SgVarRefExp"
      · rw [if_pos hvar, List.isEmpty_iff] at hfits
        rw [hfits]
        rfl
      · rw [if_neg hvar, Bool.and_eq_true] at hfits
        exact hfits.2
    rw [loopCollapseBody, collapsed, if_neg (by simp [Xml.isComment] :
      ¬ (Xml.elem name attrs cs).isComment = true), ih hlist]
    by_cases hown : name = "SgVarRefExp" ∧ attrs.lookup "name" = some firstLoop
    · rw [if_pos hown.1, List.isEmpty_iff] at hfits
      rw [if_pos hown, if_pos hown, hfits, collapsedAll]
    · rw [if_neg hown, if_neg hown]
  case text =>
    intro t _
    rw [loopCollapseBody, collapsed, if_neg (by simp [Xml.isComment])]
  case comment =>
    intro t _
    rw [loopCollapseBody, if_pos (by rfl)]
  case nil =>
    intro _
    rw [loopCollapseBodies, collapsedAll]
  case cons =>
    intro x xs hx ih hfits
    rw [allCollapsible, Bool.and_eq_true] at hfits
    rw [loopCollapseBodies, collapsedAll, hx hfits.1, ih hfits.2]
    by_cases hcomment : x.isComment = true
    · rw [if_pos hcomment, if_pos hcomment, List.nil_append]
    · rw [if_neg hcomment, if_neg hcomment, List.singleton_append]

theorem isElem_collapsed (x : Xml) : (collapsed firstLoop x).isElem = x.isElem := by
  cases x with
  | elem name attrs cs =>
      rw [collapsed]
      split <;> rfl
  | text t => rfl
  | comment t => rfl

theorem elements_collapsedAll (ns : List Xml) :
    elements (collapsedAll firstLoop ns) = (elements ns).map (collapsed firstLoop) := by
  induction ns with
  | nil => rfl
  | cons n ns ih =>
      rw [collapsedAll]
      cases n with
      | elem name attrs cs =>
          rw [if_neg (by simp [Xml.isComment]), elements_cons_elem, List.map_cons,
            elements_cons_of_isElem (by rw [isElem_collapsed]; rfl), ih]
      | text t => exact ih
      | comment t => exact ih

/-- The rule for the body rewrites variables. -/
theorem rewrites_collapsed : Rewrites (collapsed firstLoop) where
  copies name attrs cs hname :=
    ⟨_, by rw [collapsed, if_neg fun h => hname h.1], elements_collapsedAll firstLoop cs⟩
  operand attrs cs := by
    rw [collapsed]
    split <;> exact ⟨rfl, rfl, rfl⟩

theorem hasName_collapsed {name : String} (hvar : name ≠ "SgVarRefExp") (hint : name ≠ "SgIntVal")
    (x : Xml) : (collapsed firstLoop x).hasName name = x.hasName name := by
  cases x with
  | elem n attrs cs =>
      rw [collapsed]
      by_cases hown : n = "SgVarRefExp" ∧ attrs.lookup "name" = some firstLoop
      · rw [if_pos hown, paramVal, Xml.hasName_elem, Xml.hasName_elem, hown.1,
          beq_eq_false_iff_ne.mpr hint.symm, beq_eq_false_iff_ne.mpr hvar.symm]
      · rw [if_neg hown]
        rfl
  | text t => rfl
  | comment t => rfl

/-- The name of an array is kept. -/
theorem arrayName_collapsedAll {cs : List Xml}
    (h : (attributes "name" (named "SgVarRefExp" cs)).contains firstLoop = false) :
    arrayName (collapsedAll firstLoop cs) = arrayName cs := by
  have hlist : attributes "name" (named "SgVarRefExp" (collapsedAll firstLoop cs)) =
      attributes "name" (named "SgVarRefExp" cs) := by
    induction cs with
    | nil => rfl
    | cons x cs ih =>
        cases x with
        | elem name attrs cs' =>
            rw [collapsedAll, if_neg (by simp [Xml.isComment]), collapsed]
            by_cases hvar : name = "SgVarRefExp"
            · subst hvar
              rw [named_cons, if_pos (by rfl), attributes, List.filterMap_cons, Xml.attr_elem] at h
              have hown : ¬ attrs.lookup "name" = some firstLoop := by
                intro hname
                rw [hname] at h
                exact absurd h (by simp)
              rw [if_neg fun hand => hown hand.2, named_cons, named_cons, if_pos (by rfl),
                if_pos (by rfl), attributes, attributes, List.filterMap_cons, List.filterMap_cons,
                  Xml.attr_elem,
                Xml.attr_elem]
              cases hname : attrs.lookup "name" with
              | none =>
                  rw [hname] at h
                  exact ih h
              | some y =>
                  rw [hname, List.contains_cons, Bool.or_eq_false_iff] at h
                  exact congrArg (y :: ·) (ih h.2)
            · rw [if_neg fun hand => hvar hand.1, named_cons, named_cons,
                if_neg (by simpa using hvar), if_neg (by simpa using hvar)]
              rw [named_cons, if_neg (by simpa using hvar)] at h
              exact ih h
        | text t => exact ih h
        | comment t => exact ih h
  rw [arrayName, arrayName, valueOf, valueOf, hlist]

end Replacement

section SameObservations

variable {extents : Text → List Int} {μ : Machine} {σ σ' : Env} {firstLoop : Text}

/-- Only elements are observed. -/
theorem observeAll_elements (μ : Machine) (ρ : Env) (inside : Bool) (ns : List Xml) :
    observeAll extents μ ρ inside (elements ns) = observeAll extents μ ρ inside ns := by
  induction ns with
  | nil => rfl
  | cons n ns ih =>
      cases n with
      | elem name attrs cs => rw [elements_cons_elem, observeAll, observeAll, ih]
      | text t => exact ih
      | comment t => exact ih

theorem observeAll_append (μ : Machine) (ρ : Env) (inside : Bool) (ns ms : List Xml) :
    observeAll extents μ ρ inside (ns ++ ms) =
      observeAll extents μ ρ inside ns ++ observeAll extents μ ρ inside ms := by
  induction ns with
  | nil => rfl
  | cons n ns ih => rw [List.cons_append, observeAll, observeAll, ih, List.append_assoc]

/-- A variable that is replaced by a constant of its value looks the same. -/
theorem observe_collapsed_var {attrs : Attrs} {cs : List Xml}
    (h : eval μ σ' (collapsed firstLoop (.elem "SgVarRefExp" attrs cs)) =
      eval μ σ (.elem "SgVarRefExp" attrs cs)) (inside : Bool) :
    observe extents μ σ' inside (collapsed firstLoop (.elem "SgVarRefExp" attrs cs)) =
      observe extents μ σ inside (.elem "SgVarRefExp" attrs cs) := by
  have hvar : observe extents μ σ inside (.elem "SgVarRefExp" attrs cs) =
      if inside = true then [] else [.value (eval μ σ (.elem "SgVarRefExp" attrs cs))] := by
    rw [observe, if_neg (by decide), if_pos rfl]
  rw [hvar, ← h, collapsed]
  by_cases hown : "SgVarRefExp" = "SgVarRefExp" ∧ attrs.lookup "name" = some firstLoop
  · rw [if_pos hown, eval_paramVal, paramVal, observe, if_neg (by decide), if_neg (by decide),
      if_pos rfl]
    rfl
  · rw [if_neg hown, observe, if_neg (by decide), if_pos rfl]

/-- The trees of a list have the same values. -/
theorem operandsValues_map_collapsed {ns : List Xml}
    (h : ∀ x ∈ ns, operandValues μ σ' (collapsed firstLoop x) = operandValues μ σ x) :
    operandsValues μ σ' (ns.map (collapsed firstLoop)) = operandsValues μ σ ns := by
  induction ns with
  | nil => rfl
  | cons n ns ih =>
      rw [List.map_cons, operandsValues, operandsValues, h n List.mem_cons_self,
        ih fun x hx => h x (List.mem_cons_of_mem _ hx)]

/-- The subscripts of a reference whose variables keep their values. -/
theorem subscripts_collapsedAll {cs : List Xml}
    (h : ∀ x ∈ elements cs, operandValues μ σ' (collapsed firstLoop x) = operandValues μ σ x) :
    subscripts μ σ' (collapsedAll firstLoop cs) = subscripts μ σ cs := by
  have hnamed : named "SgExprListExp" (collapsedAll firstLoop cs) =
      (named "SgExprListExp" (elements cs)).map (collapsed firstLoop) := by
    rw [← named_elements, elements_collapsedAll, named, named, List.filter_map]
    congr 1
    refine List.filter_congr fun x _ => ?_
    exact hasName_collapsed firstLoop (by decide) (by decide) x
  rw [subscripts, subscripts, hnamed, ← named_elements _ cs]
  exact operandsValues_map_collapsed fun x hx => h x (List.mem_filter.mp hx).1

/-- If the variables keep their values, everything looks the same. -/
theorem observe_collapsed {P : Attrs → List Xml → Prop}
    (hvar : ∀ attrs cs, P attrs cs →
      eval μ σ' (collapsed firstLoop (.elem "SgVarRefExp" attrs cs)) =
        eval μ σ (.elem "SgVarRefExp" attrs cs)) :
    (∀ x : Xml, x.isElem = true → collapsible firstLoop x = true →
      (∀ p attrs cs, exprAt p x = some (.elem "SgVarRefExp" attrs cs) → P attrs cs) →
        ∀ inside, observe extents μ σ' inside (collapsed firstLoop x) =
          observe extents μ σ inside x) ∧
      ∀ ns, allCollapsible firstLoop ns = true →
        (∀ x ∈ elements ns, ∀ p attrs cs,
          exprAt p x = some (.elem "SgVarRefExp" attrs cs) → P attrs cs) →
        ∀ inside, observeAll extents μ σ' inside ((elements ns).map (collapsed firstLoop)) =
          observeAll extents μ σ inside ns := by
  refine Xml.induct ?elem ?text ?comment ?nil ?cons
  case elem =>
    intro name attrs cs ih _ hfits hP inside
    by_cases hname : name = "SgVarRefExp"
    · subst hname
      exact observe_collapsed_var (hvar attrs cs (hP [] attrs cs rfl)) inside
    · rw [collapsible, if_neg hname, Bool.and_eq_true] at hfits
      have hparts : ∀ x ∈ elements cs, ∀ p attrs cs,
          exprAt p x = some (.elem "SgVarRefExp" attrs cs) → P attrs cs := by
        intro x hx p attrs' cs' hp
        rcases exists_exprAt_of_mem hname hx hp with ⟨k, hk⟩
        exact hP (k :: p) attrs' cs' hk
      have hlist : ∀ b, observeAll extents μ σ' b (collapsedAll firstLoop cs) =
          observeAll extents μ σ b cs := by
        intro b
        rw [← observeAll_elements, elements_collapsedAll, ih hfits.2 hparts]
      rw [collapsed, if_neg fun h => hname h.1, observe, observe, if_neg hname, if_neg hname, hlist,
        hlist]
      -- A reference is observed by its array, which must not have the name of the loop.
      by_cases harray : name = "SgPntrArrRefExp"
      · have hown : (attributes "name" (named "SgVarRefExp" cs)).contains firstLoop = false := by
          simpa [harray] using hfits.1
        have hvalues : subscripts μ σ' (collapsedAll firstLoop cs) = subscripts μ σ cs :=
          subscripts_collapsedAll fun x hx =>
            ((rewrites_collapsed firstLoop).operandValues_map hvar).1 x (List.mem_filter.mp hx).2
              (hparts x hx)
        rw [if_pos harray, if_pos harray, arrayName_collapsedAll firstLoop hown, hvalues]
      · rw [if_neg harray, if_neg harray]
  case text =>
    intro t h
    exact Bool.noConfusion h
  case comment =>
    intro t h
    exact Bool.noConfusion h
  case nil =>
    intro _ _ inside
    rfl
  case cons =>
    intro x xs hx ih hfits hP inside
    rw [allCollapsible, Bool.and_eq_true] at hfits
    by_cases helem : x.isElem = true
    · rw [elements_cons_of_isElem helem] at hP ⊢
      rw [List.map_cons, observeAll, observeAll, hx helem hfits.1 (hP x List.mem_cons_self),
        ih hfits.2 fun z hz => hP z (List.mem_cons_of_mem _ hz)]
    · have hnone : elements (x :: xs) = elements xs := List.filter_cons_of_neg helem
      have hobserve : observe extents μ σ inside x = [] := by
        cases x with
        | elem name attrs cs => exact absurd rfl helem
        | text t => rfl
        | comment t => rfl
      rw [hnone] at hP ⊢
      rw [ih hfits.2 hP, observeAll, hobserve, List.nil_append]

end SameObservations

section Pairs

/-- Trees without either index. -/
def apart (firstLoop secondLoop : Text) (x : Xml) : Bool :=
  collapsible firstLoop x && !mentions firstLoop x && !mentions secondLoop x

/-- Trees in which the indices occur in pairs of subscripts only, the second one
    before the first one, of arrays with the given extent at that place. -/
inductive Linear (extents : Text → List Int) (firstLoop secondLoop : Text) (e : Int) : Xml → Prop
  | apart {x : Xml} (h : apart firstLoop secondLoop x = true) :
      Linear extents firstLoop secondLoop e x
  | pair {attrs : Attrs} {cs : List Xml} {arrayAttrs : Attrs} {array : Text} {listAttrs : Attrs}
      {subs before behind : List Xml} {secondAttrs firstAttrs : Attrs}
      (hparts : elements cs =
        [.elem "SgVarRefExp" arrayAttrs [], .elem "SgExprListExp" listAttrs subs])
      (harray : arrayAttrs.lookup "name" = some array) (hne : array ≠ firstLoop)
      (hsubs : elements subs = before ++
        .elem "SgVarRefExp" secondAttrs [] :: .elem "SgVarRefExp" firstAttrs [] :: behind)
      (hsecond : secondAttrs.lookup "name" = some secondLoop)
      (hfirst : firstAttrs.lookup "name" = some firstLoop)
      (hother : ∀ x ∈ before ++ behind, XevXml.apart firstLoop secondLoop x = true ∧
        x.hasName "SgExprListExp" = false)
      (hextent : (extents array)[before.length]? = some e) :
      Linear extents firstLoop secondLoop e (.elem "SgPntrArrRefExp" attrs cs)
  | node {name : String} {attrs : Attrs} {cs : List Xml} (hvar : name ≠ "SgVarRefExp")
      (harray : name ≠ "SgPntrArrRefExp") (hint : name ≠ "SgIntVal")
      (h : ∀ x ∈ elements cs, Linear extents firstLoop secondLoop e x) :
      Linear extents firstLoop secondLoop e (.elem name attrs cs)

/-- Environments in which the second index is as many columns behind as the first
    one tells. -/
def Shifted (firstLoop secondLoop : Text) (e : Int) (σ σ' : Env) : Prop :=
  ∃ i j, σ firstLoop = some i ∧ σ secondLoop = some j ∧ σ' secondLoop = some (j + (i - 1) * e) ∧
    ∀ y, y ≠ firstLoop → y ≠ secondLoop → σ' y = σ y

variable {extents : Text → List Int} {firstLoop secondLoop : Text} {e : Int}

theorem allCollapsible_of_elements {ns : List Xml}
    (h : ∀ x ∈ elements ns, collapsible firstLoop x = true) :
    allCollapsible firstLoop ns = true := by
  induction ns with
  | nil => rfl
  | cons n ns ih =>
      rw [allCollapsible, Bool.and_eq_true]
      cases n with
      | elem name attrs cs =>
          rw [elements_cons_elem] at h
          exact ⟨h _ List.mem_cons_self, ih fun x hx => h x (List.mem_cons_of_mem _ hx)⟩
      | text t => exact ⟨rfl, ih h⟩
      | comment t => exact ⟨rfl, ih h⟩

theorem collapsible_of_apart {x : Xml} (h : apart firstLoop secondLoop x = true) :
    collapsible firstLoop x = true := by
  rw [apart, Bool.and_eq_true, Bool.and_eq_true] at h
  exact h.1.1

theorem Linear.collapsible {x : Xml} (h : Linear extents firstLoop secondLoop e x) :
    collapsible firstLoop x = true := by
  induction h with
  | apart h => exact collapsible_of_apart h
  | @pair attrs cs arrayAttrs array listAttrs subs before behind secondAttrs firstAttrs
      hparts harray hne hsubs hsecond hfirst hother hextent =>
      have hnames : attributes "name" (named "SgVarRefExp" cs) = [array] := by
        rw [← named_elements, hparts]
        simp [attributes, harray]
      have hlist : allCollapsible firstLoop subs = true := by
        refine allCollapsible_of_elements fun x hx => ?_
        rw [hsubs] at hx
        by_cases hmem : x ∈ before ++ behind
        · exact collapsible_of_apart (hother x hmem).1
        · simp only [List.mem_append, List.mem_cons, not_or] at hx hmem
          rcases hx with hx | rfl | rfl | hx
          · exact absurd hx hmem.1
          · rfl
          · rfl
          · exact absurd hx hmem.2
      have hchildren : allCollapsible firstLoop cs = true := by
        refine allCollapsible_of_elements fun x hx => ?_
        rw [hparts] at hx
        rcases List.mem_cons.mp hx with rfl | hx
        · rfl
        · rw [List.mem_singleton] at hx
          rw [hx, XevXml.collapsible, if_neg (by decide), hlist]
          simp
      rw [XevXml.collapsible, if_neg (by decide), hnames, hchildren]
      simpa using hne.symm
  | @node name attrs cs hvar harray hint h ih =>
      rw [XevXml.collapsible, if_neg hvar, allCollapsible_of_elements ih]
      simp [harray]

variable {μ : Machine} {σ σ' : Env}

/-- Where neither index occurs, everything looks the same. -/
theorem eval_collapsed_var_of_apart
    (hagree : ∀ y, y ≠ firstLoop → y ≠ secondLoop → σ' y = σ y) (attrs : Attrs) (cs : List Xml)
    (h : attrs.lookup "name" ≠ some firstLoop ∧ attrs.lookup "name" ≠ some secondLoop) :
    eval μ σ' (collapsed firstLoop (.elem "SgVarRefExp" attrs cs)) =
      eval μ σ (.elem "SgVarRefExp" attrs cs) := by
  rw [collapsed, if_neg fun hand => h.1 hand.2]
  refine eval_varRefExp_congr μ _ _ fun y hy => hagree y ?_ ?_
  · intro heq
    exact h.1 (heq ▸ hy)
  · intro heq
    exact h.2 (heq ▸ hy)

theorem variables_of_apart {x : Xml} (h : apart firstLoop secondLoop x = true) (p : List Nat)
    (attrs : Attrs) (cs : List Xml) (hp : exprAt p x = some (.elem "SgVarRefExp" attrs cs)) :
    attrs.lookup "name" ≠ some firstLoop ∧ attrs.lookup "name" ≠ some secondLoop := by
  rw [apart, Bool.and_eq_true, Bool.and_eq_true, Bool.not_eq_true', Bool.not_eq_true'] at h
  constructor
  · intro hname
    have hmention := mentions_of_exprAt hp hname
    rw [h.1.2] at hmention
    exact Bool.noConfusion hmention
  · intro hname
    have hmention := mentions_of_exprAt hp hname
    rw [h.2] at hmention
    exact Bool.noConfusion hmention

theorem observe_of_apart {x : Xml} (helem : x.isElem = true)
    (hagree : ∀ y, y ≠ firstLoop → y ≠ secondLoop → σ' y = σ y)
    (h : apart firstLoop secondLoop x = true) (inside : Bool) :
    observe extents μ σ' inside (collapsed firstLoop x) = observe extents μ σ inside x :=
  (observe_collapsed (eval_collapsed_var_of_apart hagree)).1 x helem (collapsible_of_apart h)
    (variables_of_apart h) inside

theorem operandValues_of_apart {x : Xml} (helem : x.isElem = true)
    (hagree : ∀ y, y ≠ firstLoop → y ≠ secondLoop → σ' y = σ y)
    (h : apart firstLoop secondLoop x = true) :
    operandValues μ σ' (collapsed firstLoop x) = operandValues μ σ x :=
  ((rewrites_collapsed firstLoop).operandValues_map (eval_collapsed_var_of_apart hagree)).1 x helem
    (variables_of_apart h)

/-- A list without either index has the same values. -/
theorem operandsValues_of_apart {ns : List Xml}
    (hagree : ∀ y, y ≠ firstLoop → y ≠ secondLoop → σ' y = σ y)
    (h : ∀ x ∈ ns, x.isElem = true ∧ apart firstLoop secondLoop x = true) :
    operandsValues μ σ' (ns.map (collapsed firstLoop)) = operandsValues μ σ ns :=
  operandsValues_map_collapsed fun x hx => operandValues_of_apart (h x hx).1 hagree (h x hx).2

theorem observeAll_of_apart {ns : List Xml}
    (hagree : ∀ y, y ≠ firstLoop → y ≠ secondLoop → σ' y = σ y)
    (h : ∀ x ∈ ns, x.isElem = true ∧ apart firstLoop secondLoop x = true) (inside : Bool) :
    observeAll extents μ σ' inside (ns.map (collapsed firstLoop)) =
      observeAll extents μ σ inside ns := by
  induction ns with
  | nil => rfl
  | cons n ns ih =>
      have hn := h n List.mem_cons_self
      rw [List.map_cons, observeAll, observeAll, observe_of_apart hn.1 hagree hn.2,
        ih fun x hx => h x (List.mem_cons_of_mem _ hx)]

theorem length_operandsValues (μ : Machine) (ρ : Env) {ns : List Xml}
    (h : ∀ x ∈ ns, x.isElem = true ∧ x.hasName "SgExprListExp" = false) :
    (operandsValues μ ρ ns).length = ns.length := by
  induction ns with
  | nil => rfl
  | cons n ns ih =>
      have hn := h n List.mem_cons_self
      rw [operandsValues, List.length_append, operandValues_eq μ ρ hn.1 hn.2,
        ih fun x hx => h x (List.mem_cons_of_mem _ hx), List.length_singleton, List.length_cons,
        Nat.add_comm]

/-- A list of subscripts with the pair in it: the pair itself is not observed, and
    has its values. -/
theorem subscripts_pair (extents : Text → List Int) (μ : Machine) {subs before behind : List Xml}
    {secondAttrs firstAttrs : Attrs} {i j : Int}
    (hne : firstLoop ≠ secondLoop)
    (hsubs : elements subs = before ++
      .elem "SgVarRefExp" secondAttrs [] :: .elem "SgVarRefExp" firstAttrs [] :: behind)
    (hsecond : secondAttrs.lookup "name" = some secondLoop)
    (hfirst : firstAttrs.lookup "name" = some firstLoop)
    (hother : ∀ x ∈ before ++ behind, x.isElem = true ∧ apart firstLoop secondLoop x = true)
    (hagree : ∀ y, y ≠ firstLoop → y ≠ secondLoop → σ' y = σ y) (hi : σ firstLoop = some i)
    (hj : σ secondLoop = some j) {j' : Int} (hj' : σ' secondLoop = some j') :
    observeAll extents μ σ' true (collapsedAll firstLoop subs) =
        observeAll extents μ σ true subs ∧
      operandsValues μ σ' (collapsedAll firstLoop subs) =
        operandsValues μ σ before ++ j' :: 1 :: operandsValues μ σ behind ∧
      operandsValues μ σ subs =
        operandsValues μ σ before ++ j :: i :: operandsValues μ σ behind := by
  have hbefore : ∀ x ∈ before, x.isElem = true ∧ apart firstLoop secondLoop x = true :=
    fun x hx => hother x (List.mem_append_left _ hx)
  have hbehind : ∀ x ∈ behind, x.isElem = true ∧ apart firstLoop secondLoop x = true :=
    fun x hx => hother x (List.mem_append_right _ hx)
  -- The variable of the first loop becomes a one, and that of the second stays.
  have hkeep : collapsed firstLoop (.elem "SgVarRefExp" secondAttrs []) =
      .elem "SgVarRefExp" secondAttrs [] := by
    rw [collapsed, if_neg, collapsedAll]
    intro hand
    rw [hsecond, Option.some.injEq] at hand
    exact hne hand.2.symm
  have hone : collapsed firstLoop (.elem "SgVarRefExp" firstAttrs []) = paramVal 1 := by
    rw [collapsed, if_pos ⟨rfl, hfirst⟩]
  have hnew : elements (collapsedAll firstLoop subs) = before.map (collapsed firstLoop) ++
      .elem "SgVarRefExp" secondAttrs [] :: paramVal 1 :: behind.map (collapsed firstLoop) := by
    rw [elements_collapsedAll, hsubs, List.map_append, List.map_cons, List.map_cons, hkeep, hone]
  have hvar : ∀ ρ attrs y v, attrs.lookup "name" = some y → ρ y = some v →
      operandValues μ ρ (.elem "SgVarRefExp" attrs []) = [v] := by
    intro ρ attrs y v hname hv
    rw [operandValues_eq μ ρ rfl rfl, eval_varRefExp μ ρ [] hname, hv, Option.getD_some]
  have hconst : operandValues μ σ' (paramVal 1) = [1] := by
    rw [operandValues_eq μ σ' rfl rfl, eval_paramVal]
    rfl
  refine ⟨?_, ?_, ?_⟩
  · have hsilent : ∀ ρ attrs, observe extents μ ρ true (.elem "SgVarRefExp" attrs []) = [] := by
      intro ρ attrs
      rw [observe, if_neg (by decide), if_pos rfl, if_pos rfl]
    have hsilent' : observe extents μ σ' true (paramVal 1) = [] := by
      rw [paramVal, observe, if_neg (by decide), if_neg (by decide), if_pos rfl, if_pos rfl]
    rw [← observeAll_elements, hnew, ← observeAll_elements μ σ, hsubs, observeAll_append,
      observeAll_append, observeAll, observeAll, observeAll, observeAll, hsilent, hsilent, hsilent,
      hsilent', observeAll_of_apart hagree hbefore, observeAll_of_apart hagree hbehind]
  · rw [← operandsValues_elements, hnew, operandsValues_append, operandsValues, operandsValues,
      hvar σ' secondAttrs secondLoop j' hsecond hj', hconst,
      operandsValues_of_apart hagree hbefore, operandsValues_of_apart hagree hbehind]
    rfl
  · rw [← operandsValues_elements, hsubs, operandsValues_append, operandsValues, operandsValues,
      hvar σ secondAttrs secondLoop j hsecond hj, hvar σ firstAttrs firstLoop i hfirst hi]
    rfl

/-- Where the indices occur in pairs of subscripts only, shifting the second index
    and replacing the first one by one changes nothing. -/
theorem observe_of_linear {x : Xml} (hne : firstLoop ≠ secondLoop) (helem : x.isElem = true)
    (hσ : Shifted firstLoop secondLoop e σ σ') (h : Linear extents firstLoop secondLoop e x)
    (inside : Bool) :
    observe extents μ σ' inside (collapsed firstLoop x) = observe extents μ σ inside x := by
  rcases hσ with ⟨i, j, hi, hj, hj', hagree⟩
  induction h generalizing inside with
  | apart h => exact observe_of_apart helem hagree h inside
  | @pair attrs cs arrayAttrs array listAttrs subs before behind secondAttrs firstAttrs
      hparts harray hneArray hsubs hsecond hfirst hother hextent =>
      have hsubsElem : ∀ x ∈ before ++ behind, x ∈ elements subs := by
        intro x hx
        rw [hsubs]
        rcases List.mem_append.mp hx with hx | hx
        · exact List.mem_append_left _ hx
        · exact List.mem_append_right _ (List.mem_cons_of_mem _ (List.mem_cons_of_mem _ hx))
      have hlists := subscripts_pair extents μ hne hsubs hsecond hfirst
        (fun x hx => ⟨(List.mem_filter.mp (hsubsElem x hx)).2, (hother x hx).1⟩) hagree hi hj hj'
      have hlength : (operandsValues μ σ before).length = before.length :=
        length_operandsValues μ σ fun x hx =>
          ⟨(List.mem_filter.mp (hsubsElem x (List.mem_append_left _ hx))).2,
            (hother x (List.mem_append_left _ hx)).2⟩
      have hkeep : collapsed firstLoop (.elem "SgVarRefExp" arrayAttrs []) =
          .elem "SgVarRefExp" arrayAttrs [] := by
        rw [collapsed, if_neg, collapsedAll]
        intro hand
        rw [harray, Option.some.injEq] at hand
        exact hneArray hand.2
      have hnew : elements (collapsedAll firstLoop cs) = [.elem "SgVarRefExp" arrayAttrs [],
          .elem "SgExprListExp" listAttrs (collapsedAll firstLoop subs)] := by
        rw [elements_collapsedAll, hparts, List.map_cons, List.map_singleton, hkeep, collapsed,
          if_neg (by simp)]
      -- The array and its subscripts are read off the two elements, before and after.
      have hname : ∀ ns ms : List Xml,
          elements ns = [.elem "SgVarRefExp" arrayAttrs [], .elem "SgExprListExp" listAttrs ms] →
            arrayName ns = array ∧ (∀ ρ, subscripts μ ρ ns = operandsValues μ ρ ms) ∧
              ∀ ρ, observeAll extents μ ρ true ns = observeAll extents μ ρ true ms := by
        intro ns ms hns
        refine ⟨?_, fun ρ => ?_, fun ρ => ?_⟩
        · rw [arrayName, valueOf, ← named_elements, hns]
          simp [attributes, harray]
        · rw [subscripts, ← named_elements, hns]
          simp [operandsValues, operandValues]
        · rw [← observeAll_elements, hns, observeAll, observeAll, observeAll, observe, observe,
            if_neg (by decide), if_pos rfl, if_pos rfl, if_neg (by decide), if_neg (by decide),
            if_neg (by decide), if_pos rfl, List.nil_append, List.nil_append, List.append_nil]
      have hold := hname cs subs hparts
      have hcollapsed := hname _ _ hnew
      rw [collapsed, if_neg (by simp), observe, observe, if_pos rfl, if_pos rfl, hold.1,
        hcollapsed.1, hold.2.1, hcollapsed.2.1, hold.2.2, hcollapsed.2.2, hlists.1, hlists.2.1,
        hlists.2.2, columnMajor_collapsed _ _ _ i j (by rw [hlength, hextent])]
  | @node name attrs cs hvar harray hint h ih =>
      have hlist : ∀ b, observeAll extents μ σ' b (collapsedAll firstLoop cs) =
          observeAll extents μ σ b cs := by
        intro b
        rw [← observeAll_elements, elements_collapsedAll, ← observeAll_elements μ σ]
        have hall : ∀ ns : List Xml, (∀ z ∈ ns, z ∈ elements cs) →
            observeAll extents μ σ' b (ns.map (collapsed firstLoop)) =
              observeAll extents μ σ b ns := by
          intro ns hns
          induction ns with
          | nil => rfl
          | cons n ns ihns =>
              have hn := hns n List.mem_cons_self
              rw [List.map_cons, observeAll, observeAll, ih n hn (List.mem_filter.mp hn).2 b,
                ihns fun z hz => hns z (List.mem_cons_of_mem _ hz)]
        exact hall _ fun z hz => hz
      rw [collapsed, if_neg fun hand => hvar hand.1, observe, observe, if_neg harray, if_neg harray,
        if_neg hvar, if_neg hvar, if_neg hint, if_neg hint, hlist]

end Pairs

section Bodies

variable (extents : Text → List Int) (μ : Machine) (ρ : Env)

theorem perform_append (ns ms : List Xml) :
    perform extents μ ρ (ns ++ ms) = perform extents μ ρ ns ++ perform extents μ ρ ms := by
  rw [perform, List.flatMap_append, List.map_append]
  rfl

/-- A loop performs what its block does, for all values of its index. -/
theorem perform_loop {x b : Xml} {vs : List Int} {index : Text}
    (hx : x.hasName "SgFortranDo" = true)
    (h : loopRuns μ ρ x = vs.map fun v => (b, ρ.set index v)) :
    perform extents μ ρ [x] =
      vs.flatMap fun v => perform extents μ (ρ.set index v) b.children := by
  rw [perform, List.flatMap_singleton, trace_loop μ ρ hx, h, List.flatMap_map, List.map_flatMap]
  rfl

theorem perform_xml (M : DoLoop) :
    perform extents μ ρ [M.xml] =
      (M.values μ ρ).flatMap fun v => perform extents μ (ρ.set M.index v) M.body :=
  perform_loop extents μ ρ rfl (loopRuns_xml μ ρ M)

/-- Bodies with the given kinds of statements and of expressions in the headers of
    their loops, which have other indices. -/
inductive Fits (firstLoop secondLoop : Text) (okStatement okHeader : Xml → Prop) : List Xml → Prop
  | nil : Fits firstLoop secondLoop okStatement okHeader []
  | skip {x ns} (hloop : x.hasName "SgFortranDo" = false) (hstmt : x.isStatement = false)
      (h : Fits firstLoop secondLoop okStatement okHeader ns) :
      Fits firstLoop secondLoop okStatement okHeader (x :: ns)
  | statement {x ns} (hloop : x.hasName "SgFortranDo" = false) (helem : x.isElem = true)
      (hok : okStatement x) (h : Fits firstLoop secondLoop okStatement okHeader ns) :
      Fits firstLoop secondLoop okStatement okHeader (x :: ns)
  | loop {ns} (M : DoLoop) (hfirst : M.index ≠ firstLoop) (hsecond : M.index ≠ secondLoop)
      (hheader : okHeader M.lower.xml ∧ okHeader M.upper.xml ∧ okHeader M.stride.xml)
      (hbody : Fits firstLoop secondLoop okStatement okHeader M.body)
      (h : Fits firstLoop secondLoop okStatement okHeader ns) :
      Fits firstLoop secondLoop okStatement okHeader (M.xml :: ns)

variable {extents} {μ} {firstLoop secondLoop : Text} {okStatement okHeader : Xml → Prop}

/-- What is neither a loop nor a statement performs nothing. -/
theorem perform_skip (firstLoop : Text) {x : Xml} (hloop : x.hasName "SgFortranDo" = false)
    (hstmt : x.isStatement = false) :
    perform extents μ ρ [x] = [] ∧ perform extents μ ρ (loopCollapseBody firstLoop x) = [] := by
  have hnone : ∀ y : Xml, y.hasName "SgFortranDo" = false → y.isStatement = false →
      perform extents μ ρ [y] = [] := by
    intro y hy hstmt'
    rw [perform, List.flatMap_singleton, trace_of_not_isStatement μ ρ hy hstmt', List.map_nil]
  refine ⟨hnone x hloop hstmt, ?_⟩
  cases x with
  | elem name attrs cs =>
      have hinfo : name = "PreprocessingInfo" := by simpa [Xml.isStatement] using hstmt
      subst hinfo
      rw [loopCollapseBody, if_neg (by simp)]
      exact hnone _ rfl rfl
  | text t => rfl
  | comment t => rfl

/-- A statement performs what is observed of it. -/
theorem perform_statement {ρ' : Env} {x : Xml} (hloop : x.hasName "SgFortranDo" = false)
    (helem : x.isElem = true) (hfits : collapsible firstLoop x = true)
    (h : observe extents μ ρ' false (collapsed firstLoop x) = observe extents μ ρ false x) :
    perform extents μ ρ' (loopCollapseBody firstLoop x) = perform extents μ ρ [x] := by
  have hcomment : ¬ x.isComment = true := not_isComment_of_isElem helem
  have hloop' : (collapsed firstLoop x).hasName "SgFortranDo" = false := by
    rw [hasName_collapsed firstLoop (by decide) (by decide), hloop]
  have hstmt : (collapsed firstLoop x).isStatement = x.isStatement := by
    rw [Xml.isStatement, Xml.isStatement, isElem_collapsed,
      hasName_collapsed firstLoop (by decide) (by decide)]
  rw [(loopCollapseBody_eq firstLoop).1 x hfits, if_neg hcomment, perform, perform,
    List.flatMap_singleton, List.flatMap_singleton]
  by_cases hx : x.isStatement = true
  · rw [trace_of_isStatement μ ρ hloop hx, trace_of_isStatement μ ρ' hloop' (hstmt.trans hx),
      List.map_singleton, List.map_singleton, h]
  · have hx' : x.isStatement = false := by simpa using hx
    rw [trace_of_not_isStatement μ ρ hloop hx',
      trace_of_not_isStatement μ ρ' hloop' (hstmt.trans hx')]

/-- A loop of the body keeps its values. -/
theorem loopRuns_loopCollapseBody {ρ' : Env} (M : DoLoop) (hfirst : M.index ≠ firstLoop)
    (hheader : ∀ e ∈ [M.lower, M.upper, M.stride], collapsible firstLoop e.xml = true ∧
      eval μ ρ' (collapsed firstLoop e.xml) = eval μ ρ e.xml) :
    ∃ x, loopCollapseBody firstLoop M.xml = [x] ∧ x.hasName "SgFortranDo" = true ∧
      loopRuns μ ρ' x = (M.values μ ρ).map fun v =>
        (.elem "SgBasicBlock" M.blockAttrs (loopCollapseBodies firstLoop M.body),
          ρ'.set M.index v) := by
  -- Every part of the header is rewritten on its own, and none is left out.
  have hexpr : ∀ e ∈ [M.lower, M.upper, M.stride],
      loopCollapseBody firstLoop e.xml = [collapsed firstLoop e.xml] := by
    intro e he
    rw [(loopCollapseBody_eq firstLoop).1 _ (hheader e he).1,
      if_neg (by simp [Expr.xml, Xml.isComment])]
  have hvar : loopCollapseBody firstLoop M.var =
      [.elem "SgVarRefExp" M.varAttrs (loopCollapseBodies firstLoop M.varChildren)] := by
    rw [DoLoop.var, loopCollapseBody, if_neg]
    intro hand
    rw [M.named, Option.some.injEq] at hand
    exact hfirst hand.2
  have hinit : loopCollapseBody firstLoop M.init = [.elem "SgAssignOp" M.initAttrs
      [.elem "SgVarRefExp" M.varAttrs (loopCollapseBodies firstLoop M.varChildren),
        collapsed firstLoop M.lower.xml]] := by
    rw [DoLoop.init, loopCollapseBody, if_neg (by simp), loopCollapseBodies, loopCollapseBodies,
      loopCollapseBodies, hvar, hexpr _ (by simp)]
    rfl
  have hblock : loopCollapseBody firstLoop M.block =
      [.elem "SgBasicBlock" M.blockAttrs (loopCollapseBodies firstLoop M.body)] := by
    rw [DoLoop.block, loopCollapseBody, if_neg (by simp)]
  have hloop : loopCollapseBody firstLoop M.xml = [.elem "SgFortranDo" M.attrs
      (.elem "SgAssignOp" M.initAttrs
        [.elem "SgVarRefExp" M.varAttrs (loopCollapseBodies firstLoop M.varChildren),
          collapsed firstLoop M.lower.xml] ::
        collapsed firstLoop M.upper.xml :: collapsed firstLoop M.stride.xml ::
          .elem "SgBasicBlock" M.blockAttrs (loopCollapseBodies firstLoop M.body) ::
            loopCollapseBodies firstLoop M.infoList)] := by
    rw [DoLoop.xml, loopCollapseBody, if_neg (by simp), DoLoop.children, loopCollapseBodies,
      loopCollapseBodies, loopCollapseBodies, loopCollapseBodies, hinit, hexpr M.upper (by simp),
      hexpr M.stride (by simp), hblock]
    rfl
  have hoperand : ∀ e : Expr, (collapsed firstLoop e.xml).isOperand = true := by
    intro e
    rw [Xml.isOperand, isElem_collapsed, hasName_collapsed firstLoop (by decide) (by decide)]
    exact e.isOperand_xml
  have hstride : strideValue μ ρ' (collapsed firstLoop M.stride.xml) =
      strideValue μ ρ M.stride.xml := by
    rw [strideValue, strideValue, hasName_collapsed firstLoop (by decide) (by decide),
      (hheader M.stride (by simp)).2]
  refine ⟨_, hloop, rfl, ?_⟩
  rw [DoLoop.values_eq, ← (hheader M.lower (by simp)).2, ← (hheader M.upper (by simp)).2, ← hstride]
  exact loopRuns_built μ ρ' [] _ (by rfl) M.named (by rw [isElem_collapsed]; rfl) (hoperand _)
    (hoperand _) (by rfl)

/-- Bodies perform the same in related environments, if their statements and the
    headers of their loops do. -/
theorem perform_loopCollapseBodies {R : Env → Env → Prop}
    (hset : ∀ σ σ' y v, R σ σ' → y ≠ firstLoop → y ≠ secondLoop → R (σ.set y v) (σ'.set y v))
    (hstatement : ∀ σ σ' x, R σ σ' → x.isElem = true → okStatement x →
      collapsible firstLoop x = true ∧
        observe extents μ σ' false (collapsed firstLoop x) = observe extents μ σ false x)
    (hheader : ∀ σ σ' x, R σ σ' → x.isElem = true → okHeader x → collapsible firstLoop x = true ∧
      eval μ σ' (collapsed firstLoop x) = eval μ σ x)
    {ns : List Xml} (h : Fits firstLoop secondLoop okStatement okHeader ns) {σ σ' : Env}
    (hσ : R σ σ') :
    perform extents μ σ' (loopCollapseBodies firstLoop ns) = perform extents μ σ ns := by
  induction h generalizing σ σ' with
  | nil => rfl
  | @skip x ns hloop hstmt h ih =>
      rw [loopCollapseBodies, perform_append, (perform_skip σ' firstLoop hloop hstmt).2,
        ← List.singleton_append,
        perform_append, (perform_skip σ firstLoop hloop hstmt).1, ih hσ]
  | @statement x ns hloop helem hok h ih =>
      have hx := hstatement σ σ' x hσ helem hok
      rw [loopCollapseBodies, perform_append, perform_statement σ hloop helem hx.1 hx.2, ih hσ,
        ← perform_append, List.singleton_append]
  | @loop ns M hfirst hsecond hhead hbody h ihbody ih =>
      have hexprs : ∀ e ∈ [M.lower, M.upper, M.stride], collapsible firstLoop e.xml = true ∧
          eval μ σ' (collapsed firstLoop e.xml) = eval μ σ e.xml := by
        intro e he
        refine hheader σ σ' e.xml hσ e.isElem_xml ?_
        rcases List.mem_cons.mp he with rfl | he
        · exact hhead.1
        · rcases List.mem_cons.mp he with rfl | he
          · exact hhead.2.1
          · rw [List.mem_singleton.mp he]
            exact hhead.2.2
      rcases loopRuns_loopCollapseBody σ M hfirst hexprs with ⟨x, hx, hname, hruns⟩
      rw [loopCollapseBodies, perform_append, hx, perform_loop extents μ σ' hname hruns, ih hσ,
        ← List.singleton_append, perform_append, perform_xml]
      congr 1
      exact List.flatMap_congr fun v _ => ihbody (hset σ σ' M.index v hσ hfirst hsecond)

end Bodies

section Search

variable (extents : Text → List Int) (μ : Machine) (ρ : Env)
variable {hit : Attrs → List Xml → Option (List Xml)}

theorem perform_elements (ns : List Xml) :
    perform extents μ ρ (elements ns) = perform extents μ ρ ns := by
  rw [perform, perform, flatMap_trace_elements]

/-- The only element of a list is all that is searched in it. -/
theorem perform_searchedAll {ns : List Xml} {y : Xml} (h : elements ns = [y]) :
    perform extents μ ρ (searchedAll hit ns) = perform extents μ ρ (searched hit y) := by
  have hall : ∀ ms, perform extents μ ρ (searchedAll hit ms) =
      perform extents μ ρ ((elements ms).flatMap (searched hit)) := by
    intro ms
    induction ms with
    | nil => rfl
    | cons m ms ih =>
        rw [searchedAll, perform_append, ih]
        cases m with
        | elem name attrs cs => rw [elements_cons_elem, List.flatMap_cons, perform_append]
        | text t => rfl
        | comment t => rfl
  rw [hall, h, List.flatMap_singleton]

/-- A loop that is passed performs what is made of the loop in it, for all its
    values. -/
theorem perform_passed (N : DoLoop) {y : Xml} (hfree : N.Free)
    (hpass : hit N.attrs N.children = none) (hbody : elements N.body = [y]) :
    perform extents μ ρ (searched hit N.xml) =
      (N.values μ ρ).flatMap fun v => perform extents μ (ρ.set N.index v) (searched hit y) := by
  rw [searched_xml N hfree hpass, perform_loop extents μ ρ rfl (loopRuns_copied μ ρ N _ rfl)]
  exact List.flatMap_congr fun v _ => perform_searchedAll extents μ _ hbody

/-- A nest performs what its inner loop does. -/
theorem perform_nest (N : DoLoop) {y : Xml} (hbody : elements N.body = [y]) :
    perform extents μ ρ [N.xml] =
      (N.values μ ρ).flatMap fun v => perform extents μ (ρ.set N.index v) [y] := by
  rw [perform_xml]
  refine List.flatMap_congr fun v _ => ?_
  rw [← perform_elements, hbody]

/-- The loop with the product of the bounds. -/
theorem perform_collapsedLoop (firstEnd : Expr) (firstLoop : Text) (M : DoLoop) :
    perform extents μ ρ [collapsedLoop [firstEnd.xml] firstLoop M.attrs M.children] =
      (Progression.values (eval μ ρ M.lower.xml)
          (eval μ ρ M.upper.xml * eval μ ρ firstEnd.xml) (strideValue μ ρ M.stride.xml)).flatMap
        fun v => perform extents μ (ρ.set M.index v) (loopCollapseBodies firstLoop M.body) := by
  have hend : copiedAll [firstEnd.xml] = [firstEnd.xml.copied] := by
    rw [Expr.xml, copiedAll_elem_cons, copiedAll_nil]
  have hproduct : eval μ ρ (.elem "SgMultiplyOp" [] [M.upper.xml, firstEnd.xml.copied]) =
      eval μ ρ M.upper.xml * eval μ ρ firstEnd.xml := by
    have hvalues : operandsValues μ ρ [M.upper.xml, firstEnd.xml.copied] =
        [eval μ ρ M.upper.xml, eval μ ρ firstEnd.xml] := by
      rw [operandsValues, operandsValues, operandsValues, (operandValues_copied_and μ ρ).1,
        operandValues_expr, operandValues_expr]
      rfl
    rw [eval, operandValues, if_neg (by decide), if_neg (by decide), hvalues]
    simp [apply]
  have hblock : loopCollapseBody firstLoop M.block =
      [.elem "SgBasicBlock" M.blockAttrs (loopCollapseBodies firstLoop M.body)] := by
    rw [DoLoop.block, loopCollapseBody, if_neg (by simp)]
  have hrule : collapsedLoop [firstEnd.xml] firstLoop M.attrs M.children =
      .elem "SgFortranDo" M.attrs (.elem "SgAssignOp" M.initAttrs [M.var, M.lower.xml] ::
        .elem "SgMultiplyOp" [] [M.upper.xml, firstEnd.xml.copied] :: M.stride.xml ::
          [.elem "SgBasicBlock" M.blockAttrs (loopCollapseBodies firstLoop M.body)]) := by
    rw [collapsedLoop, nth_one_children, nth_two_children, nth_three_children,
      named_children_block, List.flatMap_singleton, hblock, hend]
    rfl
  have hruns : loopRuns μ ρ (collapsedLoop [firstEnd.xml] firstLoop M.attrs M.children) =
      (Progression.values (eval μ ρ M.lower.xml)
          (eval μ ρ M.upper.xml * eval μ ρ firstEnd.xml) (strideValue μ ρ M.stride.xml)).map
        fun v => (.elem "SgBasicBlock" M.blockAttrs (loopCollapseBodies firstLoop M.body),
          ρ.set M.index v) := by
    rw [hrule, ← hproduct]
    exact loopRuns_built μ ρ [] [] (by rfl) M.named M.lower.isElem_xml (by rfl)
      M.stride.isOperand_xml (by rfl)
  exact perform_loop extents μ ρ (by rfl) hruns

end Search

section Nests

variable (extents : Text → List Int) (μ : Machine) (firstLoop secondLoop : Text)

/-- Trees in which the first index occurs only if its value is one. -/
def Once (v : Int) (x : Xml) : Prop :=
  collapsible firstLoop x = true ∧ (v = 1 ∨ mentions firstLoop x = false)

/-- Nests below a first loop that takes the given value only, with the second loop
    anywhere in them. -/
inductive FindsSecond (firstEnd : Expr) (v : Int) : Env → Xml → Prop
  | here {ρ} (M : DoLoop) (hindex : M.index = secondLoop) (hne : firstLoop ≠ secondLoop)
      (hfixed : M.Fixed μ ρ [firstLoop])
      (hvalues : Progression.values (eval μ ρ M.lower.xml)
        (eval μ ρ M.upper.xml * eval μ ρ firstEnd.xml) (strideValue μ ρ M.stride.xml) =
          M.values μ ρ)
      (hbody : Fits firstLoop secondLoop (Once firstLoop v) (Once firstLoop v) M.body) :
      FindsSecond firstEnd v ρ M.xml
  | between {ρ} (N : DoLoop) {y : Xml} (hfree : N.Free)
      (hsel : selectsLoop secondLoop N.children = false) (hindex : N.index ≠ firstLoop)
      (hfixed : N.Fixed μ ρ [firstLoop]) (hbody : elements N.body = [y])
      (h : ∀ w ∈ N.values μ ρ, FindsSecond firstEnd v (ρ.set N.index w) y) :
      FindsSecond firstEnd v ρ N.xml

/-- Whether the loop with the product of the bounds has the values of both loops,
    if a step of the outer one is as much as the given number of steps of one. -/
def StepsFit (μ : Machine) (ρ : Env) (e : Int) (L M : DoLoop) : Prop :=
  let c := (L.values μ ρ).length
  let c' := (M.values μ ρ).length
  Progression.tripCount (eval μ ρ M.lower.xml) (eval μ ρ M.upper.xml * eval μ ρ L.upper.xml)
      (strideValue μ ρ M.stride.xml) = c * c' ∧
    (0 < c' → (0 < c → (eval μ ρ L.lower.xml - 1) * e = 0) ∧
      (1 < c → c' * strideValue μ ρ M.stride.xml = strideValue μ ρ L.stride.xml * e))

/-- Nests for which the rule is right: the second loop is directly in the first one,
    and the steps fit the extents of the arrays, or the body does not depend on
    the indices; or the first loop takes a single value. -/
inductive Collapses : Env → Xml → Prop
  | adjacent {ρ} (L M : DoLoop) (e : Int) (hfirst : L.index = firstLoop)
      (hsecond : M.index = secondLoop) (hne : firstLoop ≠ secondLoop)
      (hnest : elements L.body = [M.xml]) (hfixed : M.Fixed μ ρ [firstLoop])
      (hsteps : StepsFit μ ρ e L M)
      (hbody : L.values μ ρ ≠ [] → M.values μ ρ ≠ [] → Fits firstLoop secondLoop
        (Linear extents firstLoop secondLoop e) (fun x => apart firstLoop secondLoop x = true)
        M.body) :
      Collapses ρ L.xml
  | counted {ρ} (L M : DoLoop) (hfirst : L.index = firstLoop) (hsecond : M.index = secondLoop)
      (hne : firstLoop ≠ secondLoop) (hnest : elements L.body = [M.xml])
      (hfixed : M.Fixed μ ρ [firstLoop])
      (hcount : Progression.tripCount (eval μ ρ M.lower.xml)
        (eval μ ρ M.upper.xml * eval μ ρ L.upper.xml) (strideValue μ ρ M.stride.xml) =
          (L.values μ ρ).length * (M.values μ ρ).length)
      (hbody : Fits firstLoop secondLoop (fun x => apart firstLoop secondLoop x = true)
        (fun x => apart firstLoop secondLoop x = true) M.body) :
      Collapses ρ L.xml
  | single {ρ} (L : DoLoop) {y : Xml} (v : Int) (hfirst : L.index = firstLoop)
      (hvalues : L.values μ ρ = [v]) (hnest : elements L.body = [y])
      (h : FindsSecond μ firstLoop secondLoop L.upper v ρ y) : Collapses ρ L.xml
  | outer {ρ} (N : DoLoop) {y : Xml} (hfree : N.Free)
      (hsel : selectsLoop firstLoop N.children = false) (hnest : elements N.body = [y])
      (h : ∀ w ∈ N.values μ ρ, Collapses (ρ.set N.index w) y) : Collapses ρ N.xml

variable {extents} {μ} {firstLoop secondLoop}

/-- The second loop, where it is found. -/
theorem loopCollapseFindSecond_xml {firstEnd : List Xml} {M : DoLoop} (h : M.index = secondLoop) :
    loopCollapseFindSecond firstEnd firstLoop secondLoop M.xml =
      [collapsedLoop firstEnd firstLoop M.attrs M.children] := by
  rw [loopCollapseFindSecond, DoLoop.xml, searched, if_pos rfl, if_pos (selectsLoop_of_index h)]

/-- The first loop leaves what is made of the loop in it. -/
theorem xevLoopCollapse_xml {L M : DoLoop} (h : L.index = firstLoop)
    (hnest : elements L.body = [M.xml]) :
    xevLoopCollapse firstLoop secondLoop L.xml =
      loopCollapseFindSecond [L.upper.xml] firstLoop secondLoop M.xml := by
  rw [xevLoopCollapse, loopCollapseFindFirst, DoLoop.xml, searched, if_pos rfl,
    if_pos (selectsLoop_of_index h), path_nest hnest, nth_two_children, List.flatMap_singleton]

/-- What the nest of two loops performs, and what the loop that is made of them
    does. -/
theorem perform_adjacent (extents : Text → List Int) {ρ : Env} {L M : DoLoop}
    (hfirst : L.index = firstLoop)
    (hsecond : M.index = secondLoop) (hnest : elements L.body = [M.xml])
    (hfixed : M.Fixed μ ρ [firstLoop]) :
    perform extents μ ρ [L.xml] = ((L.values μ ρ).flatMap fun i => (M.values μ ρ).flatMap fun j =>
        perform extents μ ((ρ.set firstLoop i).set secondLoop j) M.body) ∧
      perform extents μ ρ (xevLoopCollapse firstLoop secondLoop L.xml) =
        (Progression.values (eval μ ρ M.lower.xml) (eval μ ρ M.upper.xml * eval μ ρ L.upper.xml)
          (strideValue μ ρ M.stride.xml)).flatMap fun v =>
            perform extents μ (ρ.set secondLoop v) (loopCollapseBodies firstLoop M.body) := by
  constructor
  · rw [perform_nest extents μ ρ L hnest, hfirst]
    refine List.flatMap_congr fun i _ => ?_
    have hagree : Env.Agree [firstLoop] (ρ.set firstLoop i) ρ :=
      (Env.Agree.refl _ ρ).set List.mem_cons_self i
    rw [perform_xml, hfixed.values hagree, hsecond]
  · rw [xevLoopCollapse_xml hfirst hnest, loopCollapseFindSecond_xml hsecond,
      perform_collapsedLoop, hsecond]

/-- The values of the two indices and the value of the index of the collapsed
    loop. -/
theorem shifted_of_values {ρ : Env} (hne : firstLoop ≠ secondLoop) (e i j : Int) :
    Shifted firstLoop secondLoop e ((ρ.set firstLoop i).set secondLoop j)
      (ρ.set secondLoop (j + (i - 1) * e)) := by
  refine ⟨i, j, ?_, Env.set_self _ _ _, Env.set_self _ _ _, fun y hy hy' => ?_⟩
  · rw [Env.set_of_ne _ _ hne, Env.set_self]
  · rw [Env.set_of_ne _ _ hy', Env.set_of_ne _ _ hy', Env.set_of_ne _ _ hy]

theorem Shifted.set {e : Int} {σ σ' : Env} (h : Shifted firstLoop secondLoop e σ σ') {y : Text}
    (v : Int) (hfirst : y ≠ firstLoop) (hsecond : y ≠ secondLoop) :
    Shifted firstLoop secondLoop e (σ.set y v) (σ'.set y v) := by
  rcases h with ⟨i, j, hi, hj, hj', hagree⟩
  refine ⟨i, j, ?_, ?_, ?_, fun z hz hz' => ?_⟩
  · rw [Env.set_of_ne σ v hfirst.symm, hi]
  · rw [Env.set_of_ne σ v hsecond.symm, hj]
  · rw [Env.set_of_ne σ' v hsecond.symm, hj']
  · by_cases hzy : z = y
    · rw [hzy, Env.set_self, Env.set_self]
    · rw [Env.set_of_ne σ v hzy, Env.set_of_ne σ' v hzy, hagree z hz hz']

theorem eval_of_apart {σ σ' : Env} {x : Xml} (helem : x.isElem = true)
    (hagree : ∀ y, y ≠ firstLoop → y ≠ secondLoop → σ' y = σ y)
    (h : apart firstLoop secondLoop x = true) :
    eval μ σ' (collapsed firstLoop x) = eval μ σ x := by
  rw [eval, eval, operandValues_of_apart helem hagree h]

/-- A body with linear statements, in shifted environments. -/
theorem perform_of_shifted {e : Int} {σ σ' : Env} {ns : List Xml} (hne : firstLoop ≠ secondLoop)
    (h : Fits firstLoop secondLoop (Linear extents firstLoop secondLoop e)
      (fun x => apart firstLoop secondLoop x = true) ns)
    (hσ : Shifted firstLoop secondLoop e σ σ') :
    perform extents μ σ' (loopCollapseBodies firstLoop ns) = perform extents μ σ ns := by
  refine perform_loopCollapseBodies (R := Shifted firstLoop secondLoop e) ?_ ?_ ?_ h hσ
  · intro σ σ' y v hσ hfirst hsecond
    exact hσ.set v hfirst hsecond
  · intro σ σ' x hσ helem hx
    exact ⟨hx.collapsible, observe_of_linear hne helem hσ hx false⟩
  · intro σ σ' x hσ helem hx
    rcases hσ with ⟨i, j, hi, hj, hj', hagree⟩
    exact ⟨collapsible_of_apart hx, eval_of_apart helem hagree hx⟩

/-- A body without the indices, in environments that are the same without them. -/
theorem perform_of_agree {σ σ' : Env} {ns : List Xml}
    (h : Fits firstLoop secondLoop (fun x => apart firstLoop secondLoop x = true)
      (fun x => apart firstLoop secondLoop x = true) ns)
    (hσ : ∀ y, y ≠ firstLoop → y ≠ secondLoop → σ' y = σ y) :
    perform extents μ σ' (loopCollapseBodies firstLoop ns) = perform extents μ σ ns := by
  refine perform_loopCollapseBodies
    (R := fun σ σ' => ∀ y, y ≠ firstLoop → y ≠ secondLoop → σ' y = σ y) ?_ ?_ ?_ h hσ
  · intro σ σ' y v hσ hfirst hsecond z hz hz'
    by_cases hzy : z = y
    · rw [hzy, Env.set_self, Env.set_self]
    · rw [Env.set_of_ne σ v hzy, Env.set_of_ne σ' v hzy, hσ z hz hz']
  · intro σ σ' x hσ helem hx
    exact ⟨collapsible_of_apart hx, observe_of_apart helem hσ hx false⟩
  · intro σ σ' x hσ helem hx
    exact ⟨collapsible_of_apart hx, eval_of_apart helem hσ hx⟩

/-- A body in which the first index occurs only if its value is one, with this
    value and without the index. -/
theorem perform_of_once {v : Int} {σ : Env} {ns : List Xml}
    (h : Fits firstLoop secondLoop (Once firstLoop v) (Once firstLoop v) ns) :
    perform extents μ σ (loopCollapseBodies firstLoop ns) =
      perform extents μ (σ.set firstLoop v) ns := by
  have hvar : ∀ (σ : Env) attrs cs, (attrs.lookup "name" = some firstLoop → v = 1) →
      eval μ σ (collapsed firstLoop (.elem "SgVarRefExp" attrs cs)) =
        eval μ (σ.set firstLoop v) (.elem "SgVarRefExp" attrs cs) := by
    intro σ attrs cs hone
    rw [collapsed]
    by_cases hown : attrs.lookup "name" = some firstLoop
    · rw [if_pos ⟨rfl, hown⟩, eval_paramVal, eval_varRefExp μ _ cs hown, Env.set_self, hone hown]
      rfl
    · rw [if_neg fun hand => hown hand.2]
      refine eval_varRefExp_congr μ _ _ fun y hy => (Env.set_of_ne σ v ?_).symm
      intro heq
      exact hown (heq ▸ hy)
  have honly : ∀ x : Xml, Once firstLoop v x → ∀ p attrs cs,
      exprAt p x = some (.elem "SgVarRefExp" attrs cs) →
        attrs.lookup "name" = some firstLoop → v = 1 := by
    intro x hx p attrs cs hp hname
    rcases hx.2 with hone | hnone
    · exact hone
    · have hmention := mentions_of_exprAt hp hname
      rw [hnone] at hmention
      exact Bool.noConfusion hmention
  refine perform_loopCollapseBodies (R := fun σ σ' => σ = σ'.set firstLoop v) ?_ ?_ ?_ h rfl
  · intro σ σ' y w hσ hfirst hsecond
    rw [hσ, Env.set_comm σ' v w hfirst.symm]
  · intro σ σ' x hσ helem hx
    rw [hσ]
    exact ⟨hx.1, (observe_collapsed (hvar σ')).1 x helem hx.1 (honly x hx) false⟩
  · intro σ σ' x hσ helem hx
    rw [hσ, eval, eval, ((rewrites_collapsed firstLoop).operandValues_map (hvar σ')).1 x helem
      (honly x hx)]
    exact ⟨hx.1, rfl⟩

/-- Below a first loop that takes a single value. -/
theorem perform_findsSecond {firstEnd : Expr} {v : Int} {ρ : Env} {y : Xml}
    (h : FindsSecond μ firstLoop secondLoop firstEnd v ρ y) :
    perform extents μ ρ (loopCollapseFindSecond [firstEnd.xml] firstLoop secondLoop y) =
      perform extents μ (ρ.set firstLoop v) [y] := by
  induction h with
  | @here ρ M hindex hne hfixed hvalues hbody =>
      have hagree : Env.Agree [firstLoop] (ρ.set firstLoop v) ρ :=
        (Env.Agree.refl _ ρ).set List.mem_cons_self v
      rw [loopCollapseFindSecond_xml hindex, perform_collapsedLoop, hvalues, perform_xml,
        hfixed.values hagree, hindex]
      refine List.flatMap_congr fun w _ => ?_
      rw [perform_of_once hbody, Env.set_comm ρ v w hne]
  | @between ρ N y hfree hsel hindex hfixed hbody h ih =>
      have hagree : Env.Agree [firstLoop] (ρ.set firstLoop v) ρ :=
        (Env.Agree.refl _ ρ).set List.mem_cons_self v
      rw [loopCollapseFindSecond, perform_passed extents μ ρ N hfree (by simp [hsel]) hbody,
        perform_nest extents μ _ N hbody, hfixed.values hagree]
      refine List.flatMap_congr fun w hw => ?_
      rw [Env.set_comm ρ v w hindex.symm]
      exact ih w hw

theorem findsSecond_xml {firstEnd : Expr} {v : Int} {ρ : Env} {y : Xml}
    (h : FindsSecond μ firstLoop secondLoop firstEnd v ρ y) : ∃ M : DoLoop, y = M.xml := by
  cases h with
  | here M => exact ⟨M, rfl⟩
  | between N => exact ⟨N, rfl⟩

end Nests

section Examples

/-- The nest of the loops `do i = 1, 2` and `do j = 1, 2` around the assignment of
    the value to `a(j,i)`. -/
def columns (value : Xml) : DoLoop :=
  DoLoop.plain ['i'] (Expr.int 1) (Expr.int 2) Expr.null
    [(DoLoop.plain ['j'] (Expr.int 1) (Expr.int 2) Expr.null
      [.elem "SgExprStatement" [] [.elem "SgAssignOp" []
        [.elem "SgPntrArrRefExp" [] [varRef ['a'], .elem "SgExprListExp" []
          [varRef ['j'], varRef ['i']]], value]]]).xml]

theorem collapses_columns :
    Collapses (fun _ => [2, 2]) (Machine.const 0) ['i'] ['j'] (fun _ => none)
      (columns oneVal).xml := by
  refine Collapses.adjacent (columns oneVal) _ 2 rfl rfl (by decide) rfl ?_ ?_ fun _ _ =>
    Fits.statement rfl rfl ?_ Fits.nil
  · exact ⟨Expr.unaffected_int _ _ _ _, Expr.unaffected_int _ _ _ _, fun _ _ => rfl⟩
  · unfold StepsFit
    decide +kernel
  · refine Linear.node (by decide) (by decide) (by decide) fun x hx => ?_
    rw [List.mem_singleton.mp hx]
    refine Linear.node (by decide) (by decide) (by decide) fun x hx => ?_
    rcases List.mem_cons.mp hx with rfl | hx
    · have hpair : elements [varRef ['j'], varRef ['i']] = [] ++ [varRef ['j'], varRef ['i']] := rfl
      refine Linear.pair rfl rfl (by decide) hpair rfl rfl ?_ rfl
      intro x hx
      exact absurd hx (by simp)
    · rw [List.mem_singleton.mp hx]
      exact Linear.apart (by decide +kernel)

end Examples

end XevXml
