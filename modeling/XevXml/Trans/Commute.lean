import XevXml.Trans.Copies
import XevXml.Trans.Jam
import XevXml.Trans.Skewing

/-!
# Unrolling Two Loops of a Nest

Unrolling an inner loop of a perfect nest and unroll-and-jam of an outer one are
the same rule, applied for two variables. Each of them makes a well-formed loop
of a well-formed loop, so that a nest can be followed through both.

In the innermost body every copy for one variable is copied for the other. The
two substitutions do not meet, so the same statements are there after either
order, only sorted by the one number or by the other. The headers are another
matter: a loop is found by its index, but also by a lower bound that is the
variable. If both rules find the same loop, its stride is the factor of the one
that comes last.

## Main definitions

* `DoLoop.unrolled`: What the rule makes of a loop.
* `PerfectNest`: Perfect nests of any depth.
* `SameNest`: Nests with the same headers and the same statements.
* `unrollAfterJam`, `jamAfterUnroll`: The rules one after the other.

## Theorems

* `unrolledCopy_comm`: Copies for two variables.
* `SameNest.trace_perm`: What the same nests execute.
* `unroll_jam_commute_iff`: When the order makes no difference.
-/

namespace XevXml

section Copies

variable {n m : Text}

/-- A list of elements is unrolled piece by piece. -/
theorem loopUnrollBodies_append (n : Text) (k : Nat) (xs ys : List Xml) :
    loopUnrollBodies n k (xs ++ ys) = loopUnrollBodies n k xs ++ loopUnrollBodies n k ys := by
  induction xs with
  | nil => rfl
  | cons x xs ih => rw [List.cons_append, loopUnrollBodies, loopUnrollBodies, ih, List.append_assoc]

theorem loopUnrollBodies_singleton (n : Text) (k : Nat) (x : Xml) :
    loopUnrollBodies n k [x] = loopUnrollBody n k x := by
  rw [loopUnrollBodies, loopUnrollBodies, List.append_nil]

/-- The identity templates and the templates for a copy. -/
theorem copied_loopUnrollBody (n : Text) (k : Nat) :
    (∀ x : Xml, copiedAll (loopUnrollBody n k x) =
        if x.isComment = true then [] else loopUnrollBody n k x.copied) ∧
      ∀ xs, copiedAll (loopUnrollBodies n k xs) = loopUnrollBodies n k (copiedAll xs) := by
  refine Xml.induct ?elem ?text ?comment ?nil ?cons
  case elem =>
    intro name attrs cs ih
    have hcomment : ¬ (Xml.elem name attrs cs).isComment = true := Bool.false_ne_true
    rw [if_neg hcomment, Xml.copied, loopUnrollBody, loopUnrollBody]
    by_cases hvar : name = "SgVarRefExp"
    · rw [if_pos hvar, if_pos hvar]
      cases attrs.lookup "name" with
      | none => rfl
      | some y =>
          simp only
          split <;> rfl
    · rw [if_neg hvar, if_neg hvar, copiedAll_elem_cons, copiedAll_nil, Xml.copied, ih]
  case text =>
    intro t
    rfl
  case comment =>
    intro t
    rfl
  case nil => rfl
  case cons =>
    intro x xs hx ih
    rw [loopUnrollBodies, copiedAll_append, hx, ih]
    by_cases hcomment : x.isComment = true
    · rw [if_pos hcomment, copiedAll_comment_cons hcomment, List.nil_append]
    · rw [if_neg hcomment, copiedAll_cons_of_not hcomment, loopUnrollBodies]

/-- The templates for copies for two variables. -/
theorem loopUnrollBody_comm (h : n ≠ m) (j k : Nat) :
    (∀ x : Xml, loopUnrollBodies n j (loopUnrollBody m k x) =
        loopUnrollBodies m k (loopUnrollBody n j x)) ∧
      ∀ xs, loopUnrollBodies n j (loopUnrollBodies m k xs) =
        loopUnrollBodies m k (loopUnrollBodies n j xs) := by
  have hparam : ∀ (o : Text) (c l : Nat), loopUnrollBody o c (paramVal l) = [paramVal l] :=
    fun _ _ _ => rfl
  -- The number added to one variable is nothing to the other.
  have hsum : ∀ (o o' : Text) (c l : Nat) (attrs : Attrs) (cs : List Xml), o ≠ o' →
      attrs.lookup "name" = some o' →
      loopUnrollBodies o c [.elem "SgAddOp" [] [.elem "SgVarRefExp" attrs cs, paramVal l]] =
        [.elem "SgAddOp" [] [.elem "SgVarRefExp" attrs cs, paramVal l]] := by
    intro o o' c l attrs cs hne hname
    have hvar : loopUnrollBody o c (.elem "SgVarRefExp" attrs cs) =
        [.elem "SgVarRefExp" attrs cs] := by
      rw [loopUnrollBody, if_pos rfl]
      simp only [hname]
      rw [if_neg hne.symm]
    rw [loopUnrollBodies_singleton, loopUnrollBody, if_neg (by decide), loopUnrollBodies, hvar,
      loopUnrollBodies_singleton, hparam]
    rfl
  have hself : ∀ (o : Text) (c : Nat) (attrs : Attrs) (cs : List Xml),
      attrs.lookup "name" = some o → loopUnrollBodies o c [.elem "SgVarRefExp" attrs cs] =
        [.elem "SgAddOp" [] [.elem "SgVarRefExp" attrs cs, paramVal c]] := by
    intro o c attrs cs hname
    rw [loopUnrollBodies_singleton, loopUnrollBody, if_pos rfl]
    simp only [hname, if_true]
  have hother : ∀ (o y : Text) (c : Nat) (attrs : Attrs) (cs : List Xml), y ≠ o →
      attrs.lookup "name" = some y → loopUnrollBodies o c [.elem "SgVarRefExp" attrs cs] =
        [.elem "SgVarRefExp" attrs cs] := by
    intro o y c attrs cs hne hname
    rw [loopUnrollBodies_singleton, loopUnrollBody, if_pos rfl]
    simp only [hname]
    rw [if_neg hne]
  refine Xml.induct ?elem ?text ?comment ?nil ?cons
  case elem =>
    intro name attrs cs ih
    by_cases hvar : name = "SgVarRefExp"
    · subst hvar
      rw [← loopUnrollBodies_singleton m, ← loopUnrollBodies_singleton n]
      cases hname : attrs.lookup "name" with
      | none =>
          have hnone : ∀ (o : Text) (c : Nat),
              loopUnrollBodies o c [.elem "SgVarRefExp" attrs cs] = [] := by
            intro o c
            rw [loopUnrollBodies_singleton, loopUnrollBody, if_pos rfl]
            simp only [hname]
          rw [hnone, hnone]
          rfl
      | some y =>
          by_cases hm : y = m
          · rw [hm] at hname
            rw [hself m k attrs cs hname, hsum n m j k attrs cs h hname,
              hother n m j attrs cs h.symm hname, hself m k attrs cs hname]
          · by_cases hn : y = n
            · rw [hn] at hname
              rw [hself n j attrs cs hname, hsum m n k j attrs cs h.symm hname,
                hother m n k attrs cs h hname, hself n j attrs cs hname]
            · rw [hother m y k attrs cs hm hname, hother n y j attrs cs hn hname,
                hother m y k attrs cs hm hname]
    · rw [loopUnrollBody, if_neg hvar, loopUnrollBody, if_neg hvar, loopUnrollBodies_singleton,
        loopUnrollBodies_singleton, loopUnrollBody, if_neg hvar, loopUnrollBody, if_neg hvar, ih]
  case text =>
    intro t
    rfl
  case comment =>
    intro t
    rfl
  case nil => rfl
  case cons =>
    intro x xs hx ih
    rw [loopUnrollBodies, loopUnrollBodies, loopUnrollBodies_append, loopUnrollBodies_append,
      hx, ih]

/-- All nodes of a copy are elements. -/
theorem elements_unrolledCopy (n : Text) (ns : List Xml) (k : Nat) :
    elements (unrolledCopy n ns k) = unrolledCopy n ns k := by
  rw [unrolledCopy]
  split
  · rw [elements_copiedAll, elements_elements]
    have hall : ∀ x ∈ elements ns, x.isComment = false := by
      intro x hx
      have helem := (List.mem_filter.mp hx).2
      cases x with
      | elem name attrs cs => rfl
      | text t => rfl
      | comment t => exact Bool.noConfusion helem
    generalize elements ns = ms at hall
    induction ms with
    | nil => rfl
    | cons x xs ih =>
        have hx : ¬ x.isComment = true := by
          rw [hall x List.mem_cons_self]
          exact Bool.false_ne_true
        rw [List.map_cons, copiedAll_cons_of_not hx,
          ih fun y hy => hall y (List.mem_cons_of_mem _ hy)]
  · exact elements_loopUnrollBodies k

theorem unrolledCopy_zero (n : Text) (ns : List Xml) :
    unrolledCopy n ns 0 = copiedAll (elements ns) := if_pos rfl

theorem unrolledCopy_of_ne (n : Text) (ns : List Xml) {k : Nat} (hk : k ≠ 0) :
    unrolledCopy n ns k = loopUnrollBodies n k (elements ns) := if_neg hk

/-- Copies for two variables are the same in either order. -/
theorem unrolledCopy_comm (h : n ≠ m) (ns : List Xml) (j k : Nat) :
    unrolledCopy n (unrolledCopy m ns k) j = unrolledCopy m (unrolledCopy n ns j) k := by
  have hfirst : elements (copiedAll (elements ns)) = copiedAll (elements ns) := by
    rw [← unrolledCopy_zero n]
    exact elements_unrolledCopy n ns 0
  by_cases hj : j = 0
  · subst hj
    rw [unrolledCopy_zero, elements_unrolledCopy, unrolledCopy_zero]
    by_cases hk : k = 0
    · subst hk
      rw [unrolledCopy_zero, unrolledCopy_zero, hfirst]
    · rw [unrolledCopy_of_ne m ns hk, unrolledCopy_of_ne m _ hk, hfirst,
        (copied_loopUnrollBody m k).2]
  · rw [unrolledCopy_of_ne n ns hj, unrolledCopy_of_ne n _ hj, elements_unrolledCopy]
    by_cases hk : k = 0
    · subst hk
      rw [unrolledCopy_zero, unrolledCopy_zero, elements_loopUnrollBodies,
        (copied_loopUnrollBody n j).2]
    · rw [unrolledCopy_of_ne m ns hk, unrolledCopy_of_ne m _ hk, elements_loopUnrollBodies,
        (loopUnrollBody_comm h j k).2]

theorem unrolledCopy_append (n : Text) (xs ys : List Xml) (k : Nat) :
    unrolledCopy n (xs ++ ys) k = unrolledCopy n xs k ++ unrolledCopy n ys k := by
  rw [unrolledCopy, unrolledCopy, unrolledCopy, elements_append]
  split
  · exact copiedAll_append _ _
  · exact loopUnrollBodies_append _ _ _ _

theorem unrolledCopy_flatMap {α : Type*} (n : Text) (l : List α) (f : α → List Xml) (k : Nat) :
    unrolledCopy n (l.flatMap f) k = l.flatMap fun a => unrolledCopy n (f a) k := by
  induction l with
  | nil =>
      rw [List.flatMap_nil, List.flatMap_nil, unrolledCopy]
      split <;> rfl
  | cons a l ih => rw [List.flatMap_cons, List.flatMap_cons, unrolledCopy_append, ih]

end Copies

section Loops

variable (total factor : Nat) (n : Text) (L : DoLoop)

/-- A copy of an expression. -/
def Expr.copied (e : Expr) : Expr := { e with children := copiedAll e.children }

theorem Expr.xml_copied (e : Expr) : e.copied.xml = e.xml.copied := by
  rw [Expr.xml, Expr.xml, Xml.copied]
  rfl

theorem Expr.copied_copied (e : Expr) : e.copied.copied = e.copied := by
  rw [Expr.copied, Expr.copied]
  simp only [copied_copiedAll.2]

/-- A factor as a stride. -/
def Expr.param (factor : Nat) : Expr where
  name := "SgIntVal"
  attrs := [("value", Numeral.printNat factor)]
  children := []
  free := (Expr.int factor).free

/-- A loop with a copy of its header. -/
def DoLoop.headerCopied : DoLoop :=
  { L with
    varChildren := copiedAll L.varChildren
    lower := L.lower.copied
    upper := L.upper.copied
    stride := L.stride.copied
    infos := L.infos.map fun i => (i.1, copiedAll i.2) }

/-- A loop with another block. -/
def DoLoop.withBlock (attrs : Attrs) (body : List Xml) : DoLoop :=
  { L with
    blockAttrs := attrs
    body := body }

theorem DoLoop.withBlock_withBlock (a c : Attrs) (b d : List Xml) :
    (L.withBlock a b).withBlock c d = L.withBlock c d := rfl

/-- A loop that has the header of another one is that loop with its own block. -/
theorem DoLoop.eq_withBlock {M N : DoLoop} {a : Attrs} {b : List Xml} (h : M = N.withBlock a b) :
    M = N.withBlock M.blockAttrs M.body := by
  subst h
  rfl

/-- What the rule makes of the header of a loop. -/
def DoLoop.headerUnrolled : DoLoop :=
  if selectsLoop n L.children = true then { L with stride := Expr.param factor } else L.headerCopied

/-- What the rule makes of a loop. -/
def DoLoop.unrolled : DoLoop :=
  (L.headerUnrolled factor n).withBlock
    (if XevXml.named "SgFortranDo" L.body = [] then [] else L.blockAttrs)
    (unrolledChildren total factor n L.body)

theorem DoLoop.block_unrolled :
    (L.unrolled total factor n).block = unrolledBody total factor n L := by
  rw [DoLoop.unrolled, DoLoop.block, DoLoop.withBlock, unrolledBody, unrolledChildren]
  by_cases h : XevXml.named "SgFortranDo" L.body = []
  · rw [if_pos h, if_pos h, if_pos h]
    rfl
  · rw [if_neg h, if_neg h, if_neg h]

/-- A loop is found by its index, and by a lower bound that is a variable. -/
theorem selectsLoop_iff :
    selectsLoop n L.children = true ↔
      n = L.index ∨ (L.lower.isVar = true ∧ L.lower.attrs.lookup "name" = some n) := by
  rw [selectsLoop, List.contains_iff_mem]
  exact mem_oldNames L n

/-- Only the header counts for that. -/
theorem selectsLoop_withBlock (attrs : Attrs) (body : List Xml) :
    selectsLoop n (L.withBlock attrs body).children = selectsLoop n L.children := by
  rw [Bool.eq_iff_iff, selectsLoop_iff, selectsLoop_iff]
  rfl

/-- Unrolling for one variable makes no difference to what the other one finds. -/
theorem selectsLoop_headerUnrolled (m : Text) :
    selectsLoop m (L.headerUnrolled factor n).children = selectsLoop m L.children := by
  rw [Bool.eq_iff_iff, selectsLoop_iff, selectsLoop_iff]
  unfold DoLoop.headerUnrolled
  split <;> rfl

theorem headerUnrolled_withBlock (attrs : Attrs) (body : List Xml) :
    (L.withBlock attrs body).headerUnrolled factor n =
      (L.headerUnrolled factor n).withBlock attrs body := by
  rw [DoLoop.headerUnrolled, DoLoop.headerUnrolled, selectsLoop_withBlock]
  split <;> rfl

/-- The headers are the same in either order, unless one loop is found for both variables. -/
theorem headerUnrolled_comm (f g : Nat) (k i : Text)
    (h : f = g ∨ ¬ (selectsLoop k L.children = true ∧ selectsLoop i L.children = true)) :
    (L.headerUnrolled f k).headerUnrolled g i = (L.headerUnrolled g i).headerUnrolled f k := by
  have hsecond : ∀ (a b : Nat) (m o : Text), (L.headerUnrolled a m).headerUnrolled b o =
      if selectsLoop o L.children = true then
        { L.headerUnrolled a m with stride := Expr.param b }
      else (L.headerUnrolled a m).headerCopied := by
    intro a b m o
    rw [← selectsLoop_headerUnrolled a m L o]
    rfl
  rw [hsecond, hsecond]
  unfold DoLoop.headerUnrolled
  by_cases hk : selectsLoop k L.children = true
  · by_cases hi : selectsLoop i L.children = true
    · -- Both find the loop, but the factors are the same.
      rw [h.resolve_right fun hnot => hnot ⟨hk, hi⟩, if_pos hk, if_pos hk, if_pos hi, if_pos hi]
    · rw [if_pos hk, if_pos hk, if_neg hi, if_neg hi]
      rfl
  · by_cases hi : selectsLoop i L.children = true
    · rw [if_neg hk, if_neg hk, if_pos hi, if_pos hi]
      rfl
    · rw [if_neg hk, if_neg hk, if_neg hi, if_neg hi]

theorem loopFree_copied_and :
    (∀ x : Xml, x.loopFree = true → x.copied.loopFree = true) ∧
      ∀ xs, loopFreeAll xs = true → loopFreeAll (copiedAll xs) = true := by
  refine Xml.induct ?elem ?text ?comment ?nil ?cons
  case elem =>
    intro name attrs cs ih h
    rw [loopFree_elem] at h
    rw [Xml.copied, loopFree_elem]
    exact ⟨h.1, h.2.1, ih h.2.2⟩
  case text =>
    intro t _
    rfl
  case comment =>
    intro t _
    rfl
  case nil =>
    intro _
    rfl
  case cons =>
    intro x xs hx ih h
    rw [loopFreeAll, Bool.and_eq_true] at h
    rw [copiedAll_cons]
    split
    · exact ih h.2
    · rw [loopFreeAll, hx h.1, ih h.2, Bool.and_self]

theorem infoList_headerCopied : L.headerCopied.infoList = copiedAll L.infoList := by
  rw [DoLoop.infoList, DoLoop.infoList, DoLoop.headerCopied]
  induction L.infos with
  | nil => rfl
  | cons i is ih =>
      rw [List.map_cons, List.map_cons, List.map_cons, ih, copiedAll_elem_cons, Xml.copied]

theorem init_headerCopied : L.headerCopied.init = L.init.copied := by
  have hinit : L.init.copied =
    .elem "SgAssignOp" L.initAttrs [L.var.copied, L.lower.xml.copied] := by
    rw [DoLoop.init, Xml.copied, DoLoop.var, Expr.xml, copiedAll_elem_cons, copiedAll_elem_cons,
      copiedAll_nil]
  have hvar : L.var.copied = .elem "SgVarRefExp" L.varAttrs (copiedAll L.varChildren) := by
    rw [DoLoop.var, Xml.copied]
  rw [hinit, hvar, ← Expr.xml_copied]
  rfl

variable {total factor n L}

/-- A well-formed loop without other loops in its header becomes a well-formed loop. -/
theorem xevLoopUnroll_eq_unrolled (hfree : L.Free) :
    xevLoopUnroll total factor n L.xml = [(L.unrolled total factor n).xml] := by
  by_cases hsel : selectsLoop n L.children = true
  · rw [xevLoopUnroll_xml _ _ _ _ hsel, DoLoop.xml, DoLoop.children, DoLoop.block_unrolled]
    unfold DoLoop.unrolled DoLoop.headerUnrolled
    rw [if_pos hsel]
    rfl
  · have hnot : selectsLoop n L.children = false := by simpa using hsel
    have hinfos : xevLoopUnrolls total factor n L.infoList = copiedAll L.infoList :=
      (xevLoopUnroll_of_loopFree total factor n).2 _
        ((loopFreeAll_iff _).mpr fun e he => hfree e (List.mem_append_right _ he))
    rw [xevLoopUnroll_searched total factor n hfree hnot, hinfos, DoLoop.xml, DoLoop.children,
      DoLoop.block_unrolled, ← infoList_headerCopied, ← init_headerCopied, ← Expr.xml_copied,
      ← Expr.xml_copied]
    unfold DoLoop.unrolled DoLoop.headerUnrolled
    rw [if_neg hsel]
    rfl

theorem DoLoop.Free.of_parts (hinit : L.init.loopFree = true) (hupper : L.upper.xml.loopFree = true)
    (hstride : L.stride.xml.loopFree = true) (hinfos : loopFreeAll L.infoList = true) :
    L.Free := by
  intro e he
  rcases List.mem_append.mp he with he | he
  · simp only [DoLoop.parts, List.mem_cons, List.not_mem_nil, or_false] at he
    rcases he with rfl | rfl | rfl
    · exact hinit
    · exact hupper
    · exact hstride
  · exact (loopFreeAll_iff _).mp hinfos e he

theorem DoLoop.Free.unrolled (hfree : L.Free) : (L.unrolled total factor n).Free := by
  rcases hfree.header with ⟨hinit, hupper, hstride⟩
  have hinfos : loopFreeAll L.infoList = true :=
    (loopFreeAll_iff _).mpr fun i hi => hfree i (List.mem_append_right _ hi)
  unfold DoLoop.unrolled DoLoop.headerUnrolled
  split
  · exact DoLoop.Free.of_parts hinit hupper rfl hinfos
  · refine DoLoop.Free.of_parts ?_ ?_ ?_ ?_
    · have hcopy := loopFree_copied_and.1 _ hinit
      rwa [← init_headerCopied] at hcopy
    · have hcopy := loopFree_copied_and.1 _ hupper
      rwa [← Expr.xml_copied] at hcopy
    · have hcopy := loopFree_copied_and.1 _ hstride
      rwa [← Expr.xml_copied] at hcopy
    · have hcopy := loopFree_copied_and.2 _ hinfos
      rwa [← infoList_headerCopied] at hcopy

end Loops

section Nests

/-- Perfect nests, given by their loops from the outside to the inside. -/
inductive PerfectNest : List DoLoop → Prop
  | innermost {L : DoLoop} (hfree : L.Free) (hplain : named "SgFortranDo" L.body = []) :
      PerfectNest [L]
  | around {L M : DoLoop} {Ls : List DoLoop} (hfree : L.Free) (hbody : elements L.body = [M.xml])
      (h : PerfectNest (M :: Ls)) : PerfectNest (L :: M :: Ls)

theorem PerfectNest.free {L : DoLoop} {Ls : List DoLoop} (h : PerfectNest (L :: Ls)) : L.Free := by
  cases h with
  | innermost hfree _ => exact hfree
  | around hfree _ _ => exact hfree

/-- Nests with the same headers whose innermost bodies have the same statements, each as often. -/
inductive SameNest : DoLoop → DoLoop → Prop
  | innermost {L M : DoLoop} (hheader : L.withBlock L.blockAttrs M.body = M)
      (hplain : named "SgFortranDo" L.body = []) (hbody : L.body.Perm M.body) : SameNest L M
  | around {L M L' M' : DoLoop} (hheader : L.withBlock L.blockAttrs M.body = M)
      (hL : elements L.body = [L'.xml]) (hM : elements M.body = [M'.xml]) (h : SameNest L' M') :
      SameNest L M

theorem SameNest.header {L M : DoLoop} (h : SameNest L M) :
    L.withBlock L.blockAttrs M.body = M := by
  cases h with
  | innermost hheader _ _ => exact hheader
  | around hheader _ _ _ => exact hheader

/-- The same nests execute the same instances, each as often. -/
theorem SameNest.trace_perm {L M : DoLoop} (h : SameNest L M) (μ : Machine) (ρ : Env) :
    (trace μ ρ L.xml).Perm (trace μ ρ M.xml) := by
  have hvalues : ∀ {N O : DoLoop}, N.withBlock N.blockAttrs O.body = O → ∀ σ : Env,
      O.values μ σ = N.values μ σ ∧ O.index = N.index := by
    intro N O hheader σ
    rw [← hheader]
    exact ⟨rfl, rfl⟩
  induction h generalizing ρ with
  | @innermost L M hheader hplain hbody =>
      rcases hvalues hheader ρ with ⟨hrange, hindex⟩
      rw [trace_xml, trace_xml, hrange, hindex]
      exact List.Perm.flatMap_left _ fun v _ => hbody.flatMap_right _
  | @around L M L' M' hheader hL hM h ih =>
      rcases hvalues hheader ρ with ⟨hrange, hindex⟩
      rw [trace_xml, trace_xml, hrange, hindex]
      refine List.Perm.flatMap_left _ fun v _ => ?_
      rw [← flatMap_trace_elements, ← flatMap_trace_elements μ _ M.body, hL, hM,
        List.flatMap_singleton, List.flatMap_singleton]
      exact ih _

variable {total factor : Nat} {n : Text}

theorem elements_xevLoopUnrolls (ns : List Xml) :
    elements (xevLoopUnrolls total factor n ns) =
      (elements ns).flatMap (xevLoopUnroll total factor n) := by
  induction ns with
  | nil => rfl
  | cons x xs ih =>
      rw [xevLoopUnrolls, elements_append, ih]
      cases x with
      | elem name attrs cs =>
          rcases xevLoopUnroll_elem total factor n name attrs cs with ⟨attrs', cs', hrule⟩
          rw [elements_cons_elem, List.flatMap_cons, hrule]
          rfl
      | text t => rfl
      | comment t => rfl

/-- A copy holds no loop if the body does not. -/
theorem named_unrolledCopy {ns : List Xml} (hplain : named "SgFortranDo" ns = []) (k : Nat) :
    named "SgFortranDo" (unrolledCopy n ns k) = [] := by
  rw [unrolledCopy]
  split
  · rw [named_copiedAll, named_elements, hplain, List.map_nil]
  · rw [← named_elements] at hplain
    generalize elements ns = ms at hplain
    induction ms with
    | nil => rfl
    | cons x xs ih =>
        rw [named_cons] at hplain
        rw [loopUnrollBodies, named_append]
        by_cases hx : x.hasName "SgFortranDo" = true
        · rw [if_pos hx] at hplain
          exact absurd hplain (by simp)
        · rw [if_neg hx] at hplain
          rw [ih hplain, List.append_nil]
          cases x with
          | elem name attrs cs =>
              rw [loopUnrollBody]
              by_cases hvar : name = "SgVarRefExp"
              · rw [if_pos hvar]
                split
                · split
                  · rfl
                  · rw [hvar]
                    rfl
                · rfl
              · rw [if_neg hvar, named_cons, if_neg (by simpa using hx), named_nil]
          | text t => rfl
          | comment t => rfl

theorem named_unrolledChildren {ns : List Xml} (hplain : named "SgFortranDo" ns = []) :
    named "SgFortranDo" (unrolledChildren total factor n ns) = [] := by
  rw [unrolledChildren, if_pos hplain]
  refine List.filter_eq_nil_iff.mpr fun x hx => ?_
  rcases List.mem_flatMap.mp hx with ⟨k, -, hk⟩
  exact List.filter_eq_nil_iff.mp (named_unrolledCopy hplain k) x hk

/-- The innermost bodies have the same statements. -/
theorem unrolledChildren_perm {t₁ t₂ t₃ t₄ f g : Nat} {k i : Text} (hne : k ≠ i) {ns : List Xml}
    (hplain : named "SgFortranDo" ns = []) (h₁ : f ≤ t₁) (h₂ : g ≤ t₂) (h₃ : g ≤ t₃) (h₄ : f ≤ t₄) :
    (unrolledChildren t₂ g i (unrolledChildren t₁ f k ns)).Perm
      (unrolledChildren t₄ f k (unrolledChildren t₃ g i ns)) := by
  have hf : furtherCopies t₁ f = furtherCopies t₄ f := by
    rw [furtherCopies, furtherCopies]
    omega
  have hg : furtherCopies t₂ g = furtherCopies t₃ g := by
    rw [furtherCopies, furtherCopies]
    omega
  rw [unrolledChildren, if_pos (named_unrolledChildren hplain), unrolledChildren, if_pos hplain,
    unrolledChildren, if_pos (named_unrolledChildren hplain), unrolledChildren, if_pos hplain, hf,
    hg]
  -- One sorts by the number for the inner variable, the other by that for the outer one.
  have hboth : ∀ (l m : List Nat) (o p : Text),
      m.flatMap (unrolledCopy p (l.flatMap (unrolledCopy o ns))) =
        m.flatMap fun b => l.flatMap fun a => unrolledCopy p (unrolledCopy o ns a) b :=
    fun l m o p => List.flatMap_congr fun b _ => unrolledCopy_flatMap p l _ b
  rw [hboth, hboth]
  simp only [unrolledCopy_comm hne]
  exact Progression.flatMap_comm_perm _ _ _

theorem DoLoop.body_unrolled (L : DoLoop) :
    (L.unrolled total factor n).body = unrolledChildren total factor n L.body := rfl

/-- The body of a loop around a nest. -/
theorem elements_body_unrolled (total factor : Nat) (n : Text) {L M : DoLoop}
    (hbody : elements L.body = [M.xml]) (hfree : M.Free) :
    elements (L.unrolled total factor n).body = [(M.unrolled total factor n).xml] := by
  have hloop : named "SgFortranDo" L.body ≠ [] := by
    rw [← named_elements, hbody]
    exact List.cons_ne_nil _ _
  rw [DoLoop.body_unrolled, unrolledChildren, if_neg hloop, elements_xevLoopUnrolls,
    hbody, List.flatMap_singleton, xevLoopUnroll_eq_unrolled hfree]

end Nests

section Orders

/-- Unroll-and-jam of the outer loop, and then unrolling of the inner one. -/
def unrollAfterJam (t₁ t₂ f g : Nat) (k i : Text) (x : Xml) : List Xml :=
  (chillUnrollJam t₁ f k x).flatMap (chillUnroll t₂ g i)

/-- Unrolling of the inner loop, and then unroll-and-jam of the outer one. -/
def jamAfterUnroll (t₁ t₂ f g : Nat) (k i : Text) (x : Xml) : List Xml :=
  (chillUnroll t₁ g i x).flatMap (chillUnrollJam t₂ f k)

/-- The order of the rules makes no difference: both give nests with the same headers and the same
    statements in the innermost bodies, and these execute the same instances. -/
structure OrderIrrelevant (t₁ t₂ t₃ t₄ f g : Nat) (k i : Text) (x : Xml) : Prop where
  nests : ∃ L M : DoLoop, elements (unrollAfterJam t₁ t₂ f g k i x) = [L.xml] ∧
    elements (jamAfterUnroll t₃ t₄ f g k i x) = [M.xml] ∧ SameNest L M
  instances : ∀ (μ : Machine) (ρ : Env),
    ((unrollAfterJam t₁ t₂ f g k i x).flatMap (trace μ ρ)).Perm
      ((jamAfterUnroll t₃ t₄ f g k i x).flatMap (trace μ ρ))

variable {t₁ t₂ t₃ t₄ f g : Nat} {k i : Text} {L : DoLoop} {Ls : List DoLoop}

theorem elements_unrollAfterJam (hfree : L.Free) :
    elements (unrollAfterJam t₁ t₂ f g k i L.xml) =
      [((L.unrolled t₁ f k).unrolled t₂ g i).xml] := by
  rw [unrollAfterJam, chillUnrollJam, xevLoopUnroll_eq_unrolled hfree, List.flatMap_singleton,
    chillUnroll, xevLoopUnroll_eq_unrolled hfree.unrolled]
  rfl

theorem elements_jamAfterUnroll (hfree : L.Free) :
    elements (jamAfterUnroll t₃ t₄ f g k i L.xml) =
      [((L.unrolled t₃ g i).unrolled t₄ f k).xml] := by
  rw [jamAfterUnroll, chillUnroll, xevLoopUnroll_eq_unrolled hfree, List.flatMap_cons,
    List.flatMap_singleton, chillUnrollJam, chillUnrollJam,
    xevLoopUnroll_eq_unrolled hfree.unrolled]
  rfl

/-- Whether both variables find the same loop, and the factors differ. -/
def FoundTwice (f g : Nat) (k i : Text) (L : DoLoop) : Prop :=
  f ≠ g ∧ selectsLoop k L.children = true ∧ selectsLoop i L.children = true

/-- The loops without their blocks agree if no loop is found twice. -/
theorem unrolled_header (h : ¬ FoundTwice f g k i L)
    (hattrs : ((L.unrolled t₁ f k).unrolled t₂ g i).blockAttrs =
      ((L.unrolled t₃ g i).unrolled t₄ f k).blockAttrs) :
    ((L.unrolled t₁ f k).unrolled t₂ g i).withBlock
        ((L.unrolled t₁ f k).unrolled t₂ g i).blockAttrs
        ((L.unrolled t₃ g i).unrolled t₄ f k).body =
      (L.unrolled t₃ g i).unrolled t₄ f k := by
  have hcomm : (L.headerUnrolled f k).headerUnrolled g i =
      (L.headerUnrolled g i).headerUnrolled f k := by
    refine headerUnrolled_comm L f g k i ?_
    by_cases hfg : f = g
    · exact Or.inl hfg
    · exact Or.inr fun hboth => h ⟨hfg, hboth⟩
  have hheader : ∀ (a b c d : Nat) (m o : Text), ((L.unrolled a b m).unrolled c d o) =
      ((L.headerUnrolled b m).headerUnrolled d o).withBlock
        ((L.unrolled a b m).unrolled c d o).blockAttrs
        ((L.unrolled a b m).unrolled c d o).body := by
    intro a b c d m o
    have hrule : (L.unrolled a b m).headerUnrolled d o =
        ((L.headerUnrolled b m).headerUnrolled d o).withBlock (L.unrolled a b m).blockAttrs
          (L.unrolled a b m).body := headerUnrolled_withBlock d o (L.headerUnrolled b m) _ _
    apply DoLoop.eq_withBlock
    rw [DoLoop.unrolled, hrule, DoLoop.withBlock_withBlock]
  rw [hattrs]
  conv_rhs => rw [hheader t₃ g t₄ f i k, ← hcomm]
  conv_lhs => rw [hheader t₁ f t₂ g k i, DoLoop.withBlock_withBlock]

/-- If no loop is found twice the results are the same nest. -/
theorem sameNest_of_not_foundTwice (hne : k ≠ i) (h₁ : f ≤ t₁) (h₂ : g ≤ t₂) (h₃ : g ≤ t₃)
    (h₄ : f ≤ t₄) (hnest : PerfectNest (L :: Ls)) (h : ∀ M ∈ L :: Ls, ¬ FoundTwice f g k i M) :
    SameNest ((L.unrolled t₁ f k).unrolled t₂ g i) ((L.unrolled t₃ g i).unrolled t₄ f k) := by
  have hattrs : ∀ (N : DoLoop) (a b c d : Nat) (m o : Text),
      ((N.unrolled a b m).unrolled c d o).blockAttrs =
        if named "SgFortranDo" (N.unrolled a b m).body = [] then []
        else if named "SgFortranDo" N.body = [] then [] else N.blockAttrs :=
          fun _ _ _ _ _ _ _ => rfl
  generalize hLs : L :: Ls = loops at hnest h
  induction hnest generalizing L Ls with
  | @innermost N hfree hplain =>
      rw [List.cons.injEq] at hLs
      rw [hLs.1]
      have hplain₁ : named "SgFortranDo" (N.unrolled t₁ f k).body = [] :=
        named_unrolledChildren hplain
      have hplain₃ : named "SgFortranDo" (N.unrolled t₃ g i).body = [] :=
        named_unrolledChildren hplain
      refine SameNest.innermost (unrolled_header (h N List.mem_cons_self) ?_)
        (named_unrolledChildren hplain₁) (unrolledChildren_perm hne hplain h₁ h₂ h₃ h₄)
      rw [hattrs, hattrs, if_pos hplain₁, if_pos hplain₃]
  | @around N M Ms hfree hbody hrest ih =>
      rw [List.cons.injEq] at hLs
      rw [hLs.1]
      have hM := hrest.free
      have hbody₁ := elements_body_unrolled t₁ f k hbody hM
      have hbody₃ := elements_body_unrolled t₃ g i hbody hM
      have hloop : ∀ {O P : DoLoop}, elements O.body = [P.xml] →
          ¬ named "SgFortranDo" O.body = [] := by
        intro O P hO
        rw [← named_elements, hO]
        exact List.cons_ne_nil _ _
      refine SameNest.around (unrolled_header (h N List.mem_cons_self) ?_)
        (elements_body_unrolled _ _ _ hbody₁ hM.unrolled)
        (elements_body_unrolled _ _ _ hbody₃ hM.unrolled)
        (ih rfl fun O hO => h O (List.mem_cons_of_mem _ hO))
      rw [hattrs, hattrs, if_neg (hloop hbody₁), if_neg (hloop hbody₃)]

/-- Elements of loops tell the strides and the bodies. -/
theorem stride_body_of_xml_eq {M N : DoLoop} (h : M.xml = N.xml) :
    M.stride.xml = N.stride.xml ∧ M.body = N.body := by
  simp only [DoLoop.xml, DoLoop.children, DoLoop.block, Xml.elem.injEq, List.cons.injEq,
    true_and] at h
  exact ⟨h.2.2.2.1, h.2.2.2.2.1.2⟩

/-- A loop that is found twice has the factor of the second rule for its stride. -/
theorem not_foundTwice_of_sameNest (hnest : PerfectNest (L :: Ls)) {A B : DoLoop}
    (hA : A.xml = ((L.unrolled t₁ f k).unrolled t₂ g i).xml)
    (hB : B.xml = ((L.unrolled t₃ g i).unrolled t₄ f k).xml) (h : SameNest A B) :
    ∀ M ∈ L :: Ls, ¬ FoundTwice f g k i M := by
  -- On a header that both rules change, the stride is the factor of the last one.
  have hhead : ∀ {N C D : DoLoop}, C.xml = ((N.unrolled t₁ f k).unrolled t₂ g i).xml →
      D.xml = ((N.unrolled t₃ g i).unrolled t₄ f k).xml → SameNest C D →
        ¬ FoundTwice f g k i N := by
    intro N C D hC hD hsame hfound
    have hstride : ∀ (a b c d : Nat) (m o : Text), selectsLoop o N.children = true →
        ((N.unrolled a b m).unrolled c d o).stride = Expr.param d := by
      intro a b c d m o hsel
      have hsecond : selectsLoop o (N.unrolled a b m).children = true := by
        rw [DoLoop.unrolled, selectsLoop_withBlock, selectsLoop_headerUnrolled, hsel]
      have hheader : (N.unrolled a b m).headerUnrolled d o =
          { N.unrolled a b m with stride := Expr.param d } := if_pos hsecond
      rw [DoLoop.unrolled, hheader]
      rfl
    have hCD : D.stride = C.stride := by
      rw [← hsame.header]
      rfl
    have hparam : paramVal f = paramVal g :=
      calc paramVal f = D.stride.xml := by
            rw [(stride_body_of_xml_eq hD).1, hstride t₃ g t₄ f i k hfound.2.1]
            rfl
        _ = C.stride.xml := by rw [hCD]
        _ = paramVal g := by
            rw [(stride_body_of_xml_eq hC).1, hstride t₁ f t₂ g k i hfound.2.2]
            rfl
    refine hfound.1 ?_
    simp only [paramVal, Xml.elem.injEq, List.cons.injEq, Prod.mk.injEq, true_and, and_true]
      at hparam
    rw [← Numeral.ofDigitChars_printNat f, hparam, Numeral.ofDigitChars_printNat]
  generalize hLs : L :: Ls = loops at hnest
  induction hnest generalizing L Ls A B with
  | @innermost N hfree hplain =>
      rw [List.cons.injEq] at hLs
      rw [hLs.1] at hA hB
      intro M hM
      rw [List.mem_singleton.mp hM]
      exact hhead hA hB h
  | @around N M Ms hfree hbody hrest ih =>
      rw [List.cons.injEq] at hLs
      rw [hLs.1] at hA hB
      have hM := hrest.free
      have hbodyA : elements A.body = [((M.unrolled t₁ f k).unrolled t₂ g i).xml] := by
        rw [(stride_body_of_xml_eq hA).2]
        exact elements_body_unrolled _ _ _ (elements_body_unrolled _ _ _ hbody hM) hM.unrolled
      have hbodyB : elements B.body = [((M.unrolled t₃ g i).unrolled t₄ f k).xml] := by
        rw [(stride_body_of_xml_eq hB).2]
        exact elements_body_unrolled _ _ _ (elements_body_unrolled _ _ _ hbody hM) hM.unrolled
      intro O hO
      rcases List.mem_cons.mp hO with rfl | hO
      · exact hhead hA hB h
      · cases h with
        | innermost _ hplain _ =>
            rw [← named_elements, hbodyA] at hplain
            exact absurd hplain (List.cons_ne_nil _ _)
        | @around _ _ A' B' _ hA' hB' hinner =>
            rw [hbodyA, List.cons.injEq] at hA'
            rw [hbodyB, List.cons.injEq] at hB'
            exact ih hA'.1.symm hB'.1.symm hinner rfl O hO

/-- The order makes no difference exactly if no loop of the nest is found for both variables, or
    the factors are the same. -/
theorem unroll_jam_commute_iff (hne : k ≠ i) (h₁ : max f g ≤ t₁) (h₂ : max f g ≤ t₂)
    (h₃ : max f g ≤ t₃) (h₄ : max f g ≤ t₄) (hnest : PerfectNest (L :: Ls)) :
    OrderIrrelevant t₁ t₂ t₃ t₄ f g k i L.xml ↔ ∀ M ∈ L :: Ls, ¬ FoundTwice f g k i M := by
  have hA : elements (unrollAfterJam t₁ t₂ f g k i L.xml) =
      [((L.unrolled t₁ f k).unrolled t₂ g i).xml] := elements_unrollAfterJam hnest.free
  have hB : elements (jamAfterUnroll t₃ t₄ f g k i L.xml) =
      [((L.unrolled t₃ g i).unrolled t₄ f k).xml] := elements_jamAfterUnroll hnest.free
  constructor
  · intro h
    rcases h.nests with ⟨A, B, hA', hB', hsame⟩
    rw [hA, List.cons.injEq] at hA'
    rw [hB, List.cons.injEq] at hB'
    exact not_foundTwice_of_sameNest hnest hA'.1.symm hB'.1.symm hsame
  · intro h
    have hsame : SameNest ((L.unrolled t₁ f k).unrolled t₂ g i)
      ((L.unrolled t₃ g i).unrolled t₄ f k) :=
      sameNest_of_not_foundTwice hne (by omega) (by omega) (by omega) (by omega) hnest h
    refine ⟨⟨_, _, hA, hB, hsame⟩, fun μ ρ => ?_⟩
    rw [← flatMap_trace_elements, ← flatMap_trace_elements μ ρ (jamAfterUnroll _ _ _ _ _ _ _), hA,
      hB, List.flatMap_singleton, List.flatMap_singleton]
    exact hsame.trace_perm μ ρ

end Orders

section Examples

/-- The loop `do i = k, k + 3`. -/
def slantedLoop : DoLoop :=
  DoLoop.plain ['i'] (Expr.var ['k'])
    { name := "SgAddOp"
      attrs := []
      children := [varRef ['k'], (Expr.int 3).xml]
      free := by decide }
    Expr.null [assignTo ['a']]

/-- The loop `do k = 1, 4` around `slantedLoop`. -/
def slantedNest : DoLoop :=
  DoLoop.plain ['k'] (Expr.int 1) (Expr.int 4) Expr.null [slantedLoop.xml]

theorem perfectNest_slantedNest : PerfectNest [slantedNest, slantedLoop] :=
  PerfectNest.around ((loopFreeAll_iff _).mp rfl) rfl
    (PerfectNest.innermost ((loopFreeAll_iff _).mp rfl) rfl)

/-- The inner loop is found for both variables, since its lower bound is the outer one. Unrolled by
    four last it has the stride four, and with unroll-and-jam by two last the stride two. -/
theorem slantedNest_not_irrelevant :
    PerfectNest [slantedNest, slantedLoop] ∧ slantedNest.index ≠ slantedLoop.index ∧
      (∀ ρ, strideValue (Machine.const 0) ρ slantedNest.stride.xml = 1 ∧
        strideValue (Machine.const 0) ρ slantedLoop.stride.xml = 1) ∧
      2 ∣ (slantedNest.values (Machine.const 0) fun _ => none).length ∧
      (∀ v ∈ slantedNest.values (Machine.const 0) fun _ => none,
        4 ∣ (slantedLoop.values (Machine.const 0) (Env.set (fun _ => none) ['k'] v)).length) ∧
      max 2 4 ≤ (allElementsOf [slantedNest.xml]).length ∧
      ¬ OrderIrrelevant 20 20 20 20 2 4 ['k'] ['i'] slantedNest.xml := by
  refine ⟨perfectNest_slantedNest, by decide, fun _ => ⟨rfl, rfl⟩, by decide +kernel,
    by decide +kernel, by decide +kernel, fun h => ?_⟩
  rcases h.nests with ⟨A, B, hA, hB, hsame⟩
  rw [elements_unrollAfterJam perfectNest_slantedNest.free, List.cons.injEq] at hA
  rw [elements_jamAfterUnroll perfectNest_slantedNest.free, List.cons.injEq] at hB
  refine not_foundTwice_of_sameNest perfectNest_slantedNest hA.1.symm hB.1.symm hsame slantedLoop
    (List.mem_cons_of_mem _ List.mem_cons_self) ⟨by decide, ?_, ?_⟩
  · decide +kernel
  · decide +kernel

/-- The loop `do k = 1, 4` around `do i = 1, 4`. -/
def straightNest : DoLoop :=
  DoLoop.plain ['k'] (Expr.int 1) (Expr.int 4) Expr.null [(countTo 4).xml]

theorem straightNest_irrelevant :
    OrderIrrelevant 20 20 20 20 2 4 ['k'] ['i'] straightNest.xml ↔
      ∀ M ∈ [straightNest, countTo 4], ¬ FoundTwice 2 4 ['k'] ['i'] M := by
  have hnest : PerfectNest [straightNest, countTo 4] :=
    PerfectNest.around ((loopFreeAll_iff _).mp rfl) rfl
      (PerfectNest.innermost ((loopFreeAll_iff _).mp rfl) rfl)
  exact unroll_jam_commute_iff (by decide) (by decide) (by decide) (by decide) (by decide) hnest

end Examples

end XevXml
