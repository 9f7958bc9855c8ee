import XevXml.Core.Matching
import XevXml.Trans.Fission
import XevXml.Trans.Unroll

/-!
# Unroll and Jam

The rule for unrolling, applied to a nest. Blocks with a loop in them are
searched for blocks without one, and these are the ones that are copied, in
the loop over the variable as well as outside of it.

In a nest of loops only, whose inner loops do not depend on the variable, the
copies end up in the innermost body and every statement is executed as often as
before. A statement beside a nested loop is not copied, though its loop makes
fewer iterations; the body of a loop beside the one over the variable is
copied, though it makes as many as before; and nested loops have the bounds for
the first value of each group only.

## Main definitions

* `trace`: The statements a nest executes, with the values of the indices.
* `chillUnrollJam`: The rule.
* `KeepsInstances`: Every statement is executed as often as before.
* `Jams`, `Keeps`: Nests for which the rule is right.

## Theorems

* `matching_of_jams`: The copies in the loop over the variable.
* `unroll_jam_correct`: The executed statements of a nest.
-/

namespace XevXml

section Trace

mutual

/-- The statements a node executes, with the values of the indices. -/
def trace (μ : Machine) (ρ : Env) : Xml → List (Xml × Env)
  | .elem name attrs cs =>
      if name = "SgFortranDo" then
        match header cs with
        | some h => (h.values μ ρ).flatMap fun v => traceBlock μ (ρ.set h.index v) cs
        | none => []
      else if name = "PreprocessingInfo" then [] else [(.elem name attrs cs, ρ)]
  | .text _ => []
  | .comment _ => []

/-- The statements of the first block. -/
def traceBlock (μ : Machine) (ρ : Env) : List Xml → List (Xml × Env)
  | [] => []
  | x :: xs =>
      if x.hasName "SgBasicBlock" = true then traceChildren μ ρ x else traceBlock μ ρ xs

/-- The statements of a block. -/
def traceChildren (μ : Machine) (ρ : Env) : Xml → List (Xml × Env)
  | .elem _ _ cs => traceAll μ ρ cs
  | .text _ => []
  | .comment _ => []

/-- The statements of a list of nodes. -/
def traceAll (μ : Machine) (ρ : Env) : List Xml → List (Xml × Env)
  | [] => []
  | x :: xs => trace μ ρ x ++ traceAll μ ρ xs

end

variable (μ : Machine) (ρ : Env)

theorem traceAll_eq (ns : List Xml) : traceAll μ ρ ns = ns.flatMap (trace μ ρ) := by
  induction ns with
  | nil => rfl
  | cons n ns ih => rw [traceAll, ih, List.flatMap_cons]

theorem traceBlock_eq (cs : List Xml) :
    traceBlock μ ρ cs =
      ((named "SgBasicBlock" cs).take 1).flatMap fun b => b.children.flatMap (trace μ ρ) := by
  induction cs with
  | nil => rfl
  | cons x cs ih =>
      rw [traceBlock, named_cons]
      by_cases hx : x.hasName "SgBasicBlock" = true
      · rw [if_pos hx, if_pos hx, List.take_succ_cons, List.take_zero, List.flatMap_singleton]
        cases x with
        | elem name attrs cs' => exact traceAll_eq μ ρ cs'
        | text t => rfl
        | comment t => rfl
      · rw [if_neg hx, if_neg hx, ih]

/-- A loop executes the statements of the blocks it runs. -/
theorem trace_loop {x : Xml} (hx : x.hasName "SgFortranDo" = true) :
    trace μ ρ x = (loopRuns μ ρ x).flatMap fun r => r.1.children.flatMap (trace μ r.2) := by
  cases x with
  | elem name attrs cs =>
      have hname : name = "SgFortranDo" := by simpa using hx
      rw [trace, if_pos hname, loopRuns, if_pos hx, Xml.children_elem]
      cases header cs with
      | none => rfl
      | some h =>
          simp only [List.flatMap_assoc, List.flatMap_map, traceBlock_eq]
  | text t => exact absurd hx (by simp [Xml.hasName])
  | comment t => exact absurd hx (by simp [Xml.hasName])

theorem trace_xml (M : DoLoop) :
    trace μ ρ M.xml =
      (M.values μ ρ).flatMap fun v => M.body.flatMap (trace μ (ρ.set M.index v)) := by
  rw [trace_loop μ ρ rfl, loopRuns_xml, List.flatMap_map]
  rfl

/-- Nodes that are neither loops nor statements execute nothing. -/
theorem trace_of_not_isStatement {x : Xml} (hloop : x.hasName "SgFortranDo" = false)
    (h : x.isStatement = false) : trace μ ρ x = [] := by
  cases x with
  | elem name attrs cs =>
      have hname : name ≠ "SgFortranDo" := by simpa using hloop
      have hinfo : name = "PreprocessingInfo" := by simpa [Xml.isStatement] using h
      rw [trace, if_neg hname, if_pos hinfo]
  | text t => rfl
  | comment t => rfl

theorem trace_of_isStatement {x : Xml} (hloop : x.hasName "SgFortranDo" = false)
    (h : x.isStatement = true) : trace μ ρ x = [(x, ρ)] := by
  cases x with
  | elem name attrs cs =>
      have hname : name ≠ "SgFortranDo" := by simpa using hloop
      have hinfo : name ≠ "PreprocessingInfo" := by simpa [Xml.isStatement] using h
      rw [trace, if_neg hname, if_neg hinfo]
  | text t => exact Bool.noConfusion h
  | comment t => exact Bool.noConfusion h

end Trace

section Rule

/-- The rule under its other name. -/
def chillUnrollJam (total factor : Nat) (loopName : Text) (x : Xml) : List Xml :=
  xevLoopUnroll total factor loopName x

/-- Executions of statements that do the same: the second tree, with the values
    of its indices, has in the places of all variables what the first one has. -/
def SameInstance (t o : Xml × Env) : Prop := ∀ μ : Machine, Same μ o.2 t.2 o.1 t.1

/-- Every statement is executed exactly as often, with the same values of the
    indices. -/
def KeepsInstances (μ : Machine) (ρ : Env) (ns ms : List Xml) : Prop :=
  Matching SameInstance (ms.flatMap (trace μ ρ)) (ns.flatMap (trace μ ρ))

end Rule

section Instances

variable {μ : Machine} {σ σ' : Env} {total factor : Nat} {loopName : Text}

theorem Env.set_eq_self {ρ : Env} {x : Text} {v : Int} (h : ρ x = some v) : ρ.set x v = ρ := by
  rw [Env.set, ← h, Function.update_eq_self]

theorem Env.set_set (ρ : Env) (x : Text) (v w : Int) : (ρ.set x v).set x w = ρ.set x w :=
  Function.update_idem ..

theorem Env.set_comm (ρ : Env) {x y : Text} (v w : Int) (h : x ≠ y) :
    (ρ.set x v).set y w = (ρ.set y w).set x v := Function.update_comm h ..

/-- What is the same executes the same. -/
theorem sameInstance_of_same {x x' : Xml} (hloop : x.hasName "SgFortranDo" = false)
    (h : ∀ μ' : Machine, Same μ' σ σ' x x') :
    List.Forall₂ SameInstance (trace μ σ' x') (trace μ σ x) := by
  have hloop' : x'.hasName "SgFortranDo" = false := by
    rw [(h μ).hasName_eq (by decide), hloop]
  have hstmt : x'.isStatement = x.isStatement := by
    rw [Xml.isStatement, Xml.isStatement, (h μ).isElem.1, (h μ).isElem.2,
      (h μ).hasName_eq (by decide)]
  by_cases hx : x.isStatement = true
  · rw [trace_of_isStatement μ σ hloop hx, trace_of_isStatement μ σ' hloop' (hstmt.trans hx)]
    exact List.Forall₂.cons h List.Forall₂.nil
  · have hx' : x.isStatement = false := by simpa using hx
    rw [trace_of_not_isStatement μ σ hloop hx',
      trace_of_not_isStatement μ σ' hloop' (hstmt.trans hx')]
    exact List.Forall₂.nil

/-- What is not an element executes nothing. -/
theorem flatMap_trace_elements (μ : Machine) (ρ : Env) (ns : List Xml) :
    (elements ns).flatMap (trace μ ρ) = ns.flatMap (trace μ ρ) := by
  induction ns with
  | nil => rfl
  | cons n ns ih =>
      cases n with
      | elem name attrs cs => rw [elements_cons_elem, List.flatMap_cons, List.flatMap_cons, ih]
      | text t => exact ih
      | comment t => exact ih

/-- Lists that are the same execute the same, if there are no loops. -/
theorem sameInstances_of_sames {ns ms : List Xml} (hplain : named "SgFortranDo" ns = [])
    (h : ∀ μ' : Machine, Sames μ' σ σ' ns (elements ms)) :
    List.Forall₂ SameInstance (ms.flatMap (trace μ σ')) (ns.flatMap (trace μ σ)) := by
  have hlists : ∀ xs ys : List Xml, (∀ x ∈ xs, x.hasName "SgFortranDo" = false) →
      (∀ μ' : Machine, List.Forall₂ (Same μ' σ σ') xs ys) →
        List.Forall₂ SameInstance (ys.flatMap (trace μ σ')) (xs.flatMap (trace μ σ)) := by
    intro xs
    induction xs with
    | nil =>
        intro ys _ hall
        rw [List.forall₂_nil_left_iff.mp (hall μ)]
        exact List.Forall₂.nil
    | cons x xs ih =>
        intro ys hloop hall
        rcases List.forall₂_cons_left_iff.mp (hall μ) with ⟨y, rest, -, -, rfl⟩
        have hhead : ∀ μ' : Machine, Same μ' σ σ' x y := fun μ' =>
          (List.forall₂_cons.mp (hall μ')).1
        have htail : ∀ μ' : Machine, List.Forall₂ (Same μ' σ σ') xs rest := fun μ' =>
          (List.forall₂_cons.mp (hall μ')).2
        rw [List.flatMap_cons, List.flatMap_cons]
        exact List.rel_append (sameInstance_of_same (hloop x List.mem_cons_self) hhead)
          (ih rest (fun z hz => hloop z (List.mem_cons_of_mem _ hz)) htail)
  rw [← flatMap_trace_elements, ← flatMap_trace_elements μ σ ns]
  refine hlists _ _ (fun x hx => ?_) fun μ' => (sames_iff _ _).mp (h μ')
  by_contra hname
  have hmem : x ∈ named "SgFortranDo" ns :=
    List.mem_filter.mpr ⟨(List.mem_filter.mp hx).1, by simpa using hname⟩
  rw [hplain] at hmem
  exact absurd hmem (by simp)

/-- A copy executes what the statements execute for the value that is its number
    behind. -/
theorem sameInstances_unrolledCopy {ns : List Xml} {w : Int} (k : Nat)
    (hv : σ loopName = some w) (hplain : named "SgFortranDo" ns = [])
    (hnamed : allVariablesNamed ns = true) :
    List.Forall₂ SameInstance ((unrolledCopy loopName ns k).flatMap (trace μ σ))
      (ns.flatMap (trace μ (σ.set loopName (w + k)))) := by
  rw [← flatMap_trace_elements μ _ ns]
  refine sameInstances_of_sames (by rw [named_elements, hplain]) fun μ' => ?_
  have hother : ∀ y, y ≠ loopName →
      (σ y).getD (μ'.load y) = (σ.set loopName (w + k) y).getD (μ'.load y) := by
    intro y hy
    rw [Env.set_of_ne σ _ hy]
  rw [unrolledCopy]
  by_cases hk : k = 0
  · have hself : σ.set loopName (w + k) = σ := Env.set_eq_self (by rw [hv, hk]; simp)
    rw [if_pos hk, hself]
    exact (same_copied fun _ => rfl).2 _
  · rw [if_neg hk]
    refine (same_loopUnrollBody ?_ hother).2 _
      ((allVariablesNamed_elements _).trans hnamed)
    rw [Env.set_self, hv, Option.getD_some, Option.getD_some]

end Instances

section Searched

variable (μ : Machine) (ρ : Env) (total factor : Nat) (loopName : Text)

/-- What becomes of the nodes of a block. -/
def unrolledChildren (ns : List Xml) : List Xml :=
  if named "SgFortranDo" ns = [] then
    (List.range (furtherCopies total factor + 1)).flatMap (unrolledCopy loopName ns)
  else xevLoopUnrolls total factor loopName ns

theorem children_unrolledBody_eq (M : DoLoop) :
    (unrolledBody total factor loopName M).children =
      unrolledChildren total factor loopName M.body := by
  rw [unrolledBody, unrolledChildren]
  split <;> rfl

/-- What has no blocks in it is copied. -/
theorem xevLoopUnroll_of_loopFree :
    (∀ x : Xml, x.loopFree = true →
        xevLoopUnroll total factor loopName x = if x.isComment = true then [] else [x.copied]) ∧
      ∀ xs, loopFreeAll xs = true → xevLoopUnrolls total factor loopName xs = copiedAll xs := by
  refine Xml.induct ?elem ?text ?comment ?nil ?cons
  case elem =>
    intro name attrs cs ih hfree
    rw [loopFree_elem] at hfree
    rw [xevLoopUnroll, if_neg (fun h => hfree.1 h.1), if_neg (fun h => hfree.2.1 h.1),
      ih hfree.2.2, if_neg (by simp [Xml.isComment]), Xml.copied]
  case text =>
    intro t _
    rw [xevLoopUnroll, if_neg (by simp [Xml.isComment]), Xml.copied]
  case comment =>
    intro t _
    rw [xevLoopUnroll, if_pos (by rfl)]
  case nil =>
    intro _
    rw [xevLoopUnrolls, copiedAll_nil]
  case cons =>
    intro x xs hx ih hfree
    rw [loopFreeAll, Bool.and_eq_true] at hfree
    rw [xevLoopUnrolls, hx hfree.1, ih hfree.2, copiedAll_cons]
    by_cases hcomment : x.isComment = true
    · rw [if_pos hcomment, if_pos hcomment, List.nil_append]
    · rw [if_neg hcomment, if_neg hcomment, List.singleton_append]

variable {M : DoLoop}

/-- A loop that is only searched keeps its header. -/
theorem xevLoopUnroll_searched (hfree : M.Free) (hsel : selectsLoop loopName M.children = false) :
    xevLoopUnroll total factor loopName M.xml = [.elem "SgFortranDo" M.attrs
      (M.init.copied :: M.upper.xml.copied :: M.stride.xml.copied ::
        unrolledBody total factor loopName M ::
          xevLoopUnrolls total factor loopName M.infoList)] := by
  have hcopy : ∀ {x : Xml}, x.isElem = true → x.loopFree = true →
      xevLoopUnroll total factor loopName x = [x.copied] := by
    intro x helem hx
    rw [(xevLoopUnroll_of_loopFree total factor loopName).1 x hx,
      if_neg (not_isComment_of_isElem helem)]
  rw [DoLoop.xml, xevLoopUnroll, if_neg (by simp [hsel]), if_neg (by simp), DoLoop.children,
    xevLoopUnrolls, xevLoopUnrolls, xevLoopUnrolls, xevLoopUnrolls, hcopy rfl hfree.header.1,
    hcopy M.upper.isElem_xml hfree.header.2.1, hcopy M.stride.isElem_xml hfree.header.2.2,
    xevLoopUnroll_block]
  rfl

/-- So it runs its new block for the same values. -/
theorem loopRuns_searched (hfree : M.Free)
    (hsel : selectsLoop loopName M.children = false) :
    (xevLoopUnroll total factor loopName M.xml).flatMap (runs μ 0 ρ) =
      (M.values μ ρ).map fun v => (unrolledBody total factor loopName M, ρ.set M.index v) := by
  have hblock : (unrolledBody total factor loopName M).hasName "SgBasicBlock" = true := by
    rw [unrolledBody]
    split <;> rfl
  rw [xevLoopUnroll_searched total factor loopName hfree hsel, List.flatMap_singleton]
  exact loopRuns_copied μ ρ M _ hblock

/-- Loops execute what the blocks they run execute. -/
theorem flatMap_trace_of_loops {xs : List Xml} (h : ∀ x ∈ xs, x.hasName "SgFortranDo" = true) :
    xs.flatMap (trace μ ρ) =
      (xs.flatMap (runs μ 0 ρ)).flatMap fun r => r.1.children.flatMap (trace μ r.2) := by
  rw [List.flatMap_assoc]
  exact List.flatMap_congr fun x hx => trace_loop μ ρ (h x hx)

end Searched

section Jamming

/-- Bodies in the loop over the variable, which has a value, for which the
    copies are right. A whole body without loops is copied; in another one there
    are loops only, whose values are the same for all copies. -/
inductive Jams (μ : Machine) (total factor : Nat) (loopName : Text) (w : Int) :
    Bool → Env → List Xml → Prop
  | plain {σ ns} (hplain : named "SgFortranDo" ns = []) (hnamed : allVariablesNamed ns = true) :
      Jams μ total factor loopName w true σ ns
  | nested {σ ns} (hloop : named "SgFortranDo" ns ≠ [])
      (h : Jams μ total factor loopName w false σ ns) : Jams μ total factor loopName w true σ ns
  | nil {σ} : Jams μ total factor loopName w false σ []
  | skip {σ x ns} (hloop : x.hasName "SgFortranDo" = false) (hstmt : x.isStatement = false)
      (h : Jams μ total factor loopName w false σ ns) :
      Jams μ total factor loopName w false σ (x :: ns)
  | once {σ x ns} (hone : factor = 1) (hloop : x.hasName "SgFortranDo" = false)
      (helem : x.isElem = true) (hfree : unselected loopName x = true)
      (h : Jams μ total factor loopName w false σ ns) :
      Jams μ total factor loopName w false σ (x :: ns)
  | loop {σ ns} (M : DoLoop) (hfree : M.Free)
      (hsel : selectsLoop loopName M.children = false)
      (hvalues : ∀ k < furtherCopies total factor + 1,
        (M.values μ (σ.set loopName (w + (k : Nat)))).Perm (M.values μ σ))
      (hbody : ∀ j ∈ M.values μ σ, Jams μ total factor loopName w true (σ.set M.index j) M.body)
      (h : Jams μ total factor loopName w false σ ns) :
      Jams μ total factor loopName w false σ (M.xml :: ns)

/-- The index is among the names by which a loop is found. -/
theorem index_ne_of_unselected {loopName : Text} {M : DoLoop}
    (hsel : selectsLoop loopName M.children = false) : M.index ≠ loopName := by
  intro h
  rw [selectsLoop, path_var_children, attributes, List.filterMap_cons, DoLoop.var, Xml.attr_elem,
    M.named, h] at hsel
  exact absurd hsel (by simp)

/-- What is neither a loop nor a statement does not become one. -/
theorem flatMap_trace_skip (μ : Machine) (ρ : Env) (total factor : Nat) (loopName : Text) {x : Xml}
    (hloop : x.hasName "SgFortranDo" = false) (hstmt : x.isStatement = false) :
    (xevLoopUnroll total factor loopName x).flatMap (trace μ ρ) = [] := by
  cases x with
  | elem name attrs cs =>
      have hinfo : name = "PreprocessingInfo" := by simpa [Xml.isStatement] using hstmt
      subst hinfo
      rw [xevLoopUnroll, if_neg (by simp), if_neg (by simp), List.flatMap_singleton]
      exact trace_of_not_isStatement μ ρ rfl rfl
  | text t => rfl
  | comment t => rfl

/-- A statement that is the same after it has been searched. -/
theorem matching_of_searched {μ : Machine} {σ : Env} {total factor : Nat} {loopName : Text}
    {x : Xml}
    (hloop : x.hasName "SgFortranDo" = false)
    (h : ∀ μ' : Machine, ∃ x', xevLoopUnroll total factor loopName x = [x'] ∧ Same μ' σ σ x x') :
    Matching SameInstance ((xevLoopUnroll total factor loopName x).flatMap (trace μ σ))
      (trace μ σ x) := by
  rcases h μ with ⟨x', hx', -⟩
  have hall : ∀ μ' : Machine, Same μ' σ σ x x' := by
    intro μ'
    rcases h μ' with ⟨y, hy, hsame⟩
    rw [hx', List.cons.injEq] at hy
    rw [hy.1]
    exact hsame
  rw [hx', List.flatMap_singleton]
  exact Matching.of_forall₂ (sameInstance_of_same hloop hall)

/-- What a loop executes after it has been searched. -/
theorem trace_searched (μ : Machine) (ρ : Env) (total factor : Nat) (loopName : Text) {M : DoLoop}
    (hfree : M.Free) (hsel : selectsLoop loopName M.children = false) :
    (xevLoopUnroll total factor loopName M.xml).flatMap (trace μ ρ) =
      (M.values μ ρ).flatMap fun v =>
        (unrolledChildren total factor loopName M.body).flatMap (trace μ (ρ.set M.index v)) := by
  have hname : ∀ x ∈ xevLoopUnroll total factor loopName M.xml, x.hasName "SgFortranDo" = true := by
    intro x hx
    rcases xevLoopUnroll_elem total factor loopName
      "SgFortranDo" M.attrs M.children with ⟨attrs', cs', hrule⟩
    rw [DoLoop.xml, hrule, List.mem_singleton] at hx
    rw [hx]
    rfl
  rw [flatMap_trace_of_loops μ ρ hname, loopRuns_searched μ ρ total factor loopName hfree hsel,
    List.flatMap_map]
  simp only [children_unrolledBody_eq]

/-- With the copies in the innermost bodies, the nest in the loop over the
    variable executes what it did for the values of the group. -/
theorem matching_of_jams {μ : Machine} {total factor : Nat} {loopName : Text} {w : Int}
    {whole : Bool} {σ : Env} {ns : List Xml} (h : Jams μ total factor loopName w whole σ ns)
    (hv : σ loopName = some w) :
    Matching SameInstance
      ((if whole = true then unrolledChildren total factor loopName ns
        else xevLoopUnrolls total factor loopName ns).flatMap (trace μ σ))
      ((List.range (furtherCopies total factor + 1)).flatMap fun k : Nat =>
        ns.flatMap (trace μ (σ.set loopName (w + k)))) := by
  -- Something before the rest of a list.
  have hsplit : ∀ (x : Xml) (ms : List Xml) (σ : Env),
      Matching SameInstance ((xevLoopUnroll total factor loopName x).flatMap (trace μ σ))
        ((List.range (furtherCopies total factor + 1)).flatMap fun k : Nat =>
          trace μ (σ.set loopName (w + k)) x) →
      Matching SameInstance ((xevLoopUnrolls total factor loopName ms).flatMap (trace μ σ))
        ((List.range (furtherCopies total factor + 1)).flatMap fun k : Nat =>
          ms.flatMap (trace μ (σ.set loopName (w + k)))) →
      Matching SameInstance ((xevLoopUnrolls total factor loopName (x :: ms)).flatMap (trace μ σ))
        ((List.range (furtherCopies total factor + 1)).flatMap fun k : Nat =>
          (x :: ms).flatMap (trace μ (σ.set loopName (w + k)))) := by
    intro x ms σ hx hms
    rw [xevLoopUnrolls, List.flatMap_append]
    simp only [List.flatMap_cons]
    exact (hx.append hms).trans_perm (List.flatMap_append_perm _ _ _)
  induction h with
  | @plain σ ns hplain hnamed =>
      rw [if_pos rfl, unrolledChildren, if_pos hplain, List.flatMap_assoc]
      exact Matching.flatMap fun k _ =>
        Matching.of_forall₂ (sameInstances_unrolledCopy k hv hplain hnamed)
  | @nested σ ns hloop h ih =>
      rw [if_pos rfl, unrolledChildren, if_neg hloop]
      exact ih hv
  | @nil σ =>
      simp only [List.flatMap_nil, Progression.flatMap_const_nil]
      exact Matching.nil
  | @skip σ x ns hloop hstmt h ih =>
      refine hsplit x ns σ ?_ (ih hv)
      rw [flatMap_trace_skip μ σ total factor loopName hloop hstmt]
      simp only [trace_of_not_isStatement μ _ hloop hstmt, Progression.flatMap_const_nil]
      exact Matching.nil
  | @once σ x ns hone hloop helem hfree h ih =>
      refine hsplit x ns σ ?_ (ih hv)
      subst hone
      have hcount : furtherCopies total 1 + 1 = 1 := by simp [furtherCopies]
      have hself : σ.set loopName (w + (0 : Nat)) = σ := Env.set_eq_self (by rw [hv]; simp)
      rw [hcount, List.range_one, List.flatMap_singleton, hself]
      exact matching_of_searched hloop fun μ' =>
        (same_xevLoopUnroll_one total fun _ => rfl).1 x helem hfree
  | @loop σ ns M hfree hsel hvalues hbody h ihbody ih =>
      refine hsplit M.xml ns σ ?_ (ih hv)
      have hne := index_ne_of_unselected hsel
      have hinner : Matching SameInstance
          ((xevLoopUnroll total factor loopName M.xml).flatMap (trace μ σ))
          ((M.values μ σ).flatMap fun j =>
            (List.range (furtherCopies total factor + 1)).flatMap fun k : Nat =>
              M.body.flatMap (trace μ ((σ.set M.index j).set loopName (w + k)))) := by
        rw [trace_searched μ σ total factor loopName hfree hsel]
        refine Matching.flatMap fun j hj => ?_
        have hmatch := ihbody j hj (by rw [Env.set_of_ne σ j hne.symm, hv])
        rwa [if_pos rfl] at hmatch
      -- The loops over the copies and over the inner index change places.
      refine (hinner.trans_perm (Progression.flatMap_comm_perm _ _ _)).trans_perm ?_
      refine List.Perm.flatMap_left _ fun k hk => ?_
      rw [trace_xml]
      simp only [Env.set_comm σ _ _ hne]
      exact (hvalues k (List.mem_range.mp hk)).symm.flatMap_right _

end Jamming

section Nests

/-- Nests for which the rule is right, outside of the loop over the variable:
    bodies without loops are empty, statements have no blocks, and the values of
    the variable come in groups. -/
inductive Keeps (μ : Machine) (total factor : Nat) (loopName : Text) : Bool → Env → List Xml → Prop
  | plain {ρ ns} (hplain : named "SgFortranDo" ns = []) (hnone : factor = 1 ∨ elements ns = []) :
      Keeps μ total factor loopName true ρ ns
  | nested {ρ ns} (hloop : named "SgFortranDo" ns ≠ [])
      (h : Keeps μ total factor loopName false ρ ns) : Keeps μ total factor loopName true ρ ns
  | nil {ρ} : Keeps μ total factor loopName false ρ []
  | skip {ρ x ns} (hloop : x.hasName "SgFortranDo" = false) (hstmt : x.isStatement = false)
      (h : Keeps μ total factor loopName false ρ ns) :
      Keeps μ total factor loopName false ρ (x :: ns)
  | statement {ρ x ns} (hloop : x.hasName "SgFortranDo" = false) (helem : x.isElem = true)
      (hfree : x.loopFree = true ∨ factor = 1 ∧ unselected loopName x = true)
      (h : Keeps μ total factor loopName false ρ ns) :
      Keeps μ total factor loopName false ρ (x :: ns)
  | outer {ρ ns} (M : DoLoop) (hfree : M.Free)
      (hsel : selectsLoop loopName M.children = false)
      (hbody : ∀ j ∈ M.values μ ρ, Keeps μ total factor loopName true (ρ.set M.index j) M.body)
      (h : Keeps μ total factor loopName false ρ ns) :
      Keeps μ total factor loopName false ρ (M.xml :: ns)
  | unrolled {ρ ns} (M : DoLoop) (hindex : M.index = loopName)
      (hgroups : Grouped μ ρ total factor M)
      (hbody : ∀ w ∈ unrolledValues μ ρ factor M,
        Jams μ total factor loopName w true (ρ.set loopName w) M.body)
      (h : Keeps μ total factor loopName false ρ ns) :
      Keeps μ total factor loopName false ρ (M.xml :: ns)

variable {μ : Machine} {total factor : Nat} {loopName : Text}

theorem selectsLoop_of_index {M : DoLoop} (h : M.index = loopName) :
    selectsLoop loopName M.children = true := by
  by_contra hnot
  exact index_ne_of_unselected (Bool.not_eq_true _ ▸ hnot) h

/-- The loop over the variable executes the statements for the values of all
    groups. -/
theorem matching_unrolled {ρ : Env} (M : DoLoop) (hindex : M.index = loopName)
    (hgroups : Grouped μ ρ total factor M)
    (hbody : ∀ w ∈ unrolledValues μ ρ factor M,
      Jams μ total factor loopName w true (ρ.set loopName w) M.body) :
    Matching SameInstance ((xevLoopUnroll total factor loopName M.xml).flatMap (trace μ ρ))
      (trace μ ρ M.xml) := by
  have hsel := selectsLoop_of_index hindex
  have hname : ∀ x ∈ xevLoopUnroll total factor loopName M.xml, x.hasName "SgFortranDo" = true := by
    intro x hx
    rw [xevLoopUnroll_xml _ _ _ _ hsel, List.mem_singleton] at hx
    rw [hx]
    rfl
  have hvalues := (grouped_iff μ ρ total factor M).mpr hgroups
  rw [flatMap_trace_of_loops μ ρ hname, runs_xevLoopUnroll μ ρ total factor loopName M hsel,
    List.flatMap_map, trace_xml, ← hvalues, List.flatMap_assoc, hindex]
  simp only [children_unrolledBody_eq, List.flatMap_map]
  refine Matching.flatMap fun w hw => ?_
  have hmatch := matching_of_jams (hbody w hw) (Env.set_self ρ loopName w)
  simp only [if_true, Env.set_set] at hmatch
  exact hmatch

/-- The executed statements of a nest. -/
theorem matching_of_keeps {whole : Bool} {ρ : Env} {ns : List Xml}
    (h : Keeps μ total factor loopName whole ρ ns) :
    Matching SameInstance
      ((if whole = true then unrolledChildren total factor loopName ns
        else xevLoopUnrolls total factor loopName ns).flatMap (trace μ ρ))
      (ns.flatMap (trace μ ρ)) := by
  induction h with
  | @plain ρ ns hplain hnone =>
      rw [if_pos rfl, unrolledChildren, if_pos hplain]
      -- One copy is the block itself, and the copies of an empty block are empty.
      rcases hnone with rfl | hempty
      · have hcount : furtherCopies total 1 + 1 = 1 := by simp [furtherCopies]
        rw [hcount, List.range_one, List.flatMap_singleton, unrolledCopy, if_pos rfl,
          ← flatMap_trace_elements μ ρ ns]
        refine Matching.of_forall₂ (sameInstances_of_sames (by rw [named_elements, hplain])
          fun μ' => (same_copied fun _ => rfl).2 _)
      · have hcopy : unrolledCopy loopName ns = fun _ => [] := by
          funext k
          rw [unrolledCopy, hempty]
          split <;> rfl
        rw [← flatMap_trace_elements μ ρ ns, hempty, hcopy, Progression.flatMap_const_nil]
        exact Matching.nil
  | @nested ρ ns hloop h ih =>
      rw [if_pos rfl, unrolledChildren, if_neg hloop]
      exact ih
  | @nil ρ => exact Matching.nil
  | @skip ρ x ns hloop hstmt h ih =>
      rw [if_neg (by decide), xevLoopUnrolls, List.flatMap_append,
        flatMap_trace_skip μ ρ total factor loopName hloop hstmt, List.flatMap_cons,
        trace_of_not_isStatement μ ρ hloop hstmt]
      exact ih
  | @statement ρ x ns hloop helem hfree h ih =>
      rw [if_neg (by decide), xevLoopUnrolls, List.flatMap_append, List.flatMap_cons]
      refine Matching.append (matching_of_searched hloop fun μ' => ?_) ih
      rcases hfree with hfree | ⟨rfl, hfree⟩
      · rw [(xevLoopUnroll_of_loopFree total factor loopName).1 x hfree,
          if_neg (not_isComment_of_isElem helem)]
        exact ⟨_, rfl, (same_copied fun _ => rfl).1 x helem⟩
      · exact (same_xevLoopUnroll_one total fun _ => rfl).1 x helem hfree
  | @outer ρ ns M hfree hsel hbody h ihbody ih =>
      rw [if_neg (by decide), xevLoopUnrolls, List.flatMap_append, List.flatMap_cons, trace_xml,
        trace_searched μ ρ total factor loopName hfree hsel]
      refine Matching.append (Matching.flatMap fun j hj => ?_) ih
      have hmatch := ihbody j hj
      rwa [if_pos rfl] at hmatch
  | @unrolled ρ ns M hindex hgroups hbody h ih =>
      rw [if_neg (by decide), xevLoopUnrolls, List.flatMap_append, List.flatMap_cons]
      exact (matching_unrolled M hindex hgroups hbody).append ih

end Nests

section Examples

/-- The loop `do j = 1, n` around the assignment to `b`. -/
def innerLoop (n : Int) : DoLoop :=
  DoLoop.plain ['j'] (Expr.int 1) (Expr.int n) Expr.null [assignTo ['b']]

/-- The loop `do i = 1, 2` around the assignment to `a` and an inner loop. -/
def besideLoop : DoLoop :=
  DoLoop.plain ['i'] (Expr.int 1) (Expr.int 2) Expr.null [assignTo ['a'], (innerLoop 1).xml]

/-- The loop `do i = 1, 4` around an inner loop alone. -/
def perfectNest : DoLoop :=
  DoLoop.plain ['i'] (Expr.int 1) (Expr.int 4) Expr.null [(innerLoop 3).xml]

theorem keeps_perfectNest :
    Keeps (Machine.const 0) 20 2 ['i'] false (fun _ => none) [perfectNest.xml] := by
  have hinner : ∀ σ : Env, (innerLoop 3).values (Machine.const 0) σ = Progression.values 1 3 1 :=
    fun _ => rfl
  refine Keeps.unrolled perfectNest rfl ?_ (fun w _ => ?_) Keeps.nil
  · exact grouped_of_dvd rfl (by decide) (by decide) (by decide +kernel)
  · refine Jams.nested (by decide +kernel)
      (Jams.loop (innerLoop 3) ?_ (by decide +kernel) ?_ ?_ Jams.nil)
    · exact (loopFreeAll_iff _).mp rfl
    · intro k _
      rw [hinner, hinner]
    · intro j _
      exact Jams.plain (by decide +kernel) rfl

end Examples

end XevXml
