import XevXml.Trans.Loop

/-!
# Fission

The rule makes two loops of one. The first one gets the first child element of
the body and the second one the second child element; whatever stands behind
them is dropped. A body of up to two statements is distributed as intended,
each statement being executed for all values in turn; of a longer one the rest
is lost, which shows as soon as the loop has an iteration.

## Main definitions

* `xevLoopFission`, `chillSplit`: The rules.
* `statements`, `instances`: The statements of a block and their executions.

## Theorems

* `instances_xevLoopFission`: What the two loops execute.
* `fission_instances_iff`: When this is what the old loop executes.
-/

namespace XevXml

section Rule

/-- A loop with the header of another one and a new block. -/
def fissionLoop (attrs : Attrs) (cs : List Xml) (k : Nat) (infos : List Xml) : Xml :=
  .elem "SgFortranDo" attrs
    (nth 1 cs ++ nth 2 cs ++ nth 3 cs ++
      [basicBlock ((named "SgBasicBlock" cs).flatMap fun b => nth k b.children)] ++ infos)

mutual

/-- The rule. Elements that are no loops are searched for loops. -/
def xevLoopFission : Xml → List Xml
  | .elem name attrs cs =>
      if name = "SgFortranDo" then
        [fissionLoop attrs cs 1 (named "PreprocessingInfo" cs), fissionLoop attrs cs 2 []]
      else [.elem name attrs (xevLoopFissions cs)]
  | .text t => [.text t]
  | .comment _ => []

/-- The rule on the nodes it is applied to. -/
def xevLoopFissions : List Xml → List Xml
  | [] => []
  | x :: xs => xevLoopFission x ++ xevLoopFissions xs

end

/-- The rule under its other name. -/
def chillSplit (x : Xml) : List Xml := xevLoopFission x

end Rule

section Instances

/-- Whether a child of a block is a statement. -/
def Xml.isStatement (x : Xml) : Bool := x.isElem && !x.hasName "PreprocessingInfo"

/-- The statements of a block. -/
def statements (ns : List Xml) : List Xml := ns.filter Xml.isStatement

/-- The statements that loops execute one after the other, each with the value
    of the index. -/
def instances (μ : Machine) (ρ : Env) (index : Text) (loops : List Xml) :
    List (Xml × Option Int) :=
  (loops.flatMap (runs μ 0 ρ)).flatMap fun r =>
    (statements r.1.children).map fun s => (s, r.2 index)

variable (μ : Machine) (ρ : Env) (L : DoLoop)

theorem statements_append (ns ms : List Xml) :
    statements (ns ++ ms) = statements ns ++ statements ms := List.filter_append ..

/-- Statements are elements. -/
theorem statements_elements (ns : List Xml) : statements (elements ns) = statements ns := by
  rw [statements, elements, List.filter_filter, statements]
  refine List.filter_congr fun x _ => ?_
  rw [Xml.isStatement]
  cases x.isElem <;> simp

theorem loopRuns_fissionLoop (k : Nat) (infos : List Xml) :
    loopRuns μ ρ (fissionLoop L.attrs L.children k infos) =
      (L.values μ ρ).map fun v => (basicBlock (nth k L.body), ρ.set L.index v) := by
  rw [fissionLoop, nth_one_children, nth_two_children, nth_three_children, named_children_block,
    List.flatMap_singleton]
  exact loopRuns_built μ ρ [] infos (by rfl) L.named L.lower.isElem_xml L.upper.isOperand_xml
    L.stride.isOperand_xml (by rfl)

/-- The statements a loop executes. -/
theorem instances_of_loopRuns {x b : Xml} {vs : List Int} {index : Text}
    (h : loopRuns μ ρ x = vs.map fun v => (b, ρ.set index v)) :
    instances μ ρ index [x] =
      vs.flatMap fun v => (statements b.children).map fun s => (s, some v) := by
  rw [instances, List.flatMap_singleton, runs, h, List.flatMap_map]
  simp only [Env.set_self]

theorem instances_append (index : Text) (xs ys : List Xml) :
    instances μ ρ index (xs ++ ys) = instances μ ρ index xs ++ instances μ ρ index ys := by
  rw [instances, List.flatMap_append, List.flatMap_append]
  rfl

/-- With at most one statement in its block a loop executes it for all values in
    turn. -/
theorem flatMap_nth (vs : List Int) (k : Nat) (ns : List Xml) :
    (vs.flatMap fun v => (statements (nth k ns)).map fun s => (s, some v)) =
      (statements (nth k ns)).flatMap fun s => vs.map fun v => (s, some v) := by
  rw [nth]
  cases (elements ns)[k - 1]? with
  | none => exact Progression.flatMap_const_nil vs
  | some s =>
      rw [Option.toList_some]
      by_cases hs : s.isStatement = true
      · have hone : statements [s] = [s] := List.filter_cons_of_pos hs
        simp only [hone, List.map_singleton, List.flatMap_singleton]
        exact List.flatMap_pure_eq_map _ _
      · have hone : statements [s] = [] := List.filter_cons_of_neg hs
        simp only [hone, List.map_nil, List.flatMap_nil]
        exact Progression.flatMap_const_nil vs

/-- The two loops execute the statements among the first two children, one
    after the other, each for all values. -/
theorem instances_xevLoopFission :
    instances μ ρ L.index (xevLoopFission L.xml) =
      (statements ((elements L.body).take 2)).flatMap fun s =>
        (L.values μ ρ).map fun v => (s, some v) := by
  have htake : (elements L.body).take 2 = nth 1 L.body ++ nth 2 L.body := by
    rw [nth, nth]
    cases elements L.body with
    | nil => rfl
    | cons s ss =>
        cases ss with
        | nil => rfl
        | cons s' ss => rfl
  have hrule : xevLoopFission L.xml =
      [fissionLoop L.attrs L.children 1 (named "PreprocessingInfo" L.children)] ++
        [fissionLoop L.attrs L.children 2 []] := by
    rw [DoLoop.xml, xevLoopFission, if_pos rfl]
    rfl
  rw [hrule, instances_append, instances_of_loopRuns μ ρ (loopRuns_fissionLoop μ ρ L 1 _),
    instances_of_loopRuns μ ρ (loopRuns_fissionLoop μ ρ L 2 _), basicBlock, basicBlock,
    Xml.children_elem, Xml.children_elem, flatMap_nth, flatMap_nth, htake, statements_append,
    List.flatMap_append]

theorem instances_xml :
    instances μ ρ L.index [L.xml] =
      (L.values μ ρ).flatMap fun v => (statements L.body).map fun s => (s, some v) :=
  instances_of_loopRuns μ ρ (loopRuns_xml μ ρ L)

/-- The two loops execute the statements of the old one, and each of them for
    the values in their order, exactly if there is no iteration or no statement
    behind the second child of the body. -/
theorem fission_instances_iff :
    ((instances μ ρ L.index (xevLoopFission L.xml)).Perm (instances μ ρ L.index [L.xml]) ∧
      (instances μ ρ L.index (chillSplit L.xml)) =
        (statements L.body).flatMap fun s => (L.values μ ρ).map fun v => (s, some v)) ↔
      L.values μ ρ = [] ∨ statements ((elements L.body).drop 2) = [] := by
  have hcut : statements L.body =
      statements ((elements L.body).take 2) ++ statements ((elements L.body).drop 2) := by
    rw [← statements_append, List.take_append_drop, statements_elements]
  have hrows := Progression.flatMap_map_comm_perm (L.values μ ρ) (statements L.body)
    fun v s => (s, some v)
  rw [chillSplit, instances_xevLoopFission, instances_xml]
  constructor
  · intro h
    -- The number of executed statements tells how many there are.
    have hlen := h.1.length_eq
    rw [Progression.length_flatMap_map, Progression.length_flatMap_map, hcut, List.length_append,
      Nat.mul_add, Nat.mul_comm] at hlen
    have hrest : (L.values μ ρ).length * (statements ((elements L.body).drop 2)).length = 0 := by
      omega
    rcases Nat.mul_eq_zero.mp hrest with hzero | hzero
    · exact Or.inl (List.length_eq_zero_iff.mp hzero)
    · exact Or.inr (List.length_eq_zero_iff.mp hzero)
  · intro h
    have hsame : ((statements ((elements L.body).take 2)).flatMap fun s =>
        (L.values μ ρ).map fun v => (s, some v)) =
        (statements L.body).flatMap fun s => (L.values μ ρ).map fun v => (s, some v) := by
      rcases h with hnone | hrest
      · simp only [hnone, List.map_nil, Progression.flatMap_const_nil]
      · rw [hcut, hrest, List.append_nil]
    exact ⟨by rw [hsame]; exact hrows.symm, hsame⟩

end Instances

section Examples

/-- An assignment to a variable. -/
def assignTo (x : Text) : Xml :=
  .elem "SgExprStatement" [] [.elem "SgAssignOp" [] [varRef x, oneVal]]

/-- The loop `do i = 1, 1` around the assignments to `a`, `b` and `c`. -/
def threeAssignments : DoLoop :=
  DoLoop.plain ['i'] (Expr.int 1) (Expr.int 1) Expr.null
    [assignTo ['a'], assignTo ['b'], assignTo ['c']]

/-- The third assignment is lost. -/
theorem threeAssignments_not_kept :
    (instances (Machine.const 0) (fun _ => none) ['i'] (xevLoopFission threeAssignments.xml)) =
      [(assignTo ['a'], some 1), (assignTo ['b'], some 1)] ∧
    (instances (Machine.const 0) (fun _ => none) ['i'] [threeAssignments.xml]) =
      [(assignTo ['a'], some 1), (assignTo ['b'], some 1), (assignTo ['c'], some 1)] := by
  exact ⟨rfl, rfl⟩

end Examples

end XevXml
