import XevXml.Core.Progression
import XevXml.Trans.Select

/-!
# DO Loops in the Document

What an element for a DO loop means. The reader takes the first three
expressions of the element for the initialization, the bound and the stride,
and the first block behind them for the body; of the initialization it takes
the first two operands. So does the meaning given here, since the rules build
loops whose elements have more children than that.

A loop fixes its values before it starts, and its index is known inside the
body. Variables whose value is known form an environment; all other variables,
and all expressions the rules do not build, are left to a machine, so that
nothing is assumed about them. The runs of a loop are the blocks it executes,
in the order of the iterations, each with the environment of its iteration.
In a nest the loops of a body are run in turn.

## Main definitions

* `Machine`, `Env`: Unknown operations and known variables.
* `eval`: The value of an expression.
* `Header`, `header`: The header of a loop element.
* `Header.values`: The values of the index.
* `runs`: The blocks a loop executes, at a given depth of the nest.
* `Expr`, `DoLoop`: Expressions and well-formed loops.
* `Unaffected`: An expression whose value does not depend on some variables.

## Theorems

* `eval_copied`: A copy of an expression has its value.
* `header_children`: The header of a well-formed loop.
* `loopRuns_of_header`, `loopRuns_xml`: The blocks a loop executes.
-/

namespace XevXml

/-- The values of the variables that are known. -/
abbrev Env := Text → Option Int

/-- The environment in which a variable has a new value. -/
def Env.set (ρ : Env) (x : Text) (v : Int) : Env := Function.update ρ x (some v)

@[simp]
theorem Env.set_self (ρ : Env) (x : Text) (v : Int) : ρ.set x v x = some v :=
  Function.update_self ..

theorem Env.set_of_ne (ρ : Env) {x y : Text} (v : Int) (h : y ≠ x) : ρ.set x v y = ρ y :=
  Function.update_of_ne h ..

/-- Everything about expressions that the rules do not know: the variables that
    are not in the environment, and the operations the rules do not build. -/
structure Machine where
  load : Text → Int
  op : String → Attrs → List Int → Int

/-- A machine on which every variable that is not known has the same value. -/
def Machine.const (v : Int) : Machine where
  load _ := v
  op _ _ _ := v

/-- The number in an integer constant. -/
def intVal (attrs : Attrs) : Int :=
  match (attrs.lookup "value").bind Numeral.scan with
  | some (neg, n) => if neg then -n else n
  | none => 0

/-- The name of the function a call refers to. -/
def callee (operands : List Xml) : Text := valueOf "name" (named "SgFunctionRefExp" operands)

/-- The value of an operation on the values of its operands. The reader takes
    as many operands as the operation has, and leaves the others out. -/
def apply (μ : Machine) (name : String) (attrs : Attrs) (function : Text) :
    List Int → Int
  | vs =>
      if name = "SgIntVal" then intVal attrs
      else if name = "SgAddOp" then vs.getD 0 0 + vs.getD 1 0
      else if name = "SgSubtractOp" then vs.getD 0 0 - vs.getD 1 0
      else if name = "SgMultiplyOp" then vs.getD 0 0 * vs.getD 1 0
      else if name = "SgMinusOp" then -vs.getD 0 0
      else if name = "SgFunctionCallExp" ∧ function = "min".toList then
        -- The first value is that of the function itself.
        min (vs.getD 1 0) (vs.getD 2 0)
      else μ.op name attrs vs

mutual

/-- The value of an operand. A list of arguments stands for its members, and
    what is not an element for nothing. -/
def operandValues (μ : Machine) (ρ : Env) : Xml → List Int
  | .elem name attrs cs =>
      if name = "SgExprListExp" then operandsValues μ ρ cs
      else if name = "SgVarRefExp" then
        match attrs.lookup "name" with
        | some x => [(ρ x).getD (μ.load x)]
        | none => [μ.op name attrs []]
      else [apply μ name attrs (callee cs) (operandsValues μ ρ cs)]
  | .text _ => []
  | .comment _ => []

/-- The values of a list of operands. -/
def operandsValues (μ : Machine) (ρ : Env) : List Xml → List Int
  | [] => []
  | x :: xs => operandValues μ ρ x ++ operandsValues μ ρ xs

end

/-- The value of an expression. -/
def eval (μ : Machine) (ρ : Env) (x : Xml) : Int := (operandValues μ ρ x).headD 0

section Eval

variable (μ : Machine) (ρ : Env)

theorem callee_copiedAll (ns : List Xml) : callee (copiedAll ns) = callee ns := by
  have hattr : ∀ x : Xml, x.copied.attr "name" = x.attr "name" := by
    intro x
    cases x <;> simp [Xml.copied, Xml.attr]
  rw [callee, callee, named_copiedAll, valueOf, valueOf, attributes, attributes,
    List.filterMap_map]
  congr 2
  exact List.filterMap_congr fun x _ => hattr x

theorem operandValues_copied_and :
    (∀ x, operandValues μ ρ x.copied = operandValues μ ρ x) ∧
      ∀ xs, operandsValues μ ρ (copiedAll xs) = operandsValues μ ρ xs := by
  refine Xml.induct ?elem ?text ?comment ?nil ?cons
  case elem =>
    intro n attrs cs ih
    simp only [Xml.copied, operandValues, callee_copiedAll, ih]
  case text =>
    intro t
    rw [Xml.copied]
  case comment =>
    intro t
    rw [Xml.copied]
  case nil => rw [copiedAll_nil]
  case cons =>
    intro x xs hx ih
    by_cases hcomment : x.isComment = true
    · have hnone : operandValues μ ρ x = [] := by
        cases x with
        | elem n attrs cs => exact absurd hcomment (by simp [Xml.isComment])
        | text t => rfl
        | comment t => rfl
      rw [copiedAll_comment_cons hcomment, operandsValues, hnone, ih, List.nil_append]
    · rw [copiedAll_cons_of_not hcomment, operandsValues, operandsValues, hx, ih]

/-- A copy of an expression has its value. -/
theorem eval_copied (x : Xml) : eval μ ρ x.copied = eval μ ρ x := by
  rw [eval, eval, (operandValues_copied_and μ ρ).1 x]

theorem intVal_of_lookup {attrs : Attrs} {v : Int}
    (h : attrs.lookup "value" = some (Numeral.printInt v)) : intVal attrs = v := by
  rw [intVal, h, Option.bind_some, Numeral.scan_printInt]
  by_cases hneg : v < 0
  · rw [decide_eq_true hneg]
    simp only [if_true]
    omega
  · rw [decide_eq_false hneg]
    simp only [Bool.false_eq_true, if_false]
    omega

theorem eval_intVal {attrs : Attrs} {v : Int} (cs : List Xml)
    (h : attrs.lookup "value" = some (Numeral.printInt v)) :
    eval μ ρ (.elem "SgIntVal" attrs cs) = v := by
  simp [eval, operandValues, apply, intVal_of_lookup h]

theorem eval_varRefExp {attrs : Attrs} {x : Text} (cs : List Xml)
    (h : attrs.lookup "name" = some x) :
    eval μ ρ (.elem "SgVarRefExp" attrs cs) = (ρ x).getD (μ.load x) := by
  simp [eval, operandValues, h]

/-- A variable is all its name says. -/
theorem eval_varRefExp_congr {ρ ρ' : Env} {attrs : Attrs} (cs cs' : List Xml)
    (h : ∀ y, attrs.lookup "name" = some y → ρ' y = ρ y) :
    eval μ ρ' (.elem "SgVarRefExp" attrs cs') = eval μ ρ (.elem "SgVarRefExp" attrs cs) := by
  have hlist : "SgVarRefExp" ≠ "SgExprListExp" := by decide
  rw [eval, eval, operandValues, operandValues, if_neg hlist, if_neg hlist, if_pos rfl, if_pos rfl]
  cases hname : attrs.lookup "name" with
  | none => rfl
  | some y => simp only [h y hname]

/-- An element that is not a list of arguments has one value. -/
theorem operandValues_eq {x : Xml} (helem : x.isElem = true)
    (hlist : x.hasName "SgExprListExp" = false) : operandValues μ ρ x = [eval μ ρ x] := by
  cases x with
  | elem name attrs cs =>
      have hne : name ≠ "SgExprListExp" := fun h => by simp [h] at hlist
      by_cases hvar : name = "SgVarRefExp"
      · simp only [eval, operandValues, hvar, if_true]
        cases attrs.lookup "name" <;> rfl
      · simp [eval, operandValues, hne, hvar]
  | text t => exact absurd helem (by simp [Xml.isElem])
  | comment t => exact absurd helem (by simp [Xml.isElem])

theorem eval_elem {name : String} (attrs : Attrs) (cs : List Xml) (hlist : name ≠ "SgExprListExp")
    (hvar : name ≠ "SgVarRefExp") :
    eval μ ρ (.elem name attrs cs) =
      apply μ name attrs (callee cs) (operandsValues μ ρ cs) := by
  rw [eval, operandValues, if_neg hlist, if_neg hvar]
  rfl

end Eval

/-- Environments that differ at most in some of the variables. -/
def Env.Agree (xs : List Text) (ρ' ρ : Env) : Prop := ∀ y, y ∉ xs → ρ' y = ρ y

theorem Env.Agree.refl (xs : List Text) (ρ : Env) : Env.Agree xs ρ ρ := fun _ _ => rfl

/-- A variable that counts among them may change. -/
theorem Env.Agree.set {xs : List Text} {ρ' ρ : Env} (h : Env.Agree xs ρ' ρ) {x : Text}
    (hx : x ∈ xs) (v : Int) : Env.Agree xs (ρ'.set x v) ρ := by
  intro y hy
  have hne : y ≠ x := by
    intro heq
    exact hy (heq ▸ hx)
  rw [Env.set_of_ne ρ' v hne, h y hy]

/-- The same change on both sides. -/
theorem Env.Agree.set_both {xs : List Text} {ρ' ρ : Env} (h : Env.Agree xs ρ' ρ) (x : Text)
    (v : Int) : Env.Agree xs (ρ'.set x v) (ρ.set x v) := by
  intro y hy
  by_cases heq : y = x
  · rw [heq, Env.set_self, Env.set_self]
  · rw [Env.set_of_ne ρ' v heq, Env.set_of_ne ρ v heq, h y hy]

/-- Expressions whose value does not depend on some of the variables. -/
def Unaffected (μ : Machine) (ρ : Env) (xs : List Text) (e : Xml) : Prop :=
  ∀ ρ' : Env, Env.Agree xs ρ' ρ → eval μ ρ' e = eval μ ρ e

theorem Unaffected.mono {μ : Machine} {ρ : Env} {xs ys : List Text} {e : Xml}
    (h : Unaffected μ ρ xs e) (hsub : ys ⊆ xs) : Unaffected μ ρ ys e :=
  fun ρ' hρ' => h ρ' fun y hy => hρ' y fun hmem => hy (hsub hmem)

theorem Unaffected.eval_set {μ : Machine} {ρ : Env} {xs : List Text} {e : Xml} {x : Text}
    (h : Unaffected μ ρ xs e) (hx : x ∈ xs) (v : Int) : eval μ (ρ.set x v) e = eval μ ρ e :=
  h _ ((Env.Agree.refl xs ρ).set hx v)

section Headers

/-- The header of a loop: the index, the first value, the bound and the
    stride. -/
structure Header where
  index : Text
  lower : Xml
  upper : Xml
  stride : Xml

/-- The header of a loop element with the given children. -/
def header (cs : List Xml) : Option Header :=
  match elements cs with
  | init :: bound :: inc :: _ =>
      match elements init.children with
      | var :: lower :: _ =>
          if init.hasName "SgAssignOp" = true ∧ var.hasName "SgVarRefExp" = true then
            (var.attr "name").map fun x =>
              { index := x, lower := lower, upper := bound, stride := inc }
          else none
      | _ => none
  | _ => none

/-- The stride of a loop. Without an expression it is one. -/
def strideValue (μ : Machine) (ρ : Env) (inc : Xml) : Int :=
  if inc.hasName "SgNullExpression" = true then 1 else eval μ ρ inc

/-- The values of the index. -/
def Header.values (μ : Machine) (ρ : Env) (h : Header) : List Int :=
  Progression.values (eval μ ρ h.lower) (eval μ ρ h.upper) (strideValue μ ρ h.stride)

/-- The blocks a loop executes, with their environments. -/
def loopRuns (μ : Machine) (ρ : Env) (x : Xml) : List (Xml × Env) :=
  if x.hasName "SgFortranDo" = true then
    match header x.children with
    | some h => (h.values μ ρ).flatMap fun v =>
        ((named "SgBasicBlock" x.children).take 1).map fun b => (b, ρ.set h.index v)
    | none => []
  else []

/-- The blocks executed at a depth of a nest. The loops of a block are run in
    turn. -/
def runs (μ : Machine) : Nat → Env → Xml → List (Xml × Env)
  | 0, ρ, x => loopRuns μ ρ x
  | d + 1, ρ, x => (loopRuns μ ρ x).flatMap fun r => r.1.children.flatMap (runs μ d r.2)

end Headers

section Loops

/-- The names the rules look for, which no expression has. -/
def reserved : List String :=
  ["SgFortranDo", "SgBasicBlock", "SgAssignOp", "SgIfStmt", "SgExprStatement", "SgWhileStmt",
    "SgExprListExp", "PreprocessingInfo"]

/-- Expressions, as elements. -/
structure Expr where
  name : String
  attrs : Attrs
  children : List Xml
  free : name ∉ reserved

/-- The element of an expression. -/
def Expr.xml (e : Expr) : Xml := .elem e.name e.attrs e.children

/-- A variable. -/
def Expr.var (x : Text) : Expr where
  name := "SgVarRefExp"
  attrs := [("name", x)]
  children := []
  free := by decide

/-- A constant. -/
def Expr.int (v : Int) : Expr where
  name := "SgIntVal"
  attrs := [("value", Numeral.printInt v)]
  children := []
  free := by decide

/-- The expression in the place of a missing one. -/
def Expr.null : Expr where
  name := "SgNullExpression"
  attrs := []
  children := []
  free := by decide

/-- Whether an expression is a variable. -/
def Expr.isVar (e : Expr) : Bool := e.name == "SgVarRefExp"

/-- Well-formed loops. The index is the variable that is assigned to, and
    attached comments and directives stand behind the body. -/
structure DoLoop where
  attrs : Attrs
  initAttrs : Attrs
  varAttrs : Attrs
  varChildren : List Xml
  index : Text
  lower : Expr
  upper : Expr
  stride : Expr
  blockAttrs : Attrs
  body : List Xml
  infos : List (Attrs × List Xml)
  named : varAttrs.lookup "name" = some index

namespace DoLoop

/-- A loop without anything that is not needed. -/
def plain (index : Text) (lower upper stride : Expr) (body : List Xml) : DoLoop where
  attrs := []
  initAttrs := []
  varAttrs := [("name", index)]
  varChildren := []
  index := index
  lower := lower
  upper := upper
  stride := stride
  blockAttrs := []
  body := body
  infos := []
  named := rfl

variable (L : DoLoop)

/-- The reference to the index. -/
def var : Xml := .elem "SgVarRefExp" L.varAttrs L.varChildren

/-- The initialization. -/
def init : Xml := .elem "SgAssignOp" L.initAttrs [L.var, L.lower.xml]

/-- The body. -/
def block : Xml := .elem "SgBasicBlock" L.blockAttrs L.body

/-- The attached comments and directives. -/
def infoList : List Xml := L.infos.map fun i => .elem "PreprocessingInfo" i.1 i.2

/-- The children of the loop element. -/
def children : List Xml :=
  L.init :: L.upper.xml :: L.stride.xml :: L.block :: L.infoList

/-- The loop element. -/
def xml : Xml := .elem "SgFortranDo" L.attrs L.children

/-- The header. -/
def head : Header :=
  { index := L.index, lower := L.lower.xml, upper := L.upper.xml, stride := L.stride.xml }

/-- The values of the index. -/
def values (μ : Machine) (ρ : Env) : List Int := L.head.values μ ρ

end DoLoop

section Select

@[simp]
theorem Expr.isElem_xml (e : Expr) : e.xml.isElem = true := rfl

/-- Expressions have none of the reserved names. -/
theorem Expr.hasName_xml {name : String} (h : name ∈ reserved) (e : Expr) :
    e.xml.hasName name = false := by
  have hne : e.name ≠ name := fun heq => e.free (heq ▸ h)
  exact beq_eq_false_iff_ne.mpr hne

theorem Expr.hasName_var (e : Expr) : e.xml.hasName "SgVarRefExp" = e.isVar := rfl

variable (L : DoLoop)

theorem elements_infoList : elements L.infoList = L.infoList := by
  refine List.filter_eq_self.mpr fun x hx => ?_
  rcases List.mem_map.mp hx with ⟨i, -, rfl⟩
  rfl

@[simp]
theorem elements_children : elements L.children = L.children := by
  have hassign : L.init.isElem = true := rfl
  have hblock : L.block.isElem = true := rfl
  rw [DoLoop.children, elements_cons_of_isElem hassign, elements_cons_of_isElem L.upper.isElem_xml,
    elements_cons_of_isElem L.stride.isElem_xml, elements_cons_of_isElem hblock,
    elements_infoList]

theorem named_infoList {name : String} (h : name ≠ "PreprocessingInfo") :
    named name L.infoList = [] := by
  refine List.filter_eq_nil_iff.mpr fun x hx => ?_
  rcases List.mem_map.mp hx with ⟨i, -, rfl⟩
  simp [Ne.symm h]

theorem named_infoList_self : named "PreprocessingInfo" L.infoList = L.infoList := by
  refine List.filter_eq_self.mpr fun x hx => ?_
  rcases List.mem_map.mp hx with ⟨i, -, rfl⟩
  rfl

@[simp]
theorem named_children_assign : named "SgAssignOp" L.children = [L.init] := by
  have hupper : L.upper.xml.hasName "SgAssignOp" = false := Expr.hasName_xml (by decide) _
  have hstride : L.stride.xml.hasName "SgAssignOp" = false := Expr.hasName_xml (by decide) _
  simp [DoLoop.children, DoLoop.init, DoLoop.block, hupper, hstride,
    named_infoList L (by decide : "SgAssignOp" ≠ "PreprocessingInfo")]

@[simp]
theorem named_children_block : named "SgBasicBlock" L.children = [L.block] := by
  have hupper : L.upper.xml.hasName "SgBasicBlock" = false := Expr.hasName_xml (by decide) _
  have hstride : L.stride.xml.hasName "SgBasicBlock" = false := Expr.hasName_xml (by decide) _
  simp [DoLoop.children, DoLoop.init, DoLoop.block, hupper, hstride,
    named_infoList L (by decide : "SgBasicBlock" ≠ "PreprocessingInfo")]

@[simp]
theorem named_children_info : named "PreprocessingInfo" L.children = L.infoList := by
  have hupper : L.upper.xml.hasName "PreprocessingInfo" = false := Expr.hasName_xml (by decide) _
  have hstride : L.stride.xml.hasName "PreprocessingInfo" = false :=
    Expr.hasName_xml (by decide) _
  simp [DoLoop.children, DoLoop.init, DoLoop.block, hupper, hstride, named_infoList_self]

@[simp]
theorem nth_one_children : nth 1 L.children = [L.init] := by
  rw [nth, elements_children]
  rfl

@[simp]
theorem nth_two_children : nth 2 L.children = [L.upper.xml] := by
  rw [nth, elements_children]
  rfl

@[simp]
theorem nth_three_children : nth 3 L.children = [L.stride.xml] := by
  rw [nth, elements_children]
  rfl

/-- The path to the index takes the lower bound along if it is a variable. -/
theorem path_var_children :
    path ["SgAssignOp", "SgVarRefExp"] L.children =
      L.var :: if L.lower.isVar = true then [L.lower.xml] else [] := by
  have hpath : path ["SgAssignOp", "SgVarRefExp"] L.children =
      (named "SgAssignOp" L.children).flatMap fun n => named "SgVarRefExp" n.children := rfl
  rw [hpath, named_children_assign]
  by_cases hvar : L.lower.isVar = true
  · simp [DoLoop.init, DoLoop.var, Expr.hasName_var, hvar]
  · simp [DoLoop.init, DoLoop.var, Expr.hasName_var, hvar]

theorem copiedAll_block : copiedAll [L.block] = [L.block.copied] := by
  rw [DoLoop.block, copiedAll_elem_cons, copiedAll_nil]

/-- The header is read from the first children, whatever stands behind them. -/
theorem header_of_assign {attrs : Attrs} {var lower bound inc : Xml} {x : Text}
    (more rest : List Xml) (hvar : var.hasName "SgVarRefExp" = true)
    (hname : var.attr "name" = some x) (hlower : lower.isElem = true)
    (hbound : bound.isElem = true) (hinc : inc.isElem = true) :
    header (.elem "SgAssignOp" attrs (var :: lower :: more) :: bound :: inc :: rest) =
      some { index := x, lower := lower, upper := bound, stride := inc } := by
  have hvarElem : var.isElem = true := by
    cases var with
    | elem n attrs cs => rfl
    | text t => exact absurd hvar (by simp [Xml.hasName])
    | comment t => exact absurd hvar (by simp [Xml.hasName])
  rw [header, elements_cons_elem, elements_cons_of_isElem hbound, elements_cons_of_isElem hinc]
  simp only [Xml.children_elem]
  rw [elements_cons_of_isElem hvarElem, elements_cons_of_isElem hlower]
  simp only [Xml.hasName_elem, beq_self_eq_true, hvar, and_self, if_true, hname, Option.map_some]

/-- Elements that may stand for a bound or a stride. -/
def Xml.isOperand (x : Xml) : Bool := x.isElem && !x.hasName "SgBasicBlock"

@[simp]
theorem Expr.isOperand_xml (e : Expr) : e.xml.isOperand = true := by
  rw [Xml.isOperand, Expr.isElem_xml, Expr.hasName_xml (by decide)]
  rfl

theorem header_children : header L.children = some L.head :=
  header_of_assign [] _ rfl L.named rfl rfl rfl

end Select

section Runs

variable (μ : Machine) (ρ : Env) (L : DoLoop)

/-- What is not an element executes nothing. -/
theorem runs_of_not_isElem (d : Nat) {x : Xml} (h : x.isElem = false) : runs μ d ρ x = [] := by
  have hloop : loopRuns μ ρ x = [] := by
    cases x with
    | elem n attrs cs => exact absurd h (by simp [Xml.isElem])
    | text t => rfl
    | comment t => rfl
  cases d with
  | zero => exact hloop
  | succ d => rw [runs, hloop, List.flatMap_nil]

/-- The runs of nodes are those of the elements among them. -/
theorem flatMap_runs_elements (d : Nat) (ns : List Xml) :
    (elements ns).flatMap (runs μ d ρ) = ns.flatMap (runs μ d ρ) := by
  induction ns with
  | nil => rfl
  | cons n ns ih =>
      by_cases hn : n.isElem = true
      · rw [elements_cons_of_isElem hn, List.flatMap_cons, List.flatMap_cons, ih]
      · have hnone : elements (n :: ns) = elements ns := List.filter_cons_of_neg hn
        rw [hnone, List.flatMap_cons, runs_of_not_isElem μ ρ d (by simpa using hn),
          List.nil_append, ih]

/-- A loop executes its first block for every value of its index. -/
theorem loopRuns_of_header {attrs : Attrs} {cs : List Xml} {h : Header} {b : Xml} {bs : List Xml}
    (hheader : header cs = some h) (hblock : named "SgBasicBlock" cs = b :: bs) :
    loopRuns μ ρ (.elem "SgFortranDo" attrs cs) =
      (h.values μ ρ).map fun v => (b, ρ.set h.index v) := by
  have hname : (Xml.elem "SgFortranDo" attrs cs).hasName "SgFortranDo" = true := rfl
  rw [loopRuns, if_pos hname, Xml.children_elem, hheader, hblock]
  simp only [List.take_succ_cons, List.take_zero, List.map_cons, List.map_nil]
  exact List.flatMap_pure_eq_map _ _

/-- A loop as the rules build it: the initialization, the bound, the stride and
    the block, and anything behind them. -/
theorem loopRuns_built {attrs initAttrs : Attrs} {var lower bound inc block : Xml} {x : Text}
    (more rest : List Xml) (hvar : var.hasName "SgVarRefExp" = true)
    (hname : var.attr "name" = some x) (hlower : lower.isElem = true)
    (hbound : bound.isOperand = true) (hinc : inc.isOperand = true)
    (hblock : block.hasName "SgBasicBlock" = true) :
    loopRuns μ ρ (.elem "SgFortranDo" attrs
        (.elem "SgAssignOp" initAttrs (var :: lower :: more) :: bound :: inc :: block :: rest)) =
      (Progression.values (eval μ ρ lower) (eval μ ρ bound) (strideValue μ ρ inc)).map fun v =>
        (block, ρ.set x v) := by
  simp only [Xml.isOperand, Bool.and_eq_true, Bool.not_eq_true'] at hbound hinc
  have hblocks : named "SgBasicBlock" (.elem "SgAssignOp" initAttrs (var :: lower :: more) ::
      bound :: inc :: block :: rest) = block :: named "SgBasicBlock" rest := by
    simp [hbound.2, hinc.2, hblock]
  exact loopRuns_of_header μ ρ
    (header_of_assign more (block :: rest) hvar hname hlower hbound.1 hinc.1) hblocks

theorem loopRuns_xml :
    loopRuns μ ρ L.xml = (L.values μ ρ).map fun v => (L.block, ρ.set L.index v) :=
  loopRuns_of_header μ ρ (header_children L) (named_children_block L)

/-- A loop with a copy of a header runs its block for the same values. -/
theorem loopRuns_copied (M : DoLoop) {b : Xml} (rest : List Xml)
    (hblock : b.hasName "SgBasicBlock" = true) :
    loopRuns μ ρ (.elem "SgFortranDo" M.attrs
        (M.init.copied :: M.upper.xml.copied :: M.stride.xml.copied :: b :: rest)) =
      (M.values μ ρ).map fun v => (b, ρ.set M.index v) := by
  have hinit : M.init.copied =
    .elem "SgAssignOp" M.initAttrs [M.var.copied, M.lower.xml.copied] := by
    rw [DoLoop.init, Xml.copied, DoLoop.var, Expr.xml, copiedAll_elem_cons, copiedAll_elem_cons,
      copiedAll_nil]
  have hvalues : M.values μ ρ = Progression.values (eval μ ρ M.lower.xml.copied)
      (eval μ ρ M.upper.xml.copied) (strideValue μ ρ M.stride.xml.copied) := by
    have hstride : strideValue μ ρ M.stride.xml.copied = strideValue μ ρ M.stride.xml := by
      rw [strideValue, strideValue, hasName_copied, eval_copied]
    rw [eval_copied, eval_copied, hstride]
    rfl
  have hoperand : ∀ e : Expr, e.xml.copied.isOperand = true := by
    intro e
    rw [Xml.isOperand, isElem_copied, hasName_copied]
    exact e.isOperand_xml
  rw [hinit, hvalues]
  refine loopRuns_built μ ρ [] rest ?_ ?_ ?_
    (hoperand _) (hoperand _) hblock
  · rw [hasName_copied]
    rfl
  · rw [DoLoop.var, Xml.copied]
    exact M.named
  · rw [isElem_copied]
    rfl

/-- In a perfect nest the inner loop is run for every value of the outer
    index. -/
theorem runs_nest {L M : DoLoop} (hbody : elements L.body = [M.xml]) (d : Nat) :
    runs μ (d + 1) ρ L.xml = (L.values μ ρ).flatMap fun v => runs μ d (ρ.set L.index v) M.xml := by
  have hblock : ∀ ρ' : Env, L.block.children.flatMap (runs μ d ρ') = runs μ d ρ' M.xml := by
    intro ρ'
    rw [← flatMap_runs_elements, DoLoop.block, Xml.children_elem, hbody, List.flatMap_singleton]
  rw [runs, loopRuns_xml, List.flatMap_map]
  simp only [hblock]

end Runs

section Fixed

variable {μ : Machine} {ρ ρ' : Env} {xs : List Text} {M : DoLoop}

theorem strideValue_eq {e : Xml} (h : Unaffected μ ρ xs e) (hρ : Env.Agree xs ρ' ρ) :
    strideValue μ ρ' e = strideValue μ ρ e := by
  unfold strideValue
  split
  · rfl
  · exact h ρ' hρ

/-- Loops whose header does not depend on some of the variables. -/
structure DoLoop.Fixed (μ : Machine) (ρ : Env) (xs : List Text) (M : DoLoop) : Prop where
  lower : Unaffected μ ρ xs M.lower.xml
  upper : Unaffected μ ρ xs M.upper.xml
  stride : Unaffected μ ρ xs M.stride.xml

theorem DoLoop.values_eq (μ : Machine) (ρ : Env) (M : DoLoop) :
    M.values μ ρ = Progression.values (eval μ ρ M.lower.xml) (eval μ ρ M.upper.xml)
      (strideValue μ ρ M.stride.xml) := rfl

theorem DoLoop.Fixed.values (h : M.Fixed μ ρ xs) (hρ : Env.Agree xs ρ' ρ) :
    M.values μ ρ' = M.values μ ρ := by
  rw [DoLoop.values_eq, DoLoop.values_eq, h.lower ρ' hρ, h.upper ρ' hρ, strideValue_eq h.stride hρ]

end Fixed

end Loops

section Pieces

/-- The attributes of the loops the rules build. -/
def builtAttrs : Attrs := [("style", ['0']), ("end", ['1']), ("slabel", [])]

/-- The expression that stands for a missing one. -/
def nullExpression : Xml := .elem "SgNullExpression" [] []

/-- A reference to a variable. -/
def varRef (x : Text) : Xml := .elem "SgVarRefExp" [("name", x)] []

/-- The constant one. -/
def oneVal : Xml := .elem "SgIntVal" [("value", ['1']), ("string", ['1'])] []

/-- A block without attributes. -/
def basicBlock (cs : List Xml) : Xml := .elem "SgBasicBlock" [] cs

/-- The name a rule reads from the header of its context node. -/
def indexName (cs : List Xml) : Text := valueOf "name" (path ["SgAssignOp", "SgVarRefExp"] cs)

/-- The operands `SgAssignOp/*[2]` of the initialization. -/
def secondOfAssign (cs : List Xml) : List Xml :=
  (named "SgAssignOp" cs).flatMap fun n => nth 2 n.children

variable (μ : Machine) (ρ : Env) (L : DoLoop)

@[simp]
theorem eval_varRef (x : Text) : eval μ ρ (varRef x) = (ρ x).getD (μ.load x) :=
  eval_varRefExp μ ρ [] rfl

@[simp]
theorem eval_oneVal : eval μ ρ oneVal = 1 := eval_intVal μ ρ [] (v := 1) rfl

theorem operandValues_expr (e : Expr) : operandValues μ ρ e.xml = [eval μ ρ e.xml] :=
  operandValues_eq μ ρ rfl (Expr.hasName_xml (by decide) e)

theorem Expr.eval_int (v : Int) : eval μ ρ (Expr.int v).xml = v := eval_intVal μ ρ [] rfl

/-- Constants depend on nothing. -/
theorem Expr.unaffected_int (xs : List Text) (v : Int) : Unaffected μ ρ xs (Expr.int v).xml :=
  fun ρ' _ => (Expr.eval_int μ ρ' v).trans (Expr.eval_int μ ρ v).symm

@[simp]
theorem indexName_children : indexName L.children = L.index := by
  rw [indexName, path_var_children, valueOf, attributes]
  simp [DoLoop.var, L.named]

@[simp]
theorem secondOfAssign_children : secondOfAssign L.children = [L.lower.xml] := by
  rw [secondOfAssign, named_children_assign]
  rfl

theorem path_nest {L M : DoLoop} (hbody : elements L.body = [M.xml]) :
    path ["SgBasicBlock", "SgFortranDo"] L.children = [M.xml] := by
  have hpath : path ["SgBasicBlock", "SgFortranDo"] L.children =
      (named "SgBasicBlock" L.children).flatMap fun n => named "SgFortranDo" n.children := rfl
  rw [hpath, named_children_block, List.flatMap_singleton, DoLoop.block, Xml.children_elem,
    ← named_elements, hbody]
  rfl

/-- The name of the index of the inner loop. -/
theorem indexName_nest {L M : DoLoop} (hbody : elements L.body = [M.xml]) :
    valueOf "name" (path ["SgBasicBlock", "SgFortranDo", "SgAssignOp", "SgVarRefExp"] L.children) =
      M.index := by
  have hpath : path ["SgBasicBlock", "SgFortranDo", "SgAssignOp", "SgVarRefExp"] L.children =
      (named "SgBasicBlock" L.children).flatMap fun n => (named "SgFortranDo" n.children).flatMap
        fun n => path ["SgAssignOp", "SgVarRefExp"] n.children := rfl
  have hdo : named "SgFortranDo" L.body = [M.xml] := by
    rw [← named_elements, hbody]
    rfl
  rw [hpath, named_children_block, List.flatMap_singleton, DoLoop.block, Xml.children_elem, hdo,
    List.flatMap_singleton, DoLoop.xml, Xml.children_elem]
  exact indexName_children M

end Pieces

end XevXml
