import XevXml.Core.Slots
import XevXml.Ast.Write

/-!
# The Reader

The XML reader on expressions and types. `visit` finds the class of an
element, looks at the attributes the class insists on, visits the element
children in order and hands what they delivered to the reader of the class.

A reader is told whether its element has a parent in the syntax tree, since an
expression without one is an error. Which parent a class passes on to its
children differs: most readers pass on the node they are building, some the
parent they were given, and the reader of a modifier type passes on a node it
has not built yet, that is, none. Below a modifier type nothing but types can
therefore be read, down to the next class that passes on its own node.

The readers put the nodes their children deliver into slots, by class and
position. They are written here as the loops of the source, with the slots of
`Slots` for the usual ones and loops of their own for casts and array types.

## Main definitions

* `needAttrs`: The attributes a class insists on before it visits children.
* `Cls.childParent`: The parent a class passes on to its children.
* `Cls.visitsChildren`: The classes whose reader looks at children at all.
* `castStep`, `arrayStep`: The loops of casts and array types.
* `build`: What the reader of a class makes of attributes and children.
* `visit`, `visitAll`: The reader.

## Theorems

* `visit_elem`: The reader on an element of a known class.
* `visitAll_append`: Children are visited one after the other.
-/

namespace XevXml

variable {F : Type} [FloatStream F]

/-- The attributes a class insists on before it visits its children. -/
def needAttrs (c : Cls) (node : Attrs) : Except Fatal Unit :=
  match c with
  | .value v => needValueAttrs v node
  | .varRefExp | .functionRefExp | .actualArgumentExpression => do
      let _ ← needString c.name node "name"
      return ()
  | _ => .ok ()

/-- Whether the children of a class have a parent, given whether the node
    itself has one. -/
def Cls.childParent (c : Cls) (par : Bool) : Bool :=
  match c with
  | .unaryOp _ | .unaryModeOp _ | .conditionalExp | .subscriptExpression | .castExp
  | .complexVal | .actualArgumentExpression | .primType _ | .functionType
  | .functionParameterTypeList | .typeString | .typeComplex | .typeImaginary => par
  | .modifierType => false
  | _ => true

/-- The classes whose reader looks at its children. -/
def Cls.visitsChildren : Cls → Bool
  | labelRefExp | atom _ | plainType _ => false
  | _ => true

/-- An optional expression from a slot. -/
def ofSlot : Option (Sg F .expr) → Sg F .opt
  | none => .noExpr
  | some e => .anExpr e

/-- The tree of a list of expressions. -/
def ofExprs : List (Sg F .expr) → Sg F .exprs
  | [] => .nilExpr
  | e :: es => .consExpr e (ofExprs es)

/-- The tree of a list of types. -/
def ofTypes : List (Sg F .typ) → Sg F .typs
  | [] => .nilType
  | t :: ts => .consType t (ofTypes ts)

/-- The number of expressions in a list. -/
def listLength : Sg F .list → Nat
  | .exprListExp _ es => (exprsList es).length

/-- The slots of the reader of a cast. -/
structure CastSlots (F : Type) [FloatStream F] where
  typ : Option (Sg F .typ)
  exp : Option (Sg F .expr)
  oexp : Option (Sg F .expr)

/-- The loop body of the reader of a cast. -/
def castStep (slots : CastSlots F) (astchild : Node F) : CastSlots F :=
  let exp := if slots.exp.isNone then astchild.isSgExpression else slots.exp
  let typ := if slots.typ.isNone then astchild.isSgType else slots.typ
  let oexp := if exp.isSome ∧ slots.oexp.isNone then astchild.isSgExpression else slots.oexp
  { typ := typ, exp := exp, oexp := oexp }

/-- The slots of the reader of an array type. -/
structure ArraySlots (F : Type) [FloatStream F] where
  typ : Option (Sg F .typ)
  lst : Option (Sg F .list)
  iexp : Option (Sg F .expr)

/-- The list an expression is. -/
def isExprList : Option (Sg F .expr) → Option (Sg F .list)
  | some (.ofList l) => some l
  | _ => none

/-- The loop body of the reader of an array type. The slots for the index and
    for the dimensions hold the same node only in the turn that copies the
    index to the dimensions, since that turn overwrites the index. -/
def arrayStep (slots : ArraySlots F) (astchild : Node F) : ArraySlots F :=
  if slots.typ.isNone then { slots with typ := astchild.isSgType }
  else
    let lst := if slots.lst.isNone then isExprList slots.iexp else slots.lst
    let same := slots.lst.isNone ∧ lst.isSome
    if slots.iexp.isNone ∨ same then
      { slots with lst := lst, iexp := astchild.isSgExpression }
    else { slots with lst := lst }

/-- The modifier setting with a given number. Only two settings have a builder
    of their own. -/
def readCv (s : Text) : CV :=
  let cv := unsignedLongFormat.extract s
  if cv = CV.const.number then .const
  else if cv = CV.volatile.number then .volatile
  else .default

/-- What the reader of a class makes of its attributes and of the nodes its
    children delivered. -/
def build (c : Cls) (node : Attrs) (kids : List (Node F)) :
    Except Fatal (Node F) :=
  let paren := getFlag node "paren"
  match c with
  | .value v => do
      let x ← visitValue v node
      return .expr (.ofVal (.value x paren (ofSlot (Slots.first Node.isSgExpression kids))))
  | .complexVal =>
      let zero : Sg F .val := .value Value.zero false .noExpr
      -- A third slot is for the original tree, but the reader tests that slot
      -- itself instead of the child, so it stays empty.
      match Slots.fill Node.isSgValueExp 2 kids with
      | [some real, some imag] =>
          .ok (.expr (.ofVal (.complexVal paren (.aVal real) (.aVal imag) .noExpr)))
      | [some real, none] =>
          .ok (.expr (.ofVal (.complexVal paren .noVal (.aVal real) .noExpr)))
      | _ => .ok (.expr (.ofVal (.complexVal paren (.aVal zero) (.aVal zero) .noExpr)))
  | .exprListExp =>
      .ok (.expr (.ofList (.exprListExp paren (ofExprs (kids.filterMap Node.isSgExpression)))))
  | .varRefExp => do
      let name ← needString c.name node "name"
      return .expr (.varRefExp name paren (ofSlot (Slots.first Node.isSgExpression kids)))
  | .functionRefExp => do
      let name ← needString c.name node "name"
      return .expr (.functionRefExp name paren (ofSlot (Slots.first Node.isSgExpression kids)))
  | .labelRefExp =>
      let ino := Numeral.Machine.read intFormat ((getString node "nlabel").getD [])
      let type := Numeral.Machine.read intFormat ((getString node "ltype").getD [])
      .ok (.expr (.labelRefExp type ino paren))
  | .atom a => .ok (.expr (.atom a paren))
  | .binaryOp op =>
      -- The reader returns before it looks at the third slot.
      match Slots.fill Node.isSgExpression 3 kids with
      | [some lhs, some rhs, _] => .ok (.expr (.binaryOp op paren lhs rhs .noExpr))
      | _ => .error (.missingNodes c.name "2" "SgExpression")
  | .unaryOp op =>
      match Slots.first Node.isSgExpression kids with
      | none => .error (.missingNode c.name "SgExpression")
      | some exp => .ok (.expr (.unaryOp op paren exp .noExpr))
  | .unaryModeOp op =>
      let mode := if getFlag node "mode" then Mode.postfixMode else Mode.prefixMode
      match Slots.first Node.isSgExpression kids with
      | none => .error (.missingNode "SgUnaryOp" "SgExpression")
      | some exp => .ok (.expr (.unaryModeOp op mode paren exp .noExpr))
  | .conditionalExp =>
      match Slots.fill Node.isSgExpression 3 kids with
      | [some cond, some tstmt, some fstmt] =>
          .ok (.expr (.conditionalExp paren cond tstmt fstmt .noExpr))
      | _ => .error (.missingNodes c.name "3" "SgExpression")
  | .subscriptExpression =>
      match Slots.fill Node.isSgExpression 3 kids with
      | [some low, some upp, some str] => .ok (.expr (.subscriptExpression paren low upp str))
      | _ => .error (.missingNodes c.name "3" "SgExpression")
  | .functionCallExp =>
      match Slots.first Node.isSgExpression kids, Slots.first Node.isSgExprListExp kids with
      | none, _ => .error (.missingNode "SgFunctionCall" "SgExpression")
      | some _, none => .error (.missingNode "SgFunctionCall" "SgExprListExp")
      | some exp, some para => .ok (.expr (.functionCallExp paren exp para .noExpr))
  | .castExp =>
      let cty := Numeral.Machine.read intFormat ((getString node "ctype").getD [])
      let imp := getFlag node "implicit"
      let slots := kids.foldl castStep { typ := none, exp := none, oexp := none }
      match slots.typ, slots.exp with
      | none, _ => .error (.missingNode c.name "SgType")
      | some _, none => .error (.missingNode c.name "SgExpression")
      | some typ, some exp =>
          -- The position of the node is reset behind the reader, so the
          -- rebuilt cast no longer counts as generated by the compiler.
          .ok (.expr (.castExp cty false paren exp typ
            (if imp then ofSlot slots.oexp else .noExpr)))
  | .actualArgumentExpression => do
      let name ← needString c.name node "name"
      match Slots.first Node.isSgExpression kids with
      | none => .error (.missingNode c.name "SgExpression")
      | some exp => .ok (.expr (.actualArgumentExpression name paren exp))
  | .primType p =>
      let kexp := if p = .int then Slots.first Node.isSgExpression kids
        else Slots.last Node.isSgExpression kids
      .ok (.type (.primType p (ofSlot kexp)))
  | .plainType p => .ok (.type (.plainType p))
  | .pointerType =>
      match Slots.first Node.isSgType kids with
      | none => .error (.missingNode c.name "SgType")
      | some typ => .ok (.type (.pointerType typ))
  | .modifierType =>
      match Slots.first Node.isSgType kids with
      | none => .error (.missingNode c.name "SgType")
      | some typ => do
          let mod ← needString c.name node "modifier"
          let cv := readCv ((getString node "cv_modifier").getD [])
          return .type (.modifierType (readUnsignedLong mod) cv typ)
  | .arrayType =>
      let rnk := Numeral.Machine.read intFormat ((getString node "rank").getD [])
      let slots := kids.foldl arrayStep { typ := none, lst := none, iexp := none }
      match slots.typ, slots.lst with
      | none, _ => .error (.missingNode c.name "SgType")
      | some typ, none => .ok (.type (.arrayType rnk typ .noList (ofSlot slots.iexp)))
      | some typ, some lst =>
          if rnk.1 = listLength lst then
            .ok (.type (.arrayType rnk typ (.aList lst) (ofSlot slots.iexp)))
          else .error (.fatal "invalid expression list")
  | .functionType =>
      match Slots.first Node.isSgFunctionParameterTypeList kids with
      | none => .error (.missingNode c.name "SgFunctionParameterList")
      | some lst =>
          match Slots.first Node.isSgType kids with
          | none => .ok (.type (.functionType (.primType .int .noExpr) lst))
          | some typ => .ok (.type (.functionType typ lst))
  | .functionParameterTypeList =>
      .ok (.functionParameterTypeList (ofTypes (kids.filterMap Node.isSgType)))
  | .typeString =>
      if getFlag node "len" then
        match Slots.fill Node.isSgExpression 2 kids with
        | [some lexp, kexp] => .ok (.type (.typeString (.anExpr lexp) (ofSlot kexp)))
        | _ => .ok (.type (.typeString (.anExpr (.atom .asteriskShapeExp false)) .noExpr))
      else
        .ok (.type (.typeString (.anExpr (.atom .asteriskShapeExp false))
          (ofSlot (Slots.first Node.isSgExpression kids))))
  | .typeComplex =>
      match Slots.first Node.isSgType kids with
      | none => .error (.missingNode c.name "SgType")
      | some typ =>
          .ok (.type (.typeComplex (ofSlot (Slots.first Node.isSgExpression kids)) typ))
  | .typeImaginary =>
      match Slots.first Node.isSgType kids with
      | none => .error (.missingNode c.name "SgType")
      | some typ =>
          .ok (.type (.typeImaginary (ofSlot (Slots.first Node.isSgExpression kids)) typ))

/-- Types need no parent in the syntax tree, all other nodes do. -/
def checkParent (par : Bool) (n : Node F) : Except Fatal (Node F) :=
  if n.isSgType.isSome ∨ par then .ok n
  else .error (.fatal "SgNode with no parent is found\n")

mutual

/-- The reader on one node of the document. -/
def visit (par : Bool) : Xml → Except Fatal (Node F)
  | .elem name attrs children =>
      match Cls.ofName name with
      | none => .error (.fatal ("unknown AST node found: " ++ name))
      | some c => do
          needAttrs c attrs
          let kids ← if c.visitsChildren then visitAll (c.childParent par) children else .ok []
          let n ← build c attrs kids
          checkParent par n
  | .text _ => .error (.fatal "unknown AST node found: #text")
  | .comment _ => .error (.fatal "unknown AST node found: #comment")

/-- The reader on the element children of a node. -/
def visitAll (par : Bool) : List Xml → Except Fatal (List (Node F))
  | [] => .ok []
  | .elem name attrs children :: rest => do
      let n ← visit par (.elem name attrs children)
      let ns ← visitAll par rest
      return n :: ns
  | .text _ :: rest => visitAll par rest
  | .comment _ :: rest => visitAll par rest

end

section Visit

theorem visit_elem (par : Bool) (c : Cls) (attrs : Attrs) (children : List Xml) :
    visit (F := F) par (.elem c.name attrs children) = (do
      needAttrs c attrs
      let kids ← if c.visitsChildren then visitAll (c.childParent par) children else .ok []
      let n ← build c attrs kids
      checkParent par n) := by
  rw [visit]
  simp only [Cls.ofName_name]

theorem visitAll_append (par : Bool) (a b : List Xml) :
    visitAll (F := F) par (a ++ b) = (do
      let m ← visitAll par a
      let n ← visitAll par b
      return m ++ n) := by
  induction a with
  | nil =>
      simp only [List.nil_append, visitAll]
      cases visitAll (F := F) par b <;> rfl
  | cons x a ih =>
      cases x with
      | elem name attrs children =>
          simp only [List.cons_append, visitAll, ih, bind_assoc, pure_bind]
      | text t => simpa only [List.cons_append, visitAll] using ih
      | comment t => simpa only [List.cons_append, visitAll] using ih

end Visit

end XevXml
