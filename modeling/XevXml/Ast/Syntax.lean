import XevXml.Ast.Value

/-!
# Expressions and Types

The expressions and types of the dialect as one family of trees, indexed by
the sort of the tree. The sort keeps apart what the syntax tree classes keep
apart: values are expressions and so are argument lists, but the arguments of
a call are always a list and the parts of a complex constant are always
values. Optional operands and sequences are sorts as well, so that the family
needs no lists from outside and every induction over it has one case for each
constructor.

An expression carries the flag for its parentheses and, where its class has
room for it, the tree the front end folded it from. Lists, shapes, labels,
subscript triples and named arguments have no value of their own and no such
tree.

The classes have names, under which their elements stand in the file. `Cls`
enumerates them, and `Cls.ofName` finds a class by its name.

## Main definitions

* `BinaryOp`, `UnaryOp`, `UnaryModeOp`: The operators, by reader family.
* `PrimType`, `PlainType`: Types without a base type.
* `Cls`: The classes of expressions and types.
* `Cls.name`, `Cls.ofName`: Their names.
* `Srt`: The sorts of trees.
* `Sg`: The trees.
* `Node`: What the reader of an element delivers.
* `exprsList`, `typesList`: The members of a sequence.
* `toNodes`: The nodes a tree of any sort stands for.

## Theorems

* `Cls.ofName_name`: A class is found by its name.
-/

namespace XevXml

/-- Binary operators. -/
inductive BinaryOp
  | addOp | andAssignOp | andOp | assignOp | bitAndOp | bitOrOp | bitXorOp | commaOpExp
  | concatenationOp | divAssignOp | divideOp | equalityOp | exponentiationOp
  | greaterOrEqualOp | greaterThanOp | iorAssignOp | lessOrEqualOp | lessThanOp
  | lshiftAssignOp | lshiftOp | minusAssignOp | modAssignOp | modOp | multAssignOp
  | multiplyOp | notEqualOp | orOp | plusAssignOp | pntrArrRefExp | rshiftAssignOp
  | rshiftOp | subtractOp | xorAssignOp
deriving DecidableEq, Repr

/-- Unary operators whose mode is not written. -/
inductive UnaryOp
  | addressOfOp | bitComplementOp | notOp | unaryAddOp
deriving DecidableEq, Repr

/-- Unary operators whose mode is written. -/
inductive UnaryModeOp
  | minusMinusOp | minusOp | plusPlusOp
deriving DecidableEq, Repr

/-- Whether a unary operator stands before or behind its operand. -/
inductive Mode
  | prefixMode | postfixMode
deriving DecidableEq, Repr

/-- Expressions without operands and attributes. -/
inductive Atom
  | nullExpression | asteriskShapeExp | colonShapeExp
deriving DecidableEq, Repr

/-- Primitive types, which may have a kind. -/
inductive PrimType
  | bool | char | crayPointer | double | float | int | long | longDouble | longLong | short
  | signedChar | signedInt | signedLong | signedLongLong | signedShort | unsignedChar
  | unsignedInt | unsignedLong | unsignedLongLong | unsignedShort | void
deriving DecidableEq, Repr

/-- Types without any component. -/
inductive PlainType
  | default | ellipse
deriving DecidableEq, Repr

/-- The setting of the `const` and `volatile` modifiers. -/
inductive CV
  | default | const | volatile | constVolatile
deriving DecidableEq, Repr

namespace BinaryOp

/-- The class name of a binary operator. -/
def name : BinaryOp → String
  | addOp => "SgAddOp"
  | andAssignOp => "SgAndAssignOp"
  | andOp => "SgAndOp"
  | assignOp => "SgAssignOp"
  | bitAndOp => "SgBitAndOp"
  | bitOrOp => "SgBitOrOp"
  | bitXorOp => "SgBitXorOp"
  | commaOpExp => "SgCommaOpExp"
  | concatenationOp => "SgConcatenationOp"
  | divAssignOp => "SgDivAssignOp"
  | divideOp => "SgDivideOp"
  | equalityOp => "SgEqualityOp"
  | exponentiationOp => "SgExponentiationOp"
  | greaterOrEqualOp => "SgGreaterOrEqualOp"
  | greaterThanOp => "SgGreaterThanOp"
  | iorAssignOp => "SgIorAssignOp"
  | lessOrEqualOp => "SgLessOrEqualOp"
  | lessThanOp => "SgLessThanOp"
  | lshiftAssignOp => "SgLshiftAssignOp"
  | lshiftOp => "SgLshiftOp"
  | minusAssignOp => "SgMinusAssignOp"
  | modAssignOp => "SgModAssignOp"
  | modOp => "SgModOp"
  | multAssignOp => "SgMultAssignOp"
  | multiplyOp => "SgMultiplyOp"
  | notEqualOp => "SgNotEqualOp"
  | orOp => "SgOrOp"
  | plusAssignOp => "SgPlusAssignOp"
  | pntrArrRefExp => "SgPntrArrRefExp"
  | rshiftAssignOp => "SgRshiftAssignOp"
  | rshiftOp => "SgRshiftOp"
  | subtractOp => "SgSubtractOp"
  | xorAssignOp => "SgXorAssignOp"

/-- All binary operators. -/
def all : List BinaryOp :=
  [addOp, andAssignOp, andOp, assignOp, bitAndOp, bitOrOp, bitXorOp, commaOpExp,
    concatenationOp, divAssignOp, divideOp, equalityOp, exponentiationOp, greaterOrEqualOp,
    greaterThanOp, iorAssignOp, lessOrEqualOp, lessThanOp, lshiftAssignOp, lshiftOp,
    minusAssignOp, modAssignOp, modOp, multAssignOp, multiplyOp, notEqualOp, orOp, plusAssignOp,
    pntrArrRefExp, rshiftAssignOp, rshiftOp, subtractOp, xorAssignOp]

end BinaryOp

namespace PrimType

/-- The class name of a primitive type. -/
def name : PrimType → String
  | bool => "SgTypeBool"
  | char => "SgTypeChar"
  | crayPointer => "SgTypeCrayPointer"
  | double => "SgTypeDouble"
  | float => "SgTypeFloat"
  | int => "SgTypeInt"
  | long => "SgTypeLong"
  | longDouble => "SgTypeLongDouble"
  | longLong => "SgTypeLongLong"
  | short => "SgTypeShort"
  | signedChar => "SgTypeSignedChar"
  | signedInt => "SgTypeSignedInt"
  | signedLong => "SgTypeSignedLong"
  | signedLongLong => "SgTypeSignedLongLong"
  | signedShort => "SgTypeSignedShort"
  | unsignedChar => "SgTypeUnsignedChar"
  | unsignedInt => "SgTypeUnsignedInt"
  | unsignedLong => "SgTypeUnsignedLong"
  | unsignedLongLong => "SgTypeUnsignedLongLong"
  | unsignedShort => "SgTypeUnsignedShort"
  | void => "SgTypeVoid"

/-- All primitive types. -/
def all : List PrimType :=
  [bool, char, crayPointer, double, float, int, long, longDouble, longLong, short, signedChar,
    signedInt, signedLong, signedLongLong, signedShort, unsignedChar, unsignedInt, unsignedLong,
    unsignedLongLong, unsignedShort, void]

end PrimType

/-- The classes of expressions and types. -/
inductive Cls
  | value (c : ValueCls)
  | complexVal
  | exprListExp
  | varRefExp
  | functionRefExp
  | labelRefExp
  | atom (a : Atom)
  | binaryOp (op : BinaryOp)
  | unaryOp (op : UnaryOp)
  | unaryModeOp (op : UnaryModeOp)
  | conditionalExp
  | subscriptExpression
  | functionCallExp
  | castExp
  | actualArgumentExpression
  | primType (p : PrimType)
  | plainType (p : PlainType)
  | pointerType
  | modifierType
  | arrayType
  | functionType
  | functionParameterTypeList
  | typeString
  | typeComplex
  | typeImaginary
deriving DecidableEq, Repr

namespace Cls

/-- The name of a class. -/
def name : Cls → String
  | value c => c.name
  | complexVal => "SgComplexVal"
  | exprListExp => "SgExprListExp"
  | varRefExp => "SgVarRefExp"
  | functionRefExp => "SgFunctionRefExp"
  | labelRefExp => "SgLabelRefExp"
  | atom .nullExpression => "SgNullExpression"
  | atom .asteriskShapeExp => "SgAsteriskShapeExp"
  | atom .colonShapeExp => "SgColonShapeExp"
  | binaryOp op => op.name
  | unaryOp .addressOfOp => "SgAddressOfOp"
  | unaryOp .bitComplementOp => "SgBitComplementOp"
  | unaryOp .notOp => "SgNotOp"
  | unaryOp .unaryAddOp => "SgUnaryAddOp"
  | unaryModeOp .minusMinusOp => "SgMinusMinusOp"
  | unaryModeOp .minusOp => "SgMinusOp"
  | unaryModeOp .plusPlusOp => "SgPlusPlusOp"
  | conditionalExp => "SgConditionalExp"
  | subscriptExpression => "SgSubscriptExpression"
  | functionCallExp => "SgFunctionCallExp"
  | castExp => "SgCastExp"
  | actualArgumentExpression => "SgActualArgumentExpression"
  | primType p => p.name
  | plainType .default => "SgTypeDefault"
  | plainType .ellipse => "SgTypeEllipse"
  | pointerType => "SgPointerType"
  | modifierType => "SgModifierType"
  | arrayType => "SgArrayType"
  | functionType => "SgFunctionType"
  | functionParameterTypeList => "SgFunctionParameterTypeList"
  | typeString => "SgTypeString"
  | typeComplex => "SgTypeComplex"
  | typeImaginary => "SgTypeImaginary"

/-- All classes. -/
def all : List Cls :=
  ValueCls.all.map value ++
    [complexVal, exprListExp, varRefExp, functionRefExp, labelRefExp, atom .nullExpression,
      atom .asteriskShapeExp, atom .colonShapeExp] ++
    BinaryOp.all.map binaryOp ++
    [unaryOp .addressOfOp, unaryOp .bitComplementOp, unaryOp .notOp, unaryOp .unaryAddOp,
      unaryModeOp .minusMinusOp, unaryModeOp .minusOp, unaryModeOp .plusPlusOp, conditionalExp,
      subscriptExpression, functionCallExp, castExp, actualArgumentExpression] ++
    PrimType.all.map primType ++
    [plainType .default, plainType .ellipse, pointerType, modifierType, arrayType, functionType,
      functionParameterTypeList, typeString, typeComplex, typeImaginary]

/-- The class with a given name. -/
def ofName (s : String) : Option Cls := all.find? fun c => c.name == s

theorem mem_all (c : Cls) : c ∈ all := by
  cases c with
  | value v => cases v with
    | int t => cases t <;> decide +kernel
    | float k => cases k <;> decide +kernel
    | char => decide +kernel
    | unsignedChar => decide +kernel
    | bool => decide +kernel
    | string => decide +kernel
    | enum => decide +kernel
  | atom a => cases a <;> decide +kernel
  | binaryOp op => cases op <;> decide +kernel
  | unaryOp op => cases op <;> decide +kernel
  | unaryModeOp op => cases op <;> decide +kernel
  | primType p => cases p <;> decide +kernel
  | plainType p => cases p <;> decide +kernel
  | _ => decide +kernel

/-- No two classes have the same name, so a class is found by its name. -/
theorem ofName_name (c : Cls) : ofName c.name = some c := by
  have hall : ∀ c ∈ all, ofName c.name = some c := by decide +kernel
  exact hall c (mem_all c)

end Cls

/-- The sorts of trees. -/
inductive Srt
  | expr | val | list | opt | optVal | optList | exprs | typ | typs
deriving DecidableEq, Repr

/-- Expressions and types, with their optional parts and sequences. -/
inductive Sg (F : Type) [FloatStream F] : Srt → Type
  | value (v : Value F) (paren : Bool) (orig : Sg F .opt) : Sg F .val
  | complexVal (paren : Bool) (real imag : Sg F .optVal) (orig : Sg F .opt) : Sg F .val
  | exprListExp (paren : Bool) (es : Sg F .exprs) : Sg F .list
  | ofVal (v : Sg F .val) : Sg F .expr
  | ofList (l : Sg F .list) : Sg F .expr
  | varRefExp (name : Text) (paren : Bool) (orig : Sg F .opt) : Sg F .expr
  | functionRefExp (name : Text) (paren : Bool) (orig : Sg F .opt) : Sg F .expr
  | labelRefExp (ltype nlabel : CInt) (paren : Bool) : Sg F .expr
  | atom (a : Atom) (paren : Bool) : Sg F .expr
  | binaryOp (op : BinaryOp) (paren : Bool) (lhs rhs : Sg F .expr) (orig : Sg F .opt) :
      Sg F .expr
  | unaryOp (op : UnaryOp) (paren : Bool) (operand : Sg F .expr) (orig : Sg F .opt) :
      Sg F .expr
  | unaryModeOp (op : UnaryModeOp) (mode : Mode) (paren : Bool) (operand : Sg F .expr)
      (orig : Sg F .opt) : Sg F .expr
  | conditionalExp (paren : Bool) (cond tstmt fstmt : Sg F .expr) (orig : Sg F .opt) :
      Sg F .expr
  | subscriptExpression (paren : Bool) (low upp str : Sg F .expr) : Sg F .expr
  | functionCallExp (paren : Bool) (function : Sg F .expr) (args : Sg F .list)
      (orig : Sg F .opt) : Sg F .expr
  | castExp (ctype : CInt) (implicit paren : Bool) (operand : Sg F .expr) (type : Sg F .typ)
      (orig : Sg F .opt) : Sg F .expr
  | actualArgumentExpression (name : Text) (paren : Bool) (e : Sg F .expr) : Sg F .expr
  | noExpr : Sg F .opt
  | anExpr (e : Sg F .expr) : Sg F .opt
  | noVal : Sg F .optVal
  | aVal (v : Sg F .val) : Sg F .optVal
  | noList : Sg F .optList
  | aList (l : Sg F .list) : Sg F .optList
  | nilExpr : Sg F .exprs
  | consExpr (e : Sg F .expr) (es : Sg F .exprs) : Sg F .exprs
  | primType (p : PrimType) (kind : Sg F .opt) : Sg F .typ
  | plainType (p : PlainType) : Sg F .typ
  | pointerType (base : Sg F .typ) : Sg F .typ
  | referenceType (base : Sg F .typ) : Sg F .typ
  | modifierType (modifier : BitVec 64) (cv : CV) (base : Sg F .typ) : Sg F .typ
  | arrayType (rank : CInt) (base : Sg F .typ) (dimInfo : Sg F .optList) (index : Sg F .opt) :
      Sg F .typ
  | functionType (returnType : Sg F .typ) (arguments : Sg F .typs) : Sg F .typ
  | typeString (length kind : Sg F .opt) : Sg F .typ
  | typeComplex (kind : Sg F .opt) (base : Sg F .typ) : Sg F .typ
  | typeImaginary (kind : Sg F .opt) (base : Sg F .typ) : Sg F .typ
  | nilType : Sg F .typs
  | consType (t : Sg F .typ) (ts : Sg F .typs) : Sg F .typs

/-- What the reader of an element delivers. -/
inductive Node (F : Type) [FloatStream F]
  | expr (e : Sg F .expr)
  | type (t : Sg F .typ)
  | functionParameterTypeList (ts : Sg F .typs)

variable {F : Type} [FloatStream F]

namespace Node

/-- The expression a node is. -/
def isSgExpression : Node F → Option (Sg F .expr)
  | expr e => some e
  | _ => none

/-- The value a node is. -/
def isSgValueExp : Node F → Option (Sg F .val)
  | expr (.ofVal v) => some v
  | _ => none

/-- The expression list a node is. -/
def isSgExprListExp : Node F → Option (Sg F .list)
  | expr (.ofList l) => some l
  | _ => none

/-- The type a node is. -/
def isSgType : Node F → Option (Sg F .typ)
  | type t => some t
  | _ => none

/-- The parameter list a node is. -/
def isSgFunctionParameterTypeList : Node F → Option (Sg F .typs)
  | functionParameterTypeList ts => some ts
  | _ => none

end Node

/-- The expression of an optional one, as a list. -/
def optExprs : Sg F .opt → List (Sg F .expr)
  | .noExpr => []
  | .anExpr e => [e]

/-- The value of an optional one, as a list. -/
def optVals : Sg F .optVal → List (Sg F .val)
  | .noVal => []
  | .aVal v => [v]

/-- The list of an optional one, as a list. -/
def optLists : Sg F .optList → List (Sg F .list)
  | .noList => []
  | .aList l => [l]

/-- The expressions of a sequence. -/
def exprsList : {s : Srt} → Sg F s → List (Sg F .expr)
  | _, .consExpr e es => e :: exprsList es
  | _, _ => []

/-- The types of a sequence. -/
def typesList : {s : Srt} → Sg F s → List (Sg F .typ)
  | _, .consType t ts => t :: typesList ts
  | _, _ => []

/-- The nodes a tree of any sort stands for. -/
def toNodes : {s : Srt} → Sg F s → List (Node F)
  | .expr, e => [.expr e]
  | .val, v => [.expr (.ofVal v)]
  | .list, l => [.expr (.ofList l)]
  | .opt, o => (optExprs o).map .expr
  | .optVal, o => (optVals o).map fun v => .expr (.ofVal v)
  | .optList, o => (optLists o).map fun l => .expr (.ofList l)
  | .exprs, es => (exprsList es).map .expr
  | .typ, t => [.type t]
  | .typs, ts => (typesList ts).map .type

end XevXml
