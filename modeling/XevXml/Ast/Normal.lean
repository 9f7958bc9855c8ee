import XevXml.Ast.RoundTrip

/-!
# Readable Trees and their Normal Forms

The function `back` mixes two questions: whether a tree can be written and
read at all, and what comes back. This file takes them apart. `readable`
decides the first by looking at the tree alone, `normal` answers the second for
every tree, and `back` is the normal form guarded by readability.

A tree cannot be read for three reasons: a node has no parent, which happens
below modifier types; the writer knows no reference types; and an array type
that is written with both its dimensions and an index must have as many
dimensions as its rank.

The normal form is where the defects of the round trip can be read off. It
drops parentheses around values and nearly all original trees, moves the
operand of an implicit cast to the place of its original tree, and moves the
dimensions of an array type without an index to the place of the index.

## Main definitions

* `ranksAgree`: The check of the reader of array types.
* `readable`: The trees that are read at all.
* `normal`: What is read.

## Theorems

* `back_eq`: The tree that is read back is the normal form of a readable tree.
* `roundTrip_eq_iff`: The outcome of the round trip on any tree.
-/

namespace XevXml

variable {F : Type} [FloatStream F]

/-- Whether the dimensions of an array type are as many as its rank. The
    reader checks this only if there is an index as well. -/
def ranksAgree (rank : CInt) : Sg F .optList → Sg F .opt → Bool
  | .aList l, .anExpr _ => decide (rank.1 = listLength l)
  | _, _ => true

/-- The trees that are written and read without an abort. The flag says whether
    the reader is given a parent. -/
def readable (fortran : Bool) : {s : Srt} → (par : Bool) → Sg F s → Bool
  | _, par, .value _ _ orig => (fortran || readable fortran true orig) && par
  | _, par, .complexVal _ real imag orig =>
      readable fortran par real && readable fortran par imag && readable fortran par orig && par
  | _, par, .exprListExp _ es => readable fortran true es && par
  | _, par, .ofVal v => readable fortran par v
  | _, par, .ofList l => readable fortran par l
  | _, par, .varRefExp _ _ orig => (fortran || readable fortran true orig) && par
  | _, par, .functionRefExp _ _ orig => (fortran || readable fortran true orig) && par
  | _, par, .labelRefExp _ _ _ => par
  | _, par, .atom _ _ => par
  | _, par, .binaryOp _ _ lhs rhs orig =>
      readable fortran true lhs && readable fortran true rhs && readable fortran true orig && par
  | _, par, .unaryOp _ _ operand _ => readable fortran par operand && par
  | _, par, .unaryModeOp _ _ _ operand _ => readable fortran par operand && par
  | _, par, .conditionalExp _ cond tstmt fstmt orig =>
      readable fortran par cond && readable fortran par tstmt && readable fortran par fstmt &&
        readable fortran par orig && par
  | _, par, .subscriptExpression _ low upp str =>
      readable fortran par low && readable fortran par upp && readable fortran par str && par
  | _, par, .functionCallExp _ function args orig =>
      readable fortran true function && readable fortran true args &&
        readable fortran true orig && par
  | _, par, .castExp _ _ _ operand type orig =>
      readable fortran par operand && readable fortran par type && readable fortran par orig && par
  | _, par, .actualArgumentExpression _ _ e => readable fortran par e && par
  | _, _, .noExpr => true
  | _, par, .anExpr e => readable fortran par e
  | _, _, .noVal => true
  | _, par, .aVal v => readable fortran par v
  | _, _, .noList => true
  | _, par, .aList l => readable fortran par l
  | _, _, .nilExpr => true
  | _, par, .consExpr e es => readable fortran par e && readable fortran par es
  | _, par, .primType _ kind => readable fortran par kind
  | _, _, .plainType _ => true
  | _, _, .pointerType base => readable fortran true base
  | _, _, .referenceType _ => false
  | _, _, .modifierType _ _ base => readable fortran false base
  | _, _, .arrayType rank base dimInfo index =>
      readable fortran true base && readable fortran true dimInfo &&
        readable fortran true index && ranksAgree rank dimInfo index
  | _, par, .functionType returnType arguments =>
      readable fortran par returnType && readable fortran par arguments && par
  | _, par, .typeString length kind => readable fortran par length && readable fortran par kind
  | _, par, .typeComplex kind base => readable fortran par kind && readable fortran par base
  | _, par, .typeImaginary kind base => readable fortran par kind && readable fortran par base
  | _, _, .nilType => true
  | _, par, .consType t ts => readable fortran par t && readable fortran par ts

/-- The array type that is read if the ranks agree. -/
def normalArray (rank : CInt) (base : Sg F .typ) :
    Sg F .optList → Sg F .opt → Sg F .typ
  | .aList l, .noExpr => .arrayType rank base .noList (.anExpr (.ofList l))
  | dimInfo, index => .arrayType rank base dimInfo index

/-- The tree that is read for a readable one. -/
def normal (fortran : Bool) : {s : Srt} → Sg F s → Sg F s
  | _, .value v _ orig => .value v.back false (if fortran then .noExpr else normal fortran orig)
  | _, .complexVal _ real imag orig =>
      rebuildComplex (optVals (normal fortran real) ++ (optVals (normal fortran imag) ++
        valsOfOrig (normal fortran orig)))
  | _, .exprListExp paren es => .exprListExp paren (normal fortran es)
  | _, .ofVal v => .ofVal (normal fortran v)
  | _, .ofList l => .ofList (normal fortran l)
  | _, .varRefExp name paren orig =>
      .varRefExp name paren (if fortran then .noExpr else normal fortran orig)
  | _, .functionRefExp name paren orig =>
      .functionRefExp name paren (if fortran then .noExpr else normal fortran orig)
  | _, .labelRefExp ltype nlabel paren => .labelRefExp ltype nlabel paren
  | _, .atom a paren => .atom a paren
  | _, .binaryOp op paren lhs rhs _ =>
      .binaryOp op paren (normal fortran lhs) (normal fortran rhs) .noExpr
  | _, .unaryOp op paren operand _ => .unaryOp op paren (normal fortran operand) .noExpr
  | _, .unaryModeOp op mode paren operand _ =>
      .unaryModeOp op mode paren (normal fortran operand) .noExpr
  | _, .conditionalExp paren cond tstmt fstmt _ =>
      .conditionalExp paren (normal fortran cond) (normal fortran tstmt) (normal fortran fstmt)
        .noExpr
  | _, .subscriptExpression paren low upp str =>
      .subscriptExpression paren (normal fortran low) (normal fortran upp) (normal fortran str)
  | _, .functionCallExp paren function args _ =>
      .functionCallExp paren (normal fortran function)
        (rebuildArgs (normal fortran function) (normal fortran args)) .noExpr
  | _, .castExp ctype implicit paren operand type _ =>
      .castExp ctype false paren (normal fortran operand) (normal fortran type)
        (if implicit then .anExpr (normal fortran operand) else .noExpr)
  | _, .actualArgumentExpression name paren e =>
      .actualArgumentExpression name paren (normal fortran e)
  | _, .noExpr => .noExpr
  | _, .anExpr e => .anExpr (normal fortran e)
  | _, .noVal => .noVal
  | _, .aVal v => .aVal (normal fortran v)
  | _, .noList => .noList
  | _, .aList l => .aList (normal fortran l)
  | _, .nilExpr => .nilExpr
  | _, .consExpr e es => .consExpr (normal fortran e) (normal fortran es)
  | _, .primType p kind => .primType p (normal fortran kind)
  | _, .plainType p => .plainType p
  | _, .pointerType base => .pointerType (normal fortran base)
  | _, .referenceType base => .referenceType (normal fortran base)
  | _, .modifierType modifier cv base => .modifierType modifier cv.back (normal fortran base)
  | _, .arrayType rank base dimInfo index =>
      normalArray rank (normal fortran base) (normal fortran dimInfo) (normal fortran index)
  | _, .functionType returnType arguments =>
      .functionType (normal fortran returnType) (normal fortran arguments)
  | _, .typeString length kind => .typeString (lengthBack (normal fortran length))
      (normal fortran kind)
  | _, .typeComplex kind base => .typeComplex (normal fortran kind) (normal fortran base)
  | _, .typeImaginary kind base => .typeImaginary (normal fortran kind) (normal fortran base)
  | _, .nilType => .nilType
  | _, .consType t ts => .consType (normal fortran t) (normal fortran ts)

section Attached

variable {α β : Type} (a b : Bool) (x : α)

@[simp]
theorem attached_true : attached true x = some x := rfl

@[simp]
theorem attached_bind_attached (f : α → β) (g : α → Bool) :
    ((attached a x).bind fun y => attached (g y) (f y)) = attached (a && g x) (f x) := by
  cases a <;> rfl

@[simp]
theorem attached_bind_some (f : α → β) :
    ((attached a x).bind fun y => some (f y)) = attached a (f x) := by
  cases a <;> rfl

@[simp]
theorem attached_map (f : α → β) : (attached a x).map f = attached a (f x) := by
  cases a <;> rfl

end Attached

section Lengths

theorem exprsList_normal (fortran : Bool) :
    (es : Sg F .exprs) → (exprsList (normal fortran es)).length = (exprsList es).length
  | .nilExpr => rfl
  | .consExpr e es => by
      simp only [normal, exprsList, List.length_cons, exprsList_normal fortran es]

theorem listLength_normal (fortran : Bool) (l : Sg F .list) :
    listLength (normal fortran l) = listLength l := by
  cases l with
  | exprListExp paren es => exact exprsList_normal fortran es

theorem ranksAgree_normal (fortran : Bool) (rank : CInt) (dimInfo : Sg F .optList)
    (index : Sg F .opt) :
    ranksAgree rank (normal fortran dimInfo) (normal fortran index) =
      ranksAgree rank dimInfo index := by
  cases dimInfo with
  | noList => rfl
  | aList l =>
      cases index with
      | noExpr => rfl
      | anExpr e => simp only [normal, ranksAgree, listLength_normal]

theorem rebuildArray_eq (rank : CInt) (base : Sg F .typ) (dimInfo : Sg F .optList)
    (index : Sg F .opt) :
    rebuildArray rank base dimInfo index =
      attached (ranksAgree rank dimInfo index) (normalArray rank base dimInfo index) := by
  cases dimInfo with
  | noList => rfl
  | aList l =>
      cases index with
      | noExpr => rfl
      | anExpr e => simp only [rebuildArray, ranksAgree, normalArray, attached, decide_eq_true_eq]

end Lengths

/-- The tree that is read back is the normal form of a readable tree. -/
theorem back_eq (fortran : Bool) {s : Srt} (n : Sg F s) (par : Bool) :
    back fortran par n = attached (readable fortran par n) (normal fortran n) := by
  induction n generalizing par with
  | value v paren orig ih | varRefExp name paren orig ih | functionRefExp name paren orig ih =>
      -- In Fortran the original tree is not written, so it need not be readable.
      cases fortran <;> simp [back, readable, normal, ih]
  | arrayType rank base dimInfo index ihb ihd ihi =>
      simp [back, readable, normal, ihb, ihd, ihi, rebuildArray_eq, ranksAgree_normal,
        Bool.and_assoc]
  | referenceType base ih => rfl
  | _ => simp [back, readable, normal, Bool.and_assoc, *]

/-- The round trip of a tree delivers the nodes of its normal form. -/
theorem roundTrip_toOption_eq (fortran par : Bool) {s : Srt} (n : Sg F s) :
    (roundTrip fortran par n).toOption =
      attached (readable fortran par n) (toNodes (normal fortran n)) := by
  rw [roundTrip_toOption, back_eq, attached_map]

/-- The outcome of the round trip on any tree. -/
theorem roundTrip_eq_iff (fortran par : Bool) {s : Srt} (n : Sg F s) (ns : List (Node F)) :
    roundTrip fortran par n = .ok ns ↔
      readable fortran par n = true ∧ toNodes (normal fortran n) = ns := by
  have h := roundTrip_toOption_eq fortran par n
  have hok : roundTrip fortran par n = .ok ns ↔
      (roundTrip fortran par n).toOption = some ns := by
    cases roundTrip fortran par n <;> simp
  rw [hok, h]
  cases readable fortran par n <;> simp [attached]

end XevXml
