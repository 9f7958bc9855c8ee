import XevXml.Ast.Normal

/-!
# Comparing Trees

What it means that a tree survives the round trip depends on what one looks
at: the structure type and the operands of an expression, its original trees,
or everything. A `View` says which of the features of a tree are compared, and
`erase` forgets the others. Two trees look the same in a view if they are equal
after erasing.

The main theorem determines, for every view, the trees that look the same as
their normal form. The condition `Kept` is read off the tree node by node.

Equal trees do not show whether the original tree of a rebuilt node was read
from the file or is one of the operands of the node once more. `NoStandIn`
excludes the latter and is asked for in the views that look at original trees.

## Main definitions

* `View`: The features that are compared.
* `View.full`, `View.operands`, `View.originals`: The views used below.
* `erase`: Forgetting what a view does not look at.
* `NoStandIn`: No operand stands in for an original tree.
* `Survives`: A tree looks the same after the round trip.
* `Kept`: The condition on the tree.

## Theorems

* `erase_full`: The full view forgets nothing.
* `survives_iff`: `Kept` describes the trees that survive, for every view.
* `normal_eq_self_iff`: The trees that come back unchanged.
-/

namespace XevXml

variable {F : Type} [FloatStream F]

/-- The features of a tree that are compared: flags for parentheses, original
    trees, the values of constants, the types of casts, and the marks of casts
    that the compiler generated. -/
structure View where
  paren : Bool
  orig : Bool
  value : Bool
  types : Bool
  mark : Bool
deriving DecidableEq, Repr

namespace View

/-- The views in which an operand may not stand in for an original tree. Where
    the marks of casts are compared, none of the casts can be marked, and the
    question does not arise. -/
def strict (w : View) : Bool := w.orig && !w.mark

/-- Everything is compared. -/
def full : View where
  paren := true
  orig := true
  value := true
  types := true
  mark := true

/-- Operands, parentheses and types are compared, original trees are not. -/
def operands : View where
  paren := true
  orig := false
  value := true
  types := true
  mark := false

/-- Nodes and their original trees are compared. -/
def originals : View where
  paren := false
  orig := true
  value := false
  types := false
  mark := false

end View

/-- The value that stands for all values of a class. -/
def ValueCls.blank : ValueCls → Value F
  | int t => .int t (Literal.ofText t.io [])
  | float k => .float k (Literal.ofText (FloatStream.io k) [])
  | char => .char 0
  | unsignedChar => .unsignedChar 0
  | bool => .bool false
  | string => .string {
      value := []
      usesSingleQuotes := false
      wcharString := false
      is16bitString := false
      is32bitString := false }
  | enum => .enum { value := Numeral.Machine.read intFormat [], name := [], enum := [] }

/-- Forget what a view does not look at. -/
def erase (w : View) : {s : Srt} → Sg F s → Sg F s
  | _, .value v paren orig =>
      .value (if w.value then v else v.cls.blank) (w.paren && paren)
        (if w.orig then orig else .noExpr)
  | _, .complexVal paren real imag orig =>
      .complexVal (w.paren && paren) (erase w real) (erase w imag)
        (if w.orig then orig else .noExpr)
  | _, .exprListExp paren es => .exprListExp (w.paren && paren) (erase w es)
  | _, .ofVal v => .ofVal (erase w v)
  | _, .ofList l => .ofList (erase w l)
  | _, .varRefExp name paren orig =>
      .varRefExp name (w.paren && paren) (if w.orig then orig else .noExpr)
  | _, .functionRefExp name paren orig =>
      .functionRefExp name (w.paren && paren) (if w.orig then orig else .noExpr)
  | _, .labelRefExp ltype nlabel paren => .labelRefExp ltype nlabel (w.paren && paren)
  | _, .atom a paren => .atom a (w.paren && paren)
  | _, .binaryOp op paren lhs rhs orig =>
      .binaryOp op (w.paren && paren) (erase w lhs) (erase w rhs) (if w.orig then orig else .noExpr)
  | _, .unaryOp op paren operand orig =>
      .unaryOp op (w.paren && paren) (erase w operand) (if w.orig then orig else .noExpr)
  | _, .unaryModeOp op mode paren operand orig =>
      .unaryModeOp op mode (w.paren && paren) (erase w operand) (if w.orig then orig else .noExpr)
  | _, .conditionalExp paren cond tstmt fstmt orig =>
      .conditionalExp (w.paren && paren) (erase w cond) (erase w tstmt) (erase w fstmt)
        (if w.orig then orig else .noExpr)
  | _, .subscriptExpression paren low upp str =>
      .subscriptExpression (w.paren && paren) (erase w low) (erase w upp) (erase w str)
  | _, .functionCallExp paren function args orig =>
      .functionCallExp (w.paren && paren) (erase w function) (erase w args)
        (if w.orig then orig else .noExpr)
  | _, .castExp ctype implicit paren operand type orig =>
      .castExp ctype (w.mark && implicit) (w.paren && paren) (erase w operand)
        (if w.types then erase w type else .plainType .default) (if w.orig then orig else .noExpr)
  | _, .actualArgumentExpression name paren e =>
      .actualArgumentExpression name (w.paren && paren) (erase w e)
  | _, .noExpr => .noExpr
  | _, .anExpr e => .anExpr (erase w e)
  | _, .noVal => .noVal
  | _, .aVal v => .aVal (erase w v)
  | _, .noList => .noList
  | _, .aList l => .aList (erase w l)
  | _, .nilExpr => .nilExpr
  | _, .consExpr e es => .consExpr (erase w e) (erase w es)
  | _, .primType p kind => .primType p (erase w kind)
  | _, .plainType p => .plainType p
  | _, .pointerType base => .pointerType (erase w base)
  | _, .referenceType base => .referenceType (erase w base)
  | _, .modifierType modifier cv base => .modifierType modifier cv (erase w base)
  | _, .arrayType rank base dimInfo index =>
      .arrayType rank (erase w base) (erase w dimInfo) (erase w index)
  | _, .functionType returnType arguments =>
      .functionType (erase w returnType) (erase w arguments)
  | _, .typeString length kind => .typeString (erase w length) (erase w kind)
  | _, .typeComplex kind base => .typeComplex (erase w kind) (erase w base)
  | _, .typeImaginary kind base => .typeImaginary (erase w kind) (erase w base)
  | _, .nilType => .nilType
  | _, .consType t ts => .consType (erase w t) (erase w ts)

/-- No operand of a node stands in for the original tree of the node. Types are
    looked into if the view compares them. -/
def NoStandIn (w : View) : {s : Srt} → Sg F s → Prop
  | _, .complexVal _ real imag orig =>
      (∀ v ∈ optVals real ++ optVals imag, orig ≠ .anExpr (.ofVal v)) ∧ NoStandIn w real ∧
        NoStandIn w imag
  | _, .exprListExp _ es => NoStandIn w es
  | _, .ofVal v => NoStandIn w v
  | _, .ofList l => NoStandIn w l
  | _, .binaryOp _ _ lhs rhs orig =>
      (orig ≠ .anExpr lhs ∧ orig ≠ .anExpr rhs) ∧ NoStandIn w lhs ∧ NoStandIn w rhs
  | _, .unaryOp _ _ operand orig => orig ≠ .anExpr operand ∧ NoStandIn w operand
  | _, .unaryModeOp _ _ _ operand orig => orig ≠ .anExpr operand ∧ NoStandIn w operand
  | _, .conditionalExp _ cond tstmt fstmt orig =>
      (orig ≠ .anExpr cond ∧ orig ≠ .anExpr tstmt ∧ orig ≠ .anExpr fstmt) ∧ NoStandIn w cond ∧
        NoStandIn w tstmt ∧ NoStandIn w fstmt
  | _, .subscriptExpression _ low upp str =>
      NoStandIn w low ∧ NoStandIn w upp ∧ NoStandIn w str
  | _, .functionCallExp _ function args orig =>
      (orig ≠ .anExpr function ∧ orig ≠ .anExpr (.ofList args)) ∧ NoStandIn w function ∧
        NoStandIn w args
  | _, .castExp _ _ _ operand type orig =>
      orig ≠ .anExpr operand ∧ NoStandIn w operand ∧ (w.types = true → NoStandIn w type)
  | _, .actualArgumentExpression _ _ e => NoStandIn w e
  | _, .anExpr e => NoStandIn w e
  | _, .aVal v => NoStandIn w v
  | _, .aList l => NoStandIn w l
  | _, .consExpr e es => NoStandIn w e ∧ NoStandIn w es
  | _, .primType _ kind => NoStandIn w kind
  | _, .pointerType base => NoStandIn w base
  | _, .referenceType base => NoStandIn w base
  | _, .modifierType _ _ base => NoStandIn w base
  | _, .arrayType _ base dimInfo index =>
      NoStandIn w base ∧ NoStandIn w dimInfo ∧ NoStandIn w index
  | _, .functionType returnType arguments => NoStandIn w returnType ∧ NoStandIn w arguments
  | _, .typeString length kind => NoStandIn w length ∧ NoStandIn w kind
  | _, .typeComplex kind base => NoStandIn w kind ∧ NoStandIn w base
  | _, .typeImaginary kind base => NoStandIn w kind ∧ NoStandIn w base
  | _, .consType t ts => NoStandIn w t ∧ NoStandIn w ts
  | _, _ => True

/-- The condition on a tree for looking the same in a view after the round trip. -/
def Kept (fortran : Bool) : {s : Srt} → View → Sg F s → Prop
  | _, w, .value v paren orig =>
      (w.value = true → v.Exact) ∧ (w.paren = true → paren = false) ∧
        (w.orig = true → if fortran then orig = .noExpr else Kept fortran .full orig)
  | _, w, .complexVal paren real imag orig =>
      -- A real part alone is taken for the imaginary one, and a value in the
      -- place of the original tree for a part that is missing.
      (w.paren = true → paren = false) ∧ (w.orig = true → orig = .noExpr) ∧ imag ≠ .noVal ∧
        (real = .noVal → valsOfOrig orig = []) ∧ Kept fortran w real ∧ Kept fortran w imag
  | _, w, .exprListExp _ es => Kept fortran w es
  | _, w, .ofVal v => Kept fortran w v
  | _, w, .ofList l => Kept fortran w l
  | _, w, .varRefExp _ _ orig =>
      w.orig = true → if fortran then orig = .noExpr else Kept fortran .full orig
  | _, w, .functionRefExp _ _ orig =>
      w.orig = true → if fortran then orig = .noExpr else Kept fortran .full orig
  | _, w, .binaryOp _ _ lhs rhs orig =>
      (w.orig = true → orig = .noExpr) ∧ Kept fortran w lhs ∧ Kept fortran w rhs
  | _, w, .unaryOp _ _ operand orig => (w.orig = true → orig = .noExpr) ∧ Kept fortran w operand
  | _, w, .unaryModeOp _ _ _ operand orig =>
      (w.orig = true → orig = .noExpr) ∧ Kept fortran w operand
  | _, w, .conditionalExp _ cond tstmt fstmt orig =>
      (w.orig = true → orig = .noExpr) ∧ Kept fortran w cond ∧ Kept fortran w tstmt ∧
        Kept fortran w fstmt
  | _, w, .subscriptExpression _ low upp str =>
      Kept fortran w low ∧ Kept fortran w upp ∧ Kept fortran w str
  | _, w, .functionCallExp _ function args orig =>
      -- A list in the place of the function is taken for the arguments.
      (w.orig = true → orig = .noExpr) ∧ Kept fortran w function ∧
        match isExprList (some function) with
        | some l => erase w l = erase w args
        | none => Kept fortran w args
  | _, w, .castExp _ implicit _ operand type orig =>
      (w.orig = true → implicit = false ∧ orig = .noExpr) ∧ (w.mark = true → implicit = false) ∧
        Kept fortran w operand ∧ (w.types = true → Kept fortran w type)
  | _, w, .actualArgumentExpression _ _ e => Kept fortran w e
  | _, w, .anExpr e => Kept fortran w e
  | _, w, .aVal v => Kept fortran w v
  | _, w, .aList l => Kept fortran w l
  | _, w, .consExpr e es => Kept fortran w e ∧ Kept fortran w es
  | _, w, .primType _ kind => Kept fortran w kind
  | _, w, .pointerType base => Kept fortran w base
  | _, w, .referenceType base => Kept fortran w base
  | _, w, .modifierType _ cv base => cv ≠ .constVolatile ∧ Kept fortran w base
  | _, w, .arrayType _ base dimInfo index =>
      (index = .noExpr → dimInfo = .noList) ∧ Kept fortran w base ∧ Kept fortran w dimInfo ∧
        Kept fortran w index
  | _, w, .functionType returnType arguments =>
      Kept fortran w returnType ∧ Kept fortran w arguments
  | _, w, .typeString length kind =>
      length ≠ .noExpr ∧ Kept fortran w length ∧ Kept fortran w kind
  | _, w, .typeComplex kind base => Kept fortran w kind ∧ Kept fortran w base
  | _, w, .typeImaginary kind base => Kept fortran w kind ∧ Kept fortran w base
  | _, w, .consType t ts => Kept fortran w t ∧ Kept fortran w ts
  | _, _, _ => True

/-- A tree looks the same after the round trip. -/
def Survives (fortran : Bool) (w : View) {s : Srt} (n : Sg F s) : Prop :=
  erase w (normal fortran n) = erase w n ∧ (w.strict = true → NoStandIn w (normal fortran n))

/-- The full view forgets nothing. -/
@[simp]
theorem erase_full {s : Srt} (n : Sg F s) : erase .full n = n := by
  induction n with
  | _ => simp only [erase, View.full, if_true, Bool.true_and] at * <;> simp only [*]

/-- To survive in the full view is to come back unchanged. -/
theorem survives_full (fortran : Bool) {s : Srt} (n : Sg F s) :
    Survives fortran .full n ↔ normal fortran n = n := by
  rw [Survives, erase_full, erase_full]
  exact and_iff_left fun h => absurd h (by decide)

section Features

theorem CV.back_eq_self_iff (cv : CV) : cv.back = cv ↔ cv ≠ .constVolatile := by
  cases cv <;> decide

theorem blank_iff (b : Bool) (v : Value F) :
    (if b then v.back else v.back.cls.blank) = (if b then v else v.cls.blank) ↔
      (b = true → v.Exact) := by
  cases b <;> simp [Value.back_eq_self_iff]

/-- A dropped flag. -/
theorem noParen_iff (b paren : Bool) : (b && false) = (b && paren) ↔
    (b = true → paren = false) := by
  cases b <;> cases paren <;> decide

/-- A dropped original tree. -/
theorem noOrig_iff (b : Bool) (orig : Sg F .opt) :
    (if b then .noExpr else .noExpr) = (if b then orig else .noExpr) ↔
      (b = true → orig = .noExpr) := by
  cases b <;> simp [eq_comm]

/-- The original tree of a node without operands is dropped in Fortran. -/
theorem leafOrig_iff (fortran b : Bool) {orig : Sg F .opt} {P : Prop}
    (h : Survives fortran .full orig ↔ P) :
    (if b then (if fortran then .noExpr else normal fortran orig) else .noExpr) =
        (if b then orig else .noExpr) ↔
      (b = true → if fortran then orig = .noExpr else P) := by
  rw [survives_full] at h
  cases b <;> cases fortran <;> simp [h, eq_comm]

/-- The original tree of a rebuilt cast is its operand or nothing. -/
theorem castOrig_iff (w : View) (implicit : Bool) (operand : Sg F .expr) (orig : Sg F .opt) :
    ((w.mark && false) = (w.mark && implicit) ∧
        (if w.orig then (if implicit then Sg.anExpr operand else .noExpr) else .noExpr) =
          (if w.orig then orig else .noExpr)) ∧
      (w.strict = true → (if implicit then Sg.anExpr operand else .noExpr) ≠ Sg.anExpr operand) ↔
    (w.orig = true → implicit = false ∧ orig = .noExpr) ∧ (w.mark = true → implicit = false) := by
  unfold View.strict
  cases w.orig <;> cases w.mark <;> cases implicit <;> simp [eq_comm]

theorem castType_iff (fortran : Bool) (w : View) {type : Sg F .typ} {P : Prop}
    (h : Survives fortran w type ↔ P) :
    (if w.types then erase w (normal fortran type) else .plainType .default) =
        (if w.types then erase w type else .plainType .default) ∧
      (w.strict = true → w.types = true → NoStandIn w (normal fortran type)) ↔
    (w.types = true → P) := by
  rw [← h, Survives]
  cases w.types <;> simp

theorem valsOfOrig_normal (fortran : Bool) (orig : Sg F .opt) :
    valsOfOrig (normal fortran orig) = (valsOfOrig orig).map (normal fortran) := by
  cases orig with
  | noExpr => rfl
  | anExpr e => cases e <;> rfl

theorem isExprList_normal (fortran : Bool) (f : Sg F .expr) :
    isExprList (some (normal fortran f)) = (isExprList (some f)).map (normal fortran) := by
  cases f <;> rfl

theorem eq_ofList_of_isExprList {f : Sg F .expr} {l : Sg F .list}
    (h : isExprList (some f) = some l) : f = .ofList l := by
  cases f <;> simp_all [isExprList]

end Features

section Nodes

variable (fortran : Bool) (w : View)

/-- A rebuilt complex constant has an imaginary part, and no real part only if
    a single value was found. -/
theorem survives_complexVal (paren : Bool) {real imag : Sg F .optVal} (orig : Sg F .opt)
    (hr : Survives fortran w real ↔ Kept fortran w real)
    (hi : Survives fortran w imag ↔ Kept fortran w imag) :
    Survives fortran w (.complexVal paren real imag orig) ↔
      Kept fortran w (.complexVal paren real imag orig) := by
  simp only [Survives, normal, Kept, valsOfOrig_normal] at hr hi ⊢
  cases imag with
  | noVal =>
      -- The writer puts down at most one part, which is not taken for this one.
      have hne : ∀ vs, erase w (rebuildComplex (optVals (normal fortran real) ++ vs)) ≠
          erase w (.complexVal paren real .noVal orig) := by
        intro vs
        cases real with
        | noVal => rcases vs with _ | ⟨v, _ | ⟨v', vs⟩⟩ <;>
            simp [normal, optVals, rebuildComplex, erase]
        | aVal r => rcases vs with _ | ⟨v, vs⟩ <;> simp [normal, optVals, rebuildComplex, erase]
      simp [hne]
  | aVal i =>
      simp only [normal, erase, NoStandIn, Sg.aVal.injEq] at hi
      rw [← hi]
      cases real with
      | noVal =>
          simp only [normal, optVals, List.nil_append, List.singleton_append, Kept]
          cases valsOfOrig orig with
          | nil =>
              simp only [rebuildComplex, List.map_nil, erase, NoStandIn, noParen_iff, noOrig_iff,
                Sg.complexVal.injEq, Sg.aVal.injEq]
              simp [and_assoc, and_left_comm]
          | cons v vs => simp [rebuildComplex, erase]
      | aVal r =>
          simp only [normal, erase, NoStandIn, Sg.aVal.injEq] at hr
          rw [← hr]
          simp only [normal, optVals, List.singleton_append, rebuildComplex, erase, NoStandIn,
            noParen_iff, noOrig_iff, Sg.complexVal.injEq, Sg.aVal.injEq]
          simp [imp_and, and_assoc, and_comm, and_left_comm]

/-- A rebuilt call takes its arguments from a function that is a list. -/
theorem survives_functionCallExp (paren : Bool) {function : Sg F .expr} {args : Sg F .list}
    (orig : Sg F .opt) (hf : Survives fortran w function ↔ Kept fortran w function)
    (ha : Survives fortran w args ↔ Kept fortran w args) :
    Survives fortran w (.functionCallExp paren function args orig) ↔
      Kept fortran w (.functionCallExp paren function args orig) := by
  have hargs : rebuildArgs (normal fortran function) (normal fortran args) =
      ((isExprList (some function)).map (normal fortran)).getD (normal fortran args) := by
    rw [rebuildArgs, isExprList_normal]
  simp only [Kept, ← hf, ← ha]
  simp only [Survives, normal, hargs, erase, NoStandIn, Sg.functionCallExp.injEq, noOrig_iff,
    ne_eq, reduceCtorEq, not_false_eq_true, true_and, and_self]
  cases hlist : isExprList (some function) with
  | some l =>
      obtain rfl := eq_ofList_of_isExprList hlist
      simp only [Option.map_some, Option.getD_some, normal, erase, NoStandIn, and_self,
        Sg.ofList.injEq]
      constructor
      · rintro ⟨⟨hl, hlargs, horig⟩, hstand⟩
        exact ⟨horig, ⟨hl, hstand⟩, hl ▸ hlargs⟩
      · rintro ⟨horig, ⟨hl, hstand⟩, hlargs⟩
        exact ⟨⟨hl, hl.trans hlargs, horig⟩, hstand⟩
  | none => simp only [Option.map_none, Option.getD_none, imp_and, and_assoc, and_left_comm]

theorem survives_castExp (ctype : CInt) (implicit paren : Bool) {operand : Sg F .expr}
    {type : Sg F .typ} (orig : Sg F .opt)
    (he : Survives fortran w operand ↔ Kept fortran w operand)
    (ht : Survives fortran w type ↔ Kept fortran w type) :
    Survives fortran w (.castExp ctype implicit paren operand type orig) ↔
      Kept fortran w (.castExp ctype implicit paren operand type orig) := by
  simp only [Kept, ← he, ← castType_iff fortran w ht, ← and_assoc,
    ← castOrig_iff w implicit (normal fortran operand) orig]
  simp only [Survives, normal, erase, NoStandIn, Sg.castExp.injEq, true_and, imp_and, and_assoc,
    and_comm, and_left_comm]

/-- Dimensions without an index come back as the index. -/
theorem survives_arrayType (rank : CInt) {base : Sg F .typ} {dimInfo : Sg F .optList}
    {index : Sg F .opt} (hb : Survives fortran w base ↔ Kept fortran w base)
    (hd : Survives fortran w dimInfo ↔ Kept fortran w dimInfo)
    (hi : Survives fortran w index ↔ Kept fortran w index) :
    Survives fortran w (.arrayType rank base dimInfo index) ↔
      Kept fortran w (.arrayType rank base dimInfo index) := by
  simp only [Kept, ← hb, ← hd, ← hi]
  simp only [Survives, normal]
  cases dimInfo with
  | noList =>
      simp only [normal, normalArray, erase, NoStandIn, Sg.arrayType.injEq, imp_true_iff, true_and,
        imp_and, and_assoc, and_comm, and_left_comm]
  | aList l =>
      cases index with
      | noExpr =>
          simp only [normal, normalArray, erase, Sg.arrayType.injEq, reduceCtorEq, and_false,
            false_and, imp_false, not_true_eq_false]
      | anExpr e =>
          simp only [normal, normalArray, erase, NoStandIn, Sg.arrayType.injEq, reduceCtorEq,
            true_and, imp_and, and_assoc, and_comm, and_left_comm, IsEmpty.forall_iff]

theorem survives_typeString {length kind : Sg F .opt}
    (hl : Survives fortran w length ↔ Kept fortran w length)
    (hk : Survives fortran w kind ↔ Kept fortran w kind) :
    Survives fortran w (.typeString length kind) ↔ Kept fortran w (.typeString length kind) := by
  simp only [Kept, ← hl, ← hk]
  simp only [Survives, normal]
  cases length with
  | noExpr => simp [normal, erase, lengthBack]
  | anExpr e =>
      simp only [normal, lengthBack, erase, NoStandIn, Sg.typeString.injEq, ne_eq, reduceCtorEq,
        not_false_eq_true, true_and, imp_and, and_assoc, and_left_comm]

end Nodes

/-- The trees that look the same after the round trip, for every view. -/
theorem survives_iff (fortran : Bool) {s : Srt} (n : Sg F s) (w : View) :
    Survives fortran w n ↔ Kept fortran w n := by
  -- Classes with a slot of their own have a lemma; the others pass the view on to their parts.
  induction n generalizing w with
  | value v paren orig ih =>
      simp only [Survives, erase, normal, NoStandIn, Kept, Sg.value.injEq,
        leafOrig_iff fortran w.orig (ih .full), noParen_iff, blank_iff, imp_true_iff, and_true]
  | varRefExp name paren orig ih =>
      simp only [Survives, erase, normal, NoStandIn, Kept, Sg.varRefExp.injEq,
        leafOrig_iff fortran w.orig (ih .full), imp_true_iff, true_and, and_true]
  | functionRefExp name paren orig ih =>
      simp only [Survives, erase, normal, NoStandIn, Kept, Sg.functionRefExp.injEq,
        leafOrig_iff fortran w.orig (ih .full), imp_true_iff, true_and, and_true]
  | complexVal paren real imag orig ihr ihi iho =>
      exact survives_complexVal fortran w paren orig (ihr w) (ihi w)
  | functionCallExp paren function args orig ihf iha iho =>
      exact survives_functionCallExp fortran w paren orig (ihf w) (iha w)
  | castExp ctype implicit paren operand type orig ihe iht iho =>
      exact survives_castExp fortran w ctype implicit paren orig (ihe w) (iht w)
  | arrayType rank base dimInfo index ihb ihd ihi =>
      exact survives_arrayType fortran w rank (ihb w) (ihd w) (ihi w)
  | typeString length kind ihl ihk => exact survives_typeString fortran w (ihl w) (ihk w)
  | modifierType modifier cv base ih =>
      simp only [Kept, ← ih w]
      simp only [Survives, erase, normal, NoStandIn, Sg.modifierType.injEq, CV.back_eq_self_iff,
        true_and, and_assoc]
  | binaryOp op paren lhs rhs orig ihl ihr iho =>
      simp only [Kept, ← ihl w, ← ihr w]
      simp only [Survives, erase, normal, NoStandIn, Sg.binaryOp.injEq, noOrig_iff, ne_eq,
        reduceCtorEq, not_false_eq_true, and_self, true_and, imp_and, and_assoc, and_left_comm]
  | unaryOp op paren operand orig ih iho =>
      simp only [Kept, ← ih w]
      simp only [Survives, erase, normal, NoStandIn, Sg.unaryOp.injEq, noOrig_iff, ne_eq,
        reduceCtorEq, not_false_eq_true, true_and, and_assoc, and_left_comm]
  | unaryModeOp op mode paren operand orig ih iho =>
      simp only [Kept, ← ih w]
      simp only [Survives, erase, normal, NoStandIn, Sg.unaryModeOp.injEq, noOrig_iff, ne_eq,
        reduceCtorEq, not_false_eq_true, true_and, and_assoc, and_left_comm]
  | conditionalExp paren cond tstmt fstmt orig ihc iht ihf iho =>
      simp only [Kept, ← ihc w, ← iht w, ← ihf w]
      simp only [Survives, erase, normal, NoStandIn, Sg.conditionalExp.injEq, noOrig_iff, ne_eq,
        reduceCtorEq, not_false_eq_true, and_self, true_and, imp_and, and_assoc, and_left_comm]
  | subscriptExpression paren low upp str ihl ihu ihs =>
      simp only [Kept, ← ihl w, ← ihu w, ← ihs w]
      simp only [Survives, erase, normal, NoStandIn, Sg.subscriptExpression.injEq, true_and,
        imp_and, and_assoc, and_left_comm]
  | ofVal n ih | ofList n ih | anExpr n ih | aVal n ih | aList n ih | pointerType n ih
  | referenceType n ih | primType p n ih | exprListExp paren n ih
  | actualArgumentExpression name paren n ih =>
      simp only [Kept, ← ih w]
      simp only [Survives, erase, normal, NoStandIn, Sg.ofVal.injEq, Sg.ofList.injEq,
        Sg.anExpr.injEq, Sg.aVal.injEq, Sg.aList.injEq, Sg.pointerType.injEq,
        Sg.referenceType.injEq, Sg.primType.injEq, Sg.exprListExp.injEq,
        Sg.actualArgumentExpression.injEq, true_and]
  | consExpr m n ihm ihn | functionType m n ihm ihn | typeComplex m n ihm ihn
  | typeImaginary m n ihm ihn | consType m n ihm ihn =>
      simp only [Kept, ← ihm w, ← ihn w]
      simp only [Survives, erase, normal, NoStandIn, Sg.consExpr.injEq, Sg.functionType.injEq,
        Sg.typeComplex.injEq, Sg.typeImaginary.injEq, Sg.consType.injEq, imp_and, and_assoc,
        and_left_comm]
  | labelRefExp | atom | noExpr | noVal | noList | nilExpr | plainType | nilType =>
      simp only [Survives, erase, normal, NoStandIn, Kept, imp_true_iff, and_self]

/-- The trees that come back unchanged. -/
theorem normal_eq_self_iff (fortran : Bool) {s : Srt} (n : Sg F s) :
    normal fortran n = n ↔ Kept fortran .full n := by
  rw [← survives_full, survives_iff]

end XevXml
