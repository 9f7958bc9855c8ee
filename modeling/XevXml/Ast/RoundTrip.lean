import XevXml.Ast.Read

/-!
# Writing and Reading

What becomes of an expression or a type that is written and read back. The
answer is the function `back`, defined by recursion on the tree, and the main
theorem says that running the writer and then the reader computes it. Every
result about the round trip is thereby a result about `back`, and the document
in between is not seen again.

`back` fails where reader or writer abort. It does not say with which message,
because on a tree with several defects the writer may abort before the reader
gets to the first one.

The proof is an induction over the tree with one case for each constructor.
The writer puts pieces together with `both` and `element`, the reader takes
them apart again by `visitAll_append` and `visit_elem`, and what remains in
each case is the reader of one class on the nodes of its operands.

## Main definitions

* `roundTrip`: The writer followed by the reader.
* `attached`: A node that needs a parent.
* `rebuildComplex`, `rebuildArgs`, `rebuildArray`: What single readers rebuild.
* `back`: The tree that is read back.

## Theorems

* `reread_both`, `reread_element`: Reading what the writer put together.
* `roundTrip_toOption`: The round trip computes `back`.
* `roundTrip_expr_iff`, `roundTrip_type_iff`: The round trip of one tree.
-/

namespace XevXml

variable {F : Type} [FloatStream F]

/-- The reader on what the writer wrote, without the message of an abort. -/
def reread (par : Bool) (x : Fragment) : Option (List (Node F)) :=
  (x >>= visitAll par).toOption

/-- The writer followed by the reader. -/
def roundTrip (fortran par : Bool) {s : Srt} (n : Sg F s) :
    Except Fatal (List (Node F)) :=
  write fortran n >>= visitAll par

/-- A node that is read only if it has a parent. -/
def attached {α : Type} (par : Bool) (n : α) : Option α := if par then some n else none

/-- The value an optional original tree is. -/
def valsOfOrig : Sg F .opt → List (Sg F .val)
  | .anExpr (.ofVal v) => [v]
  | _ => []

/-- The complex constant rebuilt from the values found below it: the first two
    are its parts, and a single one is the imaginary part. -/
def rebuildComplex (vs : List (Sg F .val)) : Sg F .val :=
  let zero : Sg F .val := .value Value.zero false .noExpr
  match vs with
  | [] => .complexVal false (.aVal zero) (.aVal zero) .noExpr
  | [v] => .complexVal false .noVal (.aVal v) .noExpr
  | real :: imag :: _ => .complexVal false (.aVal real) (.aVal imag) .noExpr

/-- The arguments of a rebuilt call: a function that is a list is taken for
    the arguments as well. -/
def rebuildArgs (function : Sg F .expr) (args : Sg F .list) : Sg F .list :=
  (isExprList (some function)).getD args

/-- The array type rebuilt from its parts: dimensions without an index end up
    as the index, and dimensions with one must be as many as the rank. -/
def rebuildArray (rank : CInt) (base : Sg F .typ) :
    Sg F .optList → Sg F .opt → Option (Sg F .typ)
  | .noList, index => some (.arrayType rank base .noList index)
  | .aList l, .noExpr => some (.arrayType rank base .noList (.anExpr (.ofList l)))
  | .aList l, .anExpr e =>
      if rank.1 = listLength l then some (.arrayType rank base (.aList l) (.anExpr e)) else none

/-- The modifier setting that is rebuilt. -/
def CV.back : CV → CV
  | const => const
  | volatile => volatile
  | _ => default

/-- The length that is rebuilt: a string type without one gets an asterisk. -/
def lengthBack : Sg F .opt → Sg F .opt
  | .noExpr => .anExpr (.atom .asteriskShapeExp false)
  | .anExpr e => .anExpr e

/-- The tree that is read back, if any. -/
def back (fortran : Bool) : {s : Srt} → (par : Bool) → Sg F s → Option (Sg F s)
  | _, par, .value v _ orig => do
      let orig ← if fortran then some .noExpr else back fortran true orig
      attached par (.value v.back false orig)
  | _, par, .complexVal _ real imag orig => do
      let real ← back fortran par real
      let imag ← back fortran par imag
      let orig ← back fortran par orig
      attached par (rebuildComplex (optVals real ++ (optVals imag ++ valsOfOrig orig)))
  | _, par, .exprListExp paren es => do
      let es ← back fortran true es
      attached par (.exprListExp paren es)
  | _, par, .ofVal v => (back fortran par v).map .ofVal
  | _, par, .ofList l => (back fortran par l).map .ofList
  | _, par, .varRefExp name paren orig => do
      let orig ← if fortran then some .noExpr else back fortran true orig
      attached par (.varRefExp name paren orig)
  | _, par, .functionRefExp name paren orig => do
      let orig ← if fortran then some .noExpr else back fortran true orig
      attached par (.functionRefExp name paren orig)
  | _, par, .labelRefExp ltype nlabel paren => attached par (.labelRefExp ltype nlabel paren)
  | _, par, .atom a paren => attached par (.atom a paren)
  | _, par, .binaryOp op paren lhs rhs orig => do
      let lhs ← back fortran true lhs
      let rhs ← back fortran true rhs
      let _ ← back fortran true orig
      attached par (.binaryOp op paren lhs rhs .noExpr)
  | _, par, .unaryOp op paren operand _ => do
      let operand ← back fortran par operand
      attached par (.unaryOp op paren operand .noExpr)
  | _, par, .unaryModeOp op mode paren operand _ => do
      let operand ← back fortran par operand
      attached par (.unaryModeOp op mode paren operand .noExpr)
  | _, par, .conditionalExp paren cond tstmt fstmt orig => do
      let cond ← back fortran par cond
      let tstmt ← back fortran par tstmt
      let fstmt ← back fortran par fstmt
      let _ ← back fortran par orig
      attached par (.conditionalExp paren cond tstmt fstmt .noExpr)
  | _, par, .subscriptExpression paren low upp str => do
      let low ← back fortran par low
      let upp ← back fortran par upp
      let str ← back fortran par str
      attached par (.subscriptExpression paren low upp str)
  | _, par, .functionCallExp paren function args orig => do
      let function ← back fortran true function
      let args ← back fortran true args
      let _ ← back fortran true orig
      attached par (.functionCallExp paren function (rebuildArgs function args) .noExpr)
  | _, par, .castExp ctype implicit paren operand type orig => do
      let operand ← back fortran par operand
      let type ← back fortran par type
      let _ ← back fortran par orig
      attached par (.castExp ctype false paren operand type
        (if implicit then .anExpr operand else .noExpr))
  | _, par, .actualArgumentExpression name paren e => do
      let e ← back fortran par e
      attached par (.actualArgumentExpression name paren e)
  | _, _, .noExpr => some .noExpr
  | _, par, .anExpr e => (back fortran par e).map .anExpr
  | _, _, .noVal => some .noVal
  | _, par, .aVal v => (back fortran par v).map .aVal
  | _, _, .noList => some .noList
  | _, par, .aList l => (back fortran par l).map .aList
  | _, _, .nilExpr => some .nilExpr
  | _, par, .consExpr e es => do
      let e ← back fortran par e
      let es ← back fortran par es
      return .consExpr e es
  | _, par, .primType p kind => (back fortran par kind).map (.primType p)
  | _, _, .plainType p => some (.plainType p)
  | _, _, .pointerType base => (back fortran true base).map .pointerType
  | _, _, .referenceType _ => none
  | _, _, .modifierType modifier cv base =>
      (back fortran false base).map (.modifierType modifier cv.back)
  | _, _, .arrayType rank base dimInfo index => do
      let base ← back fortran true base
      let dimInfo ← back fortran true dimInfo
      let index ← back fortran true index
      rebuildArray rank base dimInfo index
  | _, par, .functionType returnType arguments => do
      let returnType ← back fortran par returnType
      let arguments ← back fortran par arguments
      attached par (.functionType returnType arguments)
  | _, par, .typeString length kind => do
      let length ← back fortran par length
      let kind ← back fortran par kind
      return .typeString (lengthBack length) kind
  | _, par, .typeComplex kind base => do
      let kind ← back fortran par kind
      let base ← back fortran par base
      return .typeComplex kind base
  | _, par, .typeImaginary kind base => do
      let kind ← back fortran par kind
      let base ← back fortran par base
      return .typeImaginary kind base
  | _, _, .nilType => some .nilType
  | _, par, .consType t ts => do
      let t ← back fortran par t
      let ts ← back fortran par ts
      return .consType t ts

section Pieces

/-- Forgetting the message of an abort commutes with sequencing. -/
theorem toOption_bind {α β : Type} (x : Except Fatal α) (f : α → Except Fatal β) :
    (x >>= f).toOption = x.toOption.bind fun a => (f a).toOption := by
  cases x <;> rfl

@[simp]
theorem toOption_pure {α : Type} (a : α) : (pure a : Except Fatal α).toOption = some a := rfl

@[simp]
theorem toOption_ok {α : Type} (a : α) : (Except.ok a : Except Fatal α).toOption = some a := rfl

@[simp]
theorem toOption_error {α : Type} (e : Fatal) : (Except.error e : Except Fatal α).toOption = none :=
  rfl

@[simp]
theorem reread_ok (par : Bool) (a : List Xml) :
    reread (F := F) par (.ok a) = (visitAll par a).toOption := rfl

@[simp]
theorem reread_error (par : Bool) (e : Fatal) : reread (F := F) par (.error e) = none := rfl

@[simp]
theorem reread_nothing (par : Bool) : reread (F := F) par nothing = some [] := rfl

/-- Reading two pieces is reading the one and then the other, for every reader
    that reads the nodes of a sequence one by one. -/
theorem toOption_both {α : Type} {v : List Xml → Except Fatal (List α)}
    (hv : ∀ a b, v (a ++ b) = (do
      let m ← v a
      let n ← v b
      return m ++ n)) (x y : Fragment) :
    (both x y >>= v).toOption = (do
      let m ← (x >>= v).toOption
      let n ← (y >>= v).toOption
      return m ++ n) := by
  have hok : ∀ a, (Except.ok a >>= v : Except Fatal (List α)) = v a := fun _ => rfl
  cases x with
  | error e => rfl
  | ok a =>
      cases y with
      | error e =>
          have h : both (.ok a) (.error e) = .error e := rfl
          have herr : (Except.error e >>= v).toOption = none := rfl
          simp [h, herr]
      | ok b =>
          have h : both (.ok a) (.ok b) = .ok (a ++ b) := rfl
          rw [h, hok, hok, hok, hv, toOption_bind]
          simp only [toOption_bind, toOption_pure]
          rfl

theorem reread_both (par : Bool) (x y : Fragment) :
    reread (F := F) par (both x y) = (do
      let a ← reread par x
      let b ← reread par y
      return a ++ b) :=
  toOption_both (visitAll_append par) x y

/-- Reading an element whose class looks at its children. -/
theorem reread_element (par : Bool) {c : Cls} {attrs : Attrs} (x : Fragment)
    (hneed : needAttrs c attrs = .ok ()) (hvisits : c.visitsChildren = true) :
    reread (F := F) par (element c attrs x) = (do
      let kids ← reread (c.childParent par) x
      let n ← (build c attrs kids).toOption
      (checkParent par n).toOption.map ([·])) := by
  cases x with
  | error e => rfl
  | ok children =>
      have h : element c attrs (.ok children) = .ok [.elem c.name attrs children] := rfl
      rw [h, reread_ok, reread_ok]
      simp only [visitAll, visit_elem, hneed, hvisits, if_true, toOption_bind, toOption_pure,
        toOption_ok, Option.bind_some, Option.bind_assoc, Option.map_eq_bind]
      rfl

/-- Reading an element whose class does not look at its children. -/
theorem reread_element_leaf (par : Bool) {c : Cls} {attrs : Attrs}
    (hneed : needAttrs c attrs = .ok ()) (hvisits : c.visitsChildren = false) :
    reread (F := F) par (element c attrs nothing) = (do
      let n ← (build c attrs []).toOption
      (checkParent par n).toOption.map ([·])) := by
  have h : element c attrs nothing = .ok [.elem c.name attrs []] := rfl
  rw [h, reread_ok]
  simp only [visitAll, visit_elem, hneed, hvisits, Bool.false_eq_true, if_false, toOption_bind,
    toOption_pure, toOption_ok, Option.bind_some, Option.bind_assoc, Option.map_eq_bind]
  rfl

end Pieces

section Attributes

@[simp]
theorem getFlag_nil (name : String) : getFlag [] name = false := rfl

theorem getFlag_cons_of_ne {key name : String} (h : (name == key) = false) (v : Text)
    (rest : Attrs) : getFlag ((key, v) :: rest) name = getFlag rest name := by
  have hint : getInt ((key, v) :: rest) name = getInt rest name := by
    simp [getInt, List.lookup_cons, h]
  rw [getFlag, getFlag, hint]

@[simp]
theorem getFlag_parenAttr (paren : Bool) : getFlag (parenAttr paren) "paren" = paren := by
  cases paren <;> rfl

/-- Values are written without the flag for parentheses. -/
theorem getFlag_attribs (v : Value F) :
    getFlag (v.attribs id) "paren" = false := by
  cases v with
  | int t n => simp [Value.attribs, IntType.attrib, attribVal_id, getFlag_cons_of_ne]
  | float k n => simp [Value.attribs, attribVal_id, getFlag_cons_of_ne]
  | char v => simp [Value.attribs, getFlag_cons_of_ne]
  | unsignedChar v => simp [Value.attribs, getFlag_cons_of_ne]
  | bool v => simp [Value.attribs, getFlag_cons_of_ne]
  | string v =>
      obtain ⟨value, single, wchar, string16, string32⟩ := v
      cases single <;> cases wchar <;> cases string16 <;> cases string32 <;>
        simp [Value.attribs, attribSgStringVal, flagAttr, getFlag_cons_of_ne]
  | enum v => simp [Value.attribs, getFlag_cons_of_ne]

end Attributes

@[simp]
theorem ofExprs_exprsList : (es : Sg F .exprs) → ofExprs (exprsList es) = es
  | .nilExpr => rfl
  | .consExpr e es => by rw [exprsList, ofExprs, ofExprs_exprsList es]

@[simp]
theorem ofTypes_typesList : (ts : Sg F .typs) → ofTypes (typesList ts) = ts
  | .nilType => rfl
  | .consType t ts => by rw [typesList, ofTypes, ofTypes_typesList ts]

section Kinds

variable (e : Sg F .expr) (v : Sg F .val) (l : Sg F .list) (o : Sg F .opt) (ov : Sg F .optVal)
  (ol : Sg F .optList) (es : Sg F .exprs) (t : Sg F .typ) (ts : Sg F .typs)

@[simp]
theorem exprs_expr : (toNodes e).filterMap Node.isSgExpression = [e] := rfl

@[simp]
theorem exprs_val : (toNodes v).filterMap Node.isSgExpression = [.ofVal v] := rfl

@[simp]
theorem exprs_list : (toNodes l).filterMap Node.isSgExpression = [.ofList l] := rfl

@[simp]
theorem exprs_opt : (toNodes o).filterMap Node.isSgExpression = optExprs o := by
  cases o <;> rfl

@[simp]
theorem exprs_exprs : (toNodes es).filterMap Node.isSgExpression = exprsList es := by
  have h : ∀ l : List (Sg F .expr), (l.map Node.expr).filterMap Node.isSgExpression = l := by
    intro l
    induction l with
    | nil => rfl
    | cons e l ih => simp only [List.map_cons, List.filterMap_cons, Node.isSgExpression, ih]
  exact h (exprsList es)

@[simp]
theorem exprs_typ : (toNodes t).filterMap Node.isSgExpression = [] := rfl

@[simp]
theorem types_expr : (toNodes e).filterMap Node.isSgType = [] := rfl

@[simp]
theorem types_opt : (toNodes o).filterMap Node.isSgType = [] := by
  cases o <;> rfl

@[simp]
theorem types_typ : (toNodes t).filterMap Node.isSgType = [t] := rfl

@[simp]
theorem types_typs : (toNodes ts).filterMap Node.isSgType = typesList ts := by
  have h : ∀ l : List (Sg F .typ), (l.map Node.type).filterMap Node.isSgType = l := by
    intro l
    induction l with
    | nil => rfl
    | cons t l ih => simp only [List.map_cons, List.filterMap_cons, Node.isSgType, ih]
  exact h (typesList ts)

@[simp]
theorem vals_optVal : (toNodes ov).filterMap Node.isSgValueExp = optVals ov := by
  cases ov <;> rfl

@[simp]
theorem vals_opt : (toNodes o).filterMap Node.isSgValueExp = valsOfOrig o := by
  cases o with
  | noExpr => rfl
  | anExpr e => cases e <;> rfl

@[simp]
theorem lists_expr : (toNodes e).filterMap Node.isSgExprListExp = (isExprList (some e)).toList := by
  cases e <;> rfl

@[simp]
theorem lists_list : (toNodes l).filterMap Node.isSgExprListExp = [l] := rfl

@[simp]
theorem ofSlot_head : ofSlot (optExprs o).head? = o := by
  cases o <;> rfl

end Kinds

section Parents

variable (par : Bool)

theorem deliver_expr (e : Sg F .expr) :
    (checkParent par (.expr e)).toOption.map ([·]) = (attached par e).map toNodes := by
  cases par <;> rfl

theorem deliver_val (v : Sg F .val) :
    (checkParent par (.expr (.ofVal v))).toOption.map ([·]) = (attached par v).map toNodes := by
  cases par <;> rfl

theorem deliver_list (l : Sg F .list) :
    (checkParent par (.expr (.ofList l))).toOption.map ([·]) = (attached par l).map toNodes := by
  cases par <;> rfl

theorem deliver_type (t : Sg F .typ) :
    (checkParent par (.type t)).toOption.map ([·]) = some (toNodes t) := rfl

theorem deliver_params (ts : Sg F .typs) :
    (checkParent par (.functionParameterTypeList ts)).toOption.map ([·]) =
      (attached par ts).map fun ts => [Node.functionParameterTypeList ts] := by
  cases par <;> rfl

end Parents

section RoundTrip

theorem reread_write (fortran : Bool) {s : Srt} (n : Sg F s) (par : Bool) :
    reread par (write fortran n) = (back fortran par n).map toNodes := by
  induction n generalizing par with
  | value v paren orig ih =>
      rw [write, reread_element par (c := .value v.cls) _ (needValueAttrs_attribs v) rfl]
      cases fortran with
      | true =>
          simp [leafInode, back, build, visitValue_attribs, getFlag_attribs, Slots.first_eq,
            ofSlot, deliver_val]
      | false =>
          simp only [leafInode, Bool.false_eq_true, if_false, Cls.childParent, ih, back]
          rcases back false true orig with _ | o
          · rfl
          simp [build, visitValue_attribs, getFlag_attribs, Slots.first_eq, deliver_val,
            -List.head?_filterMap]
  | complexVal paren real imag orig ihr ihi iho =>
      rw [write, reread_element par _ rfl rfl]
      simp only [Cls.childParent, reread_both, ihr, ihi, iho, back]
      rcases back fortran par real with _ | r
      · rfl
      rcases back fortran par imag with _ | i
      · rfl
      rcases back fortran par orig with _ | o
      · rfl
      -- Values may come from either part, so only the values in a row matter here.
      generalize hvs : optVals r ++ (optVals i ++ valsOfOrig o) = vs
      have hfill : Slots.fill Node.isSgValueExp 2 (toNodes r ++ (toNodes i ++ toNodes o)) =
          Slots.row 2 vs := by
        rw [← hvs]
        simp [Slots.fill_eq]
      rcases vs with _ | ⟨v, _ | ⟨w, vs⟩⟩ <;>
        simp [build, hfill, hvs, rebuildComplex, deliver_val]
  | exprListExp paren es ih =>
      rw [write, reread_element par _ rfl rfl]
      simp only [Cls.childParent, ih, back]
      rcases back fortran true es with _ | es'
      · rfl
      simp [build, deliver_list]
  | ofVal v ih =>
      rw [write, ih, back]
      rcases back fortran par v with _ | v' <;> rfl
  | ofList l ih =>
      rw [write, ih, back]
      rcases back fortran par l with _ | l' <;> rfl
  | varRefExp name paren orig ih =>
      rw [write, reread_element par _ rfl rfl]
      cases fortran with
      | true =>
          simp [leafInode, back, build, needString, getString, getFlag_cons_of_ne, Slots.first_eq,
            ofSlot, deliver_expr]
      | false =>
          simp only [leafInode, Bool.false_eq_true, if_false, Cls.childParent, ih, back]
          rcases back false true orig with _ | o
          · rfl
          simp [build, needString, getString, getFlag_cons_of_ne, Slots.first_eq, deliver_expr,
            -List.head?_filterMap]
  | functionRefExp name paren orig ih =>
      rw [write, reread_element par _ rfl rfl]
      cases fortran with
      | true =>
          simp [leafInode, back, build, needString, getString, getFlag_cons_of_ne, Slots.first_eq,
            ofSlot, deliver_expr]
      | false =>
          simp only [leafInode, Bool.false_eq_true, if_false, Cls.childParent, ih, back]
          rcases back false true orig with _ | o
          · rfl
          simp [build, needString, getString, getFlag_cons_of_ne, Slots.first_eq, deliver_expr,
            -List.head?_filterMap]
  | labelRefExp ltype nlabel paren =>
      rw [write, reread_element_leaf par rfl rfl, back]
      simp [build, getString, getFlag_cons_of_ne, List.lookup_cons, Numeral.Machine.read_print,
        deliver_expr]
  | atom a paren =>
      rw [write, reread_element_leaf par rfl rfl, back]
      simp [build, deliver_expr]
  | binaryOp op paren lhs rhs orig ihl ihr iho =>
      rw [write, reread_element par _ rfl rfl]
      simp only [Cls.childParent, reread_both, ihl, ihr, iho, back]
      rcases back fortran true lhs with _ | l
      · rfl
      rcases back fortran true rhs with _ | r
      · rfl
      rcases back fortran true orig with _ | o
      · rfl
      simp [build, Slots.fill_eq, deliver_expr]
  | unaryOp op paren operand orig ih iho =>
      rw [write, reread_element par _ rfl rfl]
      simp only [Cls.childParent, ih, back]
      rcases back fortran par operand with _ | e
      · rfl
      simp [build, Slots.first_eq, deliver_expr, -List.head?_filterMap]
  | unaryModeOp op mode paren operand orig ih iho =>
      rw [write, reread_element par _ rfl rfl]
      simp only [Cls.childParent, ih, back]
      rcases back fortran par operand with _ | e
      · rfl
      have hmode : getFlag (modeAttr mode ++ parenAttr paren) "mode" =
          decide (mode = .postfixMode) := by
        cases mode <;> cases paren <;> rfl
      have hparen : getFlag (modeAttr mode ++ parenAttr paren) "paren" = paren := by
        cases mode <;> cases paren <;> rfl
      cases mode <;>
        simp [build, hmode, hparen, Slots.first_eq, deliver_expr, -List.head?_filterMap]
  | conditionalExp paren cond tstmt fstmt orig ihc iht ihf iho =>
      rw [write, reread_element par _ rfl rfl]
      simp only [Cls.childParent, reread_both, ihc, iht, ihf, iho, back]
      rcases back fortran par cond with _ | c
      · rfl
      rcases back fortran par tstmt with _ | t
      · rfl
      rcases back fortran par fstmt with _ | f
      · rfl
      rcases back fortran par orig with _ | o
      · rfl
      simp [build, Slots.fill_eq, deliver_expr]
  | subscriptExpression paren low upp str ihl ihu ihs =>
      rw [write, reread_element par _ rfl rfl]
      simp only [Cls.childParent, reread_both, ihl, ihu, ihs, back]
      rcases back fortran par low with _ | l
      · rfl
      rcases back fortran par upp with _ | u
      · rfl
      rcases back fortran par str with _ | s
      · rfl
      simp [build, Slots.fill_eq, deliver_expr]
  | functionCallExp paren function args orig ihf iha iho =>
      rw [write, reread_element par _ rfl rfl]
      simp only [Cls.childParent, reread_both, ihf, iha, iho, back]
      rcases back fortran true function with _ | f
      · rfl
      rcases back fortran true args with _ | a
      · rfl
      rcases back fortran true orig with _ | o
      · rfl
      simp [build, rebuildArgs, Slots.first_eq, deliver_expr, -List.head?_filterMap]
  | castExp ctype implicit paren operand type orig ihe iht iho =>
      rw [write, reread_element par _ rfl rfl]
      simp only [Cls.childParent, reread_both, ihe, iht, iho, back]
      rcases back fortran par operand with _ | e
      · rfl
      rcases back fortran par type with _ | t
      · rfl
      rcases back fortran par orig with _ | o
      · rfl
      -- The operand fills the slot for the original tree in the same turn.
      have hslots : (toNodes e ++ (toNodes t ++ toNodes o)).foldl castStep
          { typ := none, exp := none, oexp := none } =
          { typ := some t, exp := some e, oexp := some e } := by
        cases o <;> rfl
      have himp : getFlag (("ctype", ctype.print) ::
          (flagAttr "implicit" implicit ++ parenAttr paren)) "implicit" = implicit := by
        rw [getFlag_cons_of_ne rfl]
        cases implicit <;> cases paren <;> rfl
      have hparen : getFlag (("ctype", ctype.print) ::
          (flagAttr "implicit" implicit ++ parenAttr paren)) "paren" = paren := by
        rw [getFlag_cons_of_ne rfl]
        cases implicit <;> cases paren <;> rfl
      cases implicit <;>
        simp [build, hslots, himp, hparen, getString, Numeral.Machine.read_print, ofSlot,
          deliver_expr]
  | actualArgumentExpression name paren e ih =>
      rw [write, reread_element par _ rfl rfl]
      simp only [Cls.childParent, ih, back]
      rcases back fortran par e with _ | e'
      · rfl
      simp [build, needString, getString, getFlag_cons_of_ne, Slots.first_eq, toOption_bind,
        deliver_expr, -List.head?_filterMap]
  | noExpr => rfl
  | anExpr e ih => 
      rw [write, ih, back]
      rcases back fortran par e with _ | e' <;> rfl
  | noVal => rfl
  | aVal v ih =>
      rw [write, ih, back]
      rcases back fortran par v with _ | v' <;> rfl
  | noList => rfl
  | aList l ih =>
      rw [write, ih, back]
      rcases back fortran par l with _ | l' <;> rfl
  | nilExpr => rfl
  | consExpr e es ihe ihes =>
      rw [write, reread_both, ihe, ihes, back]
      rcases back fortran par e with _ | e'
      · rfl
      rcases back fortran par es with _ | es' <;> rfl
  | primType p kind ih =>
      rw [write, reread_element par _ rfl rfl]
      simp only [Cls.childParent, ih, back]
      rcases back fortran par kind with _ | k
      · rfl
      have hlast : ofSlot (Slots.last Node.isSgExpression (toNodes k)) = k := by
        cases k <;> rfl
      by_cases hp : p = .int <;>
        simp [build, hp, hlast, Slots.first_eq, deliver_type, -List.head?_filterMap]
  | plainType p =>
      rw [write, reread_element_leaf par rfl rfl, back]
      rfl
  | pointerType base ih =>
      rw [write, reread_element par _ rfl rfl]
      simp only [Cls.childParent, ih, back]
      rcases back fortran true base with _ | b
      · rfl
      simp [build, Slots.first_eq, deliver_type, -List.head?_filterMap]
  | referenceType base ih => rfl
  | modifierType modifier cv base ih =>
      rw [write, reread_element par _ rfl rfl]
      simp only [Cls.childParent, ih, back]
      rcases back fortran false base with _ | b
      · rfl
      have hcv : readCv ((getString (("modifier", printUnsignedLong modifier) :: cvAttr cv)
          "cv_modifier").getD []) = cv.back := by
        cases cv <;> rfl
      have hmod : needString "SgModifierType"
          (("modifier", printUnsignedLong modifier) :: cvAttr cv) "modifier" =
            .ok (printUnsignedLong modifier) := rfl
      have hbase : Slots.first Node.isSgType (toNodes b) = some b := rfl
      simp [build, Cls.name, hcv, hmod, hbase, readUnsignedLong_print, deliver_type]
  | arrayType rank base dimInfo index ihb ihd ihi =>
      rw [write, reread_element par _ rfl rfl]
      simp only [Cls.childParent, reread_both, ihb, ihd, ihi, back]
      rcases back fortran true base with _ | b
      · rfl
      rcases back fortran true dimInfo with _ | d
      · rfl
      rcases back fortran true index with _ | i
      · rfl
      have hrank : Numeral.Machine.read intFormat
          ((getString [("rank", rank.print)] "rank").getD []) = rank :=
        Numeral.Machine.read_print rank
      -- Dimensions without an index take its slot; with one they are held against the rank.
      cases d with
      | noList =>
          cases i <;> simp [build, hrank, rebuildArray, toNodes, optLists, optExprs, arrayStep,
            Node.isSgType, Node.isSgExpression, isExprList, ofSlot, checkParent]
      | aList l =>
          cases i with
          | noExpr => simp [build, hrank, rebuildArray, toNodes, optLists, optExprs, arrayStep,
              Node.isSgType, Node.isSgExpression, isExprList, ofSlot, checkParent]
          | anExpr e =>
              have hslots : (toNodes b ++ (toNodes (.aList l) ++ toNodes (.anExpr e))).foldl
                  arrayStep { typ := none, lst := none, iexp := none } =
                  { typ := some b, lst := some l, iexp := some e } := rfl
              by_cases hlen : rank.1 = listLength l <;>
                simp [build, hrank, hslots, rebuildArray, hlen, ofSlot, deliver_type]
  | functionType returnType arguments ihr iha =>
      rw [write, reread_element par _ rfl rfl]
      simp only [Cls.childParent, reread_both, ihr, back]
      -- The parameters are an element of their own.
      rw [reread_element par _ rfl rfl]
      simp only [Cls.childParent, iha]
      rcases back fortran par returnType with _ | r
      · rfl
      rcases back fortran par arguments with _ | a
      · rfl
      have hlst : Slots.first Node.isSgFunctionParameterTypeList
          (toNodes r ++ [.functionParameterTypeList a]) = some a := rfl
      have htyp : Slots.first Node.isSgType (toNodes r ++ [.functionParameterTypeList a]) =
          some r := rfl
      cases par <;> simp [build, hlst, htyp, attached, deliver_params, deliver_type]
  | typeString length kind ihl ihk =>
      rw [write, reread_element par _ rfl rfl]
      simp only [Cls.childParent, reread_both, ihl, ihk, back]
      -- Without a length, what is read first is the kind.
      cases length with
      | noExpr =>
          simp only [back, Option.map_some]
          rcases back fortran par kind with _ | k
          · rfl
          have hkind : ofSlot (Slots.first Node.isSgExpression
              (toNodes (.noExpr : Sg F .opt) ++ toNodes k)) = k := by
            cases k <;> rfl
          simp [build, lenAttr, lengthBack, hkind, deliver_type]
      | anExpr e =>
          simp only [back]
          rcases back fortran par e with _ | e'
          · rfl
          rcases back fortran par kind with _ | k
          · rfl
          have hfill : Slots.fill Node.isSgExpression 2 (toNodes (.anExpr e') ++ toNodes k) =
              [some e', (optExprs k).head?] := by
            rw [Slots.fill_eq, List.filterMap_append, exprs_opt, exprs_opt]
            simp [optExprs]
          have hlen : getFlag (lenAttr (.anExpr e)) "len" = true := rfl
          simp [build, hlen, hfill, lengthBack, deliver_type]
  | typeComplex kind base ihk ihb =>
      rw [write, reread_element par _ rfl rfl]
      simp only [Cls.childParent, reread_both, ihk, ihb, back]
      rcases back fortran par kind with _ | k
      · rfl
      rcases back fortran par base with _ | b
      · rfl
      simp [build, Slots.first_eq, deliver_type, -List.head?_filterMap]
  | typeImaginary kind base ihk ihb =>
      rw [write, reread_element par _ rfl rfl]
      simp only [Cls.childParent, reread_both, ihk, ihb, back]
      rcases back fortran par kind with _ | k
      · rfl
      rcases back fortran par base with _ | b
      · rfl
      simp [build, Slots.first_eq, deliver_type, -List.head?_filterMap]
  | nilType => rfl
  | consType t ts iht ihts =>
      rw [write, reread_both, iht, ihts, back]
      rcases back fortran par t with _ | t'
      · rfl
      rcases back fortran par ts with _ | ts' <;> rfl

/-- Writing and reading computes `back`. -/
theorem roundTrip_toOption (fortran par : Bool) {s : Srt} (n : Sg F s) :
    (roundTrip fortran par n).toOption = (back fortran par n).map toNodes :=
  reread_write fortran n par

/-- The round trip of an expression delivers one node, the one `back` gives. -/
theorem roundTrip_expr_iff (fortran par : Bool) (e e' : Sg F .expr) :
    roundTrip fortran par e = .ok [.expr e'] ↔ back fortran par e = some e' := by
  have h := roundTrip_toOption fortran par e
  cases hb : back fortran par e with
  | none =>
      rw [hb] at h
      cases hr : roundTrip fortran par e with
      | error m => simp
      | ok ns => rw [hr] at h; exact absurd h (by simp only [toOption_ok, Option.map_none,
          reduceCtorEq, not_false_eq_true])
  | some e'' =>
      rw [hb] at h
      cases hr : roundTrip fortran par e with
      | error m => rw [hr] at h; exact absurd h (by simp only [toOption_error, Option.map_some,
          reduceCtorEq, not_false_eq_true])
      | ok ns =>
          rw [hr] at h
          obtain rfl : ns = [Node.expr e''] := Option.some.inj h
          simp

end RoundTrip

end XevXml
