import XevXml.Ast.Literal

/-!
# Values

The constants of the dialect, apart from complex ones, as one type with one
writer and one reader: integer and floating literals, characters, truth
values, strings and enumeration constants. Every class has its own attributes,
and a value is read back from exactly the attributes of its class.

The floating types are a parameter. Their stream conversions belong to the
standard library, and nothing here depends on more than that a printed number
needs no escaping.

What a value looks like after it has been written and read is the function
`Value.back`. It is the identity on characters, truth values and enumeration
constants. On literals and strings it is the identity only for some, and
`Value.Exact` says for which.

## Main definitions

* `FloatKind`, `FloatStream`: The floating base types and their conversions.
* `ValueCls`: The classes of values.
* `Literal`: Literals as they stand in the tree.
* `Value`: The values.
* `Value.attribs`: The attributes of a value.
* `needValueAttrs`, `visitValue`: The reader of a value.
* `Value.back`: The value that is read back.
* `Value.Exact`: The values that come back unchanged.

## Theorems

* `visitValue_attribs`: The reader computes `Value.back`.
* `Value.back_eq_self_iff`: `Value.Exact` describes its fixed points.
-/

namespace XevXml

/-- The floating base types. -/
inductive FloatKind
  | float
  | double
  | longDouble
deriving DecidableEq, Repr

/-- The class of the literals of a floating type. -/
def FloatKind.cls : FloatKind → String
  | float => "SgFloatVal"
  | double => "SgDoubleVal"
  | longDouble => "SgLongDoubleVal"

/-- Numbers of the floating types with their stream conversions, and the zero
    that a complex constant without parts is built with. -/
class FloatStream (F : Type) where
  io : FloatKind → StreamType F
  zero : F

/-- Whole numbers in the place of floating ones, to run the model with. -/
instance : FloatStream Int where
  io _ := intStream intFormat
  zero := 0

/-- The classes of values. -/
inductive ValueCls
  | int (t : IntType)
  | float (k : FloatKind)
  | char
  | unsignedChar
  | bool
  | string
  | enum
deriving DecidableEq, Repr

/-- The name of a class of values. -/
def ValueCls.name : ValueCls → String
  | int t => t.cls
  | float k => k.cls
  | char => "SgCharVal"
  | unsignedChar => "SgUnsignedCharVal"
  | bool => "SgBoolValExp"
  | string => "SgStringVal"
  | enum => "SgEnumVal"

/-- All classes of values. -/
def ValueCls.all : List ValueCls :=
  [.int .int, .int .longInt, .int .longLongInt, .int .short, .int .unsignedInt,
    .int .unsignedLongLongInt, .int .unsignedLong, .int .unsignedShort, .int .wchar,
    .float .float, .float .double, .float .longDouble, .char, .unsignedChar, .bool, .string, .enum]

/-- Integers of the machine type `int`. -/
abbrev CInt := Numeral.Machine intFormat

/-- An enumeration constant: its number, its name and its enumeration. -/
structure EnumVal where
  value : CInt
  name : Text
  enum : Text
deriving DecidableEq

/-- A literal of the tree. Writer and reader treat a spelling that the base
    type prints itself like no spelling at all, so it is not a state of its own. -/
@[ext]
structure Literal {V : Type} (io : StreamType V) extends NumVal V where
  notPrinted : valueString ≠ io.tostring value

/-- The constants of the dialect other than complex ones. -/
inductive Value (F : Type) [FloatStream F]
  | int (t : IntType) (n : Literal t.io)
  | float (k : FloatKind) (n : Literal (FloatStream.io (F := F) k))
  | char (v : BitVec 8)
  | unsignedChar (v : BitVec 8)
  | bool (v : Bool)
  | string (v : StringVal)
  | enum (v : EnumVal)

variable {F : Type} [FloatStream F]

/-- The constant that stands for a missing part of a complex constant. -/
def Value.zero : Value F :=
  .float .longDouble {
    value := FloatStream.zero
    valueString := []
    notPrinted := Ne.symm ((FloatStream.io FloatKind.longDouble).nonempty _) }

/-- The class of a value. -/
def Value.cls : Value F → ValueCls
  | int t _ => .int t
  | float k _ => .float k
  | char _ => .char
  | unsignedChar _ => .unsignedChar
  | bool _ => .bool
  | string _ => .string
  | enum _ => .enum

/-- The format of `unsigned long`, through which characters travel. -/
def unsignedLongFormat : Numeral.Format := { signed := false, bits := 64 }

/-- A number attribute of type `unsigned long`, as bits. -/
def readUnsignedLong (s : Text) : BitVec 64 := BitVec.ofInt 64 (unsignedLongFormat.extract s)

/-- The text of an `unsigned long`. -/
def printUnsignedLong (v : BitVec 64) : Text := Numeral.printNat v.toNat

/-- Attributes of a value. -/
def Value.attribs (esc : Text → Text) : Value F → Attrs
  | int t n => t.attrib esc n.toNumVal
  | float k n => attribVal (FloatStream.io k) esc n.toNumVal
  | char v => [("value", printUnsignedLong (v.signExtend 64))]
  | unsignedChar v => [("value", printUnsignedLong (v.zeroExtend 64))]
  | bool v => [("value", flagText v)]
  | string v => attribSgStringVal esc v
  | enum v => [("value", v.value.print), ("name", v.name), ("enum", v.enum)]

/-- The attributes that the reader of a value insists on before it looks at
    the children. -/
def needValueAttrs (c : ValueCls) (node : Attrs) : Except Fatal Unit :=
  match c with
  | .enum => do
      let _ ← needString "SgEnumVal" node "name"
      let _ ← needString "SgEnumVal" node "value"
      return ()
  | _ => do
      let _ ← needString c.name node "value"
      return ()

/-- The literal the reader makes of a text. -/
def Literal.ofText {V : Type} (io : StreamType V) (s : Text) : Literal io where
  toNumVal := NumVal.ofText io s
  notPrinted := NumVal.ofText_valueString_ne io s

/-- Reader of a value of a given class. -/
def visitValue (c : ValueCls) (node : Attrs) : Except Fatal (Value F) :=
  match c with
  | .int t => do
      let s ← needString t.cls node "value"
      return .int t (Literal.ofText t.io s)
  | .float k => do
      let s ← needString k.cls node "value"
      return .float k (Literal.ofText (FloatStream.io k) s)
  | .char => do
      let s ← needString "SgCharVal" node "value"
      return .char ((readUnsignedLong s).truncate 8)
  | .unsignedChar => do
      let s ← needString "SgUnsignedCharVal" node "value"
      return .unsignedChar ((readUnsignedLong s).truncate 8)
  | .bool => do
      let s ← needString "SgBoolValExp" node "value"
      return .bool (intFormat.extract s ≠ 0)
  | .string => (visitSgStringVal node).map Value.string
  | .enum => do
      let name ← needString "SgEnumVal" node "name"
      let s ← needString "SgEnumVal" node "value"
      return .enum {
        value := Numeral.Machine.read intFormat s
        name := name
        enum := (getString node "enum").getD [] }

/-- The value that is read back. -/
def Value.back : Value F → Value F
  | int t n => int t (Literal.ofText t.io (n.text t.io))
  | float k n => float k (Literal.ofText (FloatStream.io k) (n.text (FloatStream.io k)))
  | string v => string { v with value := xmlEntity2Str v.value }
  | v => v

/-- The literals that come back unchanged: the text is read as the value, and
    no reference occurs in a spelling. -/
def Literal.Exact {V : Type} {io : StreamType V} (n : Literal io) : Prop :=
  io.extract (n.text io) = n.value ∧ NoReference n.valueString

/-- The values that come back unchanged. -/
def Value.Exact : Value F → Prop
  | int _ n => n.Exact
  | float _ n => n.Exact
  | string v => NoReference v.value
  | _ => True

section Chars

/-- Text of an `unsigned long` is read as the number it was printed from. -/
theorem readUnsignedLong_print (v : BitVec 64) :
    readUnsignedLong (printUnsignedLong v) = v := by
  have hrange : unsignedLongFormat.InRange (v.toNat : Int) := by
    have hlt : v.toNat < 2 ^ 64 := v.isLt
    have hlo : unsignedLongFormat.lo = 0 := rfl
    have hhi : unsignedLongFormat.hi = 2 ^ 64 - 1 := rfl
    constructor <;> omega
  have hextract : unsignedLongFormat.extract (printUnsignedLong v) = v.toNat :=
    Numeral.Format.extract_printInt hrange
  rw [readUnsignedLong, hextract, BitVec.ofInt_natCast, BitVec.ofNat_toNat, BitVec.setWidth_eq]

theorem truncate_signExtend (v : BitVec 8) : (v.signExtend 64).truncate 8 = v := by
  ext i hi
  have hwide : i < 64 := by omega
  simp [BitVec.getElem_signExtend, hi, hwide]

end Chars

section Back

@[simp]
theorem Value.cls_back (v : Value F) : v.back.cls = v.cls := by
  cases v <;> simp only [Value.back, Value.cls]

/-- The reader insists on no attribute that the writer leaves out. -/
theorem needValueAttrs_attribs (v : Value F) : needValueAttrs v.cls (v.attribs id) = .ok () := by
  cases v with
  | int t n => simp [needValueAttrs, needString, getString, Value.cls, Value.attribs,
      IntType.attrib, attribVal_id, bind, Except.bind, pure, Except.pure]
  | float k n => simp [needValueAttrs, needString, getString, Value.cls, Value.attribs,
      attribVal_id, bind, Except.bind, pure, Except.pure]
  | char v => rfl
  | unsignedChar v => rfl
  | bool v => rfl
  | string v => simp [needValueAttrs, needString, getString, Value.cls, Value.attribs,
      attribSgStringVal, bind, Except.bind, pure, Except.pure]
  | enum v => rfl

theorem visitValue_attribs (v : Value F) : visitValue v.cls (v.attribs id) = .ok v.back := by
  cases v with
  | int t n =>
      simp [visitValue, Value.cls, Value.attribs, IntType.attrib, attribVal_id, needString,
        getString, Value.back, bind, Except.bind, pure, Except.pure]
  | float k n =>
      simp [visitValue, Value.cls, Value.attribs, attribVal_id, needString, getString, Value.back,
        bind, Except.bind, pure, Except.pure]
  | char v =>
      simp [visitValue, Value.cls, Value.attribs, needString, getString, Value.back, bind,
        Except.bind, pure, Except.pure, readUnsignedLong_print, truncate_signExtend]
  | unsignedChar v =>
      simp [visitValue, Value.cls, Value.attribs, needString, getString, Value.back, bind,
        Except.bind, pure, Except.pure, readUnsignedLong_print]
  | bool v => cases v <;> rfl
  | string v =>
      simp only [visitValue, Value.cls, Value.attribs, visitSgStringVal_attribSgStringVal,
        Value.back, Except.map]
  | enum v =>
      simp [visitValue, Value.cls, Value.attribs, needString, getString, Value.back, bind,
        Except.bind, pure, Except.pure, Numeral.Machine.read_print, List.lookup_cons]

/-- A literal is read by the conversions of its class. -/
theorem visitValue_int (t : IntType) (node : Attrs) :
    (visitValue (F := F) (.int t) node).map (fun
      | .int _ n => some n.toNumVal
      | _ => none) = (t.visit node).map some := by
  simp only [visitValue, IntType.visit, visitVal]
  cases needString t.cls node "value" <;> rfl

theorem Literal.toNumVal_inj {V : Type} {io : StreamType V} {n m : Literal io} :
    n.toNumVal = m.toNumVal ↔ n = m := by
  obtain ⟨n, hn⟩ := n
  obtain ⟨m, hm⟩ := m
  simp only [Literal.mk.injEq]

/-- What is read for a literal, as a number and a spelling. -/
theorem Literal.toNumVal_ofText {V : Type} {io : StreamType V} (n : Literal io) :
    (Literal.ofText io (n.text io)).toNumVal = n.toNumVal.back io := rfl

theorem Literal.ofText_eq_self_iff {V : Type} {io : StreamType V} (n : Literal io) :
    Literal.ofText io (n.text io) = n ↔ n.Exact := by
  have hspell := NumVal.back_valueString_iff io n.toNumVal
  have hvalue : (n.toNumVal.back io).value = io.extract (n.text io) := rfl
  have hsplit : Literal.ofText io (n.text io) = n ↔ io.extract (n.text io) = n.value ∧
      (n.toNumVal.back io).valueString = n.valueString := by
    rw [← Literal.toNumVal_inj, Literal.toNumVal_ofText, NumVal.ext_iff, hvalue]
  rw [hsplit, hspell]
  refine and_congr_right fun hvalue => ?_
  unfold SpellingSurvives
  unfold NumVal.text at hvalue
  by_cases hempty : n.valueString = []
  · have hno : NoReference n.valueString := by
      rw [hempty]
      exact noReference_of_no_ampersand List.not_mem_nil
    rw [if_pos hempty] at hvalue ⊢
    exact iff_of_true (congrArg io.tostring hvalue) hno
  · rw [if_neg hempty] at hvalue ⊢
    rw [hvalue]
    exact and_iff_left n.notPrinted

theorem Value.back_eq_self_iff (v : Value F) : v.back = v ↔ v.Exact := by
  cases v with
  | int t n =>
      simp only [back, Exact, Value.int.injEq, heq_eq_eq, true_and, Literal.ofText_eq_self_iff]
  | float k n =>
      simp only [back, Exact, Value.float.injEq, heq_eq_eq, true_and, Literal.ofText_eq_self_iff]
  | string v =>
      obtain ⟨value, single, wchar, string16, string32⟩ := v
      simp only [back, Exact, Value.string.injEq, StringVal.mk.injEq, and_self, and_true,
        xmlEntity2Str_eq_self_iff]
  | char v => simp only [back, Exact]
  | unsignedChar v => simp only [back, Exact]
  | bool v => simp only [back, Exact]
  | enum v => simp only [back, Exact]

end Back

end XevXml
