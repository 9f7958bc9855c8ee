import XevXml.Dom.Xml

/-!
# Nodes that Carry Text

The nodes whose strings travel through the file as text: string constants,
the source spelling of numeric literals, assembly code and operand
constraints, preprocessing information and pragmas. Each has a writer, which
escapes the string, and a reader, which is handed what the XML parser has
already decoded.

All readers but one apply `xmlEntity2Str` to it once more. A string that
contains one of the eight references as ordinary text is thereby changed on
the way: the constant `&lt;` is written as `&amp;lt;`, the parser delivers
`&lt;`, and the reader makes `<` of it. The reader of a pragma takes the
attribute as it is, and there every string survives.

Numeric literals carry a value and a spelling in one attribute. The stream
conversions of the base type are a parameter, since they belong to the
standard library; for the integer types they are the ones of `Numeral`. The
reader stores a spelling only if it differs from the printed value, so a
spelling that the base type prints itself comes back as the empty string.

## Main definitions

* `StreamType`: The stream conversions of a numeric base type.
* `NumVal`, `attribVal`, `visitVal`: Numeric literals.
* `NumVal.ofText`: The literal the reader makes of a text.
* `NumVal.back`: The literal that is read back.
* `StringVal`, `attribSgStringVal`, `visitSgStringVal`: String constants.
* `AsmStmt`, `attribSgAsmStmt`, `visitSgAsmStmt`: Assembly statements.
* `AsmOp`, `attribSgAsmOp`, `visitSgAsmOp`: Operands of assembly statements.
* `PreprocessingInfo`, `writePreprocessingInfo`, `visitPreprocessingInfo`:
  Comments and directives attached to a node.
* `attribSgPragma`, `visitSgPragma`: Pragmas.
* `stringValText` and its companions: The text of a node after writing,
  parsing and reading.
* `SpellingSurvives`: When a spelling survives.
* `TextTransported`: A text survives in every carrier.

## Theorems

* `parseAttrs_attribSgStringVal` and its companions: The parser delivers the
  attributes the writer started from.
* `visitVal_attribVal`: What the reader of a literal makes of it.
* `NumVal.back_valueString_iff`: Which spellings survive.
* `text_transport_iff`: Which texts survive, for every carrier.
-/

namespace XevXml

/-- The stream conversions of a numeric base type: what `<<` prints and what
    `>>` makes of a text. A printed number is not empty and needs no escaping. -/
structure StreamType (V : Type) where
  tostring : V → Text
  extract : Text → V
  nonempty : ∀ v, tostring v ≠ []
  plain : ∀ v, Plain (tostring v)

/-- The conversions of an integer type. -/
def intStream (f : Numeral.Format) : StreamType Int where
  tostring := Numeral.printInt
  extract := f.extract
  nonempty := Numeral.printInt_ne_nil
  plain := plain_printInt

section NumVal

variable {V : Type}

/-- A numeric literal: its value and its spelling in the source, which is
    empty for a literal the front end did not see. -/
@[ext]
structure NumVal (V : Type) where
  value : V
  valueString : Text
deriving DecidableEq, Repr

/-- Attributes of a numeric literal. -/
def attribVal (io : StreamType V) (esc : Text → Text) (n : NumVal V) : Attrs :=
  let unparsedString := io.tostring n.value
  if 0 < n.valueString.length ∧ n.valueString ≠ unparsedString then
    [("value", esc n.valueString)]
  else [("value", unparsedString)]

/-- What the reader makes of the text of a literal: the spelling is stored only
    if the base type would not print it. -/
def NumVal.ofText (io : StreamType V) (s : Text) : NumVal V :=
  let ival := io.extract s
  let vstr := xmlEntity2Str s
  { value := ival, valueString := if vstr ≠ io.tostring ival then vstr else [] }

/-- Reader of a numeric literal of class `cls`. -/
def visitVal (io : StreamType V) (cls : String) (node : Attrs) : Except Fatal (NumVal V) := do
  let s ← needString cls node "value"
  return NumVal.ofText io s

/-- The text of a numeric literal: its spelling, or else its printed value. -/
def NumVal.text (io : StreamType V) (n : NumVal V) : Text :=
  if n.valueString = [] then io.tostring n.value else n.valueString

/-- The writer puts down the text of the literal: escaping does not change a
    printed value. -/
theorem attribVal_id (io : StreamType V) (n : NumVal V) :
    attribVal io id n = [("value", n.text io)] := by
  unfold attribVal NumVal.text
  by_cases hempty : n.valueString = []
  · simp [hempty]
  · have hpos : 0 < n.valueString.length := List.length_pos_of_ne_nil hempty
    by_cases heq : n.valueString = io.tostring n.value
    · simp [heq]
    · simp [hempty, hpos, heq]

theorem parseAttrs_attribVal (io : StreamType V) {n : NumVal V} (h : XmlText n.valueString) :
    parseAttrs (attribVal io xmlStr2Entity n) = some (attribVal io id n) := by
  simp only [attribVal]
  split
  · exact parseAttrs_escaped "value" h
  · exact parseAttrs_plain "value" (io.plain n.value)

/-- A stored spelling is never the printed value. -/
theorem NumVal.ofText_valueString_ne (io : StreamType V) (s : Text) :
    (NumVal.ofText io s).valueString ≠ io.tostring (NumVal.ofText io s).value := by
  simp only [NumVal.ofText]
  split
  · assumption
  · exact Ne.symm (io.nonempty _)

/-- The literal that is read back. -/
def NumVal.back (io : StreamType V) (n : NumVal V) : NumVal V := NumVal.ofText io (n.text io)

theorem visitVal_attribVal (io : StreamType V) (cls : String) (n : NumVal V) :
    visitVal io cls (attribVal io id n) = .ok (n.back io) := by
  rw [attribVal_id]
  rfl

/-- When the spelling of a literal survives: the empty one, if printing the
    value and reading it gives a value that prints the same; any other, if no
    reference occurs in it and the base type would not print it itself. -/
def SpellingSurvives (io : StreamType V) (n : NumVal V) : Prop :=
  if n.valueString = [] then
    io.tostring (io.extract (io.tostring n.value)) = io.tostring n.value
  else NoReference n.valueString ∧ n.valueString ≠ io.tostring (io.extract n.valueString)

/-- The spelling of a literal after writing, parsing and reading. -/
def numValText (io : StreamType V) (cls : String) (n : NumVal V) :
    Option (Except Fatal Text) :=
  (parseAttrs (attribVal io xmlStr2Entity n)).map fun node =>
    (visitVal io cls node).map NumVal.valueString

end NumVal

section StringVal

/-- A string constant and the way it is quoted. -/
structure StringVal where
  value : Text
  usesSingleQuotes : Bool
  wcharString : Bool
  is16bitString : Bool
  is32bitString : Bool
deriving DecidableEq, Repr

/-- Attributes of a string constant. -/
def attribSgStringVal (esc : Text → Text) (n : StringVal) : Attrs :=
  [("value", esc n.value)] ++ flagAttr "single" n.usesSingleQuotes ++
    flagAttr "wchar" n.wcharString ++ flagAttr "string16" n.is16bitString ++
    flagAttr "string32" n.is32bitString

/-- Reader of a string constant. -/
def visitSgStringVal (node : Attrs) : Except Fatal StringVal := do
  let str ← needString "SgStringVal" node "value"
  return {
    value := xmlEntity2Str str
    usesSingleQuotes := getFlag node "single"
    wcharString := getFlag node "wchar"
    is16bitString := getFlag node "string16"
    is32bitString := getFlag node "string32" }

theorem parseAttrs_attribSgStringVal {n : StringVal} (h : XmlText n.value) :
    parseAttrs (attribSgStringVal xmlStr2Entity n) = some (attribSgStringVal id n) := by
  unfold attribSgStringVal
  refine parseAttrs_append (parseAttrs_append (parseAttrs_append (parseAttrs_append ?_ ?_) ?_)
    ?_) ?_
  · exact parseAttrs_escaped "value" h
  all_goals exact parseAttrs_flagAttr _ _

/-- The flags of a constant come back, and its value is decoded once more. -/
theorem visitSgStringVal_attribSgStringVal (n : StringVal) :
    visitSgStringVal (attribSgStringVal id n) = .ok { n with value := xmlEntity2Str n.value } := by
  obtain ⟨value, single, wchar, string16, string32⟩ := n
  cases single <;> cases wchar <;> cases string16 <;> cases string32 <;> rfl

/-- The value of a string constant after writing, parsing and reading. -/
def stringValText (n : StringVal) : Option (Except Fatal Text) :=
  (parseAttrs (attribSgStringVal xmlStr2Entity n)).map fun node =>
    (visitSgStringVal node).map StringVal.value

end StringVal

section Asm

/-- An assembly statement. -/
structure AsmStmt where
  assemblyCode : Text
  useGnuExtendedFormat : Bool
  clobberRegisterList : List Int
deriving DecidableEq, Repr

/-- The numbers of a register list, separated by commas. -/
def commaList : List Int → Text
  | [] => []
  | [r] => Numeral.printInt r
  | r :: regs => Numeral.printInt r ++ ',' :: commaList regs

/-- The tokens of a text between commas, empty ones left out. -/
def strtok (s : Text) : List Text := (s.splitOn ',').filter (· ≠ [])

/-- Attributes of an assembly statement. -/
def attribSgAsmStmt (esc : Text → Text) (n : AsmStmt) : Attrs :=
  [("code", esc n.assemblyCode)] ++ [("gnu", flagText n.useGnuExtendedFormat)] ++
    (if 0 < n.clobberRegisterList.length then [("regs", commaList n.clobberRegisterList)] else [])

/-- Reader of an assembly statement. -/
def visitSgAsmStmt (node : Attrs) : Except Fatal AsmStmt := do
  let asm_code ← needString "SgAsmStmt" node "code"
  return {
    assemblyCode := xmlEntity2Str asm_code
    useGnuExtendedFormat := getFlag node "gnu"
    clobberRegisterList := match getString node "regs" with
      | some regs => (strtok regs).map intFormat.extract
      | none => [] }

theorem plain_commaList (regs : List Int) : Plain (commaList regs) := by
  induction regs with
  | nil => exact ⟨fun c hc => absurd hc List.not_mem_nil, fun c hc => absurd hc List.not_mem_nil⟩
  | cons r regs ih =>
      obtain ⟨hxml, hplain⟩ := plain_printInt r
      cases regs with
      | nil => exact ⟨hxml, hplain⟩
      | cons r' regs =>
          refine ⟨fun c hc => ?_, fun c hc => ?_⟩ <;>
            rcases List.mem_append.mp hc with hr | hrest
          · exact hxml c hr
          · rcases List.mem_cons.mp hrest with rfl | hrest
            · decide
            · exact ih.1 c hrest
          · exact hplain c hr
          · rcases List.mem_cons.mp hrest with rfl | hrest
            · decide
            · exact ih.2 c hrest

theorem parseAttrs_attribSgAsmStmt {n : AsmStmt} (h : XmlText n.assemblyCode) :
    parseAttrs (attribSgAsmStmt xmlStr2Entity n) = some (attribSgAsmStmt id n) := by
  unfold attribSgAsmStmt
  refine parseAttrs_append (parseAttrs_append (parseAttrs_escaped "code" h)
    (parseAttrs_flagText _ _)) ?_
  split
  · exact parseAttrs_plain "regs" (plain_commaList _)
  · exact parseAttrs_nil

theorem visitSgAsmStmt_code (n : AsmStmt) :
    (visitSgAsmStmt (attribSgAsmStmt id n)).map AsmStmt.assemblyCode =
      .ok (xmlEntity2Str n.assemblyCode) := by
  simp [visitSgAsmStmt, attribSgAsmStmt, needString, getString, bind, Except.bind, pure,
    Except.pure, Except.map]

/-- The code of an assembly statement after writing, parsing and reading. -/
def asmCodeText (n : AsmStmt) : Option (Except Fatal Text) :=
  (parseAttrs (attribSgAsmStmt xmlStr2Entity n)).map fun node =>
    (visitSgAsmStmt node).map AsmStmt.assemblyCode

/-- An operand of an assembly statement. Its name is an identifier, which the
    writer puts into the file without escaping. -/
structure AsmOp where
  constraint : Int
  constraintString : Text
  modifiers : Int
  name : Text
  recordRawAsmOperandDescriptions : Bool
  isOutputOperand : Bool
  nameIdent : ∀ c ∈ name, c.isAlphanum = true ∨ c = '_'

/-- Attributes of an operand of an assembly statement. -/
def attribSgAsmOp (esc : Text → Text) (n : AsmOp) : Attrs :=
  (if n.constraint ≠ 0 then [("constraint", Numeral.printInt n.constraint)] else []) ++
    (if 0 < n.constraintString.length then [("constraint_string", esc n.constraintString)]
      else []) ++
    (if n.modifiers ≠ 0 then [("modifiers", Numeral.printInt n.modifiers)] else []) ++
    (if 0 < n.name.length then [("name", n.name)] else []) ++
    flagAttr "record" n.recordRawAsmOperandDescriptions ++ flagAttr "output" n.isOutputOperand

/-- What the reader takes from the attributes of an operand. -/
structure AsmOpAttrs where
  constraint : Int
  modifiers : Int
  recordRawAsmOperandDescriptions : Bool
  isOutputOperand : Bool
  name : Text
  constraintString : Text
deriving DecidableEq, Repr

/-- Reader of an operand of an assembly statement: every attribute has a default. -/
def visitSgAsmOp (node : Attrs) : AsmOpAttrs where
  constraint := (getInt node "constraint").getD 0
  modifiers := (getInt node "modifiers").getD 0
  recordRawAsmOperandDescriptions := getFlag node "record"
  isOutputOperand := getFlag node "output"
  name := (getString node "name").getD []
  constraintString := xmlEntity2Str ((getString node "constraint_string").getD [])

/-- The letters and digits of an identifier. -/
theorem isAlphanum_iff (c : Char) :
    c.isAlphanum = true ↔ (('A' ≤ c ∧ c ≤ 'Z') ∨ ('a' ≤ c ∧ c ≤ 'z')) ∨ c.isDigit = true := by
  have hupper : c.isUpper = decide ('A' ≤ c ∧ c ≤ 'Z') := rfl
  have hlower : c.isLower = (decide ('a' ≤ c) && decide (c ≤ 'z')) := rfl
  have halnum : c.isAlphanum = (c.isUpper || c.isLower || c.isDigit) := rfl
  rw [halnum, hupper, hlower]
  simp only [Bool.or_eq_true, Bool.and_eq_true, decide_eq_true_eq]

theorem plain_identifier {s : Text} (h : ∀ c ∈ s, c.isAlphanum = true ∨ c = '_') : Plain s := by
  refine plain_of_graphic fun c hc => ?_
  rcases h c hc with halnum | rfl
  · have hrange : 48 ≤ c.toNat ∧ c.toNat ≤ 122 := by
      rw [isAlphanum_iff] at halnum
      simp only [Char.isDigit, Char.le_def, ge_iff_le, UInt32.le_iff_toNat_le, Bool.and_eq_true,
        decide_eq_true_eq] at halnum
      have hval : c.val.toNat = c.toNat := rfl
      have hA : 'A'.val.toNat = 65 := rfl
      have hZ : 'Z'.val.toNat = 90 := rfl
      have ha : 'a'.val.toNat = 97 := rfl
      have hz : 'z'.val.toNat = 122 := rfl
      have h0 : '0'.val.toNat = 48 := rfl
      have h9 : '9'.val.toNat = 57 := rfl
      omega
    refine ⟨by omega, by omega, fun hmem => ?_⟩
    have hall : ∀ d ∈ ['&', '<', '>', '"', '\''], d.isAlphanum = false := by decide
    rw [hall c hmem] at halnum
    exact absurd halnum (by simp only [Bool.false_eq_true, not_false_eq_true])
  · decide

theorem parseAttrs_attribSgAsmOp {n : AsmOp} (h : XmlText n.constraintString) :
    parseAttrs (attribSgAsmOp xmlStr2Entity n) = some (attribSgAsmOp id n) := by
  unfold attribSgAsmOp
  refine parseAttrs_append (parseAttrs_append (parseAttrs_append (parseAttrs_append
    (parseAttrs_append ?_ ?_) ?_) ?_) (parseAttrs_flagAttr _ _)) (parseAttrs_flagAttr _ _)
  · split
    · exact parseAttrs_plain _ (plain_printInt _)
    · exact parseAttrs_nil
  · split
    · exact parseAttrs_escaped _ h
    · exact parseAttrs_nil
  · split
    · exact parseAttrs_plain _ (plain_printInt _)
    · exact parseAttrs_nil
  · split
    · exact parseAttrs_plain _ (plain_identifier n.nameIdent)
    · exact parseAttrs_nil

theorem visitSgAsmOp_constraintString (n : AsmOp) :
    (visitSgAsmOp (attribSgAsmOp id n)).constraintString = xmlEntity2Str n.constraintString := by
  have hget : (getString (attribSgAsmOp id n) "constraint_string").getD [] =
      n.constraintString := by
    by_cases hempty : n.constraintString = []
    · by_cases hcons : n.constraint = 0 <;> by_cases hmod : n.modifiers = 0 <;>
        by_cases hname : n.name = [] <;> cases hrec : n.recordRawAsmOperandDescriptions <;>
        cases hout : n.isOutputOperand <;>
        simp [attribSgAsmOp, getString, flagAttr, List.lookup_cons, hempty, hcons, hmod,
          hname, hrec,
          hout, List.length_pos_iff]
    · by_cases hcons : n.constraint = 0 <;>
        simp [attribSgAsmOp, getString, List.lookup_cons, hempty, hcons, List.length_pos_iff]
  simp only [visitSgAsmOp, hget]

/-- The constraint of an operand after writing, parsing and reading. -/
def asmConstraintText (n : AsmOp) : Option (Except Fatal Text) :=
  (parseAttrs (attribSgAsmOp xmlStr2Entity n)).map fun node =>
    .ok (visitSgAsmOp node).constraintString

end Asm

section Preprocessing

/-- A comment or directive attached to a node: its position relative to the
    node, its kind and its text. -/
structure PreprocessingInfo where
  relativePosition : Int
  typeOfDirective : Int
  string : Text
deriving DecidableEq, Repr

/-- Attributes and content of the element for an attached text. -/
def writePreprocessingInfo (esc : Text → Text) (n : PreprocessingInfo) : Attrs × Text :=
  ([("pos", Numeral.printInt n.relativePosition)] ++
    [("type", Numeral.printInt n.typeOfDirective)], esc n.string)

/-- Reader of the element for an attached text. Under a parent that has no
    place in the source the element is ignored. -/
def visitPreprocessingInfo (located : Bool) (node : Attrs × Text) :
    Except Fatal (Option PreprocessingInfo) :=
  if located then do
    let pval ← needInt "PreprocessingInfo" node.1 "pos"
    let tval ← needInt "PreprocessingInfo" node.1 "type"
    return some {
      relativePosition := pval
      typeOfDirective := tval
      string := xmlEntity2Str node.2 }
  else .ok none

/-- The parser's decoding of an element with character data. -/
def parseTextElement (raw : Attrs × Text) : Option (Attrs × Text) :=
  (parseAttrs raw.1).bind fun attrs => (decode .content raw.2).map fun t => (attrs, t)

theorem parseTextElement_writePreprocessingInfo {n : PreprocessingInfo} (h : XmlText n.string) :
    parseTextElement (writePreprocessingInfo xmlStr2Entity n) =
      some (writePreprocessingInfo id n) := by
  have hattrs := parseAttrs_append (parseAttrs_plain "pos" (plain_printInt n.relativePosition))
    (parseAttrs_plain "type" (plain_printInt n.typeOfDirective))
  simp only [parseTextElement, writePreprocessingInfo, hattrs, Option.bind_some,
    decode_xmlStr2Entity .content h, Option.map_some, id]

theorem visitPreprocessingInfo_string (n : PreprocessingInfo) :
    ((visitPreprocessingInfo true (writePreprocessingInfo id n)).map fun info =>
      (info.map PreprocessingInfo.string).getD []) = .ok (xmlEntity2Str n.string) := by
  simp [visitPreprocessingInfo, writePreprocessingInfo, needInt, getInt, List.lookup_cons, bind,
    Except.bind, pure, Except.pure, Except.map]

/-- The text attached to a located node after writing, parsing and reading. -/
def preprocessingText (n : PreprocessingInfo) : Option (Except Fatal Text) :=
  (parseTextElement (writePreprocessingInfo xmlStr2Entity n)).map fun node =>
    (visitPreprocessingInfo true node).map fun info =>
      (info.map PreprocessingInfo.string).getD []

end Preprocessing

section Pragma

/-- Attributes of a pragma. -/
def attribSgPragma (esc : Text → Text) (pragma : Text) : Attrs := [("pragma", esc pragma)]

/-- Reader of a pragma. -/
def visitSgPragma (node : Attrs) : Except Fatal Text := needString "SgPragma" node "pragma"

/-- The text of a pragma after writing, parsing and reading. -/
def pragmaText (pragma : Text) : Option (Except Fatal Text) :=
  (parseAttrs (attribSgPragma xmlStr2Entity pragma)).map visitSgPragma

end Pragma

section Transport

/-- A text that has been decoded once too often is unchanged exactly if no
    reference occurs in it. -/
theorem some_ok_xmlEntity2Str_iff (s : Text) :
    (some (.ok (xmlEntity2Str s)) : Option (Except Fatal Text)) = some (.ok s) ↔
      NoReference s := by
  rw [← xmlEntity2Str_eq_self_iff, Option.some.injEq, Except.ok.injEq]

theorem stringValText_iff {n : StringVal} (h : XmlText n.value) :
    stringValText n = some (.ok n.value) ↔ NoReference n.value := by
  rw [← some_ok_xmlEntity2Str_iff, stringValText, parseAttrs_attribSgStringVal h, Option.map_some,
    visitSgStringVal_attribSgStringVal]
  simp only [Except.map]

theorem asmCodeText_iff {n : AsmStmt} (h : XmlText n.assemblyCode) :
    asmCodeText n = some (.ok n.assemblyCode) ↔ NoReference n.assemblyCode := by
  rw [← some_ok_xmlEntity2Str_iff, asmCodeText, parseAttrs_attribSgAsmStmt h, Option.map_some,
    visitSgAsmStmt_code]

theorem asmConstraintText_iff {n : AsmOp} (h : XmlText n.constraintString) :
    asmConstraintText n = some (.ok n.constraintString) ↔ NoReference n.constraintString := by
  rw [← some_ok_xmlEntity2Str_iff, asmConstraintText, parseAttrs_attribSgAsmOp h,
    Option.map_some, visitSgAsmOp_constraintString]

theorem preprocessingText_iff {n : PreprocessingInfo} (h : XmlText n.string) :
    preprocessingText n = some (.ok n.string) ↔ NoReference n.string := by
  rw [← some_ok_xmlEntity2Str_iff, preprocessingText, parseTextElement_writePreprocessingInfo h,
    Option.map_some, visitPreprocessingInfo_string]

theorem pragmaText_eq {s : Text} (h : XmlText s) : pragmaText s = some (.ok s) := by
  rw [pragmaText, attribSgPragma, parseAttrs_escaped "pragma" h]
  rfl

/-- The printed value of a base type contains no reference. -/
theorem noReference_of_plain {s : Text} (h : Plain s) : NoReference s :=
  noReference_of_no_ampersand fun hmem =>
    h.2 '&' hmem ('&', "&amp;".toList) (by decide) rfl

theorem NumVal.back_valueString_iff {V : Type} (io : StreamType V) (n : NumVal V) :
    (n.back io).valueString = n.valueString ↔ SpellingSurvives io n := by
  unfold NumVal.back NumVal.ofText SpellingSurvives NumVal.text
  by_cases hempty : n.valueString = []
  · -- The printed value is read, and stored only if it would print differently.
    have hself := (xmlEntity2Str_eq_self_iff _).mpr (noReference_of_plain (io.plain n.value))
    rw [if_pos hempty, if_pos hempty]
    simp only [hself, hempty]
    by_cases hprint : io.tostring n.value = io.tostring (io.extract (io.tostring n.value))
    · simp [← hprint]
    · rw [if_pos hprint]
      exact iff_of_false (io.nonempty n.value) (Ne.symm hprint)
  · simp only [if_neg hempty]
    rw [← xmlEntity2Str_eq_self_iff]
    by_cases hself : xmlEntity2Str n.valueString = n.valueString
    · rw [hself]
      by_cases hprint : n.valueString = io.tostring (io.extract n.valueString)
      · simp [← hprint, Ne.symm hempty]
      · simp [hprint]
    · -- A changed text is not the spelling, whether it is stored or not.
      refine iff_of_false ?_ fun hand => hself hand.1
      split
      · exact hself
      · exact Ne.symm hempty

theorem numValText_iff {V : Type} (io : StreamType V) (cls : String) {n : NumVal V}
    (h : XmlText n.valueString) :
    numValText io cls n = some (.ok n.valueString) ↔ SpellingSurvives io n := by
  rw [← NumVal.back_valueString_iff, numValText, parseAttrs_attribVal io h, Option.map_some,
    visitVal_attribVal]
  simp only [Except.map, Option.some.injEq, Except.ok.injEq]

/-- The text `s` survives in every carrier, whatever else the node holds. -/
def TextTransported {V : Type} (io : StreamType V) (cls : String) (s : Text) : Prop :=
  (∀ n : StringVal, stringValText { n with value := s } = some (.ok s)) ∧
    (∀ v : V, numValText io cls { value := v, valueString := s } = some (.ok s)) ∧
    (∀ n : AsmStmt, asmCodeText { n with assemblyCode := s } = some (.ok s)) ∧
    (∀ n : AsmOp, asmConstraintText { n with constraintString := s } = some (.ok s)) ∧
    (∀ n : PreprocessingInfo, preprocessingText { n with string := s } = some (.ok s)) ∧
    pragmaText s = some (.ok s)

/-- In a pragma every text survives. In a string constant, an assembly
    statement or operand and an attached text exactly the texts without a
    reference do, and in a numeric literal those that `SpellingSurvives`
    describes. -/
theorem text_transport_iff {V : Type} (io : StreamType V) (cls : String) (s : Text)
    (hs : XmlText s) :
    (∀ n : StringVal, stringValText { n with value := s } = some (.ok s) ↔ NoReference s) ∧
      (∀ v : V, numValText io cls { value := v, valueString := s } = some (.ok s) ↔
        SpellingSurvives io { value := v, valueString := s }) ∧
      (∀ n : AsmStmt, asmCodeText { n with assemblyCode := s } = some (.ok s) ↔ NoReference s) ∧
      (∀ n : AsmOp,
        asmConstraintText { n with constraintString := s } = some (.ok s) ↔ NoReference s) ∧
      (∀ n : PreprocessingInfo,
        preprocessingText { n with string := s } = some (.ok s) ↔ NoReference s) ∧
      pragmaText s = some (.ok s) := by
  refine ⟨fun n => ?_, fun v => ?_, fun n => ?_, fun n => ?_, fun n => ?_, pragmaText_eq hs⟩
  · exact stringValText_iff (n := { n with value := s }) hs
  · exact numValText_iff io cls (n := { value := v, valueString := s }) hs
  · exact asmCodeText_iff (n := { n with assemblyCode := s }) hs
  · exact asmConstraintText_iff (n := { n with constraintString := s }) hs
  · exact preprocessingText_iff (n := { n with string := s }) hs

/-- The text `a<b` contains no reference and survives everywhere. -/
theorem text_transport_less :
    TextTransported (intStream intFormat) "SgIntVal" "a<b".toList := by
  have hno : NoReference "a<b".toList := by decide
  obtain ⟨hstring, hnum, hcode, hcons, hpre, hpragma⟩ :=
    text_transport_iff (intStream intFormat) "SgIntVal" "a<b".toList (by decide)
  have hprint : "a<b".toList ≠ Numeral.printInt (intFormat.extract "a<b".toList) := by decide
  have hspell : ∀ v : Int,
      SpellingSurvives (intStream intFormat) { value := v, valueString := "a<b".toList } :=
    fun v => ⟨hno, hprint⟩
  exact ⟨fun n => (hstring n).mpr hno, fun v => (hnum v).mpr (hspell v),
    fun n => (hcode n).mpr hno, fun n => (hcons n).mpr hno, fun n => (hpre n).mpr hno, hpragma⟩

/-- The string constant `&lt;` comes back as `<`. -/
theorem reference_text_not_transported :
    ¬ TextTransported (intStream intFormat) "SgIntVal" "&lt;".toList := by
  rintro ⟨hstring, -⟩
  have hplain := hstring {
    value := []
    usesSingleQuotes := false
    wcharString := false
    is16bitString := false
    is32bitString := false }
  have hno : ¬ NoReference "&lt;".toList := by decide
  exact hno ((stringValText_iff (by decide)).mp hplain)

end Transport

end XevXml
