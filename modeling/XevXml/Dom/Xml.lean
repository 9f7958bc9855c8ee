import XevXml.Core.Numeral
import XevXml.Dom.Entity

/-!
# The Document

The document between the writer and the reader: elements with attributes,
character data and comments, and the two ways a reader looks at an attribute.
`XmlGetAttributeValue` hands a string over as it is and extracts a number
through a character stream, so a numeric attribute is always read in base ten
and never fails: a text without digits is zero.

An aborted reader or writer is modelled by the error it prints. `Fatal` has
one constructor for each of the error macros and `Fatal.text` is the text
behind the word FATAL.

Attribute lists come in two forms. `attrib` functions take the escaping as an
argument: with `xmlStr2Entity` they give the attributes as they stand in the
file, with the identity they give the attributes as the parser delivers them,
and `parseAttrs` leads from the first to the second.

## Main definitions

* `Fatal`: The reasons for which reader and writer abort.
* `Fatal.text`: The message of an abort.
* `Attrs`: The attributes of an element.
* `Xml`: The nodes of the document.
* `getString`, `getInt`, `getFlag`: The reader's views of an attribute.
* `flagAttr`: An attribute that is written only when a flag is set.
* `parseAttrs`: The parser's decoding of all attributes of an element.

## Theorems

* `parseAttrs_append`: Attribute lists are decoded piece by piece.
* `parseAttrs_escaped`: An escaped attribute reaches the reader unchanged.
* `parseAttrs_plain`: So does one without special characters.
-/

namespace XevXml

/-- The reasons for which reader and writer abort. -/
inductive Fatal
  | missingNode (cls child : String)
  | missingNodes (cls n child : String)
  | missingAttr (cls attr : String)
  | fatal (message : String)
deriving DecidableEq, Repr

/-- The text printed behind the word FATAL. -/
def Fatal.text : Fatal → String
  | missingNode cls child => cls ++ " needs a child node of " ++ child
  | missingNodes cls n child => cls ++ " needs " ++ n ++ " child nodes of " ++ child
  | missingAttr cls attr => cls ++ " needs an attribute, \"" ++ attr ++ "\""
  | fatal message => message

/-- The attributes of an element. -/
abbrev Attrs := List (String × Text)

/-- The nodes of a document. -/
inductive Xml
  | elem (name : String) (attrs : Attrs) (children : List Xml)
  | text (t : Text)
  | comment (t : Text)
deriving Repr

/-- The machine integer a numeric attribute is read into. -/
def intFormat : Numeral.Format := { signed := true, bits := 32 }

/-- A string attribute. -/
def getString (node : Attrs) (name : String) : Option Text := node.lookup name

/-- A numeric attribute. -/
def getInt (node : Attrs) (name : String) : Option Int :=
  (node.lookup name).map intFormat.extract

/-- A numeric attribute used as a flag; a missing one leaves the flag unset. -/
def getFlag (node : Attrs) (name : String) : Bool := (getInt node name).getD 0 ≠ 0

/-- A string attribute an element cannot do without. -/
def needString (cls : String) (node : Attrs) (name : String) : Except Fatal Text :=
  match getString node name with
  | some s => .ok s
  | none => .error (.missingAttr cls name)

/-- A numeric attribute an element cannot do without. -/
def needInt (cls : String) (node : Attrs) (name : String) : Except Fatal Int :=
  match getInt node name with
  | some v => .ok v
  | none => .error (.missingAttr cls name)

/-- The text of a flag in the file. -/
def flagText (b : Bool) : Text := if b then ['1'] else ['0']

/-- An attribute that is written only when a flag is set. -/
def flagAttr (name : String) (b : Bool) : Attrs := if b then [(name, ['1'])] else []

/-- The parser's decoding of all attributes of an element. -/
def parseAttrs : Attrs → Option Attrs
  | [] => some []
  | (name, raw) :: rest =>
      (decode .attribute raw).bind fun v => (parseAttrs rest).map ((name, v) :: ·)

/-- Texts that need no escaping. -/
def Plain (s : Text) : Prop := XmlText s ∧ ∀ c ∈ s, ∀ p ∈ escapes, c ≠ p.1

section Parse

@[simp]
theorem parseAttrs_nil : parseAttrs [] = some [] := rfl

theorem parseAttrs_append {a b a' b' : Attrs} (ha : parseAttrs a = some a')
    (hb : parseAttrs b = some b') : parseAttrs (a ++ b) = some (a' ++ b') := by
  induction a generalizing a' with
  | nil =>
      obtain rfl : [] = a' := Option.some.inj ha
      exact hb
  | cons p a ih =>
      obtain ⟨name, raw⟩ := p
      simp only [parseAttrs, Option.bind_eq_some_iff, Option.map_eq_some_iff] at ha
      obtain ⟨v, hv, rest, hrest, rfl⟩ := ha
      simp only [List.cons_append, parseAttrs, hv, Option.bind_some, ih hrest, Option.map_some]

theorem parseAttrs_escaped (name : String) {s : Text} (h : XmlText s) :
    parseAttrs [(name, xmlStr2Entity s)] = some [(name, s)] := by
  simp [parseAttrs, decode_xmlStr2Entity .attribute h]

theorem parseAttrs_plain (name : String) {s : Text} (h : Plain s) :
    parseAttrs [(name, s)] = some [(name, s)] := by
  simp [parseAttrs, decode_of_plain .attribute h.1 h.2]

theorem parseAttrs_flagAttr (name : String) (b : Bool) :
    parseAttrs (flagAttr name b) = some (flagAttr name b) := by
  cases b <;> rfl

theorem parseAttrs_flagText (name : String) (b : Bool) :
    parseAttrs [(name, flagText b)] = some [(name, flagText b)] := by
  cases b <;> rfl

/-- Characters above the blank that are neither markup nor quotes need no
    escaping. -/
theorem plain_of_graphic {s : Text}
    (h : ∀ c ∈ s, 0x20 ≤ c.toNat ∧ c.toNat ≤ 0x7e ∧ c ∉ ['&', '<', '>', '"', '\'']) :
    Plain s := by
  refine ⟨fun c hc => ?_, fun c hc p hp heq => ?_⟩
  · obtain ⟨hlo, hhi, -⟩ := h c hc
    have hle : c.toNat ≤ 0xD7FF := by omega
    simp [isXmlChar, hlo, hle]
  · obtain ⟨hlo, -, hmem⟩ := h c hc
    have hall : ∀ q ∈ escapes, q.1 ∈ ['&', '<', '>', '"', '\''] ∨ q.1.toNat < 0x20 := by decide
    rcases hall p hp with hq | hq
    · exact hmem (heq ▸ hq)
    · rw [← heq] at hq
      omega

theorem graphic_of_isDigit {c : Char} (h : c.isDigit = true) :
    0x20 ≤ c.toNat ∧ c.toNat ≤ 0x7e ∧ c ∉ ['&', '<', '>', '"', '\''] := by
  have hrange := Char.isDigit_iff_toNat.mp h
  have hlo : '0'.toNat = 48 := rfl
  have hhi : '9'.toNat = 57 := rfl
  refine ⟨by omega, by omega, fun hmem => ?_⟩
  have hall : ∀ d ∈ ['&', '<', '>', '"', '\''], d.isDigit = false := by decide
  rw [hall c hmem] at h
  exact absurd h (by simp only [Bool.false_eq_true, not_false_eq_true])

theorem plain_printInt (v : Int) : Plain (Numeral.printInt v) := by
  refine plain_of_graphic fun c hc => ?_
  rcases Numeral.mem_printInt hc with rfl | hdigit
  · decide
  · exact graphic_of_isDigit hdigit

end Parse

section Get

/-- A number of the machine integer type is read back as itself. -/
theorem getInt_printInt {v : Int} (h : intFormat.InRange v) {node : Attrs} {name : String}
    (hnode : node.lookup name = some (Numeral.printInt v)) : getInt node name = some v := by
  simp [getInt, hnode, Numeral.Format.extract_printInt h]

end Get

end XevXml
