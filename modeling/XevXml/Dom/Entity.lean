import XevXml.Core.Escape
import Mathlib.Tactic.Common

/-!
# Text in the XML File

Every string of the syntax tree passes through three functions on its way
into an XML file and back. `xmlStr2Entity` escapes it, eight search-and-replace
passes one after the other. The XML parser decodes what it finds in the file,
and `xmlEntity2Str` is the repository's own decoder, again eight passes, which
some readers apply to what the parser has already decoded.

The parser is not part of the repository, so `decode` is written from the XML
recommendation: line ends are normalised, references are replaced by the
characters they name, literal white space in an attribute becomes a blank, and
a text with a raw `<`, a raw quote inside an attribute, an unknown reference
or a character that XML does not admit is rejected.

The escaping passes are single-character passes that do not interfere, so they
act on each character by itself, and one decoding undoes them on every text
the parser accepts at all. The passes of `xmlEntity2Str` all shorten what they
match, so a second decoding leaves exactly those texts alone in which none of
the eight references occurs.

## Main definitions

* `xmlStr2Entity`: The writer's escaping.
* `xmlEntity2Str`: The repository's own decoding.
* `isXmlChar`: The characters an XML document may contain.
* `decodeReference`: The character a reference names.
* `decode`: The parser's decoding of an attribute value or character data.
* `references`: The eight references of the escaping.
* `NoReference`: Texts in which none of them occurs.

## Theorems

* `xmlStr2Entity_eq_flatMap`: The passes escape each character by itself.
* `xmlStr2Entity_onePass`: They stop, no pass undoes or repeats another one,
  and reading each reference once gives the string back.
* `decode_xmlStr2Entity`: One decoding undoes the escaping.
* `xmlEntity2Str_eq_self_iff`: A second decoding is harmless exactly on the
  texts without a reference.
-/

namespace XevXml

/-- Strings are lists of characters. -/
abbrev Text := List Char

/-- Search and replace on strings. -/
def REPLACE (str1 : Text) (str2 str3 : String) : Text :=
  Replace.replace str2.toList str3.toList str1

/-- Escape a string for the XML file. -/
def xmlStr2Entity (str : Text) : Text :=
  let str := REPLACE str "&" "&amp;"
  let str := REPLACE str "<" "&lt;"
  let str := REPLACE str ">" "&gt;"
  let str := REPLACE str "\"" "&quot;"
  let str := REPLACE str "'" "&apos;"
  let str := REPLACE str "\t" "&#009;"
  let str := REPLACE str "\n" "&#010;"
  let str := REPLACE str "\r" "&#013;"
  str

/-- Replace the references of the escaping by the characters they stand for. -/
def xmlEntity2Str (str : Text) : Text :=
  let str := REPLACE str "&amp;" "&"
  let str := REPLACE str "&lt;" "<"
  let str := REPLACE str "&gt;" ">"
  let str := REPLACE str "&quot;" "\""
  let str := REPLACE str "&apos;" "'"
  let str := REPLACE str "&#009;" "\t"
  let str := REPLACE str "&#010;" "\n"
  let str := REPLACE str "&#013;" "\r"
  str

/-- The characters an XML document may contain. -/
def isXmlChar (c : Char) : Bool :=
  c = '\t' || c = '\n' || c = '\r' || (0x20 ≤ c.toNat && c.toNat ≤ 0xD7FF) ||
    (0xE000 ≤ c.toNat && c.toNat ≤ 0xFFFD) || 0x10000 ≤ c.toNat

/-- The value of a hexadecimal digit. -/
def hexDigit (c : Char) : Option Nat :=
  if c.isDigit then some (c.toNat - '0'.toNat)
  else if 'a' ≤ c ∧ c ≤ 'f' then some (c.toNat - 'a'.toNat + 10)
  else if 'A' ≤ c ∧ c ≤ 'F' then some (c.toNat - 'A'.toNat + 10)
  else none

/-- The number a nonempty digit string denotes in base `b`. -/
def digitsValue (b : Nat) (ds : Text) : Option Nat :=
  if ds = [] then none
  else ds.foldl
    (fun acc c => acc.bind fun n => (hexDigit c).bind fun d => if d < b then some (b * n + d)
      else none)
    (some 0)

/-- The character with a given number, if XML admits it. -/
def charOfNumber (n : Nat) : Option Char :=
  if n.isValidChar then
    let c := Char.ofNat n
    if isXmlChar c then some c else none
  else none

/-- The character that the reference with a given name stands for: one of the
    five predefined entities, or a decimal or hexadecimal character reference. -/
def decodeReference : Text → Option Char
  | ['a', 'm', 'p'] => some '&'
  | ['l', 't'] => some '<'
  | ['g', 't'] => some '>'
  | ['q', 'u', 'o', 't'] => some '"'
  | ['a', 'p', 'o', 's'] => some '\''
  | '#' :: 'x' :: ds => (digitsValue 16 ds).bind charOfNumber
  | '#' :: ds => (digitsValue 10 ds).bind charOfNumber
  | _ => none

/-- Where a text stands in the document. -/
inductive Place
  | attribute
  | content
deriving DecidableEq, Repr

/-- The parser's reading of a literal character: markup is rejected, and white
    space inside an attribute value becomes a blank. -/
def decodeChar (place : Place) (c : Char) : Option Char :=
  if c = '<' ∨ isXmlChar c = false then none
  else if place = Place.attribute ∧ c = '"' then none
  else if place = Place.attribute ∧ (c = '\t' ∨ c = '\n' ∨ c = '\r') then some ' '
  else some c

/-- The parser's walk over a text. The second argument is the name of the
    reference being read, if the walk is inside one. -/
def decodeGo (place : Place) : Option Text → Text → Option Text
  | none, [] => some []
  | some _, [] => none
  | none, c :: s =>
      if c = '&' then decodeGo place (some []) s
      else (decodeChar place c).bind fun d => (decodeGo place none s).map (d :: ·)
  | some name, c :: s =>
      if c = ';' then (decodeReference name).bind fun d => (decodeGo place none s).map (d :: ·)
      else decodeGo place (some (name ++ [c])) s

/-- Line ends of every kind become a newline before anything else happens. -/
def normalizeEol : Text → Text
  | '\r' :: '\n' :: s => '\n' :: normalizeEol s
  | '\r' :: s => '\n' :: normalizeEol s
  | c :: s => c :: normalizeEol s
  | [] => []

/-- The parser's decoding of a text. -/
def decode (place : Place) (s : Text) : Option Text :=
  decodeGo place none (normalizeEol s)

/-- The characters the writer escapes, in the order of its passes. -/
def escapes : List (Char × Text) :=
  [('&', "&amp;".toList), ('<', "&lt;".toList), ('>', "&gt;".toList), ('"', "&quot;".toList),
    ('\'', "&apos;".toList), ('\t', "&#009;".toList), ('\n', "&#010;".toList),
    ('\r', "&#013;".toList)]

/-- The eight references of the escaping. -/
def references : List Text := escapes.map Prod.snd

/-- Texts in which none of the eight references occurs. -/
def NoReference (s : Text) : Prop := ∀ r ∈ references, ¬ r <:+: s

instance (s : Text) : Decidable (NoReference s) :=
  inferInstanceAs (Decidable (∀ r ∈ references, ¬ r <:+: s))

/-- Texts an XML document can carry. -/
def XmlText (s : Text) : Prop := ∀ c ∈ s, isXmlChar c = true

instance (s : Text) : Decidable (XmlText s) :=
  inferInstanceAs (Decidable (∀ c ∈ s, isXmlChar c = true))

section Escape

/-- No pass looks for a character that an earlier one has written. -/
theorem escapes_independent : escapes.Pairwise fun p q => ∀ c ∈ p.2, c ≠ q.1 := by decide

theorem xmlStr2Entity_eq_flatMap (s : Text) :
    xmlStr2Entity s = s.flatMap (Replace.escapeChar escapes) := by
  have hpasses : xmlStr2Entity s = Replace.replaceAll (escapes.map fun p => ([p.1], p.2)) s := rfl
  rw [hpasses, Replace.replaceAll_singletons escapes_independent]

@[simp]
theorem xmlStr2Entity_nil : xmlStr2Entity [] = [] := xmlStr2Entity_eq_flatMap []

theorem xmlStr2Entity_cons (c : Char) (s : Text) :
    xmlStr2Entity (c :: s) = Replace.escapeChar escapes c ++ xmlStr2Entity s := by
  rw [xmlStr2Entity_eq_flatMap, xmlStr2Entity_eq_flatMap, List.flatMap_cons]

theorem xmlStr2Entity_of_plain {s : Text} (h : ∀ c ∈ s, ∀ p ∈ escapes, c ≠ p.1) :
    xmlStr2Entity s = s := by
  rw [xmlStr2Entity_eq_flatMap]
  exact Replace.flatMap_escapeChar_of_not_key h

/-- A loop of the escaping stops, whatever text it is given. -/
theorem replaceLoop_escape (p : Char × Text) (t : Text) :
    Replace.replaceLoop [p.1] p.2 (t.length + 1) (t, Replace.findFrom [p.1] t 0) =
      (Replace.replace [p.1] p.2 t, none) := by
  have hne : [p.1] ≠ [] := List.cons_ne_nil _ _
  have hloop := Replace.replaceLoop_halts p.2 hne (t.length + 1) [] t (Nat.lt_succ_self _)
  rw [List.nil_append, List.nil_append, List.length_nil] at hloop
  rw [hloop, Replace.replace_eq_substitute _ hne]

/-- The text one pass writes is not touched by the later ones. -/
theorem replace_reference {p q : Char × Text} (h : ∀ c ∈ p.2, c ≠ q.1) :
    Replace.replace [q.1] q.2 p.2 = p.2 := by
  have hno : ¬ [q.1] <:+: p.2 := fun hin => h q.1 (hin.subset List.mem_cons_self) rfl
  rw [Replace.replace_eq_substitute _ (List.cons_ne_nil _ _),
    Replace.substitute_of_no_occurrence _ hno]

/-- The eight passes stop, none rewrites what an earlier one has written, and
    together they write every character as its reference or as it is. In the
    result there is no other ampersand than those of the references, and one
    walk that reads each reference once gives the string back. -/
theorem xmlStr2Entity_onePass (s : Text) :
    (∀ p ∈ escapes, ∀ t : Text,
      Replace.replaceLoop [p.1] p.2 (t.length + 1) (t, Replace.findFrom [p.1] t 0) =
        (Replace.replace [p.1] p.2 t, none)) ∧
    xmlStr2Entity s = Replace.replaceAll (escapes.map fun p => ([p.1], p.2)) s ∧
    (escapes.Pairwise fun p q => Replace.replace [q.1] q.2 p.2 = p.2) ∧
    xmlStr2Entity s = s.flatMap (Replace.escapeChar escapes) ∧
    (∀ c ∈ ['<', '>', '"', '\'', '\t', '\r', '\n'], c ∉ xmlStr2Entity s) ∧
    (∀ u v, xmlStr2Entity s = u ++ '&' :: v → ∃ r ∈ references, r <+: '&' :: v) ∧
    Replace.unescape escapes (xmlStr2Entity s) = s := by
  refine ⟨fun p _ t => replaceLoop_escape p t, rfl, escapes_independent.imp replace_reference,
    xmlStr2Entity_eq_flatMap s, ?_, ?_, ?_⟩
  · have hraw : ∀ c ∈ ['<', '>', '"', '\'', '\t', '\r', '\n'],
        (∃ p ∈ escapes, p.1 = c) ∧ ∀ p ∈ escapes, c ∉ p.2 := by decide
    intro c hc
    rw [xmlStr2Entity_eq_flatMap]
    exact Replace.not_mem_flatMap_escapeChar (hraw c hc).1 (hraw c hc).2 s
  · intro u v huv
    rw [xmlStr2Entity_eq_flatMap] at huv
    obtain ⟨p, hp, hpre⟩ :=
      Replace.reference_of_mem_flatMap_escapeChar (by decide) (by decide) huv
    exact ⟨p.2, List.mem_map_of_mem hp, hpre⟩
  · have hfree : Replace.PrefixFree escapes := by decide
    have hguard : Replace.Guarded escapes := by decide
    rw [xmlStr2Entity_eq_flatMap, Replace.unescape_flatMap_escapeChar hfree hguard]

end Escape

section Decode

theorem normalizeEol_of_no_cr {s : Text} (h : '\r' ∉ s) : normalizeEol s = s := by
  induction s with
  | nil => rfl
  | cons c s ih =>
      have hc : c ≠ '\r' := fun heq => h (by simp [heq])
      have hs : '\r' ∉ s := fun hmem => h (List.mem_cons_of_mem _ hmem)
      unfold normalizeEol
      split
      · rename_i heq
        exact absurd (List.cons.inj heq).1 hc
      · rename_i heq
        exact absurd (List.cons.inj heq).1 hc
      · rename_i heq
        obtain ⟨rfl, rfl⟩ := List.cons.inj heq
        rw [ih hs]
      · rename_i heq
        exact absurd heq (List.cons_ne_nil _ _)

theorem cr_not_mem_xmlStr2Entity (s : Text) : '\r' ∉ xmlStr2Entity s := by
  rw [xmlStr2Entity_eq_flatMap]
  exact Replace.not_mem_flatMap_escapeChar (by decide) (by decide) s

/-- The walk reads one escaped character and goes on behind it. -/
theorem decodeGo_escapeChar (place : Place) {c : Char} (h : isXmlChar c = true) (s : Text) :
    decodeGo place none (Replace.escapeChar escapes c ++ s) =
      (decodeGo place none s).map (c :: ·) := by
  rcases Replace.escapeChar_cases escapes c with ⟨r, hr, heq⟩ | ⟨hkey, heq⟩
  · rw [heq]
    simp only [escapes, List.mem_cons, List.not_mem_nil, or_false, Prod.mk.injEq] at hr
    rcases hr with ⟨rfl, rfl⟩ | ⟨rfl, rfl⟩ | ⟨rfl, rfl⟩ | ⟨rfl, rfl⟩ | ⟨rfl, rfl⟩ |
      ⟨rfl, rfl⟩ | ⟨rfl, rfl⟩ | ⟨rfl, rfl⟩ <;> rfl
  · -- A character the writer leaves alone is not markup, so the parser keeps it.
    have hne : ∀ d ∈ escapes.map Prod.fst, c ≠ d := by
      intro d hd
      obtain ⟨p, hp, rfl⟩ := List.mem_map.mp hd
      exact hkey p hp
    have hamp : c ≠ '&' := hne '&' (by decide)
    have hlt : c ≠ '<' := hne '<' (by decide)
    have hquot : c ≠ '"' := hne '"' (by decide)
    have htab : c ≠ '\t' := hne '\t' (by decide)
    have hnl : c ≠ '\n' := hne '\n' (by decide)
    have hcr : c ≠ '\r' := hne '\r' (by decide)
    rw [heq, List.singleton_append, decodeGo, if_neg hamp]
    simp [decodeChar, h, hlt, hquot, htab, hnl, hcr]

theorem decode_xmlStr2Entity (place : Place) {s : Text} (h : XmlText s) :
    decode place (xmlStr2Entity s) = some s := by
  rw [decode, normalizeEol_of_no_cr (cr_not_mem_xmlStr2Entity s)]
  induction s with
  | nil => simp [decodeGo]
  | cons c s ih =>
      have hs : XmlText s := fun d hd => h d (List.mem_cons_of_mem _ hd)
      rw [xmlStr2Entity_cons, decodeGo_escapeChar place (h c List.mem_cons_self), ih hs]
      rfl

/-- A text without special characters is its own escaping, so the parser
    delivers it as it is. -/
theorem decode_of_plain (place : Place) {s : Text} (h : XmlText s)
    (hplain : ∀ c ∈ s, ∀ p ∈ escapes, c ≠ p.1) : decode place s = some s := by
  conv_lhs => rw [← xmlStr2Entity_of_plain hplain]
  exact decode_xmlStr2Entity place h

end Decode

section SecondDecode

theorem xmlEntity2Str_eq_self_iff (s : Text) : xmlEntity2Str s = s ↔ NoReference s := by
  have hpasses : xmlEntity2Str s =
      Replace.replaceAll (escapes.map fun p => (p.2, [p.1])) s := rfl
  have hshort : ∀ p ∈ escapes.map fun p => (p.2, [p.1]), p.2.length < p.1.length := by decide
  rw [hpasses, Replace.replaceAll_eq_self_iff hshort]
  unfold NoReference references
  simp only [List.forall_mem_map]

/-- A reference starts with an ampersand. -/
theorem noReference_of_no_ampersand {s : Text} (h : '&' ∉ s) : NoReference s := by
  intro r hr hin
  have hall : ∀ q ∈ references, '&' ∈ q := by decide
  exact h (hin.subset (hall r hr))

end SecondDecode

end XevXml
