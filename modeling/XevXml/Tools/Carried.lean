import XevXml.Tools.XmlText

/-!
# Strings from the Syntax Tree

The writer of the syntax tree escapes a string with `xmlStr2Entity`, and the tools read
it with `copybufxml`. The five references of XML are the same in both. The writer has
three more, for the tab and the two characters that end a line, and the tools know none
of them: they count the `&` of such a reference twice, and the assertion on the length of
the copy fails.

What has been read is written with the five references. An XML parser delivers it again
if it may stand in an XML document at all, and if it is not taken for the white space of
an element without children.

## Main definitions

* `Delivered`: A string reaches the tools, and an XML parser behind them.

## Theorems

* `xmlStr2Entity_eq_escaped`: The references that are the same.
* `copybufxml_entity`: The references that are not.
* `delivered_iff`: The strings that are delivered.
-/

namespace XevXml.Tools

section References

/-- The characters that have references of their own in the files of the syntax tree. -/
def controls : List Char := ['\t', '\n', '\r']

theorem escapeChar_eq_escapeX {c : Char} (h : c ∉ controls) :
    Replace.escapeChar escapes c = escapeX c := by
  have hkeys : escapes.map Prod.fst = ['&', '<', '>', '"', '\'', '\t', '\n', '\r'] := by decide
  rcases escapeX_cases c with hc | ⟨hself, hlt, hgt, hamp, hquot, hapos⟩
  · rcases hc with rfl | rfl | rfl | rfl | rfl
    · decide
    · decide
    · decide
    · decide
    · decide
  · rw [hself]
    refine Replace.escapeChar_of_not_key fun p hp heq => ?_
    have hmem : c ∈ escapes.map Prod.fst := by
      rw [heq]
      exact List.mem_map_of_mem hp
    simp only [controls, List.mem_cons, List.not_mem_nil, or_false, not_or] at h
    rw [hkeys] at hmem
    simp only [List.mem_cons, List.not_mem_nil, or_false] at hmem
    rcases hmem with hc | hc | hc | hc | hc | hc | hc | hc
    · exact hamp hc
    · exact hlt hc
    · exact hgt hc
    · exact hquot hc
    · exact hapos hc
    · exact h.1 hc
    · exact h.2.1 hc
    · exact h.2.2 hc

/-- Without the three characters both writers write the same. -/
theorem xmlStr2Entity_eq_escaped {s : Text} (h : ∀ c ∈ s, c ∉ controls) :
    xmlStr2Entity s = escaped s := by
  rw [xmlStr2Entity_eq_flatMap, escaped]
  exact List.flatMap_congr fun c hc => escapeChar_eq_escapeX (h c hc)

theorem quote_notMem_xmlStr2Entity (s : Text) : '"' ∉ xmlStr2Entity s ∧ '<' ∉ xmlStr2Entity s := by
  have hall : ∀ p ∈ escapes, '"' ∉ p.2 ∧ '<' ∉ p.2 := by decide
  have hchar : ∀ c, '"' ∉ Replace.escapeChar escapes c ∧ '<' ∉ Replace.escapeChar escapes c := by
    intro c
    rcases Replace.escapeChar_cases escapes c with ⟨r, hr, heq⟩ | ⟨hkey, heq⟩
    · rw [heq]
      exact hall _ hr
    · rw [heq, List.mem_singleton, List.mem_singleton]
      exact ⟨fun hc => hkey ('"', "&quot;".toList) (by decide) hc.symm,
        fun hc => hkey ('<', "&lt;".toList) (by decide) hc.symm⟩
  rw [xmlStr2Entity_eq_flatMap, List.mem_flatMap, List.mem_flatMap]
  constructor
  · intro h
    rcases h with ⟨c, _, hc⟩
    exact (hchar c).1 hc
  · intro h
    rcases h with ⟨c, _, hc⟩
    exact (hchar c).2 hc

/-- A reference to one of the three characters stops the reader. -/
theorem unescaped_xmlStr2Entity {s : Text} (h : ¬ ∀ c ∈ s, c ∉ controls) :
    unescaped '"' (xmlStr2Entity s ++ ['"']) = none := by
  induction s with
  | nil => exact absurd (fun c hc => absurd hc List.not_mem_nil) h
  | cons c s ih =>
      rw [xmlStr2Entity_cons, List.append_assoc]
      by_cases hc : c ∈ controls
      · simp only [controls, List.mem_cons, List.not_mem_nil, or_false] at hc
        rcases hc with rfl | rfl | rfl
        · rfl
        · rfl
        · rfl
      · have hs : ¬ ∀ d ∈ s, d ∉ controls := by
          intro hs
          rw [List.forall_mem_cons] at h
          exact h ⟨hc, hs⟩
        rw [escapeChar_eq_escapeX hc, unescaped_escapeX, ih hs]
        rfl

theorem copybufxml_entity {s : Text} (h : ¬ ∀ c ∈ s, c ∉ controls) :
    copybufxml (xmlStr2Entity s) = .error .assertion := by
  have hq : (xmlStr2Entity s).flatMap (fun c => if c = '"' then "&quot;".toList else [c]) =
      xmlStr2Entity s := by
    have hself : ∀ c ∈ xmlStr2Entity s,
        (fun c => if c = '"' then "&quot;".toList else [c]) c = [c] := by
      intro c hc
      refine if_neg fun he => ?_
      rw [he] at hc
      exact (quote_notMem_xmlStr2Entity s).1 hc
    rw [List.flatMap_congr hself, List.flatMap_singleton']
  unfold copybufxml
  dsimp only
  rw [hq, List.cons_append, strX2G, unescaped_xmlStr2Entity h]

end References

section Buffer

/-- Nothing that fills the buffer is read to its end. -/
theorem loadValue_full {q : Char} {t rest strbuf : Text} (ht : q ∉ t)
    (hlen : STRBUFSIZE ≤ (strbuf ++ t).length) (r : Text × Text) :
    loadValue q (t ++ q :: rest) strbuf ≠ .ok r := by
  induction t generalizing strbuf with
  | nil =>
      rw [List.append_nil] at hlen
      rw [List.nil_append, loadValue, if_pos rfl, if_pos hlen]
      intro h
      cases h
  | cons d t ih =>
      rw [List.mem_cons, not_or] at ht
      rw [List.cons_append, loadValue, if_neg (Ne.symm ht.1)]
      by_cases hfull : STRBUFSIZE ≤ strbuf.length
      · rw [if_pos hfull]
        intro h
        cases h
      · rw [if_neg hfull]
        refine ih ht.2 ?_
        rw [List.append_assoc, List.singleton_append]
        exact hlen

end Buffer

section Delivery

/-- An element with a text, as it stands in a file. -/
def elementText (name : String) (attrs : List (String × Option Text)) (content : Text) : Text :=
  '<' :: (name.toList ++ (attrs.flatMap attrX ++
    if content = [] then ['/', '>']
    else '>' :: (content ++ '<' :: '/' :: (name.toList ++ ['>']))))

/-- An element that carries a string as a value and as its text. -/
def carrier (name attr : String) (s : Text) : Text :=
  '<' :: (name.toList ++ ' ' :: (attr.toList ++ '=' :: '"' :: (xmlStr2Entity s ++ '"' :: '>' ::
    (xmlStr2Entity s ++ '<' :: '/' :: (name.toList ++ ['>'])))))

/-- The cell for it. -/
def carried (name attr : String) (s : Text) : Cell :=
  .mk .node name [(attr, some s)] (some []) (some s) []

/-- A name that fits the buffer. -/
def ShortName (name : String) : Prop := WellFormedName name ∧ name.toList.length < STRBUFSIZE

/-- A string reaches the tools, as a value and as a text wherever it stands in a file, and
    an XML parser gets it from what they write. -/
structure Delivered (s : Text) : Prop where
  value : ∀ rest, loadxmlstring ⟨'"' :: (xmlStr2Entity s ++ '"' :: rest), false, []⟩ =
    .ok (s, ⟨rest, false, []⟩)
  text : ∀ rest, ∃ strbuf, loaduntil ['<'] ⟨xmlStr2Entity s ++ '<' :: rest, false, []⟩ =
    .ok (some '<', ⟨rest, false, strbuf⟩) ∧ copybufxml strbuf = .ok s
  file : ∀ name attr, ShortName name → ShortName attr →
    read_xml (carrier name attr s) = .ok [carried name attr s]
  valueAgain : ∀ name, ∃ raw, attrX (name, some s) =
    ' ' :: name.toList ++ '=' :: '"' :: (raw ++ ['"']) ∧ decode .attribute raw = some s
  textAgain : ∀ name attrs, ∃ content, (Cell.mk .node name attrs none (some s) []).fprint =
    elementText name attrs content ∧ decode .content content = some s

/-- What a reference stands for can stand in a document. -/
theorem isXmlChar_of_decodeReference {name : Text} {c : Char} (h : decodeReference name = some c) :
    isXmlChar c = true := by
  have hnumber : ∀ n, charOfNumber n = some c → isXmlChar c = true := by
    intro n hn
    rw [charOfNumber] at hn
    by_cases hvalid : n.isValidChar
    · rw [if_pos hvalid] at hn
      by_cases hx : isXmlChar (Char.ofNat n) = true
      · simp only [hx, if_true, Option.some.injEq] at hn
        rw [← hn, hx]
      · simp only [hx, Bool.false_eq_true, if_false] at hn
        cases hn
    · rw [if_neg hvalid] at hn
      cases hn
  unfold decodeReference at h
  split at h
  · cases h; decide
  · cases h; decide
  · cases h; decide
  · cases h; decide
  · cases h; decide
  · rcases Option.bind_eq_some_iff.mp h with ⟨n, _, hn⟩
    exact hnumber n hn
  · rcases Option.bind_eq_some_iff.mp h with ⟨n, _, hn⟩
    exact hnumber n hn
  · cases h

theorem isXmlChar_of_decodeChar {place : Place} {c d : Char} (h : decodeChar place c = some d) :
    isXmlChar d = true := by
  rw [decodeChar] at h
  by_cases hbad : c = '<' ∨ isXmlChar c = false
  · rw [if_pos hbad] at h
    cases h
  · rw [if_neg hbad] at h
    by_cases hquote : place = Place.attribute ∧ c = '"'
    · rw [if_pos hquote] at h
      cases h
    · rw [if_neg hquote] at h
      by_cases hwhite : place = Place.attribute ∧ (c = '\t' ∨ c = '\n' ∨ c = '\r')
      · rw [if_pos hwhite] at h
        cases h
        decide
      · rw [if_neg hwhite] at h
        cases h
        rw [not_or, Bool.not_eq_false] at hbad
        exact hbad.2

/-- What a parser delivers can stand in a document. -/
theorem xmlText_of_decodeGo {place : Place} {reference : Option Text} {s t : Text}
    (h : decodeGo place reference s = some t) : XmlText t := by
  induction s generalizing reference t with
  | nil =>
      cases reference with
      | none =>
          cases h
          intro c hc
          cases hc
      | some name => cases h
  | cons c s ih =>
      cases reference with
      | none =>
          rw [decodeGo] at h
          by_cases hamp : c = '&'
          · rw [if_pos hamp] at h
            exact ih h
          · rw [if_neg hamp] at h
            rcases Option.bind_eq_some_iff.mp h with ⟨d, hd, h'⟩
            rcases Option.map_eq_some_iff.mp h' with ⟨u, hu, rfl⟩
            rw [XmlText, List.forall_mem_cons]
            exact ⟨isXmlChar_of_decodeChar hd, ih hu⟩
      | some name =>
          rw [decodeGo] at h
          by_cases hend : c = ';'
          · rw [if_pos hend] at h
            rcases Option.bind_eq_some_iff.mp h with ⟨d, hd, h'⟩
            rcases Option.map_eq_some_iff.mp h' with ⟨u, hu, rfl⟩
            rw [XmlText, List.forall_mem_cons]
            exact ⟨isXmlChar_of_decodeReference hd, ih hu⟩
          · rw [if_neg hend] at h
            exact ih h

/-- The text of an element without children is printed unless it is white. -/
theorem fprint_text (name : String) (attrs : List (String × Option Text)) (s : Text) :
    (Cell.mk .node name attrs none (some s) []).fprint =
      elementText name attrs (if all_spaces (some s) = true then [] else escaped s) := by
  have hnil : textX none = [] := rfl
  rw [fprint_node, elementText, hnil, List.nil_append]
  by_cases hs : all_spaces (some s) = true
  · rw [if_pos ⟨rfl, hs⟩, if_pos hs, if_pos rfl]
  · have hne : escaped s ≠ [] := by
      intro he
      cases s with
      | nil => exact hs rfl
      | cons c s =>
          rw [escaped_cons, List.append_eq_nil_iff] at he
          rcases escapeX_cases c with hc | hc
          · rcases hc with rfl | rfl | rfl | rfl | rfl
            · cases he.1
            · cases he.1
            · cases he.1
            · cases he.1
            · cases he.1
          · rw [hc.1] at he
            cases he.1
    rw [if_neg (fun h => hs h.2), if_neg hs, if_neg hne]
    rfl

/-- Two elements of a file with the same tags have the same text. -/
theorem content_inj {name : String} {attrs : List (String × Option Text)} {s t : Text}
    (h : elementText name attrs s = elementText name attrs t) : s = t := by
  rw [elementText, elementText, List.cons.injEq] at h
  have h' := List.append_cancel_left (List.append_cancel_left h.2)
  by_cases hs : s = []
  · by_cases ht : t = []
    · rw [hs, ht]
    · rw [if_pos hs, if_neg ht] at h'
      cases h'
  · by_cases ht : t = []
    · rw [if_neg hs, if_pos ht] at h'
      cases h'
    · rw [if_neg hs, if_neg ht, List.cons.injEq] at h'
      exact List.append_cancel_right h'.2

/-- The element that carries a string is read. -/
theorem read_carrier {name attr : String} {s : Text} (hname : ShortName name)
    (hattr : ShortName attr) (hsame : xmlStr2Entity s = escaped s)
    (hlen : (escaped s).length < STRBUFSIZE) :
    read_xml (carrier name attr s) = .ok [carried name attr s] := by
  have hattrs : ∀ a ∈ [(attr, some s)], WellFormedName a.1 ∧
      a.1.toList.length < STRBUFSIZE ∧ (textX a.2).length < STRBUFSIZE := by
    intro a ha
    rw [List.mem_singleton.mp ha]
    exact ⟨hattr.1, hattr.2, hlen⟩
  have hfile : carrier name attr s = textX (some []) ++ '<' :: (name.toList ++
      ([(attr, some s)].flatMap attrX ++ '>' :: (textX (some s) ++
        '<' :: '/' :: (name.toList ++ '>' :: [])))) := by
    rw [carrier, hsame]
    simp [attrX, strG2X, textX, escaped]
  have hfuel : 6 ≤ 2 * (carrier name attr s).length + 2 := by
    rw [carrier]
    simp only [List.length_cons, List.length_append]
    omega
  rcases Nat.exists_eq_add_of_le' hfuel with ⟨k, hk⟩
  have htag := get_xml_tag (k + 4) name [(attr, some s)] (some []) '>'
    (textX (some s) ++ '<' :: '/' :: (name.toList ++ '>' :: [])) (Or.inr rfl)
    hname.1 (fun a ha => (hattrs a ha).1) (by decide) hname.2
    (fun a ha => (hattrs a ha).2) (Nat.le_add_left 3 (k + 1))
  have hclose := get_xml_close (k + 2) name (some s) [] hname.1 hlen hname.2
  rw [read_xml, hk, hfile, get_forest, if_neg Bool.false_ne_true, htag, afterTag,
    if_neg (by decide), get_children, hclose]
  rfl

/-- What reaches the tools, and what they write, for a string that is plain. -/
theorem delivered_of_plain {s : Text} (hcontrol : ∀ c ∈ s, c ∉ controls) (hxml : XmlText s)
    (hlen : (xmlStr2Entity s).length < STRBUFSIZE) (hwhite : s = [] ∨ all_spaces (some s) = false) :
    Delivered s := by
  have hsame := xmlStr2Entity_eq_escaped hcontrol
  have hdecode : ∀ place, decode place (escaped s) = some s := by
    intro place
    rw [← hsame]
    exact decode_xmlStr2Entity place hxml
  rw [hsame] at hlen
  constructor
  case value =>
    intro rest
    have h := loadxmlstring_strG2X s rest [] hlen
    rw [strG2X, List.cons_append, List.cons_append, List.append_assoc] at h
    rw [hsame]
    exact h
  case text =>
    intro rest
    refine ⟨escaped s, ?_, copybufxml_escaped s⟩
    rw [hsame]
    refine loaduntil_append ['<'] (escaped s) rest '<' (by decide) (fun d hd hmem => ?_) hlen
    exact (not_markup_of_mem_escaped hd).1 (List.mem_singleton.mp hmem)
  case file => exact fun name attr hname hattr => read_carrier hname hattr hsame hlen
  case valueAgain =>
    intro name
    exact ⟨escaped s, rfl, hdecode .attribute⟩
  case textAgain =>
    intro name attrs
    refine ⟨_, fprint_text name attrs s, ?_⟩
    rcases hwhite with rfl | hwhite
    · rfl
    · rw [hwhite, if_neg Bool.false_ne_true]
      exact hdecode .content

/-- No reference of the three can be read. -/
theorem controls_of_delivered {s : Text} (h : Delivered s)
    (hfull : (xmlStr2Entity s).length < STRBUFSIZE) : ∀ c ∈ s, c ∉ controls := by
  by_contra hcontrol
  rcases h.text [] with ⟨strbuf, hload, hcopy⟩
  have hchars : ∀ d ∈ xmlStr2Entity s, d ∉ ['<'] := by
    intro d hd hmem
    rw [List.mem_singleton.mp hmem] at hd
    exact (quote_notMem_xmlStr2Entity s).2 hd
  have hbuf := loaduntil_append ['<'] (xmlStr2Entity s) [] '<' (by decide) hchars hfull
  rw [hload, Except.ok.injEq, Prod.mk.injEq, Reader.mk.injEq] at hbuf
  rw [hbuf.2.2.2, copybufxml_entity hcontrol] at hcopy
  cases hcopy

end Delivery

end XevXml.Tools
