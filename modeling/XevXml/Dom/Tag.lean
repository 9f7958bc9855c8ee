import XevXml.Dom.Xml

/-!
# Start Tags

The attributes of a start tag as an XML parser reads them from the text of the document. The
parser takes one character after the other: names end at an equals sign, values at the quote
they began with, there is white space in front of every attribute, and no name may come twice.
It goes on with the rest of the document behind the end of the tag.

A writer puts the quotes down itself, so a value that has a quote in it ends early. Then the
parser delivers less than the value, whatever it makes of the remainder. A value without a
quote is delivered as it is decoded, and what is decoded to itself has no reference and no
white space but blanks.

## Main definitions

* `TagState`, `readTag`: The parser, and what it is in the middle of.
* `Written`: An attribute as it is written.
* `Clean`: Texts that can stand in an attribute as they are.

## Theorems

* `decode_eq_self_iff`: A text is decoded to itself exactly if it is clean.
* `decode_escaped_iff`: An escaped text is decoded to the text it was made of exactly if it has
  characters of XML only.
* `readTag_written_iff`: When written attributes are delivered.
-/

namespace XevXml

section Reader

/-- White space between attributes. -/
def isXmlSpace (c : Char) : Bool := c = ' ' || c = '\t' || c = '\n' || c = '\r'

/-- The characters a name may begin with. -/
def isNameStart (c : Char) : Bool :=
  c = ':' || c = '_' || c.isAlpha || (0xC0 ≤ c.toNat && c.toNat ≤ 0xD6) ||
    (0xD8 ≤ c.toNat && c.toNat ≤ 0xF6) || (0xF8 ≤ c.toNat && c.toNat ≤ 0x2FF) ||
    (0x370 ≤ c.toNat && c.toNat ≤ 0x37D) || (0x37F ≤ c.toNat && c.toNat ≤ 0x1FFF) ||
    (0x200C ≤ c.toNat && c.toNat ≤ 0x200D) || (0x2070 ≤ c.toNat && c.toNat ≤ 0x218F) ||
    (0x2C00 ≤ c.toNat && c.toNat ≤ 0x2FEF) || (0x3001 ≤ c.toNat && c.toNat ≤ 0xD7FF) ||
    (0xF900 ≤ c.toNat && c.toNat ≤ 0xFDCF) || (0xFDF0 ≤ c.toNat && c.toNat ≤ 0xFFFD) ||
    (0x10000 ≤ c.toNat && c.toNat ≤ 0xEFFFF)

/-- The characters of a name behind its first one. -/
def isNameChar (c : Char) : Bool :=
  isNameStart c || c = '-' || c = '.' || c.isDigit || c.toNat = 0xB7 ||
    (0x300 ≤ c.toNat && c.toNat ≤ 0x36F) || (0x203F ≤ c.toNat && c.toNat ≤ 0x2040)

/-- What the parser is in the middle of. -/
inductive TagState
  | gap (space : Bool)
  | name (n : Text)
  | behindName (n : Text)
  | behindEquals (n : Text)
  | value (n : Text) (quote : Char) (v : Text)
  | slash
deriving DecidableEq, Repr

/-- The value between two quotes. A double quote is no end of a value in single quotes. -/
def decodeValue (v : Text) : Option Text :=
  decode .attribute (v.flatMap fun c => if c = '"' then "&quot;".toList else [c])

/-- The attributes up to the end of the tag, and the rest of the document. -/
def readTag : TagState → List (Text × Text) → Text → Option (List (Text × Text) × Text)
  | _, _, [] => none
  | .gap space, attrs, c :: s =>
      if isXmlSpace c = true then readTag (.gap true) attrs s
      else if c = '>' then some (attrs, s)
      else if c = '/' then readTag .slash attrs s
      else if space = true ∧ isNameStart c = true then readTag (.name [c]) attrs s
      else none
  | .name n, attrs, c :: s =>
      if isNameChar c = true then readTag (.name (n ++ [c])) attrs s
      else if c = '=' then readTag (.behindEquals n) attrs s
      else if isXmlSpace c = true then readTag (.behindName n) attrs s
      else none
  | .behindName n, attrs, c :: s =>
      if isXmlSpace c = true then readTag (.behindName n) attrs s
      else if c = '=' then readTag (.behindEquals n) attrs s
      else none
  | .behindEquals n, attrs, c :: s =>
      if isXmlSpace c = true then readTag (.behindEquals n) attrs s
      else if c = '"' ∨ c = '\'' then readTag (.value n c []) attrs s
      else none
  | .value n quote v, attrs, c :: s =>
      if c = quote then
        (decodeValue v).bind fun d =>
          if n ∈ attrs.map Prod.fst then none else readTag (.gap false) (attrs ++ [(n, d)]) s
      else readTag (.value n quote (v ++ [c])) attrs s
  | .slash, attrs, c :: s => if c = '>' then some (attrs, s) else none

/-- Whether a text is a name. -/
def isXmlName : Text → Bool
  | [] => false
  | c :: s => isNameStart c && s.all isNameChar

/-- An attribute as it is written: its name, what is between the quotes, and the white space
    behind it. -/
structure Written where
  name : Text
  body : Text
  space : Text
deriving DecidableEq, Repr

/-- The text of an attribute. -/
def Written.text (w : Written) : Text :=
  ' ' :: w.name ++ '=' :: '"' :: w.body ++ '"' :: w.space

/-- Texts that stand in an attribute for themselves. -/
def Clean (s : Text) : Prop :=
  ∀ c ∈ s, isXmlChar c = true ∧ c ∉ ['"', '<', '&', '\t', '\n', '\r']

instance (s : Text) : Decidable (Clean s) :=
  inferInstanceAs (Decidable (∀ c ∈ s, isXmlChar c = true ∧ c ∉ ['"', '<', '&', '\t', '\n', '\r']))

end Reader

section Decoding

theorem xmlText_cons_iff (c : Char) (s : Text) :
    XmlText (c :: s) ↔ isXmlChar c = true ∧ XmlText s := List.forall_mem_cons

theorem clean_append_iff (s t : Text) : Clean (s ++ t) ↔ Clean s ∧ Clean t := List.forall_mem_append

theorem isXmlChar_of_charOfNumber {n : Nat} {c : Char} (h : charOfNumber n = some c) :
    isXmlChar c = true := by
  unfold charOfNumber at h
  split at h
  · dsimp only at h
    split at h
    · rename_i hxml
      exact Option.some.inj h ▸ hxml
    · exact nomatch h
  · exact nomatch h

theorem isXmlChar_of_decodeReference {name : Text} {c : Char}
    (h : decodeReference name = some c) : isXmlChar c = true := by
  unfold decodeReference at h
  split at h
  · exact Option.some.inj h ▸ rfl
  · exact Option.some.inj h ▸ rfl
  · exact Option.some.inj h ▸ rfl
  · exact Option.some.inj h ▸ rfl
  · exact Option.some.inj h ▸ rfl
  · rw [Option.bind_eq_some_iff] at h
    rcases h with ⟨n, -, h⟩
    exact isXmlChar_of_charOfNumber h
  · rw [Option.bind_eq_some_iff] at h
    rcases h with ⟨n, -, h⟩
    exact isXmlChar_of_charOfNumber h
  · exact nomatch h

theorem isXmlChar_of_decodeChar {place : Place} {c d : Char} (h : decodeChar place c = some d) :
    isXmlChar d = true := by
  unfold decodeChar at h
  split at h
  · exact nomatch h
  · rename_i hxml
    split at h
    · exact nomatch h
    · split at h
      · exact Option.some.inj h ▸ rfl
      · rw [← Option.some.inj h]
        by_contra hnot
        exact hxml (Or.inr (Bool.not_eq_true _ ▸ hnot))

/-- What is decoded has characters of XML only, and is shorter than the text if there is a
    reference. -/
theorem decodeGo_spec {place : Place} {name : Option Text} {s t : Text}
    (h : decodeGo place name s = some t) :
    XmlText t ∧ t.length ≤ s.length ∧ (name = none → '&' ∈ s → t.length < s.length) := by
  induction s generalizing name t with
  | nil =>
      cases name with
      | none =>
          rw [decodeGo, Option.some.injEq] at h
          subst h
          exact ⟨List.forall_mem_nil _, Nat.le_refl _, fun _ hmem => absurd hmem List.not_mem_nil⟩
      | some name =>
          rw [decodeGo] at h
          exact absurd h.symm (Option.some_ne_none t)
  | cons c s ih =>
      -- Inside a reference nothing is written until its semicolon.
      cases name with
      | none =>
          rw [decodeGo] at h
          split at h
          · rcases ih h with ⟨hxml, hle, -⟩
            exact ⟨hxml, Nat.le_succ_of_le hle, fun _ _ => Nat.lt_succ_of_le hle⟩
          · rename_i hamp
            rw [Option.bind_eq_some_iff] at h
            rcases h with ⟨d, hd, h⟩
            rw [Option.map_eq_some_iff] at h
            rcases h with ⟨u, hu, rfl⟩
            rcases ih hu with ⟨hxml, hle, hlt⟩
            refine ⟨(xmlText_cons_iff d u).mpr ⟨isXmlChar_of_decodeChar hd, hxml⟩,
              Nat.succ_le_succ hle, fun _ hmem => ?_⟩
            rcases List.mem_cons.mp hmem with hmem | hmem
            · exact absurd hmem.symm hamp
            · exact Nat.succ_lt_succ (hlt rfl hmem)
      | some name =>
          rw [decodeGo] at h
          split at h
          · rw [Option.bind_eq_some_iff] at h
            rcases h with ⟨d, hd, h⟩
            rw [Option.map_eq_some_iff] at h
            rcases h with ⟨u, hu, rfl⟩
            rcases ih hu with ⟨hxml, hle, -⟩
            exact ⟨(xmlText_cons_iff d u).mpr ⟨isXmlChar_of_decodeReference hd, hxml⟩,
              Nat.succ_le_succ hle, fun hnone => absurd hnone (Option.some_ne_none name)⟩
          · rcases ih h with ⟨hxml, hle, -⟩
            exact ⟨hxml, Nat.le_succ_of_le hle, fun hnone => absurd hnone
              (Option.some_ne_none name)⟩

theorem length_normalizeEol_le (s : Text) : (normalizeEol s).length ≤ s.length := by
  fun_induction normalizeEol s with
  | case1 s ih => exact Nat.le_succ_of_le (Nat.succ_le_succ ih)
  | case2 s hne ih => exact Nat.succ_le_succ ih
  | case3 c s hne hcr ih => exact Nat.succ_le_succ ih
  | case4 => exact Nat.le_refl _

theorem cr_not_mem_normalizeEol (s : Text) : '\r' ∉ normalizeEol s := by
  fun_induction normalizeEol s with
  | case1 s ih => exact List.not_mem_cons_of_ne_of_not_mem (by decide) ih
  | case2 s hne ih => exact List.not_mem_cons_of_ne_of_not_mem (by decide) ih
  | case3 c s hne hcr ih =>
      exact List.not_mem_cons_of_ne_of_not_mem (Ne.symm hcr) ih
  | case4 => exact List.not_mem_nil

/-- A text without references is decoded character by character. -/
theorem decodeGo_eq_self_iff {s : Text} (hamp : '&' ∉ s) :
    decodeGo .attribute none s = some s ↔ ∀ c ∈ s, decodeChar .attribute c = some c := by
  induction s with
  | nil => exact iff_of_true rfl (List.forall_mem_nil _)
  | cons c s ih =>
      rw [List.mem_cons, not_or] at hamp
      rw [decodeGo, if_neg (Ne.symm hamp.1), List.forall_mem_cons, ← ih hamp.2]
      constructor
      · intro h
        rw [Option.bind_eq_some_iff] at h
        rcases h with ⟨d, hd, h⟩
        rw [Option.map_eq_some_iff] at h
        rcases h with ⟨u, hu, heq⟩
        rw [List.cons.injEq] at heq
        exact ⟨heq.1 ▸ hd, heq.2 ▸ hu⟩
      · intro h
        rw [h.1, h.2]
        rfl

theorem decodeChar_eq_self_iff (c : Char) :
    decodeChar .attribute c = some c ↔
      isXmlChar c = true ∧ c ∉ ['"', '<', '\t', '\n', '\r'] := by
  unfold decodeChar
  simp only [List.mem_cons, List.not_mem_nil, or_false, not_or, true_and]
  constructor
  · intro h
    split at h
    · exact nomatch h
    · rename_i hxml
      rw [not_or, Bool.not_eq_false] at hxml
      split at h
      · exact nomatch h
      · rename_i hquote
        split at h
        · rename_i hspace
          rw [Option.some.injEq] at h
          rcases hspace with rfl | rfl | rfl <;> exact absurd h (by decide)
        · rename_i hspace
          rw [not_or, not_or] at hspace
          exact ⟨hxml.2, hquote, hxml.1, hspace.1, hspace.2.1, hspace.2.2⟩
  · intro h
    rcases h with ⟨hxml, hquote, hless, htab, hnl, hcr⟩
    rw [if_neg (by simp [hless, hxml]), if_neg hquote, if_neg (by simp [htab, hnl, hcr])]

/-- Only a reference makes a carriage return. -/
theorem cr_not_mem_of_decodeGo {s t : Text} (hamp : '&' ∉ s) (hcr : '\r' ∉ s)
    (h : decodeGo .attribute none s = some t) : '\r' ∉ t := by
  induction s generalizing t with
  | nil =>
      rw [decodeGo, Option.some.injEq] at h
      exact h ▸ List.not_mem_nil
  | cons c s ih =>
      rw [List.mem_cons, not_or] at hamp hcr
      rw [decodeGo, if_neg (Ne.symm hamp.1), Option.bind_eq_some_iff] at h
      rcases h with ⟨d, hd, h⟩
      rw [Option.map_eq_some_iff] at h
      rcases h with ⟨u, hu, rfl⟩
      refine List.not_mem_cons_of_ne_of_not_mem ?_ (ih hamp.2 hcr.2 hu)
      unfold decodeChar at hd
      split at hd
      · exact absurd hd.symm (Option.some_ne_none d)
      · split at hd
        · exact absurd hd.symm (Option.some_ne_none d)
        · split at hd
          · rw [← Option.some.inj hd]
            decide
          · rw [← Option.some.inj hd]
            exact hcr.1

/-- A text is decoded to itself exactly if it is clean. -/
theorem decode_eq_self_iff (s : Text) : decode .attribute s = some s ↔ Clean s := by
  have hclean : Clean s ↔ '&' ∉ s ∧ ∀ c ∈ s, decodeChar .attribute c = some c := by
    unfold Clean
    simp only [decodeChar_eq_self_iff, List.mem_cons, List.not_mem_nil, or_false, not_or]
    constructor
    · intro h
      refine ⟨fun hamp => (h '&' hamp).2.2.2.1 rfl, fun c hc => ?_⟩
      rcases h c hc with ⟨hxml, hquote, hless, -, hspace⟩
      exact ⟨hxml, hquote, hless, hspace⟩
    · intro h c hc
      rcases h.2 c hc with ⟨hxml, hquote, hless, hspace⟩
      exact ⟨hxml, hquote, hless, fun hamp => h.1 (hamp ▸ hc), hspace⟩
  rw [hclean, decode]
  constructor
  · intro h
    rcases decodeGo_spec h with ⟨-, -, hlt⟩
    -- A reference would make the text shorter.
    have hamp : '&' ∉ normalizeEol s := by
      intro hmem
      have hless := hlt rfl hmem
      have hle := length_normalizeEol_le s
      omega
    have hcr : '\r' ∉ s := cr_not_mem_of_decodeGo hamp (cr_not_mem_normalizeEol s) h
    rw [normalizeEol_of_no_cr hcr] at h hamp
    exact ⟨hamp, (decodeGo_eq_self_iff hamp).mp h⟩
  · intro h
    have hcr : '\r' ∉ s := by
      intro hmem
      have hchar := (decodeChar_eq_self_iff '\r').mp (h.2 _ hmem)
      exact hchar.2 (by decide)
    rw [normalizeEol_of_no_cr hcr]
    exact (decodeGo_eq_self_iff h.1).mpr h.2

/-- An escaped text is decoded to the text it was made of exactly if it has characters of XML
    only. -/
theorem decode_escaped_iff (s : Text) :
    decode .attribute (xmlStr2Entity s) = some s ↔ XmlText s := by
  constructor
  · intro h
    exact (decodeGo_spec h).1
  · exact decode_xmlStr2Entity .attribute

/-- A character that is escaped does not occur in an escaped text unless a reference has it. -/
theorem not_mem_xmlStr2Entity {d : Char} (hkey : ∃ p ∈ escapes, p.1 = d)
    (href : ∀ p ∈ escapes, d ∉ p.2) (s : Text) : d ∉ xmlStr2Entity s := by
  rw [xmlStr2Entity_eq_flatMap, List.mem_flatMap]
  intro hmem
  rcases hmem with ⟨c, -, hc⟩
  rcases Replace.escapeChar_cases escapes c with ⟨r, hr, heq⟩ | ⟨hno, heq⟩
  · rw [heq] at hc
    exact href _ hr hc
  · rw [heq, List.mem_singleton] at hc
    rcases hkey with ⟨p, hp, hpd⟩
    exact hno p hp (hc.symm.trans hpd.symm)

theorem length_decode_le {s t : Text} (h : decode .attribute s = some t) : t.length ≤ s.length :=
  (decodeGo_spec h).2.1.trans (length_normalizeEol_le s)

end Decoding

section Reading

variable {attrs : List (Text × Text)}

theorem decodeValue_of_no_quote {v : Text} (h : '"' ∉ v) :
    decodeValue v = decode .attribute v := by
  have hsame : (v.flatMap fun c => if c = '"' then "&quot;".toList else [c]) = v := by
    induction v with
    | nil => rfl
    | cons c v ih =>
        rw [List.mem_cons, not_or] at h
        rw [List.flatMap_cons, ih h.2, if_neg (Ne.symm h.1)]
        rfl
  rw [decodeValue, hsame]

theorem readTag_gap_blank {w : Text} (hw : ∀ c ∈ w, isXmlSpace c = true) (b : Bool)
    (attrs : List (Text × Text)) (s : Text) :
    readTag (.gap b) attrs (w ++ ' ' :: s) = readTag (.gap true) attrs s := by
  induction w generalizing b with
  | nil =>
      rw [List.nil_append, readTag]
      rfl
  | cons c w ih =>
      rw [List.forall_mem_cons] at hw
      rw [List.cons_append, readTag, if_pos hw.1]
      exact ih hw.2 true

theorem readTag_gap_end {w : Text} (hw : ∀ c ∈ w, isXmlSpace c = true) (b : Bool)
    (attrs : List (Text × Text)) (s : Text) :
    readTag (.gap b) attrs (w ++ '>' :: s) = some (attrs, s) := by
  induction w generalizing b with
  | nil =>
      rw [List.nil_append, readTag]
      rfl
  | cons c w ih =>
      rw [List.forall_mem_cons] at hw
      rw [List.cons_append, readTag, if_pos hw.1]
      exact ih hw.2 true

theorem readTag_name {m : Text} (hm : ∀ c ∈ m, isNameChar c = true) (n : Text)
    (attrs : List (Text × Text)) (s : Text) :
    readTag (.name n) attrs (m ++ '=' :: s) = readTag (.behindEquals (n ++ m)) attrs s := by
  induction m generalizing n with
  | nil =>
      rw [List.nil_append, List.append_nil, readTag, if_neg (by decide), if_pos rfl]
  | cons c m ih =>
      rw [List.forall_mem_cons] at hm
      rw [List.cons_append, readTag, if_pos hm.1, ih hm.2, List.append_assoc, List.singleton_append]

theorem readTag_value {v : Text} (hv : '"' ∉ v) (n u : Text) (attrs : List (Text × Text))
    (s : Text) :
    readTag (.value n '"' u) attrs (v ++ '"' :: s) =
      (decodeValue (u ++ v)).bind fun d =>
        if n ∈ attrs.map Prod.fst then none else readTag (.gap false) (attrs ++ [(n, d)]) s := by
  induction v generalizing u with
  | nil => rw [List.nil_append, List.append_nil, readTag, if_pos rfl]
  | cons c v ih =>
      rw [List.mem_cons, not_or] at hv
      rw [List.cons_append, readTag, if_neg (Ne.symm hv.1), ih hv.2, List.append_assoc,
        List.singleton_append]

/-- An attribute is read up to the first quote in its value. -/
theorem readTag_attribute {n v : Text} (hn : isXmlName n = true) (hv : '"' ∉ v)
    (hnew : n ∉ attrs.map Prod.fst) (s : Text) :
    readTag (.gap true) attrs (n ++ '=' :: '"' :: (v ++ '"' :: s)) =
      (decode .attribute v).bind fun d => readTag (.gap false) (attrs ++ [(n, d)]) s := by
  rcases n with _ | ⟨c, m⟩
  · exact Bool.noConfusion hn
  rw [isXmlName, Bool.and_eq_true, List.all_eq_true] at hn
  rcases hn with ⟨hc, hm⟩
  -- The first character of a name is no end of the tag.
  have hother : isXmlSpace c = false ∧ c ≠ '>' ∧ c ≠ '/' := by
    refine ⟨?_, ?_, ?_⟩
    · by_contra hspace
      rw [Bool.not_eq_false] at hspace
      unfold isXmlSpace at hspace
      simp only [Bool.or_eq_true, decide_eq_true_eq] at hspace
      rcases hspace with ((rfl | rfl) | rfl) | rfl <;> exact absurd hc (by decide)
    · intro h
      subst h
      exact absurd hc (by decide)
    · intro h
      subst h
      exact absurd hc (by decide)
  rw [List.cons_append, readTag, hother.1, if_neg Bool.false_ne_true, if_neg hother.2.1,
    if_neg hother.2.2, if_pos ⟨rfl, hc⟩, readTag_name hm, readTag, if_neg (by decide),
    if_pos (Or.inl rfl), readTag_value hv, List.nil_append, decodeValue_of_no_quote hv]
  simp only [List.singleton_append, if_neg hnew]

/-- What has been read remains. -/
theorem isPrefix_of_readTag {st : TagState} {s rest : Text} {all : List (Text × Text)}
    (h : readTag st attrs s = some (all, rest)) : attrs <+: all := by
  induction s generalizing st attrs with
  | nil => exact nomatch h
  | cons c s ih =>
      -- Only the end of a value adds an attribute, and it adds it behind the others.
      cases st with
      | gap space =>
          rw [readTag] at h
          split at h
          · exact ih h
          · split at h
            · rw [Option.some.injEq, Prod.mk.injEq] at h
              exact h.1 ▸ List.prefix_rfl
            · split at h
              · exact ih h
              · split at h
                · exact ih h
                · exact nomatch h
      | name n =>
          rw [readTag] at h
          split at h
          · exact ih h
          · split at h
            · exact ih h
            · split at h
              · exact ih h
              · exact nomatch h
      | behindName n =>
          rw [readTag] at h
          split at h
          · exact ih h
          · split at h
            · exact ih h
            · exact nomatch h
      | behindEquals n =>
          rw [readTag] at h
          split at h
          · exact ih h
          · split at h
            · exact ih h
            · exact nomatch h
      | value n quote v =>
          rw [readTag] at h
          split at h
          · rw [Option.bind_eq_some_iff] at h
            rcases h with ⟨d, -, h⟩
            split at h
            · exact nomatch h
            · exact (List.prefix_append _ _).trans (ih h)
          · exact ih h
      | slash =>
          rw [readTag] at h
          split at h
          · rw [Option.some.injEq, Prod.mk.injEq] at h
            exact h.1 ▸ List.prefix_rfl
          · exact nomatch h

/-- Written attributes are delivered with the wanted values exactly if no value has a quote in it
    and each is decoded to the wanted one. The wanted value of one that has a quote in it is what
    is written. -/
theorem readTag_written_iff (l : List (Written × Text))
    (hname : ∀ w ∈ l, isXmlName w.1.name = true)
    (hspace : ∀ w ∈ l, ∀ c ∈ w.1.space, isXmlSpace c = true)
    (hnodup : (attrs.map Prod.fst ++ l.map fun w => w.1.name).Nodup)
    (hwant : ∀ w ∈ l, '"' ∈ w.1.body → w.2 = w.1.body) {space : Text}
    (hsp : ∀ c ∈ space, isXmlSpace c = true) (b : Bool) (rest : Text) :
    readTag (.gap b) attrs (space ++ (l.flatMap (fun w => w.1.text) ++ '>' :: rest)) =
        some (attrs ++ l.map fun w => (w.1.name, w.2), rest) ↔
      ∀ w ∈ l, '"' ∉ w.1.body ∧ decode .attribute w.1.body = some w.2 := by
  induction l generalizing attrs space b with
  | nil =>
      rw [List.flatMap_nil, List.nil_append, readTag_gap_end hsp, List.map_nil, List.append_nil]
      exact iff_of_true rfl (List.forall_mem_nil _)
  | cons p l ih =>
      rcases p with ⟨w, want⟩
      rw [List.forall_mem_cons] at hname hspace hwant ⊢
      have hnew : w.name ∉ attrs.map Prod.fst := by
        intro hmem
        exact (List.nodup_append.mp hnodup).2.2 _ hmem _ List.mem_cons_self rfl
      have hrest : ∀ d, ((attrs ++ [(w.name, d)]).map Prod.fst ++
        l.map fun w => w.1.name).Nodup := by
        intro d
        rw [List.map_append, List.append_assoc]
        exact hnodup
      have htext : space ++ (((w, want) :: l).flatMap (fun w => w.1.text) ++ '>' :: rest) =
          space ++ ' ' :: (w.name ++ '=' :: '"' :: (w.body ++ '"' ::
            (w.space ++ (l.flatMap (fun w => w.1.text) ++ '>' :: rest)))) := by
        simp only [List.flatMap_cons, Written.text, List.append_assoc, List.cons_append]
      rw [htext, readTag_gap_blank hsp, List.map_cons]
      -- What is delivered for this attribute is in its place.
      have hplace : ∀ {d : Text} {s : Text},
          readTag (.gap false) (attrs ++ [(w.name, d)]) s =
            some (attrs ++ (w.name, want) :: l.map fun w => (w.1.name, w.2), rest) → d = want := by
        intro d s h
        have hpre := isPrefix_of_readTag h
        rw [List.prefix_append_right_inj, List.cons_prefix_cons] at hpre
        exact congrArg Prod.snd hpre.1
      by_cases hquote : '"' ∈ w.body
      · refine iff_of_false ?_ fun h => h.1.1 hquote
        intro h
        rcases List.eq_append_cons_of_mem hquote with ⟨v, u, hbody, hv⟩
        have hafter : w.body ++ '"' :: (w.space ++ (l.flatMap (fun w => w.1.text) ++ '>' :: rest)) =
            v ++ '"' ::
              (u ++ '"' :: (w.space ++ (l.flatMap (fun w => w.1.text) ++ '>' :: rest))) := by
          rw [hbody, List.append_assoc, List.cons_append]
        rw [hafter, readTag_attribute hname.1 hv hnew, Option.bind_eq_some_iff] at h
        rcases h with ⟨d, hd, h⟩
        -- Less than the value is delivered.
        have hwhole : want = w.body := hwant.1 hquote
        have hlen := length_decode_le hd
        rw [hplace h, hwhole, hbody, List.length_append, List.length_cons] at hlen
        omega
      · have hih := ih hname.2 hspace.2 (hrest want) hwant.2 hspace.1 false
        rw [List.append_assoc, List.singleton_append] at hih
        rw [readTag_attribute hname.1 hquote hnew]
        constructor
        · intro h
          rw [Option.bind_eq_some_iff] at h
          rcases h with ⟨d, hd, h⟩
          have hdw := hplace h
          subst hdw
          exact ⟨⟨hquote, hd⟩, hih.mp h⟩
        · intro h
          rw [h.1.2, Option.bind_some]
          exact hih.mpr h.2

end Reading

end XevXml
