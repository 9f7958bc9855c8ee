import XevXml.Ast.Carriers

/-!
# Integer Literals

The integer literals of the dialect and the spellings the front ends accept
for them: decimal digits, an octal spelling with a leading zero, or a
hexadecimal one, each with a suffix of the letters `u` and `l` or a Fortran
kind. All nine literal classes are members of one family, written and read by
`attribVal` and `visitVal`.

The spelling is all that the file contains of a literal that has one, and the
reader computes the value back from it with a stream extraction, which knows
only base ten. A decimal spelling gives the value back whatever its suffix. A
hexadecimal one is read up to the `x`, that is, as zero. An octal one is read
as if it were decimal. That gives the value back below eight, and it does so
once more by accident: the greatest value of the type has an octal spelling
which overflows when it is taken for decimal, and an overflowing extraction
yields the greatest value.

A spelling that equals the printed value is dropped by the reader. The literal
then prints as before, but its spelling is the empty string.

## Main definitions

* `IntType`: The integer base types with a literal class of their own.
* `IntType.attrib`, `IntType.visit`: Writer and reader of each class.
* `Radix`: The three kinds of spelling.
* `Spelling`: A spelling the front ends accept.
* `Spelling.text`, `Spelling.value`: What it looks like and what it denotes.
* `SpelledLiteral`: A literal whose type holds its value.
* `SpelledLiteral.reread`: The literal after writing, parsing and reading.
* `Spelling.ReadsDecimal`: The spellings a decimal reader understands.

## Theorems

* `extract_text_iff`: When the value is read back from the spelling.
* `literal_value_iff`: When a literal keeps its value.
* `literal_roundtrip_iff`: When it keeps both value and spelling.
* `canonical_spelling_dropped`: What becomes of a printed spelling.
-/

namespace XevXml

/-- The integer base types with a literal class of their own. -/
inductive IntType
  | int
  | longInt
  | longLongInt
  | short
  | unsignedInt
  | unsignedLongLongInt
  | unsignedLong
  | unsignedShort
  | wchar
deriving DecidableEq, Repr

namespace IntType

/-- The machine format of a base type. -/
def format : IntType → Numeral.Format
  | int => { signed := true, bits := 32 }
  | longInt => { signed := true, bits := 64 }
  | longLongInt => { signed := true, bits := 64 }
  | short => { signed := true, bits := 16 }
  | unsignedInt => { signed := false, bits := 32 }
  | unsignedLongLongInt => { signed := false, bits := 64 }
  | unsignedLong => { signed := false, bits := 64 }
  | unsignedShort => { signed := false, bits := 16 }
  | wchar => { signed := false, bits := 16 }

/-- The class of the literals of a base type. -/
def cls : IntType → String
  | int => "SgIntVal"
  | longInt => "SgLongIntVal"
  | longLongInt => "SgLongLongIntVal"
  | short => "SgShortVal"
  | unsignedInt => "SgUnsignedIntVal"
  | unsignedLongLongInt => "SgUnsignedLongLongIntVal"
  | unsignedLong => "SgUnsignedLongVal"
  | unsignedShort => "SgUnsignedShortVal"
  | wchar => "SgWcharVal"

/-- The stream conversions of a base type. -/
def io (t : IntType) : StreamType Int := intStream t.format

/-- Attributes of a literal of a base type. -/
def attrib (t : IntType) (esc : Text → Text) (n : NumVal Int) : Attrs := attribVal t.io esc n

/-- Reader of a literal of a base type. -/
def visit (t : IntType) (node : Attrs) : Except Fatal (NumVal Int) := visitVal t.io t.cls node

end IntType

/-- The three kinds of spelling; a hexadecimal one has a small or a capital `x`. -/
inductive Radix
  | decimal
  | octal
  | hexadecimal (capital : Bool)
deriving DecidableEq, Repr

namespace Radix

/-- The base of the digits. -/
def base : Radix → Nat
  | decimal => 10
  | octal => 8
  | hexadecimal _ => 16

/-- What stands before the digits. -/
def mark : Radix → Text
  | decimal => []
  | octal => ['0']
  | hexadecimal capital => ['0', if capital then 'X' else 'x']

/-- The digits of a kind of spelling. -/
def IsDigit : Radix → Char → Prop
  | decimal, c => c.isDigit = true
  | octal, c => '0' ≤ c ∧ c ≤ '7'
  | hexadecimal _, c => (hexDigit c).isSome = true

instance (r : Radix) (c : Char) : Decidable (r.IsDigit c) := by
  cases r <;> unfold IsDigit <;> infer_instance

end Radix

/-- A suffix: letters that give the size and signedness, or a kind. -/
def IsSuffix (s : Text) : Prop :=
  (∀ c ∈ s, c ∈ ['u', 'U', 'l', 'L']) ∨
    ∃ kind, s = '_' :: kind ∧ kind ≠ [] ∧ ∀ c ∈ kind, c.isAlphanum = true ∨ c = '_'

/-- A spelling of a nonnegative integer that the front ends accept. -/
structure Spelling where
  radix : Radix
  digits : Text
  suffix : Text
  digits_ne : digits ≠ []
  isDigit : ∀ c ∈ digits, radix.IsDigit c
  isSuffix : IsSuffix suffix

namespace Spelling

/-- The spelling as it stands in the source. -/
def text (w : Spelling) : Text := w.radix.mark ++ w.digits ++ w.suffix

/-- The number denoted by digits of a base. -/
def digitsNumber (b : Nat) (ds : Text) : Nat :=
  ds.foldl (fun n c => b * n + (hexDigit c).getD 0) 0

/-- The number a spelling denotes. -/
def value (w : Spelling) : Nat := digitsNumber w.radix.base w.digits

end Spelling

/-- A literal as the front end makes it: a spelling whose value the base type
    holds. -/
structure SpelledLiteral where
  type : IntType
  spelling : Spelling
  inRange : (spelling.value : Int) ≤ type.format.hi

namespace SpelledLiteral

/-- The node of a literal. -/
def node (l : SpelledLiteral) : NumVal Int :=
  { value := l.spelling.value, valueString := l.spelling.text }

/-- The literal after writing, parsing and reading. -/
def reread (l : SpelledLiteral) : Option (Except Fatal (NumVal Int)) :=
  (parseAttrs (l.type.attrib xmlStr2Entity l.node)).map l.type.visit

/-- The spellings that a decimal reader understands. -/
def ReadsDecimal (l : SpelledLiteral) : Prop :=
  match l.spelling.radix with
  | .decimal => True
  | .octal => l.spelling.value < 8 ∨ (l.spelling.value : Int) = l.type.format.hi
  | .hexadecimal _ => l.spelling.value = 0

end SpelledLiteral

section Digits

theorem hexDigit_of_isDigit {c : Char} (h : c.isDigit = true) :
    hexDigit c = some (c.toNat - '0'.toNat) := by
  rw [hexDigit, if_pos h]

/-- Below base eleven the digits are the decimal ones. -/
theorem digitsNumber_eq_ofDigitChars (b : Nat) {ds : Text} (h : ∀ c ∈ ds, c.isDigit = true) :
    Spelling.digitsNumber b ds = Nat.ofDigitChars b ds 0 := by
  have hgo : ∀ (l : Text) (n : Nat), (∀ c ∈ l, c.isDigit = true) →
      l.foldl (fun n c => b * n + (hexDigit c).getD 0) n = Nat.ofDigitChars b l n := by
    intro l
    induction l with
    | nil => intro n hl; rfl
    | cons c l ih =>
        intro n hl
        rw [List.foldl_cons, Nat.ofDigitChars_cons, hexDigit_of_isDigit (hl c List.mem_cons_self)]
        exact ih _ fun d hd => hl d (List.mem_cons_of_mem _ hd)
  exact hgo ds 0 h

theorem isDigit_of_octal {c : Char} (h : '0' ≤ c ∧ c ≤ '7') :
    c.isDigit = true ∧ c.toNat - '0'.toNat < 8 := by
  have h0 : '0'.toNat = 48 := rfl
  have h7 : '7'.toNat = 55 := rfl
  have h9 : '9'.toNat = 57 := rfl
  have hlo : '0'.toNat ≤ c.toNat := h.1
  have hhi : c.toNat ≤ '7'.toNat := h.2
  refine ⟨Char.isDigit_iff_toNat.mpr ⟨hlo, ?_⟩, ?_⟩ <;> omega

theorem isAlphanum_of_isDigit {r : Radix} {c : Char} (h : r.IsDigit c) : c.isAlphanum = true := by
  have hdigit : ∀ d : Char, d.isDigit = true → d.isAlphanum = true := by
    intro d hd
    exact (isAlphanum_iff d).mpr (Or.inr hd)
  cases r with
  | decimal => exact hdigit c h
  | octal => exact hdigit c (isDigit_of_octal h).1
  | hexadecimal capital =>
      simp only [Radix.IsDigit, hexDigit] at h
      by_cases hd : c.isDigit = true
      · exact hdigit c hd
      · rw [isAlphanum_iff]
        rw [if_neg hd] at h
        split at h
        · rename_i hlow
          have hz : 'f' ≤ 'z' := by decide
          exact Or.inl (Or.inr ⟨hlow.1, UInt32.le_trans hlow.2 hz⟩)
        · split at h
          · rename_i hup
            have hZ : 'F' ≤ 'Z' := by decide
            exact Or.inl (Or.inl ⟨hup.1, UInt32.le_trans hup.2 hZ⟩)
          · exact absurd h (by simp only [Option.isSome_none, Bool.false_eq_true,
              not_false_eq_true])

/-- A suffix does not go on with a digit. -/
theorem head_suffix {s : Text} (h : IsSuffix s) : ∀ c ∈ s.head?, c.isDigit = false := by
  intro c hc
  rcases h with hletters | ⟨kind, rfl, -, -⟩
  · have hmem : c ∈ s := List.mem_of_mem_head? hc
    have hall : ∀ d ∈ ['u', 'U', 'l', 'L'], d.isDigit = false := by decide
    exact hall c (hletters c hmem)
  · obtain rfl : '_' = c := by simpa using hc
    decide

end Digits

namespace Spelling

/-- Spellings consist of letters, digits and underscores. -/
theorem mem_text {w : Spelling} {c : Char} (h : c ∈ w.text) :
    c.isAlphanum = true ∨ c = '_' := by
  rcases List.mem_append.mp h with hfront | hsuffix
  · rcases List.mem_append.mp hfront with hmark | hdigit
    · left
      cases hr : w.radix with
      | decimal => rw [hr] at hmark; exact absurd hmark List.not_mem_nil
      | octal => rw [hr] at hmark; obtain rfl := List.mem_singleton.mp hmark; decide
      | hexadecimal capital =>
          rw [hr] at hmark
          have hall : ∀ b : Bool, ∀ d ∈ (Radix.hexadecimal b).mark, d.isAlphanum = true := by
            decide
          exact hall capital c hmark
    · exact Or.inl (isAlphanum_of_isDigit (w.isDigit c hdigit))
  · rcases w.isSuffix with hletters | ⟨kind, hkind, -, hall⟩
    · have hall : ∀ d ∈ ['u', 'U', 'l', 'L'], d.isAlphanum = true := by decide
      exact Or.inl (hall c (hletters c hsuffix))
    · rw [hkind] at hsuffix
      rcases List.mem_cons.mp hsuffix with rfl | hc
      · exact Or.inr rfl
      · exact hall c hc

theorem plain_text (w : Spelling) : Plain w.text := plain_identifier fun _ hc => mem_text hc

theorem text_ne_nil (w : Spelling) : w.text ≠ [] := by
  simp [text, w.digits_ne]

end Spelling

namespace SpelledLiteral

/-- The reader computes the value back exactly from the spellings that a
    decimal reader understands. -/
theorem extract_text_iff (l : SpelledLiteral) :
    l.type.format.extract l.spelling.text = l.spelling.value ↔ l.ReadsDecimal := by
  obtain ⟨type, ⟨radix, digits, suffix, hne, hdigit, hsuffix⟩, hrange⟩ := l
  have hhead := head_suffix hsuffix
  cases radix with
  | decimal =>
      have hall : ∀ c ∈ digits, c.isDigit = true := hdigit
      have hvalue := digitsNumber_eq_ofDigitChars 10 hall
      simp only [Spelling.value, Radix.base, hvalue] at hrange
      simp only [Spelling.text, Radix.mark, List.nil_append, Spelling.value, Radix.base, hvalue,
        Numeral.Format.extract_digits hne hall hhead, ReadsDecimal, iff_true]
      exact min_eq_right hrange
  | octal =>
      have hall : ∀ c ∈ '0' :: digits, c.isDigit = true := by
        intro c hc
        rcases List.mem_cons.mp hc with rfl | hc
        · decide
        · exact (isDigit_of_octal (hdigit c hc)).1
      have hsmall : ∀ c ∈ digits, c.toNat - '0'.toNat < 8 :=
        fun c hc => (isDigit_of_octal (hdigit c hc)).2
      have hvalue := digitsNumber_eq_ofDigitChars 8
        (fun c hc => hall c (List.mem_cons_of_mem _ hc))
      have hzero : Nat.ofDigitChars 10 ('0' :: digits) 0 = Nat.ofDigitChars 10 digits 0 := by
        rw [Nat.ofDigitChars_cons]
        rfl
      simp only [Spelling.value, Radix.base, hvalue] at hrange
      have htext : (['0'] ++ digits) ++ suffix = ('0' :: digits) ++ suffix := rfl
      simp only [Spelling.text, Radix.mark, Spelling.value, Radix.base, hvalue, htext,
        Numeral.Format.extract_digits (List.cons_ne_nil _ _) hall hhead, hzero, ReadsDecimal]
      by_cases hlt : Nat.ofDigitChars 8 digits 0 < 8
      · rw [Numeral.ofDigitChars_ten_of_eight_lt hsmall hlt]
        exact iff_of_true (min_eq_right hrange) (Or.inl hlt)
      · -- The decimal reading exceeds the value and is cut off at the bound.
        have hgt := Numeral.ofDigitChars_eight_lt_ten hsmall (by omega)
        omega
  | hexadecimal capital =>
      have hzero : ∀ c ∈ ['0'], c.isDigit = true := by decide
      have hx : ∀ c ∈ ((if capital then 'X' else 'x') :: (digits ++ suffix)).head?,
          c.isDigit = false := by
        intro c hc
        obtain rfl : (if capital then 'X' else 'x') = c := by simpa using hc
        cases capital <;> decide
      have hextract := Numeral.Format.extract_digits (f := type.format)
        (List.cons_ne_nil '0' []) hzero hx
      have htext : ['0', if capital then 'X' else 'x'] ++ digits ++ suffix =
          ['0'] ++ ((if capital then 'X' else 'x') :: (digits ++ suffix)) := by simp
      have hnum : Nat.ofDigitChars 10 ['0'] 0 = 0 := rfl
      have hhi := type.format.hi_nonneg
      simp only [Spelling.text, Radix.mark, htext, hextract, hnum, ReadsDecimal, Spelling.value]
      omega

/-- What the reader makes of a literal. -/
theorem reread_eq (l : SpelledLiteral) :
    l.reread = some (.ok
      { value := l.type.format.extract l.spelling.text,
        valueString :=
          if l.spelling.text ≠ Numeral.printInt (l.type.format.extract l.spelling.text)
          then l.spelling.text else [] }) := by
  have hplain := l.spelling.plain_text
  have hself := (xmlEntity2Str_eq_self_iff _).mpr (noReference_of_plain hplain)
  have hparse := parseAttrs_attribVal l.type.io (n := l.node) hplain.1
  have htext : l.node.text l.type.io = l.spelling.text := if_neg l.spelling.text_ne_nil
  simp only [reread, IntType.attrib, IntType.visit, hparse, Option.map_some, visitVal_attribVal,
    NumVal.back, NumVal.ofText, htext, hself]
  rfl

/-- A literal keeps its value exactly if a decimal reader understands its
    spelling. -/
theorem literal_value_iff (l : SpelledLiteral) :
    (∃ n, l.reread = some (.ok n) ∧ n.value = l.spelling.value) ↔ l.ReadsDecimal := by
  rw [← extract_text_iff, reread_eq]
  constructor
  · rintro ⟨n, hn, hvalue⟩
    obtain rfl := Except.ok.inj (Option.some.inj hn)
    exact hvalue
  · intro h
    exact ⟨_, rfl, h⟩

/-- A spelling that the base type prints itself comes back as the empty one,
    with the value it denotes. -/
theorem canonical_spelling_dropped (l : SpelledLiteral)
    (h : l.spelling.text = Numeral.printInt l.spelling.value) :
    l.reread = some (.ok { value := l.spelling.value, valueString := [] }) := by
  have hlo : l.type.format.lo ≤ l.spelling.value :=
    le_trans l.type.format.lo_nonpos (Int.natCast_nonneg _)
  have hextract : l.type.format.extract l.spelling.text = l.spelling.value := by
    rw [h]
    exact Numeral.Format.extract_printInt ⟨hlo, l.inRange⟩
  rw [reread_eq, hextract, if_neg (not_not_intro h)]

/-- A literal keeps value and spelling exactly if a decimal reader understands
    the spelling and the base type would not print it itself. -/
theorem literal_roundtrip_iff (l : SpelledLiteral) :
    l.reread = some (.ok l.node) ↔
      l.ReadsDecimal ∧ l.spelling.text ≠ Numeral.printInt l.spelling.value := by
  rw [← extract_text_iff, reread_eq]
  simp only [node, Option.some.injEq, Except.ok.injEq, NumVal.mk.injEq]
  refine and_congr_right fun hvalue => ?_
  rw [hvalue]
  by_cases hprint : l.spelling.text = Numeral.printInt l.spelling.value
  · simp [← hprint, Ne.symm l.spelling.text_ne_nil]
  · simp [hprint]

/-- The literal `0x10` of type `int`. -/
def hexSixteen : SpelledLiteral where
  type := .int
  spelling := {
    radix := .hexadecimal false
    digits := ['1', '0']
    suffix := []
    digits_ne := by decide
    isDigit := by decide
    isSuffix := Or.inl (by decide) }
  inRange := by decide

/-- The literal `0x10` comes back with the value zero. -/
theorem hexSixteen_reads_zero :
    hexSixteen.spelling.value = 16 ∧
      hexSixteen.reread = some (.ok { value := 0, valueString := "0x10".toList }) ∧
      hexSixteen.reread ≠ some (.ok hexSixteen.node) := by
  have hread : hexSixteen.reread = some (.ok { value := 0, valueString := "0x10".toList }) := by
    rw [reread_eq]
    decide
  refine ⟨by decide, hread, ?_⟩
  rw [hread]
  decide

end SpelledLiteral

end XevXml
