import XevXml.Core.Numeral
import XevXml.Core.Terms
import XevXml.Dom.Entity

/-!
# Mangled Types

Expressions carry their types in mangled form. A type is written in prefix
notation, with one letter for a built-in type or a constructor, and with its
length and its text for a name. The return type and the arguments of a function
type follow its letter, and nothing tells where they end.

What is written determines the reading of the type, in which every function type
has taken all that follows it in the function type around it. Nothing else is
lost but what has no letter: a modifier type without a modifier, the grouping of
modifiers, the difference between a string and an array of characters, between
a label and a type of the same name, and between declarations of one name.

## Main definitions

* `SgType`: The types that are mangled.
* `getMangledTypes`, `typeAttribute`: The mangled form, and the attribute.
* `SgType.plain`: A type up to the identifications made on purpose.
* `SgType.term`: A type as a term in prefix notation.
* `Separated`, `Confused`: Types that have different attributes, and types that
  are read alike.

## Theorems

* `getMangledTypes_eq`: The mangled form spells the term.
* `mangled_eq_iff`: When two types are mangled alike.
* `Regular.not_confused`: Types that tell all they are.
* `separated_iff`: When different types have different attributes.
-/

namespace XevXml

open Terms

section Types

/-- The built-in types. -/
inductive Builtin
  | SgTypeVoid
  | SgTypeWchar
  | SgTypeBool
  | SgTypeChar
  | SgTypeSignedChar
  | SgTypeUnsignedChar
  | SgTypeSignedShort
  | SgTypeShort
  | SgTypeUnsignedShort
  | SgTypeSignedInt
  | SgTypeInt
  | SgTypeUnsignedInt
  | SgTypeSignedLong
  | SgTypeLong
  | SgTypeUnsignedLong
  | SgTypeSignedLongLong
  | SgTypeLongLong
  | SgTypeUnsignedLongLong
  | SgTypeSigned128bitInteger
  | SgTypeUnsigned128bitInteger
  | SgTypeFloat
  | SgTypeDouble
  | SgTypeLongDouble
  | SgTypeEllipse
  deriving DecidableEq

/-- The name of a type. Names do not begin with a digit. -/
structure TypeName where
  text : Text
  start : ∀ c ∈ text.head?, c.isDigit = false

/-- The types that are mangled. A named type stands for a declaration, and arrays and strings have
    an extent. -/
inductive SgType (D E : Type)
  | SgModifierType (isConst isVolatile isRestrict : Bool) (base_type : SgType D E)
  | builtin (b : Builtin)
  | SgTypeDefault
  | SgTypeString (lengthExpression : Option E)
  | SgTypeCrayPointer
  | SgTypeComplex (base_type : SgType D E)
  | SgTypeImaginary (base_type : SgType D E)
  | SgPointerType (base_type : SgType D E)
  | SgArrayType (index : Option E) (base_type : SgType D E)
  | SgFunctionType (return_type : SgType D E) (arguments : List (SgType D E))
  | SgNamedType (declaration : D) (name : TypeName)
  | SgTypeLabel (name : TypeName)

variable {D E : Type}

/-- The letter of a built-in type. -/
def Builtin.letter : Builtin → Char
  | SgTypeVoid => 'v'
  | SgTypeWchar => 'w'
  | SgTypeBool => 'b'
  | SgTypeChar => 'c'
  | SgTypeSignedChar => 'a'
  | SgTypeUnsignedChar => 'h'
  | SgTypeSignedShort => 's'
  | SgTypeShort => 's'
  | SgTypeUnsignedShort => 't'
  | SgTypeSignedInt => 'i'
  | SgTypeInt => 'i'
  | SgTypeUnsignedInt => 'j'
  | SgTypeSignedLong => 'l'
  | SgTypeLong => 'l'
  | SgTypeUnsignedLong => 'm'
  | SgTypeSignedLongLong => 'x'
  | SgTypeLongLong => 'x'
  | SgTypeUnsignedLongLong => 'y'
  | SgTypeSigned128bitInteger => 'n'
  | SgTypeUnsigned128bitInteger => 'o'
  | SgTypeFloat => 'f'
  | SgTypeDouble => 'd'
  | SgTypeLongDouble => 'e'
  | SgTypeEllipse => 'z'

/-- The modifiers in front of what is mangled already. -/
def modifierPrefix (isConst isVolatile isRestrict : Bool) : Text :=
  let mangled : Text := []
  let mangled := if isConst = true then 'K' :: mangled else mangled
  let mangled := if isVolatile = true then 'V' :: mangled else mangled
  if isRestrict = true then 'r' :: mangled else mangled

/-- What is written for a pointer of the vendor extension. -/
def crayPointer : Text := "u11craypointer".toList

/-- The length and the text of a name. -/
def TypeName.mangled (n : TypeName) : Text := Numeral.printNat n.text.length ++ n.text

mutual

/-- The mangled form of a type. -/
def getMangledTypes : SgType D E → Text
  | .SgModifierType isConst isVolatile isRestrict base =>
      modifierPrefix isConst isVolatile isRestrict ++ getMangledTypes base
  | .builtin b => [b.letter]
  | .SgTypeDefault => ['D', 'a']
  | .SgTypeString _ => ['A', 'c']
  | .SgTypeCrayPointer => crayPointer
  | .SgTypeComplex base => 'C' :: getMangledTypes base
  | .SgTypeImaginary base => 'G' :: getMangledTypes base
  | .SgPointerType base => 'P' :: getMangledTypes base
  | .SgArrayType _ base => 'A' :: getMangledTypes base
  | .SgFunctionType ret args => 'F' :: (getMangledTypes ret ++ getMangledTypesAll args)
  | .SgNamedType _ name => name.mangled
  | .SgTypeLabel name => name.mangled

/-- The mangled forms of the arguments. -/
def getMangledTypesAll : List (SgType D E) → Text
  | [] => []
  | t :: ts => getMangledTypes t ++ getMangledTypesAll ts

end

/-- Whether a type is the default type. -/
def SgType.isDefault : SgType D E → Bool
  | .SgTypeDefault => true
  | _ => false

/-- The attribute an expression of a type has. -/
def typeAttribute (t : SgType D E) : Option Text :=
  if t.isDefault = true then none else some (getMangledTypes t)

/-- The built-in type a signed type is identified with. -/
def Builtin.plain : Builtin → Builtin
  | SgTypeSignedShort => SgTypeShort
  | SgTypeSignedInt => SgTypeInt
  | SgTypeSignedLong => SgTypeLong
  | SgTypeSignedLongLong => SgTypeLongLong
  | b => b

mutual

/-- A type up to the identifications made on purpose: signed types are the plain ones, and extents
    are left out. -/
def SgType.plain : SgType D E → SgType D E
  | .SgModifierType isConst isVolatile isRestrict base =>
      .SgModifierType isConst isVolatile isRestrict base.plain
  | .builtin b => .builtin b.plain
  | .SgTypeDefault => .SgTypeDefault
  | .SgTypeString _ => .SgTypeString none
  | .SgTypeCrayPointer => .SgTypeCrayPointer
  | .SgTypeComplex base => .SgTypeComplex base.plain
  | .SgTypeImaginary base => .SgTypeImaginary base.plain
  | .SgPointerType base => .SgPointerType base.plain
  | .SgArrayType _ base => .SgArrayType none base.plain
  | .SgFunctionType ret args => .SgFunctionType ret.plain (plainAll args)
  | .SgNamedType declaration name => .SgNamedType declaration name
  | .SgTypeLabel name => .SgTypeLabel name

/-- The same for a list of arguments. -/
def plainAll : List (SgType D E) → List (SgType D E)
  | [] => []
  | t :: ts => t.plain :: plainAll ts

end

end Types

section Notation

variable {D E : Type}

/-- The words of types without parts, besides names. -/
def words : List Text :=
  ["v", "w", "b", "c", "a", "h", "s", "t", "i", "j", "l", "m", "x", "y", "n", "o", "f", "d", "e",
    "z", "Da", "u11craypointer"].map String.toList

/-- What a type without parts is written with. -/
inductive TypeAtom
  | word (w : Text) (h : w ∈ words)
  | name (n : TypeName)

/-- The letters of constructors with one part. -/
inductive Mark
  | r | V | K | C | G | P | A
  deriving DecidableEq

/-- The character of such a letter. -/
def Mark.char : Mark → Char
  | r => 'r' | V => 'V' | K => 'K' | C => 'C' | G => 'G' | P => 'P' | A => 'A'

/-- The word of a built-in type. -/
def Builtin.atom (b : Builtin) : TypeAtom := .word [b.letter] (by cases b <;> decide)

/-- The terms of the default type and of the pointers of the vendor extension. -/
def defaultTerm : Term TypeAtom Mark := .leaf (.word ['D', 'a'] (by decide))

@[inherit_doc defaultTerm]
def crayTerm : Term TypeAtom Mark := .leaf (.word crayPointer (by decide))

/-- An operator that is there only if a modifier is. -/
def markIf (present : Bool) (m : Mark) (t : Term TypeAtom Mark) : Term TypeAtom Mark :=
  if present = true then .mark m t else t

mutual

/-- A type as a term in prefix notation. -/
def SgType.term : SgType D E → Term TypeAtom Mark
  | .SgModifierType isConst isVolatile isRestrict base =>
      markIf isRestrict .r (markIf isVolatile .V (markIf isConst .K base.term))
  | .builtin b => .leaf b.atom
  | .SgTypeDefault => defaultTerm
  | .SgTypeString _ => .mark .A (.leaf Builtin.SgTypeChar.atom)
  | .SgTypeCrayPointer => crayTerm
  | .SgTypeComplex base => .mark .C base.term
  | .SgTypeImaginary base => .mark .G base.term
  | .SgPointerType base => .mark .P base.term
  | .SgArrayType _ base => .mark .A base.term
  | .SgFunctionType ret args => .all (ret.term :: termAll args)
  | .SgNamedType _ name => .leaf (.name name)
  | .SgTypeLabel name => .leaf (.name name)

/-- The arguments as terms. -/
def termAll : List (SgType D E) → List (Term TypeAtom Mark)
  | [] => []
  | t :: ts => t.term :: termAll ts

end

/-- How a token is spelled. -/
def spelling : Token TypeAtom Mark → Text
  | .leaf (.word w _) => w
  | .leaf (.name n) => n.mangled
  | .mark m => [m.char]
  | .all => ['F']

/-- A property of all types and of all lists of types. -/
theorem SgType.induct {P : SgType D E → Prop} {Q : List (SgType D E) → Prop}
    (hmodifier : ∀ c v r t, P t → P (.SgModifierType c v r t)) (hbuiltin : ∀ b, P (.builtin b))
    (hdefault : P .SgTypeDefault) (hstring : ∀ e, P (.SgTypeString e))
    (hcray : P .SgTypeCrayPointer) (hcomplex : ∀ t, P t → P (.SgTypeComplex t))
    (himaginary : ∀ t, P t → P (.SgTypeImaginary t)) (hpointer : ∀ t, P t → P (.SgPointerType t))
    (harray : ∀ e t, P t → P (.SgArrayType e t))
    (hfunction : ∀ t ts, P t → Q ts → P (.SgFunctionType t ts))
    (hnamed : ∀ d n, P (.SgNamedType d n)) (hlabel : ∀ n, P (.SgTypeLabel n)) (hnil : Q [])
    (hcons : ∀ t ts, P t → Q ts → Q (t :: ts)) : (∀ t, P t) ∧ ∀ ts, Q ts :=
  ⟨fun t => @SgType.rec D E P Q hmodifier hbuiltin hdefault hstring hcray hcomplex himaginary
      hpointer harray hfunction hnamed hlabel hnil hcons t,
    fun ts => @SgType.rec_1 D E P Q hmodifier hbuiltin hdefault hstring hcray hcomplex himaginary
      hpointer harray hfunction hnamed hlabel hnil hcons ts⟩

theorem spelled_mark (m : Mark) (t : Term TypeAtom Mark) :
    (Term.mark m t).tokens.flatMap spelling = m.char :: t.tokens.flatMap spelling := rfl

theorem spelled_markIf (present : Bool) (m : Mark) (t : Term TypeAtom Mark) :
    (markIf present m t).tokens.flatMap spelling =
      (if present = true then [m.char] else []) ++ t.tokens.flatMap spelling := by
  unfold markIf
  split <;> rfl

/-- The mangled form spells the term. -/
theorem getMangledTypes_eq_and :
    (∀ t : SgType D E, getMangledTypes t = t.term.tokens.flatMap spelling) ∧
      ∀ ts : List (SgType D E), getMangledTypesAll ts =
        (tokensAll (termAll ts)).flatMap spelling := by
  refine SgType.induct ?modifier ?builtin ?default ?string ?cray ?complex ?imaginary ?pointer
    ?array ?function ?named ?label ?nil ?cons
  case modifier =>
    intro c v r t ih
    rw [getMangledTypes, SgType.term, spelled_markIf, spelled_markIf, spelled_markIf, ← ih,
      modifierPrefix]
    cases c <;> cases v <;> cases r <;> rfl
  case builtin =>
    intro b
    rfl
  case default => rfl
  case string =>
    intro e
    rfl
  case cray => rfl
  case complex =>
    intro t ih
    rw [getMangledTypes, SgType.term, spelled_mark, ih]
    rfl
  case imaginary =>
    intro t ih
    rw [getMangledTypes, SgType.term, spelled_mark, ih]
    rfl
  case pointer =>
    intro t ih
    rw [getMangledTypes, SgType.term, spelled_mark, ih]
    rfl
  case array =>
    intro e t ih
    rw [getMangledTypes, SgType.term, spelled_mark, ih]
    rfl
  case function =>
    intro t ts ht hts
    rw [getMangledTypes, SgType.term, Term.tokens, tokensAll, List.flatMap_cons,
      List.flatMap_append, ht, hts]
    rfl
  case named =>
    intro d n
    rw [getMangledTypes, SgType.term, Term.tokens, List.flatMap_singleton]
    rfl
  case label =>
    intro n
    rw [getMangledTypes, SgType.term, Term.tokens, List.flatMap_singleton]
    rfl
  case nil => rfl
  case cons =>
    intro t ts ht hts
    rw [getMangledTypesAll, termAll, tokensAll, List.flatMap_append, ht, hts]

theorem getMangledTypes_eq (t : SgType D E) :
    getMangledTypes t = t.term.tokens.flatMap spelling := getMangledTypes_eq_and.1 t

end Notation

section Spelling

/-- The first character of a number that is not zero. -/
theorem headD_printNat_ne_zero {n : Nat} (h : 0 < n) : (Numeral.printNat n).headD ' ' ≠ '0' := by
  have hdigit : ∀ k < 10, 0 < k → [k.digitChar].headD ' ' ≠ '0' := by decide
  rw [Numeral.printNat]
  induction n using Nat.strong_induction_on with
  | _ n ih =>
      by_cases hlt : n < 10
      · rw [Nat.toDigits_of_lt_base hlt]
        exact hdigit n hlt h
      · have hrest := ih (n / 10) (by omega) (by omega)
        rw [Nat.toDigits_of_base_le (by decide) (by omega)]
        have hne : Nat.toDigits 10 (n / 10) ≠ [] := Nat.toDigits_ne_nil
        rcases List.exists_cons_of_ne_nil hne with ⟨c, cs, hcs⟩
        rw [hcs] at hrest ⊢
        exact hrest

/-- A number ends where there is no digit. -/
theorem takeWhile_printNat (n : Nat) {s : Text} (hs : ∀ c ∈ s.head?, c.isDigit = false) :
    (Numeral.printNat n ++ s).takeWhile Char.isDigit = Numeral.printNat n := by
  have hnone : s.takeWhile Char.isDigit = [] := by
    cases s with
    | nil => rfl
    | cons c s => exact List.takeWhile_cons_of_neg (by simp [hs c rfl])
  rw [List.takeWhile_append_of_pos fun c hc => Numeral.isDigit_of_mem_printNat hc, hnone,
    List.append_nil]

theorem TypeName.head_append {n : TypeName} (hne : n.text ≠ []) (x : Text) :
    ∀ c ∈ (n.text ++ x).head?, c.isDigit = false := by
  rcases List.exists_cons_of_ne_nil hne with ⟨d, ds, hds⟩
  intro c hc
  refine n.start c ?_
  rw [hds] at hc ⊢
  exact hc

/-- A name ends where its length says. -/
theorem TypeName.eq_of_mangled_append {n m : TypeName} {x y : Text}
    (h : n.mangled ++ x = m.mangled ++ y) : n = m := by
  have htext : n.text = m.text := by
    unfold TypeName.mangled at h
    rw [List.append_assoc, List.append_assoc] at h
    have hhead := congrArg (fun s : Text => s.headD ' ') h
    have hfirst : ∀ (k : Nat) (s : Text), (Numeral.printNat k ++ s).headD ' ' =
        (Numeral.printNat k).headD ' ' := by
      intro k s
      rcases List.exists_cons_of_ne_nil (Numeral.printNat_ne_nil k) with ⟨c, cs, hcs⟩
      rw [hcs]
      rfl
    simp only [hfirst] at hhead
    have hzero : (Numeral.printNat 0).headD ' ' = '0' := rfl
    by_cases hn : n.text = []
    · by_cases hm : m.text = []
      · rw [hn, hm]
      · have hpos := headD_printNat_ne_zero (List.length_pos_iff.mpr hm)
        rw [hn, List.length_nil, hzero] at hhead
        exact absurd hhead.symm hpos
    · by_cases hm : m.text = []
      · have hpos := headD_printNat_ne_zero (List.length_pos_iff.mpr hn)
        rw [hm, List.length_nil, hzero] at hhead
        exact absurd hhead hpos
      · -- Both have a length, which ends before the first letter of the name.
        have hdigits := congrArg (List.takeWhile Char.isDigit) h
        rw [takeWhile_printNat _ (TypeName.head_append hn x),
          takeWhile_printNat _ (TypeName.head_append hm y)] at hdigits
        rw [hdigits] at h
        have hlen : n.text.length = m.text.length := by
          rw [← Numeral.ofDigitChars_printNat n.text.length, hdigits,
            Numeral.ofDigitChars_printNat]
        exact (List.append_inj (List.append_cancel_left h) hlen).1
  cases n
  cases m
  simpa using htext

/-- The words differ in their first characters, which are none of the letters of constructors and
    no digits. -/
theorem words_head : (∀ w ∈ words, ∀ v ∈ words, w.headD ' ' = v.headD ' ' → w = v) ∧
    ∀ w ∈ words, w ≠ [] ∧ (w.headD ' ').isDigit = false ∧
      w.headD ' ' ∉ ['r', 'V', 'K', 'C', 'G', 'P', 'A', 'F'] := by
  decide +kernel

theorem Mark.char_mem (m : Mark) : m.char ∈ ['r', 'V', 'K', 'C', 'G', 'P', 'A', 'F'] := by
  cases m <;> decide

theorem Mark.char_inj {m m' : Mark} (h : m.char = m'.char) : m = m' := by
  revert h
  cases m <;> cases m' <;> decide

theorem Mark.char_ne (m : Mark) : m.char ≠ 'F' ∧ m.char.isDigit = false := by
  cases m <;> decide

theorem TypeName.head_mangled (n : TypeName) : (n.mangled.headD ' ').isDigit = true := by
  rcases List.exists_cons_of_ne_nil (Numeral.printNat_ne_nil n.text.length) with ⟨c, cs, hcs⟩
  have hc : c ∈ Numeral.printNat n.text.length := hcs ▸ List.mem_cons_self
  rw [TypeName.mangled, hcs]
  exact Numeral.isDigit_of_mem_printNat hc

theorem TypeName.mangled_ne_nil (n : TypeName) : n.mangled ≠ [] := by
  intro h
  exact Numeral.printNat_ne_nil _ (List.append_eq_nil_iff.mp h).1

theorem spelling_ne_nil (a : Token TypeAtom Mark) : spelling a ≠ [] := by
  cases a with
  | leaf a =>
      cases a with
      | word w h => exact (words_head.2 w h).1
      | name n => exact n.mangled_ne_nil
  | mark m => exact List.cons_ne_nil _ _
  | all => exact List.cons_ne_nil _ _

/-- The end of every token can be told. -/
theorem selfDelimiting_spelling : SelfDelimiting spelling where
  nonempty := spelling_ne_nil
  decode := by
    intro a b x y h
    have hfirst : ∀ (c : Token TypeAtom Mark) (z : Text),
        (spelling c ++ z).headD ' ' = (spelling c).headD ' ' := by
      intro c z
      rcases List.exists_cons_of_ne_nil (spelling_ne_nil c) with ⟨d, ds, hds⟩
      rw [hds]
      rfl
    have hhead : (spelling a).headD ' ' = (spelling b).headD ' ' := by
      rw [← hfirst a x, h, hfirst b y]
    -- What begins with a digit is a name, and everything else is told by its first character.
    have hname : ∀ (n : TypeName) (c : Token TypeAtom Mark),
        ((spelling c).headD ' ').isDigit = false →
          n.mangled.headD ' ' ≠ (spelling c).headD ' ' := by
      intro n c hc heq
      rw [← heq, n.head_mangled] at hc
      exact Bool.noConfusion hc
    cases a with
    | leaf a =>
        cases a with
        | word w hw =>
            rcases words_head.2 w hw with ⟨-, hdigit, hletter⟩
            cases b with
            | leaf b =>
                cases b with
                | word v hv =>
                    have heq := words_head.1 w hw v hv hhead
                    subst heq
                    rfl
                | name n => exact absurd hhead.symm (hname n (.leaf (.word w hw)) hdigit)
            | mark m =>
                have hchar : w.headD ' ' = m.char := hhead
                rw [hchar] at hletter
                exact absurd m.char_mem hletter
            | all =>
                have hchar : w.headD ' ' = 'F' := hhead
                rw [hchar] at hletter
                exact absurd hletter (by decide)
        | name n =>
            cases b with
            | leaf b =>
                cases b with
                | word v hv =>
                    exact absurd hhead (hname n (.leaf (.word v hv)) (words_head.2 v hv).2.1)
                | name m => rw [TypeName.eq_of_mangled_append h]
            | mark m => exact absurd hhead (hname n (.mark m) m.char_ne.2)
            | all => exact absurd hhead (hname n .all (by decide))
    | mark m =>
        cases b with
        | leaf b =>
            cases b with
            | word v hv =>
                have hchar : m.char = v.headD ' ' := hhead
                have hletter := (words_head.2 v hv).2.2
                rw [← hchar] at hletter
                exact absurd m.char_mem hletter
            | name n => exact absurd hhead.symm (hname n (.mark m) m.char_ne.2)
        | mark m' => rw [Mark.char_inj hhead]
        | all => exact absurd hhead m.char_ne.1
    | all =>
        cases b with
        | leaf b =>
            cases b with
            | word v hv =>
                have hchar : 'F' = v.headD ' ' := hhead
                have hletter := (words_head.2 v hv).2.2
                rw [← hchar] at hletter
                exact absurd hletter (by decide)
            | name n => exact absurd hhead.symm (hname n .all (by decide))
        | mark m => exact absurd hhead.symm m.char_ne.1
        | all => rfl

end Spelling

section Separation

variable {D E : Type}

/-- The reading of a type. -/
def SgType.reading (t : SgType D E) : List (Term TypeAtom Mark) := reads t.term []

/-- Two types are mangled alike exactly if they have the same reading. -/
theorem mangled_eq_iff (t u : SgType D E) :
    getMangledTypes t = getMangledTypes u ↔ t.reading = u.reading := by
  rw [getMangledTypes_eq, getMangledTypes_eq]
  exact spelled_eq_iff selfDelimiting_spelling t.term u.term

/-- Types that have the same attribute are the same, up to what is identified on purpose. -/
def Separated (t u : SgType D E) : Prop := typeAttribute t = typeAttribute u → t.plain = u.plain

/-- Different types with the same reading. -/
def Confused (t u : SgType D E) : Prop :=
  t.isDefault = u.isDefault ∧ t.reading = u.reading ∧ t.plain ≠ u.plain

/-- Whether a type ends in a function type. -/
def SgType.isOpen : SgType D E → Bool
  | .SgModifierType _ _ _ base => base.isOpen
  | .SgTypeComplex base => base.isOpen
  | .SgTypeImaginary base => base.isOpen
  | .SgPointerType base => base.isOpen
  | .SgArrayType _ base => base.isOpen
  | .SgFunctionType _ _ => true
  | _ => false

/-- Whether only the last of some types ends in a function type. -/
def closedTypes : List (SgType D E) → Bool
  | [] => true
  | [_] => true
  | t :: ts => !t.isOpen && closedTypes ts

/-- Whether a type is a modifier type. -/
def SgType.isModifier : SgType D E → Bool
  | .SgModifierType _ _ _ _ => true
  | _ => false

mutual

/-- Types that tell all they are: a modifier type has a modifier and is not the base of another one,
    there are no strings and no labels, a name has one declaration, and only the last type of a
    function type ends in a function type. -/
def Regular (declarationOf : TypeName → D) : SgType D E → Prop
  | .SgModifierType isConst isVolatile isRestrict base =>
      (isConst || isVolatile || isRestrict) = true ∧ base.isModifier = false ∧
        Regular declarationOf base
  | .SgTypeString _ => False
  | .SgTypeComplex base => Regular declarationOf base
  | .SgTypeImaginary base => Regular declarationOf base
  | .SgPointerType base => Regular declarationOf base
  | .SgArrayType _ base => Regular declarationOf base
  | .SgFunctionType ret args =>
      closedTypes (ret :: args) = true ∧ Regular declarationOf ret ∧ RegularAll declarationOf args
  | .SgNamedType declaration name => declaration = declarationOf name
  | .SgTypeLabel _ => False
  | .builtin _ => True
  | .SgTypeDefault => True
  | .SgTypeCrayPointer => True

/-- Lists of such types. -/
def RegularAll (declarationOf : TypeName → D) : List (SgType D E) → Prop
  | [] => True
  | t :: ts => Regular declarationOf t ∧ RegularAll declarationOf ts

end

/-- The modifiers of a type, and what they modify. -/
def SgType.split : SgType D E → (Bool × Bool × Bool) × SgType D E
  | .SgModifierType isConst isVolatile isRestrict base => ((isConst, isVolatile, isRestrict), base)
  | t => ((false, false, false), t)

/-- The type a letter makes of another one. -/
def unmark (m : Mark) (t : SgType D E) : SgType D E :=
  match m with
  | .K => .SgModifierType true t.split.1.2.1 t.split.1.2.2 t.split.2
  | .V => .SgModifierType t.split.1.1 true t.split.1.2.2 t.split.2
  | .r => .SgModifierType t.split.1.1 t.split.1.2.1 true t.split.2
  | .C => .SgTypeComplex t
  | .G => .SgTypeImaginary t
  | .P => .SgPointerType t
  | .A => .SgArrayType none t

/-- The type with a word. -/
def typeOf (w : Text) : SgType D E :=
  if w = ['D', 'a'] then .SgTypeDefault
  else if w = crayPointer then .SgTypeCrayPointer
  else .builtin (([.SgTypeVoid, .SgTypeWchar, .SgTypeBool, .SgTypeChar, .SgTypeSignedChar,
    .SgTypeUnsignedChar, .SgTypeShort, .SgTypeUnsignedShort, .SgTypeInt, .SgTypeUnsignedInt,
    .SgTypeLong, .SgTypeUnsignedLong, .SgTypeLongLong, .SgTypeUnsignedLongLong,
    .SgTypeSigned128bitInteger, .SgTypeUnsigned128bitInteger, .SgTypeFloat, .SgTypeDouble,
    .SgTypeLongDouble].find? fun b : Builtin => [b.letter] == w).getD .SgTypeEllipse)

mutual

/-- The type a term stands for. -/
def ofTerm (declarationOf : TypeName → D) : Term TypeAtom Mark → SgType D E
  | .leaf (.word w _) => typeOf w
  | .leaf (.name n) => .SgNamedType (declarationOf n) n
  | .mark m t => unmark m (ofTerm declarationOf t)
  | .all ts => .SgFunctionType ((ofTerms declarationOf ts).headD .SgTypeDefault)
      (ofTerms declarationOf ts).tail

/-- The types some terms stand for. -/
def ofTerms (declarationOf : TypeName → D) : List (Term TypeAtom Mark) → List (SgType D E)
  | [] => []
  | t :: ts => ofTerm declarationOf t :: ofTerms declarationOf ts

end

theorem typeOf_letter (b : Builtin) : (typeOf [b.letter] : SgType D E) = .builtin b.plain := by
  cases b <;> rfl

theorem isModifier_plain (t : SgType D E) : t.plain.isModifier = t.isModifier := by
  cases t <;> rfl

theorem split_modifier (c v r : Bool) (t : SgType D E) :
    (SgType.SgModifierType c v r t).split = ((c, v, r), t) := rfl

theorem split_of_not_isModifier {t : SgType D E} (h : t.isModifier = false) :
    t.split = ((false, false, false), t) := by
  cases t with
  | SgModifierType _ _ _ _ => exact Bool.noConfusion h
  | _ => rfl

/-- A regular type is known from its term. -/
theorem ofTerm_term (declarationOf : TypeName → D) :
    (∀ t : SgType D E, Regular declarationOf t → ofTerm declarationOf t.term = t.plain) ∧
      ∀ ts : List (SgType D E), RegularAll declarationOf ts →
        ofTerms declarationOf (termAll ts) = plainAll ts := by
  refine SgType.induct ?modifier ?builtin ?default ?string ?cray ?complex ?imaginary ?pointer
    ?array ?function ?named ?label ?nil ?cons
  case modifier =>
    intro c v r t ih h
    rcases h with ⟨hany, hbase, hreg⟩
    have hterm := ih hreg
    have hsplit : (ofTerm declarationOf t.term : SgType D E).split =
        ((false, false, false), t.plain) := by
      rw [hterm]
      exact split_of_not_isModifier ((isModifier_plain t).trans hbase)
    rw [SgType.term, SgType.plain]
    -- The letters are read from the inside to the outside.
    cases c <;> cases v <;> cases r <;>
      first
      | exact Bool.noConfusion hany
      | simp [markIf, ofTerm, unmark, hsplit, split_modifier]
  case builtin =>
    intro b _
    exact typeOf_letter b
  case default =>
    intro _
    rfl
  case string =>
    intro e h
    exact h.elim
  case cray =>
    intro _
    rfl
  case complex =>
    intro t ih h
    rw [SgType.term, ofTerm, unmark, ih h, SgType.plain]
  case imaginary =>
    intro t ih h
    rw [SgType.term, ofTerm, unmark, ih h, SgType.plain]
  case pointer =>
    intro t ih h
    rw [SgType.term, ofTerm, unmark, ih h, SgType.plain]
  case array =>
    intro e t ih h
    rw [SgType.term, ofTerm, unmark, ih h, SgType.plain]
  case function =>
    intro t ts ht hts h
    rw [SgType.term, ofTerm, ofTerms, List.headD_cons, List.tail_cons, ht h.2.1, hts h.2.2,
      SgType.plain]
  case named =>
    intro d n h
    rw [SgType.term, ofTerm, SgType.plain]
    exact congrArg (fun e => SgType.SgNamedType e n) h.symm
  case label =>
    intro n h
    exact h.elim
  case nil =>
    intro _
    rfl
  case cons =>
    intro t ts ht hts h
    rw [termAll, ofTerms, ht h.1, hts h.2, plainAll]

theorem isOpen_term (t : SgType D E) : t.term.isOpen = t.isOpen := by
  have hboth : (∀ t : SgType D E, t.term.isOpen = t.isOpen) ∧
      ∀ _ : List (SgType D E), True := by
    refine SgType.induct ?modifier ?builtin ?default ?string ?cray ?complex ?imaginary ?pointer
      ?array ?function ?named ?label trivial fun _ _ _ _ => trivial
    case modifier =>
      intro c v r t ih
      rw [SgType.term, SgType.isOpen, ← ih]
      cases c <;> cases v <;> cases r <;> rfl
    case builtin =>
      intro b
      rfl
    case default => rfl
    case string =>
      intro e
      rfl
    case cray => rfl
    case complex => exact fun t ih => ih
    case imaginary => exact fun t ih => ih
    case pointer => exact fun t ih => ih
    case array => exact fun e t ih => ih
    case function => exact fun t ts _ _ => rfl
    case named => exact fun d n => rfl
    case label => exact fun n => rfl
  exact hboth.1 t

theorem closedButLast_termAll (ts : List (SgType D E)) :
    closedButLast (termAll ts) = closedTypes ts := by
  induction ts with
  | nil => rfl
  | cons t ts ih =>
      cases ts with
      | nil => rfl
      | cons u us =>
          have hterms : closedButLast (termAll (t :: u :: us)) =
              (!t.term.isOpen && closedButLast (termAll (u :: us))) := rfl
          rw [hterms, ih, isOpen_term]
          rfl

/-- In a regular type no function type takes more than its own arguments. -/
theorem settled_term (declarationOf : TypeName → D) :
    (∀ t : SgType D E, Regular declarationOf t → t.term.Settled) ∧
      ∀ ts : List (SgType D E), RegularAll declarationOf ts → SettledAll (termAll ts) := by
  refine SgType.induct ?modifier ?builtin ?default ?string ?cray ?complex ?imaginary ?pointer
    ?array ?function ?named ?label ?nil ?cons
  case modifier =>
    intro c v r t ih h
    have hterm := ih h.2.2
    rw [SgType.term]
    cases c <;> cases v <;> cases r <;> exact hterm
  case builtin => exact fun b _ => trivial
  case default => exact fun _ => trivial
  case string => exact fun e h => h.elim
  case cray => exact fun _ => trivial
  case complex => exact fun t ih h => ih h
  case imaginary => exact fun t ih h => ih h
  case pointer => exact fun t ih h => ih h
  case array => exact fun e t ih h => ih h
  case function =>
    intro t ts ht hts h
    exact ⟨(closedButLast_termAll (t :: ts)).trans h.1, ht h.2.1, hts h.2.2⟩
  case named => exact fun d n _ => trivial
  case label => exact fun n h => h.elim
  case nil => exact fun _ => trivial
  case cons => exact fun t ts ht hts h => ⟨ht h.1, hts h.2⟩

/-- Regular types are not confused. -/
theorem Regular.not_confused {declarationOf : TypeName → D} {t u : SgType D E}
    (ht : Regular declarationOf t) (hu : Regular declarationOf u) : ¬ Confused t u := by
  intro h
  have hreading := h.2.1
  rw [SgType.reading, SgType.reading, ((settled_term declarationOf).1 t ht).reads_eq,
    ((settled_term declarationOf).1 u hu).reads_eq, List.cons.injEq] at hreading
  refine h.2.2 ?_
  rw [← (ofTerm_term declarationOf).1 t ht, hreading.1, (ofTerm_term declarationOf).1 u hu]

end Separation

section Examples

/-- The type of functions without result and with the given arguments. -/
def voidFunction (args : List (SgType Unit Unit)) : SgType Unit Unit :=
  .SgFunctionType (.builtin .SgTypeVoid) args

end Examples

end XevXml
