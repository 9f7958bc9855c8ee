import XevXml.Core.Bits
import XevXml.Ast.Value

/-!
# Modifiers

The modifiers of declarations, functions and types are vectors of bits, and in the document
each of them is one number. Five places of the writer shift the bits of a vector into an
`unsigned long`, and they do it in different types. Where the bits are shifted as
`unsigned int` the vector must not have more than 32 of them. For a function only the bits
that are set are shifted, as `int`; the bit in the highest place is the sign there, which
is carried on through the upper half of the number. Only the bits of a modifier type are
shifted as what they become.

Small numbers are not written, and when there is no number the reader leaves the vector as
it is in a new node, or sets it to the default. Both are right for one vector only.

## Main definitions

* `ShiftType`, `Site`: A place of the writer.
* `Site.pack`: The number of a vector.
* `Site.written`: The attribute that is written for it.
* `readVector`: What the reader makes of the attribute.
* `RoundTrips`: A vector comes back.

## Theorems

* `pack_isSome_iff`, `getLsbD_of_pack`: What a place of the writer computes.
* `modifier_iff`: Which vectors come back, and which have the same number at all places.
-/

namespace XevXml.Modifier

open Bits

/-- The types in which bits are shifted. -/
inductive ShiftType
  | int
  | unsignedInt
  | unsignedLong
deriving DecidableEq, Repr

def ShiftType.width : ShiftType → Nat
  | .int => 32
  | .unsignedInt => 32
  | .unsignedLong => 64

/-- A bit shifted to its place and converted to `unsigned long`. There is no result when it
    is shifted past the width of the type. -/
def ShiftType.shifted (type : ShiftType) (b : Bool) (i : Nat) : Option (BitVec 64) :=
  if i < type.width then
    some (match type with
      | .int => ((BitVec.ofBool b).setWidth 32 <<< i).signExtend 64
      | .unsignedInt => ((BitVec.ofBool b).setWidth 32 <<< i).setWidth 64
      | .unsignedLong => (BitVec.ofBool b).setWidth 64 <<< i)
  else none

/-- A place of the writer: the type in which it shifts, whether it shifts only the bits that
    are set, and the largest number that it does not write. -/
structure Site where
  type : ShiftType
  onlySet : Bool
  omitted : Option Nat
deriving DecidableEq, Repr

/-- `declaration_modifier` of a declaration. -/
def declarationModifier : Site := ⟨.unsignedInt, false, some 1⟩

/-- `type_modifier` of a declaration. -/
def typeModifier : Site := ⟨.unsignedInt, false, some 2⟩

/-- `function_modifier` of a function declaration. -/
def functionModifier : Site := ⟨.int, true, some 2⟩

/-- `gnu_attrib` of an initialized name. -/
def gnuAttrib : Site := ⟨.unsignedInt, false, some 0⟩

/-- `modifier` of a modifier type. -/
def modifierType : Site := ⟨.unsignedLong, false, none⟩

/-- All places of the writer. -/
def sites : List Site :=
  [declarationModifier, typeModifier, functionModifier, gnuAttrib, modifierType]

/-- The loop over the bits of a vector. -/
def Site.packFrom (site : Site) : List Bool → Nat → BitVec 64 → Option (BitVec 64)
  | [], _, mod => some mod
  | b :: vec, i, mod =>
      if site.onlySet && !b then site.packFrom vec (i + 1) mod
      else do
        let x ← site.type.shifted b i
        site.packFrom vec (i + 1) (mod ||| x)

/-- The number of a vector. -/
def Site.pack (site : Site) (vec : List Bool) : Option (BitVec 64) := site.packFrom vec 0 0

/-- Whether a number is written. -/
def Site.writes (site : Site) (mod : BitVec 64) : Bool :=
  match site.omitted with
  | none => true
  | some k => k < mod.toNat

/-- The attribute that is written for a vector, if it is written. There is no result when
    the writer shifts past the width of its type. -/
def Site.written (site : Site) (vec : List Bool) : Option (Option Text) := do
  let mod ← site.pack vec
  some (if site.writes mod then some (printUnsignedLong mod) else none)

/-- What the reader makes of the vector of a new node. Without the attribute it does with
    it what `absent` says. -/
def readVector (absent : List Bool → List Bool) (fresh : List Bool) : Option Text → List Bool
  | some text => unpackFrom fresh (readUnsignedLong text)
  | none => absent fresh

/-- A vector is written and read back. -/
def RoundTrips (site : Site) (absent : List Bool → List Bool) (fresh vec : List Bool) : Prop :=
  ∃ text, site.written vec = some text ∧ readVector absent fresh text = vec

/-- The place of a vector from which a bit of the number comes. -/
def ShiftType.place (type : ShiftType) (j : Nat) : Nat :=
  match type with
  | .int => min j 31
  | _ => j

/-- The bits that are shifted stay in the width of the type. -/
def Site.Fits (site : Site) (vec : List Bool) (i : Nat) : Prop :=
  ∀ k < vec.length, site.onlySet = false ∨ vec.getD k false = true → i + k < site.type.width

section Pack

/-- One bit, shifted to a place. -/
theorem getLsbD_ofBool_shiftLeft {w : Nat} (b : Bool) (i : Nat) {j : Nat} (hj : j < w) :
    ((BitVec.ofBool b).setWidth w <<< i).getLsbD j = (b && decide (j = i)) := by
  rw [BitVec.getLsbD_shiftLeft, BitVec.getLsbD_setWidth, BitVec.getLsbD_ofBool, decide_eq_true hj,
    Bool.true_and]
  rcases Nat.lt_trichotomy j i with hlt | rfl | hgt
  · simp [hlt, Nat.ne_of_lt hlt]
  · simp [Nat.zero_lt_of_lt hj]
  · have hne : ¬ j - i = 0 := by omega
    simp [hne, Nat.ne_of_gt hgt]

/-- A bit that has been shifted stands at its place, and as `int` the highest one stands at
    every place behind as well. -/
theorem getLsbD_shifted {type : ShiftType} {b : Bool} {i : Nat} {x : BitVec 64}
    (h : type.shifted b i = some x) {j : Nat} (hj : j < 64) :
    x.getLsbD j = (b && decide (type.place j = i)) := by
  unfold ShiftType.shifted at h
  split at h
  · rename_i hi
    rw [Option.some.injEq] at h
    subst h
    cases type with
    | int =>
        simp only [BitVec.getLsbD_signExtend, decide_eq_true hj, Bool.true_and]
        by_cases hlow : j < 32
        · have hplace : ShiftType.int.place j = j := Nat.min_eq_left (by omega)
          rw [if_pos hlow, getLsbD_ofBool_shiftLeft b i hlow, hplace]
        · have hplace : ShiftType.int.place j = 31 := Nat.min_eq_right (by omega)
          rw [if_neg hlow, BitVec.msb_eq_getLsbD_last, getLsbD_ofBool_shiftLeft b i (by decide),
            hplace]
    | unsignedInt =>
        have hi' : i < 32 := hi
        have hplace : ShiftType.unsignedInt.place j = j := rfl
        rw [hplace]
        simp only [BitVec.getLsbD_setWidth (x := (BitVec.ofBool b).setWidth 32 <<< i),
          decide_eq_true hj, Bool.true_and]
        by_cases hlow : j < 32
        · exact getLsbD_ofBool_shiftLeft b i hlow
        · have hne : ¬ j = i := by omega
          rw [BitVec.getLsbD_of_ge _ _ (by omega), decide_eq_false hne, Bool.and_false]
    | unsignedLong => exact getLsbD_ofBool_shiftLeft b i hj
  · cases h

theorem shifted_isSome_iff (type : ShiftType) (b : Bool) (i : Nat) :
    (type.shifted b i).isSome ↔ i < type.width := by
  unfold ShiftType.shifted
  split <;> simp_all

theorem fits_cons (site : Site) (b : Bool) (vec : List Bool) (i : Nat) :
    site.Fits (b :: vec) i ↔
      (site.onlySet = false ∨ b = true → i < site.type.width) ∧ site.Fits vec (i + 1) := by
  constructor
  · intro h
    refine ⟨fun hb => h 0 (by simp) (by simpa using hb), fun k hk hbit => ?_⟩
    have hk' := h (k + 1) (by simpa using hk) (by simpa using hbit)
    omega
  · rintro ⟨hfirst, hrest⟩ k hk hbit
    cases k with
    | zero => exact hfirst (by simpa using hbit)
    | succ k =>
        have hk' := hrest k (by simpa using hk) (by simpa using hbit)
        omega

/-- A place of the writer has a result if the bits that it shifts stay in the width. -/
theorem packFrom_isSome_iff (site : Site) (vec : List Bool) (i : Nat) (mod : BitVec 64) :
    (site.packFrom vec i mod).isSome ↔ site.Fits vec i := by
  induction vec generalizing i mod with
  | nil => simp [Site.packFrom, Site.Fits]
  | cons b vec ih =>
      rw [Site.packFrom, fits_cons]
      by_cases hskip : (site.onlySet && !b) = true
      · rw [if_pos hskip, ih]
        rw [Bool.and_eq_true, Bool.not_eq_true'] at hskip
        simp [hskip.1, hskip.2]
      · have hshift : site.onlySet = false ∨ b = true := by
          cases hset : site.onlySet <;> cases b <;> simp_all
        rw [if_neg hskip]
        cases hx : site.type.shifted b i with
        | none =>
            have hno : ¬ i < site.type.width := by
              rw [← shifted_isSome_iff site.type b i, hx]
              simp
            simp [hshift, hno]
        | some x =>
            have hyes : i < site.type.width := by
              rw [← shifted_isSome_iff site.type b i, hx]
              rfl
            simp [hyes, ih]

/-- The bits of the number come from their places in the vector. -/
theorem getLsbD_packFrom {site : Site} {vec : List Bool} {i : Nat} {mod r : BitVec 64}
    (h : site.packFrom vec i mod = some r) {j : Nat} (hj : j < 64) :
    r.getLsbD j = (mod.getLsbD j ||
      (decide (i ≤ site.type.place j) && vec.getD (site.type.place j - i) false)) := by
  induction vec generalizing i mod with
  | nil =>
      rw [Site.packFrom, Option.some.injEq] at h
      simp [h]
  | cons b vec ih =>
      -- The bit at the place is the first one, or it is one of the others.
      have hplace : (decide (i ≤ site.type.place j) &&
          (b :: vec).getD (site.type.place j - i) false) =
          ((b && decide (site.type.place j = i)) ||
            (decide (i + 1 ≤ site.type.place j) &&
              vec.getD (site.type.place j - (i + 1)) false)) := by
        generalize site.type.place j = p
        rcases Nat.lt_trichotomy p i with hlt | rfl | hgt
        · have h1 : ¬ i ≤ p := by omega
          have h2 : ¬ i + 1 ≤ p := by omega
          simp [h1, h2, Nat.ne_of_lt hlt]
        · simp
        · have h1 : i ≤ p := by omega
          have h2 : i + 1 ≤ p := by omega
          have h3 : p - i = (p - (i + 1)) + 1 := by omega
          rw [h3]
          simp [h1, h2, Nat.ne_of_gt hgt]
      rw [Site.packFrom] at h
      by_cases hskip : (site.onlySet && !b) = true
      · rw [if_pos hskip] at h
        rw [Bool.and_eq_true, Bool.not_eq_true'] at hskip
        rw [ih h, hplace, hskip.2, Bool.false_and, Bool.false_or]
      · rw [if_neg hskip] at h
        obtain ⟨x, hx, hrest⟩ := Option.bind_eq_some_iff.mp h
        rw [ih hrest, hplace, BitVec.getLsbD_or, getLsbD_shifted hx hj, Bool.or_assoc]

theorem fits_all {site : Site} (hsite : site.onlySet = false) (vec : List Bool) :
    site.Fits vec 0 ↔ vec.length ≤ site.type.width := by
  constructor
  · intro h
    by_contra hlong
    have hlast := h site.type.width (by omega) (Or.inl hsite)
    omega
  · intro h k hk _
    omega

/-- The number of a vector, if every bit comes from its own place. -/
theorem pack_eq {site : Site} {vec : List Bool} (hfits : site.Fits vec 0)
    (hplace : ∀ j < 64, vec.getD (site.type.place j) false = vec.getD j false) :
    site.pack vec = some (word 64 vec) := by
  obtain ⟨r, hr⟩ := Option.isSome_iff_exists.mp ((packFrom_isSome_iff site vec 0 0).mpr hfits)
  have hbits : ∀ j < 64, r.getLsbD j = vec.getD j false := by
    intro j hj
    rw [getLsbD_packFrom hr hj, ← hplace j hj]
    simp
  rw [Site.pack, hr, eq_word hbits]

/-- A place that shifts all bits as what they become, or as something without a sign, has
    the number of the vector or no number at all. -/
theorem pack_unsigned {site : Site} (hset : site.onlySet = false) (htype : site.type ≠ .int)
    (vec : List Bool) :
    site.pack vec = if vec.length ≤ site.type.width then some (word 64 vec) else none := by
  split
  · rename_i hlen
    refine pack_eq ((fits_all hset vec).mpr hlen) fun j _ => ?_
    cases htype' : site.type with
    | int => exact absurd htype' htype
    | unsignedInt => rfl
    | unsignedLong => rfl
  · rename_i hlen
    rw [← fits_all hset vec, ← packFrom_isSome_iff site vec 0 0] at hlen
    exact Option.not_isSome_iff_eq_none.mp hlen

end Pack

section RoundTrip

variable {fresh vec : List Bool}

/-- Whether a vector comes back is decided by its number. -/
theorem roundTrips_iff (site : Site) (absent : List Bool → List Bool)
    (hlen : fresh.length = vec.length) :
    RoundTrips site absent fresh vec ↔ ∃ r, site.pack vec = some r ∧
      if site.writes r then ∀ j < vec.length, r.getLsbD j = vec.getD j false
      else absent fresh = vec := by
  constructor
  · rintro ⟨text, htext, hread⟩
    obtain ⟨r, hr, hwritten⟩ := Option.bind_eq_some_iff.mp htext
    refine ⟨r, hr, ?_⟩
    rw [Option.some.injEq] at hwritten
    subst hwritten
    split
    · rename_i hwrites
      rw [if_pos hwrites, readVector, readUnsignedLong_print] at hread
      exact (unpackFrom_eq_iff (by decide) hlen r).mp hread
    · rename_i hwrites
      rw [if_neg hwrites] at hread
      exact hread
  · rintro ⟨r, hr, hread⟩
    refine ⟨_, Option.bind_eq_some_iff.mpr ⟨r, hr, rfl⟩, ?_⟩
    split at hread
    · rename_i hwrites
      rw [if_pos hwrites, readVector, readUnsignedLong_print]
      exact (unpackFrom_eq_iff (by decide) hlen r).mpr hread
    · rename_i hwrites
      rw [if_neg hwrites]
      exact hread

/-- A place that has the number of the vector and omits small numbers. -/
theorem roundTrips_word {site : Site} {k : Nat} (homitted : site.omitted = some k)
    (hpack : site.pack vec = some (word 64 vec)) (absent : List Bool → List Bool)
    (hlen : fresh.length = vec.length) (hlong : vec.length ≤ 64) :
    RoundTrips site absent fresh vec ↔ (number vec ≤ k → absent fresh = vec) := by
  have hnumber : (word 64 vec).toNat = number vec := toNat_word hlong
  rw [roundTrips_iff site absent hlen, hpack]
  simp only [Option.some.injEq, exists_eq_left', Site.writes, homitted, hnumber,
    decide_eq_true_eq]
  by_cases hk : k < number vec
  · rw [if_pos hk]
    exact iff_of_true (fun j hj => getLsbD_word vec (by omega)) fun hle => absurd hk (by omega)
  · rw [if_neg hk]
    exact ⟨fun h _ => h, fun h => h (by omega)⟩

/-- A place that shifts `unsigned int` and omits small numbers. -/
theorem roundTrips_unsigned {site : Site} (hset : site.onlySet = false)
    (htype : site.type = .unsignedInt) {k : Nat} (homitted : site.omitted = some k)
    (absent : List Bool → List Bool) (hlen : fresh.length = vec.length) :
    RoundTrips site absent fresh vec ↔
      vec.length ≤ 32 ∧ (number vec ≤ k → absent fresh = vec) := by
  have hwidth : site.type.width = 32 := by rw [htype]; rfl
  have hpack := pack_unsigned hset (by rw [htype]; decide) vec
  rw [hwidth] at hpack
  by_cases hshort : vec.length ≤ 32
  · rw [if_pos hshort] at hpack
    rw [roundTrips_word homitted hpack absent hlen (by omega)]
    exact ⟨fun h => ⟨hshort, h⟩, fun h => h.2⟩
  · rw [if_neg hshort] at hpack
    refine iff_of_false ?_ fun h => hshort h.1
    rw [roundTrips_iff site absent hlen, hpack]
    simp

/-- Without a bit in the place of the sign or behind it the number is that of the vector. -/
theorem pack_function (hno : ∀ i, 31 ≤ i → vec.getD i false = false) :
    functionModifier.pack vec = some (word 64 vec) := by
  refine pack_eq ?_ fun j _ => ?_
  · intro k hk hbit
    rcases hbit with hset | hbit
    · cases hset
    · by_contra hge
      have hge' : 32 ≤ k := by
        have hwidth : functionModifier.type.width = 32 := rfl
        omega
      rw [hno k (by omega)] at hbit
      cases hbit
  · by_cases hj : j ≤ 31
    · have hplace : functionModifier.type.place j = j := Nat.min_eq_left hj
      rw [hplace]
    · have hplace : functionModifier.type.place j = 31 := Nat.min_eq_right (by omega)
      rw [hplace, hno 31 (Nat.le_refl _), hno j (by omega)]

/-- What the place that shifts `int` makes of a vector with a bit in the place of the sign. -/
theorem roundTrips_sign (absent : List Bool → List Bool) (hlen : fresh.length = vec.length)
    (hlong : vec.length ≤ 64) (hsign : vec.getD 31 false = true) :
    RoundTrips functionModifier absent fresh vec ↔ vec.length ≤ 32 := by
  have hbits : ∀ r, functionModifier.pack vec = some r →
      ∀ j < 64, r.getLsbD j = vec.getD (min j 31) false := by
    intro r hr j hj
    rw [getLsbD_packFrom hr hj]
    simp [functionModifier, ShiftType.place]
  have hwrites : ∀ r, functionModifier.pack vec = some r → functionModifier.writes r = true := by
    intro r hr
    have hbit : r.toNat.testBit 31 = true := by
      rw [BitVec.testBit_toNat, hbits r hr 31 (by decide)]
      exact hsign
    have hge := Nat.ge_two_pow_of_testBit hbit
    exact decide_eq_true (by omega)
  rw [roundTrips_iff functionModifier absent hlen]
  constructor
  · rintro ⟨r, hr, hread⟩
    rw [if_pos (hwrites r hr)] at hread
    -- A longer vector would have the sign in its next place, which is not shifted at all.
    by_contra hgt
    have hnext := hread 32 (by omega)
    rw [hbits r hr 32 (by decide)] at hnext
    have hfits := (packFrom_isSome_iff functionModifier vec 0 0).mp (by
      rw [← Site.pack, hr]
      rfl)
    have hlt := hfits 32 (by omega) (Or.inr (hnext.symm.trans hsign))
    exact absurd hlt (by decide)
  · intro hshort
    have hfits : functionModifier.Fits vec 0 := by
      intro k hk _
      have hwidth : functionModifier.type.width = 32 := rfl
      omega
    obtain ⟨r, hr⟩ :=
      Option.isSome_iff_exists.mp ((packFrom_isSome_iff functionModifier vec 0 0).mpr hfits)
    refine ⟨r, hr, ?_⟩
    rw [if_pos (hwrites r hr)]
    intro j hj
    rw [hbits r hr j (by omega), Nat.min_eq_left (by omega)]

/-- The place that shifts `int`. -/
theorem roundTrips_function (absent : List Bool → List Bool) (hlen : fresh.length = vec.length)
    (hlong : vec.length ≤ 64) :
    RoundTrips functionModifier absent fresh vec ↔
      (vec.length ≤ 32 ∨ ∀ i, 31 ≤ i → vec.getD i false = false) ∧
        (number vec ≤ 2 → absent fresh = vec) := by
  by_cases hsign : vec.getD 31 false = true
  · rw [roundTrips_sign absent hlen hlong hsign]
    have hnumber := le_number hsign
    constructor
    · exact fun hshort => ⟨Or.inl hshort, fun hle => absurd hle (by omega)⟩
    · rintro ⟨hshort | hno, -⟩
      · exact hshort
      · rw [hno 31 (Nat.le_refl _)] at hsign
        cases hsign
  · rw [Bool.not_eq_true] at hsign
    have hbehind : ∀ i, vec.length ≤ i → vec.getD i false = false := by
      intro i hi
      rw [List.getD_eq_getElem?_getD, List.getElem?_eq_none hi]
      rfl
    by_cases hno : ∀ i, 31 ≤ i → vec.getD i false = false
    · rw [roundTrips_word (k := 2) rfl (pack_function hno) absent hlen hlong]
      exact ⟨fun h => ⟨Or.inr hno, h⟩, fun h => h.2⟩
    · -- There is a bit behind the place of the sign, and it cannot be shifted there.
      simp only [not_forall, Bool.not_eq_false] at hno
      obtain ⟨i, hi, hbit⟩ := hno
      have hi' : i ≠ 31 := by
        rintro rfl
        rw [hsign] at hbit
        cases hbit
      have hilt : i < vec.length := by
        by_contra hge
        rw [hbehind i (by omega)] at hbit
        cases hbit
      refine iff_of_false ?_ ?_
      · rw [roundTrips_iff functionModifier absent hlen]
        rintro ⟨r, hr, -⟩
        have hfits := (packFrom_isSome_iff functionModifier vec 0 0).mp (by
          rw [← Site.pack, hr]
          rfl)
        have hwidth : functionModifier.type.width = 32 := rfl
        have hlt := hfits i hilt (Or.inr hbit)
        omega
      · rintro ⟨hshort | hno, -⟩
        · omega
        · rw [hno i hi] at hbit
          cases hbit

end RoundTrip

/-- All places of the writer have a number for a vector, and the same one, if and only if it
    has at most 32 bits and the last of 32 is not set. -/
theorem sites_agree_iff (vec : List Bool) :
    (∃ mod, ∀ site ∈ sites, site.pack vec = some mod) ↔
      vec.length ≤ 32 ∧ vec.getD 31 false = false := by
  have hdecl : declarationModifier.pack vec =
      if vec.length ≤ 32 then some (word 64 vec) else none := pack_unsigned rfl (by decide) vec
  constructor
  · rintro ⟨mod, hall⟩
    have hmod := hall declarationModifier (by decide)
    have hfunction := hall functionModifier (by decide)
    have hshort : vec.length ≤ 32 := by
      by_contra hgt
      rw [if_neg hgt, hmod] at hdecl
      cases hdecl
    refine ⟨hshort, ?_⟩
    rw [if_pos hshort, hmod, Option.some.injEq] at hdecl
    -- Behind its place the sign goes on, and the other numbers have no bit there.
    have hsign := getLsbD_packFrom hfunction (j := 32) (by decide)
    rw [hdecl, getLsbD_word vec (by decide), List.getD_eq_getElem?_getD,
      List.getElem?_eq_none hshort] at hsign
    simpa [functionModifier, ShiftType.place] using hsign.symm
  · rintro ⟨hshort, hsign⟩
    refine ⟨word 64 vec, ?_⟩
    have hno : ∀ i, 31 ≤ i → vec.getD i false = false := by
      intro i hi
      by_cases heq : i = 31
      · rw [heq, hsign]
      · rw [List.getD_eq_getElem?_getD, List.getElem?_eq_none (by omega)]
        rfl
    have hunsigned : ∀ site : Site, site.onlySet = false → site.type ≠ .int →
        site.pack vec = some (word 64 vec) := by
      intro site hset htype
      have hwide : vec.length ≤ site.type.width := by
        cases htype' : site.type with
        | int => exact absurd htype' htype
        | unsignedInt => exact hshort
        | unsignedLong => exact le_trans hshort (by decide)
      rw [pack_unsigned hset htype, if_pos hwide]
    simp only [sites, List.forall_mem_cons]
    exact ⟨hunsigned _ rfl (by decide), hunsigned _ rfl (by decide), pack_function hno,
      hunsigned _ rfl (by decide), hunsigned _ rfl (by decide), fun _ h =>
        absurd h List.not_mem_nil⟩

/-- When the vectors of a declaration, its type and a function come back, and when all
    places of the writer agree on a vector. -/
theorem modifier_iff (setDefault : List Bool → List Bool) {fresh vec : List Bool}
    (hlen : fresh.length = vec.length) (hlong : vec.length ≤ 64) :
    (RoundTrips declarationModifier id fresh vec ↔
      vec.length ≤ 32 ∧ (number vec ≤ 1 → fresh = vec)) ∧
    (RoundTrips typeModifier setDefault fresh vec ↔
      vec.length ≤ 32 ∧ (number vec ≤ 2 → setDefault fresh = vec)) ∧
    (RoundTrips functionModifier id fresh vec ↔
      (vec.length ≤ 32 ∨ ∀ i, 31 ≤ i → vec.getD i false = false) ∧
        (number vec ≤ 2 → fresh = vec)) ∧
    ((∃ mod, ∀ site ∈ sites, site.pack vec = some mod) ↔
      vec.length ≤ 32 ∧ vec.getD 31 false = false) :=
  ⟨roundTrips_unsigned rfl rfl rfl id hlen, roundTrips_unsigned rfl rfl rfl setDefault hlen,
    roundTrips_function id hlen hlong, sites_agree_iff vec⟩

/-- A vector with the lowest bit only is not written, and the reader leaves the default of
    the new node, which is the next bit. For a vector of 32 bits with the last one set the
    places of the writer disagree, and for one of 33 bits they shift too far. -/
theorem lowest_not_kept :
    ¬ RoundTrips declarationModifier id [false, true, false] [true, false, false] ∧
      ¬ RoundTrips functionModifier id [false, true, false] [true, false, false] ∧
      functionModifier.pack (List.replicate 31 false ++ [true]) = some 0xFFFFFFFF80000000 ∧
      declarationModifier.pack (List.replicate 31 false ++ [true]) = some 0x80000000 ∧
      declarationModifier.pack (List.replicate 33 false) = none := by
  refine ⟨?_, ?_, by decide, by decide, by decide⟩
  · have hlen : [false, true, false].length = [true, false, false].length := rfl
    rw [roundTrips_unsigned (k := 1) rfl rfl rfl id hlen]
    decide
  · have hlen : [false, true, false].length = [true, false, false].length := rfl
    rw [roundTrips_function id hlen (by decide)]
    exact fun h => absurd (h.2 (by decide)) (by decide)

theorem modifier_iff_default :
    (RoundTrips declarationModifier id [false, true] [false, true] ↔
      [false, true].length ≤ 32 ∧ (number [false, true] ≤ 1 → [false, true] = [false, true])) ∧
    (RoundTrips typeModifier (fun _ => [false, true]) [false, true] [false, true] ↔
      [false, true].length ≤ 32 ∧ (number [false, true] ≤ 2 → [false, true] = [false, true])) ∧
    (RoundTrips functionModifier id [false, true] [false, true] ↔
      ([false, true].length ≤ 32 ∨ ∀ i, 31 ≤ i → [false, true].getD i false = false) ∧
        (number [false, true] ≤ 2 → [false, true] = [false, true])) ∧
    ((∃ mod, ∀ site ∈ sites, site.pack [false, true] = some mod) ↔
      [false, true].length ≤ 32 ∧ [false, true].getD 31 false = false) :=
  modifier_iff (fun _ => [false, true]) (show [false, true].length = [false, true].length from rfl)
    (by decide)

end XevXml.Modifier
