import Mathlib.Data.Int.Order.Basic
import Mathlib.Tactic.Positivity
import Mathlib.Tactic.Ring

/-!
# Numerals in Character Streams

Printing an integer and extracting one, the way a formatted character stream
does it. Printing gives the decimal digits behind an optional minus sign.
Extraction skips white space, takes an optional sign and the longest run of
decimal digits behind it, and leaves the rest of the text alone. It does not
look at the rest: a text such as `0x1f` is read as the digit `0` followed by
something else, and a text with a leading zero is read in base ten like any
other.

A text without a digit is extracted as zero. A magnitude too large for the
integer format is replaced by the nearest bound, except that a negative
magnitude that fits into an unsigned format is taken modulo its width.

The last section compares the readings of one digit string in two bases. They
agree on the numbers below the smaller base and differ on all others, which
is what decides whether a spelling in another base survives a decimal reader.

## Main definitions

* `printNat`, `printInt`: The decimal text of a number.
* `scan`: The sign and magnitude at the front of a text.
* `Format`: An integer format, by signedness and width.
* `Format.InRange`: The numbers a format holds.
* `Format.extract`: The number a stream extracts for a format.
* `Machine`: The numbers of a format, with the proof that they are in range.
* `Machine.print`, `Machine.read`: Their text, and the one a text denotes.

## Theorems

* `scan_digits`: A run of digits is scanned as the number it denotes.
* `Format.extract_printInt`: Extraction undoes printing on the range.
* `Format.extract_digits`: Extraction of a run of digits, with what follows it.
* `Format.extract_inRange`: Extraction never leaves the range.
* `Machine.read_print`: A machine integer is read back as itself.
* `ofDigitChars_eight_lt_ten`: A digit string denotes more in base ten than
  in base eight, unless it denotes a single octal digit.
-/

namespace Numeral

/-- White space a formatted extraction skips. -/
def isSpace (c : Char) : Bool :=
  c = ' ' || c = '\t' || c = '\n' || c = '\x0b' || c = '\x0c' || c = '\r'

/-- The decimal digits of a natural number. -/
def printNat (n : Nat) : List Char := Nat.toDigits 10 n

/-- The decimal text of an integer. -/
def printInt : Int → List Char
  | .ofNat n => printNat n
  | .negSucc n => '-' :: printNat (n + 1)

/-- The number denoted by the digits at the front of a text, if there are any. -/
def scanNat (s : List Char) : Option Nat :=
  let ds := s.takeWhile Char.isDigit
  if ds = [] then none else some (Nat.ofDigitChars 10 ds 0)

/-- The sign (true for minus) and magnitude at the front of a text. -/
def scan (s : List Char) : Option (Bool × Nat) :=
  match s.dropWhile isSpace with
  | '-' :: t => (scanNat t).map fun n => (true, n)
  | '+' :: t => (scanNat t).map fun n => (false, n)
  | t => (scanNat t).map fun n => (false, n)

/-- An integer format: whether it is signed, and its width in bits. -/
structure Format where
  signed : Bool
  bits : Nat
deriving DecidableEq, Repr

namespace Format

/-- The least number of a format. -/
def lo (f : Format) : Int := if f.signed then -2 ^ (f.bits - 1) else 0

/-- The greatest number of a format. -/
def hi (f : Format) : Int := if f.signed then 2 ^ (f.bits - 1) - 1 else 2 ^ f.bits - 1

/-- The numbers a format holds. -/
def InRange (f : Format) (v : Int) : Prop := f.lo ≤ v ∧ v ≤ f.hi

instance (f : Format) (v : Int) : Decidable (f.InRange v) :=
  inferInstanceAs (Decidable (f.lo ≤ v ∧ v ≤ f.hi))

/-- The number a stream extracts from a text for a format. -/
def extract (f : Format) (s : List Char) : Int :=
  match scan s with
  | none => 0
  | some (neg, m) =>
      if f.signed then max f.lo (min f.hi (if neg then -(m : Int) else m))
      else if f.hi < m then f.hi
      else if neg then (2 ^ f.bits - (m : Int)) % 2 ^ f.bits
      else m

theorem lo_nonpos (f : Format) : f.lo ≤ 0 := by
  unfold lo
  split
  · have h : (0 : Int) < 2 ^ (f.bits - 1) := by positivity
    omega
  · exact le_refl _

theorem hi_nonneg (f : Format) : 0 ≤ f.hi := by
  unfold hi
  split
  · have h : (0 : Int) < 2 ^ (f.bits - 1) := by positivity
    omega
  · have h : (0 : Int) < 2 ^ f.bits := by positivity
    omega

end Format

section Scan

theorem not_isSpace_of_isDigit {c : Char} (h : c.isDigit = true) : isSpace c = false := by
  rw [Bool.eq_false_iff]
  intro hs
  simp only [isSpace, Bool.or_eq_true, decide_eq_true_eq] at hs
  rcases hs with ((((rfl | rfl) | rfl) | rfl) | rfl) | rfl <;> exact absurd h (by decide)

/-- A run of digits followed by something else is scanned up to its end. -/
theorem scanNat_append {ds rest : List Char} (hne : ds ≠ [])
    (hds : ∀ c ∈ ds, c.isDigit = true) (hrest : ∀ c ∈ rest.head?, c.isDigit = false) :
    scanNat (ds ++ rest) = some (Nat.ofDigitChars 10 ds 0) := by
  have hstop : rest.takeWhile Char.isDigit = [] := by
    cases rest with
    | nil => rfl
    | cons c rest =>
        have hc : c.isDigit = false := hrest c (by simp)
        simp [hc]
  have htake : (ds ++ rest).takeWhile Char.isDigit = ds := by
    rw [List.takeWhile_append_of_pos hds, hstop, List.append_nil]
  simp only [scanNat, htake]
  rw [if_neg hne]

theorem dropWhile_isSpace_digits {ds rest : List Char} (hne : ds ≠ [])
    (hds : ∀ c ∈ ds, c.isDigit = true) : (ds ++ rest).dropWhile isSpace = ds ++ rest := by
  obtain ⟨d, ds', rfl⟩ := List.exists_cons_of_ne_nil hne
  have hd := not_isSpace_of_isDigit (hds d List.mem_cons_self)
  simp [hd]

theorem scan_digits {ds rest : List Char} (hne : ds ≠ [])
    (hds : ∀ c ∈ ds, c.isDigit = true) (hrest : ∀ c ∈ rest.head?, c.isDigit = false) :
    scan (ds ++ rest) = some (false, Nat.ofDigitChars 10 ds 0) := by
  have hscan := scanNat_append hne hds hrest
  have hdrop : (ds ++ rest).dropWhile isSpace = ds ++ rest := dropWhile_isSpace_digits hne hds
  obtain ⟨d, ds', rfl⟩ := List.exists_cons_of_ne_nil hne
  have hdig : d.isDigit = true := hds d List.mem_cons_self
  have hminus : d ≠ '-' := by rintro rfl; exact absurd hdig (by decide)
  have hplus : d ≠ '+' := by rintro rfl; exact absurd hdig (by decide)
  unfold scan
  rw [hdrop]
  simp only [List.cons_append] at hscan ⊢
  split
  · rename_i heq
    exact absurd (List.cons.inj heq).1 hminus
  · rename_i heq
    exact absurd (List.cons.inj heq).1 hplus
  · rw [hscan]
    rfl

theorem scan_minus_digits {ds rest : List Char} (hne : ds ≠ [])
    (hds : ∀ c ∈ ds, c.isDigit = true) (hrest : ∀ c ∈ rest.head?, c.isDigit = false) :
    scan ('-' :: (ds ++ rest)) = some (true, Nat.ofDigitChars 10 ds 0) := by
  have hdrop : ('-' :: (ds ++ rest)).dropWhile isSpace = '-' :: (ds ++ rest) := by
    rw [List.dropWhile_cons_of_neg (by decide)]
  simp only [scan, hdrop, scanNat_append hne hds hrest, Option.map_some]

theorem isDigit_of_mem_printNat {n : Nat} {c : Char} (h : c ∈ printNat n) : c.isDigit = true :=
  Nat.isDigit_of_mem_toDigits (by decide) (by decide) h

theorem printNat_ne_nil (n : Nat) : printNat n ≠ [] := Nat.toDigits_ne_nil

theorem ofDigitChars_printNat (n : Nat) : Nat.ofDigitChars 10 (printNat n) 0 = n :=
  Nat.ofDigitChars_ten_toDigits

theorem mem_printInt {v : Int} {c : Char} (h : c ∈ printInt v) : c = '-' ∨ c.isDigit = true := by
  cases v with
  | ofNat n => exact Or.inr (isDigit_of_mem_printNat h)
  | negSucc n =>
      rcases List.mem_cons.mp h with rfl | hc
      · exact Or.inl rfl
      · exact Or.inr (isDigit_of_mem_printNat hc)

theorem printInt_ne_nil (v : Int) : printInt v ≠ [] := by
  cases v with
  | ofNat n => exact printNat_ne_nil n
  | negSucc n => exact List.cons_ne_nil _ _

theorem scan_printInt (v : Int) : scan (printInt v) = some (decide (v < 0), v.natAbs) := by
  cases v with
  | ofNat n =>
      have h : scan (printNat n ++ []) = some (false, Nat.ofDigitChars 10 (printNat n) 0) :=
        scan_digits (printNat_ne_nil n) (fun c hc => isDigit_of_mem_printNat hc) (by simp)
      rw [List.append_nil, ofDigitChars_printNat] at h
      have hneg : decide (Int.ofNat n < 0) = false := decide_eq_false (by simp)
      rw [hneg]
      exact h
  | negSucc n =>
      have h : scan ('-' :: (printNat (n + 1) ++ [])) =
          some (true, Nat.ofDigitChars 10 (printNat (n + 1)) 0) :=
        scan_minus_digits (printNat_ne_nil (n + 1)) (fun c hc => isDigit_of_mem_printNat hc)
          (by simp)
      rw [List.append_nil, ofDigitChars_printNat] at h
      have hneg : decide (Int.negSucc n < 0) = true := decide_eq_true (Int.negSucc_lt_zero n)
      rw [hneg]
      exact h

end Scan

namespace Format

/-- Extraction of a nonnegative magnitude stops at the upper bound. -/
theorem extract_of_scan_pos {f : Format} {s : List Char} {m : Nat}
    (h : scan s = some (false, m)) : f.extract s = min f.hi m := by
  have hlo := lo_nonpos f
  have hhi := hi_nonneg f
  simp only [extract, h, Bool.false_eq_true, if_false]
  split
  · exact max_eq_right (by omega)
  · by_cases hm : f.hi < m
    · rw [if_pos hm, min_eq_left hm.le]
    · rw [if_neg hm, min_eq_right (by omega)]

theorem extract_printInt {f : Format} {v : Int} (h : f.InRange v) :
    f.extract (printInt v) = v := by
  obtain ⟨hlo, hhi⟩ := h
  have hscan := scan_printInt v
  by_cases hneg : v < 0
  · have hsigned : f.signed = true := by
      by_contra hs
      rw [lo, if_neg hs] at hlo
      omega
    have habs : -(v.natAbs : Int) = v := by omega
    simp only [extract, hscan, hsigned, hneg, decide_true, if_true, habs]
    omega
  · have habs : (v.natAbs : Int) = v := by omega
    rw [decide_eq_false hneg] at hscan
    rw [extract_of_scan_pos hscan, habs]
    omega

theorem extract_digits {f : Format} {ds rest : List Char} (hne : ds ≠ [])
    (hds : ∀ c ∈ ds, c.isDigit = true) (hrest : ∀ c ∈ rest.head?, c.isDigit = false) :
    f.extract (ds ++ rest) = min f.hi (Nat.ofDigitChars 10 ds 0) :=
  extract_of_scan_pos (scan_digits hne hds hrest)

end Format

namespace Format

theorem extract_inRange (f : Format) (s : List Char) : f.InRange (f.extract s) := by
  have hlo := lo_nonpos f
  have hhi := hi_nonneg f
  cases hscan : scan s with
  | none =>
      have h : f.extract s = 0 := by simp only [extract, hscan]
      rw [h]
      exact ⟨hlo, hhi⟩
  | some p =>
      obtain ⟨neg, m⟩ := p
      by_cases hsigned : f.signed = true
      · simp only [extract, hscan, hsigned, if_true]
        exact ⟨le_max_left _ _, max_le (le_trans hlo hhi) (min_le_left _ _)⟩
      · have hwidth : f.hi = 2 ^ f.bits - 1 := by rw [hi, if_neg hsigned]
        have hpos : (0 : Int) < 2 ^ f.bits := by positivity
        simp only [extract, hscan]
        rw [if_neg hsigned]
        by_cases hbig : f.hi < m
        · rw [if_pos hbig]
          exact ⟨le_trans hlo hhi, le_refl _⟩
        · rw [if_neg hbig]
          cases neg with
          | false => exact ⟨le_trans hlo (Int.natCast_nonneg m), by simpa using hbig⟩
          | true =>
              have hmod := Int.emod_lt_of_pos (2 ^ f.bits - (m : Int)) hpos
              have hnonneg := Int.emod_nonneg (2 ^ f.bits - (m : Int)) hpos.ne'
              refine ⟨le_trans hlo hnonneg, ?_⟩
              simp only [if_true]
              omega

end Format

/-- The numbers of a format. -/
abbrev Machine (f : Format) := { v : Int // f.InRange v }

namespace Machine

/-- The decimal text of a machine integer. -/
def print {f : Format} (v : Machine f) : List Char := printInt v.1

/-- The machine integer a stream extracts from a text. -/
def read (f : Format) (s : List Char) : Machine f := ⟨f.extract s, f.extract_inRange s⟩

theorem read_print {f : Format} (v : Machine f) : read f v.print = v :=
  Subtype.ext (Format.extract_printInt v.2)

end Machine

section Bases

theorem ofDigitChars_eight_lt_ten_of_pos {ds : List Char} (hne : ds ≠ []) {m n : Nat}
    (hpos : 0 < m) (h : m ≤ n) : Nat.ofDigitChars 8 ds m < Nat.ofDigitChars 10 ds n := by
  induction ds generalizing m n with
  | nil => exact absurd rfl hne
  | cons d ds ih =>
      rw [Nat.ofDigitChars_cons, Nat.ofDigitChars_cons]
      cases ds with
      | nil => simp only [Nat.ofDigitChars_nil]; omega
      | cons e ds => exact ih (List.cons_ne_nil _ _) (by omega) (by omega)

/-- The value of a digit string in base ten exceeds its value in base eight
    as soon as the latter takes two digits. -/
theorem ofDigitChars_eight_lt_ten {ds : List Char}
    (hds : ∀ c ∈ ds, c.toNat - '0'.toNat < 8) (h : 8 ≤ Nat.ofDigitChars 8 ds 0) :
    Nat.ofDigitChars 8 ds 0 < Nat.ofDigitChars 10 ds 0 := by
  induction ds with
  | nil => simp at h
  | cons d ds ih =>
      rw [Nat.ofDigitChars_cons, Nat.ofDigitChars_cons] at *
      simp only [Nat.mul_zero, Nat.zero_add] at h ⊢
      have hd : d.toNat - '0'.toNat < 8 := hds d List.mem_cons_self
      have hrest : ∀ c ∈ ds, c.toNat - '0'.toNat < 8 :=
        fun c hc => hds c (List.mem_cons_of_mem _ hc)
      by_cases hz : d.toNat - '0'.toNat = 0
      · rw [hz] at h ⊢
        exact ih hrest h
      · refine ofDigitChars_eight_lt_ten_of_pos ?_ (by omega) (le_refl _)
        rintro rfl
        simp only [Nat.ofDigitChars_nil] at h
        omega

/-- Below the smaller base the two readings agree. -/
theorem ofDigitChars_ten_of_eight_lt {ds : List Char}
    (hds : ∀ c ∈ ds, c.toNat - '0'.toNat < 8) (h : Nat.ofDigitChars 8 ds 0 < 8) :
    Nat.ofDigitChars 10 ds 0 = Nat.ofDigitChars 8 ds 0 := by
  induction ds with
  | nil => rfl
  | cons d ds ih =>
      rw [Nat.ofDigitChars_cons, Nat.ofDigitChars_cons] at *
      simp only [Nat.mul_zero, Nat.zero_add] at h ⊢
      have hrest : ∀ c ∈ ds, c.toNat - '0'.toNat < 8 :=
        fun c hc => hds c (List.mem_cons_of_mem _ hc)
      by_cases hz : d.toNat - '0'.toNat = 0
      · rw [hz] at h ⊢
        exact ih hrest h
      · -- A nonzero leading digit followed by another one denotes at least eight.
        cases ds with
        | nil => rfl
        | cons e ds =>
            have hle : ∀ (l : List Char) (m : Nat), m ≤ Nat.ofDigitChars 8 l m := by
              intro l
              induction l with
              | nil => intro m; simp
              | cons c l ihl =>
                  intro m
                  rw [Nat.ofDigitChars_cons]
                  exact le_trans (by omega) (ihl _)
            rw [Nat.ofDigitChars_cons] at h
            have := hle ds (8 * (d.toNat - '0'.toNat) + (e.toNat - '0'.toNat))
            omega

end Bases

end Numeral
