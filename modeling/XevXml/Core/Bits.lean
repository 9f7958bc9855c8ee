import Mathlib.Data.List.Basic
import Mathlib.Data.Nat.Bitwise

/-!
# Vectors of Bits in a Word

A vector of bits is kept in a word with the first bit in the lowest place, and it is taken
out again by looking at the lowest place and shifting. A vector that is not longer than the
word has a number of its own, which is the number of the word.

## Main definitions

* `word`: The word that holds a vector.
* `number`: The number that a vector stands for.
* `unpackFrom`: The bits of a word, as many as a vector has.

## Theorems

* `unpackFrom_eq_iff`: Which word is taken apart into a vector.
* `toNat_word`: The word of a vector has its number.
-/

namespace XevXml.Bits

variable {w : Nat}

/-- The word that holds a vector. -/
def word (w : Nat) (vec : List Bool) : BitVec w := (BitVec.ofBoolListLE vec).setWidth w

/-- The number that a vector stands for. -/
def number (vec : List Bool) : Nat := (BitVec.ofBoolListLE vec).toNat

/-- The bits of a word, as many as a vector has. -/
def unpackFrom : List Bool → BitVec w → List Bool
  | [], _ => []
  | _ :: vec, mod => decide (mod &&& 1#w ≠ 0#w) :: unpackFrom vec (mod >>> 1)

theorem getLsbD_word (vec : List Bool) {j : Nat} (hj : j < w) :
    (word w vec).getLsbD j = vec.getD j false := by
  rw [word, BitVec.getLsbD_setWidth, BitVec.getLsbD_ofBoolListLE, decide_eq_true hj, Bool.true_and]

/-- A word is known when its bits are. -/
theorem eq_word {mod : BitVec w} {vec : List Bool}
    (h : ∀ j < w, mod.getLsbD j = vec.getD j false) : mod = word w vec := by
  refine BitVec.eq_of_getLsbD_eq fun j hj => ?_
  rw [h j hj, getLsbD_word vec hj]

theorem toNat_word {vec : List Bool} (h : vec.length ≤ w) : (word w vec).toNat = number vec :=
  BitVec.toNat_setWidth_of_le h

/-- A bit that is set makes the number as large as its place says. -/
theorem le_number {vec : List Bool} {i : Nat} (h : vec.getD i false = true) :
    2 ^ i ≤ number vec := by
  refine Nat.ge_two_pow_of_testBit ?_
  rw [number, BitVec.testBit_toNat, BitVec.getLsbD_ofBoolListLE, h]

theorem lowest_eq (hw : 0 < w) (mod : BitVec w) :
    decide (mod &&& 1#w ≠ 0#w) = mod.getLsbD 0 := by
  cases hbit : mod.getLsbD 0 with
  | false =>
      refine decide_eq_false (not_not_intro (BitVec.eq_of_getLsbD_eq fun j hj => ?_))
      rw [BitVec.getLsbD_and, BitVec.getLsbD_one, BitVec.getLsbD_zero]
      by_cases h0 : j = 0
      · rw [h0, hbit, Bool.false_and]
      · simp [h0]
  | true =>
      refine decide_eq_true fun hzero => ?_
      have hlow := congrArg (fun x => BitVec.getLsbD x 0) hzero
      simp only [BitVec.getLsbD_and, hbit, BitVec.getLsbD_one, BitVec.getLsbD_zero] at hlow
      simp [hw] at hlow

theorem length_unpackFrom (vec : List Bool) (mod : BitVec w) :
    (unpackFrom vec mod).length = vec.length := by
  induction vec generalizing mod with
  | nil => rfl
  | cons b vec ih => rw [unpackFrom, List.length_cons, ih, List.length_cons]

theorem getElem?_unpackFrom (hw : 0 < w) {vec : List Bool} (mod : BitVec w) {j : Nat}
    (hj : j < vec.length) : (unpackFrom vec mod)[j]? = some (mod.getLsbD j) := by
  induction vec generalizing mod j with
  | nil => exact absurd hj (Nat.not_lt_zero _)
  | cons b vec ih =>
      cases j with
      | zero => rw [unpackFrom, List.getElem?_cons_zero, lowest_eq hw]
      | succ j =>
          rw [List.length_cons] at hj
          rw [unpackFrom, List.getElem?_cons_succ, ih _ (by omega), BitVec.getLsbD_ushiftRight,
            Nat.add_comm]

/-- A word is taken apart into a vector if its bits are those of the vector, as far as the
    vector goes. -/
theorem unpackFrom_eq_iff (hw : 0 < w) {fresh vec : List Bool} (hlen : fresh.length = vec.length)
    (mod : BitVec w) :
    unpackFrom fresh mod = vec ↔ ∀ j < vec.length, mod.getLsbD j = vec.getD j false := by
  constructor
  · intro h j hj
    have hget := getElem?_unpackFrom hw mod (hlen ▸ hj)
    rw [h] at hget
    rw [List.getD_eq_getElem?_getD, hget]
    rfl
  · intro h
    refine List.ext_getElem? fun j => ?_
    by_cases hj : j < vec.length
    · rw [getElem?_unpackFrom hw mod (hlen ▸ hj), h j hj, List.getD_eq_getElem?_getD,
        List.getElem?_eq_getElem hj]
      rfl
    · rw [List.getElem?_eq_none (by rw [length_unpackFrom, hlen]; omega),
        List.getElem?_eq_none (by omega)]

end XevXml.Bits
