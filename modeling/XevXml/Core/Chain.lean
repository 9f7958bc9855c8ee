import Mathlib.Data.List.Basic

/-!
# Chains of Cells

A list in memory is a chain: a pointer to its first cell, and in every cell a pointer to the
next one. Which cells it goes through depends only on the pointers in them, so the cells
are determined by the first pointer, none of them comes twice, and a change in a cell that
is not in the chain leaves the chain as it is.

## Main definitions

* `Linked`: The cells that a chain goes through.

## Theorems

* `Linked.unique`: There is one way through the cells.
* `Linked.nodup`: No cell comes twice.
* `Linked.congr`: Cells outside of the chain do not matter.
* `Linked.extend`: A new cell at the end.
-/

namespace XevXml

variable {A : Type} {next next' : A → Option A}

/-- The cells from a pointer on, up to the one with no pointer in it. -/
inductive Linked (next : A → Option A) : Option A → List A → Prop
  | nil : Linked next none []
  | cons {a : A} {as : List A} : Linked next (next a) as → Linked next (some a) (a :: as)

theorem Linked.unique {p : Option A} {as bs : List A} (ha : Linked next p as)
    (hb : Linked next p bs) : as = bs := by
  induction ha generalizing bs with
  | nil =>
      cases hb
      rfl
  | cons _ ih =>
      cases hb with
      | cons hb => rw [ih hb]

/-- Behind every cell of a chain there is a chain. -/
theorem Linked.from_mem {p : Option A} {pre post : List A} {a : A}
    (h : Linked next p (pre ++ a :: post)) : Linked next (some a) (a :: post) := by
  induction pre generalizing p with
  | nil =>
      cases h with
      | cons h => exact .cons h
  | cons b pre ih =>
      cases h with
      | cons h => exact ih h

/-- A cell that came twice would be at the beginning of two chains. -/
theorem Linked.nodup {p : Option A} {as : List A} (h : Linked next p as) : as.Nodup := by
  induction h with
  | nil => exact List.nodup_nil
  | cons h ih =>
      rename_i a as
      refine List.nodup_cons.mpr ⟨?_, ih⟩
      intro hmem
      obtain ⟨pre, post, hsplit⟩ := List.append_of_mem hmem
      have hbehind : Linked next (some a) (a :: post) := Linked.from_mem (hsplit ▸ h)
      have heq := congrArg List.length (hbehind.unique (.cons h))
      rw [hsplit] at heq
      simp only [List.length_cons, List.length_append] at heq
      omega

theorem Linked.congr {p : Option A} {as : List A} (h : Linked next p as)
    (hsame : ∀ a ∈ as, next' a = next a) : Linked next' p as := by
  induction h with
  | nil => exact .nil
  | cons h ih =>
      rw [List.forall_mem_cons] at hsame
      refine .cons ?_
      rw [hsame.1]
      exact ih hsame.2

/-- The last cell is made to point to a new one. -/
theorem Linked.extend {p : Option A} {as : List A} {last new : A}
    (h : Linked next p (as ++ [last])) (hlast : next' last = some new) (hnew : next' new = none)
    (hsame : ∀ a ∈ as, next' a = next a) : Linked next' p (as ++ [last, new]) := by
  induction as generalizing p with
  | nil =>
      cases h with
      | cons h =>
          refine .cons ?_
          rw [hlast]
          refine .cons ?_
          rw [hnew]
          exact .nil
  | cons a as ih =>
      rw [List.forall_mem_cons] at hsame
      cases h with
      | cons h =>
          refine .cons ?_
          rw [hsame.1]
          exact ih h hsame.2

end XevXml
