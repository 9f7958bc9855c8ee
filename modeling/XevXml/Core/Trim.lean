import Mathlib.Data.List.DropRight

/-!
# Trimming

A list without the elements at its ends that satisfy a predicate, such as a
text without the white space around it. What is taken away are two pieces, and
nothing is lost or gained when such pieces are put around a list.

A program finds the same part by two searches, for the first element that does
not satisfy the predicate and for the last one. `length_rdropWhile` says where
the second search ends, and `slice_eq_trim` that the elements between the two
are the trimmed list.

## Main definitions

* `trim`: A list without the elements at both ends that satisfy a predicate.

## Theorems

* `trim_eq_nil_iff`: Nothing is left if all elements satisfy the predicate.
* `exists_append_trim`: What is taken away are two pieces of such elements.
* `trim_append`: Such pieces do not matter.
* `trim_trim`: Trimming twice is trimming once.
* `length_rdropWhile`, `slice_eq_trim`: The trimmed list by its positions.
-/

namespace Trim

variable {α : Type} (p : α → Bool)

/-- A list without the elements at both ends that satisfy a predicate. -/
def trim (l : List α) : List α := (l.dropWhile p).rdropWhile p

/-- Elements at the end that satisfy the predicate do not matter. -/
theorem rdropWhile_append_of_forall {p : α → Bool} (s : List α) {t : List α}
    (h : ∀ c ∈ t, p c = true) : (s ++ t).rdropWhile p = s.rdropWhile p := by
  rw [List.rdropWhile, List.rdropWhile, List.reverse_append,
    List.dropWhile_append_of_pos fun c hc => h c (List.mem_reverse.mp hc)]

/-- What is left of two lists one behind the other. -/
theorem rdropWhile_append (s t : List α) :
    (s ++ t).rdropWhile p =
      if t.rdropWhile p = [] then s.rdropWhile p else s ++ t.rdropWhile p := by
  rw [List.rdropWhile, List.rdropWhile, List.rdropWhile, List.reverse_append, List.dropWhile_append]
  by_cases h : t.reverse.dropWhile p = []
  · rw [h, List.isEmpty_nil, if_pos rfl, List.reverse_nil, if_pos rfl]
  · have hne : (t.reverse.dropWhile p).reverse ≠ [] := fun hr => h (List.reverse_eq_nil_iff.mp hr)
    rw [List.isEmpty_eq_false_iff.mpr h, if_neg Bool.false_ne_true, if_neg hne, List.reverse_append,
      List.reverse_reverse]

/-- Nothing is left if all elements satisfy the predicate. -/
theorem trim_eq_nil_iff (l : List α) : trim p l = [] ↔ ∀ x ∈ l, p x = true := by
  unfold trim
  rw [List.rdropWhile_eq_nil_iff]
  constructor
  · intro h
    rw [← List.dropWhile_eq_nil_iff]
    -- The first element that is left would not satisfy the predicate.
    cases hl : l.dropWhile p with
    | nil => rfl
    | cons x xs =>
        have hhead := List.head_dropWhile_not p (by rw [hl]; exact List.cons_ne_nil x xs)
        simp only [hl, List.head_cons] at hhead
        rw [hl] at h
        exact absurd (h x List.mem_cons_self) (by rw [hhead]; exact Bool.false_ne_true)
  · intro h x hx
    exact h x ((List.dropWhile_suffix p).subset hx)

/-- What is taken away are two pieces of elements that satisfy the predicate. -/
theorem exists_append_trim (l : List α) :
    ∃ a b, (∀ x ∈ a, p x = true) ∧ (∀ x ∈ b, p x = true) ∧ l = a ++ trim p l ++ b := by
  refine ⟨l.takeWhile p, (l.dropWhile p).rtakeWhile p, ?_, ?_, ?_⟩
  · exact fun x hx => List.mem_takeWhile_imp hx
  · exact fun x hx => List.mem_rtakeWhile_imp hx
  · unfold trim
    rw [List.append_assoc, List.rdropWhile_append_rtakeWhile, List.takeWhile_append_dropWhile]

/-- Pieces of elements that satisfy the predicate do not matter. -/
theorem trim_append {a b : List α} (ha : ∀ x ∈ a, p x = true) (hb : ∀ x ∈ b, p x = true)
    (l : List α) : trim p (a ++ l ++ b) = trim p l := by
  have hfront : (a ++ (l ++ b)).dropWhile p = (l ++ b).dropWhile p :=
    List.dropWhile_append_of_pos ha
  unfold trim
  rw [List.append_assoc, hfront, List.dropWhile_append]
  by_cases hl : l.dropWhile p = []
  · rw [hl, List.isEmpty_nil, if_pos rfl, List.dropWhile_eq_nil_iff.mpr hb]
  · rw [List.isEmpty_eq_false_iff.mpr hl, if_neg Bool.false_ne_true,
      rdropWhile_append_of_forall _ hb]

/-- Trimming twice is trimming once. -/
theorem trim_trim (l : List α) : trim p (trim p l) = trim p l := by
  rcases exists_append_trim p l with ⟨a, b, ha, hb, hl⟩
  have h := trim_append p ha hb (trim p l)
  rw [← hl] at h
  exact h.symm

/-- Where the elements that do not satisfy the predicate end. -/
theorem length_rdropWhile {l : List α} (h : trim p l ≠ []) :
    (l.rdropWhile p).length = (l.takeWhile p).length + (trim p l).length := by
  have hne : (l.dropWhile p).rdropWhile p ≠ [] := h
  conv_lhs => rw [← List.takeWhile_append_dropWhile (p := p) (l := l)]
  rw [rdropWhile_append, if_neg hne, List.length_append, trim]

/-- The elements between the two positions. -/
theorem slice_eq_trim (l : List α) :
    (l.drop (l.takeWhile p).length).take ((l.rdropWhile p).length - (l.takeWhile p).length) =
      trim p l := by
  by_cases h : trim p l = []
  · have hall := (trim_eq_nil_iff p l).mp h
    rw [h, List.rdropWhile_eq_nil_iff.mpr hall, List.length_nil, Nat.zero_sub, List.take_zero]
  · have hdrop : l.drop (l.takeWhile p).length = l.dropWhile p := calc
      l.drop (l.takeWhile p).length
        = (l.takeWhile p ++ l.dropWhile p).drop (l.takeWhile p).length := by
          rw [List.takeWhile_append_dropWhile]
      _ = l.dropWhile p := List.drop_left
    rw [length_rdropWhile p h, Nat.add_sub_cancel_left, hdrop]
    exact (List.prefix_iff_eq_take.mp (List.rdropWhile_prefix p (l.dropWhile p))).symm

end Trim
