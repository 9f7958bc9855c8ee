import Mathlib.Data.List.Basic

/-!
# Rewriting by Looking Back

A list is rewritten where some of its suffixes are instances, and an instance covers the first
`k` elements of a suffix. The usual way to do that goes from left to right: an instance is
replaced, and the rewriting goes on behind it.

Where every element is looked at on its own, nothing is known of what has happened to those in
front of it. An element is dropped if an instance begins among the `k - 1` elements before it,
replaced together with those behind it if an instance begins there, and kept otherwise. This is
the same as long as instances do not overlap. If they do, the second of them is not replaced,
and yet what it covers is dropped.

## Main definitions

* `Piece`: What an element becomes.
* `leftmost`: Replacing from left to right.
* `Dropped`, `lookback`: Looking back.
* `Apart`: Instances do not overlap.

## Theorems

* `lookback_instance`: An instance is replaced and what it covers is dropped.
* `leftmostFrom_covers`: Nothing is lost from left to right.
* `lookback_eq_leftmost`, `apart_of_same`: Both are the same if instances do not overlap, and
  only then.
-/

namespace XevXml.Lookback

variable {α : Type}

/-- An instance that is replaced, or an element that is kept. Both come with the elements in
    front of them, from the nearest one on, and those from there on. -/
inductive Piece (α : Type)
  | replaced (before suffix : List α)
  | kept (before suffix : List α)

variable (p : List α → Prop) (k : Nat)

/-- How many elements a piece stands for. -/
def Piece.size (k : Nat) : Piece α → Nat
  | replaced _ _ => k
  | kept _ _ => 1

/-- How many elements some pieces stand for. -/
def covered (k : Nat) : List (Piece α) → Nat
  | [] => 0
  | q :: qs => q.size k + covered k qs

open Classical in
/-- Replaces from left to right. The last argument bounds the number of pieces. -/
noncomputable def leftmostFrom (before : List α) : List α → Nat → List (Piece α)
  | [], _ => []
  | _ :: _, 0 => []
  | x :: xs, n + 1 =>
      if p (x :: xs) then
        .replaced before (x :: xs) ::
          leftmostFrom (((x :: xs).take k).reverse ++ before) ((x :: xs).drop k) n
      else .kept before (x :: xs) :: leftmostFrom (x :: before) xs n

/-- Replaces from left to right. -/
noncomputable def leftmost (xs : List α) : List (Piece α) := leftmostFrom p k [] xs xs.length

/-- An instance begins among the `k - 1` elements in front. -/
def Dropped (before suffix : List α) : Prop :=
  ∃ c, 1 ≤ c ∧ c < k ∧ c ≤ before.length ∧ p ((before.take c).reverse ++ suffix)

open Classical in
/-- What one element becomes. -/
noncomputable def look (before suffix : List α) : List (Piece α) :=
  if Dropped p k before suffix then []
  else if p suffix then [.replaced before suffix]
  else [.kept before suffix]

/-- Looks at every element. -/
noncomputable def lookback (before : List α) : List α → List (Piece α)
  | [] => []
  | x :: xs => look p k before (x :: xs) ++ lookback (x :: before) xs

/-- No instance begins inside another one. -/
def Apart : Prop := ∀ xs d, 0 < d → d < k → p xs → ¬ p (xs.drop d)

section Looking

variable {p k}

theorem look_of_dropped {before suffix : List α} (h : Dropped p k before suffix) :
    look p k before suffix = [] := if_pos h

theorem look_of_instance {before suffix : List α} (h : ¬ Dropped p k before suffix)
    (hp : p suffix) : look p k before suffix = [.replaced before suffix] := by
  rw [look, if_neg h, if_pos hp]

theorem look_of_kept {before suffix : List α} (h : ¬ Dropped p k before suffix)
    (hp : ¬ p suffix) : look p k before suffix = [.kept before suffix] := by
  rw [look, if_neg h, if_neg hp]

theorem not_dropped_nil (suffix : List α) : ¬ Dropped p k [] suffix := by
  rintro ⟨c, hc, -, hle, -⟩
  rw [List.length_nil] at hle
  omega

/-- The elements in front of a place in a list, put back. -/
theorem back_append_drop (before l : List α) {j c : Nat} (hj : j ≤ l.length) (hc : c ≤ j) :
    ((((l.take j).reverse ++ before).take c).reverse ++ l.drop j) = l.drop (j - c) := by
  have hlen : (l.take j).reverse.length = j := by
    rw [List.length_reverse, List.length_take_of_le hj]
  have hdrop : l.drop j = (l.drop (j - c)).drop (j - (j - c)) := by
    rw [List.drop_drop]
    congr 1
    omega
  rw [List.take_append_of_le_length (by omega), List.take_reverse, List.length_take_of_le hj,
    List.reverse_reverse, List.drop_take, hdrop, List.take_append_drop]

/-- What an instance covers is dropped. -/
theorem lookback_covered {l : List α} (hp : p l) (before : List α) {j : Nat} (hj : 1 ≤ j)
    (hjk : j < k) (hlen : j < l.length) :
    lookback p k ((l.take j).reverse ++ before) (l.drop j) =
      lookback p k ((l.take (j + 1)).reverse ++ before) (l.drop (j + 1)) := by
  have hdropped : Dropped p k ((l.take j).reverse ++ before) (l.drop j) := by
    refine ⟨j, hj, hjk, ?_, ?_⟩
    · rw [List.length_append, List.length_reverse, List.length_take_of_le (Nat.le_of_lt hlen)]
      omega
    · rwa [back_append_drop before l (Nat.le_of_lt hlen) (Nat.le_refl j), Nat.sub_self,
        List.drop_zero]
  rw [List.drop_eq_getElem_cons hlen] at hdropped ⊢
  rw [lookback, look_of_dropped hdropped, List.nil_append,
    List.take_succ_eq_append_getElem hlen, List.reverse_append]
  rfl

/-- An instance is replaced and what it covers is dropped. -/
theorem lookback_instance {before l : List α} (hk : 0 < k) (hlen : k ≤ l.length)
    (hfree : ¬ Dropped p k before l) (hp : p l) :
    lookback p k before l =
      .replaced before l :: lookback p k ((l.take k).reverse ++ before) (l.drop k) := by
  have hcovered : ∀ j, 1 ≤ j → j ≤ k →
      lookback p k ((l.take 1).reverse ++ before) (l.drop 1) =
        lookback p k ((l.take j).reverse ++ before) (l.drop j) := by
    intro j hj hjk
    induction j with
    | zero => exact absurd hj (Nat.not_succ_le_zero 0)
    | succ j ih =>
        cases j with
        | zero => rfl
        | succ j =>
            rw [ih (by omega) (by omega),
              lookback_covered hp before (by omega) (by omega) (by omega)]
  cases l with
  | nil => exact absurd hlen (by rw [List.length_nil]; omega)
  | cons x xs =>
      rw [lookback, look_of_instance hfree hp, ← hcovered k hk (Nat.le_refl k)]
      rfl

/-- Nothing is dropped behind an instance that does not overlap with others. -/
theorem not_dropped_behind {before l : List α} (hapart : Apart p k) (hlen : k ≤ l.length)
    (hp : p l) : ¬ Dropped p k ((l.take k).reverse ++ before) (l.drop k) := by
  rintro ⟨c, hc, hck, -, hinst⟩
  rw [back_append_drop before l hlen (by omega)] at hinst
  exact hapart l (k - c) (by omega) (by omega) hp hinst

/-- Nor behind an element that is kept. -/
theorem not_dropped_cons {before xs : List α} {x : α} (hfree : ¬ Dropped p k before (x :: xs))
    (hp : ¬ p (x :: xs)) : ¬ Dropped p k (x :: before) xs := by
  rintro ⟨c, hc, hck, hle, hinst⟩
  obtain ⟨c, rfl⟩ : ∃ d, c = d + 1 := ⟨c - 1, by omega⟩
  rw [List.take_succ_cons, List.reverse_cons, List.append_assoc, List.singleton_append] at hinst
  cases c with
  | zero => exact hp hinst
  | succ c =>
      rw [List.length_cons] at hle
      exact hfree ⟨c + 1, by omega, by omega, by omega, hinst⟩

end Looking

section Same

variable {p k}

theorem lookback_eq_leftmostFrom (hk : 0 < k) (hlen : ∀ xs, p xs → k ≤ xs.length)
    (hapart : Apart p k) (n : Nat) (before xs : List α) (hn : xs.length ≤ n)
    (hfree : ¬ Dropped p k before xs) : lookback p k before xs = leftmostFrom p k before xs n := by
  induction n generalizing before xs with
  | zero =>
      rw [List.length_eq_zero_iff.mp (Nat.le_zero.mp hn)]
      rfl
  | succ n ih =>
      cases xs with
      | nil => rfl
      | cons x xs =>
          rw [leftmostFrom]
          split
          · next hp =>
              rw [lookback_instance hk (hlen _ hp) hfree hp, ih]
              · rw [List.length_drop]
                omega
              · exact not_dropped_behind hapart (hlen _ hp) hp
          · next hp =>
              rw [lookback, look_of_kept hfree hp, ih _ _ (by simpa using hn)
                (not_dropped_cons hfree hp)]
              rfl

/-- Nothing is lost from left to right. -/
theorem leftmostFrom_covers (hk : 0 < k) (hlen : ∀ xs, p xs → k ≤ xs.length) (n : Nat)
    (before xs : List α) (hn : xs.length ≤ n) :
    covered k (leftmostFrom p k before xs n) = xs.length := by
  induction n generalizing before xs with
  | zero =>
      rw [List.length_eq_zero_iff.mp (Nat.le_zero.mp hn)]
      rfl
  | succ n ih =>
      cases xs with
      | nil => rfl
      | cons x xs =>
          rw [leftmostFrom]
          split
          · next hp =>
              have hle := hlen _ hp
              rw [covered, Piece.size, ih _ _ (by rw [List.length_drop]; omega),
                List.length_drop]
              omega
          · rw [covered, Piece.size, ih _ _ (by simpa using hn),
              List.length_cons]
            omega

/-- No more is replaced and kept than is there. -/
theorem lookback_size_le (hk : 0 < k) (hlen : ∀ xs, p xs → k ≤ xs.length) (n : Nat)
    (before xs : List α) (hn : xs.length ≤ n) :
    covered k (lookback p k before xs) ≤ xs.length := by
  induction n generalizing before xs with
  | zero =>
      rw [List.length_eq_zero_iff.mp (Nat.le_zero.mp hn)]
      exact Nat.le_refl 0
  | succ n ih =>
      cases xs with
      | nil => exact Nat.le_refl 0
      | cons x xs =>
          have hxs : xs.length ≤ n := by simpa using hn
          by_cases hfree : Dropped p k before (x :: xs)
          · rw [lookback, look_of_dropped hfree, List.nil_append]
            exact Nat.le_trans (ih _ _ hxs) (Nat.le_succ _)
          · by_cases hp : p (x :: xs)
            · have hle := hlen _ hp
              have hrest := ih (((x :: xs).take k).reverse ++ before) ((x :: xs).drop k)
                (by rw [List.length_drop]; omega)
              rw [List.length_drop] at hrest
              rw [lookback_instance hk hle hfree hp, covered, Piece.size]
              omega
            · have hrest := ih (x :: before) xs hxs
              rw [lookback, look_of_kept hfree hp, List.singleton_append, covered,
                Piece.size, List.length_cons]
              omega

/-- Looking back is not the same as going from left to right where instances overlap. -/
theorem apart_of_same (hk : 0 < k) (hlen : ∀ xs, p xs → k ≤ xs.length)
    (hsame : ∀ xs, p xs → lookback p k [] xs = leftmost p k xs) : Apart p k := by
  intro l d hd hdk hp hinst
  have hle := hlen l hp
  have hdle := hlen _ hinst
  rw [List.length_drop] at hdle
  have hl := hsame l hp
  obtain ⟨x, xs, rfl⟩ : ∃ x xs, l = x :: xs := by
    cases l with
    | nil => exact absurd hle (by rw [List.length_nil]; omega)
    | cons x xs => exact ⟨x, xs, rfl⟩
  rw [lookback_instance hk hle (not_dropped_nil _) hp, leftmost, List.length_cons, leftmostFrom,
    if_pos hp, List.cons.injEq] at hl
  -- The element behind the first instance is dropped because of the second one.
  have hdropped : Dropped p k (((x :: xs).take k).reverse ++ []) ((x :: xs).drop k) := by
    refine ⟨k - d, by omega, by omega, ?_, ?_⟩
    · rw [List.append_nil, List.length_reverse, List.length_take_of_le hle]
      omega
    · rw [back_append_drop [] _ hle (by omega)]
      have hkd : k - (k - d) = d := by omega
      rwa [hkd]
  have hlong : k < (x :: xs).length := by omega
  rw [List.drop_eq_getElem_cons hlong] at hl hdropped
  have hless := lookback_size_le hk hlen _
    ((x :: xs)[k] :: (((x :: xs).take k).reverse ++ [])) ((x :: xs).drop (k + 1)) (Nat.le_refl _)
  have hall := leftmostFrom_covers hk hlen xs.length (((x :: xs).take k).reverse ++ [])
    ((x :: xs)[k] :: (x :: xs).drop (k + 1))
    (by simp only [List.length_cons, List.length_drop] at hlong ⊢; omega)
  rw [← hl.2, lookback, look_of_dropped hdropped, List.nil_append, List.length_cons] at hall
  omega

/-- It is the same where they do not. -/
theorem lookback_eq_leftmost (hk : 0 < k) (hlen : ∀ xs, p xs → k ≤ xs.length) (h : Apart p k)
    (xs : List α) : lookback p k [] xs = leftmost p k xs :=
  lookback_eq_leftmostFrom hk hlen h xs.length [] xs (Nat.le_refl _) (not_dropped_nil xs)

end Same

end XevXml.Lookback
