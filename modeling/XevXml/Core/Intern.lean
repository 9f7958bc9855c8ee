import Mathlib.Data.List.Nodup

/-!
# Interning

A pool of names gives every name a number, the same one whenever it is asked for. A name
that is in the pool has the number of its place, and a new one is put at the end. So the
numbers that have been given stay what they are, and two names have the same number if and
only if they are the same.

A request may have no name in it; then there is no number either.

## Main definitions

* `intern`: The number of a name, and the pool with the name in it.
* `internAll`: A number of requests, one after the other.

## Theorems

* `intern_spec`: What one request does to the pool.
* `internAll_spec`: What all requests do to it.
* `internAll_eq_iff`: Numbers are equal exactly if names are.
-/

namespace XevXml

variable {α : Type} [DecidableEq α]

/-- The number of a name, and the pool with the name in it. -/
def intern (names : List α) (s : α) : List α × Nat :=
  if s ∈ names then (names, names.idxOf s) else (names ++ [s], names.length)

/-- Requests are answered one after the other. -/
def internAll : List α → List (Option α) → List α × List (Option Nat)
  | names, [] => (names, [])
  | names, none :: calls =>
      let (names, ids) := internAll names calls
      (names, none :: ids)
  | names, some s :: calls =>
      let (names, id) := intern names s
      let (names, ids) := internAll names calls
      (names, some id :: ids)

section Request

variable {names : List α} {s : α}

theorem intern_of_getElem? (hnodup : names.Nodup) {a : Nat} (h : names[a]? = some s) :
    intern names s = (names, a) := by
  obtain ⟨hlt, heq⟩ := List.getElem?_eq_some_iff.mp h
  have hmem : s ∈ names := List.mem_of_getElem? h
  have hidx : names.idxOf s = a := by
    rw [← heq]
    exact hnodup.idxOf_getElem a hlt
  rw [intern, if_pos hmem, hidx]

theorem intern_of_not_mem (h : s ∉ names) : intern names s = (names ++ [s], names.length) := by
  rw [intern, if_neg h]

/-- The pool has no name twice, it keeps what is in it, and the number is the place of the
    name. -/
theorem intern_spec (hnodup : names.Nodup) (s : α) :
    (intern names s).1.Nodup ∧ names <+: (intern names s).1 ∧
      (intern names s).1[(intern names s).2]? = some s := by
  by_cases h : s ∈ names
  · obtain ⟨a, ha⟩ := List.mem_iff_getElem?.mp h
    rw [intern_of_getElem? hnodup ha]
    exact ⟨hnodup, List.prefix_rfl, ha⟩
  · rw [intern_of_not_mem h]
    refine ⟨?_, List.prefix_append _ _, by simp⟩
    rw [List.nodup_append]
    refine ⟨hnodup, List.nodup_singleton s, ?_⟩
    intro a ha b hb heq
    rw [List.mem_singleton] at hb
    exact h (hb ▸ heq ▸ ha)

end Request

section Requests

/-- After any requests the pool has no name twice and keeps what was in it; every request
    for a name has been answered with its place in that pool, and the others with no
    number. -/
theorem internAll_spec (calls : List (Option α)) {names : List α} (hnodup : names.Nodup) :
    (internAll names calls).1.Nodup ∧ names <+: (internAll names calls).1 ∧
      (internAll names calls).2.length = calls.length ∧
      ∀ (i : Nat) (call : Option α), calls[i]? = some call →
        (call = none ∧ (internAll names calls).2[i]? = some none) ∨
          ∃ s a, call = some s ∧ (internAll names calls).2[i]? = some (some a) ∧
            (internAll names calls).1[a]? = some s := by
  induction calls generalizing names with
  | nil => exact ⟨hnodup, List.prefix_rfl, rfl, fun i call h => by simp at h⟩
  | cons first calls ih =>
      cases first with
      | none =>
          obtain ⟨hdup, hpre, hlen, hall⟩ := ih hnodup
          refine ⟨hdup, hpre, by simp only [internAll, List.length_cons, hlen], ?_⟩
          intro i call hcall
          cases i with
          | zero => exact Or.inl ⟨(Option.some.inj hcall).symm, rfl⟩
          | succ i => exact hall i call hcall
      | some s =>
          obtain ⟨hdup', hpre', hget⟩ := intern_spec hnodup s
          obtain ⟨hdup, hpre, hlen, hall⟩ := ih hdup'
          refine ⟨hdup, hpre'.trans hpre, by simp only [internAll, List.length_cons, hlen], ?_⟩
          intro i call hcall
          cases i with
          | zero =>
              -- What has been given keeps its number in the later pools.
              obtain ⟨hlt, heq⟩ := List.getElem?_eq_some_iff.mp hget
              refine Or.inr ⟨s, (intern names s).2, (Option.some.inj hcall).symm, rfl, ?_⟩
              exact (List.prefix_iff_getElem?.mp hpre _ hlt).trans (congrArg some heq)
          | succ i => exact hall i call hcall

/-- Two requests are answered in the same way if and only if they are the same. -/
theorem internAll_eq_iff (calls : List (Option α)) {names : List α} (hnodup : names.Nodup)
    {i j : Nat} {x y : Option α} (hi : calls[i]? = some x) (hj : calls[j]? = some y) :
    (internAll names calls).2[i]? = (internAll names calls).2[j]? ↔ x = y := by
  obtain ⟨hdup, -, -, hall⟩ := internAll_spec calls hnodup
  rcases hall i x hi with ⟨rfl, hidi⟩ | ⟨s, a, rfl, hidi, hs⟩ <;>
    rcases hall j y hj with ⟨rfl, hidj⟩ | ⟨t, b, rfl, hidj, ht⟩ <;> rw [hidi, hidj]
  · simp
  · simp
  · simp
  · rw [Option.some.injEq, Option.some.injEq, Option.some.injEq]
    constructor
    · intro heq
      rw [heq, ht, Option.some.injEq] at hs
      exact hs.symm
    · intro heq
      obtain ⟨hlt, -⟩ := List.getElem?_eq_some_iff.mp hs
      exact (List.getElem?_inj hlt hdup).mp (by rw [hs, ht, heq])

end Requests

end XevXml
