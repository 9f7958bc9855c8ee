import Mathlib.Tactic.Common

/-!
# Computations with a Bound

A recursion that no argument bounds is a function of a number of steps, and it
gives an error where the steps run out. What such a function computes is what it
gives whenever there are enough of them.

`Computes` says that, and the rules here follow how the functions are built: a step
is taken, one computation continues another, and the end has been reached. With
them a proof about a recursion need not count. A computation can also end with an
error that has nothing to do with the number of steps, and `Ends` is said of both.

## Main definitions

* `Computes`: A computation ends with a value.
* `Ends`: A computation ends with a value or an error.

## Theorems

* `computes_succ`: A step is taken.
* `computes_bind`: One computation continues another.
* `computes_unique`: There is only one value.
* `ends_succ`, `ends_bind_error`: The same for what ends with an error.
-/

namespace XevXml.Fuel

variable {ε α β : Type}

/-- The computation ends with a value, given enough steps. -/
def Computes (f : Nat → Except ε α) (a : α) : Prop :=
  ∃ n, ∀ fuel, n ≤ fuel → f fuel = .ok a

theorem computes_ok (a : α) : Computes (fun _ => (.ok a : Except ε α)) a :=
  ⟨0, fun _ _ => rfl⟩

/-- A step is taken. -/
theorem computes_succ {f g : Nat → Except ε α} {a : α} (h : ∀ fuel, f (fuel + 1) = g fuel)
    (hg : Computes g a) : Computes f a := by
  rcases hg with ⟨n, hn⟩
  refine ⟨n + 1, fun fuel hfuel => ?_⟩
  rcases Nat.exists_eq_add_of_le' (Nat.le_trans (Nat.le_add_left 1 n) hfuel) with ⟨k, rfl⟩
  rw [h, hn k (Nat.le_of_succ_le_succ hfuel)]

/-- One computation continues another. -/
theorem computes_bind {g : Nat → Except ε α} {h : Nat → α → Except ε β} {a : α} {b : β}
    (hg : Computes g a) (hh : Computes (fun fuel => h fuel a) b) :
    Computes (fun fuel => g fuel >>= h fuel) b := by
  rcases hg with ⟨n, hn⟩
  rcases hh with ⟨m, hm⟩
  refine ⟨max n m, fun fuel hfuel => ?_⟩
  have hle := Nat.max_le.mp hfuel
  have hbind : g fuel >>= h fuel = h fuel a := by
    rw [hn fuel hle.1]
    rfl
  exact hbind.trans (hm fuel hle.2)

theorem computes_unique {f : Nat → Except ε α} {a b : α} (ha : Computes f a)
    (hb : Computes f b) : a = b := by
  rcases ha with ⟨n, hn⟩
  rcases hb with ⟨m, hm⟩
  have h := hn (max n m) (Nat.le_max_left n m)
  rw [hm (max n m) (Nat.le_max_right n m)] at h
  cases h
  rfl

/-- The computation ends, given enough steps. -/
def Ends (f : Nat → Except ε α) (r : Except ε α) : Prop :=
  ∃ n, ∀ fuel, n ≤ fuel → f fuel = r

theorem ends_ok_iff {f : Nat → Except ε α} {a : α} : Ends f (.ok a) ↔ Computes f a := Iff.rfl

theorem ends_succ {f g : Nat → Except ε α} {r : Except ε α} (h : ∀ fuel, f (fuel + 1) = g fuel)
    (hg : Ends g r) : Ends f r := by
  rcases hg with ⟨n, hn⟩
  refine ⟨n + 1, fun fuel hfuel => ?_⟩
  rcases Nat.exists_eq_add_of_le' (Nat.le_trans (Nat.le_add_left 1 n) hfuel) with ⟨k, rfl⟩
  rw [h, hn k (Nat.le_of_succ_le_succ hfuel)]

/-- A step more makes no difference. -/
theorem ends_shift {f : Nat → Except ε α} {r : Except ε α} (h : Ends f r) :
    Ends (fun fuel => f (fuel + 1)) r := by
  rcases h with ⟨n, hn⟩
  exact ⟨n, fun fuel hfuel => hn (fuel + 1) (Nat.le_succ_of_le hfuel)⟩

/-- What ends with an error is not continued. -/
theorem ends_bind_error {g : Nat → Except ε α} {h : Nat → α → Except ε β} {e : ε}
    (hg : Ends g (.error e)) : Ends (fun fuel => g fuel >>= h fuel) (.error e) := by
  rcases hg with ⟨n, hn⟩
  refine ⟨n, fun fuel hfuel => ?_⟩
  have hbind : g fuel >>= h fuel = .error e := by
    rw [hn fuel hfuel]
    rfl
  exact hbind

theorem ends_bind {g : Nat → Except ε α} {h : Nat → α → Except ε β} {a : α} {r : Except ε β}
    (hg : Computes g a) (hh : Ends (fun fuel => h fuel a) r) :
    Ends (fun fuel => g fuel >>= h fuel) r := by
  rcases hg with ⟨n, hn⟩
  rcases hh with ⟨m, hm⟩
  refine ⟨max n m, fun fuel hfuel => ?_⟩
  have hle := Nat.max_le.mp hfuel
  have hbind : g fuel >>= h fuel = h fuel a := by
    rw [hn fuel hle.1]
    rfl
  exact hbind.trans (hm fuel hle.2)

end XevXml.Fuel
