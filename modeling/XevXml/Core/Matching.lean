import Mathlib.Data.List.Perm.Basic

/-!
# Matchings of Lists

Two lists match if the second one can be put in an order in which its members
are related to those of the first one, one by one. So every member of either
list has exactly one partner in the other.

## Main definitions

* `Matching`: Lists with partners for all members.

## Theorems

* `Matching.append`, `Matching.flatMap`: Matchings are put together.
* `Matching.trans_perm`: The order of the second list does not matter.
-/

/-- Every member of either list has exactly one partner in the other one. -/
def Matching {α β : Type*} (R : α → β → Prop) (l : List α) (m : List β) : Prop :=
  ∃ n, List.Forall₂ R l n ∧ n.Perm m

namespace Matching

variable {α β ι : Type*} {R : α → β → Prop}

theorem of_forall₂ {l : List α} {m : List β} (h : List.Forall₂ R l m) : Matching R l m :=
  ⟨m, h, List.Perm.refl m⟩

theorem nil : Matching R [] [] := of_forall₂ List.Forall₂.nil

theorem trans_perm {l : List α} {m n : List β} (h : Matching R l m) (hperm : m.Perm n) :
    Matching R l n := by
  rcases h with ⟨k, hk, hm⟩
  exact ⟨k, hk, hm.trans hperm⟩

theorem append {l l' : List α} {m m' : List β} (h : Matching R l m) (h' : Matching R l' m') :
    Matching R (l ++ l') (m ++ m') := by
  rcases h with ⟨n, hn, hm⟩
  rcases h' with ⟨n', hn', hm'⟩
  exact ⟨n ++ n', List.rel_append hn hn', hm.append hm'⟩

/-- The parts of a list match one by one. -/
theorem flatMap {is : List ι} {f : ι → List α} {g : ι → List β}
    (h : ∀ i ∈ is, Matching R (f i) (g i)) : Matching R (is.flatMap f) (is.flatMap g) := by
  induction is with
  | nil => exact nil
  | cons i is ih =>
      rw [List.flatMap_cons, List.flatMap_cons]
      exact (h i List.mem_cons_self).append (ih fun j hj => h j (List.mem_cons_of_mem _ hj))

theorem length_eq {l : List α} {m : List β} (h : Matching R l m) : l.length = m.length := by
  rcases h with ⟨n, hn, hm⟩
  rw [hn.length_eq, hm.length_eq]

end Matching
