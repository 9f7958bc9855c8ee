import Mathlib.Data.Fin.Tuple.Basic
import Mathlib.Data.List.Nodup
import Mathlib.Data.List.Perm.Basic
import Mathlib.Logic.Equiv.Defs

/-!
# Lexicographic Products

The points of a grid with given lists of coordinates, in lexicographic order:
this is the order in which a nest of loops goes through them. Exchanging the
axes of a grid changes the order, but not the points.

## Main definitions

* `grid`: The points of a grid.

## Theorems

* `mem_grid`: The coordinates of a point are on the axes.
* `nodup_grid`: Without repetitions on the axes no point comes twice.
* `grid_perm`: Exchanged axes give the same points.
-/

namespace Grid

variable {α : Type*}

/-- The points of a grid in lexicographic order. -/
def grid : {n : Nat} → (Fin n → List α) → List (Fin n → α)
  | 0, _ => [Fin.elim0]
  | _ + 1, w => (w 0).flatMap fun a => (grid fun k => w k.succ).map (Fin.cons a)

theorem mem_grid {n : Nat} (w : Fin n → List α) (f : Fin n → α) :
    f ∈ grid w ↔ ∀ k, f k ∈ w k := by
  induction n with
  | zero =>
      have hf : f = Fin.elim0 := funext fun k => k.elim0
      rw [grid, hf]
      exact iff_of_true List.mem_cons_self fun k => k.elim0
  | succ n ih =>
      rw [grid, List.mem_flatMap, Fin.forall_fin_succ]
      constructor
      · intro h
        rcases h with ⟨a, ha, hmem⟩
        rcases List.mem_map.mp hmem with ⟨g, hg, rfl⟩
        exact ⟨ha, (ih _ g).mp hg⟩
      · intro h
        rcases h with ⟨hhead, htail⟩
        refine ⟨f 0, hhead, List.mem_map.mpr ⟨Fin.tail f, (ih _ _).mpr htail, ?_⟩⟩
        exact Fin.cons_self_tail f

theorem nodup_grid {n : Nat} (w : Fin n → List α) (h : ∀ k, (w k).Nodup) : (grid w).Nodup := by
  induction n with
  | zero => exact List.nodup_singleton _
  | succ n ih =>
      rw [grid, List.nodup_flatMap]
      refine ⟨fun a _ => (ih _ fun k => h k.succ).map
        (Fin.cons_right_injective (α := fun _ => α) a), ?_⟩
      refine (h 0).imp fun {a b} hne => ?_
      -- Points of different slices differ in their first coordinate.
      intro f ha hb
      rcases List.mem_map.mp ha with ⟨g, -, rfl⟩
      rcases List.mem_map.mp hb with ⟨g', -, heq⟩
      have hhead := congrFun heq 0
      rw [Fin.cons_zero, Fin.cons_zero] at hhead
      exact hne hhead.symm

/-- A grid with exchanged axes, read with the axes in their old places. -/
theorem grid_perm {n : Nat} (w : Fin n → List α) (h : ∀ k, (w k).Nodup) (p : Equiv.Perm (Fin n)) :
    ((grid fun k => w (p k)).map fun f k => f (p.symm k)).Perm (grid w) := by
  have hinj : Function.Injective fun (f : Fin n → α) k => f (p.symm k) := by
    intro f g heq
    funext k
    have hk := congrFun heq (p k)
    simpa only [Equiv.symm_apply_apply] using hk
  refine (List.perm_ext_iff_of_nodup ((nodup_grid _ fun k => h (p k)).map hinj)
    (nodup_grid w h)).mpr fun f => ?_
  rw [List.mem_map, mem_grid]
  constructor
  · intro hmem
    rcases hmem with ⟨g, hg, rfl⟩
    intro k
    have hk := (mem_grid _ g).mp hg (p.symm k)
    rwa [Equiv.apply_symm_apply] at hk
  · intro hmem
    refine ⟨fun k => f (p k), (mem_grid _ _).mpr fun k => hmem (p k), ?_⟩
    funext k
    exact congrArg f (p.apply_symm_apply k)

end Grid
