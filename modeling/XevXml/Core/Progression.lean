import Mathlib.Algebra.Order.BigOperators.Group.List
import Mathlib.Algebra.Order.Ring.Int
import Mathlib.Data.List.Nodup
import Mathlib.Data.List.Perm.Basic
import Mathlib.Tactic.LinearCombination
import Mathlib.Tactic.Linarith
import Mathlib.Tactic.Ring

/-!
# Counted Loops

The values a counted loop runs through. The number of iterations is fixed
before the loop starts, from the first value, the bound and the stride, by the
formula the Fortran standard gives for it: the quotient is rounded towards
zero, and a negative one means that the loop does not run. The stride may be
negative; a stride of zero gives no iteration here.

For a positive stride the values obey a recursion: the first one, and the
values from the next one on. What is said below about cutting a range into
strips and about enlarging the stride is proved along it. The other direction
is covered by mirroring.

## Main definitions

* `tripCount`: The number of iterations.
* `values`: The values of the counter, in the order of the iterations.

## Theorems

* `values_cons`: The recursion for a positive stride.
* `mem_values_one`: With stride one the values are those between the bounds.
* `values_one_append`: A range is cut in two.
* `strips`: A range is cut into strips.
* `restarted_strips_iff`, `length_restarted_strips`: When the strips may start
  from the first value.
* `flatMap_comm_perm`: Two loops that do not depend on each other.
* `values_swap_eq_reverse_iff`: When swapping the bounds and changing the
  sign of the stride reverses the values.
* `grouped_eq_iff`: When a larger stride with groups of consecutive values
  gives the values of a loop.
* `same_values_one_iff`: When the stride makes no difference to the set of
  values.
-/

namespace Progression

/-- The number of iterations. -/
def tripCount (a b s : Int) : Nat := ((b - a + s).tdiv s).toNat

/-- The values of the counter. -/
def values (a b s : Int) : List Int :=
  (List.range (tripCount a b s)).map fun i : Nat => a + (i : Int) * s

@[simp]
theorem length_values (a b s : Int) : (values a b s).length = tripCount a b s := by
  rw [values, List.length_map, List.length_range]

section Positive

variable {a b s : Int}

theorem tripCount_of_lt (hs : 0 < s) (h : b < a) : tripCount a b s = 0 := by
  rw [tripCount, Int.toNat_eq_zero]
  by_cases hneg : b - a + s ≤ 0
  · have hquot : 0 ≤ (-(b - a + s)).tdiv s := Int.tdiv_nonneg (by omega) (by omega)
    rw [Int.neg_tdiv] at hquot
    omega
  · rw [Int.tdiv_eq_zero_of_lt (by omega) (by omega)]

theorem tripCount_succ (hs : 0 < s) (h : a ≤ b) :
    tripCount a b s = tripCount (a + s) b s + 1 := by
  have hnext : b - (a + s) + s = b - a := by ring
  have hquot : (b - a + s).tdiv s = (b - a).tdiv s + 1 := by
    rw [Int.tdiv_eq_ediv_of_nonneg (by omega), Int.tdiv_eq_ediv_of_nonneg (by omega),
      Int.add_ediv_of_dvd_right (dvd_refl s), Int.ediv_self (by omega)]
  have hnonneg : 0 ≤ (b - a).tdiv s := Int.tdiv_nonneg (by omega) (by omega)
  rw [tripCount, tripCount, hnext, hquot]
  omega

theorem values_of_lt (hs : 0 < s) (h : b < a) : values a b s = [] := by
  rw [values, tripCount_of_lt hs h]
  rfl

/-- The first value and the values from the next one on. -/
theorem values_cons (hs : 0 < s) (h : a ≤ b) : values a b s = a :: values (a + s) b s := by
  rw [values, tripCount_succ hs h, List.range_succ_eq_map, List.map_cons, List.map_map, values]
  have hhead : a + ((0 : Nat) : Int) * s = a := by simp
  rw [hhead]
  congr 1
  refine List.map_congr_left fun i _ => ?_
  simp only [Function.comp_apply, Nat.succ_eq_add_one, Nat.cast_add, Nat.cast_one]
  ring

theorem tripCount_one (a b : Int) : tripCount a b 1 = (b - a + 1).toNat := by
  rw [tripCount, Int.tdiv_one]

theorem mem_values_one (a b x : Int) : x ∈ values a b 1 ↔ a ≤ x ∧ x ≤ b := by
  simp only [values, tripCount_one, List.mem_map, List.mem_range, mul_one]
  constructor
  · intro h
    rcases h with ⟨i, hi, rfl⟩
    omega
  · intro h
    exact ⟨(x - a).toNat, by omega, by omega⟩

theorem values_one_append {m : Int} (ha : a ≤ m + 1) (hb : m ≤ b) :
    values a b 1 = values a m 1 ++ values (m + 1) b 1 := by
  have hcount : tripCount a b 1 = tripCount a m 1 + tripCount (m + 1) b 1 := by
    simp only [tripCount_one]
    omega
  rw [values, hcount, List.range_add, List.map_append, List.map_map, values, values]
  congr 1
  refine List.map_congr_left fun i _ => ?_
  simp only [Function.comp_apply, Nat.cast_add, mul_one, tripCount_one]
  omega

/-- A loop over a range does the same as a loop over strips of the range, each
    run through by a loop of its own. The last strip may be shorter. -/
theorem strips {c : Int} (hc : 0 < c) (a b : Int) :
    values a b 1 = (values a b c).flatMap fun y => values y (min b (y + c - 1)) 1 := by
  -- The induction is on what is left of the range.
  induction hn : (b - a + 1).toNat using Nat.strong_induction_on generalizing a with
  | _ n ih =>
      by_cases h : a ≤ b
      · have hrest := ih (b - (a + c) + 1).toNat (by omega) (a + c) rfl
        rw [values_cons hc h, List.flatMap_cons, ← hrest]
        by_cases hlast : b ≤ a + c - 1
        · rw [min_eq_left hlast, values_of_lt (a := a + c) Int.one_pos (by omega),
            List.append_nil]
        · have hnext : a + c = a + c - 1 + 1 := by ring
          rw [min_eq_right (by omega), values_one_append (m := a + c - 1) (by omega) (by omega),
            ← hnext]
      · rw [values_of_lt Int.one_pos (by omega), values_of_lt hc (by omega), List.flatMap_nil]

/-- If every strip starts from the first value again, the loop does the same
    exactly if there is only one strip. -/
theorem restarted_strips_iff {c : Int} (hc : 0 < c) (a b : Int) :
    ((values a b c).flatMap fun y => values a (min b (y + c - 1)) 1) = values a b 1 ↔
      (tripCount a b 1 : Int) ≤ c := by
  have hcount : (tripCount a b 1 : Int) ≤ c ↔ b - a + 1 ≤ c := by
    rw [tripCount_one]
    omega
  rw [hcount]
  by_cases h : a ≤ b
  · rw [values_cons hc h, List.flatMap_cons]
    by_cases hone : b ≤ a + c - 1
    · rw [min_eq_left hone, values_of_lt (a := a + c) hc (by omega), List.flatMap_nil,
        List.append_nil]
      exact iff_of_true rfl (by omega)
    · -- The second strip starts with the first value, the loop goes on behind
      -- the first strip.
      have hnext : a + c = a + c - 1 + 1 := by ring
      have hcut : values a b 1 = values a (a + c - 1) 1 ++ values (a + c - 1 + 1) b 1 :=
        values_one_append (by omega) (by omega)
      rw [min_eq_right (by omega), hcut, List.append_cancel_left_eq, ← hnext,
        values_cons hc (by omega), List.flatMap_cons,
        values_cons Int.one_pos (by omega : a ≤ min b (a + c + c - 1)),
        values_cons Int.one_pos (by omega : a + c ≤ b), List.cons_append]
      refine iff_of_false (fun heq => ?_) (by omega)
      have hhead := (List.cons.inj heq).1
      omega
  · rw [values_of_lt hc (by omega), values_of_lt Int.one_pos (by omega), List.flatMap_nil]
    exact iff_of_true rfl (by omega)

/-- Strips that start from the first value again have more values than the loop
    as soon as there is a second strip. -/
theorem length_restarted_strips {c : Int} (hc : 0 < c) (h : c < tripCount a b 1) :
    (values a b 1).length <
      ((values a b c).flatMap fun y => values a (min b (y + c - 1)) 1).length := by
  have hcut := congrArg List.length (strips hc a b)
  have hrange : a + c ≤ b := by
    rw [tripCount_one] at h
    omega
  rw [List.length_flatMap] at hcut
  rw [hcut, List.length_flatMap]
  refine List.sum_lt_sum _ _ (fun y hy => ?_) ⟨a + c, ?_, ?_⟩
  · rcases List.mem_map.mp hy with ⟨i, -, rfl⟩
    simp only [length_values, tripCount_one]
    have hstep : 0 ≤ (i : Int) * c := by positivity
    omega
  · rw [values_cons hc (by omega), values_cons hc hrange]
    exact List.mem_cons_of_mem _ List.mem_cons_self
  · simp only [length_values, tripCount_one]
    omega

end Positive

section Mirror

theorem tripCount_swap (a b s : Int) : tripCount b a (-s) = tripCount a b s := by
  have hneg : a - b + -s = -(b - a + s) := by ring
  rw [tripCount, tripCount, hneg, Int.neg_tdiv_neg]

@[simp]
theorem getElem_values (a b s : Int) (i : Nat) (h : i < (values a b s).length) :
    (values a b s)[i] = a + (i : Int) * s := by
  simp only [values, List.getElem_map, List.getElem_range]

theorem mem_values (a b s x : Int) :
    x ∈ values a b s ↔ ∃ i : Nat, i < tripCount a b s ∧ a + (i : Int) * s = x := by
  simp only [values, List.mem_map, List.mem_range]

/-- Shifted bounds give shifted values. -/
theorem values_add (c a b s : Int) :
    values (c + a) (c + b) s = (values a b s).map fun v => v + c := by
  have hcount : tripCount (c + a) (c + b) s = tripCount a b s := by
    rw [tripCount, tripCount, add_sub_add_left_eq_sub]
  rw [values, values, hcount, List.map_map]
  refine List.map_congr_left fun i _ => ?_
  simp only [Function.comp_apply]
  ring

/-- With stride one a second value is not the first one. -/
theorem length_eq_one_of_forall {a b : Int} (hne : values a b 1 ≠ [])
    (h : ∀ v ∈ values a b 1, v = a) : (values a b 1).length = 1 := by
  rcases List.exists_mem_of_ne_nil _ hne with ⟨v, hv⟩
  have hrange := (mem_values_one a b v).mp hv
  have hlast := h b ((mem_values_one a b b).mpr ⟨by omega, by omega⟩)
  rw [length_values, tripCount_one]
  omega

theorem nodup_values (a b s : Int) : (values a b s).Nodup := by
  by_cases hs : s = 0
  · have hcount : tripCount a b s = 0 := by rw [tripCount, hs, Int.tdiv_zero, Int.toNat_zero]
    rw [values, hcount]
    exact List.nodup_nil
  · refine List.nodup_range.map fun i j h => ?_
    have hmul : (i : Int) * s = (j : Int) * s := by omega
    exact_mod_cast mul_right_cancel₀ hs hmul

/-- Where the bound is a whole number of strides away, the number of iterations
    is that number and one more. -/
theorem tripCount_mul {s : Int} (hs : s ≠ 0) (a k : Int) :
    tripCount a (a + s * k) s = (k + 1).toNat := by
  have hdist : a + s * k - a + s = s * (k + 1) := by ring
  rw [tripCount, hdist, Int.mul_tdiv_cancel_left _ hs]

theorem values_self {s : Int} (hs : s ≠ 0) (a : Int) : values a a s = [a] := by
  have hcount : tripCount a a s = 1 := by
    have hzero := tripCount_mul hs a 0
    rwa [mul_zero, add_zero] at hzero
  rw [values, hcount]
  simp

theorem values_of_tripCount_one {a b s : Int} (h : tripCount a b s = 1) : values a b s = [a] := by
  rw [values, h]
  simp

/-- Swapping the bounds and changing the sign of the stride reverses the values
    exactly if the bound itself is reached, or nothing is. -/
theorem values_swap_eq_reverse_iff {s : Int} (hs : s ≠ 0) (a b : Int) :
    values b a (-s) = (values a b s).reverse ↔ tripCount a b s = 0 ∨ s ∣ b - a := by
  have hlen : (values b a (-s)).length = (values a b s).reverse.length := by
    rw [List.length_reverse, length_values, length_values, tripCount_swap]
  constructor
  · intro h
    by_cases hzero : tripCount a b s = 0
    · exact Or.inl hzero
    · -- The first value of the swapped loop is the bound.
      have hpos : 0 < (values b a (-s)).length := by
        rw [length_values, tripCount_swap]
        omega
      have hpos' : 0 < (values a b s).reverse.length := by omega
      have hfirst : (values b a (-s))[0] = (values a b s).reverse[0] := by
        simp only [h]
      rw [List.getElem_reverse, getElem_values, getElem_values, Nat.cast_zero, zero_mul,
        add_zero] at hfirst
      exact Or.inr ⟨_, by rw [hfirst, add_sub_cancel_left, mul_comm]⟩
  · intro h
    refine List.ext_getElem hlen fun i hi hi' => ?_
    have hcount : i < tripCount a b s := by rwa [length_values, tripCount_swap] at hi
    rcases h with hzero | hdvd
    · omega
    · rcases hdvd with ⟨k, hk⟩
      have hb : b = a + s * k := by rw [← hk]; ring
      have hn : tripCount a b s = (k + 1).toNat := by rw [hb, tripCount_mul hs]
      have hlast : ((tripCount a b s - 1 - i : Nat) : Int) = k - i := by omega
      rw [List.getElem_reverse, getElem_values, getElem_values, length_values, hlast, hb]
      ring

end Mirror

section Groups

theorem flatMap_const_nil {α β : Type*} (l : List α) : (l.flatMap fun _ => ([] : List β)) = [] := by
  simp

/-- What is done equally often is the same altogether. -/
theorem flatMap_const_congr {α β γ : Type*} {l : List α} {m : List β} (k : List γ)
    (h : l.length = m.length) : (l.flatMap fun _ => k) = m.flatMap fun _ => k := by
  rw [List.flatMap_def, List.flatMap_def, List.map_const', List.map_const', h]

/-- If the number of values is a multiple of `c`, there are that many with the
    stride `c`. -/
theorem tripCount_one_eq_mul {c : Nat} (hc : 0 < c) {a b : Int} (h : c ∣ tripCount a b 1) :
    tripCount a b 1 = tripCount a b c * c := by
  rcases h with ⟨q, hq⟩
  rw [tripCount_one] at hq ⊢
  by_cases hq0 : q = 0
  · rw [hq0, Nat.mul_zero] at hq
    rw [hq, tripCount_of_lt (by omega) (by omega), Nat.zero_mul]
  · have hpos : 0 < c * q := Nat.mul_pos hc (Nat.pos_of_ne_zero hq0)
    have hrange : b - a + 1 = (c : Int) * q := by
      rw [← Nat.cast_mul, ← hq]
      omega
    have hdist : b - a + c = (c : Int) - 1 + (c : Int) * q := by omega
    have hcount : tripCount a b c = q := by
      rw [tripCount, Int.tdiv_eq_ediv_of_nonneg (by omega), hdist,
        Int.add_mul_ediv_left _ _ (by omega), Int.ediv_eq_zero_of_lt (by omega) (by omega)]
      omega
    rw [hcount, hq, Nat.mul_comm]

/-- Groups of consecutive values, numbered through. -/
theorem flatMap_groups {c : Nat} (hc : 0 < c) (m : Nat) (g : Nat → Nat → Int) :
    ((List.range m).flatMap fun j => (List.range c).map (g j)) =
      (List.range (m * c)).map fun t => g (t / c) (t % c) := by
  induction m with
  | zero => simp
  | succ m ih =>
      rw [List.range_succ, List.flatMap_append, ih, Nat.succ_mul, List.range_add, List.map_append,
        List.map_map, List.flatMap_cons, List.flatMap_nil, List.append_nil]
      congr 1
      refine List.map_congr_left fun k hk => ?_
      have hlt : k < c := List.mem_range.mp hk
      rw [Function.comp_apply, Nat.mul_comm m c, Nat.mul_add_div hc, Nat.mul_add_mod,
        Nat.div_eq_of_lt hlt, Nat.mod_eq_of_lt hlt, Nat.add_zero]

/-- Rows of `c` numbers with the step `d`, whose first ones have the step `f`, are
    a progression with the step `s` exactly if there are as many numbers, and the
    first number, the members of a row and the first members of the rows are
    those of the progression. -/
theorem rows_eq_iff {c : Nat} (hc : 0 < c) (m n : Nat) (a f d a' s : Int) :
    ((List.range m).flatMap fun j : Nat => (List.range c).map fun k : Nat =>
        a + (j : Int) * f + (k : Int) * d) =
      ((List.range n).map fun t : Nat => a' + (t : Int) * s) ↔
      n = m * c ∧ (0 < m → a = a' ∧ (1 < c → d = s)) ∧ (1 < m → c * s = f) := by
  rw [flatMap_groups hc m fun j k => a + (j : Int) * f + (k : Int) * d]
  constructor
  · intro h
    have hlen := congrArg List.length h
    rw [List.length_map, List.length_map, List.length_range, List.length_range] at hlen
    have hpoint : ∀ t < m * c,
        a + ((t / c : Nat) : Int) * f + ((t % c : Nat) : Int) * d = a' + (t : Int) * s := by
      intro t ht
      rw [← hlen] at h
      exact List.map_inj_left.mp h t (List.mem_range.mpr ht)
    -- The first, second and last of a row fix the start and both steps.
    have hfirst : 0 < m → a = a' := by
      intro hm
      have hzero := hpoint 0 (Nat.mul_pos hm hc)
      rw [Nat.zero_div, Nat.zero_mod] at hzero
      simpa using hzero
    refine ⟨hlen.symm, fun hm => ⟨hfirst hm, fun hc1 => ?_⟩, fun hm => ?_⟩
    · have hone := hpoint 1 (by nlinarith)
      rw [Nat.div_eq_of_lt hc1, Nat.mod_eq_of_lt hc1, hfirst hm] at hone
      push_cast at hone
      linarith
    · have hsecond := hpoint c (by nlinarith)
      rw [Nat.div_self hc, Nat.mod_self, hfirst (by omega)] at hsecond
      push_cast at hsecond
      linarith
  · intro h
    rcases h with ⟨hn, hrow, hrows⟩
    rw [hn]
    refine List.map_congr_left fun t ht => ?_
    have hlt : t < m * c := List.mem_range.mp ht
    have hdiv : t / c < m := Nat.div_lt_of_lt_mul (by rwa [Nat.mul_comm])
    have hsplit : (t : Int) = c * ((t / c : Nat) : Int) + ((t % c : Nat) : Int) := by
      exact_mod_cast (Nat.div_add_mod t c).symm
    have hpos : 0 < m := Nat.lt_of_le_of_lt (Nat.zero_le _) hdiv
    -- With one row only, the step between rows does not matter.
    have hq : ((t / c : Nat) : Int) * f = c * ((t / c : Nat) : Int) * s := by
      by_cases hm : 1 < m
      · rw [← hrows hm]
        ring
      · have hzero : t / c = 0 :=
          Nat.lt_one_iff.mp (Nat.lt_of_lt_of_le hdiv (Nat.not_lt.mp hm))
        rw [hzero]
        simp
    -- Likewise the step within rows of one element.
    have hr : ((t % c : Nat) : Int) * d = ((t % c : Nat) : Int) * s := by
      by_cases hc1 : 1 < c
      · rw [(hrow hpos).2 hc1]
      · have hzero : t % c = 0 := by
          have := Nat.mod_lt t hc
          omega
        rw [hzero]
        simp
    rw [hsplit, hq, hr, (hrow hpos).1]
    ring

/-- A loop with the stride `f` that goes through `c` consecutive values each
    time has the values of the loop with the stride `s` exactly if the numbers
    of values agree, the groups have the stride of the loop, and so have their
    first values. -/
theorem grouped_eq_iff {c : Nat} (hc : 0 < c) (a b s f : Int) :
    ((values a b f).flatMap fun x => (List.range c).map fun k : Nat => x + (k : Int)) =
      values a b s ↔
      tripCount a b s = tripCount a b f * c ∧ (1 < c → 0 < tripCount a b f → s = 1) ∧
        (1 < tripCount a b f → c * s = f) := by
  have hrows := rows_eq_iff hc (tripCount a b f) (tripCount a b s) a f 1 a s
  simp only [mul_one, true_and] at hrows
  rw [values, values, List.flatMap_map, hrows]
  refine and_congr_right fun _ => and_congr_left fun _ => ?_
  exact ⟨fun h hc1 hm => (h hm hc1).symm, fun h hm hc1 => (h hc1 hm).symm⟩

/-- The values of two nested loops, put into one number, are those of a loop
    exactly if there are as many of them, the first number is the lower bound,
    and the steps fit. -/
theorem collapsed_eq_iff (a b s a' b' s' e n : Int) :
    ((values a b s).flatMap fun i => (values a' b' s').map fun j => j + (i - 1) * e) =
        values a' n s' ↔
      tripCount a' n s' = tripCount a b s * tripCount a' b' s' ∧
        (0 < tripCount a' b' s' →
          (0 < tripCount a b s → (a - 1) * e = 0) ∧
            (1 < tripCount a b s → tripCount a' b' s' * s' = s * e)) := by
  by_cases hc : 0 < tripCount a' b' s'
  · have hrows := rows_eq_iff hc (tripCount a b s) (tripCount a' n s') (a' + (a - 1) * e) (s * e) s'
      a' s'
    have hlist : ((values a b s).flatMap fun i => (values a' b' s').map fun j => j + (i - 1) * e) =
        (List.range (tripCount a b s)).flatMap fun j : Nat =>
          (List.range (tripCount a' b' s')).map fun k : Nat =>
            a' + (a - 1) * e + (j : Int) * (s * e) + (k : Int) * s' := by
      rw [values, values, List.flatMap_map]
      refine List.flatMap_congr fun j _ => ?_
      rw [List.map_map]
      refine List.map_congr_left fun k _ => ?_
      rw [Function.comp_apply]
      ring
    rw [hlist, values, hrows]
    simp only [hc, true_imp_iff, add_eq_left, imp_true_iff, and_true]
  · have hzero : tripCount a' b' s' = 0 := by omega
    have hnil : values a' b' s' = [] := by rw [values, hzero]; rfl
    simp only [hnil, hzero, List.map_nil, flatMap_const_nil]
    rw [values, eq_comm, List.map_eq_nil_iff, List.range_eq_nil]
    simp

end Groups

section Nests

variable {α β γ : Type*}

/-- Two nested loops, neither of which depends on the other, execute the same
    in either order. -/
theorem flatMap_comm_perm (l : List α) (m : List β) (f : α → β → List γ) :
    (l.flatMap fun a => m.flatMap (f a)).Perm (m.flatMap fun b => l.flatMap fun a => f a b) := by
  induction l with
  | nil =>
      simp only [List.flatMap_nil, flatMap_const_nil]
      exact List.Perm.nil
  | cons a l ih =>
      simp only [List.flatMap_cons]
      exact (List.Perm.append_left _ ih).trans (List.flatMap_append_perm m (f a) _)

theorem length_flatMap_map (l : List α) (m : List β) (f : α → β → γ) :
    (l.flatMap fun a => m.map (f a)).length = l.length * m.length := by
  simp only [List.length_flatMap, List.length_map, List.map_const', List.sum_replicate, smul_eq_mul]

/-- In a table with at least one row the rows can be read off. -/
theorem flatMap_map_inj {l : List α} (hne : l ≠ []) {m m' : List β} {f : α → β → γ}
    (hf : ∀ a, Function.Injective (f a))
    (h : (l.flatMap fun a => m.map (f a)) = l.flatMap fun a => m'.map (f a)) : m = m' := by
  have hlen := congrArg List.length h
  rw [length_flatMap_map, length_flatMap_map] at hlen
  cases l with
  | nil => exact absurd rfl hne
  | cons a l =>
      have hrow : m.length = m'.length := Nat.eq_of_mul_eq_mul_left (Nat.succ_pos _) hlen
      rw [List.flatMap_cons, List.flatMap_cons] at h
      have hhead := (List.append_inj h (by rw [List.length_map, List.length_map, hrow])).1
      exact List.map_injective_iff.mpr (hf a) hhead

/-- A table read by rows and by columns. -/
theorem flatMap_map_comm_perm (l : List α) (m : List β) (f : α → β → γ) :
    (l.flatMap fun a => m.map (f a)).Perm (m.flatMap fun b => l.map fun a => f a b) := by
  simp only [List.map_eq_flatMap]
  exact flatMap_comm_perm l m fun a b => [f a b]

/-- Loops over tiles execute the same as loops over the points of the tiles. -/
theorem tiles_perm {δ ε : Type*} (l : List α) (m : List β) (v : α → List γ) (w : β → List δ)
    (f : γ → δ → ε) :
    (l.flatMap fun y => m.flatMap fun z => (v y).flatMap fun a => (w z).map (f a)).Perm
      ((l.flatMap v).flatMap fun a => (m.flatMap w).map (f a)) := by
  rw [List.flatMap_assoc]
  refine List.Perm.flatMap_left l fun y _ => ?_
  simp only [List.map_flatMap]
  exact flatMap_comm_perm m (v y) fun z a => (w z).map (f a)

end Nests

section Sets

/-- The stride makes no difference to the set of values exactly if it is one,
    if the first value is the only one, or if there is none. -/
theorem same_values_one_iff {s : Int} (hs : s ≠ 0) (a b : Int) :
    (∀ x, x ∈ values a b s ↔ x ∈ values a b 1) ↔ s = 1 ∨ a = b ∨ (0 < s ∧ b < a) := by
  constructor
  · intro h
    by_cases hpos : 0 < s
    · by_cases hlt : a < b
      · -- The second value of the range is a value of the loop.
        rcases (mem_values a b s (a + 1)).mp ((h (a + 1)).mpr ((mem_values_one a b _).mpr
          ⟨by omega, by omega⟩)) with ⟨i, -, hi⟩
        have hprod : (i : Int) * s = 1 := by omega
        exact Or.inl (Int.eq_one_of_mul_eq_one_left (by omega) hprod)
      · omega
    · have hneg : 0 < -s := by omega
      have hmirror : tripCount a b s = tripCount b a (-s) := (tripCount_swap a b s).symm
      by_cases hlt : a < b
      · -- Downwards the loop does not run, but the range is not empty.
        have hempty : a ∉ values a b s := by
          rw [mem_values, hmirror, tripCount_of_lt hneg hlt]
          rintro ⟨i, hi, -⟩
          omega
        exact absurd ((h a).mpr ((mem_values_one a b a).mpr ⟨by omega, by omega⟩)) hempty
      · by_cases heq : a = b
        · exact Or.inr (Or.inl heq)
        · -- Downwards the loop runs, but the range is empty.
          have hmem : a ∈ values a b s := by
            rw [mem_values, hmirror, tripCount_succ hneg (by omega)]
            exact ⟨0, by omega, by simp⟩
          have := (mem_values_one a b a).mp ((h a).mp hmem)
          omega
  · intro h x
    rcases h with rfl | rfl | ⟨hpos, hlt⟩
    · rfl
    · have hcount : tripCount a a s = 1 := by
        have h0 := tripCount_mul hs a 0
        rwa [mul_zero, add_zero] at h0
      rw [mem_values, hcount, mem_values_one]
      constructor
      · rintro ⟨i, hi, rfl⟩
        have hzero : i = 0 := by omega
        subst hzero
        simp
      · intro hx
        exact ⟨0, by omega, by push_cast; omega⟩
    · rw [values_of_lt hpos hlt, values_of_lt Int.one_pos hlt]

end Sets

end Progression
