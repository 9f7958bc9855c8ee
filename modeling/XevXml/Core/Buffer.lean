import Mathlib.Data.List.Basic

/-!
# Buffers that Are Filled from the Front

A program that builds a string in memory asks for a number of cells, writes into them
at a position it counts itself, and ends with a terminator. Nothing stops it from
writing behind the last cell, or from stopping early, so a buffer keeps the number of
its cells beside what has been written, and a write that does not fit has no result.

A writer that always writes at the end of what is there appends, and then the string in
the buffer is what has been appended in front of the terminator.

## Main definitions

* `Buffer`: A number of cells and what has been written from the first one on.
* `Buffer.write`: Writing at a position.
* `cstring`: The string that starts at the first cell.

## Theorems

* `Buffer.write_end`: A write at the end appends.
* `Buffer.write_prefix`: A write keeps what stands in front of its position.
* `cstring_append`: The string that a terminator ends.
-/

namespace XevXml

variable {α : Type}

/-- A number of cells, and what has been written from the first one on. -/
structure Buffer (α : Type) where
  size : Nat
  cells : List α
deriving DecidableEq, Repr

/-- Cells that nothing has been written into. -/
def Buffer.alloc (size : Nat) : Buffer α := ⟨size, []⟩

/-- Writes at a position, if there are enough cells. -/
def Buffer.write (t : Buffer α) (pos : Nat) (w : List α) : Option (Buffer α) :=
  if pos + w.length ≤ t.size then
    some { t with cells := t.cells.take pos ++ w ++ t.cells.drop (pos + w.length) }
  else none

/-- Writes at the end. -/
def Buffer.append (t : Buffer α) (w : List α) : Buffer α := { t with cells := t.cells ++ w }

/-- What stands in front of the first terminator. -/
def cstring [DecidableEq α] (nul : α) (t : List α) : List α := t.takeWhile (· ≠ nul)

@[simp]
theorem Buffer.size_alloc (n : Nat) : (Buffer.alloc n : Buffer α).size = n := rfl

@[simp]
theorem Buffer.cells_alloc (n : Nat) : (Buffer.alloc n : Buffer α).cells = [] := rfl

@[simp]
theorem Buffer.size_append (t : Buffer α) (w : List α) : (t.append w).size = t.size := rfl

@[simp]
theorem Buffer.cells_append (t : Buffer α) (w : List α) : (t.append w).cells = t.cells ++ w := rfl

theorem Buffer.append_append (t : Buffer α) (v w : List α) :
    (t.append v).append w = t.append (v ++ w) := by
  simp only [Buffer.append, List.append_assoc]

/-- A write at the end of what is there appends, if it fits. -/
theorem Buffer.write_end {t : Buffer α} {pos : Nat} {w : List α} (hpos : t.cells.length = pos)
    (hfit : pos + w.length ≤ t.size) : t.write pos w = some (t.append w) := by
  have htake : t.cells.take pos = t.cells := by rw [← hpos, List.take_length]
  have hdrop : t.cells.drop (pos + w.length) = [] := List.drop_eq_nil_of_le (by omega)
  rw [Buffer.write, if_pos hfit, htake, hdrop, List.append_nil]
  rfl

/-- A single cell is written at the end. -/
theorem Buffer.write_one {t : Buffer α} {pos : Nat} (a : α) (hpos : t.cells.length = pos)
    (hfit : pos + 1 ≤ t.size) :
    t.write pos [a] = some (t.append [a]) ∧ (t.append [a]).cells.length = pos + 1 := by
  refine ⟨Buffer.write_end hpos hfit, ?_⟩
  rw [Buffer.cells_append, List.length_append, hpos, List.length_singleton]

theorem Buffer.write_fits (t : Buffer α) (pos : Nat) (w : List α)
    (hfit : pos + w.length ≤ t.size) : ∃ t', t.write pos w = some t' ∧ t'.size = t.size := by
  rw [Buffer.write, if_pos hfit]
  exact ⟨_, rfl, rfl⟩

/-- What stands in front of the position of a write is kept, and what is written follows
    it. -/
theorem Buffer.write_prefix {t t' : Buffer α} {p w : List α} {pos : Nat} (hp : p <+: t.cells)
    (hpos : p.length = pos) (h : t.write pos w = some t') :
    p ++ w <+: t'.cells ∧ t'.size = t.size := by
  subst hpos
  rw [Buffer.write] at h
  split at h
  · cases h
    refine ⟨?_, rfl⟩
    rw [← List.prefix_iff_eq_take.mp hp]
    exact List.prefix_append _ _
  · cases h

/-- The string in front of a terminator, if there is none inside of it. -/
theorem cstring_append [DecidableEq α] {nul : α} {s : List α} (h : nul ∉ s) (w : List α) :
    cstring nul (s ++ nul :: w) = s := by
  induction s with
  | nil => simp [cstring]
  | cons c s ih =>
      rw [List.mem_cons, not_or] at h
      have hc : decide (c ≠ nul) = true := decide_eq_true (Ne.symm h.1)
      rw [cstring, List.cons_append, List.takeWhile_cons, if_pos hc]
      exact congrArg (c :: ·) (ih h.2)

/-- The string is shorter than what has been written if there is a terminator in it. -/
theorem length_cstring_lt [DecidableEq α] {nul : α} {s : List α} (h : nul ∈ s) (w : List α) :
    (cstring nul (s ++ w)).length < s.length := by
  obtain ⟨a, b, rfl, ha⟩ := List.eq_append_cons_of_mem h
  rw [List.append_assoc, List.cons_append, cstring_append ha, List.length_append, List.length_cons]
  omega

end XevXml
