import Mathlib.Logic.Function.Basic
import Mathlib.Tactic.Common

/-!
# Records through a Table of Names

A record whose fields are all optional is written as a list of named values,
one for every field that holds something, and read back by looking every name
up in a table. The writer has a list of names of its own, and the two need not
agree: a field may be written under the name of another one, or under a name
the table does not know.

The reader may refuse a value that it finds under a known name, so the table
is a function of both. It gives the field the value goes to, or nothing if the
run ends there.

## Main definitions

* `written`: The named values of a record.
* `readBack`: The reader, starting from a given record.

## Theorems

* `readBack_written`: A writer whose names all lead to their own fields.
* `readBack_written_iff`: When a record is read back.
-/

namespace Table

variable {N A B : Type}

/-- The named values of a record, in the order of the writer's list. -/
def written (ws : List (N × A)) (r : A → Option B) : List (N × B) :=
  ws.filterMap fun w => (r w.2).map fun b => (w.1, b)

/-- The record a list of named values is read as. -/
def readBack [DecidableEq A] (table : N → B → Option A) : (A → Option B) → List (N × B) →
    Option (A → Option B)
  | r, [] => some r
  | r, (n, b) :: l => (table n b).bind fun a => readBack table (Function.update r a (some b)) l

/-- Every name a record is written under leads to the field it was written for. -/
def Faithful (ws : List (N × A)) (table : N → B → Option A) (r : A → Option B) : Prop :=
  ∀ w ∈ ws, ∀ b, r w.2 = some b → table w.1 b = some w.2

section Lists

variable (w : N × A) (ws : List (N × A)) (r : A → Option B)

theorem written_cons_none (h : r w.2 = none) : written (w :: ws) r = written ws r := by
  simp [written, h]

theorem written_cons_some {b : B} (h : r w.2 = some b) :
    written (w :: ws) r = (w.1, b) :: written ws r := by
  simp [written, h]

theorem mem_written {n : N} {b : B} :
    (n, b) ∈ written ws r ↔ ∃ w ∈ ws, w.1 = n ∧ r w.2 = some b := by
  simp only [written, List.mem_filterMap, Option.map_eq_some_iff, Prod.mk.injEq]
  constructor
  · rintro ⟨w, hw, b', hb, rfl, rfl⟩
    exact ⟨w, hw, rfl, hb⟩
  · rintro ⟨w, hw, rfl, hb⟩
    exact ⟨w, hw, b, hb, rfl, rfl⟩

end Lists

section Reading

variable [DecidableEq A] {table : N → B → Option A} {ws : List (N × A)} {r s r' : A → Option B}

/-- If all names are right, the fields of the writer's list are overwritten by
    the values of the record. -/
theorem readBack_written (h : Faithful ws table r) :
    readBack table s (written ws r) =
      some fun a => if a ∈ ws.map Prod.snd then (r a).or (s a) else s a := by
  induction ws generalizing s with
  | nil => simp [written, readBack]
  | cons w ws ih =>
      have htail : Faithful ws table r := fun v hv => h v (List.mem_cons_of_mem _ hv)
      have hmem : ∀ a, a ∈ (w :: ws).map Prod.snd ↔ a = w.2 ∨ a ∈ ws.map Prod.snd := fun a => by
        rw [List.map_cons, List.mem_cons]
      cases hw : r w.2 with
      | none =>
          rw [written_cons_none _ _ _ hw, ih htail]
          congr 1
          funext a
          by_cases ha : a = w.2
          · subst ha
            simp only [hmem, hw, true_or, Option.none_or, ite_self]
          · simp only [hmem, ha, false_or]
      | some b =>
          rw [written_cons_some _ _ _ hw, readBack, h w List.mem_cons_self b hw,
            Option.bind_some, ih htail]
          congr 1
          funext a
          by_cases ha : a = w.2
          · subst ha
            simp only [hmem, hw, true_or, if_true, Option.some_or, Function.update_self, ite_self]
          · simp only [hmem, ha, false_or, Function.update_of_ne ha]

/-- The reader refuses nothing if it delivers a record at all. -/
theorem accepted_of_readBack {l : List (N × B)} (h : readBack table s l = some r') :
    ∀ p ∈ l, ∃ a, table p.1 p.2 = some a := by
  induction l generalizing s with
  | nil => exact fun p hp => absurd hp List.not_mem_nil
  | cons q l ih =>
      obtain ⟨a, ha, hrest⟩ := Option.bind_eq_some_iff.mp h
      intro p hp
      rcases List.mem_cons.mp hp with rfl | hp
      · exact ⟨a, ha⟩
      · exact ih hrest p hp

/-- What the reader did not start with was written under some name. -/
theorem source_of_readBack {l : List (N × B)} (h : readBack table s l = some r') {a : A}
    (ha : r' a ≠ none) : s a ≠ none ∨ ∃ p ∈ l, table p.1 p.2 = some a := by
  induction l generalizing s with
  | nil =>
      obtain rfl := Option.some.inj h
      exact Or.inl ha
  | cons q l ih =>
      obtain ⟨c, hc, hrest⟩ := Option.bind_eq_some_iff.mp h
      rcases ih hrest with hs | ⟨p, hp, hpa⟩
      · by_cases hac : a = c
        · exact Or.inr ⟨q, List.mem_cons_self, hac ▸ hc⟩
        · rw [Function.update_of_ne hac] at hs
          exact Or.inl hs
      · exact Or.inr ⟨p, List.mem_cons_of_mem _ hp, hpa⟩

/-- When a record is read back with the same fields. A name that leads to a
    foreign field must not be the only one to do so: whatever some name leads
    to, its own name leads to as well. -/
theorem readBack_written_iff (hcover : ∀ a, r a ≠ none → a ∈ ws.map Prod.snd)
    (hown : ∀ w ∈ ws, ∀ v ∈ ws, ∀ b b' c, table v.1 b' = some w.2 → table w.1 b = some c →
      c = w.2)
    (hfields : ∀ a, r' a = none ↔ r a = none) :
    readBack table (fun _ => none) (written ws r) = some r' ↔ Faithful ws table r ∧ r = r' := by
  have hsame : (fun a => if a ∈ ws.map Prod.snd then (r a).or none else none) = r := by
    funext a
    by_cases ha : r a = none
    · simp [ha]
    · rw [if_pos (hcover a ha), Option.or_none]
  constructor
  · intro h
    have hfaithful : Faithful ws table r := by
      intro w hw b hb
      obtain ⟨c, hc⟩ := accepted_of_readBack h (w.1, b) ((mem_written ws r).mpr ⟨w, hw, rfl, hb⟩)
      have hfield : r' w.2 ≠ none := fun hn => by
        rw [(hfields w.2).mp hn] at hb
        exact absurd hb (by simp only [reduceCtorEq, not_false_eq_true])
      rcases source_of_readBack h hfield with hs | ⟨⟨n, b'⟩, hp, hpa⟩
      · exact absurd rfl hs
      · obtain ⟨v, hv, rfl, -⟩ := (mem_written ws r).mp hp
        rw [hc, hown w hw v hv b b' c hpa hc]
    rw [readBack_written hfaithful, hsame] at h
    exact ⟨hfaithful, Option.some.inj h⟩
  · rintro ⟨hfaithful, rfl⟩
    rw [readBack_written hfaithful, hsame]

end Reading

end Table
