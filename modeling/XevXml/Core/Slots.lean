import Mathlib.Data.List.ReduceOption

/-!
# Filling Slots from a Sequence

A reader that walks over a sequence of items and puts those it recognises
into variables, in one of three ways. A chain of tests fills an ordered row of
slots: an item goes into the first slot that is still empty, if it is of the
right kind, and is dropped when the row is full. A single slot may keep the
first item of its kind, or be overwritten by every item and keep what the last
one left.

The row turns out to hold the first items of the kind, in order, however they
are interspersed with others. This is what a reader by position depends on:
one item too many in front shifts all that follow. In a row with a test for
each slot, a missing item stops everything behind it.

## Main definitions

* `fillFirst`: Put an item into the first empty slot.
* `fill`: The row after all items.
* `first`: The slot that keeps the first item of a kind.
* `last`: The slot that keeps what the last item left.
* `chain`: A row with a test for each slot.
* `Fits`: The rows that such a chain can fill.

## Theorems

* `fill_eq`: The row holds the first items of the kind.
* `first_eq`: The slot holds the first item of the kind.
* `last_concat`: The slot depends on the last item only.
* `chain_reduceOption_eq_iff`: When a chain recovers a row.
-/

namespace Slots

variable {α β : Type}

/-- Put an item into the first empty slot of a row. -/
def fillFirst (b : Option β) : List (Option β) → List (Option β)
  | [] => []
  | none :: row => b :: row
  | some x :: row => some x :: fillFirst b row

/-- A row of `n` slots after all items, where `p` recognises the right kind. -/
def fill (p : α → Option β) (n : Nat) (items : List α) : List (Option β) :=
  items.foldl (fun row x => fillFirst (p x) row) (List.replicate n none)

/-- A slot that keeps the first item of a kind. -/
def first (p : α → Option β) (items : List α) : Option β :=
  items.foldl (fun slot x => match slot with
    | some b => some b
    | none => p x) none

/-- A slot that every item overwrites. -/
def last (p : α → Option β) (items : List α) : Option β :=
  items.foldl (fun _ x => p x) none

/-- A row of `n` slots that holds the items of `bs` from the front. -/
def row (n : Nat) (bs : List β) : List (Option β) :=
  (bs.map some ++ List.replicate n none).take n

@[simp]
theorem row_nil (n : Nat) : row n ([] : List β) = List.replicate n none := by
  simp [row]

@[simp]
theorem row_succ_cons (n : Nat) (b : β) (bs : List β) :
    row (n + 1) (b :: bs) = some b :: row n bs := by
  have h : (bs.map some ++ List.replicate (n + 1) none).take n =
      (bs.map some ++ List.replicate n none).take n := by
    rw [List.take_append, List.take_append]
    congr 1
    simp only [List.take_replicate]
    congr 1
    omega
  simp only [row, List.map_cons, List.cons_append, List.take_succ_cons, h]

@[simp]
theorem row_zero (bs : List β) : row 0 bs = [] := by simp [row]

@[simp]
theorem row_one (bs : List β) : row 1 bs = [bs.head?] := by
  cases bs with
  | nil => rfl
  | cons b bs => simp

/-- An item that is not recognised changes nothing. -/
theorem fillFirst_none (slots : List (Option β)) : fillFirst none slots = slots := by
  induction slots with
  | nil => rfl
  | cons slot slots ih =>
      cases slot with
      | none => rfl
      | some x => rw [fillFirst, ih]

theorem fillFirst_row (n : Nat) (bs : List β) (b : β) :
    fillFirst (some b) (row n bs) = row n (bs ++ [b]) := by
  induction bs generalizing n with
  | nil =>
      cases n with
      | zero => rfl
      | succ n => simp [List.replicate_succ, fillFirst]
  | cons c bs ih =>
      cases n with
      | zero => simp [fillFirst]
      | succ n => simp only [List.cons_append, row_succ_cons, fillFirst, ih]

/-- The row holds the first items of the kind. -/
theorem fill_eq (p : α → Option β) (n : Nat) (items : List α) :
    fill p n items = row n (items.filterMap p) := by
  have hgo : ∀ (items : List α) (bs : List β),
      items.foldl (fun slots x => fillFirst (p x) slots) (row n bs) =
        row n (bs ++ items.filterMap p) := by
    intro items
    induction items with
    | nil => intro bs; simp
    | cons x items ih =>
        intro bs
        rw [List.foldl_cons]
        cases hx : p x with
        | none => rw [fillFirst_none, ih, List.filterMap_cons_none hx]
        | some b =>
            rw [fillFirst_row, ih, List.filterMap_cons_some hx, List.append_assoc,
              List.singleton_append]
  have h := hgo items []
  rw [row_nil, List.nil_append] at h
  exact h

/-- The slot holds the first item of the kind. -/
theorem first_eq (p : α → Option β) (items : List α) :
    first p items = (items.filterMap p).head? := by
  have hfull : ∀ (items : List α) (b : β),
      items.foldl (fun slot x => match slot with
        | some b => some b
        | none => p x) (some b) = some b := by
    intro items b
    induction items with
    | nil => rfl
    | cons x items ih => exact ih
  induction items with
  | nil => rfl
  | cons x items ih =>
      unfold first at ih ⊢
      rw [List.foldl_cons]
      cases hx : p x with
      | none => rw [List.filterMap_cons_none hx]; exact ih
      | some b => rw [List.filterMap_cons_some hx]; exact hfull items b

@[simp]
theorem last_nil (p : α → Option β) : last p [] = none := rfl

theorem last_concat (p : α → Option β) (items : List α) (x : α) :
    last p (items ++ [x]) = p x := by
  simp [last]

section Chain

/-- Show an item to the first empty slot, which takes it if its test accepts it. -/
def chainStep : List (α → Bool) → List (Option α) → α → List (Option α)
  | p :: _, none :: row, x => (if p x then some x else none) :: row
  | _ :: ps, some y :: row, x => some y :: chainStep ps row x
  | _, row, _ => row

/-- A row with a test for each slot, after all items. -/
def chain (ps : List (α → Bool)) (items : List α) : List (Option α) :=
  items.foldl (chainStep ps) (ps.map fun _ => none)

/-- The rows that a chain can fill: a slot is empty only if all behind it are. -/
def Fits : List (α → Bool) → List (Option α) → Prop
  | [], [] => True
  | _ :: ps, none :: row => row = ps.map fun _ => none
  | p :: ps, some x :: row => p x = true ∧ Fits ps row
  | _, _ => False

@[simp]
theorem chain_nil (ps : List (α → Bool)) : chain ps [] = ps.map fun _ => none := rfl

@[simp]
theorem chain_no_tests (items : List α) : chain [] items = [] := by
  unfold chain
  induction items with
  | nil => rfl
  | cons x items ih => exact ih

/-- A filled slot leaves the rest of the chain to the other items. -/
theorem foldl_chainStep_some (p : α → Bool) (ps : List (α → Bool)) (y : α) (row : List (Option α))
    (items : List α) :
    items.foldl (chainStep (p :: ps)) (some y :: row) =
      some y :: items.foldl (chainStep ps) row := by
  induction items generalizing row with
  | nil => rfl
  | cons x items ih => simp only [List.foldl_cons, chainStep, ih]

theorem chain_cons_accepted {p : α → Bool} {x : α} (h : p x = true) (ps : List (α → Bool))
    (items : List α) : chain (p :: ps) (x :: items) = some x :: chain ps items := by
  unfold chain
  rw [List.foldl_cons, List.map_cons, chainStep, if_pos h, foldl_chainStep_some]

theorem chain_cons_rejected {p : α → Bool} {x : α} (h : p x = false) (ps : List (α → Bool))
    (items : List α) : chain (p :: ps) (x :: items) = chain (p :: ps) items := by
  unfold chain
  rw [List.foldl_cons, List.map_cons, chainStep, h]
  rfl

/-- The first slot holds an item that its test accepts, or no item was accepted. -/
theorem chain_head (p : α → Bool) (ps : List (α → Bool)) (items : List α) :
    (∃ x row, chain (p :: ps) items = some x :: row ∧ p x = true) ∨
      (chain (p :: ps) items = none :: ps.map fun _ => none) ∧ ∀ x ∈ items, p x = false := by
  induction items with
  | nil => exact Or.inr ⟨rfl, fun x hx => absurd hx List.not_mem_nil⟩
  | cons x items ih =>
      cases hx : p x with
      | true => exact Or.inl ⟨x, _, chain_cons_accepted hx ps items, hx⟩
      | false =>
          rw [chain_cons_rejected hx]
          rcases ih with hsome | ⟨hrow, hall⟩
          · exact Or.inl hsome
          · refine Or.inr ⟨hrow, fun y hy => ?_⟩
            rcases List.mem_cons.mp hy with rfl | hy
            · exact hx
            · exact hall y hy

/-- Rows that are alike slot by slot: the same slots are empty, and no test of
    the chain tells their items apart. -/
def Alike (ps : List (α → Bool)) (r : List (Option α)) (r' : List (Option α)) : Prop :=
  List.Forall₂ (Option.Rel fun x y => ∀ p ∈ ps, p x = p y) r r'

theorem eq_of_alike_nones {qs ps : List (α → Bool)} {b : List (Option α)}
    (h : Alike qs b (ps.map fun _ => none)) : b = ps.map fun _ => none := by
  induction ps generalizing b with
  | nil =>
      cases h
      rfl
  | cons p ps ih =>
      cases h with
      | cons hx hb =>
          cases hx
          rw [List.map_cons, ih hb]

theorem length_chain (ps : List (α → Bool)) (items : List α) :
    (chain ps items).length = ps.length := by
  have hstep : ∀ (ps : List (α → Bool)) (row : List (Option α)) (x : α),
      (chainStep ps row x).length = row.length := by
    intro ps row x
    induction row generalizing ps with
    | nil => cases ps <;> rfl
    | cons slot row ih =>
        cases ps with
        | nil => cases slot <;> rfl
        | cons p ps => cases slot <;> simp [chainStep, ih]
  have hgo : ∀ row : List (Option α),
      (items.foldl (chainStep ps) row).length = row.length := by
    induction items with
    | nil => exact fun row => rfl
    | cons x items ih => exact fun row => (ih _).trans (hstep ps row x)
  exact (hgo _).trans (List.length_map _)

theorem length_of_fits {ps : List (α → Bool)} {row : List (Option α)} (h : Fits ps row) :
    row.length = ps.length := by
  induction ps generalizing row with
  | nil => cases row <;> simp_all [Fits]
  | cons p ps ih =>
      cases row with
      | nil => exact absurd h (by simp [Fits])
      | cons slot row =>
          cases slot with
          | none => rw [h, List.length_cons, List.length_map, List.length_cons]
          | some x => rw [List.length_cons, ih h.2, List.length_cons]

/-- A chain that is shown the items of a row recovers a row like it exactly if
    it is the same row and fits. -/
theorem chain_reduceOption_eq_iff {qs ps : List (α → Bool)} {b row : List (Option α)}
    (hqs : ps ⊆ qs) (h : Alike qs b row) :
    chain ps b.reduceOption = row ↔ Fits ps row ∧ b = row := by
  by_cases hlen : row.length = ps.length
  swap
  · refine iff_of_false (fun hchain => hlen ?_) fun hfits => hlen (length_of_fits hfits.1)
    rw [← hchain, length_chain]
  induction h generalizing ps with
  | nil =>
      obtain rfl : ps = [] := List.eq_nil_of_length_eq_zero hlen.symm
      simp [Fits]
  | @cons x y b row hxy hrest ih =>
      obtain ⟨p, ps, rfl⟩ : ∃ p ps', ps = p :: ps' := by
        cases ps with
        | nil => exact absurd hlen (by simp)
        | cons p ps => exact ⟨p, ps, rfl⟩
      have htail := ih (fun q hq => hqs (List.mem_cons_of_mem _ hq))
        (Nat.succ.inj hlen)
      cases hxy with
      | none =>
          rw [List.reduceOption_cons_of_none, Fits]
          constructor
          · intro hchain
            rcases chain_head p ps b.reduceOption with ⟨x, row', hsome, -⟩ | ⟨hnone, -⟩
            · rw [hsome] at hchain
              exact absurd hchain (by simp)
            · obtain rfl : row = ps.map fun _ => none := by
                rw [hnone] at hchain
                exact (List.cons.inj hchain).2.symm
              exact ⟨rfl, by rw [eq_of_alike_nones hrest]⟩
          · rintro ⟨rfl, hb⟩
            obtain rfl := (List.cons.inj hb).2
            simp [List.reduceOption_replicate_none, List.map_const']
      | @some x y hxy =>
          have hp : p x = p y := hxy p (hqs List.mem_cons_self)
          rw [List.reduceOption_cons_of_some, Fits]
          cases hy : p y with
          | true =>
              rw [chain_cons_accepted (hp.trans hy), List.cons.injEq, List.cons.injEq, htail]
              simp only [true_and]
              exact and_left_comm
          | false =>
              -- The slot ends up with an accepted item, which the original one is not.
              rw [chain_cons_rejected (hp.trans hy)]
              refine iff_of_false (fun hchain => ?_) fun h => absurd h.1.1 (by decide)
              rcases chain_head p ps b.reduceOption with ⟨z, row', hsome, hz⟩ | ⟨hnone, -⟩
              · rw [hsome] at hchain
                obtain rfl := Option.some.inj (List.cons.inj hchain).1
                rw [hy] at hz
                exact absurd hz (by decide)
              · rw [hnone] at hchain
                exact absurd (List.cons.inj hchain).1 (by simp)

end Chain

end Slots
