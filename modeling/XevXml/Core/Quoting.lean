import Mathlib.Data.List.Basic

/-!
# Texts with Quotes

A quote opens a string, and the next quote of the same kind closes it. Two quotes in
a row inside a string close it and open it again at once, so a doubled quote needs no
rule of its own, and what a text does is known when the quote is known that is open
in front of it.

A text that is read in pieces is read like the whole: what is open after a piece is
open in front of the next one.

## Main definitions

* `openAfter`: The quote that is open behind a text.
* `bare`: A mark does not stand outside the strings of a text.

## Theorems

* `openAfter_append`, `bare_append`: Texts are read in pieces.
* `openAfter_of_not`: Texts without quotes.
* `eq_of_bare`: The first mark outside strings.
-/

namespace XevXml.Quoting

variable {α : Type} [DecidableEq α] (isQuote : α → Bool)

/-- The quote that is open behind a character. -/
def toggle : Option α → α → Option α
  | none, c => if isQuote c then some c else none
  | some q, c => if c = q then none else some q

/-- The quote that is open behind a text. -/
def openAfter (q : Option α) (s : List α) : Option α := s.foldl (toggle isQuote) q

/-- No mark stands in a text outside its strings. -/
def bare (mark : α) : Option α → List α → Bool
  | _, [] => true
  | q, c :: s => (q.isSome || c ≠ mark) && bare mark (toggle isQuote q c) s

variable {isQuote}

theorem openAfter_append (q : Option α) (s t : List α) :
    openAfter isQuote q (s ++ t) = openAfter isQuote (openAfter isQuote q s) t :=
  List.foldl_append

theorem openAfter_cons (q : Option α) (c : α) (s : List α) :
    openAfter isQuote q (c :: s) = openAfter isQuote (toggle isQuote q c) s := rfl

theorem bare_append (mark : α) (q : Option α) (s t : List α) :
    bare isQuote mark q (s ++ t) =
      (bare isQuote mark q s && bare isQuote mark (openAfter isQuote q s) t) := by
  induction s generalizing q with
  | nil => rfl
  | cons c s ih => rw [List.cons_append, bare, bare, ih, openAfter_cons, Bool.and_assoc]

theorem toggle_of_not {c : α} (h : isQuote c = false) : toggle isQuote none c = none := by
  rw [toggle, h]
  rfl

/-- A text without quotes. -/
theorem openAfter_of_not {s : List α} (h : ∀ c ∈ s, isQuote c = false) :
    openAfter isQuote none s = none := by
  induction s with
  | nil => rfl
  | cons c s ih =>
      rw [List.forall_mem_cons] at h
      rw [openAfter_cons, toggle_of_not h.1, ih h.2]

theorem bare_of_not {mark : α} {s : List α} (h : ∀ c ∈ s, isQuote c = false ∧ c ≠ mark) :
    bare isQuote mark none s = true := by
  induction s with
  | nil => rfl
  | cons c s ih =>
      rw [List.forall_mem_cons] at h
      rw [bare, toggle_of_not h.1.1, ih h.2, decide_eq_true h.1.2, Bool.or_true, Bool.and_true]

/-- What is open in front of some characters that are no quotes is open behind them. -/
theorem openAfter_of_append {q : Option α} {s t : List α}
    (hq : ∀ d, openAfter isQuote q s = some d → isQuote d = true)
    (h : ∀ c ∈ t, isQuote c = false) (hs : openAfter isQuote q (s ++ t) = none) :
    openAfter isQuote q s = none := by
  rw [openAfter_append] at hs
  cases hd : openAfter isQuote q s with
  | none => rfl
  | some d =>
      have hquote := hq d hd
      rw [hd] at hs
      have hkeep : ∀ t : List α, (∀ c ∈ t, isQuote c = false) →
          openAfter isQuote (some d) t = some d := by
        intro t ht
        induction t with
        | nil => rfl
        | cons c t ih =>
            rw [List.forall_mem_cons] at ht
            have hne : c ≠ d := by
              intro he
              rw [he, hquote] at ht
              cases ht.1
            rw [openAfter_cons, toggle, if_neg hne, ih ht.2]
      rw [hkeep t h] at hs
      cases hs

/-- A text is divided in one way only at a first mark that stands outside its strings. -/
theorem eq_of_bare {mark : α} {q : Option α} {p a r t : List α}
    (hp : openAfter isQuote q p = none) (hpbare : bare isQuote mark q p = true)
    (ha : openAfter isQuote q a = none) (habare : bare isQuote mark q a = true)
    (h : p ++ mark :: r = a ++ mark :: t) : p = a ∧ r = t := by
  -- Whichever of the two is longer would have the mark of the other one in it.
  rcases List.append_eq_append_iff.mp h with ⟨x, hx, hx'⟩ | ⟨x, hx, hx'⟩
  · cases x with
    | nil =>
        rw [List.nil_append, List.cons.injEq] at hx'
        rw [List.append_nil] at hx
        exact ⟨hx.symm, hx'.2⟩
    | cons d x =>
        rw [List.cons_append, List.cons.injEq] at hx'
        rw [hx, ← hx'.1, bare_append, hp, bare] at habare
        simp at habare
  · cases x with
    | nil =>
        rw [List.nil_append, List.cons.injEq] at hx'
        rw [List.append_nil] at hx
        exact ⟨hx, hx'.2.symm⟩
    | cons d x =>
        rw [List.cons_append, List.cons.injEq] at hx'
        rw [hx, ← hx'.1, bare_append, ha, bare] at hpbare
        simp at hpbare

/-- Only a quote can be open. -/
theorem isQuote_of_openAfter {q : Option α} {s : List α} {d : α}
    (hq : ∀ d, q = some d → isQuote d = true) (h : openAfter isQuote q s = some d) :
    isQuote d = true := by
  induction s generalizing q with
  | nil => exact hq d h
  | cons c s ih =>
      refine ih ?_ h
      intro e he
      cases q with
      | none =>
          rw [toggle] at he
          by_cases hc : isQuote c = true
          · rw [if_pos hc, Option.some.injEq] at he
            rw [← he, hc]
          · rw [if_neg hc] at he
            cases he
      | some q =>
          rw [toggle] at he
          by_cases hc : c = q
          · rw [if_pos hc] at he
            cases he
          · rw [if_neg hc, Option.some.injEq] at he
            rw [← he]
            exact hq q rfl

end XevXml.Quoting
