import Mathlib.Data.List.Basic

/-!
# Terms in Prefix Notation

Terms with constants, operators of one argument, and an operator that takes any
number of arguments and has no sign for its end. Written down in prefix
notation, such an operator takes everything that follows, so that a term is not
determined by what is written: an argument that ends in the operator draws the
arguments behind it into itself.

What is written does determine a reading, the term in which every operator has
taken all it can. Two terms are written alike exactly if they have the same
reading. The tokens may be spelled by words of letters, as long as the end of a
word can be told.

## Main definitions

* `Term`, `Token`, `Term.tokens`: Terms and their notation.
* `reads`: The reading of a term that is followed by others.
* `Term.Settled`: Terms that are their own readings.
* `SelfDelimiting`: Spellings of tokens whose end can be told.

## Theorems

* `tokens_eq_iff`: When two terms are written alike.
* `spelled_eq_iff`: The same for spelled tokens.
-/

namespace XevXml

namespace Terms

variable {α β γ : Type*}

/-- Terms over constants and operators of one argument. -/
inductive Term (α β : Type*)
  | leaf (a : α)
  | mark (b : β) (t : Term α β)
  | all (ts : List (Term α β))

/-- What terms are written with. -/
inductive Token (α β : Type*)
  | leaf (a : α)
  | mark (b : β)
  | all

section Notation

mutual

/-- The prefix notation of a term. -/
def Term.tokens : Term α β → List (Token α β)
  | .leaf a => [.leaf a]
  | .mark b t => .mark b :: t.tokens
  | .all ts => .all :: tokensAll ts

/-- The prefix notation of terms in a row. -/
def tokensAll : List (Term α β) → List (Token α β)
  | [] => []
  | t :: ts => t.tokens ++ tokensAll ts

end

/-- An operator on the first of some terms. -/
def marked (b : β) : List (Term α β) → List (Term α β)
  | [] => []
  | t :: ts => .mark b t :: ts

mutual

/-- The reading of a term and the terms behind it. -/
def reads : Term α β → List (Term α β) → List (Term α β)
  | .leaf a, rest => .leaf a :: rest
  | .mark b t, rest => marked b (reads t rest)
  | .all ts, rest => [.all (readsAll ts rest)]

/-- The reading of terms in a row. -/
def readsAll : List (Term α β) → List (Term α β) → List (Term α β)
  | [], rest => rest
  | t :: ts, rest => reads t (readsAll ts rest)

end

/-- A property of all terms and of all lists of terms. -/
theorem Term.induct {P : Term α β → Prop} {Q : List (Term α β) → Prop} (hleaf : ∀ a, P (.leaf a))
    (hmark : ∀ b t, P t → P (.mark b t)) (hall : ∀ ts, Q ts → P (.all ts)) (hnil : Q [])
    (hcons : ∀ t ts, P t → Q ts → Q (t :: ts)) : (∀ t, P t) ∧ ∀ ts, Q ts :=
  ⟨fun t => @Term.rec α β P Q hleaf hmark hall hnil hcons t,
    fun ts => @Term.rec_1 α β P Q hleaf hmark hall hnil hcons ts⟩

end Notation

section Readings

/-- Terms in a row in which every operator has taken all it can. -/
inductive Read : List (Term α β) → Prop
  | nil : Read []
  | leaf (a : α) {ts : List (Term α β)} (h : Read ts) : Read (.leaf a :: ts)
  | mark (b : β) {t : Term α β} {ts : List (Term α β)} (h : Read (t :: ts)) :
      Read (.mark b t :: ts)
  | all {ts : List (Term α β)} (h : Read ts) : Read [.all ts]

theorem reads_ne_nil (t : Term α β) (rest : List (Term α β)) : reads t rest ≠ [] := by
  have hboth : (∀ t : Term α β, ∀ rest, reads t rest ≠ []) ∧ ∀ _ : List (Term α β), True := by
    refine Term.induct ?leaf ?mark ?all trivial fun _ _ _ _ => trivial
    case leaf =>
      intro a rest
      exact List.cons_ne_nil _ _
    case mark =>
      intro b t ih rest
      rw [reads]
      cases h : reads t rest with
      | nil => exact absurd h (ih rest)
      | cons u us => exact List.cons_ne_nil _ _
    case all =>
      intro ts _ rest
      exact List.cons_ne_nil _ _
  exact hboth.1 t rest

/-- A reading is written as the terms are. -/
theorem tokens_reads :
    (∀ (t : Term α β) (rest : List (Term α β)),
        tokensAll (reads t rest) = t.tokens ++ tokensAll rest) ∧
      ∀ ts rest : List (Term α β), tokensAll (readsAll ts rest) = tokensAll ts ++
        tokensAll rest := by
  refine Term.induct ?leaf ?mark ?all ?nil ?cons
  case leaf =>
    intro a rest
    rfl
  case mark =>
    intro b t ih rest
    rw [reads, Term.tokens, List.cons_append, ← ih rest]
    cases h : reads t rest with
    | nil => exact absurd h (reads_ne_nil t rest)
    | cons u us => rfl
  case all =>
    intro ts ih rest
    rw [reads, tokensAll, tokensAll, Term.tokens, Term.tokens, ih rest, List.append_nil,
      List.cons_append]
  case nil =>
    intro rest
    rfl
  case cons =>
    intro t ts ht ih rest
    rw [readsAll, tokensAll, ht, ih, List.append_assoc]

/-- In a reading every operator has taken all it can. -/
theorem read_reads :
    (∀ (t : Term α β) (rest : List (Term α β)), Read rest → Read (reads t rest)) ∧
      ∀ ts rest : List (Term α β), Read rest → Read (readsAll ts rest) := by
  refine Term.induct ?leaf ?mark ?all ?nil ?cons
  case leaf =>
    intro a rest h
    exact Read.leaf a h
  case mark =>
    intro b t ih rest h
    have hread := ih rest h
    rw [reads]
    cases hrest : reads t rest with
    | nil => exact Read.nil
    | cons u us =>
        rw [hrest] at hread
        exact Read.mark b hread
  case all =>
    intro ts ih rest h
    exact Read.all (ih rest h)
  case nil =>
    intro rest h
    exact h
  case cons =>
    intro t ts ht ih rest h
    exact ht _ (ih rest h)

theorem tokens_ne_nil (t : Term α β) : t.tokens ≠ [] := by
  cases t <;> exact List.cons_ne_nil _ _

/-- A reading is determined by what is written. -/
theorem Read.eq_of_tokens_eq {ts us : List (Term α β)} (hts : Read ts) (hus : Read us)
    (h : tokensAll ts = tokensAll us) : ts = us := by
  induction hts generalizing us with
  | nil =>
      cases us with
      | nil => rfl
      | cons u us => exact absurd (List.append_eq_nil_iff.mp h.symm).1 (tokens_ne_nil u)
  | @leaf a ts _ ih =>
      cases hus with
      | nil => exact absurd h (List.cons_ne_nil _ _)
      | @leaf a' us hus =>
          have hparts := List.cons.inj h
          rw [Token.leaf.inj hparts.1, ih hus hparts.2]
      | mark b _ => exact absurd (List.cons.inj h).1 (by simp)
      | all _ => exact absurd (List.cons.inj h).1 (by simp)
  | @mark b t ts _ ih =>
      cases hus with
      | nil => exact absurd h (List.cons_ne_nil _ _)
      | leaf a _ => exact absurd (List.cons.inj h).1 (by simp)
      | @mark b' u us hus =>
          -- Without the operator there are two readings again.
          have hparts := List.cons.inj h
          have hrest := List.cons.inj (ih hus hparts.2)
          rw [Token.mark.inj hparts.1, hrest.1, hrest.2]
      | all _ => exact absurd (List.cons.inj h).1 (by simp)
  | @all ts _ ih =>
      cases hus with
      | nil => exact absurd h (List.cons_ne_nil _ _)
      | leaf a _ => exact absurd (List.cons.inj h).1 (by simp)
      | mark b _ => exact absurd (List.cons.inj h).1 (by simp)
      | @all us hus =>
          simp only [tokensAll, Term.tokens, List.append_nil] at h
          rw [ih hus (List.cons.inj h).2]

/-- Two terms are written alike exactly if they have the same reading. -/
theorem tokens_eq_iff (t u : Term α β) : t.tokens = u.tokens ↔ reads t [] = reads u [] := by
  have htokens : ∀ v : Term α β, tokensAll (reads v []) = v.tokens := fun v => by
    rw [tokens_reads.1 v [], tokensAll, List.append_nil]
  constructor
  · intro h
    refine Read.eq_of_tokens_eq (read_reads.1 t [] Read.nil) (read_reads.1 u [] Read.nil) ?_
    rw [htokens, htokens, h]
  · intro h
    rw [← htokens, h, htokens]

end Readings

section Settled

/-- Whether a term ends in an operator that takes what follows. -/
def Term.isOpen : Term α β → Bool
  | .leaf _ => false
  | .mark _ t => t.isOpen
  | .all _ => true

/-- Whether only the last of some terms may take what follows. -/
def closedButLast : List (Term α β) → Bool
  | [] => true
  | [_] => true
  | t :: ts => !t.isOpen && closedButLast ts

mutual

/-- Terms in which no operator takes more than its own arguments. -/
def Term.Settled : Term α β → Prop
  | .leaf _ => True
  | .mark _ t => t.Settled
  | .all ts => closedButLast ts = true ∧ SettledAll ts

/-- Lists of such terms. -/
def SettledAll : List (Term α β) → Prop
  | [] => True
  | t :: ts => t.Settled ∧ SettledAll ts

end

theorem reads_of_settled :
    (∀ t : Term α β, t.Settled → ∀ rest, t.isOpen = false ∨ rest = [] → reads t rest = t :: rest) ∧
      ∀ ts : List (Term α β), SettledAll ts → closedButLast ts = true → readsAll ts [] = ts := by
  refine Term.induct ?leaf ?mark ?all ?nil ?cons
  case leaf =>
    intro a _ rest _
    rfl
  case mark =>
    intro b t ih h rest hopen
    rw [reads, ih h rest hopen, marked]
  case all =>
    intro ts ih h rest hopen
    rcases hopen with hopen | hopen
    · exact Bool.noConfusion hopen
    · rw [hopen, reads, ih h.2 h.1]
  case nil =>
    intro _ _
    rfl
  case cons =>
    intro t ts ht ih h hclosed
    rw [readsAll]
    cases ts with
    | nil => exact ht h.1 [] (Or.inr rfl)
    | cons u us =>
        rw [closedButLast, Bool.and_eq_true, Bool.not_eq_true'] at hclosed
        · rw [ih h.2 hclosed.2, ht h.1 _ (Or.inl hclosed.1)]
        · exact List.cons_ne_nil _ _

/-- Such a term is its own reading. -/
theorem Term.Settled.reads_eq {t : Term α β} (h : t.Settled) : reads t [] = [t] :=
  reads_of_settled.1 t h [] (Or.inr rfl)

end Settled

section Spelling

/-- Spellings whose end can be told, whatever follows. -/
structure SelfDelimiting (code : α → List γ) : Prop where
  nonempty : ∀ a, code a ≠ []
  decode : ∀ {a b : α} {x y : List γ}, code a ++ x = code b ++ y → a = b

theorem SelfDelimiting.flatMap_inj {code : α → List γ} (hcode : SelfDelimiting code)
    {xs ys : List α} (h : xs.flatMap code = ys.flatMap code) : xs = ys := by
  induction xs generalizing ys with
  | nil =>
      cases ys with
      | nil => rfl
      | cons y ys => exact absurd (List.append_eq_nil_iff.mp h.symm).1 (hcode.nonempty y)
  | cons x xs ih =>
      cases ys with
      | nil => exact absurd (List.append_eq_nil_iff.mp h).1 (hcode.nonempty x)
      | cons y ys =>
          rw [List.flatMap_cons, List.flatMap_cons] at h
          have hfirst := hcode.decode h
          rw [hfirst] at h ⊢
          rw [ih (List.append_cancel_left h)]

/-- Spelled out, two terms are alike exactly if they have the same reading. -/
theorem spelled_eq_iff {code : Token α β → List γ} (hcode : SelfDelimiting code)
    (t u : Term α β) :
    t.tokens.flatMap code = u.tokens.flatMap code ↔ reads t [] = reads u [] := by
  rw [← tokens_eq_iff]
  exact ⟨hcode.flatMap_inj, fun h => by rw [h]⟩

end Spelling

end Terms

end XevXml
