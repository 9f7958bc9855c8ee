import XevXml.Tools.Passes.After
import XevXml.Tools.Continu.Line

/-!
# The Search for a Backquote

A directive may hold pieces of the user's code between backquotes. Strings are passed over
in the search for them, so what matters of a text is whether its strings are closed and
whether a backquote stands outside of them.

## Main definitions

* `Clear`: The strings of a text are closed, and no backquote stands outside of them.

## Theorems

* `strchrF_clear`, `strchrF_bare`: What is found of a backquote.
* `scanPragmaFrom_spec`: What is copied of a directive.
-/

namespace XevXml.Tools.Passes

open Quoting

/-- The strings of a text are closed, and no backquote stands outside of them. -/
structure Clear (t : Text) : Prop where
  closed : openAfter isQuote none t = none
  bare : bare isQuote '`' none t = true

theorem clear_nil : Clear [] := ⟨rfl, rfl⟩

theorem Clear.append {s t : Text} (hs : Clear s) (ht : Clear t) : Clear (s ++ t) := by
  constructor
  · rw [openAfter_append, hs.closed, ht.closed]
  · rw [bare_append, hs.closed, hs.bare, ht.bare]
    rfl

/-- A text that has neither quotes nor backquotes. -/
theorem clear_of_plain {t : Text} (h : ∀ c ∈ t, isQuote c = false ∧ c ≠ '`') : Clear t :=
  ⟨openAfter_of_not fun c hc => (h c hc).1, bare_of_not h⟩

theorem backquote_not_quote : isQuote '`' = false := rfl

theorem isQuote_iff (c : Char) : isQuote c = true ↔ c = '\'' ∨ c = '"' := by
  rw [isQuote, Bool.or_eq_true, beq_iff_eq, beq_iff_eq]

/-- The string that a text starts with is clear. -/
theorem clear_of_endstrF {c : Char} {s s1 s2 : Text} (hc : isQuote c = true)
    (h : endstrF (c :: s) = some (s1, s2)) : c :: s = s1 ++ s2 ∧ s2.length < (c :: s).length ∧
      Clear s1 := by
  rw [endstrF] at h
  rcases Option.map_eq_some_iff.mp h with ⟨p, hclose, heq⟩
  rcases closing_some backquote_not_quote hc hclose with ⟨hs, _, hopen, hbare⟩
  have htoggle : toggle isQuote none c = some c := by rw [toggle, if_pos hc]
  have hne : c ≠ '`' := isQuote_ne_mark backquote_not_quote hc
  cases heq
  have hlen := congrArg List.length hs
  rw [List.length_append] at hlen
  refine ⟨by rw [hs, List.cons_append], by rw [List.length_cons]; omega, ?_, ?_⟩
  · rw [openAfter_cons, htoggle, hopen]
  · rw [Quoting.bare, htoggle, hbare, decide_eq_true hne]
    rfl

/-- No backquote is outside of the strings of a text that starts with one that is not
    closed. -/
theorem bare_of_endstrF {c : Char} {s : Text} (hc : isQuote c = true)
    (h : endstrF (c :: s) = none) : bare isQuote '`' none (c :: s) = true := by
  rw [endstrF] at h
  rcases closing_none backquote_not_quote hc (Option.map_eq_none_iff.mp h) with ⟨_, hbare⟩
  have htoggle : toggle isQuote none c = some c := by rw [toggle, if_pos hc]
  rw [Quoting.bare, htoggle, hbare, decide_eq_true (isQuote_ne_mark backquote_not_quote hc)]
  rfl

section Search

/-- What the search for a backquote finds: nothing in a text that has none outside of its
    strings, and the first one otherwise. -/
theorem strchrF_spec (s : Text) :
    (strchrF s '`' = none ∧ bare isQuote '`' none s = true) ∨
      ∃ p r, s = p ++ '`' :: r ∧ Clear p ∧ strchrF s '`' = some ('`' :: r) := by
  have hfrom : ∀ fuel s, s.length < fuel →
      (strchrFrom '`' fuel s = none ∧ bare isQuote '`' none s = true) ∨
        ∃ p r, s = p ++ '`' :: r ∧ Clear p ∧ strchrFrom '`' fuel s = some ('`' :: r) := by
    intro fuel
    induction fuel with
    | zero =>
        intro s hs
        omega
    | succ fuel ih =>
        intro s hs
        -- What is found behind a clear text is found behind it in the whole.
        have hbehind : ∀ a t : Text, Clear a → t.length < fuel →
            (strchrFrom '`' fuel t = none ∧ bare isQuote '`' none (a ++ t) = true) ∨
              ∃ p r, a ++ t = p ++ '`' :: r ∧ Clear p ∧
                strchrFrom '`' fuel t = some ('`' :: r) := by
          intro a t ha ht
          rcases ih t ht with ⟨hnone, hbare⟩ | ⟨p, r, hp, hclear, hsome⟩
          · refine Or.inl ⟨hnone, ?_⟩
            rw [bare_append, ha.closed, ha.bare, hbare]
            rfl
          · exact Or.inr ⟨a ++ p, r, by rw [hp, List.append_assoc], ha.append hclear, hsome⟩
        cases s with
        | nil => exact Or.inl ⟨rfl, rfl⟩
        | cons c s =>
            rw [List.length_cons] at hs
            rw [strchrFrom]
            by_cases hc : c = '`'
            · rw [if_pos hc, hc]
              exact Or.inr ⟨[], s, rfl, clear_nil, rfl⟩
            by_cases hq : c = '\'' ∨ c = '"'
            · have hquote : isQuote c = true := (isQuote_iff c).mpr hq
              rw [if_neg hc, if_pos hq]
              cases hend : endstrF (c :: s) with
              | none => exact Or.inl ⟨rfl, bare_of_endstrF hquote hend⟩
              | some p =>
                  rcases clear_of_endstrF hquote hend with ⟨hs1, hlen, hclear⟩
                  rw [List.length_cons] at hlen
                  rw [hs1]
                  exact hbehind p.1 p.2 hclear (by omega)
            · rw [if_neg hc, if_neg hq]
              have hplain : Clear [c] := by
                refine clear_of_plain fun d hd => ?_
                rw [List.mem_singleton.mp hd]
                exact ⟨Bool.eq_false_iff.mpr (fun h => hq ((isQuote_iff c).mp h)), hc⟩
              exact hbehind [c] s hplain (by omega)
  exact hfrom _ s (Nat.lt_succ_self _)

/-- The first backquote behind a clear text is found. -/
theorem strchrF_clear {p : Text} (hp : Clear p) (r : Text) :
    strchrF (p ++ '`' :: r) '`' = some ('`' :: r) := by
  rcases strchrF_spec (p ++ '`' :: r) with ⟨_, hbare⟩ | ⟨a, t, hsplit, ha, hsome⟩
  · rw [bare_append, hp.closed, Quoting.bare] at hbare
    simp at hbare
  · rw [hsome, (eq_of_bare hp.closed hp.bare ha.closed ha.bare hsplit).2]

/-- There is none to be found in a text that has none outside of its strings. -/
theorem strchrF_bare {s : Text} (h : bare isQuote '`' none s = true) : strchrF s '`' = none := by
  rcases strchrF_spec s with ⟨hnone, _⟩ | ⟨p, r, rfl, hp, _⟩
  · exact hnone
  · rw [bare_append, hp.closed, Quoting.bare] at h
    simp at h

end Search

section Copy

/-- A piece of code is what stands in front of the next backquote. -/
theorem dropWhile_backquote {s rest : Text} {d : Char} (h : s.dropWhile (· != '`') = d :: rest) :
    s = s.takeWhile (· != '`') ++ '`' :: rest ∧ '`' ∉ s.takeWhile (· != '`') := by
  have hd : d = '`' := by
    have hnot := List.head?_dropWhile_not (· != '`') s
    rw [h] at hnot
    simpa using hnot
  have hall := List.takeWhile_append_dropWhile (p := (· != '`')) (l := s)
  rw [h, hd] at hall
  refine ⟨hall.symm, fun hmem => ?_⟩
  have hne := List.mem_takeWhile_imp hmem
  exact absurd hne (by decide)

/-- What is copied of a directive: all of it, or what stands in front of a piece of code.
    The text in front of the next piece has been taken up to its backquote. -/
theorem scanPragmaFrom_spec {fuel : Nat} {s t : Text} {more : Option Text}
    (h : scanPragmaFrom fuel s = .ok (t, more)) :
    (more = none ∧ t = s ∧ bare isQuote '`' none s = true) ∨
      ∃ m rest, more = some rest ∧ s = t ++ '`' :: (m ++ '`' :: rest) ∧ Clear t ∧ '`' ∉ m := by
  induction fuel generalizing s t more with
  | zero => cases h
  | succ fuel ih =>
      -- What is passed over as a whole is put before the rest of the scan.
      have hbehind : ∀ a s' : Text, Clear a →
          (scanPragmaFrom fuel s' >>= fun r => Except.ok (a ++ r.1, r.2)) = .ok (t, more) →
          (more = none ∧ t = a ++ s' ∧ bare isQuote '`' none (a ++ s') = true) ∨
            ∃ m rest, more = some rest ∧ a ++ s' = t ++ '`' :: (m ++ '`' :: rest) ∧ Clear t ∧
              '`' ∉ m := by
        intro a s' ha hrun
        rcases (bind_eq_ok_iff _ _ _).mp hrun with ⟨r, hr, heq⟩
        cases heq
        rcases ih hr with ⟨hmore, ht, hbare⟩ | ⟨m, rest, hmore, hs, ht, hm⟩
        · refine Or.inl ⟨hmore, by rw [ht], ?_⟩
          rw [bare_append, ha.closed, ha.bare, hbare]
          rfl
        · refine Or.inr ⟨m, rest, hmore, ?_, ha.append ht, hm⟩
          rw [hs, List.append_assoc]
      cases s with
      | nil =>
          cases h
          exact Or.inl ⟨rfl, rfl, rfl⟩
      | cons c s =>
          rw [scanPragmaFrom] at h
          by_cases hq : c = '"' ∨ c = '\''
          · have hquote : isQuote c = true := (isQuote_iff c).mpr hq.symm
            rw [if_pos hq] at h
            cases hend : endstrF (c :: s) with
            | none =>
                rw [hend] at h
                cases h
            | some p =>
                rw [hend] at h
                rcases clear_of_endstrF hquote hend with ⟨hs1, _, hclear⟩
                rw [hs1]
                exact hbehind p.1 p.2 hclear h
          · rw [if_neg hq] at h
            by_cases hc : c = '`'
            · rw [if_pos hc] at h
              split at h
              · cases h
              · next d rest hdrop =>
                  cases h
                  rcases dropWhile_backquote hdrop with ⟨hs, hm⟩
                  refine Or.inr ⟨s.takeWhile (· != '`'), rest, rfl, ?_, clear_nil, hm⟩
                  rw [hc, List.nil_append, ← hs]
            · rw [if_neg hc] at h
              have hplain : Clear [c] := by
                refine clear_of_plain fun d hd => ?_
                rw [List.mem_singleton.mp hd]
                exact ⟨Bool.eq_false_iff.mpr (fun hcq => hq ((isQuote_iff c).mp hcq).symm), hc⟩
              exact hbehind [c] s hplain h

theorem dropWhile_to_backquote {m : Text} (hm : '`' ∉ m) (rest : Text) :
    (m ++ '`' :: rest).dropWhile (· != '`') = '`' :: rest := by
  rw [List.dropWhile_append_of_pos]
  · exact List.dropWhile_cons_of_neg (by decide)
  · intro c hc
    rw [bne_iff_ne]
    intro heq
    rw [heq] at hc
    exact hm hc

/-- The copy stops behind the first piece of code. -/
theorem scanPragma_code {f m rest t : Text} {more : Option Text} (hf : Clear f) (hm : '`' ∉ m)
    (h : scanPragma (f ++ '`' :: (m ++ '`' :: rest)) = .ok (t, more)) : t = f ∧
      more = some rest := by
  rcases scanPragmaFrom_spec h with ⟨_, _, hbare⟩ | ⟨m', rest', hmore, hsplit, ht, hm'⟩
  · rw [bare_append, hf.closed, Quoting.bare] at hbare
    simp at hbare
  · rcases eq_of_bare hf.closed hf.bare ht.closed ht.bare hsplit with ⟨hfront, hrest⟩
    have hdrop := congrArg (List.dropWhile (· != '`')) hrest
    rw [dropWhile_to_backquote hm, dropWhile_to_backquote hm', List.cons.injEq] at hdrop
    exact ⟨hfront.symm, by rw [hmore, hdrop.2]⟩

/-- All of a text that has no code is copied. -/
theorem scanPragma_bare {s t : Text} {more : Option Text} (hs : bare isQuote '`' none s = true)
    (h : scanPragma s = .ok (t, more)) : t = s ∧ more = none := by
  rcases scanPragmaFrom_spec h with ⟨hmore, ht, _⟩ | ⟨m, rest, _, hsplit, ht, _⟩
  · exact ⟨ht, hmore⟩
  · rw [hsplit, bare_append, ht.closed, Quoting.bare] at hs
    simp at hs

end Copy

end XevXml.Tools.Passes
