import XevXml.Tools.Passes.Backquote
import XevXml.Tools.Passes.KeptBack

/-!
# Pieces of Code in a Directive

A directive with pieces of code is a list of them, each with the text in front of it, and
the text behind the last one. In the first pass a call is written for each piece. In the
second one the directive has numbers in their places, and the calls that follow it are put
back one by one.

## Main definitions

* `Piece`: A piece of code behind a text.
* `marked`: The text of a directive with numbers for its pieces.

## Theorems

* `resume_calls`: The pieces of code are put back where they were.
-/

namespace XevXml.Tools.Passes

open Quoting

section Pieces

/-- A piece of code behind a text. -/
structure Piece where
  front : Text
  code : Text
  front_clear : Clear front
  code_clear : Clear code
  plain : '\n' ∉ front ∧ '\n' ∉ code

def Piece.text (p : Piece) : Text := p.front ++ '`' :: (p.code ++ ['`'])

/-- The line of the call that the back end writes for a piece. -/
def Piece.callLine (indent : Text) (p : Piece) : Text :=
  indent ++ "CALL xevparse_extract_exp(".toList ++ p.code ++ [')']

/-- The text of a directive that has numbers, from `n` on, for its pieces. -/
def marked : Nat → List Piece → Text → Text
  | _, [], tail => tail
  | n, p :: ps, tail => p.front ++ (codeMark n ++ marked (n + 1) ps tail)

/-- A number has no backquote in it. -/
theorem backquote_notMem_printNat (n : Nat) : '`' ∉ Numeral.printNat n := by
  intro h
  exact absurd (Numeral.isDigit_of_mem_printNat h) (by decide)

theorem callExp_callLine {indent : Text} (hindent : ∀ c ∈ indent, blank c = true) (p : Piece) :
    callExp (ended (p.callLine indent)) = .ok ('`' :: (p.code ++ ['`'])) := by
  have hskip : skipBlanks (ended (p.callLine indent)) =
      "CALL xevparse_extract_exp".toList ++ '(' :: (p.code ++ [')', '\n']) := by
    have htext : ended (p.callLine indent) =
        indent ++ ("CALL xevparse_extract_exp".toList ++ '(' :: (p.code ++ [')', '\n'])) := by
      simp [ended, Piece.callLine]
    rw [htext, skipBlanks, List.dropWhile_append_of_pos hindent]
    exact List.dropWhile_cons_of_neg (by decide)
  have hparen : ∀ c ∈ "CALL xevparse_extract_exp".toList, (c != '(') = true := by decide
  have hopen : ("CALL xevparse_extract_exp".toList ++ '(' :: (p.code ++ [')', '\n'])).dropWhile
      (· != '(') = '(' :: (p.code ++ [')', '\n']) := by
    rw [List.dropWhile_append_of_pos hparen]
    exact List.dropWhile_cons_of_neg (by decide)
  -- The last closing parenthesis is the one in front of the line end.
  have hfront : ("CALL xevparse_extract_exp".toList ++ '(' :: (p.code ++ [')', '\n'])).rdropWhile
      (· != ')') = "CALL xevparse_extract_exp".toList ++ '(' :: (p.code ++ [')']) := by
    have hsplit : "CALL xevparse_extract_exp".toList ++ '(' :: (p.code ++ [')', '\n']) =
        ("CALL xevparse_extract_exp".toList ++ '(' :: (p.code ++ [')'])) ++ ['\n'] := by simp
    rw [hsplit, List.rdropWhile_concat_pos _ _ _ (by decide)]
    have hlast : "CALL xevparse_extract_exp".toList ++ '(' :: (p.code ++ [')']) =
        ("CALL xevparse_extract_exp".toList ++ '(' :: p.code) ++ [')'] := by simp
    rw [hlast, List.rdropWhile_concat_neg _ _ _ (by decide)]
  have hprefix : ("CALL xevparse_extract_exp".toList).isPrefixOf
      ("CALL xevparse_extract_exp".toList ++ '(' :: (p.code ++ [')', '\n'])) = true :=
    List.isPrefixOf_iff_prefix.mpr (List.prefix_append _ _)
  have hne : "CALL xevparse_extract_exp".toList ++ '(' :: (p.code ++ [')']) ≠ [] := by simp
  rw [callExp, hskip]
  dsimp only
  rw [if_pos hprefix, hopen, hfront]
  dsimp only
  rw [if_neg hne]
  have hlen : (p.code ++ [')', '\n']).length -
      (("CALL xevparse_extract_exp".toList ++ '(' :: (p.code ++ [')', '\n'])).length -
        ("CALL xevparse_extract_exp".toList ++ '(' :: (p.code ++ [')'])).length) -
          1 = p.code.length := by
    simp only [List.length_append, List.length_cons, List.length_nil]
    omega
  rw [hlen, List.take_left, List.cons_append]

/-- The pieces of code are put back where they were, one for each of the calls. -/
theorem resume_calls (namelist : List NameCell) {indent : Text}
    (hindent : ∀ c ∈ indent, blank c = true) (ps : List Piece) (n : Nat) (f tail written : Text)
    (hf : Clear f) (htail : bare isQuote '`' none tail = true) (s s1 s2 : Passing)
    (h1 : s.resume written (f ++ marked n ps tail) = .ok s1)
    (h2 : postunparse_lines namelist s1 (ps.map fun p => ended (p.callLine indent)) = .ok s2) :
    s2.written = written ++ (f ++ (ps.flatMap Piece.text ++ tail)) ∧ s2.unbreak = false ∧
      s2.pending = none := by
  induction ps generalizing n f written s s1 with
  | nil =>
      cases h2
      rcases (bind_eq_ok_iff _ _ _).mp h1 with ⟨⟨t, more⟩, hscan, heq⟩
      have hbare : bare isQuote '`' none (f ++ marked n [] tail) = true := by
        rw [marked, bare_append, hf.closed, hf.bare, htail]
        rfl
      rcases scanPragma_bare hbare hscan with ⟨rfl, rfl⟩
      cases heq
      exact ⟨rfl, rfl, rfl⟩
  | cons p ps ih =>
      rcases (bind_eq_ok_iff _ _ _).mp h1 with ⟨⟨t, more⟩, hscan, heq⟩
      have htext : f ++ marked n (p :: ps) tail =
          (f ++ p.front) ++ '`' :: (Numeral.printNat n ++ '`' :: marked (n + 1) ps tail) := by
        simp [marked, codeMark]
      rw [htext] at hscan
      rcases scanPragma_code (hf.append p.front_clear) (backquote_notMem_printNat n) hscan with
        ⟨rfl, rfl⟩
      cases heq
      rw [List.map_cons] at h2
      rcases (postunparse_lines_cons_iff _ _ _ _ _).mp h2 with ⟨s3, hline, hlines⟩
      rw [postunparse_line] at hline
      dsimp only at hline
      rw [callExp_callLine hindent p, ok_bind] at hline
      rcases ih (n + 1) [] _ clear_nil _ s3 hline hlines with ⟨hwritten, hrest⟩
      refine ⟨?_, hrest⟩
      rw [hwritten]
      simp [Piece.text]

/-- The calls that no directive waits for are written like other lines. -/
theorem count_calls (namelist : List NameCell) {indent : Text}
    (hindent : ∀ c ∈ indent, blank c = true) (ps : List Piece) (s s' : Passing)
    (hpending : s.pending = none)
    (h : postunparse_lines namelist s (ps.map fun p => ended (p.callLine indent)) = .ok s') :
    s'.pending = none ∧ s.broken.count '\n' + ps.length ≤ s'.broken.count '\n' ∧
      (ps = [] → s' = s) := by
  induction ps generalizing s with
  | nil =>
      cases h
      exact ⟨hpending, Nat.le_refl _, fun _ => rfl⟩
  | cons p ps ih =>
      rw [List.map_cons] at h
      rcases (postunparse_lines_cons_iff _ _ _ _ _).mp h with ⟨s1, hline, hlines⟩
      have hplain : ¬ IsDirective (p.callLine indent) := by
        have hskip : skipBlanks (p.callLine indent) =
            "CALL xevparse_extract_exp(".toList ++ (p.code ++ [')']) := by
          rw [Piece.callLine, List.append_assoc, List.append_assoc, skipBlanks,
            List.dropWhile_append_of_pos hindent]
          exact List.dropWhile_cons_of_neg (by decide)
        rw [IsDirective, hskip]
        rintro ⟨t, ht⟩
        have hhead : some '!' = some 'C' := congrArg List.head? ht
        exact absurd hhead (by decide)
      rw [postunparse_line_plain namelist hpending hplain] at hline
      cases hline
      rcases ih _ rfl hlines with ⟨hp, hcount, _⟩
      refine ⟨hp, ?_, fun hnil => by cases hnil⟩
      -- The line has got its end.
      rw [Passing.broken, if_pos rfl, List.count_append, List.count_append] at hcount
      rw [List.length_cons]
      have hone : List.count '\n' ['\n'] = 1 := rfl
      omega

end Pieces

end XevXml.Tools.Passes
