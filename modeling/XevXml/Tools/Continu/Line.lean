import XevXml.Core.Quoting
import XevXml.Tools.Cell
import XevXml.Tools.Langstr

/-!
# Lines of a Fortran Program

The tool that breaks long lines and joins them again looks for the end of the code in
a line: a `!` that does not stand in a string, or the end of the line. It jumps over
the strings on its way, and a string that is not closed in the line is the sign of a
break inside it.

What the search finds depends on the quote that is open in front of a text and on the
one that is open behind it. So a line that is broken can be followed piece by piece.

## Main definitions

* `Form`, `Scope`: Fixed and free form, and which lines are worked on.
* `scan`, `scanAfter`: The search for the end of the code.

## Theorems

* `scan_spec`: What has been found.
* `scanAfter_closed`, `scanAfter_open`: Texts without comments.
-/

namespace XevXml.Tools

open Quoting

/-- The two ways to write a program. -/
inductive Form
  | fixed
  | free
deriving DecidableEq, Repr

/-- The lines that are worked on: directives, statements or both. -/
inductive Scope
  | dir
  | fort
  | all
deriving DecidableEq, Repr

/-- Whether directives are worked on. -/
def Scope.dirs : Scope → Bool
  | .dir | .all => true
  | .fort => false

/-- Whether statements are worked on. -/
def Scope.forts : Scope → Bool
  | .fort | .all => true
  | .dir => false

/-- The characters that start a string. -/
def isQuote (c : Char) : Bool := c == '\'' || c == '"'

/-- The characters that end a line. -/
def lineEnd (c : Char) : Bool := c == '\n' || c == '\r'

/-- Whether there is nothing in a text but a comment. -/
def startsComment (p : Text) : Bool :=
  match p with
  | [] => true
  | c :: _ => c == '!'

/-- Whether a line is a comment, as directives are, or blank. -/
def isComm (form : Form) (line : Text) : Bool :=
  match form with
  | .fixed =>
      (line.head?.any fun c => c == 'C' || c == 'c' || c == '*') ||
        startsComment (line.dropWhile blank)
  | .free => startsComment (line.dropWhile blank)

/-- Whether a text starts with the mark of a directive in free form. -/
def startsDir (p : Text) : Bool :=
  match p with
  | c :: d :: _ => c == '!' && d == '$'
  | _ => false

/-- Whether a line is a directive. -/
def isDir (form : Form) (line : Text) : Bool :=
  match form with
  | .fixed =>
      match line with
      | c :: d :: _ => d == '$' && (c == 'c' || c == 'C' || c == '*' || c == '!')
      | _ => false
  | .free => startsDir (line.dropWhile blank)

/-- Whether a line is worked on. -/
def inScope (form : Form) (scope : Scope) (line : Text) : Bool :=
  (isDir form line && scope.dirs) || (!isComm form line && scope.forts)

section Search

/-- Divides a text in front of the first `!` that does not stand in a string. The quote
    of a string that is not closed is an error. Every step shortens the text. -/
def scanFrom : Nat → Text → Except Char (Text × Text)
  | 0, s => .ok ([], s)
  | _ + 1, [] => .ok ([], [])
  | fuel + 1, c :: s =>
      if c = '!' then .ok ([], c :: s)
      else if isQuote c then
        match endstrF (c :: s) with
        | none => .error c
        | some (str, rest) => (scanFrom fuel rest).map fun r => (str ++ r.1, r.2)
      else (scanFrom fuel s).map fun r => (c :: r.1, r.2)

/-- The search for the end of the code. -/
def scan (s : Text) : Except Char (Text × Text) := scanFrom (s.length + 1) s

/-- The search behind a string that may be open. -/
def scanAfter (quote : Option Char) (s : Text) : Except Char (Text × Text) :=
  match quote with
  | none => scan s
  | some c =>
      match endstrF (c :: s) with
      | none => .error c
      | some (_, rest) => scan rest

end Search

section Strings

theorem exclamation_not_quote : isQuote '!' = false := rfl

theorem isQuote_ne_mark {q mark : Char} (hmark : isQuote mark = false) (hq : isQuote q = true) :
    q ≠ mark := by
  intro h
  rw [h, hmark] at hq
  cases hq

/-- Behind a doubled quote the string goes on. -/
theorem openAfter_doubled {q : Char} (hq : isQuote q = true) (s : Text) :
    openAfter isQuote (some q) (q :: q :: s) = openAfter isQuote (some q) s := by
  rw [openAfter_cons, openAfter_cons, toggle, if_pos rfl, toggle, if_pos hq]

theorem bare_doubled {q mark : Char} (hmark : isQuote mark = false) (hq : isQuote q = true)
    (s : Text) : bare isQuote mark (some q) (q :: q :: s) = bare isQuote mark (some q) s := by
  rw [bare, bare, toggle, if_pos rfl, toggle, if_pos hq, decide_eq_true (isQuote_ne_mark hmark hq)]
  rfl

/-- Inside a string nothing but its quote matters. -/
theorem openAfter_inside {q c : Char} (hc : c ≠ q) (s : Text) :
    openAfter isQuote (some q) (c :: s) = openAfter isQuote (some q) s := by
  rw [openAfter_cons, toggle, if_neg hc]

theorem bare_inside {q c mark : Char} (hc : c ≠ q) (s : Text) :
    bare isQuote mark (some q) (c :: s) = bare isQuote mark (some q) s := by
  rw [bare, toggle, if_neg hc]
  rfl

/-- The text up to the closing quote. -/
theorem closing_some {q mark : Char} {s s1 s2 : Text} (hmark : isQuote mark = false)
    (hq : isQuote q = true) (h : closing q s = some (s1, s2)) :
    s = s1 ++ s2 ∧ s1 ≠ [] ∧ openAfter isQuote (some q) s1 = none ∧
      bare isQuote mark (some q) s1 = true := by
  have hself : openAfter isQuote (some q) [q] = none := by
    rw [openAfter_cons, toggle, if_pos rfl]
    rfl
  fun_induction closing q s generalizing s1 s2 with
  | case1 => cases h
  | case2 =>
      cases h
      exact ⟨rfl, List.cons_ne_nil _ _, hself, rfl⟩
  | case3 => cases h
  | case4 s ih =>
      rcases Option.map_eq_some_iff.mp h with ⟨⟨a, b⟩, hab, heq⟩
      cases heq
      rcases ih hab with ⟨rfl, _, hopen, hbare⟩
      refine ⟨rfl, List.cons_ne_nil _ _, ?_, ?_⟩
      · rw [openAfter_doubled hq, hopen]
      · rw [bare_doubled hmark hq, hbare]
  | case5 =>
      cases h
      exact ⟨rfl, List.cons_ne_nil _ _, hself, rfl⟩
  | case6 c d s hc ih =>
      rcases Option.map_eq_some_iff.mp h with ⟨⟨a, b⟩, hab, heq⟩
      cases heq
      rcases ih hab with ⟨hs, _, hopen, hbare⟩
      refine ⟨by rw [hs, List.cons_append], List.cons_ne_nil _ _, ?_, ?_⟩
      · rw [openAfter_inside hc, hopen]
      · rw [bare_inside hc, hbare]

/-- A string that is not closed stays open. -/
theorem closing_none {q mark : Char} {s : Text} (hmark : isQuote mark = false)
    (hq : isQuote q = true) (h : closing q s = none) :
    openAfter isQuote (some q) s = some q ∧ bare isQuote mark (some q) s = true := by
  fun_induction closing q s with
  | case1 => exact ⟨rfl, rfl⟩
  | case2 => cases h
  | case3 c hc => exact ⟨openAfter_inside hc [], bare_inside hc []⟩
  | case4 s ih =>
      rw [openAfter_doubled hq, bare_doubled hmark hq]
      exact ih (Option.map_eq_none_iff.mp h)
  | case5 => cases h
  | case6 c d s hc ih =>
      rw [openAfter_inside hc, bare_inside hc]
      exact ih (Option.map_eq_none_iff.mp h)

end Strings

section Found

/-- What the search has found: code that is closed and has no comment, and what starts
    with a `!` if it is anything. -/
def Found (quote : Option Char) (s : Text) : Except Char (Text × Text) → Prop
  | .ok (code, rest) =>
      s = code ++ rest ∧ openAfter isQuote quote code = none ∧ bare isQuote '!' quote code = true ∧
        (rest = [] ∨ rest.head? = some '!')
  | .error c => openAfter isQuote quote s = some c ∧ bare isQuote '!' quote s = true

/-- The rest of a search is reached over code that is closed. -/
theorem found_append {quote : Option Char} {s t : Text} {r : Except Char (Text × Text)}
    (hopen : openAfter isQuote quote s = none) (hbare : bare isQuote '!' quote s = true)
    (h : Found none t r) : Found quote (s ++ t) (r.map fun p => (s ++ p.1, p.2)) := by
  cases r with
  | error c =>
      refine ⟨?_, ?_⟩
      · rw [openAfter_append, hopen, h.1]
      · rw [bare_append, hbare, hopen, h.2]
        rfl
  | ok p =>
      rcases h with ⟨ht, ho, hb, hr⟩
      refine ⟨?_, ?_, ?_, hr⟩
      · rw [ht, List.append_assoc]
      · rw [openAfter_append, hopen, ho]
      · rw [bare_append, hbare, hopen, hb]
        rfl

theorem scan_spec (s : Text) : Found none s (scan s) := by
  have hfrom : ∀ fuel s, s.length < fuel → Found none s (scanFrom fuel s) := by
    intro fuel
    -- A step takes a character or a whole constant, so the length of the line is enough fuel.
    induction fuel with
    | zero =>
        intro s hs
        omega
    | succ fuel ih =>
        intro s hs
        cases s with
        | nil => exact ⟨rfl, rfl, rfl, Or.inl rfl⟩
        | cons c s =>
            rw [List.length_cons] at hs
            rw [scanFrom]
            by_cases hc : c = '!'
            · rw [if_pos hc]
              exact ⟨rfl, rfl, rfl, Or.inr (congrArg some hc)⟩
            by_cases hq : isQuote c = true
            · rw [if_neg hc, if_pos hq, endstrF]
              have htoggle : toggle isQuote none c = some c := by
                rw [toggle, if_pos hq]
              cases hclose : closing c s with
              | none =>
                  rcases closing_none exclamation_not_quote hq hclose with ⟨hopen, hbare⟩
                  refine ⟨?_, ?_⟩
                  · rw [openAfter_cons, htoggle, hopen]
                  · rw [bare, htoggle, hbare, decide_eq_true hc]
                    rfl
              | some p =>
                  rcases closing_some exclamation_not_quote hq hclose with ⟨hs1, hne, hopen, hbare⟩
                  have hlen : p.2.length < fuel := by
                    have hadd := congrArg List.length hs1
                    rw [List.length_append] at hadd
                    omega
                  have hopen' : openAfter isQuote none (c :: p.1) = none := by
                    rw [openAfter_cons, htoggle, hopen]
                  have hbare' : bare isQuote '!' none (c :: p.1) = true := by
                    rw [bare, htoggle, hbare, decide_eq_true hc]
                    rfl
                  have hrest := found_append hopen' hbare' (ih p.2 hlen)
                  rw [List.cons_append, ← hs1] at hrest
                  exact hrest
            · have htoggle : toggle isQuote none c = none := by
                rw [toggle, if_neg hq]
              rw [if_neg hc, if_neg hq]
              refine found_append (s := [c]) ?_ ?_ (ih s (by omega))
              · rw [openAfter_cons, htoggle]
                rfl
              · rw [bare, htoggle, bare, decide_eq_true hc]
                rfl
  exact hfrom _ s (Nat.lt_succ_self _)

/-- The search behind a string that is open. -/
theorem scanAfter_spec {quote : Option Char} (hq : ∀ c, quote = some c → isQuote c = true)
    (s : Text) : (∃ s1 s2, s = s1 ++ s2 ∧ openAfter isQuote quote s1 = none ∧
      bare isQuote '!' quote s1 = true ∧ Found none s2 (scanAfter quote s)) ∨
        Found quote s (scanAfter quote s) := by
  cases quote with
  | none => exact Or.inr (scan_spec s)
  | some c =>
      rw [scanAfter, endstrF]
      cases hclose : closing c s with
      | none => exact Or.inr (closing_none exclamation_not_quote (hq c rfl) hclose)
      | some p =>
          rcases closing_some exclamation_not_quote (hq c rfl) hclose with ⟨hs, _, hopen, hbare⟩
          exact Or.inl ⟨p.1, p.2, hs, hopen, hbare, scan_spec p.2⟩

/-- What is found is all there is to find. -/
theorem found_closed {quote : Option Char} {s : Text} {r : Except Char (Text × Text)}
    (h : Found quote s r) (hopen : openAfter isQuote quote s = none)
    (hbare : bare isQuote '!' quote s = true) : r = .ok (s, []) := by
  cases r with
  | error c =>
      rw [Found, hopen] at h
      cases h.1
  | ok p =>
      rcases p with ⟨code, rest⟩
      rcases h with ⟨rfl, ho, _, hr⟩
      cases rest with
      | nil => rw [List.append_nil]
      | cons d rest =>
          rw [List.head?_cons, Option.some.injEq] at hr
          rcases hr with hr | rfl
          · cases hr
          · rw [bare_append, ho, bare] at hbare
            simp at hbare

/-- A string that is open in the end is found to be. -/
theorem found_open {quote : Option Char} {s : Text} {c : Char} {r : Except Char (Text × Text)}
    (h : Found quote s r) (hopen : openAfter isQuote quote s = some c)
    (hbare : bare isQuote '!' quote s = true) : r = .error c := by
  cases r with
  | error d =>
      rw [Found, hopen] at h
      rw [Option.some.inj h.1]
  | ok p =>
      rcases p with ⟨code, rest⟩
      rcases h with ⟨rfl, ho, _, hr⟩
      cases rest with
      | nil =>
          rw [List.append_nil, ho] at hopen
          cases hopen
      | cons d rest =>
          rw [List.head?_cons, Option.some.injEq] at hr
          rcases hr with hr | rfl
          · cases hr
          · rw [bare_append, ho, bare] at hbare
            simp at hbare

/-- The code in front of a comment. -/
theorem scan_comment {code : Text} (rest : Text) (hopen : openAfter isQuote none code = none)
    (hbare : bare isQuote '!' none code = true) :
      scan (code ++ '!' :: rest) = .ok (code, '!' :: rest) := by
  have h := scan_spec (code ++ '!' :: rest)
  cases hr : scan (code ++ '!' :: rest) with
  | error c =>
      rw [hr] at h
      have hno := h.2
      rw [bare_append, hopen, bare] at hno
      simp at hno
  | ok p =>
      rcases p with ⟨a, b⟩
      rw [hr] at h
      rcases h with ⟨hs, ho, hb, hhead⟩
      cases b with
      | nil =>
          -- all of the text would be code without a comment
          rw [List.append_nil] at hs
          rw [← hs, bare_append, hopen, bare] at hb
          simp at hb
      | cons d t =>
          rw [List.head?_cons, Option.some.injEq] at hhead
          rcases hhead with hhead | rfl
          · cases hhead
          · rcases eq_of_bare hopen hbare ho hb hs with ⟨rfl, rfl⟩
            rfl

/-- The search behind a string, in a text without a comment that is closed. -/
theorem scanAfter_closed {quote : Option Char} {s : Text}
    (hq : ∀ c, quote = some c → isQuote c = true) (hopen : openAfter isQuote quote s = none)
    (hbare : bare isQuote '!' quote s = true) : ∃ code, scanAfter quote s = .ok (code, []) := by
  rcases scanAfter_spec hq s with ⟨s1, s2, rfl, ho, hb, h⟩ | h
  · rw [openAfter_append, ho] at hopen
    rw [bare_append, ho, hb, Bool.true_and] at hbare
    exact ⟨s2, found_closed h hopen hbare⟩
  · exact ⟨s, found_closed h hopen hbare⟩

/-- The search in one that is not. -/
theorem scanAfter_open {quote : Option Char} {s : Text} {c : Char}
    (hq : ∀ c, quote = some c → isQuote c = true) (hopen : openAfter isQuote quote s = some c)
    (hbare : bare isQuote '!' quote s = true) : scanAfter quote s = .error c := by
  rcases scanAfter_spec hq s with ⟨s1, s2, rfl, ho, hb, h⟩ | h
  · rw [openAfter_append, ho] at hopen
    rw [bare_append, ho, hb, Bool.true_and] at hbare
    exact found_open h hopen hbare
  · exact found_open h hopen hbare

end Found

end XevXml.Tools
