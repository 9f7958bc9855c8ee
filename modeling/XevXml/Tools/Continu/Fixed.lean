import XevXml.Tools.Continu.Free

/-!
# Directives in Fixed Form

A directive that is broken in fixed form has its first five columns and a `&` in front
of every piece but the first. Nothing stands behind a piece but the end of its line,
which `concat` takes away again before it puts the next piece into the buffer. It goes
back over the characters that end a line and over the marks of a comment, whichever of
them it finds. So a `!` in a string that stands in front of a break is taken away too.

A line that is marked in its sixth column is joined to the one before, unless its first
word is one of the configured names: such a line is a directive of its own. The same is
done with the pieces of a directive that is broken.

## Main definitions

* `special`: The characters that are taken away.
* `IsDirectiveFixed`, `BreaksKept`: The directives that are broken and joined again.
* `Broken`, `Closed`: The buffer in front of a piece, and behind a directive.

## Theorems

* `broken_piece`, `closed_piece`, `closed_pieces`: The lines of a directive.
* `between_directive`: A directive.
* `concat_distribute_fixed`: The files that are kept.
-/

namespace XevXml.Tools

open Quoting

section Retreat

/-- The characters that are taken away in front of a piece. -/
def special (c : Char) : Bool := lineEnd c || c == '!'

theorem retreat_succ (line1 : Text) (qq : Nat) :
    retreat line1 (qq + 1) =
      if (line1.drop (qq + 1)).head?.all special then retreat line1 qq else qq + 2 := rfl

/-- The buffer is kept up to the last character that is not taken away. -/
theorem retreat_eq {X E : Text} {x : Char} (hX : X.getLast? = some x) (hx : special x = false)
    (hE : ∀ c ∈ E, special c = true) {qq : Nat} (hqq : X.length ≤ qq + 1) :
    retreat (X ++ E) qq = X.length := by
  have hpos : 0 < X.length := by
    cases X with
    | nil => cases hX
    | cons c X => exact Nat.succ_pos _
  induction qq with
  | zero =>
      rw [retreat]
      omega
  | succ qq ih =>
      rw [retreat_succ]
      by_cases hle : X.length ≤ qq + 1
      · have hspecial : ((X ++ E).drop (qq + 1)).head?.all special = true := by
          rw [List.drop_append, List.drop_of_length_le hle, List.nil_append]
          cases hd : E.drop (qq + 1 - X.length) with
          | nil => rfl
          | cons c s =>
              have hmem : c ∈ E.drop (qq + 1 - X.length) := by
                rw [hd]
                exact List.mem_cons_self
              exact hE c (List.mem_of_mem_drop hmem)
        rw [if_pos hspecial]
        exact ih hle
      · have hlast : ((X ++ E).drop (qq + 1)).head? = some x := by
          rw [List.head?_drop, List.getElem?_append_left (by omega), ← hX,
            List.getLast?_eq_getElem?]
          congr 1
          omega
        rw [hlast, Option.all_some, hx, if_neg (by decide)]
        omega

end Retreat

section Continue

/-- The end of a line behind its sixth column. -/
theorem rdropWhile_lead {lead : Text} (y : Text) (hlead : lead.length = 6)
    (hend : lead.rdropWhile lineEnd = lead) :
    ((lead ++ y).rdropWhile lineEnd).drop 6 = y.rdropWhile lineEnd ∧
      ((lead ++ y).rdropWhile lineEnd).length = 6 + (y.rdropWhile lineEnd).length := by
  rw [Trim.rdropWhile_append]
  by_cases h : y.rdropWhile lineEnd = []
  · rw [if_pos h, hend, h, List.drop_of_length_le (by omega), hlead]
    exact ⟨rfl, rfl⟩
  · rw [if_neg h, List.drop_left' hlead, List.length_append, hlead]
    exact ⟨rfl, rfl⟩

/-- The buffer in front of a piece: the text `X` and the end of a line. The text in front
    of the directive is `W`, and the quote that is open is `q`. -/
structure Broken (s : Joining) (W X : Text) (q : Option Char) : Prop where
  written : s.written = W
  line1 : ∃ E, (∀ c ∈ E, lineEnd c = true) ∧ s.line1 = X ++ E
  last : ∃ x, X.getLast? = some x ∧ special x = false
  qq : X.length ≤ s.qq + 1
  cls : s.cls = []
  prep : s.prep = none
  precon : s.precon = q.isSome
  schar : ∀ c, q = some c → s.schar = some c ∧ isQuote c = true

/-- The buffer behind a directive. -/
structure Closed (s : Joining) (W X : Text) : Prop where
  written : s.written = W
  line1 : s.line1 = X
  qq : s.qq = X.length
  cls : s.cls = []
  prep : s.prep = none
  precon : s.precon = false

variable {s : Joining} {names : List PragmaName} {W X lead y : Text} {q : Option Char}

theorem special_of_lineEnd {c : Char} (h : lineEnd c = true) : special c = true := by
  rw [special, h, Bool.true_or]

/-- The text stays and the end of the line does not. -/
theorem keptText_of_broken (h : Broken s W X q) :
    s.line1 ≠ [] ∧ retreat s.line1 s.qq = X.length ∧ s.line1.take X.length = X ∧
      (s.line1.drop X.length).head? ≠ some '!' := by
  rcases h.line1 with ⟨E, hE, hline⟩
  rcases h.last with ⟨x, hx, hspecial⟩
  have hretreat := retreat_eq hx hspecial (fun c hc => special_of_lineEnd (hE c hc)) h.qq
  refine ⟨?_, ?_, ?_, ?_⟩
  · intro hnil
    rw [hline, List.append_eq_nil_iff] at hnil
    rw [hnil.1] at hx
    cases hx
  · rw [hline, hretreat]
  · rw [hline, List.take_left]
  · rw [hline, List.drop_left]
    intro hhead
    cases E with
    | nil => cases hhead
    | cons c E =>
        rw [List.head?_cons, Option.some.injEq] at hhead
        have hc := hE c List.mem_cons_self
        rw [hhead] at hc
        exact absurd hc (by decide)

/-- A piece that is put behind the text. -/
theorem putFixed_broken (h : Broken s W X q) (hlead : lead.length = 6) (n : Nat) :
    putFixed s true (lead ++ y) (6 + n) =
      .ok { s with line1 := X ++ y, qq := X.length + n, first := false } := by
  rcases keptText_of_broken h with ⟨hne, hretreat, htake, hquiet⟩
  have hdrop : (lead ++ y).drop 6 = y := List.drop_left' hlead
  have hqq : 6 + n - 6 = n := Nat.add_sub_cancel_left _ _
  rw [putFixed, if_pos rfl, if_neg hne]
  simp only [hretreat, if_neg hquiet, hdrop, hqq]
  rw [← htake]
  simp only [bind, Except.bind, Joining.strcpy, htake]

theorem inScope_dir_fixed (line : Text) : inScope .fixed .dir line = isDir .fixed line := by
  rw [inScope, Scope.dirs, Scope.forts, Bool.and_true, Bool.and_false, Bool.or_false]

/-- A piece is marked as a continuation. -/
theorem continues_piece {sent : Text} (hsent : sent.length = 5)
    (hdir : isDir .fixed (sent ++ '&' :: y) = true) :
    continues .dir names (sent ++ '&' :: y) = !nocon names (sent ++ '&' :: y) := by
  have hdrop : (sent ++ '&' :: y).drop 5 = '&' :: y := List.drop_left' hsent
  have hamp : (!blank '&') = true := by decide
  simp only [continues, hdrop, hdir, List.head?_cons, Option.any_some, hamp, Scope.dirs,
    Scope.forts,
    Bool.not_true, Bool.false_and, Bool.false_eq_true, if_false, Bool.and_true, Bool.true_and]

/-- The six columns in front of a piece, in which the quote may have taken the place of
    the mark. -/
theorem length_mark {sent : Text} (hsent : sent.length = 5) {c : Char} (hc : lineEnd c = false) :
    (sent ++ [c]).length = 6 ∧ (sent ++ [c]).rdropWhile lineEnd = sent ++ [c] ∧
      sent ++ c :: y = sent ++ [c] ++ y := by
  refine ⟨?_, ?_, ?_⟩
  · rw [List.length_append, hsent]
    rfl
  · exact List.rdropWhile_concat_neg _ _ _ (by rw [hc]; decide)
  · rw [List.append_assoc]
    rfl

/-- What is done with a piece: the search goes on behind the string that is open, or all of
    the piece stands in that string. -/
theorem concatFixed_piece {sent : Text} (hsent : sent.length = 5)
    (hdir : isDir .fixed (sent ++ '&' :: y) = true) (h : Broken s W X q)
    (hbare : bare isQuote '!' q y = true)
    (hnocon : q = none → nocon names (sent ++ '&' :: y) = false) :
    (∃ lead r, lead.length = 6 ∧ lead.rdropWhile lineEnd = lead ∧
      concatFixed .dir names s (sent ++ '&' :: y) = finishFixed s true (lead ++ y) r ∧
      (∀ c, openAfter isQuote q y = some c → r = .error c) ∧
      (openAfter isQuote q y = none → ∃ code, r = .ok (code, []))) ∨
    q.isSome = true ∧ openAfter isQuote q y = q ∧
      concatFixed .dir names s (sent ++ '&' :: y) = .ok { s with
        line1 := X ++ y.rdropWhile lineEnd
        qq := X.length + (y.rdropWhile lineEnd).length - 1 } := by
  have hscope : inScope .fixed .dir (sent ++ '&' :: y) = true := by
    rw [inScope_dir_fixed, hdir]
  have hnot : ¬ (true = false) := by decide
  have hlong : ¬ (sent ++ '&' :: y).length < 6 := by
    rw [List.length_append, hsent, List.length_cons]
    omega
  have hpre := h.precon
  -- Inside a constant the quotation mark stands in for the mark in column six, and is read anew.
  cases q with
  | none =>
      rcases length_mark (y := y) hsent (show lineEnd '&' = false by decide) with
        ⟨hlead, hend, hsplit⟩
      have hdrop : (sent ++ '&' :: y).drop 6 = y := by
        rw [hsplit]
        exact List.drop_left' hlead
      refine Or.inl ⟨sent ++ ['&'], scan y, hlead, hend, ?_, ?_, ?_⟩
      · rw [Option.isSome_none] at hpre
        rw [concatFixed, hscope, if_neg hnot, hpre, if_neg Bool.false_ne_true, if_neg hlong,
          continues_piece hsent hdir, hnocon rfl, hdrop, ← hsplit]
        rfl
      · intro c hc
        exact found_open (scan_spec y) hc hbare
      · intro hc
        exact ⟨y, found_closed (scan_spec y) hc hbare⟩
  | some c =>
      rcases h.schar c rfl with ⟨hschar, hquote⟩
      have hline : lineEnd c = false := by
        by_contra he
        rw [Bool.not_eq_false] at he
        rw [lineEnd_not_quote he] at hquote
        cases hquote
      rcases length_mark (y := y) hsent hline with ⟨hlead, hend, hsplit⟩
      have hset : (sent ++ '&' :: y).set 5 c = sent ++ c :: y := by
        rw [List.set_append_right _ _ (by omega), hsent]
        rfl
      have hdrop : (sent ++ c :: y).drop 5 = c :: y := List.drop_left' hsent
      have hsixth : ((sent ++ '&' :: y).drop 5).head? = some '&' := by
        rw [List.drop_left' hsent]
        rfl
      have hcheck : ((sent ++ '&' :: y).length < 6 ||
          ((sent ++ '&' :: y).drop 5).head? == some ' ') = false := by
        rw [decide_eq_false hlong, hsixth]
        rfl
      rw [Option.isSome_some] at hpre
      rw [concatFixed, hscope, if_neg hnot, hpre, if_pos rfl, hcheck, if_neg Bool.false_ne_true,
        hschar]
      simp only [hset, hdrop, endstrF]
      -- The constant ends in this piece, or all of the piece belongs to it.
      cases hclose : closing c y with
      | none =>
          rcases closing_none exclamation_not_quote hquote hclose with ⟨hopen, _⟩
          rcases keptText_of_broken h with ⟨_, hretreat, htake, _⟩
          rcases rdropWhile_lead y hlead hend with ⟨hrest, hlen⟩
          refine Or.inr ⟨rfl, hopen, ?_⟩
          rw [hsplit, hrest, hlen, hretreat, htake, ← Nat.add_assoc, Nat.add_right_comm,
            Nat.add_sub_add_right _ 6 1, ← hpre, ← hschar]
          rfl
      | some p =>
          rcases closing_some exclamation_not_quote hquote hclose with ⟨hy, _, hopen, _⟩
          have hopen' : openAfter isQuote (some c) y = openAfter isQuote none p.2 := by
            rw [hy, openAfter_append, hopen]
          have hbare' : bare isQuote '!' none p.2 = true := by
            rw [hy, bare_append, hopen, Bool.and_eq_true] at hbare
            exact hbare.2
          refine Or.inl ⟨sent ++ [c], scan p.2, hlead, hend, ?_, ?_, ?_⟩
          · rw [hsplit]
            rfl
          · intro d hd
            rw [hopen'] at hd
            exact found_open (scan_spec p.2) hd hbare'
          · intro hd
            rw [hopen'] at hd
            exact ⟨p.2, found_closed (scan_spec p.2) hd hbare'⟩

/-- The end of a line opens and closes no string. -/
theorem openAfter_newline (hq : ∀ c, q = some c → isQuote c = true) (t : Text) :
    openAfter isQuote q (t ++ ['\n']) = openAfter isQuote q t := by
  rw [openAfter_append]
  cases hopen : openAfter isQuote q t with
  | none => rfl
  | some c =>
      refine openAfter_inside (fun he => ?_) []
      have hc := isQuote_of_openAfter hq hopen
      rw [← he] at hc
      exact absurd hc (by decide)

theorem rdropWhile_of_last {p : Char → Bool} {t : Text} {x : Char} (hlast : t.getLast? = some x)
    (hx : p x = false) : t.rdropWhile p = t := by
  rcases List.eq_nil_or_concat t with rfl | ⟨t, d, rfl⟩
  · rfl
  · rw [List.concat_eq_append, List.getLast?_concat, Option.some.injEq] at hlast
    rw [List.concat_eq_append, List.rdropWhile_concat_neg _ _ _ (by rw [hlast, hx]; decide)]

/-- A piece that is not the last one. -/
theorem broken_piece {sent chunk : Text} {x : Char} (hsent : sent.length = 5)
    (hdir : isDir .fixed (sent ++ '&' :: (chunk ++ ['\n'])) = true) (h : Broken s W X q)
    (hbare : bare isQuote '!' q chunk = true)
    (hnocon : q = none → nocon names (sent ++ '&' :: (chunk ++ ['\n'])) = false)
    (hlast : chunk.getLast? = some x) (hspecial : special x = false) :
    ∃ s', concatFixed .dir names s (sent ++ '&' :: (chunk ++ ['\n'])) = .ok s' ∧
      Broken s' W (X ++ chunk) (openAfter isQuote q chunk) := by
  have hopen := openAfter_newline (fun c hc => (h.schar c hc).2) chunk
  have hbare' : bare isQuote '!' q (chunk ++ ['\n']) = true := by
    rw [bare_append, hbare, Bool.true_and, bare, bare, Bool.and_true]
    exact Bool.or_true _
  have hx : lineEnd x = false := by
    rw [special, Bool.or_eq_false_iff] at hspecial
    exact hspecial.1
  have hstrip : (chunk ++ ['\n']).rdropWhile lineEnd = chunk := by
    rw [List.rdropWhile_concat_pos _ _ _ (by decide)]
    exact rdropWhile_of_last hlast hx
  have hlast' : ∃ x, (X ++ chunk).getLast? = some x ∧ special x = false := by
    refine ⟨x, ?_, hspecial⟩
    rw [List.getLast?_append, hlast]
    rfl
  have hquote : ∀ c, openAfter isQuote q chunk = some c → isQuote c = true := by
    intro c hc
    exact isQuote_of_openAfter (fun d hd => (h.schar d hd).2) hc
  -- The scan either comes to the end of the piece or never leaves the constant.
  rcases concatFixed_piece hsent hdir h hbare' hnocon with
    ⟨lead, r, hlead, hend, hstep, herror, hok⟩ | ⟨hsome, hsame, hstep⟩
  · have hlen := (rdropWhile_lead (chunk ++ ['\n']) hlead hend).2
    rw [hopen] at herror hok
    cases hq : openAfter isQuote q chunk with
    | none =>
        rcases hok hq with ⟨code, rfl⟩
        have hall : (lead ++ (chunk ++ ['\n'])).length - ([] : Text).length =
            6 + (chunk ++ ['\n']).length := by
          rw [List.length_append, hlead, List.length_nil, Nat.sub_zero]
        rw [hstep, finishFixed, hall, putFixed_broken h hlead]
        refine ⟨_, rfl, ?_⟩
        constructor
        case written => exact h.written
        case line1 => exact ⟨['\n'], by decide, (List.append_assoc _ _ _).symm⟩
        case last => exact hlast'
        case qq =>
          simp only [List.length_append]
          omega
        case cls => exact h.cls
        case prep => exact h.prep
        case precon => rfl
        case schar =>
          intro c hc
          cases hc
    | some c =>
        rw [herror c hq, finishFixed, hlen, putFixed_broken h hlead] at hstep
        refine ⟨_, hstep, ?_⟩
        constructor
        case written => exact h.written
        case line1 => exact ⟨['\n'], by decide, (List.append_assoc _ _ _).symm⟩
        case last => exact hlast'
        case qq =>
          simp only [hstrip, List.length_append]
          omega
        case cls => exact h.cls
        case prep => exact h.prep
        case precon => rfl
        case schar =>
          intro d hd
          cases hd
          exact ⟨rfl, hquote c hq⟩
  · refine ⟨_, hstep, ?_⟩
    rw [hopen] at hsame
    rw [hstrip, hsame]
    constructor
    case written => exact h.written
    case line1 => exact ⟨[], by decide, (List.append_nil _).symm⟩
    case last => exact hlast'
    case qq =>
      simp only [List.length_append]
      omega
    case cls => exact h.cls
    case prep => exact h.prep
    case precon => exact h.precon
    case schar => exact h.schar

/-- The last piece. -/
theorem closed_piece {sent : Text} (hsent : sent.length = 5)
    (hdir : isDir .fixed (sent ++ '&' :: y) = true) (h : Broken s W X q)
    (hbare : bare isQuote '!' q y = true) (hopen : openAfter isQuote q y = none)
    (hnocon : q = none → nocon names (sent ++ '&' :: y) = false) :
    ∃ s', concatFixed .dir names s (sent ++ '&' :: y) = .ok s' ∧ Closed s' W (X ++ y) := by
  rcases concatFixed_piece hsent hdir h hbare hnocon with
    ⟨lead, r, hlead, hend, hstep, _, hok⟩ | ⟨hsome, hsame, _⟩
  · rcases hok hopen with ⟨code, rfl⟩
    have hall : (lead ++ y).length - ([] : Text).length = 6 + y.length := by
      rw [List.length_append, hlead, List.length_nil, Nat.sub_zero]
    rw [hstep, finishFixed, hall, putFixed_broken h hlead]
    exact ⟨_, rfl, h.written, rfl, (List.length_append).symm, h.cls, h.prep, rfl⟩
  · rw [← hsame, hopen] at hsome
    cases hsome

end Continue

section Pieces

/-- Blanks behind a line change nothing about its first word. -/
theorem nocon_append (names : List PragmaName) {t b : Text} (ht : t ≠ [])
    (hb : ∀ c ∈ b, blank c = true) :
    nocon names (t ++ b) = nocon names t := by
  unfold nocon
  cases t with
  | nil => exact absurd rfl ht
  | cons c t =>
      rw [List.cons_append, List.head?_cons, List.head?_cons]
      by_cases hc : c = '!'
      · have hword : firstWord (c :: (t ++ b)) = firstWord (c :: t) := by
          rw [firstWord, firstWord, hc, List.dropWhile_cons_of_neg (by decide),
            List.dropWhile_cons_of_neg (by decide), ← List.cons_append, List.takeWhile_append]
          have hnil : (b.takeWhile fun c => !blank c) = [] := by
            cases b with
            | nil => rfl
            | cons d b =>
                refine List.takeWhile_cons_of_neg ?_
                rw [hb d List.mem_cons_self]
                decide
          by_cases hall : (List.takeWhile (fun c => !blank c) ('!' :: t)).length = ('!' :: t).length
          · rw [if_pos hall, hnil, List.append_nil]
            exact ((List.takeWhile_prefix _).eq_of_length hall).symm
          · rw [if_neg hall]
        rw [xevparse_pragma_line, xevparse_pragma_line, hword]
      · have hne : (some c == some '!') = false := by
          rw [Option.some_beq_some]
          exact beq_eq_false_iff_ne.mpr hc
        rw [hne]
        rfl

theorem blank_of_lineEnd {c : Char} (h : lineEnd c = true) : blank c = true := by
  rw [lineEnd, Bool.or_eq_true, beq_iff_eq, beq_iff_eq] at h
  rcases h with rfl | rfl
  · decide
  · decide

/-- The breaks behind a first one: `q` is the quote that is open there, and `n` characters
    of the text count. None stands behind a character that is taken away, and no piece is
    a directive of its own unless a string is open in front of it. -/
structure PiecesKept (names : List PragmaName) (sent : Text) (n : Nat) (q : Option Char)
    (p : Text) : Prop where
  mark : ∀ k, 66 * k + 66 < n → ∀ c, p[66 * k + 65]? = some c → special c = false
  word : ∀ k, 66 * k < n → openAfter isQuote q (p.take (66 * k)) = none →
    nocon names (sent ++ '&' :: (p.drop (66 * k)).take 66) = false

variable {names : List PragmaName} {sent p W X : Text} {q : Option Char} {n : Nat} {s : Joining}

/-- The breaks behind the next one. -/
theorem piecesKept_drop (h : PiecesKept names sent n q p) :
    PiecesKept names sent (n - 66) (openAfter isQuote q (p.take 66)) (p.drop 66) := by
  constructor
  case mark =>
    intro k hk c hc
    refine h.mark (k + 1) (by omega) c ?_
    rw [List.getElem?_drop] at hc
    rw [← hc]
    congr 1
    omega
  case word =>
    intro k hk hopen
    have hword := h.word (k + 1) (by omega)
    have hmul : 66 * (k + 1) = 66 + 66 * k := by omega
    rw [hmul, List.take_add, openAfter_append, ← List.drop_drop] at hword
    exact hword hopen

/-- All lines of a directive but the first. -/
theorem closed_pieces (hsent : sent.length = 5) (hdir : ∀ t, isDir .fixed (sent ++ t) = true)
    (fuel : Nat) (h : Broken s W X q) (hfuel : n ≤ fuel) (hpos : 0 < n) (hle : n ≤ p.length)
    (hend : (p.rdropWhile lineEnd).length ≤ n) (hbare : bare isQuote '!' q p = true)
    (hopen : openAfter isQuote q p = none) (hkept : PiecesKept names sent n q p) :
    ∃ s', (continued (sent ++ ['&']) [] 66 66 fuel n p).foldlM (concatFixed .dir names) s = .ok s' ∧
      Closed s' W (X ++ p) := by
  induction fuel generalizing s X n p q with
  | zero => omega
  | succ fuel ih =>
      have hquote : ∀ c, q = some c → isQuote c = true := fun c hc => (h.schar c hc).2
      have hnocon : q = none → nocon names (sent ++ '&' :: p.take 66) = false := by
        intro hq
        have hword := hkept.word 0 (by omega)
        rw [Nat.mul_zero, List.take_zero, List.drop_zero] at hword
        exact hword hq
      rw [continued]
      by_cases hlt : 66 < n
      · rw [if_pos hlt]
        have hsplit := List.take_append_drop 66 p
        have hbare' := hbare
        have hopen' := hopen
        rw [← hsplit, bare_append, Bool.and_eq_true] at hbare'
        rw [← hsplit, openAfter_append] at hopen'
        have hlast : (p.take 66).getLast? = some p[65] := by
          rw [List.getLast?_eq_getElem?, List.length_take, Nat.min_eq_left (by omega),
            List.getElem?_take_of_lt (by omega), List.getElem?_eq_getElem (by omega)]
        have hspecial := hkept.mark 0 hlt p[65] (List.getElem?_eq_getElem (by omega))
        have hnocon' : q = none → nocon names (sent ++ '&' :: (p.take 66 ++ ['\n'])) = false := by
          intro hq
          have hassoc : sent ++ '&' :: (p.take 66 ++ ['\n']) = sent ++ '&' :: p.take 66 ++
            ['\n'] := by
            rw [List.append_assoc, List.cons_append]
          rw [hassoc, nocon_append names (by simp) (by decide)]
          exact hnocon hq
        rcases broken_piece hsent (hdir _) h hbare'.1 hnocon' hlast hspecial with ⟨s1, hs1, h1⟩
        have hdrop := length_rdropWhile_drop p 66
        rcases ih (n := n - 66) h1 (by omega) (by omega) (by rw [List.length_drop]; omega)
          (by omega)
          hbare'.2 hopen' (piecesKept_drop hkept) with ⟨s', hs', hclosed⟩
        refine ⟨s', ?_, ?_⟩
        · have hline : sent ++ ['&'] ++ p.take 66 ++ [] ++ ['\n'] =
              sent ++ '&' :: (p.take 66 ++ ['\n']) := by
            rw [List.append_nil, List.append_assoc, List.append_assoc]
            rfl
          rw [List.foldlM_cons, hline, hs1]
          exact hs'
        · rw [List.append_assoc, hsplit] at hclosed
          exact hclosed
      · rw [if_neg hlt]
        -- what stands behind the last columns is the end of the line
        have hnocon' : q = none → nocon names (sent ++ '&' :: p) = false := by
          intro hq
          have hassoc : sent ++ '&' :: p = sent ++ '&' :: p.take 66 ++ p.drop 66 := by
            rw [List.append_assoc, List.cons_append, List.take_append_drop]
          rw [hassoc, nocon_append names (by simp)
            fun c hc => blank_of_lineEnd (lineEnd_of_drop (by omega) c hc)]
          exact hnocon hq
        rcases closed_piece hsent (hdir _) h hbare hopen hnocon' with ⟨s', hs', hclosed⟩
        refine ⟨s', ?_, hclosed⟩
        rw [List.foldlM_cons, List.append_assoc]
        exact (congrArg (· >>= fun s => [].foldlM (concatFixed .dir names) s) hs').trans rfl

end Pieces

section Directives

/-- The directives that are broken and joined: there is a sixth column, every string is
    closed, and there is no comment. -/
structure IsDirectiveFixed (line : Text) : Prop where
  dir : isDir .fixed line = true
  long : 6 ≤ line.length
  closed : openAfter isQuote none (line.drop 6) = none
  bare : bare isQuote '!' none (line.drop 6) = true

/-- What a directive must be to stay: it does not continue the line before, and if it is
    broken, no break stands behind a character that is taken away, and no piece is a
    directive of its own. -/
structure BreaksKept (names : List PragmaName) (line : Text) : Prop where
  start : continues .dir names (line.take 72) = false
  mark : ∀ k, 72 + 66 * k < (line.rdropWhile lineEnd).length →
    ∀ c, (line)[71 + 66 * k]? = some c → special c = false
  word : ∀ k, 72 + 66 * k < (line.rdropWhile lineEnd).length →
    openAfter isQuote none ((line.drop 6).take (66 + 66 * k)) = none →
    nocon names (line.take 5 ++ '&' :: (line.drop (72 + 66 * k)).take 66) = false

/-- Between two directives the text `T` has been collected. -/
structure Between (s : Joining) (T : Text) : Prop where
  text : s.written ++ s.line1 ++ s.cls = T
  qq : s.qq = s.line1.length
  prep : s.prep = none
  precon : s.precon = false

variable {names : List PragmaName} {line T : Text} {s : Joining}

theorem flush_between (h : Between s T) :
    s.flush.written = T ∧ s.flush.line1 = [] ∧ s.flush.cls = [] ∧ s.flush.prep = none := by
  refine ⟨?_, rfl, rfl, rfl⟩
  rw [Joining.flush, h.prep, h.qq]
  simp only [Option.getD_none, List.append_nil]
  rw [← h.text]
  by_cases hline : s.line1.length = 0
  · rw [if_pos hline, List.length_eq_zero_iff.mp hline]
  · rw [if_neg hline]

theorem between_closed {W X : Text} (h : Closed s W X) : Between s (W ++ X) := by
  refine ⟨?_, ?_, h.prep, h.precon⟩
  · rw [h.written, h.line1, h.cls, List.append_nil]
  · rw [h.qq, h.line1]

/-- The columns that tell a directive from other lines. -/
theorem isDir_take {line : Text} (hline : 5 ≤ line.length) (t : Text) :
    isDir .fixed (line.take 5 ++ t) = isDir .fixed line := by
  cases line with
  | nil => cases hline
  | cons c line =>
      cases line with
      | nil =>
          rw [List.length_singleton] at hline
          omega
      | cons d line => rfl

/-- Blanks behind the sixth column change nothing about what a line continues. -/
theorem continues_append (names : List PragmaName) {t b : Text} (ht : 6 ≤ t.length)
    (hb : ∀ c ∈ b, blank c = true) : continues .dir names (t ++ b) = continues .dir names t := by
  have hne : t ≠ [] := List.ne_nil_of_length_pos (by omega)
  have hdir : isDir .fixed (t.take 5 ++ (t.drop 5 ++ b)) = isDir .fixed t := isDir_take (by omega) _
  rw [← List.append_assoc, List.take_append_drop] at hdir
  have hsixth : ((t ++ b).drop 5).head? = (t.drop 5).head? := by
    rw [List.head?_drop, List.head?_drop, List.getElem?_append_left (by omega)]
  simp only [continues, nocon_append names hne hb, hdir, hsixth, Scope.forts, Bool.and_false,
    Bool.false_and, Bool.false_eq_true, if_false]

/-- A first line: it is put into the empty buffer. -/
theorem concatFixed_first {l : Text} (h : Between s T) (hdir : isDir .fixed l = true)
    (hlong : 6 ≤ l.length) (hstart : continues .dir names l = false) :
    concatFixed .dir names s l = finishFixed s false l (scan (l.drop 6)) ∧
      ∀ n, putFixed s false l n = .ok { s.flush with line1 := l, qq := n, first := true } := by
  have hscope : inScope .fixed .dir l = true := by
    rw [inScope_dir_fixed, hdir]
  have hnot : ¬ (true = false) := by decide
  constructor
  · rw [concatFixed, hscope, if_neg hnot, h.precon, if_neg Bool.false_ne_true,
      if_neg (Nat.not_lt.mpr hlong), hstart]
  · intro n
    rw [putFixed, if_neg Bool.false_ne_true, Joining.strcpy]
    congr 1
    simp only [Joining.flush, List.take_zero, List.nil_append, Nat.zero_add]

/-- A directive that is not broken. -/
theorem closed_whole (hline : IsDirectiveFixed line) (h : Between s T)
    (hstart : continues .dir names line = false) :
    ∃ s', concatFixed .dir names s line = .ok s' ∧ Closed s' T line := by
  rcases concatFixed_first h hline.dir hline.long hstart with ⟨hstep, hput⟩
  rcases flush_between h with ⟨hw, _, hcls, hprep⟩
  rw [hstep, found_closed (scan_spec _) hline.closed hline.bare, finishFixed, hput]
  exact ⟨_, rfl, hw, rfl, rfl, hcls, hprep, rfl⟩

/-- The first line of one that is. -/
theorem broken_first {x : Char} (hline : IsDirectiveFixed line) (h : Between s T)
    (hstart : continues .dir names (line.take 72) = false) (hx : (line)[71]? = some x)
    (hspecial : special x = false) :
    ∃ s', concatFixed .dir names s (line.take 72 ++ ['\n']) = .ok s' ∧
      Broken s' T (line.take 72) (openAfter isQuote none ((line.drop 6).take 66)) := by
  have hlong : 72 ≤ line.length := by
    by_contra hlt
    rw [List.getElem?_eq_none (by omega)] at hx
    cases hx
  have hlen : (line.take 72).length = 72 := by
    rw [List.length_take, Nat.min_eq_left hlong]
  have hdir : isDir .fixed (line.take 72 ++ ['\n']) = true := by
    have htake : line.take 72 = line.take 5 ++ (line.drop 5).take 67 :=
      List.take_add (i := 5) (j := 67)
    rw [htake, List.append_assoc, isDir_take (by omega), hline.dir]
  have hlong' : 6 ≤ (line.take 72 ++ ['\n']).length := by
    rw [List.length_append, hlen]
    omega
  rw [← continues_append names (b := ['\n']) (by omega) (by decide)] at hstart
  rcases concatFixed_first h hdir hlong' hstart with ⟨hstep, hput⟩
  rcases flush_between h with ⟨hw, _, hcls, hprep⟩
  have hdrop : (line.take 72 ++ ['\n']).drop 6 = (line.drop 6).take 66 ++ ['\n'] := by
    rw [List.drop_append_of_le_length (by omega), List.drop_take]
  have hbare : bare isQuote '!' none ((line.drop 6).take 66 ++ ['\n']) = true := by
    have hall := hline.bare
    rw [← List.take_append_drop 66 (line.drop 6), bare_append, Bool.and_eq_true] at hall
    rw [bare_append, hall.1, Bool.true_and, bare, bare, Bool.and_true]
    exact Bool.or_true _
  have hnone : ∀ c, (none : Option Char) = some c → isQuote c = true := by
    intro c hc
    cases hc
  have hopen := openAfter_newline hnone ((line.drop 6).take 66)
  have hlast : (line.take 72).getLast? = some x := by
    rw [List.getLast?_eq_getElem?, hlen, List.getElem?_take_of_lt (by omega), hx]
  have hx' : lineEnd x = false := by
    rw [special, Bool.or_eq_false_iff] at hspecial
    exact hspecial.1
  have hstrip : (line.take 72 ++ ['\n']).rdropWhile lineEnd = line.take 72 := by
    rw [List.rdropWhile_concat_pos _ _ _ (by decide)]
    exact rdropWhile_of_last hlast hx'
  rw [hstep, hdrop]
  -- A constant left open has the end of its line cut off, so that the next piece can follow.
  cases hq : openAfter isQuote none ((line.drop 6).take 66) with
  | none =>
      rw [hq] at hopen
      rw [found_closed (scan_spec _) hopen hbare, finishFixed, hput]
      refine ⟨_, rfl, ?_⟩
      constructor
      case written => exact hw
      case line1 => exact ⟨['\n'], by decide, rfl⟩
      case last => exact ⟨x, hlast, hspecial⟩
      case qq =>
        simp only [List.length_append, List.length_nil]
        omega
      case cls => exact hcls
      case prep => exact hprep
      case precon => rfl
      case schar =>
        intro c hc
        cases hc
  | some c =>
      rw [hq] at hopen
      rw [found_open (scan_spec _) hopen hbare, finishFixed, hput, hstrip]
      refine ⟨_, rfl, ?_⟩
      constructor
      case written => exact hw
      case line1 => exact ⟨['\n'], by decide, rfl⟩
      case last => exact ⟨x, hlast, hspecial⟩
      case qq => exact Nat.le_succ _
      case cls => exact hcls
      case prep => exact hprep
      case precon => rfl
      case schar =>
        intro d hd
        cases hd
        refine ⟨rfl, isQuote_of_openAfter (fun e he => ?_) hq⟩
        cases he

/-- A directive: its lines are joined to it. -/
theorem between_directive (hline : IsDirectiveFixed line) (hkept : BreaksKept names line)
    (h : Between s T) :
    ∃ out s', distributeLine .fixed .dir line = .ok out ∧
      out.foldlM (concatFixed .dir names) s = .ok s' ∧ Between s' (T ++ line) := by
  have hscope : inScope .fixed .dir line = true := by
    rw [inScope_dir_fixed, hline.dir]
  have hscan := found_closed (scan_spec _) hline.closed hline.bare
  have hprefix := (List.rdropWhile_prefix lineEnd line).length_le
  rw [distributeLine]
  simp only [hscope, if_true, if_neg (Nat.not_lt.mpr hline.long), hscan, extent,
    List.take_append_drop]
  -- A long directive is cut into a first piece and the pieces behind it; a short one is whole.
  by_cases hlt : 72 < (line.rdropWhile lineEnd).length
  · rw [if_pos hlt]
    have hx : (line)[71]? = some (line)[71] := List.getElem?_eq_getElem (by omega)
    rcases broken_first hline h hkept.start hx (hkept.mark 0 hlt _ hx) with ⟨s1, hs1, h1⟩
    have hsent : (line.take 5).length = 5 := by
      rw [List.length_take]
      omega
    have hdir : ∀ t, isDir .fixed (line.take 5 ++ t) = true := by
      intro t
      rw [isDir_take (by omega), hline.dir]
    have hsplit := List.take_append_drop 66 (line.drop 6)
    have hbare := hline.bare
    have hopen := hline.closed
    rw [← hsplit, bare_append, Bool.and_eq_true, List.drop_drop] at hbare
    rw [← hsplit, openAfter_append, List.drop_drop] at hopen
    have hpieces : PiecesKept names (line.take 5) ((line.rdropWhile lineEnd).length - 72)
        (openAfter isQuote none ((line.drop 6).take 66)) (line.drop 72) := by
      constructor
      case mark =>
        intro k hk c hc
        refine hkept.mark (k + 1) (by omega) c ?_
        rw [List.getElem?_drop] at hc
        rw [← hc]
        congr 1
        omega
      case word =>
        intro k hk ho
        have hword := hkept.word k (by omega)
        have hdrop : (line.drop 6).drop 66 = line.drop 72 := List.drop_drop
        rw [List.take_add, openAfter_append, hdrop, ← List.drop_drop] at hword
        exact hword ho
    rcases closed_pieces hsent hdir (line.rdropWhile lineEnd).length h1 (by omega) (by omega)
      (by rw [List.length_drop]; omega) (length_rdropWhile_drop line 72) hbare.2 hopen hpieces with
      ⟨s', hs', hclosed⟩
    refine ⟨_, s', rfl, ?_, ?_⟩
    · rw [List.foldlM_cons, hs1]
      exact hs'
    · rw [List.take_append_drop] at hclosed
      exact between_closed hclosed
  · rw [if_neg hlt]
    have hstart := hkept.start
    have hlong := hline.long
    rw [← continues_append names (b := line.drop 72) (by rw [List.length_take]; omega)
      (fun c hc => blank_of_lineEnd (lineEnd_of_drop (by omega) c hc)),
        List.take_append_drop] at hstart
    rcases closed_whole hline h hstart with ⟨s', hs', hclosed⟩
    refine ⟨_, s', rfl, ?_, between_closed hclosed⟩
    rw [List.foldlM_cons, hs']
    rfl

/-- A line that is no directive waits. -/
theorem between_other (names : List PragmaName) (hdir : isDir .fixed line = false)
    (h : Between s T) :
    distributeLine .fixed .dir line = .ok [line] ∧
      ∃ s', concatFixed .dir names s line = .ok s' ∧ Between s' (T ++ line) := by
  have hscope : inScope .fixed .dir line = false := by
    rw [inScope_dir_fixed, hdir]
  constructor
  · rw [distributeLine]
    simp only [hscope, Bool.false_eq_true, if_false]
  · refine ⟨s.put_cl line, ?_, ?_, h.qq, h.prep, h.precon⟩
    · rw [concatFixed]
      simp only [hscope, if_true]
    · rw [Joining.put_cl, ← h.text]
      simp only [List.append_assoc]

/-- The lines of a file. -/
theorem between_file (lines : List Text)
    (hlines : ∀ line ∈ lines, isDir .fixed line = true → IsDirectiveFixed line ∧
      BreaksKept names line)
    (h : Between s T) :
    ∃ outs s', lines.mapM (distributeLine .fixed .dir) = .ok outs ∧
      outs.flatten.foldlM (concatFixed .dir names) s = .ok s' ∧
        Between s' (T ++ lines.flatten) := by
  induction lines generalizing s T with
  | nil =>
      refine ⟨[], s, rfl, rfl, ?_⟩
      rw [List.flatten_nil, List.append_nil]
      exact h
  | cons line lines ih =>
      rw [List.forall_mem_cons] at hlines
      have hone : ∃ out s1, distributeLine .fixed .dir line = .ok out ∧
          out.foldlM (concatFixed .dir names) s = .ok s1 ∧ Between s1 (T ++ line) := by
        by_cases hdir : isDir .fixed line = true
        · exact between_directive (hlines.1 hdir).1 (hlines.1 hdir).2 h
        · rw [Bool.not_eq_true] at hdir
          rcases between_other names hdir h with ⟨hout, s1, hs1, h1⟩
          refine ⟨[line], s1, hout, ?_, h1⟩
          rw [List.foldlM_cons, hs1]
          rfl
      rcases hone with ⟨out, s1, hout, hs1, h1⟩
      rcases ih hlines.2 h1 with ⟨outs, s', houts, hs', h'⟩
      refine ⟨out :: outs, s', ?_, ?_, ?_⟩
      · rw [List.mapM_cons, hout, houts]
        rfl
      · rw [List.flatten_cons, List.foldlM_append, hs1]
        exact hs'
      · rw [List.flatten_cons, ← List.append_assoc]
        exact h'

/-- The lines written for a directive have at most 72 columns. -/
theorem width_directive_fixed {l : Text} {out : List Text} (hline : IsDirectiveFixed line)
    (hout : distributeLine .fixed .dir line = .ok out) (hl : l ∈ out) :
    (l.rdropWhile lineEnd).length ≤ 72 := by
  have hscope : inScope .fixed .dir line = true := by
    rw [inScope_dir_fixed, hline.dir]
  have hscan := found_closed (scan_spec _) hline.closed hline.bare
  rw [distributeLine] at hout
  simp only [hscope, if_true, if_neg (Nat.not_lt.mpr hline.long), hscan, extent,
    List.take_append_drop] at hout
  by_cases hlt : 72 < (line.rdropWhile lineEnd).length
  · rw [if_pos hlt, Except.ok.injEq] at hout
    subst hout
    rw [List.mem_cons] at hl
    rcases hl with rfl | hl
    · rw [List.rdropWhile_concat_pos _ _ _ (by decide)]
      have hle := (List.rdropWhile_prefix lineEnd (line.take 72)).length_le
      have htake := List.length_take_le 72 line
      omega
    · have hlead : (line.take 5 ++ ['&']).length ≤ 6 := by
        have htake := List.length_take_le 5 line
        rw [List.length_append, List.length_singleton]
        omega
      exact width_continued (by omega) (by omega) (length_rdropWhile_drop line 72)
        (by rw [List.length_nil]; omega) (by omega) hl
  · rw [if_neg hlt, Except.ok.injEq] at hout
    subst hout
    rw [List.mem_singleton] at hl
    rw [hl]
    omega

end Directives

section Results

/-- Breaking and joining the directives of a file in fixed form gives the file again, and no
    line that is written for a directive is too wide. -/
def KeepsFixed (names : List PragmaName) (lines : List Text) : Prop :=
  (∃ out, distribute .fixed .dir lines = .ok out ∧
    concat .fixed .dir names out = .ok lines.flatten) ∧
  ∀ line ∈ lines, isDir .fixed line = true → ∀ out, distributeLine .fixed .dir line = .ok out →
    ∀ l ∈ out, (l.rdropWhile lineEnd).length ≤ 72

/-- The files that are kept. -/
theorem concat_distribute_fixed (names : List PragmaName) (lines : List Text)
    (hlines : ∀ line ∈ lines, isDir .fixed line = true → IsDirectiveFixed line)
    (hkept : ∀ line ∈ lines, isDir .fixed line = true → BreaksKept names line) :
    KeepsFixed names lines := by
  have hstart : Between Joining.start [] := ⟨rfl, rfl, rfl, rfl⟩
  rcases between_file lines (fun line hline hdir => ⟨hlines line hline hdir, hkept line hline hdir⟩)
    hstart with ⟨outs, s', houts, hs', hbetween⟩
  refine ⟨⟨outs.flatten, ?_, ?_⟩, fun line hline hdir out hout l hl =>
    width_directive_fixed (hlines line hline hdir) hout hl⟩
  · rw [distribute, houts]
    rfl
  · have hflush := (flush_between hbetween).1
    rw [List.nil_append] at hflush
    rw [concat]
    simp only [hs', bind, Except.bind, hflush]

/-- A directive of 78 columns with a string that is broken; there is a `!` in the string. -/
def exclaimLine : Text := "c$xev a('!".toList ++ List.replicate 66 'b' ++ "')\n".toList

theorem isDirectiveFixed_exclaimLine : IsDirectiveFixed exclaimLine := by
  refine ⟨?_, ?_, ?_, ?_⟩
  · decide +kernel
  · decide +kernel
  · decide +kernel
  · decide +kernel

theorem concat_distribute_fixed_exclaim :
    KeepsFixed [] [exclaimLine, "c comment\n".toList, exclaimLine] := by
  have hdirs : ∀ line ∈ [exclaimLine, "c comment\n".toList, exclaimLine],
      isDir .fixed line = true → line = exclaimLine := by
    intro line hline hdir
    simp only [List.mem_cons, List.not_mem_nil, or_false] at hline
    rcases hline with rfl | rfl | rfl
    · rfl
    · exact absurd hdir (by decide)
    · rfl
  have hlen : (exclaimLine.rdropWhile lineEnd).length = 78 := by decide +kernel
  have hkept : BreaksKept [] exclaimLine := by
    constructor
    case start => decide +kernel
    case mark =>
      intro k hk c hc
      have hzero : k = 0 := by omega
      rw [hzero, show exclaimLine[71 + 66 * 0]? = some 'b' by decide +kernel] at hc
      cases hc
      decide
    case word => exact fun k hk ho => Bool.and_false _
  refine concat_distribute_fixed [] _ (fun line hline hdir => ?_) fun line hline hdir => ?_
  · rw [hdirs line hline hdir]
    exact isDirectiveFixed_exclaimLine
  · rw [hdirs line hline hdir]
    exact hkept

/-- A directive, one that is marked in column 6, one with two `!` at the break, and one with
    a name of which the configuration has the beginning. -/
def plainLine : Text := "c$xev a\n".toList

def markedLine : Text := "c$xev&b\n".toList

def bangLine : Text := "c$xev a('".toList ++ List.replicate 62 'b' ++ "!!') c\n".toList

def headLine : Text := "!$xev a(".toList ++ List.replicate 70 'b' ++ ")\n".toList

theorem isDirectiveFixed_lines : IsDirectiveFixed plainLine ∧ IsDirectiveFixed markedLine ∧
    IsDirectiveFixed bangLine ∧ IsDirectiveFixed headLine := by
  refine ⟨⟨?_, ?_, ?_, ?_⟩, ⟨?_, ?_, ?_, ?_⟩, ⟨?_, ?_, ?_, ?_⟩, ⟨?_, ?_, ?_, ?_⟩⟩ <;> decide +kernel

theorem not_kept {names : List PragmaName} {lines out : List Text} (text : Text)
    (hout : distribute .fixed .dir lines = .ok out)
      (htext : concat .fixed .dir names out = .ok text)
    (hne : text ≠ lines.flatten) : ¬ KeepsFixed names lines := by
  intro h
  rcases h with ⟨⟨out', hout', htext'⟩, _⟩
  rw [hout, Except.ok.injEq] at hout'
  rw [← hout', htext, Except.ok.injEq] at htext'
  exact hne htext'

/-- The marked directive is joined to the one before, a `!` moves to a line of its own, and
    the second piece becomes a directive. -/
theorem fixed_not_kept :
    (IsDirectiveFixed plainLine ∧ IsDirectiveFixed markedLine ∧
      IsDirectiveFixed bangLine ∧ IsDirectiveFixed headLine) ∧
    ¬ KeepsFixed [] [plainLine, markedLine] ∧ ¬ KeepsFixed [] [bangLine] ∧
      ¬ KeepsFixed [⟨true, "!$xev".toList⟩] [headLine] := by
  refine ⟨isDirectiveFixed_lines, ?_, ?_, ?_⟩
  · have hout : distribute .fixed .dir [plainLine, markedLine] = .ok [plainLine, markedLine] := by
      decide +kernel
    refine not_kept "c$xev ab\n".toList hout ?_ ?_
    · decide +kernel
    · decide +kernel
  · have hout : distribute .fixed .dir [bangLine] =
        .ok [bangLine.take 72 ++ ['\n'], "c$xev&".toList ++ bangLine.drop 72] := by
      decide +kernel
    refine not_kept ("!\nc$xev a('".toList ++ List.replicate 62 'b' ++ "!') c\n".toList) hout ?_ ?_
    · decide +kernel
    · decide +kernel
  · have hout : distribute .fixed .dir [headLine] =
        .ok [headLine.take 72 ++ ['\n'], "!$xev&".toList ++ headLine.drop 72] := by
      decide +kernel
    refine not_kept (headLine.take 72 ++ "\n!$xev&".toList ++ headLine.drop 72) hout ?_ ?_
    · decide +kernel
    · decide +kernel

end Results

end XevXml.Tools
