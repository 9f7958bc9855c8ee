import XevXml.Tools.Continu.Concat

/-!
# Directives in Free Form

A directive that is broken in free form has its first word and a `&` in front of every
piece but the first, and a `&` behind every piece but the last. The pieces are joined
when the search for the `&` that a line ends with finds the right one.

It does in all lines but the last one of a directive. There is no `&` at the end of the
last one, and the search goes back over blanks. If the last piece is blank, it comes
to the `&` in front of the piece: the piece is copied all the same, but the next
directive of the file is taken for a continuation and loses its first word.

## Main definitions

* `IsSentinel`, `IsDirectiveFree`: The directives that are broken and joined.
* `lastPiece`: What stands on the last line of a directive.
* `At`: What is kept from line to line.

## Theorems

* `at_piece`, `at_last`, `at_pieces`: The lines of a directive that is broken.
* `at_directive`: A directive.
* `concat_distribute_free_iff`: The files that are kept.
-/

namespace XevXml.Tools

open Quoting

section Words

/-- The first word of a directive. -/
structure IsSentinel (w : Text) : Prop where
  dir : startsDir w = true
  word : ∀ c ∈ w, blank c = false ∧ isQuote c = false ∧ c ≠ '&'
  tail : ∀ c ∈ w.tail, c ≠ '!'

theorem startsDir_iff (s : Text) : startsDir s = true ↔ ∃ t, s = '!' :: '$' :: t := by
  constructor
  · intro h
    cases s with
    | nil => cases h
    | cons c s =>
        cases s with
        | nil => cases h
        | cons d s =>
            rw [startsDir, Bool.and_eq_true, beq_iff_eq, beq_iff_eq] at h
            exact ⟨s, by rw [h.1, h.2]⟩
  · intro h
    rcases h with ⟨t, rfl⟩
    rfl

variable {w : Text}

theorem dropWhile_lead (hw : IsSentinel w) (s : Text) : (w ++ s).dropWhile blank = w ++ s := by
  rcases (startsDir_iff w).mp hw.dir with ⟨t, rfl⟩
  rw [List.cons_append, List.dropWhile_cons_of_neg (by decide)]

theorem isDir_lead (hw : IsSentinel w) (s : Text) : isDir .free (w ++ s) = true := by
  rw [isDir, dropWhile_lead hw]
  rcases (startsDir_iff w).mp hw.dir with ⟨t, rfl⟩
  rfl

theorem codeStart_lead (hw : IsSentinel w) (s : Text) : codeStart .free (w ++ s) = 0 := by
  rw [codeStart, dropWhile_lead hw, Nat.sub_self]

theorem inScope_dir (line : Text) : inScope .free .dir line = isDir .free line := by
  rw [inScope, Scope.dirs, Scope.forts, Bool.and_true, Bool.and_false, Bool.or_false]

theorem wordLength_lead (hw : IsSentinel w) (s : Text) : wordLength (w ++ ' ' :: s) = w.length := by
  have hall : ∀ c ∈ w, (!blank c && c ≠ '&') = true := by
    intro c hc
    rw [(hw.word c hc).1, decide_eq_true (hw.word c hc).2.2]
    rfl
  rw [wordLength, List.takeWhile_append_of_pos hall, List.takeWhile_cons_of_neg (by decide),
    List.append_nil]

/-- Where the piece starts that a line continues with. -/
theorem copyStart_lead (hw : IsSentinel w) (s : Text) :
    copyStart true true (w ++ ' ' :: '&' :: s) 0 = w.length + 2 ∧
      copyStart true true (w ++ ' ' :: '&' :: s) (w.length + 1) = w.length + 2 := by
  have hdrop : (w ++ ' ' :: '&' :: s).drop (w.length + 1) = '&' :: s := by
    rw [List.drop_append, List.drop_of_length_le (Nat.le_succ _), Nat.add_sub_cancel_left]
    rfl
  have hdrop0 : (w ++ ' ' :: '&' :: s).drop w.length = ' ' :: '&' :: s := List.drop_left
  have hamp : blankLength ('&' :: s) = 0 := by
    rw [blankLength, List.takeWhile_cons_of_neg (by decide)]
    rfl
  have hblank : blankLength (' ' :: '&' :: s) = 1 := by
    rw [blankLength, List.takeWhile_cons_of_pos (by decide), List.takeWhile_cons_of_neg (by decide)]
    rfl
  have hword : wordLength ('&' :: s) = 0 := by
    rw [wordLength, List.takeWhile_cons_of_neg (by decide)]
    rfl
  constructor
  · rw [copyStart]
    simp only [List.drop_zero, Nat.zero_add, wordLength_lead hw, hdrop0, hblank, hdrop,
      List.head?_cons, if_true]
  · rw [copyStart]
    simp only [hdrop, hword, hamp, Nat.add_zero, List.head?_cons, if_true]

theorem stringStart_lead (hw : IsSentinel w) (s : Text) :
    stringStart true (w ++ ' ' :: '&' :: s) = .ok (w.length + 1) := by
  have hdrop : (w ++ ' ' :: '&' :: s).drop (w.length + 1) = '&' :: s := by
    rw [List.drop_append, List.drop_of_length_le (Nat.le_succ _), Nat.add_sub_cancel_left]
    rfl
  have hdrop0 : (w ++ ' ' :: '&' :: s).drop w.length = ' ' :: '&' :: s := List.drop_left
  have hblank : blankLength (' ' :: '&' :: s) = 1 := by
    rw [blankLength, List.takeWhile_cons_of_pos (by decide), List.takeWhile_cons_of_neg (by decide)]
    rfl
  rw [stringStart]
  simp only [codeStart_lead hw, List.drop_zero, Nat.zero_add, if_true, wordLength_lead hw, hdrop0,
    hblank, hdrop, List.head?_cons]

/-- The first word opens no string and has no comment. -/
theorem state_lead (hw : IsSentinel w) (s : Text) :
    openAfter isQuote none ((w ++ ' ' :: '&' :: s).drop 2) = openAfter isQuote none s ∧
      bare isQuote '!' none ((w ++ ' ' :: '&' :: s).drop 2) = bare isQuote '!' none s := by
  rcases (startsDir_iff w).mp hw.dir with ⟨t, rfl⟩
  have ht : ∀ c ∈ t ++ [' ', '&'], isQuote c = false ∧ c ≠ '!' := by
    intro c hc
    rw [List.mem_append, List.mem_cons, List.mem_singleton] at hc
    rcases hc with hc | rfl | rfl
    · have hmem : c ∈ '$' :: t := List.mem_cons_of_mem _ hc
      exact ⟨(hw.word c (List.mem_cons_of_mem _ hmem)).2.1, hw.tail c hmem⟩
    · decide
    · decide
  have hdrop : ('!' :: '$' :: t ++ ' ' :: '&' :: s).drop 2 = (t ++ [' ', '&']) ++ s := by
    rw [List.append_assoc]
    rfl
  have hopen := openAfter_of_not fun c hc => (ht c hc).1
  rw [hdrop, openAfter_append, bare_append, hopen, bare_of_not ht, Bool.true_and]
  exact ⟨rfl, rfl⟩

end Words

section Ends

theorem ampAt_lt {p : Char → Bool} {s : Text} {q : Nat} (h : ampAt p s = some q) :
    q < s.length := by
  have hle := (List.rdropWhile_prefix p s).length_le
  unfold ampAt at h
  by_cases hlast : (s.rdropWhile p).getLast? = some '&'
  · rw [if_pos hlast, Option.some.injEq] at h
    have hne : s.rdropWhile p ≠ [] := by
      intro hnil
      rw [hnil] at hlast
      cases hlast
    have hpos := List.length_pos_of_ne_nil hne
    omega
  · rw [if_neg hlast] at h
    cases h

/-- The search ends in a text in which there is something to find. -/
theorem ampAt_append {p : Char → Bool} (s : Text) {t : Text} (h : ¬ ∀ c ∈ t, p c = true) :
    ampAt p (s ++ t) = (ampAt p t).map (s.length + ·) := by
  have hne : t.rdropWhile p ≠ [] := fun hnil => h (List.rdropWhile_eq_nil_iff.mp hnil)
  have hpos := List.length_pos_of_ne_nil hne
  rw [ampAt, ampAt, Trim.rdropWhile_append, if_neg hne]
  simp only [List.getLast?_append_of_ne_nil s hne, List.length_append]
  by_cases hlast : (t.rdropWhile p).getLast? = some '&'
  · rw [if_pos hlast, if_pos hlast, Option.map_some, Nat.add_sub_assoc hpos]
  · rw [if_neg hlast, if_neg hlast, Option.map_none]

/-- It goes over a text in which there is nothing. -/
theorem ampAt_append_of_forall {p : Char → Bool} (s : Text) {t : Text} (h : ∀ c ∈ t, p c = true) :
    ampAt p (s ++ t) = ampAt p s := by
  rw [ampAt, ampAt, Trim.rdropWhile_append_of_forall s h]

/-- The `&` that a broken line ends with. -/
theorem ampAt_mark {p : Char → Bool} (s : Text) (hend : p '\n' = true) (hamp : p '&' = false) :
    ampAt p (s ++ ['&', '\n']) = some s.length := by
  have hmark : ampAt p ['&', '\n'] = some 0 := by
    rw [ampAt, show (['&', '\n'] : Text) = ['&'] ++ ['\n'] from rfl,
      List.rdropWhile_concat_pos _ _ _ hend, List.rdropWhile_singleton, hamp]
    rfl
  have hno : ¬ ∀ c ∈ (['&', '\n'] : Text), p c = true := by
    intro h
    have := h '&' List.mem_cons_self
    rw [hamp] at this
    cases this
  rw [ampAt_append s hno, hmark]
  rfl

/-- What is copied of the last piece of a directive. -/
def kept (rest : Text) : Text :=
  match ampAt passed rest with
  | none => rest
  | some q => rest.take q

/-- Whether a line with a piece behind a `&` is taken for one that is continued. -/
def goesOn (rest : Text) : Bool := (ampAt passed rest).isSome || rest.all passed

theorem kept_of_none {rest : Text} (h : ampAt passed rest = none) : kept rest = rest := by
  rw [kept, h]

theorem length_kept_le (rest : Text) : (kept rest).length ≤ rest.length := by
  cases h : ampAt passed rest with
  | none => rw [kept_of_none h]
  | some q =>
      simp only [kept, h]
      exact List.length_take_le' q rest

theorem length_kept_lt {rest : Text} (h : ampAt passed rest ≠ none) :
    (kept rest).length < rest.length := by
  cases hq : ampAt passed rest with
  | none => exact absurd hq h
  | some q =>
      have hlt := ampAt_lt hq
      simp only [kept, hq]
      rw [List.length_take]
      omega

/-- A whole line. -/
theorem copied_zero (line : Text) : copied (ampAt passed line) line 0 = kept line := by
  unfold copied kept
  cases ampAt passed line with
  | none => exact List.drop_zero
  | some q => simp only [if_pos (Nat.zero_le q), List.drop_zero]

/-- A piece behind the `&` it starts with. -/
theorem copied_lead {lead : Text} (rest : Text) (hlead : ampAt passed lead = some (lead.length - 1))
    (hpos : lead ≠ []) :
    copied (ampAt passed (lead ++ rest)) (lead ++ rest) lead.length = kept rest ∧
      (ampAt passed (lead ++ rest)).isSome = goesOn rest := by
  have hlen := List.length_pos_of_ne_nil hpos
  by_cases hall : ∀ c ∈ rest, passed c = true
  · have hnone : ampAt passed rest = none := by
      rw [ampAt, List.rdropWhile_eq_nil_iff.mpr hall]
      rfl
    have hgo : goesOn rest = true := by
      rw [goesOn, List.all_eq_true.mpr hall, Bool.or_true]
    rw [ampAt_append_of_forall lead hall, hlead, kept_of_none hnone, hgo]
    refine ⟨?_, rfl⟩
    rw [copied, if_neg (by omega), List.drop_left]
  · have hgo : goesOn rest = (ampAt passed rest).isSome := by
      have hfalse : rest.all passed = false := by
        rw [Bool.eq_false_iff, ne_eq, List.all_eq_true]
        exact hall
      rw [goesOn, hfalse, Bool.or_false]
    rw [ampAt_append lead hall, hgo]
    refine ⟨?_, Option.isSome_map⟩
    unfold copied kept
    cases ampAt passed rest with
    | none => exact List.drop_left
    | some q =>
        simp only [Option.map_some]
        rw [if_pos (Nat.le_add_right _ _), List.take_length_add_append, List.drop_left]

end Ends

section Pieces

/-- What is kept from line to line in terms of what is known of it. -/
structure At (s : Joining) (W L C : Text) (pre : Bool) (q : Option Char) : Prop where
  written : s.written = W
  line1 : s.line1 = L
  qq : s.qq = L.length
  cls : s.cls = C
  prep : s.prep = none
  precon : s.precon = pre
  predir : pre = true → s.predir = true
  schar : s.schar = q

variable {w W L C : Text} {s : Joining}

/-- A line that continues is put behind what has been collected. -/
theorem at_putFree {q : Option Char} (line : Text) (p : Nat) {l : LineEnd} (h : At s W L C true q)
    (hcomm : l.comminline = none) :
    ∃ s', putFree s true true line p l = .ok s' ∧
      At s' W (L ++ copied l.amp line (copyStart true true line p)) C l.amp.isSome l.schar := by
  have hstr : s.line1.take s.qq = L := by
    rw [h.line1, h.qq, List.take_length]
  have hput : putFree s true true line p l =
      .ok { s.strcpy (copied l.amp line (copyStart true true line p))
          (copied l.amp line (copyStart true true line p)).length with
        precon := l.amp.isSome
        predir := if l.amp.isSome then true else s.predir
        first := false
        schar := l.schar } := by
    rw [putFree, hcomm]
    cases l.amp with
    | none => rfl
    | some q => rfl
  refine ⟨_, hput, ?_⟩
  constructor
  case written => exact h.written
  case line1 => rw [Joining.strcpy, hstr]
  case qq => rw [Joining.strcpy, h.qq, List.length_append]
  case cls => exact h.cls
  case prep => exact h.prep
  case precon => rfl
  case predir =>
    intro hp
    exact if_pos hp
  case schar => rfl

/-- A line with a piece behind a `&`, when it is known what the search for its end finds. -/
theorem at_lead {q : Option Char} {rest : Text} {l : LineEnd} (hw : IsSentinel w)
    (h : At s W L C true q) (hcomm : l.comminline = none)
    (hl : lineEndFree q q.isSome (w ++ ' ' :: '&' :: rest)
      (scanAfter q (if q.isSome then rest else (w ++ ' ' :: '&' :: rest).drop 2)) = .ok l) :
    ∃ s', concatFree .dir s (w ++ ' ' :: '&' :: rest) = .ok s' ∧
      At s' W (L ++ copied l.amp (w ++ ' ' :: '&' :: rest) (w.length + 2)) C l.amp.isSome
        l.schar := by
  have hdir := isDir_lead hw (' ' :: '&' :: rest)
  have hscope : inScope .free .dir (w ++ ' ' :: '&' :: rest) = true := by
    rw [inScope_dir, hdir]
  have hpre := h.predir rfl
  have hrest : (w ++ ' ' :: '&' :: rest).drop (w.length + 1 + 1) = rest := by
    rw [List.drop_append, List.drop_of_length_le (by omega), Nat.add_assoc,
      Nat.add_sub_cancel_left]
    rfl
  have hnot : ¬ (true = false) := by decide
  have hpred : (true != true) = false := by decide
  cases q with
  | none =>
      rcases at_putFree (w ++ ' ' :: '&' :: rest) 0 h hcomm with ⟨s', hs', hat⟩
      rw [(copyStart_lead hw rest).1] at hat
      refine ⟨s', ?_, hat⟩
      simp only [Option.isSome_none, Bool.false_eq_true, if_false] at hl
      simp only [concatFree, hscope, if_neg hnot, h.precon, h.schar, hpre, hdir, hpred,
        Bool.and_false,
        Option.isSome_none, Bool.false_eq_true, if_false, codeStart_lead hw, if_true, hl, hs', bind,
        Except.bind]
  | some c =>
      rcases at_putFree (w ++ ' ' :: '&' :: rest) (w.length + 1) h hcomm with
        ⟨s', hs', hat⟩
      rw [(copyStart_lead hw rest).2] at hat
      refine ⟨s', ?_, hat⟩
      simp only [Option.isSome_some, if_true] at hl
      simp only [concatFree, hscope, if_neg hnot, h.precon, h.schar, hpre, hdir, hpred,
        Bool.and_false, Option.isSome_some, Bool.and_true, Bool.false_eq_true, if_false, if_true,
        stringStart_lead hw, hrest, hl, hs', bind, Except.bind]

/-- The text in which the end of a line is searched leads to the same quote as the piece
    on the line. -/
theorem state_text (hw : IsSentinel w) (q : Option Char) (rest : Text) :
    openAfter isQuote q (if q.isSome then rest else (w ++ ' ' :: '&' :: rest).drop 2) =
        openAfter isQuote q rest ∧
      bare isQuote '!' q (if q.isSome then rest else (w ++ ' ' :: '&' :: rest).drop 2) =
        bare isQuote '!' q rest := by
  cases q with
  | none => exact state_lead hw rest
  | some c => exact ⟨rfl, rfl⟩

/-- A piece behind which no string is open. -/
theorem at_closed {q : Option Char} {rest : Text} (hw : IsSentinel w) (h : At s W L C true q)
    (hq : ∀ c, q = some c → isQuote c = true) (hbare : bare isQuote '!' q rest = true)
    (hopen : openAfter isQuote q rest = none) :
    ∃ s', concatFree .dir s (w ++ ' ' :: '&' :: rest) = .ok s' ∧
      At s' W (L ++ copied (ampAt passed (w ++ ' ' :: '&' :: rest)) (w ++ ' ' :: '&' :: rest)
        (w.length + 2)) C (ampAt passed (w ++ ' ' :: '&' :: rest)).isSome none := by
  have hstate := state_text hw q rest
  rcases scanAfter_closed hq (hstate.1.trans hopen) (hstate.2.trans hbare) with ⟨code, hcode⟩
  refine at_lead (l := ⟨ampAt passed (w ++ ' ' :: '&' :: rest), none, none⟩) hw h rfl ?_
  rw [hcode, lineEndFree, List.length_nil, Nat.sub_zero, List.take_length]
  cases q with
  | none => simp
  | some c => simp

/-- A piece behind which a string is open. -/
theorem at_open {q : Option Char} {rest : Text} {c : Char} {n : Nat} (hw : IsSentinel w)
    (h : At s W L C true q) (hq : ∀ c, q = some c → isQuote c = true)
    (hbare : bare isQuote '!' q rest = true) (hopen : openAfter isQuote q rest = some c)
    (hn : ampAt blank (w ++ ' ' :: '&' :: rest) = some n) :
    ∃ s', concatFree .dir s (w ++ ' ' :: '&' :: rest) = .ok s' ∧
      At s' W (L ++ copied (some n) (w ++ ' ' :: '&' :: rest) (w.length + 2)) C true (some c) := by
  have hstate := state_text hw q rest
  have hscan := scanAfter_open hq (hstate.1.trans hopen) (hstate.2.trans hbare)
  refine at_lead (l := ⟨some n, none, some c⟩) hw h rfl ?_
  rw [hscan, lineEndFree, hn]

/-- The mark behind a piece belongs to no string. -/
theorem state_mark (q : Option Char) (hq : ∀ c, q = some c → isQuote c = true) (chunk : Text) :
    openAfter isQuote q (chunk ++ ['&', '\n']) = openAfter isQuote q chunk ∧
      bare isQuote '!' q (chunk ++ ['&', '\n']) = bare isQuote '!' q chunk := by
  have hkeep : ∀ d : Option Char, (∀ c, d = some c → isQuote c = true) →
      openAfter isQuote d ['&', '\n'] = d ∧ bare isQuote '!' d ['&', '\n'] = true := by
    intro d hd
    cases d with
    | none => exact ⟨rfl, rfl⟩
    | some c =>
        have hamp : '&' ≠ c := by
          intro he
          have := hd c rfl
          rw [← he] at this
          exact absurd this (by decide)
        have hnl : '\n' ≠ c := by
          intro he
          have := hd c rfl
          rw [← he] at this
          exact absurd this (by decide)
        rw [openAfter_inside hamp, openAfter_inside hnl, bare_inside hamp, bare_inside hnl]
        exact ⟨rfl, rfl⟩
  have hd := hkeep (openAfter isQuote q chunk) fun c hc => isQuote_of_openAfter hq hc
  rw [openAfter_append, bare_append, hd.1, hd.2, Bool.and_true]
  exact ⟨rfl, rfl⟩

/-- A piece that another one follows. -/
theorem at_piece {q : Option Char} {chunk : Text} (hw : IsSentinel w) (h : At s W L C true q)
    (hq : ∀ c, q = some c → isQuote c = true) (hbare : bare isQuote '!' q chunk = true) :
    ∃ s', concatFree .dir s (w ++ ' ' :: '&' :: (chunk ++ ['&', '\n'])) = .ok s' ∧
      At s' W (L ++ chunk) C true (openAfter isQuote q chunk) := by
  have hstate := state_mark q hq chunk
  have hline : w ++ ' ' :: '&' :: (chunk ++ ['&', '\n']) =
      (w ++ [' ', '&'] ++ chunk) ++ ['&', '\n'] := by
    rw [List.append_assoc, List.append_assoc]
    rfl
  have hlen : (w ++ [' ', '&'] ++ chunk).length = w.length + 2 + chunk.length := by
    rw [List.length_append, List.length_append]
    rfl
  have hcopied : copied (some (w.length + 2 + chunk.length))
      (w ++ ' ' :: '&' :: (chunk ++ ['&', '\n'])) (w.length + 2) = chunk := by
    rw [copied]
    simp only [if_pos (Nat.le_add_right _ _)]
    rw [hline, ← hlen, List.take_left, List.drop_left']
    rw [List.length_append]
    rfl
  cases hopen : openAfter isQuote q chunk with
  | none =>
      rcases at_closed hw h hq (hstate.2.trans hbare) (hstate.1.trans hopen) with ⟨s', hs', hat⟩
      have hamp : ampAt passed (w ++ ' ' :: '&' :: (chunk ++ ['&', '\n'])) =
          some (w.length + 2 + chunk.length) := by
        rw [hline, ampAt_mark _ (by decide) (by decide), hlen]
      rw [hamp, hcopied] at hat
      exact ⟨s', hs', hat⟩
  | some c =>
      have hamp : ampAt blank (w ++ ' ' :: '&' :: (chunk ++ ['&', '\n'])) =
          some (w.length + 2 + chunk.length) := by
        rw [hline, ampAt_mark _ (by decide) (by decide), hlen]
      rcases at_open hw h hq (hstate.2.trans hbare) (hstate.1.trans hopen) hamp with ⟨s', hs', hat⟩
      rw [hcopied] at hat
      exact ⟨s', hs', hat⟩

/-- The last piece of a directive. -/
theorem at_last {q : Option Char} {rest : Text} (hw : IsSentinel w) (h : At s W L C true q)
    (hq : ∀ c, q = some c → isQuote c = true) (hbare : bare isQuote '!' q rest = true)
    (hopen : openAfter isQuote q rest = none) :
    ∃ s', concatFree .dir s (w ++ ' ' :: '&' :: rest) = .ok s' ∧
      At s' W (L ++ kept rest) C (goesOn rest) none := by
  have hlead : ampAt passed (w ++ [' ', '&']) = some ((w ++ [' ', '&']).length - 1) := by
    have hsplit : w ++ [' ', '&'] = (w ++ [' ']) ++ ['&'] := by
      rw [List.append_assoc]
      rfl
    rw [ampAt, hsplit, List.rdropWhile_concat_neg _ _ _ (by decide)]
    simp only [List.getLast?_concat, if_true]
  have hne : w ++ [' ', '&'] ≠ [] := by simp
  have hcopied := copied_lead rest hlead hne
  have hlen : (w ++ [' ', '&']).length = w.length + 2 := by
    rw [List.length_append]
    rfl
  rw [hlen, List.append_assoc] at hcopied
  rcases at_closed hw h hq hbare hopen with ⟨s', hs', hat⟩
  refine ⟨s', hs', ?_⟩
  rw [← hcopied.1, ← hcopied.2]
  exact hat

/-- The text on the last line of what is broken. -/
def remaining (k limit : Nat) : Nat → Nat → Text → Text
  | 0, _, p => p
  | fuel + 1, n, p =>
      if limit < n then remaining k limit fuel (n - k) (p.drop k) else p

/-- All lines of a directive but the first. -/
theorem at_pieces (k limit fuel n : Nat) {q : Option Char} {p : Text}
    (hw : IsSentinel w) (h : At s W L C true q) (hq : ∀ c, q = some c → isQuote c = true)
    (hbare : bare isQuote '!' q p = true) (hopen : openAfter isQuote q p = none) :
    ∃ s' K, (continued (w ++ [' ', '&']) ['&'] k limit fuel n p).foldlM (concatFree .dir)
      s = .ok s' ∧
      At s' W (L ++ K) C (goesOn (remaining k limit fuel n p)) none ∧
      K.length + (remaining k limit fuel n p).length =
        p.length + (kept (remaining k limit fuel n p)).length ∧
      (ampAt passed (remaining k limit fuel n p) = none → K = p) := by
  have hlast : ∀ (s : Joining) (L p : Text) (q : Option Char), At s W L C true q →
      (∀ c, q = some c → isQuote c = true) → bare isQuote '!' q p = true →
      openAfter isQuote q p = none →
      ∃ s' K, [w ++ [' ', '&'] ++ p].foldlM (concatFree .dir) s = .ok s' ∧
        At s' W (L ++ K) C (goesOn p) none ∧ K.length + p.length = p.length + (kept p).length ∧
        (ampAt passed p = none → K = p) := by
    intro s L p q h hq hbare hopen
    rcases at_last hw h hq hbare hopen with ⟨s', hs', hat⟩
    refine ⟨s', kept p, ?_, hat, Nat.add_comm _ _, kept_of_none⟩
    rw [List.foldlM_cons, List.append_assoc]
    exact (congrArg (· >>= fun s => [].foldlM (concatFree .dir) s) hs').trans rfl
  induction fuel generalizing s L n p q with
  | zero => exact hlast s L p q h hq hbare hopen
  | succ fuel ih =>
      rw [continued, remaining]
      by_cases hlt : limit < n
      · rw [if_pos hlt, if_pos hlt]
        -- the quote that is open behind the first piece is open in front of the others
        have hsplit := List.take_append_drop k p
        have hbare' := hbare
        have hopen' := hopen
        rw [← hsplit, bare_append, Bool.and_eq_true] at hbare'
        rw [← hsplit, openAfter_append] at hopen'
        rcases at_piece hw h hq hbare'.1 with ⟨s1, hs1, hat1⟩
        rcases ih (n - k) hat1 (fun c hc => isQuote_of_openAfter hq hc) hbare'.2 hopen' with
          ⟨s', K, hs', hat, hlen, hkeep⟩
        refine ⟨s', p.take k ++ K, ?_, ?_, ?_, ?_⟩
        · have hline : w ++ [' ', '&'] ++ p.take k ++ ['&'] ++ ['\n'] =
              w ++ ' ' :: '&' :: (p.take k ++ ['&', '\n']) := by
            rw [List.append_assoc, List.append_assoc, List.append_assoc]
            rfl
          rw [List.foldlM_cons, hline, hs1]
          exact hs'
        · rw [← List.append_assoc]
          exact hat
        · have hsum := congrArg List.length hsplit
          rw [List.length_append] at hsum ⊢
          omega
        · intro hnone
          rw [hkeep hnone, hsplit]
      · rw [if_neg hlt, if_neg hlt]
        exact hlast s L p q h hq hbare hopen

end Pieces

section First

variable {W L C : Text} {s : Joining} {b : Bool}

/-- The text that is written if there are no more lines. -/
theorem flush_at {q : Option Char} (h : At s W L C b q) : s.flush.written = W ++ L ++ C := by
  rw [Joining.flush, h.written, h.prep, h.qq, h.line1, h.cls, Option.getD_none, List.append_nil]
  cases L with
  | nil => rfl
  | cons c L => rfl

theorem length_copied_lt (amp : Option Nat) {line : Text} {p : Nat} (hp : 0 < p)
    (hline : line ≠ []) :
    (copied amp line p).length < line.length := by
  have hpos := List.length_pos_of_ne_nil hline
  cases amp with
  | none =>
      rw [copied, List.length_drop]
      omega
  | some q =>
      simp only [copied]
      by_cases hq : p ≤ q
      · rw [if_pos hq, List.length_drop, List.length_take]
        omega
      · rw [if_neg hq, List.length_drop]
        omega

/-- The first word of a directive is not copied where a line continues. -/
theorem copyStart_pos {line : Text} (hdir : isDir .free line = true) :
    0 < copyStart true true line (codeStart .free line) := by
  have hdrop : line.drop (codeStart .free line) = line.dropWhile blank := by
    have hsplit : line = line.takeWhile blank ++ line.dropWhile blank :=
      (List.takeWhile_append_dropWhile).symm
    have hlen := congrArg List.length hsplit
    rw [List.length_append] at hlen
    have hstart : codeStart .free line = (line.takeWhile blank).length := by
      rw [codeStart]
      omega
    rw [hstart]
    conv_lhs => rw [hsplit]
    rw [List.drop_left']
    rw [← hsplit]
  rcases (startsDir_iff _).mp hdir with ⟨t, ht⟩
  have hword : 2 ≤ wordLength (line.drop (codeStart .free line)) := by
    rw [hdrop, ht, wordLength, List.takeWhile_cons_of_pos (by decide),
      List.takeWhile_cons_of_pos (by decide), List.length_cons, List.length_cons]
    omega
  simp only [copyStart, if_true]
  split
  · exact Nat.succ_pos _
  · omega

/-- The first line of a directive. -/
theorem at_first {line : Text} {l : LineEnd} (hdir : isDir .free line = true)
    (h : At s W L C b none) (hcomm : l.comminline = none)
    (hl : lineEndFree none false line (scan (line.drop (codeStart .free line + 2))) = .ok l) :
    ∃ s' W' L' C', concatFree .dir s line = .ok s' ∧ At s' W' L' C' l.amp.isSome l.schar ∧
      (b = false → W' = W ++ L ++ C ∧ L' = copied l.amp line 0 ∧ C' = []) ∧
      (b = true → ∃ p, 0 < p ∧ W' = W ∧ L' = L ++ copied l.amp line p ∧ C' = C) := by
  have hscope : inScope .free .dir line = true := by
    rw [inScope_dir, hdir]
  have hnot : ¬ (true = false) := by decide
  have hpred : (true != true) = false := by decide
  -- A directive that goes on takes this line up; otherwise what was held is written first.
  cases b with
  | true =>
      rcases at_putFree line (codeStart .free line) h hcomm with ⟨s', hs', hat⟩
      refine ⟨s', W, _, C, ?_, hat, fun hb => absurd hb (by decide), fun _ =>
        ⟨_, copyStart_pos hdir, rfl, rfl, rfl⟩⟩
      simp only [concatFree, hscope, if_neg hnot, h.precon, h.schar, h.predir rfl, hdir, hpred,
        Bool.and_false, Option.isSome_none, Bool.false_eq_true, if_false, if_true, scanAfter,
          hl, hs',
        bind, Except.bind]
  | false =>
      have hput : putFree s false true line (codeStart .free line) l =
          .ok { s.flush.strcpy (copied l.amp line 0) (copied l.amp line 0).length with
            precon := l.amp.isSome
            predir := if l.amp.isSome then true else s.predir
            first := true
            schar := l.schar } := by
        rw [putFree, hcomm]
        cases l.amp with
        | none => rfl
        | some q => rfl
      have hstep : concatFree .dir s line = putFree s false true line (codeStart .free line) l := by
        simp only [concatFree, hscope, if_neg hnot, h.precon, h.schar, Bool.false_and,
          Bool.false_eq_true, if_false, hdir, if_true, scanAfter, hl, bind, Except.bind]
      rw [hstep, hput]
      refine ⟨_, W ++ L ++ C, copied l.amp line 0, [], rfl, ?_, fun _ => ⟨rfl, rfl, rfl⟩,
        fun hb => absurd hb (by decide)⟩
      constructor
      case written => exact flush_at h
      case line1 => rfl
      case qq => exact Nat.zero_add _
      case cls => rfl
      case prep => rfl
      case precon => rfl
      case predir =>
        intro hp
        exact if_pos hp
      case schar => rfl

end First

section Directives

/-- The directives that are broken and joined: the first word is a plain sentinel and ends
    in front of column 132, every string is closed, and there is no comment. -/
structure IsDirectiveFree (line : Text) : Prop where
  sentinel : IsSentinel (firstWord line)
  ends : codeStart .free line + (firstWord line).length < 132
  closed : openAfter isQuote none (line.drop (codeStart .free line + 2)) = none
  bare : bare isQuote '!' none (line.drop (codeStart .free line + 2)) = true

/-- What stands on the last line that is written for a directive. -/
def lastPiece (line : Text) : Text :=
  let n := (line.rdropWhile lineEnd).length
  if 132 < n then
    remaining (129 - (firstWord line).length) (130 - (firstWord line).length) n (n - 131)
      (line.drop 131)
  else line

/-- The indentation and the mark of a directive. -/
theorem isDirectiveFree_split {line : Text} (h : IsDirectiveFree line) :
    ∃ indent t, line = indent ++ '!' :: '$' :: t ∧ (∀ c ∈ indent, blank c = true) ∧
      indent.length + 2 < 132 := by
  rcases (startsDir_iff _).mp h.sentinel.dir with ⟨w, hw⟩
  have hsplit : line = line.takeWhile blank ++ line.dropWhile blank :=
    (List.takeWhile_append_dropWhile).symm
  have hlen := congrArg List.length hsplit
  rw [List.length_append] at hlen
  have hword : line.dropWhile blank =
      firstWord line ++ (line.dropWhile blank).dropWhile fun c => !blank c :=
    (List.takeWhile_append_dropWhile).symm
  have hends := h.ends
  rw [hw, List.cons_append, List.cons_append] at hword
  rw [hw, codeStart, List.length_cons, List.length_cons] at hends
  rw [hword] at hsplit
  exact ⟨line.takeWhile blank, _, hsplit, fun c hc => List.mem_takeWhile_imp hc, by omega⟩

theorem codeStart_split {indent t : Text} (h : ∀ c ∈ indent, blank c = true) :
    codeStart .free (indent ++ '!' :: '$' :: t) = indent.length ∧
      isDir .free (indent ++ '!' :: '$' :: t) = true := by
  have hdrop : (indent ++ '!' :: '$' :: t).dropWhile blank = '!' :: '$' :: t := by
    rw [List.dropWhile_append_of_pos h, List.dropWhile_cons_of_neg (by decide)]
  rw [codeStart, isDir, hdrop, List.length_append]
  exact ⟨Nat.add_sub_cancel _ _, rfl⟩

theorem all_passed_of_directive {line : Text} (h : IsDirectiveFree line) :
    line.all passed = false := by
  rcases isDirectiveFree_split h with ⟨indent, t, rfl, _, _⟩
  rw [List.all_eq_false]
  exact ⟨'$', by simp, by decide⟩

/-- What the search for the end of a directive finds that is not broken. -/
theorem lineEndFree_closed {line text : Text} (hopen : openAfter isQuote none text = none)
    (hbare : bare isQuote '!' none text = true) :
    lineEndFree none false line (scan text) = .ok ⟨ampAt passed line, none, none⟩ := by
  rw [found_closed (scan_spec text) hopen hbare, lineEndFree, List.length_nil, Nat.sub_zero,
    List.take_length, if_pos rfl, ite_self]

/-- What it finds on the first line of one that is broken. -/
theorem lineEndFree_mark {chunk : Text} (line : Text) (hbare : bare isQuote '!' none chunk = true) :
    lineEndFree none false (line ++ ['&', '\n']) (scan (chunk ++ ['&', '\n'])) =
      .ok ⟨some line.length, none, openAfter isQuote none chunk⟩ := by
  have hnone : ∀ c, (none : Option Char) = some c → isQuote c = true := by
    intro c hc
    cases hc
  have hstate := state_mark none hnone chunk
  cases hopen : openAfter isQuote none chunk with
  | none =>
      rw [lineEndFree_closed (hstate.1.trans hopen) (hstate.2.trans hbare),
        ampAt_mark line (by decide) (by decide)]
  | some c =>
      rw [found_open (scan_spec _) (hstate.1.trans hopen) (hstate.2.trans hbare), lineEndFree,
        ampAt_mark line (by decide) (by decide)]

variable {W L C : Text} {s : Joining} {b : Bool}

/-- A directive is copied as it is if it does not end in a `&` and the one before was not
    taken for one that is continued. Otherwise something is lost. -/
theorem at_directive {line : Text} (hline : IsDirectiveFree line)
    (hword : (firstWord line).length < 100) (h : At s W L C b none) :
    ∃ out s' W' L' C', distributeLine .free .dir line = .ok out ∧
      out.foldlM (concatFree .dir) s = .ok s' ∧ At s' W' L' C' (goesOn (lastPiece line)) none ∧
      (b = false → ampAt passed (lastPiece line) = none →
        W' ++ L' ++ C' = W ++ L ++ C ++ line) ∧
      (W' ++ L' ++ C').length ≤ (W ++ L ++ C ++ line).length ∧
      (b = true ∨ ampAt passed (lastPiece line) ≠ none →
        (W' ++ L' ++ C').length < (W ++ L ++ C ++ line).length) := by
  rcases isDirectiveFree_split hline with ⟨indent, t, heq, hindent, hlen⟩
  have hclosed := hline.closed
  have hbare := hline.bare
  have hall := all_passed_of_directive hline
  have hw := hline.sentinel
  have hstart : codeStart .free line = indent.length := by
    rw [heq]
    exact (codeStart_split hindent).1
  have hdir : isDir .free line = true := by
    rw [heq]
    exact (codeStart_split hindent).2
  have hscope : inScope .free .dir line = true := by
    rw [inScope_dir, hdir]
  have hscan := found_closed (scan_spec _) hclosed hbare
  have hne : line ≠ [] := by
    rw [heq]
    simp
  have hdist : distributeLine .free .dir line =
      if 132 < (line.rdropWhile lineEnd).length then
        .ok ((line.take 131 ++ ['&', '\n']) ::
          continued (firstWord line ++ [' ', '&']) ['&'] (129 - (firstWord line).length)
            (130 - (firstWord line).length) (line.rdropWhile lineEnd).length
            ((line.rdropWhile lineEnd).length - 131) (line.drop 131))
      else .ok [line] := by
    rw [distributeLine]
    simp only [if_neg (Nat.not_le.mpr hword), hscope, hdir, if_true, hscan, extent,
      List.take_append_drop]
  rw [hdist, lastPiece]
  by_cases hlt : 132 < (line.rdropWhile lineEnd).length
  · simp only [if_pos hlt]
    have hlong := (List.rdropWhile_prefix lineEnd line).length_le
    have hfirst : line.take 131 ++ ['&', '\n'] =
        indent ++ '!' :: '$' :: (t.take (129 - indent.length) ++ ['&', '\n']) := by
      have htwo : 131 - indent.length = (129 - indent.length) + 1 + 1 := by omega
      rw [heq, List.take_append, List.take_of_length_le (by omega), htwo, List.take_succ_cons,
        List.take_succ_cons, List.append_assoc]
      rfl
    have hrest : line.drop 131 = t.drop (129 - indent.length) := by
      have htwo : 131 - indent.length = (129 - indent.length) + 1 + 1 := by omega
      rw [heq, List.drop_append, List.drop_of_length_le (by omega), htwo, List.nil_append]
      rfl
    have htext : line.drop (codeStart .free line + 2) = t := by
      rw [hstart, heq, List.drop_append, List.drop_of_length_le (by omega),
        Nat.add_sub_cancel_left]
      rfl
    have htake : (line.take 131).length = 131 := by
      rw [List.length_take]
      omega
    -- the quote that is open behind the first line is open in front of the others
    rw [htext, ← List.take_append_drop (129 - indent.length) t, openAfter_append] at hclosed
    rw [htext, ← List.take_append_drop (129 - indent.length) t, bare_append,
      Bool.and_eq_true] at hbare
    have hstart' := codeStart_split (t := t.take (129 - indent.length) ++ ['&', '\n']) hindent
    rw [← hfirst] at hstart'
    have hscan' : (line.take 131 ++ ['&', '\n']).drop
        (codeStart .free (line.take 131 ++ ['&', '\n']) + 2) =
          t.take (129 - indent.length) ++ ['&', '\n'] := by
      rw [hstart'.1, hfirst, List.drop_append, List.drop_of_length_le (by omega),
        Nat.add_sub_cancel_left]
      rfl
    have hl := lineEndFree_mark (line.take 131) hbare.1
    rw [← hscan', htake] at hl
    rcases at_first hstart'.2 h rfl hl with ⟨s1, W1, L1, C1, hs1, hat1, hfalse, htrue⟩
    rw [← hrest] at hclosed hbare
    have hvalid : ∀ c, openAfter isQuote none (t.take (129 - indent.length)) = some c →
        isQuote c = true := by
      intro c hc
      refine isQuote_of_openAfter ?_ hc
      intro d hd
      cases hd
    rcases at_pieces (129 - (firstWord line).length) (130 - (firstWord line).length)
      (line.rdropWhile lineEnd).length ((line.rdropWhile lineEnd).length - 131) hw hat1 hvalid
        hbare.2
      hclosed with ⟨s', K, hs', hat, hsum, hkeep⟩
    have hpart := congrArg List.length (List.take_append_drop 131 line)
    have hkept := length_kept_le (remaining (129 - (firstWord line).length)
      (130 - (firstWord line).length) (line.rdropWhile lineEnd).length
      ((line.rdropWhile lineEnd).length - 131) (line.drop 131))
    rw [List.length_append, htake] at hpart
    have hzero : copied (some 131) (line.take 131 ++ ['&', '\n']) 0 = line.take 131 := by
      rw [copied, if_pos (Nat.zero_le 131), List.drop_zero, List.take_left' htake]
    have hshort : ∀ p, 0 < p →
        (copied (some 131) (line.take 131 ++ ['&', '\n']) p).length < 131 := by
      intro p hp
      have hlen2 : (line.take 131 ++ ['&', '\n']).length = 133 := by
        rw [List.length_append, htake]
        rfl
      simp only [copied]
      by_cases hq : p ≤ 131
      · rw [if_pos hq, List.length_drop, List.length_take, hlen2]
        omega
      · rw [if_neg hq, List.length_drop, hlen2]
        omega
    refine ⟨_, s', W1, L1 ++ K, C1, rfl, ?_, hat, ?_, ?_, ?_⟩
    · rw [List.foldlM_cons, hs1]
      exact hs'
    · intro hb hnone
      rcases hfalse hb with ⟨rfl, rfl, rfl⟩
      rw [hzero, hkeep hnone, List.append_nil, List.take_append_drop]
    · cases b with
      | false =>
          rcases hfalse rfl with ⟨rfl, rfl, rfl⟩
          simp only [hzero, List.length_append, List.length_nil, htake]
          omega
      | true =>
          rcases htrue rfl with ⟨p, hp, rfl, rfl, rfl⟩
          have hless := hshort p hp
          simp only [List.length_append]
          omega
    · intro hlost
      cases b with
      | false =>
          rcases hfalse rfl with ⟨rfl, rfl, rfl⟩
          have hless := length_kept_lt (hlost.resolve_left (by decide))
          simp only [hzero, List.length_append, List.length_nil, htake]
          omega
      | true =>
          rcases htrue rfl with ⟨p, hp, rfl, rfl, rfl⟩
          have hless := hshort p hp
          simp only [List.length_append]
          omega
  · simp only [if_neg hlt]
    rcases at_first hdir h rfl (lineEndFree_closed hclosed hbare) with
      ⟨s', W', L', C', hs', hat, hfalse, htrue⟩
    have hcopied := copied_zero line
    have hkept := length_kept_le line
    refine ⟨[line], s', W', L', C', rfl, ?_, ?_, ?_, ?_, ?_⟩
    · rw [List.foldlM_cons, hs']
      rfl
    · rw [goesOn, hall, Bool.or_false]
      exact hat
    · intro hb hnone
      rcases hfalse hb with ⟨rfl, rfl, rfl⟩
      rw [hcopied, kept_of_none hnone, List.append_nil]
    · cases b with
      | false =>
          rcases hfalse rfl with ⟨rfl, rfl, rfl⟩
          simp only [hcopied, List.length_append, List.length_nil]
          omega
      | true =>
          rcases htrue rfl with ⟨p, hp, rfl, rfl, rfl⟩
          have hless := length_copied_lt (ampAt passed line) hp hne
          simp only [List.length_append]
          omega
    · intro hlost
      cases b with
      | false =>
          rcases hfalse rfl with ⟨rfl, rfl, rfl⟩
          have hless := length_kept_lt (hlost.resolve_left (by decide))
          simp only [hcopied, List.length_append, List.length_nil]
          omega
      | true =>
          rcases htrue rfl with ⟨p, hp, rfl, rfl, rfl⟩
          have hless := length_copied_lt (ampAt passed line) hp hne
          simp only [List.length_append]
          omega

end Directives

section Files

/-- Whether nothing is lost: no directive ends in a `&`, and the one in front of another is
    not taken for one that is continued. `b` is set when that has happened already. -/
def keeps : Bool → List Text → Bool
  | _, [] => true
  | b, line :: lines =>
      if isDir .free line then
        !b && (ampAt passed (lastPiece line)).isNone && keeps (goesOn (lastPiece line)) lines
      else keeps b lines

variable {W L C : Text} {s : Joining} {b : Bool}

/-- A line that is no directive waits. -/
theorem at_other {line : Text} (hdir : isDir .free line = false)
    (hword : (firstWord line).length < 100)
    (h : At s W L C b none) :
    distributeLine .free .dir line = .ok [line] ∧
      ∃ s', concatFree .dir s line = .ok s' ∧ At s' W L (C ++ line) b none := by
  have hscope : inScope .free .dir line = false := by
    rw [inScope_dir, hdir]
  constructor
  · rw [distributeLine]
    simp only [if_neg (Nat.not_le.mpr hword), hscope, Bool.false_eq_true, if_false]
  · refine ⟨{ s.put_cl line with first := true }, ?_, ?_⟩
    · rw [concatFree]
      simp only [hscope, if_true]
    · exact ⟨h.written, h.line1, h.qq, by rw [Joining.put_cl, h.cls], h.prep, h.precon, h.predir,
        h.schar⟩

/-- The lines of a file. -/
theorem at_file (lines : List Text)
    (hlines : ∀ line ∈ lines, isDir .free line = true → IsDirectiveFree line)
    (hwords : ∀ line ∈ lines, (firstWord line).length < 100) (h : At s W L C b none) :
    ∃ outs s' W' L' C' b', lines.mapM (distributeLine .free .dir) = .ok outs ∧
      outs.flatten.foldlM (concatFree .dir) s = .ok s' ∧ At s' W' L' C' b' none ∧
      (keeps b lines = true → W' ++ L' ++ C' = W ++ L ++ C ++ lines.flatten) ∧
      (W' ++ L' ++ C').length ≤ (W ++ L ++ C ++ lines.flatten).length ∧
      (keeps b lines = false → (W' ++ L' ++ C').length <
        (W ++ L ++ C ++ lines.flatten).length) := by
  -- Directives may lose characters; every other line is carried along unchanged.
  induction lines generalizing s W L C b with
  | nil =>
      refine ⟨[], s, W, L, C, b, rfl, rfl, h, fun _ => ?_, ?_, fun hf => ?_⟩
      · rw [List.flatten_nil, List.append_nil]
      · rw [List.flatten_nil, List.append_nil]
      · rw [keeps] at hf
        cases hf
  | cons line lines ih =>
      rw [List.forall_mem_cons] at hlines hwords
      by_cases hdir : isDir .free line = true
      · rcases at_directive (hlines.1 hdir) hwords.1 h with
          ⟨out, s1, W1, L1, C1, hout, hs1, hat1, hsame, hle, hless⟩
        rcases ih hlines.2 hwords.2 hat1 with
          ⟨outs, s', W', L', C', b', houts, hs', hat, hsame', hle', hless'⟩
        refine ⟨out :: outs, s', W', L', C', b', ?_, ?_, hat, ?_, ?_, ?_⟩
        · rw [List.mapM_cons, hout, houts]
          rfl
        · rw [List.flatten_cons, List.foldlM_append, hs1]
          exact hs'
        · intro hk
          rw [keeps, if_pos hdir, Bool.and_eq_true, Bool.and_eq_true, Bool.not_eq_true',
            Option.isNone_iff_eq_none] at hk
          rw [hsame' hk.2, hsame hk.1.1 hk.1.2, List.flatten_cons, List.append_assoc]
        · simp only [List.flatten_cons, List.length_append] at *
          omega
        · intro hk
          rw [keeps, if_pos hdir, Bool.and_eq_false_iff] at hk
          simp only [List.flatten_cons, List.length_append] at *
          rcases hk with hk | hk
          · have hlost : b = true ∨ ampAt passed (lastPiece line) ≠ none := by
              rw [Bool.and_eq_false_iff, Bool.not_eq_false', Option.isNone_eq_false_iff] at hk
              refine hk.imp id fun hsome hnone => ?_
              rw [hnone] at hsome
              cases hsome
            have h1 := hless hlost
            omega
          · have h1 := hless' hk
            omega
      · rw [Bool.not_eq_true] at hdir
        rcases at_other hdir hwords.1 h with ⟨hout, s1, hs1, hat1⟩
        rcases ih hlines.2 hwords.2 hat1 with
          ⟨outs, s', W', L', C', b', houts, hs', hat, hsame', hle', hless'⟩
        have hflat : W ++ L ++ (C ++ line) ++ lines.flatten =
            W ++ L ++ C ++ (line :: lines).flatten := by
          rw [List.flatten_cons]
          simp only [List.append_assoc]
        rw [hflat] at hsame' hle' hless'
        refine ⟨[line] :: outs, s', W', L', C', b', ?_, ?_, hat, ?_, hle', ?_⟩
        · rw [List.mapM_cons, hout, houts]
          rfl
        · rw [List.flatten_cons, List.singleton_append, List.foldlM_cons, hs1]
          exact hs'
        · intro hk
          rw [keeps, hdir] at hk
          exact hsame' hk
        · intro hk
          rw [keeps, hdir] at hk
          exact hless' hk

/-- What `keeps` says. -/
theorem keeps_iff (lines : List Text) (b : Bool) :
    keeps b lines = true ↔
      (b = true → lines.filter (isDir .free) = []) ∧
        (∀ line ∈ lines.filter (isDir .free), ampAt passed (lastPiece line) = none) ∧
          ∀ line ∈ (lines.filter (isDir .free)).dropLast, (lastPiece line).all passed = false := by
  -- Only a directive behind which another one stands can swallow it.
  induction lines generalizing b with
  | nil => simp [keeps]
  | cons line lines ih =>
      by_cases hdir : isDir .free line = true
      · have hgo : ampAt passed (lastPiece line) = none →
            goesOn (lastPiece line) = (lastPiece line).all passed := by
          intro hnone
          rw [goesOn, hnone, Option.isSome_none, Bool.false_or]
        rw [keeps, if_pos hdir, Bool.and_eq_true, Bool.and_eq_true, Bool.not_eq_true',
          Option.isNone_iff_eq_none, ih, List.filter_cons_of_pos hdir, List.forall_mem_cons]
        constructor
        · intro h
          rcases h with ⟨⟨hb, hnone⟩, hgoes, hamps, hlasts⟩
          rw [hgo hnone] at hgoes
          refine ⟨fun hb' => absurd hb' (by rw [hb]; decide), ⟨hnone, hamps⟩, ?_⟩
          cases hrest : lines.filter (isDir .free) with
          | nil => simp
          | cons d ds =>
              rw [hrest] at hgoes hlasts
              rw [List.dropLast_cons_cons, List.forall_mem_cons]
              refine ⟨?_, hlasts⟩
              cases hall : (lastPiece line).all passed with
              | false => rfl
              | true => exact absurd (hgoes hall) (List.cons_ne_nil _ _)
        · intro h
          rcases h with ⟨hb, ⟨hnone, hamps⟩, hlasts⟩
          have hb' : b = false := by
            cases b with
            | false => rfl
            | true => exact absurd (hb rfl) (List.cons_ne_nil _ _)
          rw [hgo hnone]
          refine ⟨⟨hb', hnone⟩, ?_, hamps, ?_⟩
          · intro hall
            cases hrest : lines.filter (isDir .free) with
            | nil => rfl
            | cons d ds =>
                rw [hrest, List.dropLast_cons_cons, List.forall_mem_cons, hall] at hlasts
                exact absurd hlasts.1 (by decide)
          · intro d hd
            refine hlasts d ?_
            cases hrest : lines.filter (isDir .free) with
            | nil =>
                rw [hrest] at hd
                cases hd
            | cons e es =>
                rw [hrest] at hd
                rw [List.dropLast_cons_cons]
                exact List.mem_cons_of_mem _ hd
      · rw [keeps, if_neg hdir, ih, List.filter_cons_of_neg hdir]

end Files

section Width

/-- What remains of a line behind some of its columns. -/
theorem length_rdropWhile_drop (p : Text) (k : Nat) :
    ((p.drop k).rdropWhile lineEnd).length ≤ (p.rdropWhile lineEnd).length - k := by
  conv_lhs => rw [← (List.rdropWhile_append_rtakeWhile :
    p.rdropWhile lineEnd ++ p.rtakeWhile lineEnd = p), List.drop_append]
  rw [Trim.rdropWhile_append_of_forall _ fun c hc => List.mem_rtakeWhile_imp
    (List.mem_of_mem_drop hc)]
  have hle := (List.rdropWhile_prefix lineEnd ((p.rdropWhile lineEnd).drop k)).length_le
  rw [List.length_drop] at hle
  exact hle

theorem length_rdropWhile_append_le (s t : Text) :
    ((s ++ t).rdropWhile lineEnd).length ≤ s.length + (t.rdropWhile lineEnd).length := by
  rw [Trim.rdropWhile_append]
  by_cases h : t.rdropWhile lineEnd = []
  · rw [if_pos h]
    have hle := (List.rdropWhile_prefix lineEnd s).length_le
    omega
  · rw [if_neg h, List.length_append]

/-- The lines behind the first one. -/
theorem width_continued {lead trail : Text} {k limit width fuel n : Nat} {p l : Text} (hk : 0 < k)
    (hfuel : n ≤ fuel) (hn : (p.rdropWhile lineEnd).length ≤ n)
    (hpiece : lead.length + k + trail.length ≤ width) (hlast : lead.length + limit ≤ width)
    (hl : l ∈ continued lead trail k limit fuel n p) : (l.rdropWhile lineEnd).length ≤ width := by
  have hend : ∀ p n, (p.rdropWhile lineEnd).length ≤ n → n ≤ limit →
      ((lead ++ p).rdropWhile lineEnd).length ≤ width := by
    intro p n hn hle
    have happ := length_rdropWhile_append_le lead p
    omega
  induction fuel generalizing n p with
  | zero =>
      rw [continued, List.mem_singleton] at hl
      rw [hl]
      exact hend p n hn (by omega)
  | succ fuel ih =>
      rw [continued] at hl
      by_cases hlt : limit < n
      · rw [if_pos hlt, List.mem_cons] at hl
        rcases hl with rfl | hl
        · rw [List.rdropWhile_concat_pos _ _ _ (by decide)]
          have hle := (List.rdropWhile_prefix lineEnd (lead ++ p.take k ++ trail)).length_le
          rw [List.length_append, List.length_append, List.length_take] at hle
          omega
        · have hdrop := length_rdropWhile_drop p k
          exact ih (by omega) (by omega) hl
      · rw [if_neg hlt, List.mem_singleton] at hl
        rw [hl]
        exact hend p n hn (by omega)

/-- The lines written for a directive have at most 132 columns. -/
theorem width_directive {line l : Text} {out : List Text} (hline : IsDirectiveFree line)
    (hdir : isDir .free line = true) (hout : distributeLine .free .dir line = .ok out)
      (hl : l ∈ out) :
    (l.rdropWhile lineEnd).length ≤ 132 := by
  have hscan := found_closed (scan_spec _) hline.closed hline.bare
  have hscope : inScope .free .dir line = true := by
    rw [inScope_dir, hdir]
  rw [distributeLine] at hout
  by_cases hword : 100 ≤ (firstWord line).length
  · simp only [if_pos hword] at hout
    cases hout
  · simp only [if_neg hword, hscope, hdir, if_true, hscan, extent, List.take_append_drop] at hout
    by_cases hlt : 132 < (line.rdropWhile lineEnd).length
    · rw [if_pos hlt, Except.ok.injEq] at hout
      subst hout
      rw [List.mem_cons] at hl
      rcases hl with rfl | hl
      · have happ := length_rdropWhile_append_le (line.take 131) ['&', '\n']
        have htake := List.length_take_le 131 line
        have hmark : ((['&', '\n'] : Text).rdropWhile lineEnd).length = 1 := rfl
        omega
      · have hdrop := length_rdropWhile_drop line 131
        refine width_continued (by omega) (by omega) hdrop ?_ ?_ hl
        · rw [List.length_append]
          simp only [List.length_cons, List.length_nil]
          omega
        · rw [List.length_append]
          simp only [List.length_cons, List.length_nil]
          omega
    · rw [if_neg hlt, Except.ok.injEq] at hout
      subst hout
      rw [List.mem_singleton] at hl
      rw [hl]
      omega

end Width

section Result

/-- Breaking and joining the directives of a file gives the file again, and no line that is
    written for a directive is too wide. -/
def KeepsFree (namelist : List PragmaName) (lines : List Text) : Prop :=
  (∃ out, distribute .free .dir lines = .ok out ∧
    concat .free .dir namelist out = .ok lines.flatten) ∧
  ∀ line ∈ lines, isDir .free line = true → ∀ out, distributeLine .free .dir line = .ok out →
    ∀ l ∈ out, (l.rdropWhile lineEnd).length ≤ 132

/-- No first word overflows its array. -/
theorem length_of_distribute {lines out : List Text} (h : distribute .free .dir lines = .ok out) :
    ∀ line ∈ lines, (firstWord line).length < 100 := by
  rw [distribute, bind_eq_ok_iff] at h
  rcases h with ⟨outs, houts, hflat⟩
  clear hflat
  induction lines generalizing outs with
  | nil =>
      intro line hline
      cases hline
  | cons line lines ih =>
      rw [List.mapM_cons, bind_eq_ok_iff] at houts
      rcases houts with ⟨o, ho, houts⟩
      rw [bind_eq_ok_iff] at houts
      rcases houts with ⟨os, hos, _⟩
      rw [List.forall_mem_cons]
      refine ⟨?_, ih os hos⟩
      by_contra hlong
      rw [distributeLine] at ho
      simp only [if_pos (Nat.not_lt.mp hlong)] at ho
      cases ho

/-- The files that are kept. -/
theorem concat_distribute_free_iff (namelist : List PragmaName) (lines : List Text)
    (hlines : ∀ line ∈ lines, isDir .free line = true → IsDirectiveFree line) :
    KeepsFree namelist lines ↔
      (∀ line ∈ lines, (firstWord line).length < 100) ∧
        (∀ line ∈ lines.filter (isDir .free), ampAt passed (lastPiece line) = none) ∧
          ∀ line ∈ (lines.filter (isDir .free)).dropLast,
            (lastPiece line).all passed = false := by
  have hstart : At Joining.start [] [] [] false none :=
    ⟨rfl, rfl, rfl, rfl, rfl, rfl, fun h => absurd h (by decide), rfl⟩
  have hwhole : ∀ hwords : ∀ line ∈ lines, (firstWord line).length < 100,
      ∃ out text, distribute .free .dir lines = .ok out ∧
        concat .free .dir namelist out = .ok text ∧
        (keeps false lines = true → text = lines.flatten) ∧
        (keeps false lines = false → text.length < lines.flatten.length) := by
    intro hwords
    rcases at_file lines hlines hwords hstart with
      ⟨outs, s', W, L, C, b, houts, hs', hat, hsame, _, hless⟩
    refine ⟨outs.flatten, W ++ L ++ C, ?_, ?_, hsame, hless⟩
    · rw [distribute, houts]
      rfl
    · have hflush := flush_at hat
      rw [concat]
      simp only [hs', bind, Except.bind, hflush]
  constructor
  · intro h
    rcases h with ⟨⟨out, hout, htext⟩, _⟩
    have hwords := length_of_distribute hout
    rcases hwhole hwords with ⟨out', text, hout', htext', _, hless⟩
    rw [hout, Except.ok.injEq] at hout'
    subst hout'
    rw [htext, Except.ok.injEq] at htext'
    -- Where a directive is swallowed the text that comes back is shorter.
    cases hk : keeps false lines with
    | true => exact ⟨hwords, ((keeps_iff lines false).mp hk).2⟩
    | false =>
        have hlt := hless hk
        rw [← htext'] at hlt
        omega
  · intro h
    rcases h with ⟨hwords, hamps, hlasts⟩
    have hk := (keeps_iff lines false).mpr ⟨fun hb => absurd hb (by decide), hamps, hlasts⟩
    rcases hwhole hwords with ⟨out, text, hout, htext, hsame, _⟩
    rw [hsame hk] at htext
    exact ⟨⟨out, hout, htext⟩, fun line hline hdir o ho l hl =>
      width_directive (hlines line hline hdir) hdir ho hl⟩

/-- A directive of 136 columns with a string that is broken, and one with blanks behind
    column 131. -/
def stringLine : Text := "!$xev s('".toList ++ List.replicate 124 'b' ++ "')\n".toList

def blankLine : Text := "!$xev t ".toList ++ List.replicate 125 ' ' ++ ['\n']

theorem isDirectiveFree_stringLine : IsDirectiveFree stringLine := by
  refine ⟨⟨by decide +kernel, by decide +kernel, by decide +kernel⟩, by decide +kernel, ?_, ?_⟩
  · decide +kernel
  · decide +kernel

theorem isDirectiveFree_blankLine : IsDirectiveFree blankLine := by
  refine ⟨⟨by decide +kernel, by decide +kernel, by decide +kernel⟩, by decide +kernel, ?_, ?_⟩
  · decide +kernel
  · decide +kernel

theorem concat_distribute_string : KeepsFree [] [stringLine, stringLine, blankLine] := by
  have hlines : ∀ line ∈ [stringLine, stringLine, blankLine], isDir .free line = true →
      IsDirectiveFree line := by
    intro line hline _
    simp only [List.mem_cons, List.not_mem_nil, or_false] at hline
    rcases hline with rfl | rfl | rfl
    · exact isDirectiveFree_stringLine
    · exact isDirectiveFree_stringLine
    · exact isDirectiveFree_blankLine
  refine (concat_distribute_free_iff [] _ hlines).mpr ⟨?_, ?_, ?_⟩
  · decide +kernel
  · decide +kernel
  · decide +kernel

/-- The first word of the second directive is lost. -/
theorem blankLine_not_kept :
    IsDirectiveFree blankLine ∧ IsDirectiveFree stringLine ∧
      ¬ KeepsFree [] [blankLine, stringLine] ∧
      ∃ out, distribute .free .dir [blankLine, stringLine] = .ok out ∧
        concat .free .dir [] out = .ok (blankLine ++ stringLine.drop 5) := by
  have hout : ∃ out, distribute .free .dir [blankLine, stringLine] = .ok out ∧
      concat .free .dir [] out = .ok (blankLine ++ stringLine.drop 5) := by
    refine ⟨[blankLine.take 131 ++ ['&', '\n'], "!$xev &".toList ++ blankLine.drop 131,
      stringLine.take 131 ++ ['&', '\n'], "!$xev &".toList ++ stringLine.drop 131], ?_, ?_⟩
    · decide +kernel
    · decide +kernel
  refine ⟨isDirectiveFree_blankLine, isDirectiveFree_stringLine, ?_, hout⟩
  intro h
  rcases h with ⟨⟨out, ho, htext⟩, _⟩
  rcases hout with ⟨out', ho', htext'⟩
  rw [ho, Except.ok.injEq] at ho'
  subst ho'
  rw [htext, Except.ok.injEq] at htext'
  have hlen := congrArg List.length htext'
  exact absurd hlen (by decide +kernel)

end Result

end XevXml.Tools
