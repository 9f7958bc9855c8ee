import XevXml.Tools.Passes.Codes

/-!
# Placeholders

A directive is scanned three times for the pieces of code in it. The first pass writes a
call for every piece, wherever it stands in the line. The parser makes a placeholder of a
piece that stands where a term may stand, and stops at a comment. The unparser writes a
number for every placeholder and counts the numbers in what it has written.

What the parser has read of a line is a row of calm texts, in which strings are closed and
neither a backquote nor an exclamation mark stands outside of them, and of pieces. So it
takes as many expressions as calls have been written for this part of the line, and the
calls for pieces in a comment are left.

## Main definitions

* `piecesOf`: The pieces that calls are written for.
* `commentOf`: What stands behind the pieces and the strings from an exclamation mark on.
* `Spans`: A text of calm parts and pieces.
* `count_exp`: The number of placeholders in a text.

## Theorems

* `extract_exp_eq`: The calls that are written for a line.
* `piecesOf_spans`, `commentOf_spans`: Such a text in front of another one.
* `count_exp_spans`: The pieces of such a text are counted.
-/

namespace XevXml.Tools.Passes

open Quoting

section Pieces

variable (line : Text)

/-- The call for a piece of code. -/
def callText (e : Text) : Text := "       call xevparse_extract_exp(".toList ++ e ++ [')', '\n']

/-- The pieces of code in a text that is a part of `line`. -/
def piecesFrom : Nat → Text → Run (List Text)
  | 0, _ => .error .bound
  | fuel + 1, s =>
      match strchrF s '`' with
      | none => .ok []
      | some p =>
          match strchrF p.tail '`' with
          | none => .error (.exit ("unknown line: " ++ String.ofList line))
          | some q => do
              let es ← piecesFrom fuel q.tail
              .ok (p.tail.take (p.tail.length - q.length) :: es)

def piecesOf (s : Text) : Run (List Text) := piecesFrom line (s.length + 1) s

theorem extractFrom_eq (fuel : Nat) (s : Text) :
    extractFrom line fuel s = (piecesFrom line fuel s).map fun es => es.flatMap callText := by
  induction fuel generalizing s with
  | zero => rfl
  | succ fuel ih =>
      rw [extractFrom, piecesFrom]
      cases strchrF s '`' with
      | none => rfl
      | some p =>
          dsimp only
          cases strchrF p.tail '`' with
          | none => rfl
          | some q =>
              dsimp only
              rw [ih]
              cases piecesFrom line fuel q.tail with
              | error e => rfl
              | ok es => rfl

/-- A call is written for every piece of code in a line. -/
theorem extract_exp_eq :
    extract_exp line = (piecesOf line line).map fun es => es.flatMap callText :=
  extractFrom_eq line _ line

theorem strchrF_suffix {s p : Text} (h : strchrF s '`' = some p) :
    ∃ f, s = f ++ p ∧ Clear f ∧ p.head? = some '`' := by
  rcases strchrF_spec s with ⟨hnone, -⟩ | ⟨f, r, hs, hf, hsome⟩
  · rw [hnone] at h
    cases h
  · rw [hsome, Option.some.injEq] at h
    subst h
    exact ⟨f, hs, hf, rfl⟩

theorem length_tail_lt {s p : Text} (h : strchrF s '`' = some p) : p.tail.length < s.length := by
  obtain ⟨f, rfl, -, hhead⟩ := strchrF_suffix h
  cases p with
  | nil => cases hhead
  | cons c p =>
      rw [List.tail_cons, List.length_append, List.length_cons]
      omega

/-- The number of steps does not matter. -/
theorem piecesFrom_congr (m n : Nat) (s : Text) (hm : s.length < m) (hn : s.length < n) :
    piecesFrom line m s = piecesFrom line n s := by
  induction m generalizing n s with
  | zero => exact absurd hm (Nat.not_lt_zero _)
  | succ m ih =>
      obtain ⟨n, rfl⟩ := Nat.exists_eq_add_of_le' (Nat.one_le_of_lt hn)
      rw [piecesFrom, piecesFrom]
      cases hp : strchrF s '`' with
      | none => rfl
      | some p =>
          dsimp only
          cases hq : strchrF p.tail '`' with
          | none => rfl
          | some q =>
              have hlen := length_tail_lt hp
              have hlen' := length_tail_lt hq
              dsimp only
              rw [ih n q.tail (by omega) (by omega)]

theorem strchrF_append_clear {t : Text} (ht : Clear t) (r : Text) :
    strchrF (t ++ r) '`' = strchrF r '`' := by
  rcases strchrF_spec r with ⟨hnone, hbare⟩ | ⟨p, u, rfl, hp, hsome⟩
  · rw [hnone]
    refine strchrF_bare ?_
    rw [bare_append, ht.closed, ht.bare, hbare]
    rfl
  · rw [hsome, ← List.append_assoc]
    exact strchrF_clear (ht.append hp) u

variable {line}

theorem piecesOf_nil_iff {s : Text} : piecesOf line s = .ok [] ↔ strchrF s '`' = none := by
  rw [piecesOf, piecesFrom]
  cases hp : strchrF s '`' with
  | none => simp
  | some p =>
      simp only [reduceCtorEq, iff_false]
      intro h
      split at h
      · cases h
      · rcases (bind_eq_ok_iff _ _ _).mp h with ⟨es, -, heq⟩
        cases heq

theorem piecesOf_clear {t : Text} (ht : Clear t) (r : Text) :
    piecesOf line (t ++ r) = piecesOf line r := by
  rw [piecesOf, piecesOf, piecesFrom_congr line (r.length + 1) ((t ++ r).length + 1) r
    (Nat.lt_succ_self _) (by rw [List.length_append]; omega), piecesFrom, piecesFrom,
    strchrF_append_clear ht]

theorem piecesOf_code {e : Text} (he : Clear e) (r : Text) :
    piecesOf line ('`' :: (e ++ '`' :: r)) = (piecesOf line r).map fun es => e :: es := by
  have hopen : strchrF ('`' :: (e ++ '`' :: r)) '`' = some ('`' :: (e ++ '`' :: r)) :=
    strchrF_clear clear_nil _
  have hclose : strchrF (e ++ '`' :: r) '`' = some ('`' :: r) := strchrF_clear he r
  have htake : (e ++ '`' :: r).take ((e ++ '`' :: r).length - ('`' :: r).length) = e := by
    rw [List.length_append, Nat.add_sub_cancel, List.take_left]
  have hrest : piecesFrom line ('`' :: (e ++ '`' :: r)).length r = piecesOf line r :=
    piecesFrom_congr line _ _ r (by simp only [List.length_cons, List.length_append]; omega)
      (Nat.lt_succ_self _)
  rw [piecesOf, piecesFrom, hopen]
  dsimp only [List.tail_cons]
  rw [hclose]
  dsimp only [List.tail_cons]
  rw [hrest, htake]
  cases piecesOf line r with
  | error e => rfl
  | ok es => rfl

end Pieces

section Comments

/-- What stands behind the strings and the pieces of code of a text from an exclamation mark
    on. -/
def commentFrom : Bool → Option Char → Text → Text
  | _, _, [] => []
  | piece, q, c :: s =>
      if q.isSome then commentFrom piece (toggle isQuote q c) s
      else if c = '`' then commentFrom (!piece) q s
      else if c = '!' ∧ piece = false then c :: s
      else commentFrom piece (toggle isQuote q c) s

def commentOf (s : Text) : Text := commentFrom false none s

/-- The strings of a text are closed, and neither a backquote nor an exclamation mark stands
    outside of them. -/
structure Calm (t : Text) : Prop where
  clear : Clear t
  mark : bare isQuote '!' none t = true

theorem commentFrom_calm {t : Text} {q : Option Char} (hcode : bare isQuote '`' q t = true)
    (hmark : bare isQuote '!' q t = true) (r : Text) :
    commentFrom false q (t ++ r) = commentFrom false (openAfter isQuote q t) r := by
  induction t generalizing q with
  | nil => rfl
  | cons c t ih =>
      rw [Quoting.bare, Bool.and_eq_true] at hcode hmark
      rw [List.cons_append, commentFrom, openAfter_cons, ← ih hcode.2 hmark.2]
      cases q with
      | some q => rfl
      | none =>
          have hcode' : c ≠ '`' := by simpa using hcode.1
          have hmark' : c ≠ '!' := by simpa using hmark.1
          rw [if_neg (by simp), if_neg hcode', if_neg fun h => hmark' h.1]

theorem commentFrom_piece {t : Text} {q : Option Char} (hcode : bare isQuote '`' q t = true)
    (r : Text) : commentFrom true q (t ++ r) = commentFrom true (openAfter isQuote q t) r := by
  induction t generalizing q with
  | nil => rfl
  | cons c t ih =>
      rw [Quoting.bare, Bool.and_eq_true] at hcode
      rw [List.cons_append, commentFrom, openAfter_cons, ← ih hcode.2]
      cases q with
      | some q => rfl
      | none =>
          have hcode' : c ≠ '`' := by simpa using hcode.1
          rw [if_neg (by simp), if_neg hcode', if_neg fun h => absurd h.2 (by decide)]

theorem calm_of_plain {t : Text} (h : ∀ c ∈ t, isQuote c = false ∧ c ≠ '`' ∧ c ≠ '!') : Calm t where
  clear := clear_of_plain fun c hc => ⟨(h c hc).1, (h c hc).2.1⟩
  mark := bare_of_not fun c hc => ⟨(h c hc).1, (h c hc).2.2⟩

theorem Calm.append {s t : Text} (hs : Calm s) (ht : Calm t) : Calm (s ++ t) where
  clear := hs.clear.append ht.clear
  mark := by
    rw [bare_append, hs.clear.closed, hs.mark, ht.mark]
    rfl

/-- The string that a text starts with is calm. -/
theorem calm_of_endstrF {c : Char} {s s1 s2 : Text} (hc : isQuote c = true)
    (h : endstrF (c :: s) = some (s1, s2)) : c :: s = s1 ++ s2 ∧ Calm s1 := by
  obtain ⟨hsplit, -, hclear⟩ := clear_of_endstrF hc h
  refine ⟨hsplit, hclear, ?_⟩
  rw [endstrF] at h
  rcases Option.map_eq_some_iff.mp h with ⟨p, hclose, heq⟩
  have hmark : isQuote '!' = false := rfl
  rcases closing_some hmark hc hclose with ⟨-, -, -, hbare⟩
  cases heq
  rw [Quoting.bare, toggle, if_pos hc, hbare, decide_eq_true (isQuote_ne_mark hmark hc)]
  rfl

end Comments

section Skeletons

/-- What the parser sees of a text outside of strings and pieces. -/
inductive Sym
  | piece
  | opened
  | closed
  | comma
  | colon
  | other
deriving DecidableEq, Repr

def symbol (c : Char) : List Sym :=
  if blank c then []
  else if c = '(' then [.opened]
  else if c = ')' then [.closed]
  else if c = ',' then [.comma]
  else if c = ':' then [.colon]
  else [.other]

def skeletonFrom : Bool → Option Char → Text → List Sym
  | _, _, [] => []
  | piece, q, c :: s =>
      if q.isSome then skeletonFrom piece (toggle isQuote q c) s
      else if c = '`' then
        if piece then .piece :: skeletonFrom false q s else skeletonFrom true q s
      else if piece then skeletonFrom piece (toggle isQuote q c) s
      else symbol c ++ skeletonFrom piece (toggle isQuote q c) s

def skeleton (s : Text) : List Sym := skeletonFrom false none s

/-- More pieces in the argument that is being read. -/
def bump (n : Nat) : List (Nat × Nat) → List (Nat × Nat)
  | [] => []
  | (total, k) :: st => (total, k + n) :: st

/-- The number of pieces in first halves of pairs without a second one. For every list of
    arguments that is open, the pieces of its arguments are counted, and those of the argument
    that is being read. -/
def lost : Bool → List (Nat × Nat) → List Sym → Nat
  | _, _, [] => 0
  | _, st, .piece :: w => lost false (bump 1 st) w
  | _, st, .opened :: w => lost false ((0, 0) :: st) w
  | _, (total, k) :: st, .comma :: w => lost false ((total + k, 0) :: st) w
  | _, [], .comma :: w => lost false [] w
  | _, st, .colon :: w => lost true st w
  | _, st, .other :: w => lost false st w
  | true, (total, k) :: st, .closed :: w => k + lost false (bump total st) w
  | false, (total, k) :: st, .closed :: w => lost false (bump (total + k) st) w
  | _, [], .closed :: w => lost false [] w

theorem bump_zero (st : List (Nat × Nat)) : bump 0 st = st := by
  cases st <;> rfl

theorem bump_bump (m n : Nat) (st : List (Nat × Nat)) : bump n (bump m st) = bump (m + n) st := by
  cases st with
  | nil => rfl
  | cons f st => simp only [bump, Nat.add_assoc]

theorem skeleton_char {c : Char} (hc : isQuote c = false) (hcode : c ≠ '`') (r : Text) :
    skeleton (c :: r) = symbol c ++ skeleton r := by
  rw [skeleton, skeletonFrom, if_neg (by simp), if_neg hcode, if_neg Bool.false_ne_true,
    toggle_of_not hc, skeleton]

theorem skeleton_blanks {s : Text} (h : ∀ c ∈ s, blank c = true) (r : Text) :
    skeleton (s ++ r) = skeleton r := by
  induction s with
  | nil => rfl
  | cons c s ih =>
      obtain ⟨hc, hs⟩ := List.forall_mem_cons.mp h
      have hquote : isQuote c = false := by
        rw [Bool.eq_false_iff, Ne, isQuote_iff]
        rintro (rfl | rfl) <;> exact absurd hc (by decide)
      have hcode : c ≠ '`' := by
        rintro rfl
        exact absurd hc (by decide)
      rw [List.cons_append, skeleton_char hquote hcode, symbol, if_pos hc, ih hs]
      rfl

/-- A character that says nothing more than that something stands there. -/
structure Other (c : Char) : Prop where
  quote : isQuote c = false
  code : c ≠ '`'
  mark : c ≠ '!'
  symbol : symbol c = [.other]

theorem other_of_nameChar {c : Char} (h : nameChar c = true) : Other c where
  quote := by
    rw [Bool.eq_false_iff, Ne, isQuote_iff]
    rintro (rfl | rfl) <;> exact absurd h (by decide)
  code := ne_of_nameChar h (by decide)
  mark := ne_of_nameChar h (by decide)
  symbol := by
    rw [Passes.symbol, if_neg (by rw [blank_of_nameChar h]; decide),
      if_neg (ne_of_nameChar h (by decide)), if_neg (ne_of_nameChar h (by decide)),
      if_neg (ne_of_nameChar h (by decide)), if_neg (ne_of_nameChar h (by decide))]

theorem calm_of_others {t : Text} (h : ∀ c ∈ t, Other c) : Calm t :=
  calm_of_plain fun c hc => ⟨(h c hc).quote, (h c hc).code, (h c hc).mark⟩

theorem lost_other (b : Bool) (st : List (Nat × Nat)) (w : List Sym) :
    lost b st (.other :: w) = lost false st w := by
  cases b <;> cases st <;> rfl

theorem lost_piece (b : Bool) (st : List (Nat × Nat)) (w : List Sym) :
    lost b st (.piece :: w) = lost false (bump 1 st) w := by
  cases b <;> cases st <;> rfl

theorem lost_opened (b : Bool) (st : List (Nat × Nat)) (w : List Sym) :
    lost b st (.opened :: w) = lost false ((0, 0) :: st) w := by
  cases b <;> cases st <;> rfl

theorem lost_colon (b : Bool) (st : List (Nat × Nat)) (w : List Sym) :
    lost b st (.colon :: w) = lost true st w := by
  cases b <;> cases st <;> rfl

theorem lost_comma (b : Bool) (total k : Nat) (st : List (Nat × Nat)) (w : List Sym) :
    lost b ((total, k) :: st) (.comma :: w) = lost false ((total + k, 0) :: st) w := by
  cases b <;> rfl

theorem lost_others (b : Bool) (st : List (Nat × Nat)) {t : Text} (hb : t = [] → b = false)
    (h : ∀ c ∈ t, Other c) (w : Text) :
    lost b st (skeleton (t ++ w)) = lost false st (skeleton w) := by
  induction t generalizing b with
  | nil => rw [hb rfl, List.nil_append]
  | cons c t ih =>
      obtain ⟨hc, ht⟩ := List.forall_mem_cons.mp h
      rw [List.cons_append, skeleton_char hc.quote hc.code, hc.symbol, List.singleton_append,
        lost_other]
      exact ih false (fun _ => rfl) ht

theorem skeleton_quote {q : Char} (hq : isQuote q = true) (r : Text) :
    skeleton (q :: r) = .other :: skeletonFrom false (some q) r := by
  have hcode : q ≠ '`' := isQuote_ne_mark backquote_not_quote hq
  have hsymbol : symbol q = [.other] := by
    rcases (isQuote_iff q).mp hq with rfl | rfl <;> rfl
  rw [skeleton, skeletonFrom, if_neg (by simp), if_neg hcode, if_neg Bool.false_ne_true, toggle,
    if_pos hq, hsymbol, List.singleton_append]

/-- Inside of a string a doubled quote opens it once more, and nothing else is seen. -/
theorem lost_closing {q : Char} (hq : isQuote q = true) {s s1 s2 : Text}
    (h : closing q s = some (s1, s2)) (st : List (Nat × Nat)) (r : Text) :
    lost false st (skeletonFrom false (some q) (s1 ++ r)) = lost false st (skeleton r) := by
  have hclose : ∀ t, skeletonFrom false (some q) (q :: t) = skeleton t := by
    intro t
    rw [skeletonFrom, if_pos Option.isSome_some, toggle, if_pos rfl, skeleton]
  fun_induction closing q s generalizing s1 s2 with
  | case1 => cases h
  | case2 =>
      cases h
      rw [List.singleton_append, hclose]
  | case3 => cases h
  | case4 s ih =>
      rcases Option.map_eq_some_iff.mp h with ⟨⟨x, y⟩, hxy, heq⟩
      cases heq
      rw [List.cons_append, List.cons_append, hclose, skeleton_quote hq, lost_other]
      exact ih hxy
  | case5 d s hd =>
      cases h
      rw [List.singleton_append, hclose]
  | case6 c d s hc ih =>
      rcases Option.map_eq_some_iff.mp h with ⟨⟨x, y⟩, hxy, heq⟩
      cases heq
      rw [List.cons_append, skeletonFrom, if_pos Option.isSome_some, toggle, if_neg hc]
      exact ih hxy

theorem lost_string {c : Char} {s s1 s2 : Text} (hc : isQuote c = true)
    (h : endstrF (c :: s) = some (s1, s2)) (b : Bool) (st : List (Nat × Nat)) (r : Text) :
    lost b st (skeleton (s1 ++ r)) = lost false st (skeleton r) := by
  rw [endstrF] at h
  rcases Option.map_eq_some_iff.mp h with ⟨p, hclose, heq⟩
  cases heq
  rw [List.cons_append, skeleton_quote hc, lost_other]
  exact lost_closing hc hclose st r

theorem skeleton_piece {e : Text} (he : Clear e) (r : Text) :
    skeleton ('`' :: (e ++ '`' :: r)) = .piece :: skeleton r := by
  have hinside : ∀ (t : Text) (q : Option Char), Quoting.bare isQuote '`' q t = true → ∀ r,
      skeletonFrom true q (t ++ r) = skeletonFrom true (openAfter isQuote q t) r := by
    intro t
    induction t with
    | nil => exact fun _ _ _ => rfl
    | cons c t ih =>
        intro q hbare r
        rw [Quoting.bare, Bool.and_eq_true] at hbare
        rw [List.cons_append, skeletonFrom, openAfter_cons, ← ih _ hbare.2]
        cases q with
        | some q => rfl
        | none =>
            have hcode : c ≠ '`' := by simpa using hbare.1
            rw [if_neg (by simp), if_neg hcode, if_pos rfl]
  rw [skeleton, skeletonFrom, if_neg (by simp), if_pos rfl, if_neg Bool.false_ne_true,
    hinside e none he.bare, he.closed, skeletonFrom, if_neg (by simp), if_pos rfl, if_pos rfl,
    skeleton]

end Skeletons

section Spans

/-- A text of calm parts and pieces of code. -/
inductive Spans : Text → List Text → Prop
  | calm {t : Text} : Calm t → Spans t []
  | code {e : Text} : Clear e → Spans ('`' :: (e ++ ['`'])) [e]
  | append {s t : Text} {es fs : List Text} : Spans s es → Spans t fs → Spans (s ++ t) (es ++ fs)

theorem Spans.cons {c : Char} {t : Text} {es : List Text}
    (hc : isQuote c = false ∧ c ≠ '`' ∧ c ≠ '!') (ht : Spans t es) : Spans (c :: t) es := by
  have hone : Calm [c] := calm_of_plain fun d hd => (List.mem_singleton.mp hd) ▸ hc
  exact (Spans.calm hone).append ht

theorem piecesOf_spans {line s : Text} {es : List Text} (h : Spans s es) (r : Text) :
    piecesOf line (s ++ r) = (piecesOf line r).map fun fs => es ++ fs := by
  induction h generalizing r with
  | calm ht =>
      rw [piecesOf_clear ht.clear]
      cases piecesOf line r <;> rfl
  | @code e he =>
      have htext : '`' :: (e ++ ['`']) ++ r = '`' :: (e ++ '`' :: r) := by simp
      rw [htext, piecesOf_code he]
      rfl
  | append _ _ ihs iht =>
      rw [List.append_assoc, ihs, iht]
      cases piecesOf line r with
      | error e => rfl
      | ok fs => exact congrArg Except.ok (List.append_assoc _ _ _).symm

theorem commentOf_spans {s : Text} {es : List Text} (h : Spans s es) (r : Text) :
    commentOf (s ++ r) = commentOf r := by
  induction h generalizing r with
  | calm ht => rw [commentOf, commentFrom_calm ht.clear.bare ht.mark, ht.clear.closed, commentOf]
  | @code e he =>
      have htext : '`' :: (e ++ ['`']) ++ r = '`' :: (e ++ '`' :: r) := by simp
      rw [htext, commentOf, commentFrom, if_neg (by simp), if_pos rfl]
      exact (commentFrom_piece he.bare _).trans (by rw [he.closed]; rfl)
  | append _ _ ihs iht => rw [List.append_assoc, ihs, iht]

end Spans

section Counting

/-- Counts the pieces of a text. At a quote the search goes on behind its string, and has no
    place to go on at if the string is not closed. -/
def countFrom : Nat → Text → Run Nat
  | 0, _ => .error .bound
  | _ + 1, [] => .ok 0
  | fuel + 1, c :: s =>
      if isQuote c then
        match endstrF (c :: s) with
        | none => .error .undefined
        | some (_, rest) => countFrom fuel rest
      else if c = '`' then
        match s.dropWhile (· != '`') with
        | [] => .error .assertion
        | _ :: rest => (countFrom fuel rest).map (· + 1)
      else countFrom fuel s

/-- The number of placeholders in a text. -/
def count_exp (s : Text) : Run Nat := countFrom (s.length + 1) s

theorem countFrom_congr (m n : Nat) (s : Text) (hm : s.length < m) (hn : s.length < n) :
    countFrom m s = countFrom n s := by
  induction m generalizing n s with
  | zero => exact absurd hm (Nat.not_lt_zero _)
  | succ m ih =>
      obtain ⟨n, rfl⟩ := Nat.exists_eq_add_of_le' (Nat.one_le_of_lt hn)
      cases s with
      | nil => rfl
      | cons c s =>
          rw [List.length_cons] at hm hn
          rw [countFrom, countFrom]
          by_cases hc : isQuote c = true
          · rw [if_pos hc, if_pos hc]
            cases hend : endstrF (c :: s) with
            | none => rfl
            | some p =>
                obtain ⟨-, hlen, -⟩ := clear_of_endstrF hc hend
                rw [List.length_cons] at hlen
                exact ih n p.2 (by omega) (by omega)
          rw [if_neg hc, if_neg hc]
          by_cases hcode : c = '`'
          · rw [if_pos hcode, if_pos hcode]
            cases hdrop : s.dropWhile (· != '`') with
            | nil => rfl
            | cons d rest =>
                have hlen := (List.dropWhile_suffix (· != '`') (l := s)).length_le
                rw [hdrop, List.length_cons] at hlen
                dsimp only
                rw [ih n rest (by omega) (by omega)]
          · rw [if_neg hcode, if_neg hcode]
            exact ih n s (by omega) (by omega)

/-- The count goes on at the first backquote. -/
theorem countFrom_of_strchrFrom (n m : Nat) {s p : Text} (h : strchrFrom '`' n s = some p)
    (hm : s.length < m) : countFrom m s = count_exp p := by
  induction n generalizing s m with
  | zero => cases h
  | succ n ih =>
      obtain ⟨m, rfl⟩ := Nat.exists_eq_add_of_le' (Nat.one_le_of_lt hm)
      cases s with
      | nil => cases h
      | cons c s =>
          rw [strchrFrom] at h
          by_cases hcode : c = '`'
          · rw [if_pos hcode, Option.some.injEq] at h
            subst h
            exact countFrom_congr _ _ _ hm (Nat.lt_succ_self _)
          rw [if_neg hcode] at h
          rw [List.length_cons] at hm
          rw [countFrom]
          by_cases hc : c = '\'' ∨ c = '"'
          · have hquote : isQuote c = true := (isQuote_iff c).mpr hc
            rw [if_pos hc] at h
            rw [if_pos hquote]
            cases hend : endstrF (c :: s) with
            | none =>
                rw [hend] at h
                cases h
            | some q =>
                obtain ⟨-, hlen, -⟩ := clear_of_endstrF hquote hend
                rw [List.length_cons] at hlen
                rw [hend] at h
                exact ih m h (by omega)
          · have hquote : ¬ isQuote c = true := fun hq => hc ((isQuote_iff c).mp hq)
            rw [if_neg hc] at h
            rw [if_neg hquote, if_neg hcode]
            exact ih m h (by omega)

/-- In a text without a backquote outside of its strings, the count ends at a string that is
    not closed. -/
theorem countFrom_bare (m : Nat) {s : Text} (h : Quoting.bare isQuote '`' none s = true)
    (hm : s.length < m) :
    countFrom m s = if openAfter isQuote none s = none then .ok 0 else .error .undefined := by
  induction m generalizing s with
  | zero => exact absurd hm (Nat.not_lt_zero _)
  | succ m ih =>
      cases s with
      | nil => rfl
      | cons c s =>
          rw [List.length_cons] at hm
          rw [countFrom]
          by_cases hc : isQuote c = true
          · rw [if_pos hc]
            cases hend : endstrF (c :: s) with
            | none =>
                rw [endstrF] at hend
                obtain ⟨hopen, -⟩ :=
                  closing_none backquote_not_quote hc (Option.map_eq_none_iff.mp hend)
                rw [openAfter_cons, toggle, if_pos hc, hopen, if_neg (by simp)]
            | some p =>
                obtain ⟨hsplit, hlen, hclear⟩ := clear_of_endstrF hc hend
                rw [List.length_cons] at hlen
                rw [hsplit, bare_append, hclear.closed, Bool.and_eq_true] at h
                rw [hsplit, openAfter_append, hclear.closed]
                exact ih h.2 (by omega)
          · have hquote : isQuote c = false := Bool.eq_false_iff.mpr hc
            rw [Quoting.bare, toggle_of_not hquote, Bool.and_eq_true] at h
            have hcode : c ≠ '`' := by simpa using h.1
            rw [if_neg hc, if_neg hcode, openAfter_cons, toggle_of_not hquote]
            exact ih h.2 (by omega)

theorem count_exp_clear {t : Text} (ht : Clear t) (r : Text) :
    count_exp (t ++ r) = count_exp r := by
  rcases strchrF_spec r with ⟨hnone, hbare⟩ | ⟨p, u, hr, hp, hsome⟩
  · have hboth : Quoting.bare isQuote '`' none (t ++ r) = true := by
      rw [bare_append, ht.closed, ht.bare, hbare]
      rfl
    rw [count_exp, count_exp, countFrom_bare _ hboth (Nat.lt_succ_self _),
      countFrom_bare _ hbare (Nat.lt_succ_self _), openAfter_append, ht.closed]
  · have hboth : strchrF (t ++ r) '`' = some ('`' :: u) := by
      rw [strchrF_append_clear ht, hsome]
    rw [count_exp, count_exp, countFrom_of_strchrFrom _ _ hboth (Nat.lt_succ_self _),
      countFrom_of_strchrFrom _ _ hsome (Nat.lt_succ_self _)]

theorem count_exp_code {e : Text} (he : '`' ∉ e) (r : Text) :
    count_exp ('`' :: (e ++ '`' :: r)) = (count_exp r).map (· + 1) := by
  rw [count_exp, countFrom, if_neg (by decide), if_pos rfl, dropWhile_to_backquote he]
  dsimp only
  rw [countFrom_congr _ (r.length + 1) r
    (by simp only [List.length_cons, List.length_append]; omega)
    (Nat.lt_succ_self _), count_exp]

/-- The pieces of a text of calm parts and pieces are counted. -/
theorem count_exp_spans {s : Text} {es : List Text} (h : Spans s es) (hes : ∀ e ∈ es, '`' ∉ e)
    (r : Text) : count_exp (s ++ r) = (count_exp r).map (· + es.length) := by
  induction h generalizing r with
  | calm ht =>
      rw [count_exp_clear ht.clear]
      cases count_exp r <;> rfl
  | @code e he =>
      have htext : '`' :: (e ++ ['`']) ++ r = '`' :: (e ++ '`' :: r) := by simp
      rw [htext, count_exp_code (hes e (List.mem_singleton_self e))]
      rfl
  | @append _ _ es fs _ _ ihs iht =>
      rw [List.append_assoc, ihs (fun e he => hes e (List.mem_append_left _ he)),
        iht (fun e he => hes e (List.mem_append_right _ he)), List.length_append]
      cases count_exp r with
      | error e => rfl
      | ok n =>
          exact congrArg Except.ok
            (show n + fs.length + es.length = n + (es.length + fs.length) by omega)

end Counting

end XevXml.Tools.Passes
