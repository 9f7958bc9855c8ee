import XevXml.Tools.Tgen.Context

/-!
# What the Flags Are Set to

The string of contexts that a template hands on is put together from characters for the
contexts that change and parts of the old string for those that stay. Between two contexts
that change, the part that is taken is as long as its place in the string, not as the gap,
so it is too long, and a context that follows directly behind one that changes is set
whatever should be done with it. So the result is right when the contexts that change follow
one another and all but the first of them are set.

The tests of contexts say what the formula says, whatever stands in front of them.

## Main definitions

* `Update`, `Current`: Strings of flags.
* `updated`: What the flags should be.
* `contextSelect`: The expression that is written for an update.
* `Formula`: A formula over contexts that are defined.
* `Joined`: Contexts that follow one another and are set.

## Theorems

* `write_context_param_eq`: The text of the expression is what is written.
* `value_pieces_iff`: What the parts are worth behind a context that changes.
* `write_context_test_value`: The tests that are written say what the formula says.
* `flagsRight_iff`: The flags are right for these updates only.
-/

namespace XevXml.Tools.Tgen

open XPath

/-- The variables of a template with these flags. -/
def contextEnv (flags : Text) : Env :=
  fun name => if name = "xevtgencontext".toList then flags else []

section Strings

/-- A string that says what a directive does: nothing to a context, or it sets it or clears
    it. It sets one at least. -/
structure Update (n : Nat) where
  flags : Text
  length : flags.length = n
  chars : ∀ a ∈ flags, a = 'x' ∨ a = 't' ∨ a = 'f'
  sets : 't' ∈ flags

/-- A string of flags. -/
structure Current (n : Nat) where
  flags : Text
  length : flags.length = n
  chars : ∀ a ∈ flags, a = 't' ∨ a = 'f'

/-- The flags after an update. -/
def updated (u c : Text) : Text := u.zipWith (fun a b => if a = 'x' then b else a) c

/-- The contexts that change follow one another, and all but the first are set. -/
def Joined (u : Text) : Prop :=
  ∃ a d b e, u = List.replicate a 'x' ++ d :: (List.replicate b 't' ++ List.replicate e 'x') ∧
    d ≠ 'x'

end Strings

section Param

/-- A part of the string of contexts. -/
def contextArg (start length : Nat) : Arg := .substring "xevtgencontext".toList start length

/-- The strings that are put together for the contexts from `i` on. -/
def pieces (n i : Nat) (prev : Option Nat) : Text → List Arg
  | [] =>
      if prev.map (· + 1) = some n then [] else [contextArg ((prev.map (· + 2)).getD 1) n]
  | c :: u =>
      if c ≠ 'x' then
        let ps :=
          match prev with
          | none => (if i = 0 then [] else [contextArg 1 i]) ++ [.literal [c]]
          | some prev =>
              if prev + 1 = i then [.literal ['t']] else [contextArg (prev + 2) i, .literal [c]]
        ps ++ pieces n (i + 1) (some i) u
      else pieces n (i + 1) prev u

/-- The expression for an update. -/
def contextSelect (n : Nat) (u : Text) : Select :=
  if n = 1 then .arg (.literal u)
  else
    match pieces n 0 none u with
    | [] => .arg (.literal [])
    | a :: as => .concat a as

theorem text_contextArg (start length : Nat) :
    (contextArg start length).text = contextPart start length := by
  rfl

theorem text_literal (c : Char) : (Arg.literal [c]).text = quotedChar c := rfl

theorem text_concat (a : Arg) (as : List Arg) : (Select.concat a as).text =
    "concat(".toList ++ (a.text ++ (as.flatMap (fun a => [',', ' '] ++ a.text) ++ [')'])) := by
  have htext : (Select.concat a as).text = "concat(".toList ++ a.text ++
      as.flatMap (fun a => [',', ' '] ++ a.text) ++ [')'] := rfl
  rw [htext, List.append_assoc, List.append_assoc]

/-- What is written behind a context that changes. -/
theorem writeFlags_some {n : Nat} (hn : 1 < n) (i p : Nat) (u : Text) :
    writeFlags n i (some p) u =
      (pieces n i (some p) u).flatMap (fun a => [',', ' '] ++ a.text) ++ [')'] := by
  have hone : n ≠ 1 := by omega
  induction u generalizing i p with
  | nil =>
      rw [writeFlags, pieces, if_pos hn]
      by_cases hlast : (some p).map (· + 1) = some n
      · rw [if_pos hlast, if_pos hlast]
        rfl
      · rw [if_neg hlast, if_neg hlast, List.flatMap_singleton, text_contextArg]
  | cons c u ih =>
      rw [writeFlags, pieces]
      by_cases hc : c ≠ 'x'
      · rw [if_pos hc, if_pos hc, if_neg hone, ih]
        dsimp only
        by_cases hnext : p + 1 = i
        · rw [if_pos hnext, if_pos hnext, List.flatMap_append, List.flatMap_singleton, text_literal]
          simp only [List.append_assoc]
        · rw [if_neg hnext, if_neg hnext, List.flatMap_append, List.flatMap_cons,
            List.flatMap_singleton,
            text_contextArg, text_literal]
          simp only [List.append_assoc]
      · rw [if_neg hc, if_neg hc, ih]

/-- What is written is an expression, if a context changes. -/
theorem writeFlags_none {n : Nat} (hn : 1 < n) (i : Nat) (u : Text) (hu : ∃ c ∈ u, c ≠ 'x') :
    ∃ a as, pieces n i none u = a :: as ∧ writeFlags n i none u = (Select.concat a as).text := by
  have hone : n ≠ 1 := by omega
  induction u generalizing i with
  | nil =>
      rcases hu with ⟨c, hc, _⟩
      exact absurd hc List.not_mem_nil
  | cons c u ih =>
      rw [writeFlags, pieces]
      by_cases hc : c ≠ 'x'
      · rw [if_pos hc, if_pos hc, if_neg hone, writeFlags_some hn]
        dsimp only
        by_cases hi : i = 0
        · rw [if_pos hi, if_pos hi]
          refine ⟨.literal [c], pieces n (i + 1) (some i) u, rfl, ?_⟩
          rw [text_concat, text_literal, List.append_assoc]
        · rw [if_neg hi, if_neg hi]
          refine ⟨contextArg 1 i, .literal [c] :: pieces n (i + 1) (some i) u, rfl, ?_⟩
          rw [text_concat, List.flatMap_cons, text_contextArg, text_literal]
          simp only [List.append_assoc]
      · rw [if_neg hc, if_neg hc]
        refine ih (i + 1) ?_
        rcases hu with ⟨d, hd, hdx⟩
        rcases List.mem_cons.mp hd with rfl | hd
        · exact absurd hdx hc
        · exact ⟨d, hd, hdx⟩

/-- The text of the expression is what is written for an update. -/
theorem writeFlags_eq {n : Nat} (u : Update n) :
    writeFlags n 0 none u.flags = (contextSelect n u.flags).text := by
  rcases u with ⟨u, length, chars, sets⟩
  dsimp only
  by_cases hone : n = 1
  · rw [hone] at length
    rcases List.length_eq_one_iff.mp length with ⟨c, rfl⟩
    have hc : 't' = c := List.mem_singleton.mp sets
    rw [contextSelect, if_pos hone, hone, ← hc]
    rfl
  · have hlen := List.length_pos_of_mem sets
    rcases writeFlags_none (n := n) (by omega) 0 u ⟨'t', sets, by decide⟩ with
      ⟨a, as, hpieces, htext⟩
    rw [contextSelect, if_neg hone, hpieces, htext]

end Param

section Value

variable {n : Nat} {c : Text}

/-- What the strings are worth. -/
def worth (c : Text) (args : List Arg) : Text := args.flatMap fun a => a.value (contextEnv c)

theorem value_contextArg (c : Text) (start length : Nat) :
    (contextArg start length).value (contextEnv c) = substring c start length := by
  have henv : contextEnv c "xevtgencontext".toList = c := if_pos rfl
  rw [contextArg, Arg.value, henv]

/-- The flags that stand behind a context that changes, up to the one at `i`, and what the
    rest of an update makes of the others. -/
def wanted (c : Text) (p i : Nat) (u : Text) : Text :=
  (c.drop (p + 1)).take (i - (p + 1)) ++ updated u (c.drop i)

theorem updated_cons (a : Char) (u : Text) (i : Nat) (hi : i < c.length) :
    updated (a :: u) (c.drop i) = (if a = 'x' then c.get ⟨i, hi⟩ else a) :: updated u
      (c.drop (i + 1)) := by
  rw [updated, List.drop_eq_getElem_cons hi, List.zipWith_cons_cons]
  rfl

/-- A context that stays as it is belongs to the part that is copied. -/
theorem wanted_skip {p i : Nat} (u : Text) (hp : p < i) (hi : i < c.length) :
    wanted c p i ('x' :: u) = wanted c p (i + 1) u := by
  have hsub : i + 1 - (p + 1) = i - (p + 1) + 1 := by omega
  have hget : (c.drop (p + 1))[i - (p + 1)]? = some (c.get ⟨i, hi⟩) := by
    rw [List.getElem?_drop, Nat.add_sub_cancel' hp, List.getElem?_eq_getElem hi]
    rfl
  rw [wanted, wanted, updated_cons 'x' u i hi, if_pos rfl, hsub, List.take_add_one, hget,
    List.append_assoc]
  rfl

theorem length_updated (u d : Text) (h : u.length = d.length) :
    (updated u d).length = u.length := by
  rw [updated, List.length_zipWith, h, Nat.min_self]

theorem length_wanted {p i : Nat} (u : Text) (hp : p < i) (hu : i + u.length = c.length) :
    (wanted c p i u).length = i - (p + 1) + u.length := by
  rw [wanted, List.length_append, length_updated u _ (by rw [List.length_drop]; omega),
    List.length_take, List.length_drop, Nat.min_eq_left (by omega)]

/-- The rest of an update sets contexts that follow the one at `p` directly, and leaves the
    others as they are. -/
def Rest (p i : Nat) (u : Text) : Prop :=
  ∃ b e, u = List.replicate b 't' ++ List.replicate e 'x' ∧ (b = 0 ∨ p + 1 = i)

theorem rest_skip_iff {p i : Nat} (u : Text) (hp : p < i) : Rest p i ('x' :: u) ↔
    Rest p (i + 1) u := by
  constructor
  · intro h
    rcases h with ⟨b, e, hu, _⟩
    cases b with
    | succ b =>
        rw [List.replicate_succ, List.cons_append, List.cons.injEq] at hu
        exact absurd hu.1 (by decide)
    | zero =>
        cases e with
        | zero => cases hu
        | succ e =>
            rw [List.replicate_zero, List.nil_append, List.replicate_succ, List.cons.injEq] at hu
            exact ⟨0, e, hu.2, Or.inl rfl⟩
  · intro h
    rcases h with ⟨b, e, hu, hb⟩
    have hzero : b = 0 := by omega
    rw [hzero] at hu
    refine ⟨0, e + 1, ?_, Or.inl rfl⟩
    rw [hu]
    rfl

theorem rest_change_iff {p i : Nat} {d : Char} (u : Text) (hd : d ≠ 'x') :
    Rest p i (d :: u) ↔ p + 1 = i ∧ d = 't' ∧ Rest i (i + 1) u := by
  constructor
  · intro h
    rcases h with ⟨b, e, hu, hb⟩
    cases b with
    | zero =>
        cases e with
        | zero => cases hu
        | succ e =>
            rw [List.replicate_zero, List.nil_append, List.replicate_succ, List.cons.injEq] at hu
            exact absurd hu.1 hd
    | succ b =>
        rw [List.replicate_succ, List.cons_append, List.cons.injEq] at hu
        exact ⟨hb.resolve_left (Nat.succ_ne_zero b), hu.1, b, e, hu.2, Or.inr rfl⟩
  · intro h
    rcases h with ⟨hp, hdt, b, e, hu, _⟩
    refine ⟨b + 1, e, ?_, Or.inr hp⟩
    rw [hdt, hu]
    rfl

/-- What is worth is never shorter than what is wanted, and it is the same only if the rest of
    the update goes on with contexts that are set. -/
theorem worth_pieces (hc : c.length = n) (p i : Nat) (u : Text) (hp : p < i)
    (hu : i + u.length = n) :
    (wanted c p i u).length ≤ (worth c (pieces n i (some p) u)).length ∧
      (worth c (pieces n i (some p) u) = wanted c p i u ↔ Rest p i u) := by
  induction u generalizing p i with
  | nil =>
      have hi : i = n := hu
      have hrest : Rest p i [] := ⟨0, 0, rfl, Or.inl rfl⟩
      have hsame : worth c (pieces n i (some p) []) = wanted c p i [] := by
        have hwanted : wanted c p i [] = c.drop (p + 1) := by
          rw [wanted, updated, List.zipWith_nil_left, List.append_nil]
          exact List.take_of_length_le (by rw [List.length_drop]; omega)
        rw [pieces, hwanted]
        by_cases hlast : (some p).map (· + 1) = some n
        · rw [Option.map_some, Option.some.injEq] at hlast
          rw [if_pos (by rw [Option.map_some, hlast]), List.drop_of_length_le (by omega)]
          rfl
        · rw [if_neg hlast, worth, List.flatMap_singleton, value_contextArg]
          exact substring_of_le c (p + 1) n (by omega)
      exact ⟨by rw [hsame], iff_of_true hsame hrest⟩
  | cons d u ih =>
      rw [List.length_cons] at hu
      have hi : i < c.length := by omega
      by_cases hd : d = 'x'
      · rw [hd, wanted_skip u hp hi, rest_skip_iff u hp, pieces, if_neg (by decide)]
        exact ih p (i + 1) (by omega) (by omega)
      · have hnext := ih i (i + 1) (by omega) (by omega)
        have hlen := length_wanted (c := c) (p := i) (i := i + 1) u (by omega) (by omega)
        rw [rest_change_iff u hd, pieces, if_pos hd]
        dsimp only
        by_cases hp1 : p + 1 = i
        · -- a context directly behind the one that changes is set
          have hsome : worth c ([.literal ['t']] ++ pieces n (i + 1) (some i) u) =
              't' :: worth c (pieces n (i + 1) (some i) u) := rfl
          have hwanted : wanted c p i (d :: u) = d :: wanted c i (i + 1) u := by
            rw [wanted, wanted, updated_cons d u i hi, if_neg hd, hp1, Nat.sub_self, Nat.sub_self]
            rfl
          rw [if_pos hp1, hsome, hwanted, List.cons.injEq, hnext.2, List.length_cons,
            List.length_cons]
          refine ⟨by omega, ?_⟩
          constructor
          · intro h
            exact ⟨hp1, h.1.symm, h.2⟩
          · intro h
            exact ⟨h.2.1.symm, h.2.2⟩
        · -- the part that is copied is longer than the gap
          have hsome : worth c
            ([contextArg (p + 2) i, .literal [d]] ++ pieces n (i + 1) (some i) u) =
              substring c (p + 1 + 1) i ++ d :: worth c (pieces n (i + 1) (some i) u) := by
            rw [worth, List.flatMap_append, List.flatMap_cons, value_contextArg, List.append_assoc]
            rfl
          have hlong : (wanted c p i (d :: u)).length <
              (substring c (p + 1 + 1) i ++ d :: worth c (pieces n (i + 1) (some i) u)).length := by
            rw [length_wanted (d :: u) hp (by rw [List.length_cons]; omega), List.length_append,
              length_substring, List.length_cons, List.length_cons]
            omega
          rw [if_neg hp1, hsome]
          refine ⟨Nat.le_of_lt hlong, iff_of_false (fun h => ?_) fun h => hp1 h.1⟩
          rw [h] at hlong
          exact Nat.lt_irrefl _ hlong

theorem joined_skip_iff (u : Text) : Joined ('x' :: u) ↔ Joined u := by
  constructor
  · intro h
    rcases h with ⟨a, d, b, e, hu, hd⟩
    cases a with
    | zero =>
        rw [List.replicate_zero, List.nil_append, List.cons.injEq] at hu
        exact absurd hu.1.symm hd
    | succ a =>
        rw [List.replicate_succ, List.cons_append, List.cons.injEq] at hu
        exact ⟨a, d, b, e, hu.2, hd⟩
  · intro h
    rcases h with ⟨a, d, b, e, hu, hd⟩
    refine ⟨a + 1, d, b, e, ?_, hd⟩
    rw [hu]
    rfl

theorem joined_change_iff {d : Char} (u : Text) (i : Nat) (hd : d ≠ 'x') :
    Joined (d :: u) ↔ Rest i (i + 1) u := by
  constructor
  · intro h
    rcases h with ⟨a, d', b, e, hu, _⟩
    cases a with
    | zero =>
        rw [List.replicate_zero, List.nil_append, List.cons.injEq] at hu
        exact ⟨b, e, hu.2, Or.inr rfl⟩
    | succ a =>
        rw [List.replicate_succ, List.cons_append, List.cons.injEq] at hu
        exact absurd hu.1 hd
  · intro h
    rcases h with ⟨b, e, hu, _⟩
    exact ⟨0, d, b, e, by rw [hu]; rfl, hd⟩

/-- What is worth in front of the first context that changes, and behind it. -/
theorem worth_none (hc : c.length = n) (i : Nat) (u : Text) (hu : i + u.length = n)
    (hsome : ∃ d ∈ u, d ≠ 'x') :
    worth c (pieces n i none u) = c.take i ++ updated u (c.drop i) ↔ Joined u := by
  induction u generalizing i with
  | nil =>
      rcases hsome with ⟨d, hd, _⟩
      exact absurd hd List.not_mem_nil
  | cons d u ih =>
      rw [List.length_cons] at hu
      have hi : i < c.length := by omega
      -- A context that stays as it is belongs to what is copied in front of the first change.
      by_cases hd : d = 'x'
      · have hmem : ∃ d ∈ u, d ≠ 'x' := by
          rcases hsome with ⟨k, hk, hkx⟩
          rcases List.mem_cons.mp hk with rfl | hk
          · exact absurd hd hkx
          · exact ⟨k, hk, hkx⟩
        have htake : c.take (i + 1) = c.take i ++ [c.get ⟨i, hi⟩] := by
          rw [List.take_add_one, List.getElem?_eq_getElem hi]
          rfl
        have hnext := ih (i + 1) (by omega) hmem
        rw [htake, List.append_assoc, List.singleton_append] at hnext
        rw [hd, joined_skip_iff, pieces, if_neg (by decide), updated_cons 'x' u i hi, if_pos rfl]
        exact hnext
      · have hrest := (worth_pieces hc i (i + 1) u (by omega) (by omega)).2
        have hwanted : wanted c i (i + 1) u = updated u (c.drop (i + 1)) := by
          rw [wanted, Nat.sub_self]
          rfl
        have hfirst : worth c ((if i = 0 then [] else [contextArg 1 i]) ++ [.literal [d]] ++
            pieces n (i + 1) (some i) u) = c.take i ++
              d :: worth c (pieces n (i + 1) (some i) u) := by
          by_cases hzero : i = 0
          · rw [if_pos hzero, hzero]
            rfl
          · rw [if_neg hzero, worth, List.flatMap_append, List.flatMap_append,
              List.flatMap_singleton,
              value_contextArg, substring_front, List.append_assoc]
            rfl
        rw [hwanted] at hrest
        rw [joined_change_iff u i hd, pieces, if_pos hd]
        dsimp only
        rw [hfirst, updated_cons d u i hi, if_neg hd, List.append_cancel_left_eq,
          List.cons.injEq, hrest]
        exact and_iff_right rfl

/-- The expression gives the flags that are wanted for some updates only. -/
theorem value_contextSelect_iff (u : Update n) (cur : Current n) :
    (contextSelect n u.flags).value (contextEnv cur.flags) = updated u.flags cur.flags ↔
      Joined u.flags := by
  rcases u with ⟨u, hlength, chars, sets⟩
  rcases cur with ⟨c, hc, _⟩
  dsimp only
  by_cases hone : n = 1
  · rw [hone] at hlength hc
    rcases List.length_eq_one_iff.mp hlength with ⟨d, rfl⟩
    rcases List.length_eq_one_iff.mp hc with ⟨k, rfl⟩
    have hd : 't' = d := List.mem_singleton.mp sets
    rw [← hd, contextSelect, if_pos hone]
    exact iff_of_true rfl ⟨0, 't', 0, 0, rfl, by decide⟩
  · have hlen := List.length_pos_of_mem sets
    have hsome : ∃ d ∈ u, d ≠ 'x' := ⟨'t', sets, by decide⟩
    rcases writeFlags_none (n := n) (by omega) 0 u hsome with ⟨a, as, hpieces, _⟩
    have hworth := worth_none hc 0 u (by omega) hsome
    rw [List.take_zero, List.nil_append, List.drop_zero, hpieces] at hworth
    rw [← hworth, contextSelect, if_neg hone, hpieces]
    rfl

end Value

section Tests

mutual

/-- A context, or a word with contexts, that is defined. -/
def Cell.defined (ctxlist : List CtxDef) : Cell → Prop
  | .mk type name attrs pretext posttext cs =>
      let ctx := Cell.mk type name attrs pretext posttext cs
      if getAttr ctx "name" = some "and".toList ∨ getAttr ctx "name" = some "or".toList ∨
          getAttr ctx "name" = some "not".toList then allDefined ctxlist cs
      else (lookup_context ctxlist (getAttr ctx "name")).isSome

def allDefined (ctxlist : List CtxDef) : List Cell → Prop
  | [] => True
  | ctx :: rest => Cell.defined ctxlist ctx ∧ allDefined ctxlist rest

end

/-- A formula over contexts that are defined: all of them hold. -/
structure Formula (ctxlist : List CtxDef) where
  cells : List Cell
  defined : allDefined ctxlist cells

mutual

/-- What a formula says under some flags. -/
def Cell.truth (ctxlist : List CtxDef) (flags : Text) : Cell → Bool
  | .mk type name attrs pretext posttext cs =>
      let ctx := Cell.mk type name attrs pretext posttext cs
      if getAttr ctx "name" = some "and".toList then allTrue ctxlist flags cs
      else if getAttr ctx "name" = some "or".toList then anyTrue ctxlist flags cs
      else if getAttr ctx "name" = some "not".toList then !allTrue ctxlist flags cs
      else
        match lookup_context ctxlist (getAttr ctx "name") with
        | none => false
        | some ct => flags[ct.id]? == some 't'

def allTrue (ctxlist : List CtxDef) (flags : Text) : List Cell → Bool
  | [] => true
  | ctx :: rest => Cell.truth ctxlist flags ctx && allTrue ctxlist flags rest

def anyTrue (ctxlist : List CtxDef) (flags : Text) : List Cell → Bool
  | [] => false
  | ctx :: rest => Cell.truth ctxlist flags ctx || anyTrue ctxlist flags rest

end

/-- One test that is written, behind the word that joins it. -/
def WritesOne (ctxlist : List CtxDef) (ctx : Cell) : Prop :=
  Cell.defined ctxlist ctx → ∃ t : Test .single,
    (∀ stat, Cell.contextTest ctxlist stat ctx = .ok (joint stat ++ t.text)) ∧
      ∀ flags, t.value (contextEnv flags) = Cell.truth ctxlist flags ctx

/-- Tests that are written behind one that stands there. -/
structure WritesAll (ctxlist : List CtxDef) (cells : List Cell) : Prop where
  conj : ∀ a : Test .conj, ∃ (text : Text) (b : Test .conj),
    write_context_test ctxlist false cells = .ok text ∧ b.text = a.text ++ text ∧
      ∀ flags, b.value (contextEnv flags) =
        (a.value (contextEnv flags) && allTrue ctxlist flags cells)
  disj : ∀ a : Test .disj, ∃ (text : Text) (b : Test .disj),
    write_context_test ctxlist true cells = .ok text ∧ b.text = a.text ++ text ∧
      ∀ flags, b.value (contextEnv flags) =
        (a.value (contextEnv flags) || anyTrue ctxlist flags cells)

theorem writesAll_nil (ctxlist : List CtxDef) : WritesAll ctxlist [] := by
  constructor
  · intro a
    refine ⟨[], a, rfl, (List.append_nil _).symm, fun flags => ?_⟩
    rw [allTrue, Bool.and_true]
  · intro a
    refine ⟨[], a, rfl, (List.append_nil _).symm, fun flags => ?_⟩
    rw [anyTrue, Bool.or_false]

theorem writesAll_cons {ctxlist : List CtxDef} {ctx : Cell} {rest : List Cell} {t : Test .single}
    (htext : ∀ stat, Cell.contextTest ctxlist stat ctx = .ok (joint stat ++ t.text))
    (hvalue : ∀ flags, t.value (contextEnv flags) = Cell.truth ctxlist flags ctx)
    (hrest : WritesAll ctxlist rest) : WritesAll ctxlist (ctx :: rest) := by
  constructor
  · intro a
    rcases hrest.conj (.and a t) with ⟨text, b, hwrite, hb, hval⟩
    refine ⟨joint false ++ t.text ++ text, b, ?_, ?_, fun flags => ?_⟩
    · rw [write_context_test, htext, hwrite]
      rfl
    · have hand : (Test.and a t).text = a.text ++ joint false ++ t.text := rfl
      rw [hb, hand, List.append_assoc, List.append_assoc, List.append_assoc]
    · have hand : (Test.and a t).value (contextEnv flags) =
          (a.value (contextEnv flags) && t.value (contextEnv flags)) := rfl
      rw [hval, hand, hvalue, allTrue, Bool.and_assoc]
  · intro a
    rcases hrest.disj (.or a (.one t)) with ⟨text, b, hwrite, hb, hval⟩
    refine ⟨joint true ++ t.text ++ text, b, ?_, ?_, fun flags => ?_⟩
    · rw [write_context_test, htext, hwrite]
      rfl
    · have hor : (Test.or a (.one t)).text = a.text ++ joint true ++ t.text := rfl
      rw [hb, hor, List.append_assoc, List.append_assoc, List.append_assoc]
    · have hor : (Test.or a (.one t)).value (contextEnv flags) =
          (a.value (contextEnv flags) || t.value (contextEnv flags)) := rfl
      rw [hval, hor, hvalue, anyTrue, Bool.or_assoc]

/-- The test of a word is in parentheses, behind a test that decides where there is no
    other. -/
theorem writesOne_mk {ctxlist : List CtxDef} (type : CellType) (name : String)
    (attrs : List (String × Option Text)) (pretext posttext : Option Text) (cs : List Cell)
    (hcs : allDefined ctxlist cs → WritesAll ctxlist cs) :
    WritesOne ctxlist (.mk type name attrs pretext posttext cs) := by
  intro hdefined
  rw [Cell.defined] at hdefined
  -- The three connectives are written around their parts; any other name is one flag.
  by_cases hand : getAttr (.mk type name attrs pretext posttext cs) "name" = some "and".toList
  · rw [if_pos (Or.inl hand)] at hdefined
    rcases (hcs hdefined).conj (.one (.boolean 1)) with ⟨text, b, hwrite, hb, hval⟩
    have hone : (Test.one (.boolean 1)).text = "boolean(1)".toList := by decide
    have htext : (Test.paren (.all b)).text = "(boolean(1)".toList ++ text ++ [')'] := by
      have h : (Test.paren (.all b)).text = '(' :: b.text ++ [')'] := rfl
      rw [h, hb, hone]
      rfl
    refine ⟨.paren (.all b), fun stat => ?_, fun flags => ?_⟩
    · rw [Cell.contextTest, if_pos hand, hwrite, htext, ← List.append_assoc, ← List.append_assoc]
      rfl
    · have h : (Test.paren (.all b)).value (contextEnv flags) = b.value (contextEnv flags) := rfl
      rw [Cell.truth, if_pos hand, h, hval]
      exact Bool.true_and _
  · by_cases hor : getAttr (.mk type name attrs pretext posttext cs) "name" = some "or".toList
    · rw [if_pos (Or.inr (Or.inl hor))] at hdefined
      rcases (hcs hdefined).disj (.all (.one (.boolean 0))) with ⟨text, b, hwrite, hb, hval⟩
      have hone : (Test.all (.one (.boolean 0))).text = "boolean(0)".toList := by decide
      have htext : (Test.paren b).text = "(boolean(0)".toList ++ text ++ [')'] := by
        have h : (Test.paren b).text = '(' :: b.text ++ [')'] := rfl
        rw [h, hb, hone]
        rfl
      refine ⟨.paren b, fun stat => ?_, fun flags => ?_⟩
      · rw [Cell.contextTest, if_neg hand, if_pos hor, hwrite, htext, ← List.append_assoc,
          ← List.append_assoc]
        rfl
      · have h : (Test.paren b).value (contextEnv flags) = b.value (contextEnv flags) := rfl
        rw [Cell.truth, if_neg hand, if_pos hor, h, hval]
        exact Bool.false_or _
    · by_cases hnot : getAttr (.mk type name attrs pretext posttext cs) "name" = some "not".toList
      · rw [if_pos (Or.inr (Or.inr hnot))] at hdefined
        rcases (hcs hdefined).conj (.one (.boolean 1)) with ⟨text, b, hwrite, hb, hval⟩
        have hone : (Test.one (.boolean 1)).text = "boolean(1)".toList := by decide
        have htext : (Test.not (.all b)).text = "not(boolean(1)".toList ++ text ++ [')'] := by
          have h : (Test.not (.all b)).text = "not(".toList ++ b.text ++ [')'] := rfl
          rw [h, hb, hone]
          rfl
        refine ⟨.not (.all b), fun stat => ?_, fun flags => ?_⟩
        · rw [Cell.contextTest, if_neg hand, if_neg hor, if_pos hnot, hwrite, htext,
            ← List.append_assoc, ← List.append_assoc]
          rfl
        · have h : (Test.not (.all b)).value (contextEnv flags) = !b.value (contextEnv flags) := rfl
          rw [Cell.truth, if_neg hand, if_neg hor, if_pos hnot, h, hval]
          exact congrArg _ (Bool.true_and _)
      · rw [if_neg (fun h => h.elim hand fun h => h.elim hor hnot)] at hdefined
        rcases Option.isSome_iff_exists.mp hdefined with ⟨ct, hct⟩
        refine ⟨.equal (contextArg (ct.id + 1) 1) ['t'], fun stat => ?_, fun flags => ?_⟩
        · have htext : (Test.equal (contextArg (ct.id + 1) 1) ['t']).text =
              contextPart (ct.id + 1) 1 ++ " = 't'".toList := by
            have h : (Test.equal (contextArg (ct.id + 1) 1) ['t']).text =
                contextPart (ct.id + 1) 1 ++ " = '".toList ++ ['t'] ++ ['\''] := rfl
            rw [h, List.append_assoc, List.append_assoc]
            rfl
          rw [Cell.contextTest, if_neg hand, if_neg hor, if_neg hnot, hct, htext,
            ← List.append_assoc]
        · have h : (Test.equal (contextArg (ct.id + 1) 1) ['t']).value (contextEnv flags) =
              ((contextArg (ct.id + 1) 1).value (contextEnv flags) == ['t']) := rfl
          rw [Cell.truth, if_neg hand, if_neg hor, if_neg hnot, hct, h, value_contextArg,
            substring_one]
          dsimp only
          cases flags[ct.id]? with
          | none => rfl
          | some f => simp

/-- The tests that are written say what the formula says. -/
theorem writesAll (ctxlist : List CtxDef) (cells : List Cell) (h : allDefined ctxlist cells) :
    WritesAll ctxlist cells := by
  have hall := Cell.induct (P := fun ctx => WritesOne ctxlist ctx)
    (Q := fun cells => allDefined ctxlist cells → WritesAll ctxlist cells)
    (fun type name attrs pretext posttext cs ih => writesOne_mk type name attrs pretext
      posttext cs ih)
    (fun _ => writesAll_nil ctxlist)
    (fun x xs hx hxs hdefined => by
      rw [allDefined] at hdefined
      rcases hx hdefined.1 with ⟨t, htext, hvalue⟩
      exact writesAll_cons htext hvalue (hxs hdefined.2))
  exact hall.2 cells h

end Tests

section Setting

/-- What a directive does is said for every context. -/
structure Shaped (num_contexts ctx_id : Nat) (ctx_s : Text) : Prop where
  length : ctx_s.length = num_contexts
  own : ctx_s[ctx_id]? = some 't' ∨ ctx_s[ctx_id]? = some 'f'
  chars : ∀ a ∈ ctx_s, a = 'x' ∨ a = 't' ∨ a = 'f'

theorem shaped_clear {num_contexts ctx_id : Nat} {ctx_s : Text}
    (h : Shaped num_contexts ctx_id ctx_s)
    (i : Nat) : Shaped num_contexts ctx_id (ctx_s.set i 'f') := by
  refine ⟨by rw [List.length_set, h.length], ?_, fun a ha => ?_⟩
  · by_cases hi : i = ctx_id
    · right
      have hlen : ctx_id < ctx_s.length := by
        rcases h.own with h | h
        · exact (List.getElem?_eq_some_iff.mp h).1
        · exact (List.getElem?_eq_some_iff.mp h).1
      rw [hi, List.getElem?_set_self hlen]
    · rw [List.getElem?_set_ne hi]
      exact h.own
  · rcases List.mem_or_eq_of_mem_set ha with ha | ha
    · exact h.chars a ha
    · exact Or.inr (Or.inr ha)

/-- A directive that has been read sets its own context, if it does not clear it itself. -/
theorem shaped_of_set_context_string {num_contexts ctx_id : Nat} {ctxlist : List CtxDef}
    {cl : List Cell} {ctx_s : Text}
    (h : set_context_string num_contexts ctxlist ctx_id cl = .ok ctx_s) :
    Shaped num_contexts ctx_id ctx_s := by
  rw [set_context_string] at h
  by_cases hid : ctx_id < num_contexts
  · rw [if_pos hid] at h
    have hstart : Shaped num_contexts ctx_id
      ((List.replicate num_contexts 'x').set ctx_id 't') := by
      refine ⟨by rw [List.length_set, List.length_replicate], Or.inl ?_, fun a ha => ?_⟩
      · exact List.getElem?_set_self (by rw [List.length_replicate]; exact hid)
      · rcases List.mem_or_eq_of_mem_set ha with ha | ha
        · exact Or.inl (List.eq_of_mem_replicate ha)
        · exact Or.inr (Or.inl ha)
    -- A context that is cancelled clears one place and leaves the shape.
    have hcancel : ∀ (l : List Cell) (s s' : Text), Shaped num_contexts ctx_id s →
        cancel num_contexts ctxlist s l = .ok s' → Shaped num_contexts ctx_id s' := by
      intro l
      induction l with
      | nil =>
          intro s s' hs hrun
          cases hrun
          exact hs
      | cons x l ih =>
          intro s s' hs hrun
          rw [cancel, List.foldlM_cons] at hrun
          rcases (bind_eq_ok_iff _ _ _).mp hrun with ⟨s1, hs1, hrest⟩
          refine ih s1 s' ?_ hrest
          split at hs1
          · cases hs1
          · split at hs1
            · cases hs1
              exact shaped_clear hs _
            · cases hs1
    generalize (List.replicate num_contexts 'x').set ctx_id 't' = s at h hstart
    induction cl generalizing s with
    | nil =>
        cases h
        exact hstart
    | cons x cl ih =>
        rw [List.foldlM_cons] at h
        rcases (bind_eq_ok_iff _ _ _).mp h with ⟨s1, hs1, hrest⟩
        refine ih s1 hrest ?_
        split at hs1
        · exact hcancel _ _ _ hstart hs1
        · cases hs1
          exact hstart
  · rw [if_neg hid] at h
    cases h

end Setting

section Right

variable {n : Nat} {ctxlist : List CtxDef}

/-- What is handed on and what is tested agrees with the flags. -/
structure FlagsRight (u : Update n) (cur : Current n) (f : Formula ctxlist) : Prop where
  param : ∀ dif, ∃ sibling, write_context_param n (some u.flags) dif =
    .ok (withParam "xevtgencontext".toList (contextSelect n u.flags).text ++ sibling)
  flags : (contextSelect n u.flags).value (contextEnv cur.flags) = updated u.flags cur.flags
  test : ∀ a : Test .conj, ∃ (text : Text) (b : Test .conj),
    write_context_test ctxlist false f.cells = .ok text ∧ b.text = a.text ++ text ∧
      b.value (contextEnv cur.flags) =
        (a.value (contextEnv cur.flags) && allTrue ctxlist cur.flags f.cells)

/-- An update sets a context, so the first of these is found. -/
theorem write_context_param_eq (u : Update n) (dif : Nat) :
    ∃ sibling, write_context_param n (some u.flags) dif =
      .ok (withParam "xevtgencontext".toList (contextSelect n u.flags).text ++ sibling) := by
  have hfound : u.flags.idxOf 't' < u.flags.length := List.idxOf_lt_length_of_mem u.sets
  rw [← writeFlags_eq u]
  by_cases hdif : dif = 0
  · refine ⟨withParam "xevtgensibling".toList (Numeral.printNat (u.flags.idxOf 't' + 1)), ?_⟩
    rw [write_context_param]
    dsimp only
    rw [if_pos hdif, if_pos hfound]
  · refine ⟨withParam "xevtgensibling".toList ['0'], ?_⟩
    rw [write_context_param]
    dsimp only
    rw [if_neg hdif]

/-- The flags are right if the contexts that change follow one another and all but the first
    of them are set, and then only. -/
theorem flagsRight_iff (u : Update n) (cur : Current n) (f : Formula ctxlist) :
    FlagsRight u cur f ↔ Joined u.flags := by
  constructor
  · intro h
    exact (value_contextSelect_iff u cur).mp h.flags
  · intro h
    refine ⟨write_context_param_eq u, (value_contextSelect_iff u cur).mpr h, fun a => ?_⟩
    rcases (writesAll ctxlist f.cells f.defined).conj a with ⟨text, b, hwrite, hb, hval⟩
    exact ⟨text, b, hwrite, hb, hval cur.flags⟩

end Right

/-- The second of two contexts is cancelled. -/
def cancelled : Update 2 where
  flags := ['t', 'f']
  length := rfl
  chars := by decide
  sets := by decide

/-- The second of two contexts holds. -/
def holding : Current 2 where
  flags := ['f', 't']
  length := rfl
  chars := by decide

/-- No formula at all. -/
def noFormula : Formula [] where
  cells := []
  defined := trivial

/-- A context that should be cancelled is set. -/
theorem cancelled_not_right : ¬ FlagsRight cancelled holding noFormula := by
  intro h
  exact absurd h.flags (by decide)

end XevXml.Tools.Tgen
