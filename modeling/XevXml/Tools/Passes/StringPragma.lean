import XevXml.Tools.Passes.KeptBack

/-!
# String Directives

A string directive becomes an argument in double quotes, which is read as a string and
written in single quotes, and in the end the text between the first and the last of these
is what the user gets. The first pass does not double the quotes in the text, and the last
one does not undo the doubling, so nothing but a text without quotes comes back. What is
blank at the end of the line stays outside the quotes and is lost.

## Main definitions

* `StringLine`: A line with a string directive.
* `stringBack`: The line after the four steps.

## Theorems

* `unparse_string`: What the directive becomes begins with the string that was read.
* `not_prefix_of_quote`: A text with a double quote never comes back.
* `stringBack_iff`: The lines that come back.
-/

namespace XevXml.Tools.Passes

section Quotes

theorem closing_ne_nil {q : Char} {t a b : Text} (h : closing q t = some (a, b)) : a ≠ [] := by
  fun_induction closing q t generalizing a b with
  | case1 => cases h
  | case2 =>
      cases h
      exact List.cons_ne_nil _ _
  | case3 => cases h
  | case4 t ih =>
      rcases Option.map_eq_some_iff.mp h with ⟨⟨x, y⟩, _, heq⟩
      cases heq
      exact List.cons_ne_nil _ _
  | case5 =>
      cases h
      exact List.cons_ne_nil _ _
  | case6 c d t hc ih =>
      rcases Option.map_eq_some_iff.mp h with ⟨⟨x, y⟩, _, heq⟩
      cases heq
      exact List.cons_ne_nil _ _

/-- The end of a string is found where the string ends. -/
theorem undoubled_of_closing {q : Char} {t a b : Text} (h : closing q t = some (a, b)) :
    undoubled q a = undoubled q t := by
  fun_induction closing q t generalizing a b with
  | case1 => cases h
  | case2 =>
      cases h
      rfl
  | case3 => cases h
  | case4 t ih =>
      rcases Option.map_eq_some_iff.mp h with ⟨⟨x, y⟩, hxy, heq⟩
      cases heq
      rw [undoubled, undoubled, if_pos rfl, if_pos rfl, if_pos rfl, if_pos rfl, ih hxy]
  | case5 d t hd =>
      cases h
      rw [undoubled, undoubled, if_pos rfl, if_pos rfl, if_neg hd]
  | case6 c d t hc ih =>
      rcases Option.map_eq_some_iff.mp h with ⟨⟨x, y⟩, hxy, heq⟩
      cases heq
      rw [undoubled_step hc x (closing_ne_nil hxy), undoubled_step hc _ (List.cons_ne_nil _ _),
        ih hxy]

/-- Behind a string in single quotes stands anything. -/
def printed (s more : Text) : Text := doubled '\'' s ++ '\'' :: more

theorem undoubled_none {q : Char} {t : Text} (h : q ∉ t) : undoubled q t = none := by
  induction t with
  | nil => rfl
  | cons c t ih =>
      rw [List.mem_cons, not_or] at h
      cases t with
      | nil => rw [undoubled, if_neg (Ne.symm h.1)]
      | cons d t => rw [undoubled, if_neg (Ne.symm h.1), ih h.2, Option.map_none]

/-- What a text that starts with a double quote denotes in front of another one. -/
theorem undoubled_quote {s rest v : Text} (hrest : '"' ∉ rest)
    (h : undoubled '"' ('"' :: (s ++ '"' :: rest)) = some v) :
    v = [] ∨ ∃ s' v', s = '"' :: s' ∧ v = '"' :: v' ∧
      undoubled '"' (s' ++ '"' :: rest) = some v' := by
  cases s with
  | nil =>
      rw [List.nil_append, undoubled, if_pos rfl, if_pos rfl, undoubled_none hrest] at h
      cases h
  | cons d s =>
      rw [List.cons_append, undoubled, if_pos rfl] at h
      by_cases hd : d = '"'
      · rw [if_pos hd] at h
        rcases Option.map_eq_some_iff.mp h with ⟨v', hv', rfl⟩
        exact Or.inr ⟨s, v', by rw [hd], rfl, hv'⟩
      · rw [if_neg hd] at h
        cases h
        exact Or.inl rfl

theorem printed_head {c : Char} (v more : Text) : ∃ t, printed (c :: v) more = c :: t := by
  by_cases hc : c = '\''
  · rw [hc, printed, doubled_cons_self]
    exact ⟨_, rfl⟩
  · rw [printed, doubled_cons_ne hc]
    exact ⟨_, rfl⟩

/-- The double quotes that follow the first one do not come back. -/
theorem not_prefix_of_quotes (n i : Nat) (s rest v more : Text) (hn : s.length ≤ n)
    (hrest : '"' ∉ rest) (h : undoubled '"' (s ++ '"' :: rest) = some v) :
    ¬ List.replicate (i + 1) '"' ++ s <+: printed v more := by
  -- what is written begins with another character, unless it begins with a quote again
  have hhead : ∀ c t, c ≠ '"' → ¬ List.replicate (i + 1) '"' ++ s <+: c :: t := by
    intro c t hc hprefix
    rw [List.replicate_succ, List.cons_append, List.cons_prefix_cons] at hprefix
    exact hc hprefix.1.symm
  induction n generalizing i s v with
  | zero =>
      have hs : s = [] := List.length_eq_zero_iff.mp (Nat.le_zero.mp hn)
      rw [hs] at h
      have hv : v = [] := by
        cases rest with
        | nil =>
            rw [List.nil_append, undoubled, if_pos rfl] at h
            cases h
            rfl
        | cons d rest =>
            rw [List.mem_cons, not_or] at hrest
            rw [List.nil_append, undoubled, if_pos rfl, if_neg (Ne.symm hrest.1)] at h
            cases h
            rfl
      rw [hv]
      exact hhead '\'' more (by decide)
  | succ n ih =>
      cases s with
      | nil => exact ih i [] v (Nat.zero_le n) h hhead
      | cons c s =>
          by_cases hc : c = '"'
          · rw [hc, List.cons_append] at h
            rcases undoubled_quote hrest h with hv | ⟨s', v', hs, hv, h'⟩
            · rw [hv]
              exact hhead '\'' more (by decide)
            · rw [hc, hs, hv]
              intro hprefix
              rw [printed, doubled_cons_ne (by decide), List.replicate_succ, List.cons_append,
                List.cons_append, List.cons_prefix_cons] at hprefix
              have hmove : List.replicate i '"' ++ '"' :: '"' :: s' =
                  List.replicate (i + 1 + 1) '"' ++ s' := by
                rw [List.replicate_succ', List.replicate_succ', List.append_assoc,
                  List.append_assoc]
                rfl
              rw [hmove] at hprefix
              rw [hs, List.length_cons, List.length_cons] at hn
              refine ih (i + 1) s' v' (by omega) h' ?_ hprefix.2
              intro d t hd hprefix
              rw [List.replicate_succ, List.cons_append, List.cons_prefix_cons] at hprefix
              exact hd hprefix.1.symm
          · rw [List.cons_append, undoubled_step hc _ (by simp)] at h
            rcases Option.map_eq_some_iff.mp h with ⟨v', _, rfl⟩
            rcases printed_head v' more with ⟨t, ht⟩
            rw [ht]
            exact hhead c t hc

/-- A text with a double quote does not come back. -/
theorem not_prefix_of_quote (j : Nat) (s rest v more : Text) (hrest : '"' ∉ rest) (hs : '"' ∈ s)
    (h : undoubled '"' (s ++ '"' :: rest) = some v) :
    ¬ s <+: List.replicate j '\'' ++ printed v more := by
  induction s generalizing j v with
  | nil => exact absurd hs List.not_mem_nil
  | cons c s ih =>
      by_cases hc : c = '"'
      · intro hprefix
        rw [hc, List.cons_append] at h
        cases j with
        | succ j =>
            rw [hc, List.replicate_succ, List.cons_append, List.cons_prefix_cons] at hprefix
            exact absurd hprefix.1 (by decide)
        | zero =>
            rw [List.replicate_zero, List.nil_append, hc] at hprefix
            rcases undoubled_quote hrest h with hv | ⟨s', v', hs', hv, h'⟩
            · rw [hv, printed, doubled_nil, List.nil_append, List.cons_prefix_cons] at hprefix
              exact absurd hprefix.1 (by decide)
            · rw [hv, printed, doubled_cons_ne (by decide), List.cons_append,
                List.cons_prefix_cons, hs'] at hprefix
              exact not_prefix_of_quotes s'.length 0 s' rest v' more (Nat.le_refl _) hrest h'
                hprefix.2
      · have hmem : '"' ∈ s := (List.mem_cons.mp hs).resolve_left (Ne.symm hc)
        rw [List.cons_append, undoubled_step hc _ (by simp)] at h
        rcases Option.map_eq_some_iff.mp h with ⟨v', hv', rfl⟩
        by_cases hq : c = '\''
        · -- a single quote is written twice, so one more of them stands in front of the rest
          rw [hq, printed, doubled_cons_self]
          intro hprefix
          refine ih (j + 1) v' hmem hv' ?_
          have hmove : List.replicate j '\'' ++ ('\'' :: '\'' :: doubled '\'' v' ++ '\'' :: more) =
              '\'' :: (List.replicate (j + 1) '\'' ++ printed v' more) := by
            rw [← List.cons_append, ← List.replicate_succ, List.replicate_succ',
              List.replicate_succ', List.append_assoc, List.append_assoc]
            rfl
          rw [hmove, List.cons_prefix_cons] at hprefix
          exact hprefix.2
        · intro hprefix
          cases j with
          | succ j =>
              rw [List.replicate_succ, List.cons_append, List.cons_prefix_cons] at hprefix
              exact hq hprefix.1
          | zero =>
              rw [List.replicate_zero, List.nil_append, printed, doubled_cons_ne hq,
                List.cons_append, List.cons_prefix_cons] at hprefix
              exact ih 0 v' hmem hv' hprefix.2

theorem doubled_plain {q : Char} {s : Text} (h : q ∉ s) : doubled q s = s := by
  induction s with
  | nil => rfl
  | cons c s ih =>
      rw [List.mem_cons, not_or] at h
      rw [doubled_cons_ne (Ne.symm h.1), ih h.2]

end Quotes

section Chunks

/-- What is read first is a part of the text, and where it is not the line it fills the
    buffer. -/
theorem fgetsLines_first (line f : Text) (hf : '\n' ∈ f) :
    ∃ l ls last, fgetsLines line f = (l :: ls, last) ∧ l <+: line ++ f ∧
      (l.length + 1 = XEV_LINE_SIZE ∨ l.getLast? = some '\n') := by
  induction f generalizing line with
  | nil => exact absurd hf List.not_mem_nil
  | cons c f ih =>
      have hmove : line ++ c :: f = line ++ [c] ++ f := by
        rw [List.append_assoc, List.singleton_append]
      rw [fgetsLines]
      by_cases hcut : c = '\n' ∨ line.length + 2 = XEV_LINE_SIZE
      · rw [if_pos hcut, hmove]
        refine ⟨line ++ [c], _, _, rfl, List.prefix_append _ _, ?_⟩
        rcases hcut with rfl | hlen
        · right
          rw [List.getLast?_append]
          rfl
        · left
          rw [List.length_append, List.length_singleton]
          omega
      · rw [if_neg hcut, hmove]
        refine ih (line ++ [c]) ?_
        exact (List.mem_cons.mp hf).resolve_left fun h => hcut (Or.inl h.symm)

/-- The last piece of a line has its end. -/
theorem fgetsLines_ended (line l : Text) (hplain : '\n' ∉ l)
    (hline : line.length + 1 < XEV_LINE_SIZE) :
    ∃ ls k, fgetsLines line (ended l) = (ls ++ [ended k], []) ∧
      (ls = [] → line.length + l.length + 1 < XEV_LINE_SIZE) := by
  induction l generalizing line with
  | nil =>
      refine ⟨[], line, ?_, fun _ => hline⟩
      rw [ended, List.nil_append, fgetsLines, if_pos (Or.inl rfl)]
      rfl
  | cons c l ih =>
      rw [List.mem_cons, not_or] at hplain
      have htext : ended (c :: l) = c :: ended l := rfl
      rw [htext, fgetsLines]
      by_cases hcut : line.length + 2 = XEV_LINE_SIZE
      · rw [if_pos (Or.inr hcut)]
        rcases ih [] hplain.2 (by decide) with ⟨ls, k, h, _⟩
        refine ⟨(line ++ [c]) :: ls, k, ?_, fun hnil => by cases hnil⟩
        rw [h]
        rfl
      · have hno : ¬ (c = '\n' ∨ line.length + 2 = XEV_LINE_SIZE) := by
          intro h
          rcases h with h | h
          · exact hplain.1 h.symm
          · exact hcut h
        rw [if_neg hno]
        rcases ih (line ++ [c]) hplain.2 (by
          rw [List.length_append, List.length_singleton]
          omega) with ⟨ls, k, h, hnil⟩
        refine ⟨ls, k, h, fun hls => ?_⟩
        have hlen := hnil hls
        rw [List.length_append, List.length_singleton] at hlen
        rw [List.length_cons]
        omega

/-- More is in the file in the end than has been written so far. -/
def Grows (s s' : Passing) : Prop :=
  ∃ x, x ≠ [] ∧ ∀ last out, s'.finish last = .ok out → s.written ++ x <+: out

theorem grows_of_written {s s' : Passing} {x : Text} (hx : x ≠ [])
    (h : s'.written = s.written ++ x) :
    Grows s s' := by
  refine ⟨x, hx, fun last out hout => ?_⟩
  rcases written_finish [] (rfl : postunparse_lines [] s' [] = .ok s') hout with ⟨y, hy⟩
  rw [hy, h]
  exact List.prefix_append _ _

theorem grows_of_broken {s s' : Passing} {x : Text} (hx : x ≠ []) (h : s'.written = s.broken ++ x) :
    Grows s s' := by
  refine grows_of_written (x := (if s.unbreak = true then ['\n'] else []) ++ x) ?_ ?_
  · intro hnil
    exact hx (List.append_eq_nil_iff.mp hnil).2
  · rw [h, Passing.broken, List.append_assoc]

theorem scanPragma_head {c : Char} {rest t : Text} {more : Option Text}
    (hc : c ≠ '"' ∧ c ≠ '\'' ∧ c ≠ '`') (h : scanPragma (c :: rest) = .ok (t, more)) : t ≠ [] := by
  have hquote : ¬ (c = '"' ∨ c = '\'') := fun h => h.elim hc.1 hc.2.1
  rw [scanPragma, scanPragmaFrom, if_neg hquote, if_neg hc.2.2] at h
  rcases (bind_eq_ok_iff _ _ _).mp h with ⟨⟨u, more'⟩, _, heq⟩
  cases heq
  exact List.cons_ne_nil _ _

theorem callExp_ne_nil {body e : Text} (h : callExp body = .ok e) : e ≠ [] := by
  rw [callExp] at h
  split at h
  · split at h
    · cases h
    · cases h
      exact List.cons_ne_nil _ _
  · cases h

theorem grows_pragma (namelist : List NameCell) {s s' : Passing} {line : Text}
    (h : postunparse_pragma namelist s line = .ok s') (hline : line.getLast? = some '\n') :
    Grows s s' := by
  have hne : ∀ t : Text, t.getLast? = some '\n' → t ≠ [] := by
    intro t ht hnil
    rw [hnil] at ht
    cases ht
  rw [postunparse_pragma] at h
  split at h
  · next orgname clen hrename =>
      cases h
      split at hrename
      · next hxev =>
          have hlast := getLast_behind_rename hline (List.isPrefixOf_iff_prefix.mp hxev) hrename
          refine grows_of_broken (x := orgname ++ line.drop (12 + clen)) ?_
            (List.append_assoc _ _ _)
          intro hnil
          exact hne _ hlast (List.append_eq_nil_iff.mp hnil).2
      · cases hrename
  · rcases (bind_eq_ok_iff _ _ _).mp h with ⟨c, _, hc⟩
    cases c with
    | none =>
        cases hc
        exact grows_of_broken (hne line hline) rfl
    | some c =>
        rcases (bind_eq_ok_iff _ _ _).mp hc with ⟨⟨t, more⟩, hscan, heq⟩
        cases heq
        exact grows_of_broken (scanPragma_head (by decide) hscan) rfl

/-- Something is written for every line that has its end. -/
theorem grows_line (namelist : List NameCell) {s s' : Passing} {l : Text}
    (h : postunparse_line namelist s (ended l) = .ok s') : Grows s s' := by
  unfold postunparse_line at h
  dsimp only at h
  cases hpending : s.pending with
  | some rest =>
      rw [hpending] at h
      rcases (bind_eq_ok_iff _ _ _).mp h with ⟨e, he, hresume⟩
      rcases written_resume hresume with ⟨x, hx⟩
      refine grows_of_written (x := e ++ x) ?_ (by rw [hx, List.append_assoc])
      intro hnil
      exact callExp_ne_nil he (List.append_eq_nil_iff.mp hnil).1
  | none =>
      rw [hpending] at h
      dsimp only at h
      have hbreak : ∀ t : Text, t ++ ['\n'] ≠ [] := by
        intro t hnil
        cases (List.append_eq_nil_iff.mp hnil).2
      split at h
      · rcases (bind_eq_ok_iff _ _ _).mp h with ⟨s1, _, heq⟩
        cases heq
        exact grows_of_broken (hbreak s1) (List.append_assoc _ _ _)
      · split at h
        · rcases (bind_eq_ok_iff _ _ _).mp h with ⟨s1, _, heq⟩
          cases heq
          exact grows_of_written (hbreak s1) (List.append_assoc _ _ _)
        · split at h
          · rcases (bind_eq_ok_iff _ _ _).mp h with ⟨t, _, heq⟩
            cases heq
            exact grows_of_broken (hbreak t) (List.append_assoc _ _ _)
          · split at h
            · next hmark =>
                have hprefix := List.isPrefixOf_iff_prefix.mp hmark
                have hne : skipBlanks (ended l) ≠ [] := by
                  intro hnil
                  rw [hnil] at hprefix
                  exact absurd (List.prefix_nil.mp hprefix) (by decide)
                have hgrows := grows_pragma namelist h (getLast_skipBlanks_ended hne)
                exact hgrows
            · -- nothing may be left of the line but its end
              cases h
              refine ⟨(if s.unbreak = true then ['\n'] else []) ++ keptText (ended l) ++ ['\n'],
                hbreak _, fun last out hout => ?_⟩
              cases hout
              rw [Passing.broken, Passing.broken, if_pos rfl]
              simp only [List.append_assoc, List.prefix_rfl]

/-- Something is written for lines when the last one has its end. -/
theorem grows_lines (namelist : List NameCell) {s s' : Passing} {ls : List Text} {l : Text}
    (h : postunparse_lines namelist s (ls ++ [ended l]) = .ok s') : Grows s s' := by
  rcases (postunparse_lines_append_iff _ _ _ _ _).mp h with ⟨s1, hs1, hlast⟩
  rcases (postunparse_lines_cons_iff _ _ _ _ _).mp hlast with ⟨s2, hs2, hnil⟩
  cases hnil
  rcases grows_line namelist hs2 with ⟨x, hx, hgrows⟩
  have hwritten : ∃ y, s1.written = s.written ++ y := by
    clear hlast hs2 hgrows h
    induction ls generalizing s with
    | nil =>
        cases hs1
        exact ⟨[], (List.append_nil _).symm⟩
    | cons k ls ih =>
        rcases (postunparse_lines_cons_iff _ _ _ _ _).mp hs1 with ⟨s3, hs3, hrest⟩
        rcases ih hrest with ⟨y, hy⟩
        rcases (written_line namelist hs3).1 with ⟨z, hz⟩
        exact ⟨z ++ y, by rw [hy, hz, List.append_assoc]⟩
  rcases hwritten with ⟨y, hy⟩
  refine ⟨y ++ x, ?_, fun last out hout => ?_⟩
  · intro hnil
    exact hx (List.append_eq_nil_iff.mp hnil).2
  · rw [← List.append_assoc, ← hy]
    exact hgrows last out hout

end Chunks

section Argument

variable {depth0 : Nat}

/-- A term of a pair is followed by the other one. -/
theorem parse_terms_pair {fuel depth : Nat} {exs exs' : List (List Cell)} {fst : Cell}
    {t rest : Text}
    {cs : List Cell} (h : parse_terms depth0 fuel depth exs (some fst) t = .ok (cs, exs', rest)) :
    ∃ snd more, cs = branch "xev_pair" depth [] [fst, snd] :: more := by
  cases fuel with
  | zero => cases h
  | succ fuel =>
      rw [parse_terms] at h
      rcases (bind_eq_ok_iff _ _ _).mp h with ⟨⟨tx, exs1, t1⟩, _, h1⟩
      dsimp only at h1
      split at h1
      · cases h1
        exact ⟨tx, [], rfl⟩
      · rcases (bind_eq_ok_iff _ _ _).mp h1 with ⟨⟨xs, exs2, t2⟩, _, h2⟩
        cases h2
        exact ⟨tx, xs, rfl⟩
      · cases h1
      · cases h1

/-- The first argument is the string that the text begins with, or a pair of it and another
    term. -/
theorem parse_terms_string {fuel depth : Nat} {exs exs' : List (List Cell)} {t rest : Text}
    {cs : List Cell} (h : parse_terms depth0 fuel depth exs none ('"' :: t) = .ok
      (cs, exs', rest)) :
    ∃ v c more, undoubled '"' t = some v ∧ cs = c :: more ∧
      (c = leaf "xev_string" depth [("value", some v)] ∨
        ∃ snd, c = branch "xev_pair" depth []
          [leaf "xev_string" depth [("value", some v)], snd]) := by
  cases fuel with
  | zero => cases h
  | succ fuel =>
      rw [parse_terms] at h
      rcases (bind_eq_ok_iff _ _ _).mp h with ⟨⟨tx, exs1, t1⟩, hterm, h1⟩
      -- The first term is the string as it was quoted.
      have htx : ∃ v, undoubled '"' t = some v ∧
        tx = leaf "xev_string" depth [("value", some v)] := by
        cases fuel with
        | zero => cases hterm
        | succ fuel =>
            rw [parse_term] at hterm
            dsimp only at hterm
            rw [if_neg (by decide), if_neg (by decide), if_pos (by decide), endstrF] at hterm
            cases hclose : closing '"' t with
            | none =>
                rw [hclose] at hterm
                cases hterm
            | some r =>
                rcases r with ⟨a, b⟩
                rw [hclose] at hterm
                dsimp only [Option.map_some, strF2G] at hterm
                rw [undoubled_of_closing hclose] at hterm
                cases hv : undoubled '"' t with
                | none =>
                    rw [hv] at hterm
                    cases hterm
                | some v =>
                    rw [hv] at hterm
                    cases hterm
                    exact ⟨v, rfl, rfl⟩
      rcases htx with ⟨v, hv, rfl⟩
      dsimp only at h1
      split at h1
      · cases h1
        exact ⟨v, _, [], hv, rfl, Or.inl rfl⟩
      · rcases (bind_eq_ok_iff _ _ _).mp h1 with ⟨⟨xs, exs2, t2⟩, _, h2⟩
        cases h2
        exact ⟨v, _, xs, hv, rfl, Or.inl rfl⟩
      · rcases parse_terms_pair h1 with ⟨snd, more, hcs⟩
        exact ⟨v, _, more, hv, hcs, Or.inr ⟨snd, rfl⟩⟩
      · cases h1

/-- What is written for arguments begins with the first of them. -/
theorem clause_text_string {c : Cell} {more : List Cell} {depth : Nat} {v t : Text}
    {s s' : CodeList}
    (hc : c = leaf "xev_string" depth [("value", some v)] ∨
      ∃ snd, c = branch "xev_pair" depth [] [leaf "xev_string" depth [("value", some v)], snd])
    (h : clause_text false 0 (c :: more) s = .ok (t, s')) : strG2F v '\'' <+: t := by
  have hleaf : (leaf "xev_string" depth [("value", some v)]).termText s =
    .ok (some (strG2F v '\''), s) :=
    rfl
  have hfirst : ∀ w s1, c.termText s = .ok (w, s1) → ∃ u, w = some u ∧ strG2F v '\'' <+: u := by
    intro w s1 hw
    rcases hc with rfl | ⟨snd, rfl⟩
    · rw [hleaf] at hw
      cases hw
      exact ⟨_, rfl, List.prefix_rfl⟩
    · have hpair : (branch "xev_pair" depth []
        [leaf "xev_string" depth [("value", some v)], snd]).termText s =
          pairText [leaf "xev_string" depth [("value", some v)], snd] s >>= fun r =>
            .ok (some r.1, r.2) := rfl
      rw [hpair, pairText, hleaf] at hw
      rcases (bind_eq_ok_iff _ _ _).mp hw with ⟨⟨u, s2⟩, hu, heq⟩
      cases heq
      rcases (bind_eq_ok_iff _ _ _).mp hu with ⟨⟨w1, s3⟩, hw1, hsnd⟩
      cases hw1
      rcases (bind_eq_ok_iff _ _ _).mp hsnd with ⟨⟨w2, s4⟩, _, heq⟩
      cases heq
      exact ⟨_, rfl, List.prefix_append _ _⟩
  rw [clause_text] at h
  rcases (bind_eq_ok_iff _ _ _).mp h with ⟨⟨w, s1⟩, hw, h1⟩
  rcases hfirst w s1 hw with ⟨u, rfl, hu⟩
  rcases (bind_eq_ok_iff _ _ _).mp h1 with ⟨⟨ts, s2⟩, _, heq⟩
  cases heq
  rw [if_neg (by decide), List.nil_append]
  exact hu.trans (List.prefix_append _ _)

/-- What the line holds is not touched. -/
theorem prefix_unparseFrom {buf u : Text} {xs : List Cell} {s s' : CodeList}
    (h : unparseFrom buf xs s = .ok (u, s')) : buf <+: u := by
  induction xs generalizing buf s with
  | nil =>
      cases h
      exact List.prefix_rfl
  | cons x xs ih =>
      rw [unparseFrom] at h
      rcases (bind_eq_ok_iff _ _ _).mp h with ⟨name, _, h1⟩
      have hbuf : buf <+: (if buf.length ≠ 0 then buf ++ [' '] else buf) ++ name := by
        split
        · exact (List.prefix_append _ _).trans (List.prefix_append _ _)
        · exact List.prefix_append _ _
      dsimp only at h1
      split at h1
      · exact hbuf.trans (ih h1)
      · rcases (bind_eq_ok_iff _ _ _).mp h1 with ⟨⟨t, s1⟩, _, h2⟩
        have hmore := ih h2
        rw [List.append_assoc] at hmore
        exact hbuf.trans ((List.prefix_append _ _).trans hmore)

end Argument

section Directive

variable (namelist : List NameCell)

/-- A line with a string directive. -/
structure StringLine where
  line : Text
  plain : '\n' ∉ line
  mark : (skipBlanks line).head? = some '!'
  found : (xevparse_pragma_line namelist line).map NameCell.kind = some .string

/-- The line after the four steps. The front end gives the text of the directive from behind
    its mark on, and the back end writes it on a line of its own. -/
def stringBack (depth : Nat) (exs : List (List Cell)) (s : CodeList) (line : Text) : Run Text := do
  let l ← rewriteLine namelist (ended line)
  let p ← xev_parse_pragma depth (l.drop 2) exs
  let u ← xev_unparse_pragma p.1 s
  if XEV_LINE_SIZE ≤ u.1.length then .error .undefined
  else postunparse_f namelist (ended ("!pragma ".toList ++ u.1))

/-- The beginning of a string directive on its way back. -/
def stringMark : Text := "!pragma xev string_pragma(\'".toList

/-- The text of a string directive is a part of what stands behind its first quote. -/
theorem prefix_stringText {line t : Text} (h : stringText line = .ok t) : t <+: line.drop 27 := by
  rw [stringText] at h
  split at h
  · cases h
  · split at h
    · cases h
      exact List.IsPrefix.drop ((List.take_prefix _ _).trans (List.rdropWhile_prefix _ _)) 27
    · split at h
      · cases h
      · cases h
        exact List.prefix_rfl

/-- What is done with the line of a string directive. -/
theorem postunparse_line_string {s : Passing} (hpending : s.pending = none) (rest : Text) :
    postunparse_line namelist s (stringMark ++ rest) =
      stringText (stringMark ++ rest) >>= fun t =>
        .ok ({ s with buffer := stringMark ++ rest }.wrote (s.broken ++ t ++ ['\n'])) := by
  have hmarked : ∀ mark : Text, mark <+: stringMark → mark <+: stringMark ++ rest :=
    fun mark h => h.trans (List.prefix_append _ _)
  have hstring : "!pragma xev string_pragma".toList.isPrefixOf (stringMark ++ rest) = true :=
    List.isPrefixOf_iff_prefix.mpr (hmarked _ (by decide))
  rw [postunparse_line_xev namelist hpending (hmarked _ (by decide)), if_pos hstring]

/-- What stands between the first quote and the last one. -/
theorem stringText_quoted (d : Text) : stringText (ended (stringMark ++ d ++ ['\'', ')'])) = .ok
    d := by
  have hfront : (ended (stringMark ++ d ++ ['\'', ')'])).rdropWhile (fun c => c != '\'') =
      stringMark ++ d ++ ['\''] := by
    have htext : ended (stringMark ++ d ++ ['\'', ')']) =
        stringMark ++ d ++ ['\''] ++ [')'] ++ ['\n'] := by
      simp only [ended, List.append_assoc]
      rfl
    rw [htext, List.rdropWhile_concat_pos _ _ _ (by decide), List.rdropWhile_concat_pos _ _ _
      (by decide),
      List.rdropWhile_concat_neg _ _ _ (by decide)]
  have hlength : (stringMark ++ d ++ ['\'']).length = d.length + 28 := by
    rw [List.length_append, List.length_append]
    have hmark : stringMark.length = 27 := rfl
    have hone : ['\''].length = 1 := rfl
    omega
  rw [stringText, hfront, if_neg (by simp), hlength, if_pos (by omega)]
  have htake : (stringMark ++ d ++ ['\'']).take (d.length + 28 - 1) = stringMark ++ d := by
    refine List.take_left' ?_
    rw [List.length_append]
    have hmark : stringMark.length = 27 := rfl
    omega
  rw [htake]
  rfl

/-- A text that ends a line, in front of a line end. -/
theorem prefix_of_ended_eq {l t more : Text} (hl : '\n' ∉ l) (h : ended l = t ++ '\n' :: more) :
    l <+: t := by
  rcases List.append_eq_append_iff.mp h with ⟨a, ht, _⟩ | ⟨a, ht, ha⟩
  · rw [ht]
    exact List.prefix_append _ _
  · cases a with
    | nil =>
        rw [ht, List.append_nil]
    | cons c a =>
        rw [List.cons_append, List.cons.injEq] at ha
        rw [ht, ← ha.1] at hl
        simp at hl

/-- What is read first has the first quote in it. -/
theorem fgetsLines_string (p : Text) :
    ∃ rest ls last, fgetsLines [] (ended (stringMark ++ p)) = ((stringMark ++ rest) :: ls, last) ∧
      rest <+: ended p := by
  have hf : ended (stringMark ++ p) = stringMark ++ ended p := List.append_assoc _ _ _
  rcases fgetsLines_first [] (ended (stringMark ++ p)) (by simp [ended]) with
    ⟨l, ls, last, hread, hl, hlen⟩
  rw [List.nil_append, hf] at hl
  have hmark : stringMark <+: l := by
    rcases List.prefix_or_prefix_of_prefix (List.prefix_append stringMark (ended p)) hl with h | h
    · exact h
    · rcases hlen with hlen | hlast
      · have hle := h.length_le
        have hmark : stringMark.length = 27 := rfl
        rw [XEV_LINE_SIZE] at hlen
        omega
      · exact absurd (h.subset (List.mem_of_getLast? hlast)) (by decide)
  rcases hmark with ⟨rest, rfl⟩
  exact ⟨rest, ls, last, hread, (List.prefix_append_right_inj stringMark).mp hl⟩

/-- The file that the user gets begins with a part of the text behind the first quote. -/
theorem postunparse_f_string {p out : Text}
    (h : postunparse_f namelist (ended (stringMark ++ p)) = .ok out) :
    ∃ t more, t <+: ended p ∧ out = t ++ '\n' :: more := by
  rcases fgetsLines_string p with ⟨rest, ls, last, hread, hprefix⟩
  rw [postunparse_f, hread] at h
  rcases (bind_eq_ok_iff _ _ _).mp h with ⟨s, hs, hout⟩
  rcases (postunparse_lines_cons_iff _ _ _ _ _).mp hs with ⟨s1, hs1, hrest⟩
  rw [postunparse_line_string namelist rfl] at hs1
  rcases (bind_eq_ok_iff _ _ _).mp hs1 with ⟨t, ht, heq⟩
  cases heq
  rcases written_finish namelist hrest hout with ⟨x, hx⟩
  refine ⟨t, x, (prefix_stringText ht).trans hprefix, ?_⟩
  rw [hx]
  simp [Passing.wrote, Passing.broken, Passing.start]

/-- A text in quotes comes back as it stands there if the line fits the buffer. -/
theorem postunparse_f_quoted {d l : Text} (hd : '\n' ∉ d) (hl : '\n' ∉ l) :
    postunparse_f namelist (ended (stringMark ++ d ++ ['\'', ')'])) = .ok (ended l) ↔
      d = l ∧ d.length + 30 < XEV_LINE_SIZE := by
  have hplain : '\n' ∉ stringMark ++ d ++ ['\'', ')'] := by
    rw [List.mem_append, List.mem_append, not_or, not_or]
    exact ⟨⟨by decide, hd⟩, by decide⟩
  have hlength : (stringMark ++ d ++ ['\'', ')']).length = d.length + 29 := by
    rw [List.length_append, List.length_append]
    have hmark : stringMark.length = 27 := rfl
    have htwo : ['\'', ')'].length = 2 := rfl
    omega
  by_cases hfit : d.length + 30 < XEV_LINE_SIZE
  · -- the line is read at once
    have hread := fgetsLines_line _ [] [] hplain (by
      rw [hlength, List.length_nil, Nat.zero_add]
      exact hfit)
    rw [List.append_nil, List.nil_append] at hread
    have hout : postunparse_f namelist (ended (stringMark ++ d ++ ['\'', ')'])) = .ok
      (ended d) := by
      have hline := postunparse_line_string namelist (s := Passing.start) rfl
        (ended (d ++ ['\'', ')']))
      have htext : stringMark ++ ended (d ++ ['\'', ')']) = ended
        (stringMark ++ d ++ ['\'', ')']) := by
        simp only [ended, List.append_assoc]
      rw [htext, stringText_quoted] at hline
      rw [postunparse_f, hread]
      refine (bind_eq_ok_iff _ _ _).mpr ⟨_, (bind_eq_ok_iff _ _ _).mpr ⟨_, hline, rfl⟩, ?_⟩
      simp [Passing.finish, Passing.wrote, Passing.broken, Passing.start, ended]
    rw [hout]
    constructor
    · intro h
      exact ⟨List.append_cancel_right (Except.ok.inj h), hfit⟩
    · intro h
      rw [h.1]
  · -- a part of it is read first, and something is written for the rest of it
    refine iff_of_false ?_ fun h => hfit h.2
    intro h
    rcases fgetsLines_ended [] _ hplain (by decide) with ⟨ls, k, hread, hfits⟩
    rw [hlength, List.length_nil, Nat.zero_add] at hfits
    rcases fgetsLines_string (d ++ ['\'', ')']) with ⟨rest, ls', last, hread', _⟩
    rw [← List.append_assoc, hread] at hread'
    cases ls with
    | nil => exact hfit (hfits rfl)
    | cons c ls =>
        rw [List.cons_append, Prod.mk.injEq, List.cons.injEq] at hread'
        rw [postunparse_f, hread, hread'.1.1] at h
        rcases (bind_eq_ok_iff _ _ _).mp h with ⟨s, hs, hout⟩
        rcases (postunparse_lines_cons_iff _ _ _ _ _).mp hs with ⟨s1, hs1, hrest⟩
        rw [postunparse_line_string namelist rfl] at hs1
        rcases (bind_eq_ok_iff _ _ _).mp hs1 with ⟨t, ht, heq⟩
        cases heq
        rcases grows_lines namelist hrest with ⟨x, hx, hgrows⟩
        rcases hgrows _ _ hout with ⟨more, hmore⟩
        have heq : ended l = t ++ '\n' :: (x ++ more) := by
          rw [← hmore]
          simp [Passing.wrote, Passing.broken, Passing.start]
        have hle := (prefix_of_ended_eq hl heq).length_le
        have hlen := congrArg List.length heq
        have hpos := List.length_pos_of_ne_nil hx
        simp only [ended, List.length_append, List.length_cons, List.length_nil] at hlen
        omega

theorem strG2F_append (v rest : Text) :
    strG2F v '\'' ++ rest = '\'' :: (doubled '\'' v ++ '\'' :: rest) := by
  rw [strG2F, List.cons_append, List.cons_append, List.append_assoc]
  rfl

/-- What the directive becomes begins with the string that was read. -/
theorem unparse_string {depth0 : Nat} {exs exs' : List (List Cell)} {t u : Text} {xs : List Cell}
    {s s' : CodeList}
    (h : xev_parse_pragma depth0 ("xev string_pragma(\"".toList ++ t) exs = .ok (xs, exs'))
    (hu : xev_unparse_pragma xs s = .ok (u, s')) :
    ∃ v more, undoubled '"' t = some v ∧
      "!pragma ".toList ++ u = stringMark ++ printed v more := by
  have hxev : IsName "xev".toList := ⟨by decide, by decide⟩
  have hname : IsName "string_pragma".toList := ⟨by decide, by decide⟩
  have htext : "xev string_pragma(\"".toList ++ t =
      "xev".toList ++ ' ' :: ("string_pragma".toList ++ '(' :: '"' :: t) := rfl
  have hskip : skipBlanks (' ' :: ("string_pragma".toList ++ '(' :: '"' :: t)) =
      "string_pragma".toList ++ '(' :: '"' :: t := rfl
  have hhead : ("string_pragma".toList ++ '(' :: '"' :: t).head? = some 's' := rfl
  rw [xev_parse_pragma, htext] at h
  generalize 2 * _ + 2 = fuel at h
  cases fuel with
  | zero => cases h
  | succ fuel =>
      rw [parseClauses_name depth0 fuel exs _ _ hxev (Or.inr ⟨_, Or.inl rfl⟩), hskip,
        hhead, if_neg (by decide)] at h
      rcases (bind_eq_ok_iff _ _ _).mp h with ⟨⟨ys, exs1⟩, hys, heq⟩
      cases heq
      cases fuel with
      | zero =>
          rw [parseClauses] at hys
          cases hys
      | succ fuel =>
          have hafter : AfterName ('(' :: '"' :: t) := Or.inr ⟨'"' :: t, Or.inr rfl⟩
          rw [parseClauses_name depth0 fuel exs "string_pragma".toList
            ('(' :: '"' :: t) hname hafter] at hys
          rw [skipBlanks_paren, if_pos (by rw [List.head?_cons]), List.tail_cons] at hys
          rcases (bind_eq_ok_iff _ _ _).mp hys with ⟨⟨cs, exs2, rest⟩, hcs, hclause⟩
          rcases (bind_eq_ok_iff _ _ _).mp hclause with ⟨⟨zs, exs3⟩, _, heq⟩
          cases heq
          -- Whatever comes behind the string, it is written first.
          rcases parse_terms_string hcs with ⟨v, c, more, hv, rfl, hc⟩
          have hunparse : xev_unparse_pragma
              (clauseCell depth0 "xev".toList [] :: clauseCell depth0 "string_pragma".toList
                (c :: more) :: zs) s =
              clause_text false 0 (c :: more) s >>= fun r =>
                unparseFrom ("xev string_pragma(".toList ++ r.1 ++ [')']) zs r.2 := rfl
          rw [hunparse] at hu
          rcases (bind_eq_ok_iff _ _ _).mp hu with ⟨⟨w, s1⟩, hw, hzs⟩
          rcases clause_text_string hc hw with ⟨w', rfl⟩
          rcases prefix_unparseFrom hzs with ⟨z, rfl⟩
          have hmark : stringMark = "!pragma ".toList ++ "xev string_pragma(".toList ++ ['\''] :=
            by decide
          refine ⟨v, w' ++ [')'] ++ z, hv, ?_⟩
          rw [hmark, strG2F_append, printed]
          generalize "!pragma ".toList = a
          generalize "xev string_pragma(".toList = b
          simp only [List.append_assoc, List.cons_append, List.nil_append]

/-- A text without double quotes is read as it stands there. -/
theorem parse_string (depth0 : Nat) (exs : List (List Cell)) {d w : Text} (hd : '"' ∉ d)
    (hw : ∀ c ∈ w, blank c = true) :
    xev_parse_pragma depth0 ("xev string_pragma(\"".toList ++ d ++ '"' :: ')' :: w) exs =
      .ok ([clauseCell depth0 "xev".toList [],
        clauseCell depth0 "string_pragma".toList
          [leaf "xev_string" (depth0 + 1) [("value", some d)]]],
        exs) := by
  have hxev : IsName "xev".toList := ⟨by decide, by decide⟩
  have hname : IsName "string_pragma".toList := ⟨by decide, by decide⟩
  have hterm : ∀ fuel, parse_term depth0 (fuel + 1) (depth0 + 1) exs
    ('"' :: (d ++ '"' :: ')' :: w)) =
      .ok (leaf "xev_string" (depth0 + 1) [("value", some d)], exs, ')' :: w) := by
    intro fuel
    have hquote : NoQuoteAhead '"' (')' :: w) := by
      rw [NoQuoteAhead, List.head?_cons]
      decide
    have hend := endstrF_strG2F d (')' :: w) hquote
    rw [strG2F, doubled_plain hd, List.cons_append, List.cons_append, List.append_assoc,
      List.singleton_append] at hend
    have hread : strF2G ('"' :: (d ++ ['"'])) = some d := by
      have h : strF2G (strG2F d '"') = some d := strF2G_strG2F d
      rw [strG2F, doubled_plain hd, List.cons_append] at h
      exact h
    rw [parse_term]
    dsimp only
    rw [if_neg (by decide), if_neg (by decide), if_pos (by decide), hend]
    dsimp only
    rw [hread]
  -- The string is the only term: behind it comes the bracket.
  have hterms : ∀ fuel, parse_terms depth0 (fuel + 2) (depth0 + 1) exs none
      ('"' :: (d ++ '"' :: ')' :: w)) =
      .ok ([leaf "xev_string" (depth0 + 1) [("value", some d)]], exs, w) := by
    intro fuel
    rw [parse_terms, hterm]
    rfl
  have hblank : ∀ fuel, parseClauses depth0 (fuel + 1) exs w = .ok ([], exs) := by
    intro fuel
    have hskip : skipBlanks w = [] := List.dropWhile_eq_nil_iff.mpr hw
    rw [parseClauses, hskip]
    rfl
  have htext : "xev string_pragma(\"".toList ++ d ++ '"' :: ')' :: w =
      "xev".toList ++ ' ' :: ("string_pragma".toList ++ '(' :: '"' :: (d ++ '"' :: ')' :: w)) := by
    rw [List.append_assoc]
    rfl
  have hlength : 5 ≤ 2 * ("xev string_pragma(\"".toList ++ d ++ '"' :: ')' :: w).length + 2 := by
    rw [List.length_append, List.length_cons, List.length_cons]
    omega
  rw [xev_parse_pragma]
  rcases Nat.exists_eq_add_of_le' hlength with ⟨fuel, hfuel⟩
  rw [hfuel, htext]
  refine parseClauses_word depth0 (fuel + 4) exs exs "xev".toList _ _ hxev
    (Or.inr ⟨'s', _, rfl, by decide⟩) ?_
  rw [parseClauses_blank]
  exact parseClauses_call depth0 (fuel + 3) exs exs exs "string_pragma".toList _ w _ _ hname
    (hterms (fuel + 1)) (hblank (fuel + 2))

theorem mem_of_mem_doubled {c q : Char} {d : Text} (h : c ∈ doubled q d) : c ∈ d := by
  rcases List.mem_flatMap.mp h with ⟨x, hx, hc⟩
  by_cases hq : x = q
  · rw [if_pos hq, ← hq] at hc
    simp only [List.mem_cons, List.not_mem_nil, or_false, or_self] at hc
    rw [hc]
    exact hx
  · rw [if_neg hq, List.mem_singleton] at hc
    rw [hc]
    exact hx

/-- What is written once more for a text is the text only where it has no quote. -/
theorem not_mem_of_doubled {d w : Text} {q : Char} (h : doubled q d = d ++ w) (hw : q ∉ w) :
    q ∉ d := by
  have hcount : (doubled q d).count q = 2 * d.count q := by
    clear h
    induction d with
    | nil => rfl
    | cons c d ih =>
        by_cases hc : c = q
        · rw [hc, doubled_cons_self, List.count_cons_self, List.count_cons_self,
            List.count_cons_self, ih]
          omega
        · rw [doubled_cons_ne hc, List.count_cons_of_ne hc, List.count_cons_of_ne hc, ih]
  rw [h, List.count_append, List.count_eq_zero.mpr hw] at hcount
  exact List.count_eq_zero.mp (by omega)

/-- What a line with a string directive becomes, if there is room for it. -/
theorem string_line_ended (line : Text) : string_line (ended line) =
    if XEV_LINE_SIZE ≤ line.length + 24 then .error .undefined
    else .ok ("!$xev string_pragma(\"".toList ++ line.rdropWhile blank ++
      '"' :: ')' :: ended (line.rtakeWhile blank)) := by
  have hcode : (ended line).rdropWhile blank = line.rdropWhile blank := by
    rw [ended, List.rdropWhile_concat_pos _ _ _ (by decide)]
  have hrest : (ended line).drop (line.rdropWhile blank).length =
    ended (line.rtakeWhile blank) := by
    have hline : ended line = line.rdropWhile blank ++ ended (line.rtakeWhile blank) := by
      rw [ended, ended, ← List.append_assoc, List.rdropWhile_append_rtakeWhile]
    rw [hline, List.drop_left]
  have hlength : (ended line).length = line.length + 1 := List.length_append
  unfold string_line
  dsimp only
  rw [hcode, hrest, hlength, List.append_assoc, List.append_assoc]
  rfl

/-- The steps behind the first one. -/
theorem stringBack_eq (depth : Nat) (exs : List (List Cell)) (s : CodeList)
    (l : StringLine namelist) :
    stringBack namelist depth exs s l.line =
      if XEV_LINE_SIZE ≤ l.line.length + 24 then .error .undefined
      else xev_parse_pragma depth ("xev string_pragma(\"".toList ++
          (l.line.rdropWhile blank ++ '"' :: ')' :: ended (l.line.rtakeWhile blank))) exs
            >>= fun r =>
        xev_unparse_pragma r.1 s >>= fun r =>
          if XEV_LINE_SIZE ≤ r.1.length then .error .undefined
          else postunparse_f namelist (ended ("!pragma ".toList ++ r.1)) := by
  rcases l with ⟨line, plain, mark, found⟩
  dsimp only
  have hrewrite : rewriteLine namelist (ended line) = string_line (ended line) := by
    have hcell : xevparse_pragma_line namelist (ended line) =
      xevparse_pragma_line namelist line := by
      rw [xevparse_pragma_line, firstWord_ended, xevparse_pragma_line]
    rw [rewriteLine, if_pos ((head_skipBlanks_ended line '!' (by decide)).mpr mark), hcell, found]
  rw [stringBack, hrewrite, string_line_ended]
  by_cases hlong : XEV_LINE_SIZE ≤ line.length + 24
  · rw [if_pos hlong, if_pos hlong, error_bind]
  · have hdrop : ∀ t : Text, ("!$xev string_pragma(\"".toList ++ t).drop 2 =
        "xev string_pragma(\"".toList ++ t := fun t => rfl
    rw [if_neg hlong, if_neg hlong, ok_bind, List.append_assoc, hdrop]

/-- What a directive without double quotes becomes, with the quotes in it doubled. -/
theorem unparse_plain (depth0 : Nat) (d : Text) (s : CodeList) :
    xev_unparse_pragma [clauseCell depth0 "xev".toList [],
        clauseCell depth0 "string_pragma".toList
          [leaf "xev_string" (depth0 + 1) [("value", some d)]]] s =
      .ok ("xev string_pragma(\'".toList ++ (doubled '\'' d ++ ['\'', ')']), s) := by
  have hunparse : xev_unparse_pragma [clauseCell depth0 "xev".toList [],
      clauseCell depth0 "string_pragma".toList
        [leaf "xev_string" (depth0 + 1) [("value", some d)]]] s =
      .ok ("xev string_pragma(".toList ++ (strG2F d '\'' ++ []) ++ [')'], s) := rfl
  rw [hunparse, List.append_nil, List.append_assoc, strG2F_append]
  rfl

/-- A line with a string directive comes back if there are no quotes in it, nothing is blank
    at its end and it fits the buffer with what is written around it. -/
theorem stringBack_iff (depth : Nat) (exs : List (List Cell)) (s : CodeList)
    (l : StringLine namelist) :
    stringBack namelist depth exs s l.line = .ok (ended l.line) ↔
      '"' ∉ l.line ∧ '\'' ∉ l.line ∧ l.line.rdropWhile blank = l.line ∧
        l.line.length + 30 < XEV_LINE_SIZE := by
  rw [stringBack_eq]
  rcases l with ⟨line, plain, mark, found⟩
  dsimp only
  -- the line is divided into a text and what is blank at its end
  have hline : line.rdropWhile blank ++ line.rtakeWhile blank = line :=
    List.rdropWhile_append_rtakeWhile
  have hblank : ∀ c ∈ line.rtakeWhile blank, blank c = true :=
    fun c hc => List.mem_rtakeWhile_imp hc
  have hself : line.rdropWhile blank = line ↔ line.rtakeWhile blank = [] := by
    constructor
    · intro h
      rw [h] at hline
      exact List.append_right_eq_self.mp hline
    · intro h
      rw [h, List.append_nil] at hline
      exact hline
  generalize line.rdropWhile blank = d at hline hself ⊢
  generalize line.rtakeWhile blank = w at hline hself hblank ⊢
  have hnotblank : ∀ c, blank c = false → c ∉ w := by
    intro c hc hmem
    rw [hblank c hmem] at hc
    cases hc
  by_cases hlong : XEV_LINE_SIZE ≤ line.length + 24
  · -- there is no room for what is written around the line
    rw [if_pos hlong]
    refine iff_of_false (fun h => by cases h) fun h => ?_
    have hfits := h.2.2.2
    omega
  · rw [if_neg hlong]
    by_cases hquote : '"' ∈ line
    · -- the text ends at a quote of its own, or this is read as one of two
      refine iff_of_false (fun h => ?_) fun h => h.1 hquote
      rcases (bind_eq_ok_iff _ _ _).mp h with ⟨⟨xs, exs'⟩, hxs, h1⟩
      rcases (bind_eq_ok_iff _ _ _).mp h1 with ⟨⟨u, s'⟩, hu, h2⟩
      rcases unparse_string hxs hu with ⟨v, more, hv, htext⟩
      dsimp only at h2
      split at h2
      · cases h2
      · rw [htext] at h2
        rcases postunparse_f_string namelist h2 with ⟨t, rest, ht, hout⟩
        have hprefix : d <+: printed v (more ++ ['\n']) := by
          have hd : d <+: line := by
            rw [← hline]
            exact List.prefix_append _ _
          have hall := hd.trans ((prefix_of_ended_eq plain hout).trans ht)
          rw [ended, printed, List.append_assoc, List.cons_append] at hall
          exact hall
        have hmem : '"' ∈ d := by
          rw [← hline, List.mem_append] at hquote
          exact hquote.resolve_right (hnotblank '"' (by decide))
        have hno : '"' ∉ ')' :: ended w := by
          rw [List.mem_cons, ended, List.mem_append, not_or, not_or]
          exact ⟨by decide, hnotblank '"' (by decide), by decide⟩
        exact not_prefix_of_quote 0 d _ v _ hno hmem hv hprefix
    · have hd : '"' ∉ d := fun h => hquote (by rw [← hline]; exact List.mem_append_left _ h)
      have hw : ∀ c ∈ ended w, blank c = true := by
        intro c hc
        rcases List.mem_append.mp hc with hc | hc
        · exact hblank c hc
        · rw [List.mem_singleton.mp hc]
          decide
      have hparse := parse_string depth exs hd hw
      rw [List.append_assoc] at hparse
      have hplain : '\n' ∉ doubled '\'' d := by
        intro hmem
        refine plain ?_
        rw [← hline]
        exact List.mem_append_left _ (mem_of_mem_doubled hmem)
      have hmark : "!pragma ".toList ++ ("xev string_pragma(\'".toList ++
          (doubled '\'' d ++ ['\'', ')'])) = stringMark ++ doubled '\'' d ++ ['\'', ')'] := by
        rw [List.append_assoc]
        rfl
      have hlength : ("xev string_pragma(\'".toList ++ (doubled '\'' d ++ ['\'', ')'])).length =
          (doubled '\'' d).length + 21 := by
        rw [List.length_append, List.length_append]
        have hhead : "xev string_pragma(\'".toList.length = 19 := rfl
        have htwo : ['\'', ')'].length = 2 := rfl
        omega
      -- the quotes are doubled once, so there are none if the line has come back
      have hsame : doubled '\'' d = line ↔ '\'' ∉ line ∧ d = line := by
        constructor
        · intro h
          have hno : '\'' ∉ d :=
            not_mem_of_doubled (h.trans hline.symm) (hnotblank '\'' (by decide))
          rw [doubled_plain hno] at h
          rw [← h]
          exact ⟨hno, rfl⟩
        · intro h
          rw [h.2]
          exact doubled_plain h.1
      rw [hparse, ok_bind, unparse_plain, ok_bind, hlength, hmark]
      by_cases hfull : XEV_LINE_SIZE ≤ (doubled '\'' d).length + 21
      · rw [if_pos hfull]
        refine iff_of_false (fun h => by cases h) fun h => ?_
        have hlen := h.2.2.2
        rw [← hsame.mpr ⟨h.2.1, h.2.2.1⟩] at hlen
        omega
      · rw [if_neg hfull, postunparse_f_quoted namelist hplain plain]
        constructor
        · intro h
          have hsplit := hsame.mp h.1
          refine ⟨hquote, hsplit.1, hsplit.2, ?_⟩
          rw [← h.1]
          exact h.2
        · intro h
          have hall := hsame.mpr ⟨h.2.1, h.2.2.1⟩
          refine ⟨hall, ?_⟩
          rw [hall]
          exact h.2.2.2

end Directive

/-- A configuration with one string directive. -/
def mydir : NameCell := ⟨false, "!$mydir".toList, .string⟩

/-- A directive with an apostrophe in its text. -/
def apostrophe : StringLine [mydir] where
  line := "!$mydir it's".toList
  plain := by decide
  mark := by decide
  found := by decide

/-- A directive with a text in double quotes. -/
def quoted : StringLine [mydir] where
  line := "!$mydir say \"a\"".toList
  plain := by decide
  mark := by decide
  found := by decide

/-- Neither of the two comes back. -/
theorem quotes_not_back :
    stringBack [mydir] 0 [] ⟨0, []⟩ apostrophe.line ≠ .ok (ended apostrophe.line) ∧
      stringBack [mydir] 0 [] ⟨0, []⟩ quoted.line ≠ .ok (ended quoted.line) := by
  constructor
  · decide +kernel
  · decide +kernel

end XevXml.Tools.Passes
