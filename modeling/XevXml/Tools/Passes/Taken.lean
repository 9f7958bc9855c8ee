import XevXml.Tools.Passes.Expressions

/-!
# What the Parser Takes

Reading a directive goes over a part of its text. This part is a row of calm texts and of
pieces of code, and an expression is taken from the list for each of the pieces. All of them
are kept below placeholders but those that have been counted as lost.

The functions of the parser call each other, and so there is one statement for a term and one
for arguments: what has been read, what has been taken, and how the count of lost pieces goes
on behind it. The arguments are read behind the first half of a pair, or behind none, and its
placeholders belong to the argument that is being read.

## Main definitions

* `Taken`: A part of a text has been read and expressions have been taken for it.
* `TermTaken`, `ArgsTaken`, `ClausesTaken`: What has been read and what it leaves.
* `GoodClause`: A clause that the parser may have made.

## Theorems

* `argsTaken_close`, `argsTaken_comma`, `argsTaken_colon`: The steps between arguments.
* `parse_taken`, `parse_terms_taken`, `parseClauses_taken`: The functions of the parser.
* `unparseFrom_good`: The unparser writes one number for each placeholder.
-/

namespace XevXml.Tools.Passes

open Quoting

section Taking

/-- Reading goes from a text over a part `c` to the rest, and takes expressions from the list,
    one for every piece of code in the part. -/
structure Taken (t r : Text) (L L' : List (List Cell)) (c : Text) (taken : List (List Cell)) :
    Prop where
  text : t = c ++ r
  list : L = taken ++ L'
  spans : ∃ es, Spans c es ∧ es.length = taken.length

theorem Taken.trans {t r u : Text} {L L' L'' : List (List Cell)} {c d : Text}
    {taken taken' : List (List Cell)} (h : Taken t r L L' c taken)
    (h' : Taken r u L' L'' d taken') : Taken t u L L'' (c ++ d) (taken ++ taken') where
  text := by rw [h.text, h'.text, List.append_assoc]
  list := by rw [h.list, h'.list, List.append_assoc]
  spans := by
    obtain ⟨es, hes, hlen⟩ := h.spans
    obtain ⟨fs, hfs, hlen'⟩ := h'.spans
    exact ⟨es ++ fs, hes.append hfs, by rw [List.length_append, List.length_append, hlen, hlen']⟩

theorem taken_calm {c : Text} (hc : Calm c) (r : Text) (L : List (List Cell)) :
    Taken (c ++ r) r L L c [] where
  text := rfl
  list := rfl
  spans := ⟨[], .calm hc, rfl⟩

theorem calm_of_blank {s : Text} (h : ∀ c ∈ s, blank c = true) : Calm s := by
  refine calm_of_plain fun c hc => ⟨?_, ?_, ?_⟩
  · rw [Bool.eq_false_iff, Ne, isQuote_iff]
    rintro (rfl | rfl) <;> exact absurd (h _ hc) (by decide)
  · rintro rfl
    exact absurd (h _ hc) (by decide)
  · rintro rfl
    exact absurd (h _ hc) (by decide)

/-- A text is divided where its first character stands that is not blank. -/
theorem exists_skipBlanks (t : Text) :
    ∃ s, t = s ++ skipBlanks t ∧ ∀ c ∈ s, blank c = true :=
  ⟨t.takeWhile blank, List.takeWhile_append_dropWhile.symm, fun _ hc => List.mem_takeWhile_imp hc⟩

/-- A term has been read. All expressions that are below it have been taken, and `m` of those
    that have been taken are not below it. -/
def TermTaken (t r : Text) (L L' : List (List Cell)) (y : Cell) : Prop :=
  ∃ c taken m, Taken t r L L' c taken ∧ Good y ∧ (Cell.codes y).Sublist taken ∧
    (Cell.codes y).length + m = taken.length ∧
    ∀ b st w, lost b st (skeleton (c ++ w)) =
      m + lost false (bump (Cell.codes y).length st) (skeleton w)

/-- Arguments have been read, behind the first half of a pair if there is one. -/
def ArgsTaken (t r : Text) (L L' : List (List Cell)) (fst : Option Cell) (xs : List Cell) :
    Prop :=
  ∃ c taken m, Taken t r L L' c taken ∧ (∀ x ∈ xs, Good x) ∧
    (codesAll xs).Sublist (codesAll fst.toList ++ taken) ∧
    (codesAll xs).length + m = (codesAll fst.toList).length + taken.length ∧
    ∀ total st w, lost fst.isSome ((total, (codesAll fst.toList).length) :: st)
      (skeleton (c ++ w)) = m + lost false (bump (total + (codesAll xs).length) st) (skeleton w)

theorem termTaken_calm {c r : Text} {L : List (List Cell)} {y : Cell} (hc : Calm c)
    (hy : Good y ∧ Cell.codes y = [])
    (hlost : ∀ b st w, lost b st (skeleton (c ++ w)) = lost false st (skeleton w)) :
    TermTaken (c ++ r) r L L y := by
  refine ⟨c, [], 0, taken_calm hc r L, hy.1, ?_, ?_, fun b st w => ?_⟩
  · rw [hy.2]
  · rw [hy.2]
    rfl
  · rw [hlost, hy.2, Nat.zero_add]
    exact congrArg (fun s => lost false s _) (bump_zero st).symm

theorem argsTaken_blank {s t r : Text} {L L' : List (List Cell)} {fst : Option Cell}
    {xs : List Cell} (hs : ∀ c ∈ s, blank c = true) (h : ArgsTaken t r L L' fst xs) :
    ArgsTaken (s ++ t) r L L' fst xs := by
  obtain ⟨c, taken, m, htaken, hgood, hsub, hlen, hlost⟩ := h
  refine ⟨s ++ c, taken, m, (taken_calm (calm_of_blank hs) t L).trans htaken, hgood, hsub, hlen,
    fun total st w => ?_⟩
  rw [List.append_assoc, skeleton_blanks hs, hlost]

/-- A term, and the blanks and the sign behind it. -/
theorem TermTaken.sign {t s r : Text} {L L' : List (List Cell)} {y : Cell} {d : Char}
    (h : TermTaken t (s ++ d :: r) L L' y) (hs : ∀ c ∈ s, blank c = true)
    (hd : isQuote d = false ∧ d ≠ '`' ∧ d ≠ '!') :
    ∃ c taken m, Taken t r L L' c taken ∧ Good y ∧ (Cell.codes y).Sublist taken ∧
      (Cell.codes y).length + m = taken.length ∧
      ∀ b st w, lost b st (skeleton (c ++ w)) =
        m + lost false (bump (Cell.codes y).length st) (symbol d ++ skeleton w) := by
  obtain ⟨c, taken, m, htaken, hgood, hsub, hlen, hlost⟩ := h
  have hsign : Calm (s ++ [d]) :=
    (calm_of_blank hs).append (calm_of_plain fun e he => (List.mem_singleton.mp he) ▸ hd)
  have hrest : s ++ d :: r = (s ++ [d]) ++ r := by simp
  rw [hrest] at htaken
  refine ⟨c ++ (s ++ [d]), taken, m, ?_, hgood, hsub, hlen, fun b st w => ?_⟩
  · have hboth := htaken.trans (taken_calm hsign r L')
    rw [List.append_nil] at hboth
    exact hboth
  · rw [List.append_assoc, hlost, List.append_assoc, skeleton_blanks hs, List.singleton_append,
      skeleton_char hd.1 hd.2.1]

variable {t s r u : Text} {L L' L'' : List (List Cell)} {fst : Option Cell} {tx : Cell}
  {xs : List Cell}

/-- The last argument. -/
theorem argsTaken_close (depth : Nat) (hfst : ∀ y ∈ fst, Good y)
    (h : TermTaken t (s ++ ')' :: r) L L' tx) (hs : ∀ c ∈ s, blank c = true) :
    ArgsTaken t r L L' fst [paired depth fst tx] := by
  obtain ⟨c, taken, m, htaken, hgood, hsub, hlen, hlost⟩ := h.sign hs (by decide)
  obtain ⟨hpair, hcodes⟩ := good_paired depth hfst hgood
  have hall : codesAll [paired depth fst tx] = codesAll fst.toList ++ Cell.codes tx := by
    rw [codesAll, codesAll, List.append_nil, hcodes]
  refine ⟨c, taken, m, htaken, fun x hx => (List.mem_singleton.mp hx) ▸ hpair, ?_, ?_,
    fun total st w => ?_⟩
  · rw [hall]
    exact List.Sublist.append_left hsub _
  · rw [hall, List.length_append]
    omega
  · have hsymbol : symbol ')' = [.closed] := rfl
    rw [hlost, hsymbol, List.singleton_append, bump, lost, hall, List.length_append]

/-- An argument in front of others. -/
theorem argsTaken_comma (depth : Nat) (hfst : ∀ y ∈ fst, Good y)
    (h : TermTaken t (s ++ ',' :: r) L L' tx) (hs : ∀ c ∈ s, blank c = true)
    (hrest : ArgsTaken r u L' L'' none xs) :
    ArgsTaken t u L L'' fst (paired depth fst tx :: xs) := by
  obtain ⟨c, taken, m, htaken, hgood, hsub, hlen, hlost⟩ := h.sign hs (by decide)
  obtain ⟨d, taken', m', htaken', hgood', hsub', hlen', hlost'⟩ := hrest
  obtain ⟨hpair, hcodes⟩ := good_paired depth hfst hgood
  have hall : codesAll (paired depth fst tx :: xs) =
      codesAll fst.toList ++ (Cell.codes tx ++ codesAll xs) := by
    rw [codesAll, hcodes, List.append_assoc]
  have hnone : codesAll (none : Option Cell).toList = [] := rfl
  rw [hnone] at hsub' hlen' hlost'
  refine ⟨c ++ d, taken ++ taken', m + m', htaken.trans htaken',
    List.forall_mem_cons.mpr ⟨hpair, hgood'⟩, ?_, ?_, fun total st w => ?_⟩
  · rw [hall]
    exact List.Sublist.append_left (hsub.append hsub') _
  · rw [hall]
    simp only [List.length_append, List.length_nil] at hlen' ⊢
    omega
  · rw [List.append_assoc, hlost]
    have hcomma : symbol ',' = [.comma] := rfl
    rw [hcomma, List.singleton_append, bump, lost_comma, hall]
    have hframe := hlost' (total + ((codesAll fst.toList).length + (Cell.codes tx).length)) st w
    simp only [List.length_append, List.length_nil, Option.isSome_none] at hframe ⊢
    rw [hframe]
    simp only [Nat.add_assoc]

/-- The first half of a pair in front of the second one. -/
theorem argsTaken_colon (h : TermTaken t (s ++ ':' :: r) L L' tx) (hs : ∀ c ∈ s, blank c = true)
    (hrest : ArgsTaken r u L' L'' (some tx) xs) : ArgsTaken t u L L'' none xs := by
  obtain ⟨c, taken, m, htaken, hgood, hsub, hlen, hlost⟩ := h.sign hs (by decide)
  obtain ⟨d, taken', m', htaken', hgood', hsub', hlen', hlost'⟩ := hrest
  have hone : codesAll (some tx).toList = Cell.codes tx := by
    rw [Option.toList_some, codesAll, codesAll, List.append_nil]
  have hnone : codesAll (none : Option Cell).toList = [] := rfl
  rw [hone] at hsub' hlen' hlost'
  refine ⟨c ++ d, taken ++ taken', m + m', htaken.trans htaken', hgood', ?_, ?_,
    fun total st w => ?_⟩
  · rw [hnone, List.nil_append]
    exact hsub'.trans (hsub.append_right _)
  · rw [hnone]
    simp only [List.length_append, List.length_nil]
    omega
  · have hcolon : symbol ':' = [.colon] := rfl
    rw [List.append_assoc, hlost, hcolon, List.singleton_append, lost_colon, hnone,
      List.length_nil, bump, Nat.zero_add]
    have hframe := hlost' total st w
    rw [Option.isSome_some] at hframe
    rw [hframe, Nat.add_assoc]

/-- There is no argument, or no second half of a pair. -/
theorem argsTaken_nil (hfst : ∀ y ∈ fst, Good y) (r : Text) (L : List (List Cell)) :
    ArgsTaken (')' :: r) r L L fst [] := by
  have hclose : Calm [')'] := calm_of_plain (by decide)
  have hsymbol : symbol ')' = [.closed] := rfl
  have hnil : codesAll [] = [] := by rw [codesAll]
  refine ⟨[')'], [], (codesAll fst.toList).length, taken_calm hclose r L,
    fun _ h => absurd h List.not_mem_nil, ?_, ?_, fun total st w => ?_⟩
  · rw [hnil]
    exact List.nil_sublist _
  · rw [hnil, List.length_nil, Nat.zero_add, Nat.add_zero]
  · rw [hnil, List.length_nil, List.singleton_append, skeleton_char rfl (by decide), hsymbol,
      List.singleton_append]
    cases fst with
    | none =>
        have hnone : codesAll (none : Option Cell).toList = [] := rfl
        rw [hnone, List.length_nil, Nat.zero_add, Option.isSome_none, lost]
    | some f => rw [Option.isSome_some, lost, Nat.add_zero]

end Taking

section Parsing

variable {L L' : List (List Cell)} {y : Cell} {t r : Text}

/-- A call has been read. -/
theorem termTaken_call {name s : Text} {xs : List Cell} (depth : Nat) (hne : name ≠ [])
    (hname : ∀ c ∈ name, Other c) (hs : ∀ c ∈ s, blank c = true)
    (h : ArgsTaken t r L L' none xs) :
    TermTaken (name ++ (s ++ '(' :: t)) r L L'
      (branch "xev_func_call" depth [("name", some name)] xs) := by
  obtain ⟨c, taken, m, htaken, hgood, hsub, hlen, hlost⟩ := h
  have hfront : Calm (name ++ (s ++ ['('])) :=
    (calm_of_others hname).append ((calm_of_blank hs).append (calm_of_plain (by decide)))
  obtain ⟨hfunc, hcodes⟩ := good_func (calm_of_others hname) depth hgood
  have htext : name ++ (s ++ '(' :: t) = name ++ (s ++ ['(']) ++ t := by simp
  have hnone : codesAll (none : Option Cell).toList = [] := rfl
  rw [hnone] at hsub hlen hlost
  refine ⟨name ++ (s ++ ['(']) ++ c, taken, m, ?_, hfunc, ?_, ?_, fun b st w => ?_⟩
  · rw [htext]
    exact (taken_calm hfront t L).trans htaken
  · rw [hcodes]
    exact hsub
  · rw [hcodes, hlen, List.length_nil, Nat.zero_add]
  · have hopened : symbol '(' = [.opened] := rfl
    rw [List.append_assoc, List.append_assoc, lost_others b st (absurd · hne) hname,
      List.append_assoc,
      skeleton_blanks hs, List.singleton_append, skeleton_char rfl (by decide), hopened,
      List.singleton_append, lost_opened, hcodes]
    have hframe := hlost 0 st w
    rw [Nat.zero_add] at hframe
    exact hframe

theorem afterName_taken {args : Text → Run (List Cell × List (List Cell) × Text)} {depth : Nat}
    {name p : Text} (hne : name ≠ []) (hname : ∀ c ∈ name, Other c)
    (hargs : ∀ t xs, args t = .ok (xs, L', r) → ArgsTaken t r L L' none xs)
    (h : afterName args depth L name p = .ok (y, L', r)) : TermTaken (name ++ p) r L L' y := by
  have hlost := fun b st w => lost_others b st (absurd · hne) hname w
  have hcalm := calm_of_others hname
  rw [afterName] at h
  split at h
  · cases h
    exact termTaken_calm hcalm
      (good_leaf (by decide) (by decide) (fun _ => rfl) hcalm) hlost
  · obtain ⟨s, hp, hs⟩ := exists_skipBlanks p
    split at h
    · next t hskip =>
        rcases (bind_eq_ok_iff _ _ _).mp h with ⟨⟨xs, L1, r1⟩, hread, heq⟩
        cases heq
        rw [hp, hskip]
        exact termTaken_call depth hne hname hs (hargs t xs hread)
    · split at h
      · cases h
        have hboth : Calm (name ++ s) := hcalm.append (calm_of_blank hs)
        have hleaf : Good (leaf "xev_literal" depth [("name", some name)]) ∧
            Cell.codes (leaf "xev_literal" depth [("name", some name)]) = [] :=
          good_leaf (by decide) (by decide) (fun _ => rfl) hcalm
        have hread : TermTaken (name ++ s ++ skipBlanks p) (skipBlanks p) L L
            (leaf "xev_literal" depth [("name", some name)]) := by
          refine termTaken_calm hboth hleaf fun b st w => ?_
          rw [List.append_assoc, hlost, skeleton_blanks hs]
        rw [List.append_assoc, ← hp] at hread
        exact hread
      · cases h

theorem parse_code_taken {depth : Nat} (h : parse_code depth L ('`' :: t) = .ok (y, L', r)) :
    TermTaken ('`' :: t) r L L' y := by
  cases L with
  | nil => cases h
  | cons ex L =>
      rw [parse_code, List.tail_cons] at h
      rcases strchrF_spec t with ⟨hnone, -⟩ | ⟨e, u, rfl, he, hsome⟩
      · rw [hnone] at h
        cases h
      · rw [hsome] at h
        cases h
        obtain ⟨hgood, hcodes⟩ := good_code depth ex
        have htext : '`' :: (e ++ '`' :: u) = '`' :: (e ++ ['`']) ++ u := by simp
        rw [List.tail_cons, htext]
        refine ⟨'`' :: (e ++ ['`']), [ex], 0, ⟨rfl, rfl, [e], .code he, rfl⟩, hgood, ?_, ?_,
          fun b st w => ?_⟩
        · rw [hcodes]
        · rw [hcodes]
          rfl
        · have hpiece : '`' :: (e ++ ['`']) ++ w = '`' :: (e ++ '`' :: w) := by simp
          rw [hpiece, skeleton_piece he, lost_piece, hcodes, Nat.zero_add]
          rfl

/-- What has been read when a function of the parser comes back. -/
theorem parse_taken (depth0 fuel : Nat) :
    (∀ depth L t y L' r, parse_term depth0 fuel depth L t = .ok (y, L', r) →
      TermTaken t r L L' y) ∧
    ∀ depth L fst t xs L' r, (∀ y ∈ fst, Good y) →
      parse_args depth0 fuel depth L fst t = .ok (xs, L', r) → ArgsTaken t r L L' fst xs := by
  induction fuel with
  | zero =>
      constructor
      · intro depth L t y L' r h
        rw [parse_term] at h
        cases h
      · intro depth L fst t xs L' r _ h
        rw [parse_args] at h
        cases h
  | succ fuel ih =>
      obtain ⟨ihterm, ihargs⟩ := ih
      refine ⟨fun depth L t y L' r h => ?_, fun depth L fst t xs L' r hfst h => ?_⟩
      · cases t with
        | nil =>
            rw [parse_term] at h
            cases h
        | cons c rest =>
            rw [parse_term] at h
            dsimp only at h
            split at h
            · cases h
            split at h
            · next hdigit =>
                cases h
                have hothers : ∀ d ∈ c :: rest.takeWhile Char.isDigit, Other d := by
                  refine List.forall_mem_cons.mpr ⟨?_, fun d hd => other_of_nameChar
                    (nameChar_of_isDigit (List.mem_takeWhile_imp hd))⟩
                  rcases hdigit with hdigit | rfl
                  · exact other_of_nameChar (nameChar_of_isDigit hdigit)
                  · exact ⟨by decide, by decide, by decide, by decide⟩
                have htext : c :: rest = (c :: rest.takeWhile Char.isDigit) ++
                    rest.dropWhile Char.isDigit := by
                  rw [List.cons_append, List.takeWhile_append_dropWhile]
                rw [htext]
                exact termTaken_calm (calm_of_others hothers)
                  (good_leaf (by decide) (by decide) (fun _ => rfl) (calm_of_others hothers))
                  fun b st w => lost_others b st (absurd · (List.cons_ne_nil _ _)) hothers w
            split at h
            · next hquote =>
                have hq : isQuote c = true := (isQuote_iff c).mpr hquote.symm
                split at h
                · cases h
                · next s1 p hend =>
                    split at h
                    · cases h
                    · cases h
                      obtain ⟨hsplit, hcalm⟩ := calm_of_endstrF hq hend
                      rw [hsplit]
                      exact termTaken_calm hcalm
                        (good_leaf (by decide) (by decide) (fun _ => rfl)
                          (calm_strG2F (by decide) _))
                        (fun b st w => lost_string hq hend b st w)
            split at h
            · next hcode =>
                subst hcode
                exact parse_code_taken h
            split at h
            · cases h
            · next hname =>
                have hc : nameChar c = true := by simpa using hname
                have hne : (c :: rest).takeWhile nameChar ≠ [] := by
                  rw [List.takeWhile_cons_of_pos hc]
                  exact List.cons_ne_nil _ _
                have hrun := afterName_taken hne
                  (fun d hd => other_of_nameChar (List.mem_takeWhile_imp hd))
                  (fun t xs hread => ihargs _ _ none t xs _ _ (by simp) hread) h
                rw [List.takeWhile_append_dropWhile] at hrun
                exact hrun
      · rw [parse_args] at h
        obtain ⟨s, ht, hs⟩ := exists_skipBlanks t
        rw [ht]
        refine argsTaken_blank hs ?_
        dsimp only at h
        split at h
        · next hclose =>
            cases h
            obtain ⟨u, hu⟩ := List.head?_eq_some_iff.mp hclose
            rw [hu, List.tail_cons]
            exact argsTaken_nil hfst u L
        · rcases (bind_eq_ok_iff _ _ _).mp h with ⟨⟨tx, L1, t1⟩, hterm, hrest⟩
          have hone := ihterm _ _ _ _ _ _ hterm
          obtain ⟨s', ht1, hs'⟩ := exists_skipBlanks t1
          rw [ht1] at hone
          dsimp only at hrest
          split at hrest
          · next hskip =>
              cases hrest
              rw [hskip] at hone
              exact argsTaken_close depth hfst hone hs'
          · next t2 hskip =>
              rw [hskip] at hone
              rcases (bind_eq_ok_iff _ _ _).mp hrest with ⟨⟨ys, L2, t3⟩, hargs, heq⟩
              cases heq
              exact argsTaken_comma depth hfst hone hs'
                (ihargs _ _ none _ _ _ _ (by simp) hargs)
          · next t2 hskip =>
              rw [hskip] at hone
              cases fst with
              | some f => cases hrest
              | none =>
                  refine argsTaken_colon hone hs' (ihargs _ _ (some tx) _ _ _ _ ?_ hrest)
                  obtain ⟨-, -, -, -, hgood, -⟩ := hone
                  simpa using hgood
          · cases hrest

theorem parse_terms_taken (depth0 : Nat) {fuel depth : Nat} {fst : Option Cell} {xs : List Cell}
    (hfst : ∀ y ∈ fst, Good y)
    (h : parse_terms depth0 fuel depth L fst t = .ok (xs, L', r)) :
    ArgsTaken t r L L' fst xs := by
  induction fuel generalizing L t fst xs with
  | zero => cases h
  | succ fuel ih =>
      rw [parse_terms] at h
      rcases (bind_eq_ok_iff _ _ _).mp h with ⟨⟨tx, L1, t1⟩, hterm, hrest⟩
      have hone : TermTaken t ([] ++ t1) L L1 tx := (parse_taken depth0 fuel).1 _ _ _ _ _ _ hterm
      have hblank : ∀ c ∈ ([] : Text), blank c = true := fun _ hc => absurd hc List.not_mem_nil
      dsimp only at hrest
      split at hrest
      · cases hrest
        exact argsTaken_close depth hfst hone hblank
      · next t2 =>
          rcases (bind_eq_ok_iff _ _ _).mp hrest with ⟨⟨ys, L2, t3⟩, hargs, heq⟩
          cases heq
          obtain ⟨s, ht2, hs⟩ := exists_skipBlanks t2
          have hothers := argsTaken_blank hs (ih (by simp) hargs)
          rw [← ht2] at hothers
          exact argsTaken_comma depth hfst hone hblank hothers
      · next t2 =>
          cases fst with
          | some f => cases hrest
          | none =>
              obtain ⟨s, ht2, hs⟩ := exists_skipBlanks t2
              have hgood : ∀ y ∈ some tx, Good y := by
                obtain ⟨-, -, -, -, hgood, -⟩ := hone
                simpa using hgood
              have hothers := argsTaken_blank hs (ih hgood hrest)
              rw [← ht2] at hothers
              exact argsTaken_colon hone hblank hothers
      · cases hrest

end Parsing

section Clauses

/-- A part between the arguments of clauses. -/
structure Silent (c : Text) : Prop where
  calm : Calm c
  lost : ∀ w, lost false [] (skeleton (c ++ w)) = lost false [] (skeleton w)

theorem Silent.append {c d : Text} (hc : Silent c) (hd : Silent d) : Silent (c ++ d) where
  calm := hc.calm.append hd.calm
  lost w := by rw [List.append_assoc, hc.lost, hd.lost]

theorem silent_blank {s : Text} (h : ∀ c ∈ s, blank c = true) : Silent s where
  calm := calm_of_blank h
  lost w := by rw [skeleton_blanks h]

theorem silent_others {t : Text} (h : ∀ c ∈ t, Other c) : Silent t where
  calm := calm_of_others h
  lost w := lost_others false [] (fun _ => rfl) h w

theorem silent_nil : Silent [] := silent_blank fun _ hc => absurd hc List.not_mem_nil

/-- A sign of continuation that is skipped. -/
theorem exists_sign (t : Text) :
    ∃ c, t = c ++ (if t.head? = some '&' then t.tail else t) ∧ Silent c := by
  split
  · next hhead =>
      obtain ⟨u, rfl⟩ := List.head?_eq_some_iff.mp hhead
      exact ⟨['&'], rfl, silent_others fun e he =>
        (List.mem_singleton.mp he) ▸ ⟨by decide, by decide, by decide, by decide⟩⟩
  · exact ⟨[], rfl, silent_nil⟩

theorem clauseName_silent (t : Text) :
    ∃ c, t = c ++ (clauseName t).2 ∧ Silent c ∧ Calm (clauseName t).1 := by
  have hone : ∀ d, Other d → t.head? = some d → t = [d] ++ t.tail ∧ Silent [d] := by
    intro d hd hhead
    obtain ⟨u, rfl⟩ := List.head?_eq_some_iff.mp hhead
    exact ⟨rfl, silent_others fun e he => (List.mem_singleton.mp he) ▸ hd⟩
  rw [clauseName]
  split
  · next hhead =>
      obtain ⟨ht, hsilent⟩ := hone '{' ⟨by decide, by decide, by decide, by decide⟩ hhead
      exact ⟨['{'], ht, hsilent, show Calm "begin".toList from calm_of_plain (by decide)⟩
  split
  · next hhead =>
      obtain ⟨ht, hsilent⟩ := hone '}' ⟨by decide, by decide, by decide, by decide⟩ hhead
      exact ⟨['}'], ht, hsilent, show Calm "end".toList from calm_of_plain (by decide)⟩
  · have hothers : ∀ c ∈ t.takeWhile nameChar, Other c :=
      fun c hc => other_of_nameChar (List.mem_takeWhile_imp hc)
    exact ⟨t.takeWhile nameChar, List.takeWhile_append_dropWhile.symm, silent_others hothers,
      calm_of_others hothers⟩

/-- A clause that the parser may have made. -/
def GoodClause (x : Cell) : Prop :=
  ∃ depth name cs, x = clauseCell depth name cs ∧ Calm name ∧ ∀ y ∈ cs, Good y

theorem codes_clauseCell (depth : Nat) (name : Text) (cs : List Cell) :
    Cell.codes (clauseCell depth name cs) = codesAll cs := by
  rw [clauseCell, Cell.codes, if_neg (by decide)]

theorem free_clauses {xs : List Cell} (h : ∀ x ∈ xs, GoodClause x)
    (hfree : ∀ e ∈ codesAll xs, Free e) : Free xs := by
  induction xs with
  | nil => exact free_nil
  | cons x xs ih =>
      obtain ⟨⟨depth, name, cs, rfl, -, hcs⟩, hxs⟩ := List.forall_mem_cons.mp h
      rw [codesAll, codes_clauseCell] at hfree
      exact (free_cons_iff _ _).mpr ⟨show "xev_clause" ≠ _ by decide,
        free_of_good hcs fun e he => hfree e (List.mem_append_left _ he),
        ih hxs fun e he => hfree e (List.mem_append_right _ he)⟩

/-- What is written for clauses, behind what has been written. -/
theorem unparseFrom_good {xs : List Cell} (h : ∀ x ∈ xs, GoodClause x) {buf : Text} {n : Nat}
    (hbuf : Marks buf n) (s : CodeList) :
    ∃ text, unparseFrom buf xs s = .ok (text, s.add (codesAll xs)) ∧
      Marks text (n + (codesAll xs).length) := by
  induction xs generalizing buf n s with
  | nil =>
      refine ⟨buf, ?_, ?_⟩
      · rw [unparseFrom, codesAll, CodeList.add_nil]
      · rw [codesAll]
        exact hbuf
  | cons x xs ih =>
      obtain ⟨⟨depth, name, cs, rfl, hname, hcs⟩, hxs⟩ := List.forall_mem_cons.mp h
      have hvalue : attrValue (clauseCell depth name cs) "name" = .ok name := rfl
      have hchildren : (clauseCell depth name cs).children = cs := rfl
      have hsep : Marks (if buf.length ≠ 0 then buf ++ [' '] else buf) n := by
        split
        · exact hbuf.append (marks_of_calm (calm_of_plain (by decide)))
        · exact hbuf
      have hfront := hsep.append (marks_of_calm hname)
      rw [Nat.add_zero] at hfront
      rw [unparseFrom, hvalue, ok_bind]
      dsimp only
      rw [hchildren, codesAll, codes_clauseCell]
      by_cases hnone : cs = []
      · rw [if_pos hnone, hnone, codesAll, List.nil_append]
        exact ih hxs hfront s
      · obtain ⟨t, ht, hmarks⟩ := clause_text_good hcs false 0 s
        have hopen : Marks ('(' :: t) (codesAll cs).length := hmarks.cons (by decide)
        have hclose : Marks [')'] 0 := marks_of_calm (calm_of_plain (by decide))
        rw [if_neg hnone, ht, ok_bind]
        obtain ⟨text, htext, hall⟩ := ih hxs ((hfront.append hopen).append hclose)
          (s.add (codesAll cs))
        refine ⟨text, ?_, ?_⟩
        · rw [CodeList.add_add] at htext
          exact htext
        · rw [List.length_append, ← Nat.add_assoc]
          exact hall

/-- Clauses have been read up to the end of a text or to the comment at its end. -/
def ClausesTaken (t : Text) (L L' : List (List Cell)) (xs : List Cell) : Prop :=
  ∃ c r taken m, Taken t r L L' c taken ∧ (r = [] ∨ r.head? = some '!') ∧
    (∀ x ∈ xs, GoodClause x) ∧ (codesAll xs).Sublist taken ∧
    (codesAll xs).length + m = taken.length ∧
    ∀ w, lost false [] (skeleton (c ++ w)) = m + lost false [] (skeleton w)

theorem clausesTaken_silent {c t : Text} {L L' : List (List Cell)} {xs : List Cell}
    (hc : Silent c) (h : ClausesTaken t L L' xs) : ClausesTaken (c ++ t) L L' xs := by
  obtain ⟨d, r, taken, m, htaken, hr, hgood, hsub, hlen, hlost⟩ := h
  refine ⟨c ++ d, r, taken, m, (taken_calm hc.calm t L).trans htaken, hr, hgood, hsub, hlen,
    fun w => ?_⟩
  rw [List.append_assoc, hc.lost, hlost]

theorem clausesTaken_word {t : Text} {L L' : List (List Cell)} {xs : List Cell} (depth : Nat)
    {name : Text} (hname : Calm name) (h : ClausesTaken t L L' xs) :
    ClausesTaken t L L' (clauseCell depth name [] :: xs) := by
  obtain ⟨d, r, taken, m, htaken, hr, hgood, hsub, hlen, hlost⟩ := h
  have hcodes : codesAll (clauseCell depth name [] :: xs) = codesAll xs := by
    rw [codesAll, codes_clauseCell, codesAll, List.nil_append]
  refine ⟨d, r, taken, m, htaken, hr, List.forall_mem_cons.mpr ⟨?_, hgood⟩, ?_, ?_, hlost⟩
  · exact ⟨depth, name, [], rfl, hname, fun _ h => absurd h List.not_mem_nil⟩
  · rw [hcodes]
    exact hsub
  · rw [hcodes]
    exact hlen

theorem clausesTaken_call {t u : Text} {L L' L'' : List (List Cell)} {cs xs : List Cell}
    (depth : Nat) {name : Text} (hname : Calm name) (hargs : ArgsTaken t u L L' none cs)
    (h : ClausesTaken u L' L'' xs) :
    ClausesTaken ('(' :: t) L L'' (clauseCell depth name cs :: xs) := by
  obtain ⟨c, taken, m, htaken, hgood, hsub, hlen, hlost⟩ := hargs
  obtain ⟨d, r, taken', m', htaken', hr, hgood', hsub', hlen', hlost'⟩ := h
  have hnone : codesAll (none : Option Cell).toList = [] := rfl
  rw [hnone] at hsub hlen hlost
  have hopen : Calm ['('] := calm_of_plain (by decide)
  have hopened : symbol '(' = [.opened] := rfl
  have hcodes : codesAll (clauseCell depth name cs :: xs) = codesAll cs ++ codesAll xs := by
    rw [codesAll, codes_clauseCell]
  refine ⟨['('] ++ (c ++ d), r, taken ++ taken', m + m',
    (taken_calm hopen t L).trans (htaken.trans htaken'), hr,
    List.forall_mem_cons.mpr ⟨⟨depth, name, cs, rfl, hname, hgood⟩, hgood'⟩, ?_, ?_, fun w => ?_⟩
  · rw [hcodes]
    exact hsub.append hsub'
  · rw [hcodes]
    simp only [List.length_append, List.length_nil] at hlen ⊢
    omega
  · have hframe := hlost 0 [] (d ++ w)
    rw [List.append_assoc, List.append_assoc, List.singleton_append, skeleton_char rfl (by decide),
      hopened, List.singleton_append, lost_opened]
    refine hframe.trans ?_
    rw [bump, hlost', Nat.add_assoc]

theorem parseClauses_taken (depth0 : Nat) {fuel : Nat} {L L' : List (List Cell)} {t : Text}
    {xs : List Cell} (h : parseClauses depth0 fuel L t = .ok (xs, L')) :
    ClausesTaken t L L' xs := by
  induction fuel generalizing L t xs with
  | zero => cases h
  | succ fuel ih =>
      obtain ⟨s, ht, hs⟩ := exists_skipBlanks t
      rw [ht]
      refine clausesTaken_silent (silent_blank hs) ?_
      rw [parseClauses] at h
      generalize skipBlanks t = t at h ⊢
      dsimp only at h
      split at h
      · next hend =>
          cases h
          refine ⟨[], t, [], 0, taken_calm silent_nil.calm t _, ?_,
            fun _ hx => absurd hx List.not_mem_nil, ?_, ?_, fun w => (Nat.zero_add _).symm⟩
          · exact hend.imp_left List.head?_eq_none_iff.mp
          · rw [codesAll]
          · rw [codesAll]
            rfl
      · obtain ⟨c, hc, hsilent⟩ := exists_sign t
        rw [hc]
        refine clausesTaken_silent hsilent ?_
        generalize (if t.head? = some '&' then t.tail else t) = u at h ⊢
        obtain ⟨d, hd, hsilent', hname⟩ := clauseName_silent u
        obtain ⟨s', hp, hs'⟩ := exists_skipBlanks (clauseName u).2
        rw [hd]
        refine clausesTaken_silent hsilent' ?_
        rw [hp]
        refine clausesTaken_silent (silent_blank hs') ?_
        split at h
        · cases h
        split at h
        · next hopen =>
            rcases (bind_eq_ok_iff _ _ _).mp h with ⟨⟨cs, L1, t1⟩, hterms, hrest⟩
            rcases (bind_eq_ok_iff _ _ _).mp hrest with ⟨⟨ys, L2⟩, hclauses, heq⟩
            cases heq
            have hargs := parse_terms_taken depth0 (by simp) hterms
            obtain ⟨v, hv⟩ := List.head?_eq_some_iff.mp hopen
            rw [hv, List.tail_cons] at hargs
            rw [hv]
            exact clausesTaken_call depth0 hname hargs (ih hclauses)
        · rcases (bind_eq_ok_iff _ _ _).mp h with ⟨⟨ys, L2⟩, hclauses, heq⟩
          cases heq
          exact clausesTaken_word depth0 hname (ih hclauses)

end Clauses

end XevXml.Tools.Passes
