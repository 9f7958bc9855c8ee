import XevXml.Tools.Passes.Taken

/-!
# The List of Expressions is Long Enough

The first pass writes a call for every piece of code in a line, and the parser takes an
expression for a piece only where it reads one. So the list never ends in front of a
placeholder, and the parser stops with a message or not at all. Every string that it meets
can be read as well, and the steps it is allowed are more than it needs.

## Main definitions

* `Enough`: The list has an expression for every piece of a text.

## Theorems

* `onlyExits_parse`, `onlyExits_parse_terms`, `onlyExits_parseClauses`: The parser stops with a
  message or not at all.
-/

namespace XevXml.Tools.Passes

open Quoting

section Strings

/-- The string that a text starts with can be read. -/
theorem isSome_undoubled {q : Char} {s s1 s2 : Text} (h : closing q s = some (s1, s2)) :
    (undoubled q s1).isSome = true := by
  fun_induction closing q s generalizing s1 s2 with
  | case1 => cases h
  | case2 =>
      cases h
      rw [undoubled, if_pos rfl, Option.isSome_some]
  | case3 => cases h
  | case4 s ih =>
      rcases Option.map_eq_some_iff.mp h with ⟨⟨x, y⟩, hxy, heq⟩
      cases heq
      rw [undoubled, if_pos rfl, if_pos rfl, Option.isSome_map]
      exact ih hxy
  | case5 d s hd =>
      cases h
      rw [undoubled, if_pos rfl, Option.isSome_some]
  | case6 c d s hc ih =>
      rcases Option.map_eq_some_iff.mp h with ⟨⟨x, y⟩, hxy, heq⟩
      cases heq
      have hx : x ≠ [] := by
        rintro rfl
        have hnone := ih hxy
        rw [undoubled] at hnone
        cases hnone
      rw [undoubled_step hc x hx, Option.isSome_map]
      exact ih hxy

end Strings

section Stopping

/-- The list has an expression for every piece of code in a text, which may go on. -/
def Enough (L : List (List Cell)) (t : Text) : Prop :=
  ∃ line tail es, piecesOf line (t ++ tail) = .ok es ∧ es.length ≤ L.length

theorem Enough.taken {t r : Text} {L L' : List (List Cell)} {c : Text}
    {taken : List (List Cell)} (h : Enough L t) (htaken : Taken t r L L' c taken) :
    Enough L' r := by
  obtain ⟨line, tail, ps, hps, hlen⟩ := h
  obtain ⟨es, hes, hcount⟩ := htaken.spans
  rw [htaken.text, List.append_assoc, piecesOf_spans hes] at hps
  cases hrest : piecesOf line (r ++ tail) with
  | error e =>
      rw [hrest] at hps
      cases hps
  | ok fs =>
      rw [hrest] at hps
      cases hps
      refine ⟨line, tail, fs, hrest, ?_⟩
      rw [htaken.list, List.length_append, List.length_append] at hlen
      omega

theorem Enough.calm {c r : Text} {L : List (List Cell)} (hc : Calm c) (h : Enough L (c ++ r)) :
    Enough L r := h.taken (taken_calm hc r L)

theorem Enough.skipBlanks {t : Text} {L : List (List Cell)} (h : Enough L t) :
    Enough L (skipBlanks t) := by
  obtain ⟨s, ht, hs⟩ := exists_skipBlanks t
  rw [ht] at h
  exact h.calm (calm_of_blank hs)

/-- Behind a sign. -/
theorem Enough.sign {d : Char} {t : Text} {L : List (List Cell)}
    (hd : isQuote d = false ∧ d ≠ '`' ∧ d ≠ '!') (h : Enough L (d :: t)) : Enough L t :=
  h.calm (c := [d]) (calm_of_plain fun _ he => (List.mem_singleton.mp he) ▸ hd)

theorem length_skipBlanks_le (t : Text) : (skipBlanks t).length ≤ t.length :=
  (List.dropWhile_suffix blank).length_le

theorem TermTaken.enough {t r : Text} {L L' : List (List Cell)} {y : Cell}
    (h : TermTaken t r L L' y) (hL : Enough L t) : Enough L' r ∧ r.length ≤ t.length := by
  obtain ⟨c, taken, m, htaken, -⟩ := h
  refine ⟨hL.taken htaken, ?_⟩
  rw [htaken.text, List.length_append]
  omega

theorem ArgsTaken.enough {t r : Text} {L L' : List (List Cell)} {fst : Option Cell}
    {xs : List Cell} (h : ArgsTaken t r L L' fst xs) (hL : Enough L t) :
    Enough L' r ∧ r.length ≤ t.length := by
  obtain ⟨c, taken, m, htaken, -⟩ := h
  refine ⟨hL.taken htaken, ?_⟩
  rw [htaken.text, List.length_append]
  omega

theorem onlyExits_parse_code {depth : Nat} {t : Text} {L : List (List Cell)}
    (hL : Enough L ('`' :: t)) : OnlyExits (parse_code depth L ('`' :: t)) := by
  cases L with
  | nil =>
      obtain ⟨line, tail, es, hes, hlen⟩ := hL
      have hopen : strchrF ('`' :: t ++ tail) '`' = some ('`' :: (t ++ tail)) :=
        strchrF_clear clear_nil (t ++ tail)
      rw [List.length_nil, Nat.le_zero, List.length_eq_zero_iff] at hlen
      rw [hlen, piecesOf_nil_iff, hopen] at hes
      cases hes
  | cons ex L =>
      rw [parse_code]
      split
      · exact onlyExits_exit _
      · exact onlyExits_ok _

theorem onlyExits_afterName {args : Text → Run (List Cell × List (List Cell) × Text)}
    {depth : Nat} {L : List (List Cell)} {name p : Text}
    (hargs : ∀ t, skipBlanks p = '(' :: t → OnlyExits (args t)) :
    OnlyExits (afterName args depth L name p) := by
  rw [afterName]
  split
  · exact onlyExits_ok _
  split
  · next t hskip => exact onlyExits_bind (hargs t hskip) fun _ _ => onlyExits_ok _
  · split
    · exact onlyExits_ok _
    · exact onlyExits_exit _

/-- The parser does not fail for want of an expression, and it comes to an end. -/
theorem onlyExits_parse (depth0 fuel : Nat) :
    (∀ depth L t, Enough L t → 2 * t.length + 1 ≤ fuel →
      OnlyExits (parse_term depth0 fuel depth L t)) ∧
    ∀ depth L fst t, (∀ y ∈ fst, Good y) → Enough L t → 2 * t.length + 2 ≤ fuel →
      OnlyExits (parse_args depth0 fuel depth L fst t) := by
  induction fuel with
  | zero => exact ⟨fun _ _ _ _ h => by omega, fun _ _ _ _ _ _ h => by omega⟩
  | succ fuel ih =>
      obtain ⟨ihterm, ihargs⟩ := ih
      refine ⟨fun depth L t hL hfuel => ?_, fun depth L fst t hfst hL hfuel => ?_⟩
      · cases t with
        | nil =>
            rw [parse_term]
            exact onlyExits_exit _
        | cons c rest =>
            rw [parse_term]
            dsimp only
            split
            · exact onlyExits_exit _
            split
            · exact onlyExits_ok _
            split
            · split
              · exact onlyExits_exit _
              · next s1 p hend =>
                  rw [endstrF] at hend
                  rcases Option.map_eq_some_iff.mp hend with ⟨⟨x, u⟩, hclose, heq⟩
                  cases heq
                  obtain ⟨v, hv⟩ := Option.isSome_iff_exists.mp (isSome_undoubled hclose)
                  rw [strF2G, hv]
                  exact onlyExits_ok _
            split
            · next hcode =>
                subst hcode
                exact onlyExits_parse_code hL
            split
            · exact onlyExits_exit _
            · next hname =>
                have hc : nameChar c = true := by simpa using hname
                have hsplit : (c :: rest).takeWhile nameChar ++ (c :: rest).dropWhile nameChar =
                    c :: rest := List.takeWhile_append_dropWhile
                have hcalm : Calm ((c :: rest).takeWhile nameChar) :=
                  calm_of_others fun d hd => other_of_nameChar (List.mem_takeWhile_imp hd)
                have hlen := congrArg List.length hsplit
                rw [List.length_append, List.takeWhile_cons_of_pos hc, List.length_cons] at hlen
                rw [← hsplit] at hL
                refine onlyExits_afterName fun t hskip => ?_
                have hskipLen := length_skipBlanks_le ((c :: rest).dropWhile nameChar)
                have hrest := (hL.calm hcalm).skipBlanks
                rw [hskip] at hrest hskipLen
                rw [List.length_cons] at hskipLen
                exact ihargs _ _ none t (by simp) (hrest.sign (by decide)) (by omega)
      · rw [parse_args]
        dsimp only
        have hskipLen := length_skipBlanks_le t
        split
        · exact onlyExits_ok _
        · refine onlyExits_bind (ihterm _ _ _ hL.skipBlanks (by omega)) fun a hterm => ?_
          obtain ⟨tx, L1, t1⟩ := a
          have hone := (parse_taken depth0 fuel).1 _ _ _ _ _ _ hterm
          obtain ⟨hL1, hlen⟩ := hone.enough hL.skipBlanks
          have hskipLen' := length_skipBlanks_le t1
          dsimp only
          split
          · exact onlyExits_ok _
          · next t2 hskip =>
              have hL2 := hL1.skipBlanks
              rw [hskip] at hL2 hskipLen'
              rw [List.length_cons] at hskipLen'
              exact onlyExits_bind
                (ihargs _ _ none _ (by simp) (hL2.sign (by decide)) (by omega))
                fun _ _ => onlyExits_ok _
          · next t2 hskip =>
              have hL2 := hL1.skipBlanks
              rw [hskip] at hL2 hskipLen'
              rw [List.length_cons] at hskipLen'
              cases fst with
              | some f => exact onlyExits_exit _
              | none =>
                  obtain ⟨-, -, -, -, hgood, -⟩ := hone
                  exact ihargs _ _ (some tx) _ (by simpa using hgood) (hL2.sign (by decide))
                    (by omega)
          · exact onlyExits_exit _

theorem onlyExits_parse_terms (depth0 : Nat) {fuel depth : Nat} {L : List (List Cell)}
    {fst : Option Cell} {t : Text} (hL : Enough L t) (hfuel : 2 * t.length + 2 ≤ fuel) :
    OnlyExits (parse_terms depth0 fuel depth L fst t) := by
  induction fuel generalizing L fst t with
  | zero => omega
  | succ fuel ih =>
      rw [parse_terms]
      refine onlyExits_bind ((onlyExits_parse depth0 fuel).1 _ _ _ hL (by omega)) fun a hterm => ?_
      obtain ⟨tx, L1, t1⟩ := a
      obtain ⟨hL1, hlen⟩ := ((parse_taken depth0 fuel).1 _ _ _ _ _ _ hterm).enough hL
      dsimp only
      split
      · exact onlyExits_ok _
      · next t2 =>
          have hskipLen := length_skipBlanks_le t2
          rw [List.length_cons] at hlen
          exact onlyExits_bind (ih (hL1.sign (by decide)).skipBlanks (by omega))
            fun _ _ => onlyExits_ok _
      · next t2 =>
          have hskipLen := length_skipBlanks_le t2
          rw [List.length_cons] at hlen
          cases fst with
          | some f => exact onlyExits_exit _
          | none => exact ih (hL1.sign (by decide)).skipBlanks (by omega)
      · exact onlyExits_exit _

theorem Silent.enough {c r : Text} {L : List (List Cell)} (hc : Silent c)
    (h : Enough L (c ++ r)) : Enough L r := h.calm hc.calm

theorem onlyExits_parseClauses (depth0 : Nat) {fuel : Nat} {L : List (List Cell)} {t : Text}
    (hL : Enough L t) (hfuel : 2 * t.length + 1 ≤ fuel) :
    OnlyExits (parseClauses depth0 fuel L t) := by
  induction fuel generalizing L t with
  | zero => omega
  | succ fuel ih =>
      have hskipLen := length_skipBlanks_le t
      have hL1 := hL.skipBlanks
      have hhead := List.head?_dropWhile_not blank t
      rw [parseClauses]
      rw [← skipBlanks] at hhead
      generalize skipBlanks t = t1 at hL1 hskipLen hhead ⊢
      dsimp only
      split
      · exact onlyExits_ok _
      · next hend =>
          have hne : t1 ≠ [] := fun h => hend (Or.inl (by rw [h]; rfl))
          have hpos := List.length_pos_of_ne_nil hne
          obtain ⟨c, hc, hsilent⟩ := exists_sign t1
          rw [hc] at hL1
          have hL2 := hsilent.enough hL1
          -- A clause without a name follows a sign of continuation or is a parenthesis.
          have hshort : (if t1.head? = some '&' then t1.tail else t1).length < t1.length ∨
              (if t1.head? = some '&' then t1.tail else t1) = t1 := by
            split
            · left
              rw [List.length_tail]
              omega
            · exact Or.inr rfl
          generalize (if t1.head? = some '&' then t1.tail else t1) = u at hL2 hshort ⊢
          have hle : u.length ≤ t1.length := by
            rcases hshort with hshort | rfl
            · exact Nat.le_of_lt hshort
            · exact Nat.le_refl _
          obtain ⟨d, hd, hsilent', hname⟩ := clauseName_silent u
          have hnameLen := congrArg List.length hd
          rw [List.length_append] at hnameLen
          rw [hd] at hL2
          have hL3 := (hsilent'.enough hL2).skipBlanks
          have hskipLen' := length_skipBlanks_le (clauseName u).2
          split
          · exact onlyExits_exit _
          next hany =>
          split
          · next hopen =>
              obtain ⟨v, hv⟩ := List.head?_eq_some_iff.mp hopen
              rw [hv] at hL3 hskipLen' ⊢
              rw [List.length_cons] at hskipLen'
              rw [List.tail_cons]
              have hL4 := hL3.sign (by decide)
              refine onlyExits_bind (onlyExits_parse_terms depth0 hL4 (by omega)) fun a hterms => ?_
              obtain ⟨cs, L1, t2⟩ := a
              obtain ⟨hL5, hlen⟩ := (parse_terms_taken depth0 (by simp) hterms).enough hL4
              dsimp only
              exact onlyExits_bind (ih hL5 (by omega)) fun _ _ => onlyExits_ok _
          · next hopen =>
              refine onlyExits_bind (ih hL3 ?_) fun _ _ => onlyExits_ok _
              rcases hshort with hshort | rfl
              · omega
              · cases d with
                | cons e d =>
                    rw [List.length_cons] at hnameLen
                    omega
                | nil =>
                    rw [List.nil_append] at hd
                    rw [← hd] at hany hopen
                    obtain ⟨e, v, rfl⟩ := List.exists_cons_of_ne_nil hne
                    have hblank : blank e = false := by simpa using hhead
                    have hparen : e = '(' := by simpa [hblank] using hany
                    rw [skipBlanks, List.dropWhile_cons_of_neg (by simp [hblank]),
                      List.head?_cons, hparen] at hopen
                    exact absurd rfl hopen

end Stopping

end XevXml.Tools.Passes
