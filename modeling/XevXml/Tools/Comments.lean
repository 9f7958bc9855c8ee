import XevXml.Tools.Spelling

/-!
# Comments and Declarations

The reader knows a comment by its first word. The word ends at a blank, a slash or a `>`,
so a comment that has another character behind its first dashes is taken for an element.
What follows is collected without the characters `>`, and at each of them the reader looks
for the two dashes one character too early. A declaration ends at the first `>` behind its
first word, and the character that ends the word is taken for a part of the declaration
even when it is that `>`.

`Comment.Skipped` and `Declaration.Skipped` say when this comes out right. A document is
read as it should be exactly when this holds for all comments and declarations in it.

## Main definitions

* `Ends`: The reader's test for the end of a comment.
* `Comment.Skipped`, `Declaration.Skipped`: What is read up to its own end.
* `Document`: A document that fits the buffer without its comments.
* `Skips`: Reading a document skips the comments in it.

## Theorems

* `loadComment_iff`: A comment's text is read up to its own end.
* `get_xml_part`: The parts of a document are read one by one.
* `skips_iff`: The documents whose comments are skipped.
-/

namespace XevXml.Tools

section Ends

/-- The reader's test for the end of a comment, in front of a `>`. -/
def Ends (strbuf : Text) : Prop :=
  3 ≤ strbuf.length ∧ (strbuf.reverse.drop 1).take 2 = ['-', '-']

instance (strbuf : Text) : Decidable (Ends strbuf) := by
  unfold Ends
  infer_instance

/-- Behind a text in the buffer, the text of a comment is read up to its own end: no `>` in
    it meets the test, the one behind it does, and all of it fits the buffer. -/
def EndsThere (strbuf c : Text) : Prop :=
  (∀ p q, c = p ++ '>' :: q → ¬ Ends (strbuf ++ unbracketed p)) ∧
    Ends (strbuf ++ unbracketed c ++ ['-', '-']) ∧
      (strbuf ++ unbracketed c ++ ['-', '-']).length < STRBUFSIZE

theorem unbracketed_cons {d : Char} (h : d ≠ '>') (c : Text) :
    unbracketed (d :: c) = d :: unbracketed c := by
  rw [unbracketed, List.filter_cons, if_pos (by simp [h])]
  rfl

theorem unbracketed_bracket (c : Text) : unbracketed ('>' :: c) = unbracketed c := by
  rw [unbracketed, List.filter_cons, if_neg (by simp)]
  rfl

theorem endsThere_cons_iff {d : Char} (h : d ≠ '>') (strbuf c : Text) :
    EndsThere strbuf (d :: c) ↔ EndsThere (strbuf ++ [d]) c := by
  have hbuf : ∀ p, strbuf ++ unbracketed (d :: p) = (strbuf ++ [d]) ++ unbracketed p := by
    intro p
    rw [unbracketed_cons h, List.append_assoc, List.singleton_append]
  unfold EndsThere
  rw [hbuf]
  constructor
  · intro hc
    refine ⟨fun p q hp => ?_, hc.2⟩
    rw [← hbuf]
    exact hc.1 (d :: p) q (by rw [hp, List.cons_append])
  · intro hc
    refine ⟨fun p q hp => ?_, hc.2⟩
    cases p with
    | nil =>
        rw [List.nil_append, List.cons.injEq] at hp
        exact absurd hp.1 h
    | cons e p =>
        rw [List.cons_append, List.cons.injEq] at hp
        rw [← hp.1, hbuf]
        exact hc.1 p q hp.2

theorem endsThere_bracket_iff (strbuf c : Text) :
    EndsThere strbuf ('>' :: c) ↔ ¬ Ends strbuf ∧ EndsThere strbuf c := by
  unfold EndsThere
  rw [unbracketed_bracket]
  constructor
  · intro hc
    have hfirst := hc.1 [] c rfl
    rw [unbracketed, List.filter_nil, List.append_nil] at hfirst
    refine ⟨hfirst, fun p q hp => ?_, hc.2⟩
    have hnext := hc.1 ('>' :: p) q (by rw [hp, List.cons_append])
    rw [unbracketed_bracket] at hnext
    exact hnext
  · intro hc
    refine ⟨fun p q hp => ?_, hc.2.2⟩
    cases p with
    | nil =>
        rw [unbracketed, List.filter_nil, List.append_nil]
        exact hc.1
    | cons e p =>
        rw [List.cons_append, List.cons.injEq] at hp
        rw [← hp.1, unbracketed_bracket]
        exact hc.2.1 p q hp.2

end Ends

section Scan

/-- What the buffer gets is what has been read. -/
theorem loadFrom_sound {s : List Char} {t strbuf : Text} {c : Char} {r : Reader}
    (h : loadFrom s t strbuf = .ok (some c, r)) :
    ∃ x, t = x ++ c :: r.rest ∧ r.strbuf = strbuf ++ x ∧ c ∈ s ∧ (∀ d ∈ x, d ∉ s) ∧
      r.eof = false ∧ r.strbuf.length < STRBUFSIZE := by
  induction t generalizing strbuf with
  | nil =>
      rw [loadFrom] at h
      by_cases hfull : STRBUFSIZE ≤ strbuf.length
      · rw [if_pos hfull] at h
        cases h
      · rw [if_neg hfull] at h
        cases h
  | cons d t ih =>
      rw [loadFrom] at h
      by_cases hd : d ∈ s
      · rw [if_pos hd] at h
        by_cases hfull : STRBUFSIZE ≤ strbuf.length
        · rw [if_pos hfull] at h
          cases h
        · rw [if_neg hfull] at h
          cases h
          exact ⟨[], rfl, (List.append_nil _).symm, hd, fun e he => absurd he List.not_mem_nil, rfl,
            Nat.not_le.mp hfull⟩
      · rw [if_neg hd] at h
        by_cases hfull : STRBUFSIZE ≤ strbuf.length
        · rw [if_pos hfull] at h
          cases h
        · rw [if_neg hfull] at h
          rcases ih h with ⟨x, hx, hbuf, hc, hnot, heof, hlen⟩
          refine ⟨d :: x, ?_, ?_, hc, ?_, heof, hlen⟩
          · rw [hx, List.cons_append]
          · rw [hbuf, List.append_assoc, List.singleton_append]
          · rw [List.forall_mem_cons]
            exact ⟨hd, hnot⟩

theorem loaduntil_sound {s : List Char} {t : Text} {c : Char} {r : Reader}
    (h : loaduntil s ⟨t, false, []⟩ = .ok (some c, r)) :
    t = r.strbuf ++ c :: r.rest ∧ c ∈ s ∧ (∀ d ∈ r.strbuf, d ∉ s) ∧ r.eof = false ∧
      r.strbuf.length < STRBUFSIZE := by
  rcases loadFrom_sound h with ⟨x, ht, hbuf, hc, hnot, heof, hlen⟩
  rw [List.nil_append] at hbuf
  rw [hbuf] at hlen ⊢
  exact ⟨ht, hc, hnot, heof, hlen⟩

end Scan

section CommentLoop

theorem loadComment_char {d : Char} (h : d ≠ '>') (fuel : Nat) (t strbuf : Text)
    (hlen : strbuf.length < STRBUFSIZE) :
    loadComment (fuel + 1) ⟨d :: t, false, strbuf⟩ =
      loadComment (fuel + 1) ⟨t, false, strbuf ++ [d]⟩ := by
  have hload : loaduntil ['>'] ⟨d :: t, false, strbuf⟩ =
    loaduntil ['>'] ⟨t, false, strbuf ++ [d]⟩ := by
    have hd : d ∉ ['>'] := fun hmem => h (List.mem_singleton.mp hmem)
    rw [loaduntil, loaduntil, if_neg Bool.false_ne_true, if_neg Bool.false_ne_true, loadFrom,
      if_neg hd, if_neg (Nat.not_le.mpr hlen)]
  rw [loadComment, loadComment, hload]

theorem loadComment_bracket (fuel : Nat) (t strbuf : Text) (hlen : strbuf.length < STRBUFSIZE) :
    loadComment (fuel + 1) ⟨'>' :: t, false, strbuf⟩ =
      if Ends strbuf then .ok ⟨t, false, strbuf⟩ else loadComment fuel ⟨t, false, strbuf⟩ := by
  have hload : loaduntil ['>'] ⟨'>' :: t, false, strbuf⟩ = .ok (some '>', ⟨t, false, strbuf⟩) := by
    have h := loadFrom_append ['>'] [] t strbuf '>' List.mem_cons_self
      (fun d hd => absurd hd List.not_mem_nil) (by rw [List.append_nil]; exact hlen)
    rw [List.append_nil] at h
    exact h
  rw [loadComment, hload]
  rfl

/-- What is read for a comment meets the test and fits the buffer. -/
theorem ends_of_loadComment {fuel : Nat} {r r' : Reader} (h : loadComment fuel r = .ok r') :
    Ends r'.strbuf ∧ r'.strbuf.length < STRBUFSIZE := by
  induction fuel generalizing r with
  | zero => cases h
  | succ fuel ih =>
      rw [loadComment] at h
      rcases (bind_eq_ok_iff _ _ _).mp h with ⟨⟨c, r1⟩, hload, hp⟩
      dsimp only at hp
      cases c with
      | none =>
          rw [if_pos rfl] at hp
          cases hp
      | some c =>
          rw [if_neg (by simp)] at hp
          by_cases hends : 3 ≤ r1.strbuf.length ∧ (r1.strbuf.reverse.drop 1).take 2 = ['-', '-']
          · rw [if_pos hends] at hp
            cases hp
            rw [loaduntil] at hload
            by_cases heof : r.eof = true
            · rw [if_pos heof] at hload
              cases hload
            · rw [if_neg heof] at hload
              rcases loadFrom_sound hload with ⟨_, _, _, _, _, _, hlen⟩
              exact ⟨hends, hlen⟩
          · rw [if_neg hends] at hp
            exact ih hp

/-- A comment's text is read up to its own end. -/
theorem loadComment_iff (c rest strbuf : Text) (fuel : Nat) (r : Reader) (hfuel : c.length < fuel) :
    (loadComment fuel ⟨c ++ '-' :: '-' :: '>' :: rest, false, strbuf⟩ = .ok r ∧
        r.strbuf = strbuf ++ unbracketed c ++ ['-', '-']) ↔
      EndsThere strbuf c ∧ r = ⟨rest, false, strbuf ++ unbracketed c ++ ['-', '-']⟩ := by
  -- A bracket ends the comment only behind two dashes; any other is left out of the buffer.
  induction c generalizing strbuf fuel with
  | nil =>
      rcases Nat.exists_eq_add_of_lt hfuel with ⟨k, rfl⟩
      have hnil : strbuf ++ unbracketed [] ++ ['-', '-'] = strbuf ++ ['-', '-'] := by
        rw [unbracketed, List.filter_nil, List.append_nil]
      rw [EndsThere, hnil, List.nil_append]
      by_cases hlen : (strbuf ++ ['-', '-']).length < STRBUFSIZE
      · have htwo : strbuf ++ ['-'] ++ ['-'] = strbuf ++ ['-', '-'] := List.append_assoc _ _ _
        have hshort : strbuf.length < STRBUFSIZE ∧ (strbuf ++ ['-']).length < STRBUFSIZE := by
          rw [List.length_append] at hlen ⊢
          simp only [List.length_cons, List.length_nil] at hlen ⊢
          omega
        rw [loadComment_char (by decide) _ _ _ hshort.1, loadComment_char (by decide) _ _ _
          hshort.2,
          htwo, loadComment_bracket _ _ _ hlen]
        by_cases hends : Ends (strbuf ++ ['-', '-'])
        · rw [if_pos hends, Except.ok.injEq]
          constructor
          · intro h
            exact ⟨⟨fun p q hp => absurd hp (by simp), hends, hlen⟩, h.1.symm⟩
          · intro h
            rw [h.2]
            exact ⟨rfl, rfl⟩
        · -- What is read behind the end meets the test, and the comment does not.
          rw [if_neg hends]
          constructor
          · intro h
            have hafter := (ends_of_loadComment h.1).1
            rw [h.2] at hafter
            exact absurd hafter hends
          · intro h
            exact absurd h.1.2.1 hends
      · constructor
        · intro h
          have hfit := (ends_of_loadComment h.1).2
          rw [h.2] at hfit
          exact absurd hfit hlen
        · intro h
          exact absurd h.1.2.2 hlen
  | cons d c ih =>
      rw [List.length_cons] at hfuel
      rcases Nat.exists_eq_add_of_le' (by omega : 1 ≤ fuel) with ⟨k, rfl⟩
      by_cases hlen : (strbuf ++ unbracketed (d :: c) ++ ['-', '-']).length < STRBUFSIZE
      · have hshort : strbuf.length < STRBUFSIZE := by
          rw [List.append_assoc, List.length_append] at hlen
          omega
        by_cases hd : d = '>'
        · rw [hd, endsThere_bracket_iff, unbracketed_bracket, List.cons_append,
            loadComment_bracket _ _ _ hshort]
          by_cases hends : Ends strbuf
          · -- The buffer has not got its last dashes.
            rw [if_pos hends, Except.ok.injEq]
            constructor
            · intro h
              have heq := h.2
              rw [← h.1, List.append_assoc] at heq
              have hlens := congrArg List.length heq
              simp only [List.length_append, List.length_cons] at hlens
              omega
            · intro h
              exact absurd hends h.1.1
          · rw [if_neg hends, ih strbuf k (by omega)]
            exact ⟨fun h => ⟨⟨hends, h.1⟩, h.2⟩, fun h => ⟨h.1.2, h.2⟩⟩
        · have hbuf : strbuf ++ unbracketed (d :: c) = (strbuf ++ [d]) ++ unbracketed c := by
            rw [unbracketed_cons hd, List.append_assoc, List.singleton_append]
          rw [endsThere_cons_iff hd, hbuf, List.cons_append, loadComment_char hd _ _ _ hshort]
          exact ih (strbuf ++ [d]) (k + 1) (by omega)
      · constructor
        · intro h
          have hfit := (ends_of_loadComment h.1).2
          rw [h.2] at hfit
          exact absurd hfit hlen
        · intro h
          exact absurd h.1.2.2 hlen

end CommentLoop

section Words

variable {pre : Chars} {s : Text} {fuel : Nat}

/-- The type of a cell tells the word that its markup starts with. -/
theorem get_xml_word (hpre : pre.raw.length < STRBUFSIZE) {x : Cell} {r : Reader}
    (h : get_xml (fuel + 1) ⟨pre.raw ++ '<' :: s, false, []⟩ = .ok (some x, r)) :
    (x.type = .comm → ∃ c r1, loaduntil [' ', '/', '>'] ⟨s, false, []⟩ = .ok (some c, r1) ∧
      r1.strbuf = ['!', '-', '-']) ∧
    (x.type = .dec → ∃ c r1, loaduntil [' ', '/', '>'] ⟨s, false, []⟩ = .ok (some c, r1) ∧
      r1.strbuf.head? = some '?') := by
  rw [get_xml, pre.loaduntil _ hpre] at h
  simp only [bind, Except.bind, reduceCtorEq, if_false, pre.reads, Reader.cleared] at h
  cases hword : loaduntil [' ', '/', '>'] ⟨s, false, []⟩ with
  | error stop =>
      rw [hword] at h
      cases h
  | ok p =>
      rcases p with ⟨c, r1⟩
      rw [hword] at h
      dsimp only at h
      cases c with
      | none =>
          simp only [reduceCtorEq, false_and, if_false] at h
      | some c =>
          dsimp only at h
          by_cases hclose : some c = some '/' ∧ r1.strbuf = []
          · have htype : x.type = .close := by
              rw [if_pos hclose] at h
              split at h
              · cases h
              · cases h
                rfl
            rw [htype]
            exact ⟨fun h => absurd h (by decide), fun h => absurd h (by decide)⟩
          · rw [if_neg hclose] at h
            by_cases hmark : r1.strbuf.head? = some '?'
            · have htype : x.type = .dec := by
                rw [if_pos hmark] at h
                by_cases hfull : STRBUFSIZE ≤ r1.strbuf.length
                · rw [if_pos hfull] at h
                  cases h
                · rw [if_neg hfull] at h
                  split at h
                  · cases h
                  · split at h
                    · cases h
                    · cases h
                      rfl
              rw [htype]
              exact ⟨fun h => absurd h (by decide), fun _ => ⟨c, r1, rfl, hmark⟩⟩
            · rw [if_neg hmark] at h
              by_cases hdash : r1.strbuf = ['!', '-', '-']
              · have htype : x.type = .comm := by
                  rw [if_pos hdash] at h
                  split at h
                  · cases h
                  · cases h
                    rfl
                rw [htype]
                exact ⟨fun _ => ⟨c, r1, rfl, hdash⟩, fun h => absurd h (by decide)⟩
              · -- Any other word is the name of an element.
                have htype : x.type = .node := by
                  rw [if_neg hdash] at h
                  repeat' split at h
                  all_goals
                    cases h
                  all_goals
                    rfl
                rw [htype]
                exact ⟨fun h => absurd h (by decide), fun h => absurd h (by decide)⟩

theorem get_xml_comment (hpre : pre.raw.length < STRBUFSIZE) {c : Char} {rest : Text}
    (hword : loaduntil [' ', '/', '>'] ⟨s, false, []⟩ = .ok
      (some c, ⟨rest, false, ['!', '-', '-']⟩)) :
    get_xml (fuel + 1) ⟨pre.raw ++ '<' :: s, false, []⟩ =
      loadComment fuel ⟨rest, false, ['!', '-', '-']⟩ >>= fun r =>
        .ok (some (.mk .comm (String.ofList r.strbuf) [] (some pre.value) none []), r.cleared) := by
  rw [get_xml, pre.loaduntil _ hpre]
  simp only [bind, Except.bind, reduceCtorEq, if_false, pre.reads, Reader.cleared]
  rw [hword]
  simp

theorem get_xml_dec (hpre : pre.raw.length < STRBUFSIZE) {c : Char} {rest t : Text}
    (hword : loaduntil [' ', '/', '>'] ⟨s, false, []⟩ = .ok (some c, ⟨rest, false, '?' :: t⟩))
    (hlen : ('?' :: t).length < STRBUFSIZE) :
    get_xml (fuel + 1) ⟨pre.raw ++ '<' :: s, false, []⟩ =
      loaduntil ['>'] ⟨rest, false, '?' :: (t ++ [c])⟩ >>= fun p =>
        if p.1 = none then
          .error (.exit ("error at XML dec: " ++ String.ofList (p.2.strbuf.take 20)))
        else
          .ok (some (.mk .dec (String.ofList p.2.strbuf) [] (some pre.value) none []),
            p.2.cleared) := by
  rw [get_xml, pre.loaduntil _ hpre]
  simp only [bind, Except.bind, reduceCtorEq, if_false, pre.reads, Reader.cleared]
  rw [hword]
  simp only [reduceCtorEq, and_false, if_false, List.head?_cons, if_true,
    if_neg (Nat.not_le.mpr hlen),
    List.cons_append]

end Words

section Parts

/-- The comments that are read up to their own ends. -/
def Comment.Skipped (c : Comment) : Prop :=
  ∃ d rest, c.content = d :: rest ∧ d ∈ [' ', '/', '>'] ∧ EndsThere ['!', '-', '-'] rest

/-- The declarations that are read up to their own ends. -/
def Declaration.Skipped (d : Declaration) : Prop :=
  ('?' :: (d.content ++ ['?'])).length < STRBUFSIZE ∧ ∃ t e u, d.content = t ++ e :: u ∧
    (∀ x ∈ t, x ∉ [' ', '/', '>']) ∧ e ∈ [' ', '/', '>'] ∧ '>' ∉ u

/-- The mark in front of a bracket belongs to the end of a declaration. -/
theorem split_declaration {content t y rest rest2 : Text} {e g : Char}
    (h : content ++ '?' :: '>' :: rest = t ++ e :: (y ++ g :: rest2))
    (hname : content ++ ['?'] = t ++ e :: y) (he : e ≠ '?') :
    rest = rest2 ∧ ∃ u, content = t ++ e :: u ∧ y = u ++ ['?'] := by
  have hsame : (content ++ ['?']) ++ '>' :: rest = (t ++ e :: y) ++ g :: rest2 := by
    rw [List.append_assoc, List.append_assoc]
    exact h
  rw [hname] at hsame
  refine ⟨(List.cons.inj (List.append_cancel_left hsame)).2, ?_⟩
  rcases List.eq_nil_or_concat y with hy | ⟨u, z, hy⟩
  · rw [hy] at hname
    exact absurd (List.append_inj' hname rfl).2 (fun h => he (List.cons.inj h).1.symm)
  · rw [List.concat_eq_append] at hy
    rw [hy, ← List.cons_append, ← List.append_assoc] at hname
    have hinj := List.append_inj' hname rfl
    exact ⟨u, hinj.1, by rw [hy, (List.cons.inj hinj.2).1]⟩

/-- A comment is read as its own cell when it is skipped, and only then. -/
theorem get_xml_comment_iff (pre : Chars) (c : Comment) (fuel : Nat) (rest : Text) (r : Reader)
    (hpre : pre.raw.length < STRBUFSIZE) (hfuel : c.content.length ≤ fuel) :
    get_xml (fuel + 1) ⟨(Part.comment pre c).text ++ rest, false, []⟩ =
        .ok (some (Part.comment pre c).cell, r) ↔
      c.Skipped ∧ r = ⟨rest, false, []⟩ := by
  have htext : (Part.comment pre c).text ++ rest = pre.raw ++ '<' :: (['!', '-', '-'] ++
      (c.content ++ '-' :: '-' :: '>' :: rest)) := by
    rw [Part.text]
    simp only [List.append_assoc, List.cons_append, List.nil_append]
  rw [htext, Part.cell]
  constructor
  · intro h
    -- Only the word with the two dashes gives a comment, so the word ends there.
    rcases (get_xml_word hpre h).1 rfl with ⟨d, r1, hword, hdash⟩
    rcases loaduntil_sound hword with ⟨hsplit, hd, _, heof, _⟩
    rw [hdash] at hsplit
    have hrest := List.append_cancel_left hsplit
    cases hc : c.content with
    | nil =>
        rw [hc, List.nil_append, List.cons.injEq] at hrest
        rw [← hrest.1] at hd
        exact absurd hd (by decide)
    | cons e content =>
        rw [hc, List.cons_append, List.cons.injEq] at hrest
        have hr1 : r1 = ⟨content ++ '-' :: '-' :: '>' :: rest, false, ['!', '-', '-']⟩ := by
          rw [hrest.2, ← heof, ← hdash]
        rw [hr1] at hword
        rw [get_xml_comment hpre hword] at h
        rcases (bind_eq_ok_iff _ _ _).mp h with ⟨r2, hload, hcell⟩
        rw [Except.ok.injEq, Prod.mk.injEq, Option.some.injEq, Cell.mk.injEq] at hcell
        have hname := String.ofList_injective hcell.1.2.1
        rw [hc] at hname hfuel
        have hiff := (loadComment_iff content rest ['!', '-', '-'] fuel r2 hfuel).mp ⟨hload, hname⟩
        refine ⟨⟨e, content, hc, by rw [hrest.1]; exact hd, hiff.1⟩, ?_⟩
        rw [← hcell.2, hiff.2]
        rfl
  · intro h
    rcases h with ⟨⟨d, content, hc, hd, hends⟩, rfl⟩
    have hword := loaduntil_append [' ', '/', '>'] ['!', '-', '-']
      (content ++ '-' :: '-' :: '>' :: rest) d hd (by decide) (by decide)
    rw [hc] at hfuel ⊢
    have hload := (loadComment_iff content rest ['!', '-', '-'] fuel _ hfuel).mpr ⟨hends, rfl⟩
    have hcons : d :: content ++ '-' :: '-' :: '>' :: rest =
        d :: (content ++ '-' :: '-' :: '>' :: rest) := List.cons_append
    rw [hcons, get_xml_comment hpre hword, hload.1]
    rfl

/-- A declaration is read as its own cell when it is skipped, and only then. -/
theorem get_xml_dec_iff (pre : Chars) (d : Declaration) (fuel : Nat) (rest : Text) (r : Reader)
    (hpre : pre.raw.length < STRBUFSIZE) :
    get_xml (fuel + 1) ⟨(Part.dec pre d).text ++ rest, false, []⟩ =
        .ok (some (Part.dec pre d).cell, r) ↔
      d.Skipped ∧ r = ⟨rest, false, []⟩ := by
  have htext : (Part.dec pre d).text ++ rest = pre.raw ++ '<' :: ('?' ::
      (d.content ++ '?' :: '>' :: rest)) := by
    rw [Part.text]
    simp only [List.append_assoc, List.cons_append, List.nil_append]
  rw [htext, Part.cell]
  constructor
  · intro h
    rcases (get_xml_word hpre h).2 rfl with ⟨e, r1, hword, hmark⟩
    rcases loaduntil_sound hword with ⟨hsplit, he, hnot, heof, hlen⟩
    rcases r1 with ⟨rest1, eof, strbuf⟩
    cases strbuf with
    | nil => cases hmark
    | cons q t =>
        rw [List.head?_cons, Option.some.injEq] at hmark
        dsimp only at hsplit hnot heof hlen
        rw [hmark, List.cons_append, List.cons.injEq] at hsplit
        rw [hmark, heof] at hword
        rw [hmark] at hlen
        rw [get_xml_dec hpre hword hlen] at h
        rcases (bind_eq_ok_iff _ _ _).mp h with ⟨⟨o, r2⟩, hload, hcell⟩
        cases o with
        | none => cases hcell
        | some g =>
            rw [if_neg (by simp), Except.ok.injEq, Prod.mk.injEq, Option.some.injEq,
              Cell.mk.injEq] at hcell
            have hname := String.ofList_injective hcell.1.2.1
            -- The name that is kept tells where the declaration was cut.
            rcases loadFrom_sound hload with ⟨y, hy, hbuf, hg, hbracket, heof2, hlen2⟩
            rw [hname] at hbuf hlen2
            rw [List.cons_append, List.cons.injEq, List.append_assoc, List.singleton_append] at hbuf
            have hne : e ≠ '?' := by
              intro h
              rw [h] at he
              exact absurd he (by decide)
            dsimp only at hy
            rw [hy] at hsplit
            rcases split_declaration hsplit.2 hbuf.2 hne with ⟨hrest, u, hu, hyu⟩
            refine ⟨⟨hlen2, t, e, u, hu, ?_, he, ?_⟩, ?_⟩
            · exact fun x hx => hnot x (List.mem_cons_of_mem _ hx)
            · intro hmem
              refine hbracket '>' ?_ List.mem_cons_self
              rw [hyu]
              exact List.mem_append_left _ hmem
            · rw [← hcell.2, Reader.cleared, hrest, heof2]
  · intro h
    rcases h with ⟨⟨hlen, t, e, u, hd, hword, he, hu⟩, rfl⟩
    rw [hd, List.length_cons, List.append_assoc, List.length_append] at hlen
    have hshort : ('?' :: t).length < STRBUFSIZE := by
      rw [List.length_cons]
      omega
    have hchars : ∀ x ∈ '?' :: t, x ∉ [' ', '/', '>'] := by
      rw [List.forall_mem_cons]
      exact ⟨by decide, hword⟩
    have hfirst := loaduntil_append [' ', '/', '>'] ('?' :: t) ((u ++ ['?']) ++ '>' :: rest) e he
      hchars hshort
    rw [List.cons_append] at hfirst
    have hnext := loadFrom_append ['>'] (u ++ ['?']) rest ('?' :: (t ++ [e])) '>' List.mem_cons_self
      (fun x hx hmem => by
        rw [List.mem_singleton.mp hmem, List.mem_append] at hx
        exact hx.elim hu (by decide))
      (by
        simp only [List.length_append, List.length_cons, List.length_nil] at hlen ⊢
        omega)
    have hcons : t ++ e :: u ++ '?' :: '>' :: rest = t ++ e :: ((u ++ ['?']) ++ '>' :: rest) := by
      simp only [List.append_assoc, List.cons_append, List.nil_append]
    have hname : '?' :: (t ++ [e]) ++ (u ++ ['?']) = '?' :: (t ++ e :: u ++ ['?']) := by
      simp only [List.append_assoc, List.cons_append, List.nil_append]
    rw [hd, hcons, get_xml_dec hpre hfirst hshort, loaduntil, if_neg Bool.false_ne_true,
      hnext, hname]
    rfl

end Parts

section Documents

/-- A comment or a declaration is read up to its own end. -/
def Part.Skipped : Part → Prop
  | .comment _ c => c.Skipped
  | .dec _ d => d.Skipped
  | .single _ _ | .element _ _ _ _ _ => True

theorem type_cell_ne_close (x : Part) : x.cell.type ≠ .close := by
  cases x with
  | single pre tag => rw [Part.cell, Cell.type]; decide
  | element pre tag cs post closing => rw [Part.cell, Cell.type]; decide
  | comment pre c => rw [Part.cell, Cell.type]; decide
  | dec pre d => rw [Part.cell, Cell.type]; decide

/-- Every part has a character of its own. -/
theorem length_text_pos (x : Part) : 1 ≤ x.text.length := by
  cases x with
  | single pre tag => rw [Part.text, List.length_append, List.length_cons]; omega
  | element pre tag cs post closing => rw [Part.text, List.length_append, List.length_cons]; omega
  | comment pre c => rw [Part.text, List.length_append, List.length_cons]; omega
  | dec pre d => rw [Part.text, List.length_append, List.length_cons]; omega

/-- The first of some children is read, and the others behind it. -/
theorem get_children_cons_iff (x : Cell) (hx : x.type ≠ .close) (xs : List Cell)
    (post : Option Text)
    (fuel : Nat) (r r' : Reader) :
    get_children (fuel + 1) r = .ok (x :: xs, post, r') ↔
      ∃ r1, get_xml fuel r = .ok (some x, r1) ∧ get_children fuel r1 = .ok (xs, post, r') := by
  rw [get_children, bind_eq_ok_iff]
  constructor
  · intro h
    rcases h with ⟨⟨y, r1⟩, hy, hrest⟩
    cases y with
    | none => cases hrest
    | some y =>
        dsimp only at hrest
        by_cases hclose : y.type = .close
        · rw [if_pos hclose] at hrest
          cases hrest
        · rw [if_neg hclose] at hrest
          rcases (bind_eq_ok_iff _ _ _).mp hrest with ⟨⟨ys, post', r2⟩, hys, heq⟩
          cases heq
          exact ⟨r1, hy, hys⟩
  · intro h
    rcases h with ⟨r1, hy, hys⟩
    refine ⟨(some x, r1), hy, ?_⟩
    dsimp only
    rw [if_neg hx, hys]
    rfl

/-- The parts of a document are read one by one, each for what it says, when the comments
    and declarations in it are skipped, and only then. -/
theorem get_xml_part :
    (∀ x : Part, (∀ y ∈ x.parts, y.Fits) → ∀ fuel rest r, 2 * x.text.length ≤ fuel →
      (get_xml fuel ⟨x.text ++ rest, false, []⟩ = .ok (some x.cell, r) ↔
        (∀ y ∈ x.parts, y.Skipped) ∧ r = ⟨rest, false, []⟩)) ∧
    ∀ xs : List Part, (∀ y ∈ partsAll xs, y.Fits) →
      ∀ (fuel : Nat) (post : Chars) (name : String) (n : Nat) (rest : Text) (r : Reader),
        WellFormedName name → post.raw.length < STRBUFSIZE →
          (name.toList ++ blanks n).length < STRBUFSIZE → 2 * (textAll xs).length + 2 ≤ fuel →
            (get_children fuel ⟨textAll xs ++ (post.raw ++
                '<' :: '/' :: ((name.toList ++ blanks n) ++ '>' :: rest)), false, []⟩ =
                .ok (cellAll xs, some post.value, r) ↔
              (∀ y ∈ partsAll xs, y.Skipped) ∧ r = ⟨rest, false, []⟩) := by
  -- Reading a part takes a step of the fuel, and so does the search for the next one.
  apply Part.induct
  case hsingle =>
    intro pre tag hfits fuel rest r hfuel
    rw [Part.parts, List.forall_mem_singleton] at hfits
    have hfit : pre.raw.length < STRBUFSIZE ∧ tag.Fits := hfits
    have htext : (Part.single pre tag).text ++ rest =
        pre.raw ++ '<' :: (tag.name.toList ++ (tag.inside ++ '/' :: ('>' :: rest))) := by
      rw [Part.text]
      simp only [List.append_assoc, List.cons_append, List.nil_append]
    have hlen : tag.inside.length + 1 ≤ fuel := by
      rw [Part.text] at hfuel
      simp only [List.length_append, List.length_cons] at hfuel
      omega
    rcases Nat.exists_eq_add_of_le' (by omega : 1 ≤ fuel) with ⟨k, rfl⟩
    rw [htext, get_xml_spelled pre tag k '/' _ (Or.inl rfl) hfit.1 hfit.2 (by omega), afterTag,
      if_pos rfl, loaduntil_here _ _ '>' (by decide), Part.cell, Part.parts,
        List.forall_mem_singleton]
    constructor
    · intro h
      cases h
      exact ⟨trivial, rfl⟩
    · intro h
      rw [h.2]
      rfl
  case helement =>
    intro pre tag cs post closing ih hfits fuel rest r hfuel
    rw [Part.parts, List.forall_mem_cons] at hfits
    have hfit : pre.raw.length < STRBUFSIZE ∧ tag.Fits ∧ post.raw.length < STRBUFSIZE ∧
      (tag.name.toList ++ blanks closing).length < STRBUFSIZE := hfits.1
    have htext : (Part.element pre tag cs post closing).text ++ rest =
        pre.raw ++ '<' :: (tag.name.toList ++ (tag.inside ++ '>' :: (textAll cs ++ (post.raw ++
          '<' :: '/' :: ((tag.name.toList ++ blanks closing) ++ '>' :: rest))))) := by
      rw [Part.text]
      simp only [List.append_assoc, List.cons_append, List.nil_append]
    have hlen : tag.inside.length + 1 ≤ fuel ∧ 2 * (textAll cs).length + 3 ≤ fuel := by
      rw [Part.text] at hfuel
      simp only [List.length_append, List.length_cons] at hfuel
      omega
    rcases Nat.exists_eq_add_of_le' (by omega : 1 ≤ fuel) with ⟨k, rfl⟩
    -- The children are read up to the tag that closes this element.
    have hbody := ih hfits.2 k post tag.name closing rest r tag.wellFormed hfit.2.2.1 hfit.2.2.2
      (by omega)
    have hself : (Part.element pre tag cs post closing).Skipped := trivial
    rw [htext, get_xml_spelled pre tag k '>' _ (Or.inr rfl) hfit.1 hfit.2.1 (by omega), afterTag,
      if_neg (by decide), bind_eq_ok_iff, Part.cell, Part.parts, List.forall_mem_cons,
      and_iff_right hself, ← hbody]
    constructor
    · intro h
      rcases h with ⟨⟨ys, post', r1⟩, hread, heq⟩
      cases heq
      exact hread
    · intro h
      exact ⟨_, h, rfl⟩
  case hcomment =>
    intro pre c hfits fuel rest r hfuel
    rw [Part.parts, List.forall_mem_singleton] at hfits
    have hfit : pre.raw.length < STRBUFSIZE := hfits
    have hlen : c.content.length + 1 ≤ fuel := by
      rw [Part.text] at hfuel
      simp only [List.length_append, List.length_cons] at hfuel
      omega
    rcases Nat.exists_eq_add_of_le' (by omega : 1 ≤ fuel) with ⟨k, rfl⟩
    rw [get_xml_comment_iff pre c k rest r hfit (by omega), Part.parts, List.forall_mem_singleton]
    rfl
  case hdec =>
    intro pre d hfits fuel rest r hfuel
    rw [Part.parts, List.forall_mem_singleton] at hfits
    have hfit : pre.raw.length < STRBUFSIZE := hfits
    have hlen : 1 ≤ fuel := by
      rw [Part.text] at hfuel
      simp only [List.length_append, List.length_cons] at hfuel
      omega
    rcases Nat.exists_eq_add_of_le' hlen with ⟨k, rfl⟩
    rw [get_xml_dec_iff pre d k rest r hfit, Part.parts, List.forall_mem_singleton]
    rfl
  case hnil =>
    -- With no part left, what is read is the closing tag.
    intro _ fuel post name n rest r hname hpost hlen hfuel
    rcases Nat.exists_eq_add_of_le' (by omega : 2 ≤ fuel) with ⟨k, rfl⟩
    rw [textAll, List.nil_append, get_children, get_xml_closing post k name n rest hname hpost hlen]
    constructor
    · intro h
      cases h
      exact ⟨fun y hy => absurd hy List.not_mem_nil, rfl⟩
    · intro h
      rw [h.2]
      rfl
  case hcons =>
    intro x xs ihx ihxs hfits fuel post name n rest r hname hpost hlen hfuel
    simp only [partsAll, List.mem_append, or_imp, forall_and] at hfits
    rw [textAll, List.length_append] at hfuel
    have hpos := length_text_pos x
    rcases Nat.exists_eq_add_of_le' (by omega : 1 ≤ fuel) with ⟨k, rfl⟩
    rw [textAll, List.append_assoc, cellAll, get_children_cons_iff _ (type_cell_ne_close x)]
    -- What is left behind the first part is the text of the others.
    simp only [ihx hfits.1 k _ _ (by omega), partsAll, List.mem_append, or_imp, forall_and]
    constructor
    · intro h
      rcases h with ⟨r1, ⟨hx, rfl⟩, hread⟩
      have hxs := (ihxs hfits.2 k post name n rest r hname hpost hlen (by omega)).mp hread
      exact ⟨⟨hx, hxs.1⟩, hxs.2⟩
    · intro h
      exact ⟨_, ⟨h.1.1, rfl⟩,
        (ihxs hfits.2 k post name n rest r hname hpost hlen (by omega)).mpr ⟨h.1.2, h.2⟩⟩

theorem loadFrom_end (t strbuf : Text) (ht : '<' ∉ t) (hlen : (strbuf ++ t).length < STRBUFSIZE) :
    loadFrom ['<'] t strbuf = .ok (none, ⟨[], true, strbuf ++ t ++ ['\xff']⟩) := by
  induction t generalizing strbuf with
  | nil =>
      rw [List.append_nil] at hlen ⊢
      rw [loadFrom, if_neg (Nat.not_le.mpr hlen)]
  | cons d t ih =>
      rw [List.mem_cons, not_or] at ht
      have hsplit : strbuf ++ d :: t = (strbuf ++ [d]) ++ t := by
        rw [List.append_assoc, List.singleton_append]
      have hshort : ¬ STRBUFSIZE ≤ strbuf.length := by
        rw [List.length_append] at hlen
        omega
      have hd : d ∉ ['<'] := fun hmem => ht.1 (List.mem_singleton.mp hmem).symm
      rw [loadFrom, if_neg hd, if_neg hshort, hsplit]
      exact ih (strbuf ++ [d]) ht.2 (hsplit ▸ hlen)

/-- A document is read when its comments and declarations are skipped, and only then. -/
theorem get_forest_parts (xs : List Part) (hfits : ∀ y ∈ partsAll xs, y.Fits) (tail : Chars)
    (htail : tail.raw.length < STRBUFSIZE) (fuel : Nat)
      (hfuel : 2 * (textAll xs).length + 2 ≤ fuel) :
    get_forest fuel ⟨textAll xs ++ tail.raw, false, []⟩ = .ok (cellAll xs) ↔
      ∀ y ∈ partsAll xs, y.Skipped := by
  induction xs generalizing fuel with
  | nil =>
      rcases Nat.exists_eq_add_of_le' (by omega : 2 ≤ fuel) with ⟨k, rfl⟩
      -- Behind the last part there is no tag, and the reader stops at the end of the file.
      have hload : loaduntil ['<'] ⟨tail.raw, false, []⟩ =
          .ok (none, ⟨[], true, tail.raw ++ ['\xff']⟩) := by
        have h := loadFrom_end tail.raw [] tail.plain htail
        rw [List.nil_append] at h
        exact h
      rw [textAll, List.nil_append, get_forest, if_neg Bool.false_ne_true, get_xml, hload]
      exact ⟨fun _ y hy => absurd hy List.not_mem_nil, fun _ => rfl⟩
  | cons x xs ih =>
      simp only [partsAll, List.mem_append, or_imp, forall_and] at hfits
      rw [textAll, List.length_append] at hfuel
      have hpos := length_text_pos x
      rcases Nat.exists_eq_add_of_le' (by omega : 1 ≤ fuel) with ⟨k, rfl⟩
      have hx := fun r => get_xml_part.1 x hfits.1 k (textAll xs ++ tail.raw) r (by omega)
      simp only [textAll, List.append_assoc, partsAll, List.mem_append, or_imp, forall_and]
      rw [get_forest, if_neg Bool.false_ne_true, bind_eq_ok_iff, ← ih hfits.2 k (by omega), cellAll]
      constructor
      · intro h
        rcases h with ⟨⟨y, r1⟩, hy, hrest⟩
        cases y with
        | none => cases hrest
        | some y =>
            rcases (bind_eq_ok_iff _ _ _).mp hrest with ⟨ys, hys, heq⟩
            cases heq
            have hskip := (hx r1).mp hy
            rw [hskip.2] at hys
            exact ⟨hskip.1, hys⟩
      · intro h
        refine ⟨_, (hx _).mpr ⟨h.1, rfl⟩, ?_⟩
        dsimp only
        rw [h.2]
        rfl

end Documents

section Uncommented

mutual

/-- A part without the comments in it, and the text that is left for the next part. The
    text is put in front of the part. -/
def Part.uncommented (carry : Chars) : Part → List Part × Chars
  | .single pre tag => ([.single (carry.append pre) tag], Chars.empty)
  | .element pre tag cs post closing =>
      let inner := uncommentedAll Chars.empty cs
      ([.element (carry.append pre) tag inner.1 (inner.2.append post) closing], Chars.empty)
  | .comment pre _ => ([], carry.append pre)
  | .dec pre d => ([.dec (carry.append pre) d], Chars.empty)

/-- A list of parts without comments, and the text that is left. -/
def uncommentedAll (carry : Chars) : List Part → List Part × Chars
  | [] => ([], carry)
  | x :: xs =>
      let first := x.uncommented carry
      let others := uncommentedAll first.2 xs
      (first.1 ++ others.1, others.2)

end

mutual

/-- A cell without the comments in it, and the text that is left for the next cell. -/
def Cell.uncommented (carry : Text) : Cell → List Cell × Text
  | .mk type name attrs pretext posttext cs =>
      if type = .comm then ([], carry ++ pretext.getD [])
      else
        let inner := uncommentedCells [] cs
        ([.mk type name attrs (some (carry ++ pretext.getD [])) (posttext.map (inner.2 ++ ·))
          inner.1],
          [])

/-- A list of cells without comments, and the text that is left. -/
def uncommentedCells (carry : Text) : List Cell → List Cell × Text
  | [] => ([], carry)
  | x :: xs =>
      let first := x.uncommented carry
      let others := uncommentedCells first.2 xs
      (first.1 ++ others.1, others.2)

end

/-- What a document says without its comments is what it says, without them. -/
theorem cell_uncommented :
    (∀ (x : Part) (carry : Chars), x.cell.uncommented carry.value =
      (cellAll (x.uncommented carry).1, (x.uncommented carry).2.value)) ∧
    ∀ (xs : List Part) (carry : Chars), uncommentedCells carry.value (cellAll xs) =
      (cellAll (uncommentedAll carry xs).1, (uncommentedAll carry xs).2.value) := by
  apply Part.induct
  case hsingle =>
    intro pre tag carry
    rfl
  case helement =>
    intro pre tag cs post closing ih carry
    have hinner : uncommentedCells [] (cellAll cs) = _ := ih Chars.empty
    rw [Part.cell, Cell.uncommented, if_neg (by decide), Part.uncommented]
    simp only [hinner, cellAll, Part.cell]
    rfl
  case hcomment =>
    intro pre c carry
    rfl
  case hdec =>
    intro pre d carry
    rfl
  case hnil =>
    intro carry
    rfl
  case hcons =>
    intro x xs ihx ihxs carry
    have happend : ∀ ys zs : List Part, cellAll (ys ++ zs) = cellAll ys ++ cellAll zs := by
      intro ys zs
      induction ys with
      | nil => rfl
      | cons y ys ih => rw [List.cons_append, cellAll, cellAll, ih, List.cons_append]
    rw [cellAll, uncommentedCells, uncommentedAll]
    simp only [ihx, ihxs, happend]

theorem partsAll_append (xs ys : List Part) : partsAll (xs ++ ys) = partsAll xs ++ partsAll ys := by
  induction xs with
  | nil => rfl
  | cons x xs ih => rw [List.cons_append, partsAll, partsAll, ih, List.append_assoc]

/-- Without comments the same declarations are left. -/
theorem skipped_uncommented :
    (∀ (x : Part) (carry : Chars), (∀ y ∈ x.parts, y.Skipped) →
      ∀ y ∈ partsAll (x.uncommented carry).1, y.Skipped) ∧
    ∀ (xs : List Part) (carry : Chars), (∀ y ∈ partsAll xs, y.Skipped) →
      ∀ y ∈ partsAll (uncommentedAll carry xs).1, y.Skipped := by
  apply Part.induct
  case hsingle =>
    intro pre tag carry _
    rw [Part.uncommented, partsAll, partsAll, List.append_nil, Part.parts,
      List.forall_mem_singleton]
    trivial
  case helement =>
    intro pre tag cs post closing ih carry h
    rw [Part.parts, List.forall_mem_cons] at h
    rw [Part.uncommented, partsAll, partsAll, List.append_nil, Part.parts, List.forall_mem_cons]
    exact ⟨trivial, ih Chars.empty h.2⟩
  case hcomment =>
    intro pre c carry _ y hy
    cases hy
  case hdec =>
    intro pre d carry h
    rw [Part.parts, List.forall_mem_singleton] at h
    rw [Part.uncommented, partsAll, partsAll, List.append_nil, Part.parts,
      List.forall_mem_singleton]
    exact h
  case hnil =>
    intro carry _ y hy
    cases hy
  case hcons =>
    intro x xs ihx ihxs carry h
    simp only [partsAll, List.mem_append, or_imp, forall_and] at h
    rw [uncommentedAll, partsAll_append]
    simp only [List.mem_append, or_imp, forall_and]
    exact ⟨ihx carry h.1, ihxs _ h.2⟩

/-- What fits the buffer without comments fits it with them. -/
theorem fits_of_uncommented :
    (∀ (x : Part) (carry : Chars), (∀ y ∈ partsAll (x.uncommented carry).1, y.Fits) →
      (x.uncommented carry).2.raw.length < STRBUFSIZE →
        (∀ y ∈ x.parts, y.Fits) ∧ carry.raw.length < STRBUFSIZE) ∧
    ∀ (xs : List Part) (carry : Chars), (∀ y ∈ partsAll (uncommentedAll carry xs).1, y.Fits) →
      (uncommentedAll carry xs).2.raw.length < STRBUFSIZE →
        (∀ y ∈ partsAll xs, y.Fits) ∧ carry.raw.length < STRBUFSIZE := by
  have hshort : ∀ a b : Chars, (a.append b).raw.length < STRBUFSIZE →
      a.raw.length < STRBUFSIZE ∧ b.raw.length < STRBUFSIZE := by
    intro a b h
    rw [Chars.append, List.length_append] at h
    omega
  -- What is carried to a part only makes its text longer.
  apply Part.induct
  case hsingle =>
    intro pre tag carry h _
    rw [Part.uncommented, partsAll, partsAll, List.append_nil, Part.parts,
      List.forall_mem_singleton] at h
    have hfit : (carry.append pre).raw.length < STRBUFSIZE ∧ tag.Fits := h
    rw [Part.parts, List.forall_mem_singleton]
    exact ⟨⟨(hshort _ _ hfit.1).2, hfit.2⟩, (hshort _ _ hfit.1).1⟩
  case helement =>
    intro pre tag cs post closing ih carry h _
    rw [Part.uncommented, partsAll, partsAll, List.append_nil, Part.parts,
      List.forall_mem_cons] at h
    have hfit : (carry.append pre).raw.length < STRBUFSIZE ∧ tag.Fits ∧
      ((uncommentedAll Chars.empty cs).2.append post).raw.length < STRBUFSIZE ∧
        (tag.name.toList ++ blanks closing).length < STRBUFSIZE := h.1
    have hpost := hshort _ _ hfit.2.2.1
    rw [Part.parts, List.forall_mem_cons]
    exact ⟨⟨⟨(hshort _ _ hfit.1).2, hfit.2.1, hpost.2, hfit.2.2.2⟩,
      (ih Chars.empty h.2 hpost.1).1⟩, (hshort _ _ hfit.1).1⟩
  case hcomment =>
    intro pre c carry _ hlen
    have hboth := hshort carry pre hlen
    rw [Part.parts, List.forall_mem_singleton]
    exact ⟨hboth.2, hboth.1⟩
  case hdec =>
    intro pre d carry h _
    rw [Part.uncommented, partsAll, partsAll, List.append_nil, Part.parts,
      List.forall_mem_singleton] at h
    have hboth := hshort carry pre h
    rw [Part.parts, List.forall_mem_singleton]
    exact ⟨hboth.2, hboth.1⟩
  case hnil =>
    intro carry _ hlen
    exact ⟨fun y hy => absurd hy List.not_mem_nil, hlen⟩
  case hcons =>
    intro x xs ihx ihxs carry h hlen
    rw [uncommentedAll, partsAll_append] at h
    simp only [List.mem_append, or_imp, forall_and] at h
    have hxs := ihxs _ h.2 hlen
    have hx := ihx carry h.1 hxs.2
    simp only [partsAll, List.mem_append, or_imp, forall_and]
    exact ⟨⟨hx.1, hxs.1⟩, hx.2⟩

/-- A document, with the text behind its last part. What it says without its comments fits
    the buffer. -/
structure Document where
  parts : List Part
  tail : Chars
  fits : ∀ y ∈ partsAll (uncommentedAll Chars.empty parts).1, y.Fits
  tailFits : ((uncommentedAll Chars.empty parts).2.append tail).raw.length < STRBUFSIZE

/-- The document as a file. -/
def Document.text (d : Document) : Text := textAll d.parts ++ d.tail.raw

/-- The file without its comments. -/
def Document.textUncommented (d : Document) : Text :=
  textAll (uncommentedAll Chars.empty d.parts).1 ++
    ((uncommentedAll Chars.empty d.parts).2.append d.tail).raw

/-- Reading a document skips the comments in it: every comment is read up to its own end,
    and without them the cells are those of the document without comments. -/
structure Skips (d : Document) : Prop where
  parts : read_xml d.text = .ok (cellAll d.parts)
  same : read_xml d.textUncommented = .ok (uncommentedCells [] (cellAll d.parts)).1

/-- The documents whose comments are skipped. -/
theorem skips_iff (d : Document) : Skips d ↔ ∀ y ∈ partsAll d.parts, y.Skipped := by
  have hboth : (uncommentedAll Chars.empty d.parts).2.raw.length < STRBUFSIZE ∧
      d.tail.raw.length < STRBUFSIZE := by
    have h := d.tailFits
    rw [Chars.append, List.length_append] at h
    omega
  have hfits := (fits_of_uncommented.2 d.parts Chars.empty d.fits hboth.1).1
  have hread := get_forest_parts d.parts hfits d.tail hboth.2 (2 * d.text.length + 2) (by
    rw [Document.text, List.length_append]
    omega)
  constructor
  · intro h
    exact hread.mp h.parts
  · intro h
    refine ⟨hread.mpr h, ?_⟩
    have hcells : uncommentedCells [] (cellAll d.parts) = _ :=
      cell_uncommented.2 d.parts Chars.empty
    rw [hcells]
    refine (get_forest_parts _ d.fits _ d.tailFits _ ?_).mpr
      (skipped_uncommented.2 d.parts Chars.empty h)
    rw [Document.textUncommented, List.length_append]
    omega

/-- The element that holds nothing but the parts `xs`. -/
def holder (xs : List Part) : Part :=
  .element Chars.empty ⟨"a", ⟨by decide, by decide, by decide⟩, [], 0⟩ xs Chars.empty 0

theorem fits_holder (xs : List Part) : (holder xs).Fits := by
  refine ⟨by decide, ⟨by decide, fun a ha => ?_⟩, by decide, by decide⟩
  cases ha

/-- An element with a comment that has a blank at each end. -/
def noted : Document where
  parts := [holder [.comment Chars.empty ⟨[' ', 'x', ' '], by decide⟩]]
  tail := Chars.empty
  fits := by
    intro y hy
    have hmem : y = holder [] := List.mem_singleton.mp hy
    rw [hmem]
    exact fits_holder []
  tailFits := by decide

/-- The comment is not skipped: nothing is read for the element. Without the comment it
    is read. -/
theorem noted_not_skipped : (∀ xs, read_xml noted.text ≠ .ok xs) ∧
    read_xml noted.textUncommented = .ok [(holder []).cell] := by
  constructor
  · intro xs h
    have hstop : (read_xml noted.text).isOk = false := by decide +kernel
    rw [h] at hstop
    cases hstop
  · refine (get_forest_parts [holder []] ?_ Chars.empty (by decide) _ (by decide)).mpr ?_
    · exact noted.fits
    · intro y hy
      rw [List.mem_singleton.mp hy]
      trivial

end Uncommented

end XevXml.Tools
