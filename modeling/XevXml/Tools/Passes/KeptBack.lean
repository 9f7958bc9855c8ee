import XevXml.Tools.Passes.Kept
import XevXml.Tools.Passes.Backquote

/-!
# The Lines That Are Kept behind the Back End

The second pass holds the end of a line back. What has been written when a line that is no
directive comes is complete with the end that waits, whatever the lines before were. But a
line that is one character long is lost, characters beyond ASCII are taken for control
characters at the end of a line, and a comment that belonged to the end of a line goes there
again.

## Main definitions

* `KeptAfter`: The pass keeps the lines that are no directives.
* `KeepsAfter`: The files for which it does.

## Theorems

* `settled_lines`: What has been written is complete after every line.
* `keptAfter_iff`: The lines are kept for these files only.
* `lines_kept_iff`: Both passes.
-/

namespace XevXml.Tools.Passes

/-- A line that the second pass takes for a directive. -/
def IsDirective (l : Text) : Prop := "!pragma ".toList <+: skipBlanks l

theorem isDirective_ended_iff (l : Text) : IsDirective (ended l) ↔ IsDirective l := by
  unfold IsDirective
  rcases skipBlanks_ended l with ⟨h, h'⟩ | h
  · rw [h, h']
  · rw [h, ended, List.prefix_concat_iff]
    constructor
    · intro hor
      rcases hor with heq | hp
      · have hmem : '\n' ∈ "!pragma ".toList := by
          rw [heq]
          simp
        exact absurd hmem (by decide)
      · exact hp
    · exact Or.inr

/-- The marks of all directives begin alike. -/
theorem isDirective_of_isPrefixOf {mark rest l : Text} (hmark : mark = "!pragma ".toList ++ rest)
    (h : mark.isPrefixOf (skipBlanks l) = true) : IsDirective l := by
  rw [List.isPrefixOf_iff_prefix] at h
  exact (hmark ▸ List.prefix_append _ _).trans h

section Settled

/-- What is left of a line ends with its end, if it is not empty. -/
theorem getLast_skipBlanks_ended {l : Text} (h : skipBlanks (ended l) ≠ []) :
    (skipBlanks (ended l)).getLast? = some '\n' := by
  rcases skipBlanks_ended l with ⟨hnil, _⟩ | heq
  · exact absurd hnil h
  · rw [heq, ended, List.getLast?_append]
    rfl

/-- What has been written is complete with the line end that waits, unless a directive waits
    for a call. -/
structure Settled (s : Passing) : Prop where
  complete : s.pending = none → Complete s.broken
  waits : ∀ rest, s.pending = some rest → rest.getLast? = some '\n'

theorem settled_start : Settled Passing.start :=
  ⟨fun _ => Or.inl rfl, fun rest h => by cases h⟩

theorem settled_wrote (s : Passing) (t : Text) (h : t.getLast? = some '\n') :
    Settled (s.wrote t) := by
  refine ⟨fun _ => Or.inr ?_, fun rest hrest => by cases hrest⟩
  rw [Passing.broken, Passing.wrote, if_neg Bool.false_ne_true, List.append_nil]
  exact h

theorem settled_resume {s s' : Passing} {written rest : Text}
    (h : s.resume written rest = .ok s') (hrest : rest.getLast? = some '\n') : Settled s' := by
  rcases (bind_eq_ok_iff _ _ _).mp h with ⟨⟨t, more⟩, hscan, heq⟩
  cases heq
  rcases scanPragmaFrom_spec hscan with ⟨hmore, ht, _⟩ | ⟨m, r, hmore, hsplit, _, _⟩
  · -- All of the line has been written, its end with it.
    refine ⟨fun _ => Or.inr ?_, fun r hr => absurd (hr.symm.trans hmore) (Option.some_ne_none r)⟩
    rw [Passing.broken, if_neg Bool.false_ne_true, List.append_nil, ht, List.getLast?_append, hrest]
    rfl
  · -- The end of the line is in what waits.
    refine ⟨fun hnone => absurd (hmore.symm.trans hnone) (Option.some_ne_none r), fun r' hr => ?_⟩
    have heq : r' = r := Option.some.inj (hr.symm.trans hmore)
    have hfront : t ++ '`' :: (m ++ '`' :: r) = (t ++ '`' :: (m ++ ['`'])) ++ r := by
      simp only [List.append_assoc, List.cons_append, List.nil_append]
    rw [hsplit, hfront, List.getLast?_append] at hrest
    rw [heq]
    cases hlast : r.getLast? with
    | none =>
        rw [hlast, Option.none_or, ← List.cons_append, ← List.append_assoc,
          List.getLast?_concat] at hrest
        exact absurd hrest (by decide)
    | some c =>
        rw [hlast] at hrest
        exact hrest

theorem getLast_dropWhile {t : Text} {p : Char → Bool} (h : t.getLast? = some '\n')
    (hp : p '\n' = false) : (t.dropWhile p).getLast? = some '\n' := by
  rcases List.getLast?_eq_some_iff.mp h with ⟨u, rfl⟩
  rw [List.dropWhile_append]
  by_cases hall : (u.dropWhile p).isEmpty = true
  · rw [if_pos hall, List.dropWhile_cons_of_neg (by rw [hp]; decide)]
    rfl
  · rw [if_neg hall, List.getLast?_append]
    rfl

/-- A text that ends a line is longer than any beginning of it without a line end. -/
theorem getLast_drop {t mark : Text} (h : t.getLast? = some '\n') (hmark : mark <+: t)
    (hplain : '\n' ∉ mark) : (t.drop mark.length).getLast? = some '\n' := by
  rcases hmark with ⟨u, rfl⟩
  rw [List.drop_left]
  rw [List.getLast?_append] at h
  cases hu : u.getLast? with
  | none =>
      rw [hu, Option.none_or] at h
      exact absurd (List.mem_of_getLast? h) hplain
  | some c =>
      rw [hu] at h
      exact h

/-- What stands behind the name of a directive ends its line. -/
theorem getLast_behind_rename {namelist : List NameCell} {line orgname : Text} {clen : Nat}
    (hline : line.getLast? = some '\n') (hmark : "!pragma xev ".toList <+: line)
    (h : xevparse_pragma_rename namelist (line.drop 12) = some (orgname, clen)) :
    (line.drop (12 + clen)).getLast? = some '\n' := by
  rcases Option.map_eq_some_iff.mp h with ⟨c, _, heq⟩
  rw [Prod.mk.injEq] at heq
  have hlast : (line.drop 12).getLast? = some '\n' := getLast_drop hline hmark (by decide)
  have hdrop : line.drop (12 + clen) = (line.drop 12).dropWhile fun c => !blank c := by
    rw [← List.drop_drop, ← heq.2]
    have hall := List.takeWhile_append_dropWhile (p := fun c => !blank c) (l := line.drop 12)
    nth_rewrite 2 [← hall]
    rw [List.drop_left]
  rw [hdrop]
  exact getLast_dropWhile (p := fun c => !blank c) hlast (by decide)

/-- A directive that gets its old name or is copied ends its line. -/
theorem settled_pragma (namelist : List NameCell) {s s' : Passing} {line : Text}
    (h : postunparse_pragma namelist s line = .ok s') (hline : line.getLast? = some '\n')
    (hmark : "!pragma ".toList <+: line) : Settled s' := by
  rw [postunparse_pragma] at h
  split at h
  · next orgname clen hrename =>
      cases h
      split at hrename
      · next hxev =>
          refine settled_wrote _ _ ?_
          rw [List.getLast?_append,
            getLast_behind_rename hline (List.isPrefixOf_iff_prefix.mp hxev) hrename]
          rfl
      · cases hrename
  · rcases (bind_eq_ok_iff _ _ _).mp h with ⟨c, _, hc⟩
    cases c with
    | none =>
        cases hc
        refine settled_wrote _ _ ?_
        rw [List.getLast?_append, hline]
        rfl
    | some c =>
        refine settled_resume hc ?_
        have hlast : (line.drop 8).getLast? = some '\n' := getLast_drop hline hmark (by decide)
        rw [List.getLast?_cons, List.getLast?_cons, hlast]
        rfl

/-- What has been written is complete after every line. -/
theorem settled_line (namelist : List NameCell) {s s' : Passing} {l : Text} (hs : Settled s)
    (h : postunparse_line namelist s (ended l) = .ok s') : Settled s' := by
  unfold postunparse_line at h
  dsimp only at h
  cases hpending : s.pending with
  | some rest =>
      rw [hpending] at h
      rcases (bind_eq_ok_iff _ _ _).mp h with ⟨e, _, hresume⟩
      exact settled_resume hresume (hs.waits rest hpending)
  | none =>
      rw [hpending] at h
      dsimp only at h
      have hend : ∀ t : Text, (t ++ ['\n']).getLast? = some '\n' := by
        intro t
        rw [List.getLast?_append]
        rfl
      split at h
      · rcases (bind_eq_ok_iff _ _ _).mp h with ⟨s1, _, heq⟩
        cases heq
        exact settled_wrote _ _ (hend _)
      · split at h
        · rcases (bind_eq_ok_iff _ _ _).mp h with ⟨s1, _, heq⟩
          cases heq
          exact settled_wrote _ _ (hend _)
        · split at h
          · rcases (bind_eq_ok_iff _ _ _).mp h with ⟨t, _, heq⟩
            cases heq
            exact settled_wrote _ _ (hend _)
          · split at h
            · next hmark =>
                have hprefix := List.isPrefixOf_iff_prefix.mp hmark
                have hne : skipBlanks (ended l) ≠ [] := by
                  intro hnil
                  rw [hnil] at hprefix
                  exact absurd (List.prefix_nil.mp hprefix) (by decide)
                exact settled_pragma namelist h (getLast_skipBlanks_ended hne) hprefix
            · -- The line's own end waits.
              cases h
              refine ⟨fun _ => Or.inr ?_, fun rest hrest => ?_⟩
              · rw [Passing.broken, if_pos rfl]
                exact hend _
              · cases hrest

theorem settled_lines (namelist : List NameCell) {s s' : Passing} {ls : List Text} (hs : Settled s)
    (h : postunparse_lines namelist s (ls.map ended) = .ok s') : Settled s' := by
  induction ls generalizing s with
  | nil =>
      cases h
      exact hs
  | cons l ls ih =>
      rw [postunparse_lines, List.map_cons, List.foldlM_cons] at h
      rcases (bind_eq_ok_iff _ _ _).mp h with ⟨s1, hs1, hrest⟩
      exact ih (settled_line namelist hs hs1) hrest

end Settled

section Written

/-- A comment that belongs to the end of a line. -/
def IsEcomment (body : Text) : Prop := "!pragma xevparse ecomment(".toList <+: skipBlanks body

/-- The text of such a comment. -/
def ecommentText (body : Text) : Run Text := readString ((skipBlanks body).drop 26)

/-- A line that is no directive is written without what the pass takes for its end. -/
theorem postunparse_line_plain (namelist : List NameCell) {s : Passing} {l : Text}
    (hpending : s.pending = none) (h : ¬ IsDirective l) :
    postunparse_line namelist s (ended l) = .ok
      { written := s.broken ++ keptText (ended l), unbreak := true, pending := none,
        buffer := ended l } := by
  have hno : ∀ mark rest, mark = "!pragma ".toList ++ rest →
      ¬ mark.isPrefixOf (skipBlanks (ended l)) = true := by
    intro mark rest hmark hp
    exact h ((isDirective_ended_iff l).mp (isDirective_of_isPrefixOf hmark hp))
  unfold postunparse_line
  dsimp only
  rw [hpending]
  dsimp only
  rw [if_neg (hno _ "xevparse comment(".toList (by decide)),
    if_neg (hno _ "xevparse ecomment(".toList (by decide)),
    if_neg (hno _ "xev string_pragma".toList (by decide)), if_neg (hno _ [] (by decide))]
  rfl

/-- What is done with a directive of the tools that is no comment. -/
theorem postunparse_line_xev (namelist : List NameCell) {s : Passing} (hpending : s.pending = none)
    {body : Text} (hbody : "!pragma xev ".toList <+: body) :
    postunparse_line namelist s body =
      if "!pragma xev string_pragma".toList.isPrefixOf body then
        stringText body >>= fun t => .ok ({ s with buffer := body }.wrote (s.broken ++ t ++ ['\n']))
      else postunparse_pragma namelist { s with buffer := body } body := by
  rcases hbody with ⟨rest, rfl⟩
  have hskip : skipBlanks ("!pragma xev ".toList ++ rest) = "!pragma xev ".toList ++ rest :=
    List.dropWhile_cons_of_neg (by decide)
  -- The names of comments go on where the mark has a blank.
  have hother : ∀ mark : Text, (mark.drop 11).head? = some 'p' →
      ¬ mark.isPrefixOf ("!pragma xev ".toList ++ rest) = true := by
    intro mark hmark h
    rcases List.isPrefixOf_iff_prefix.mp h with ⟨t, ht⟩
    have hlen : 11 ≤ mark.length := by
      by_contra hshort
      rw [List.drop_eq_nil_of_le (by omega)] at hmark
      cases hmark
    have hchar := congrArg (fun l => (List.drop 11 l).head?) ht
    rw [List.drop_append_of_le_length hlen, List.head?_append, hmark] at hchar
    have hblank : some 'p' = some ' ' := hchar
    exact absurd hblank (by decide)
  have hpragma : "!pragma ".toList.isPrefixOf ("!pragma xev ".toList ++ rest) = true :=
    List.isPrefixOf_iff_prefix.mpr (List.IsPrefix.trans (by decide) (List.prefix_append _ _))
  unfold postunparse_line
  dsimp only
  rw [hpending]
  dsimp only
  rw [hskip, if_neg (hother _ rfl), if_neg (hother _ rfl)]
  by_cases hstring : "!pragma xev string_pragma".toList.isPrefixOf
    ("!pragma xev ".toList ++ rest) = true
  · rw [if_pos hstring, if_pos hstring]
    rfl
  · rw [if_neg hstring, if_neg hstring, if_pos hpragma]

theorem written_resume {s s' : Passing} {written rest : Text}
    (h : s.resume written rest = .ok s') : ∃ x, s'.written = written ++ x := by
  rcases (bind_eq_ok_iff _ _ _).mp h with ⟨⟨t, more⟩, _, heq⟩
  cases heq
  exact ⟨t, rfl⟩

theorem written_pragma (namelist : List NameCell) {s s' : Passing} {line : Text}
    (h : postunparse_pragma namelist s line = .ok s') : ∃ x, s'.written = s.broken ++ x := by
  rw [postunparse_pragma] at h
  split at h
  · cases h
    exact ⟨_, List.append_assoc _ _ _⟩
  · rcases (bind_eq_ok_iff _ _ _).mp h with ⟨c, _, hc⟩
    cases c with
    | none =>
        cases hc
        exact ⟨line, rfl⟩
    | some c => exact written_resume hc

/-- A line adds to what has been written, and breaks it first unless it is a comment that
    belongs to the end of the line before. -/
theorem written_line (namelist : List NameCell) {s s' : Passing} {body : Text}
    (h : postunparse_line namelist s body = .ok s') :
    (∃ x, s'.written = s.written ++ x) ∧ (s.pending = none →
      (IsEcomment body → ∃ t, ecommentText body = .ok t ∧ s'.written = s.written ++ t ++ ['\n']) ∧
        (¬ IsEcomment body → ∃ x, s'.written = s.broken ++ x)) := by
  unfold postunparse_line at h
  dsimp only at h
  cases hpending : s.pending with
  | some rest =>
      rw [hpending] at h
      rcases (bind_eq_ok_iff _ _ _).mp h with ⟨e, _, hresume⟩
      rcases written_resume hresume with ⟨x, hx⟩
      exact ⟨⟨e ++ x, by rw [hx, List.append_assoc]⟩, fun hnone => by cases hnone⟩
  | none =>
      rw [hpending] at h
      dsimp only at h
      -- It is enough to know what is written behind the line end that waits.
      have hbroken : ∀ x, s'.written = s.broken ++ x → ¬ IsEcomment body →
          (∃ x, s'.written = s.written ++ x) ∧ (Option.none = (none : Option Text) →
            (IsEcomment body → ∃ t, ecommentText body = .ok t ∧ s'.written = s.written ++ t ++
              ['\n']) ∧
              (¬ IsEcomment body → ∃ x, s'.written = s.broken ++ x)) := by
        intro x hx hno
        refine ⟨⟨_, by rw [hx, Passing.broken, List.append_assoc]⟩, fun _ => ?_⟩
        exact ⟨fun he => absurd he hno, fun _ => ⟨x, hx⟩⟩
      split at h
      · next hcomment =>
          have hno : ¬ IsEcomment body := by
            intro he
            have hboth := List.prefix_of_prefix_length_le
              (List.isPrefixOf_iff_prefix.mp hcomment) he
              (by decide)
            exact absurd hboth (by decide)
          rcases (bind_eq_ok_iff _ _ _).mp h with ⟨s1, _, heq⟩
          cases heq
          refine hbroken (s1 ++ ['\n']) ?_ hno
          rw [← List.append_assoc]
          rfl
      · split at h
        · next hecomment =>
            have hyes : IsEcomment body := List.isPrefixOf_iff_prefix.mp hecomment
            rcases (bind_eq_ok_iff _ _ _).mp h with ⟨s1, hs1, heq⟩
            cases heq
            exact ⟨⟨s1 ++ ['\n'], List.append_assoc _ _ _⟩,
              fun _ => ⟨fun _ => ⟨s1, hs1, rfl⟩, fun hno => absurd hyes hno⟩⟩
        · next hno =>
            have hno' : ¬ IsEcomment body := fun he => hno (List.isPrefixOf_iff_prefix.mpr he)
            split at h
            · rcases (bind_eq_ok_iff _ _ _).mp h with ⟨t, _, heq⟩
              cases heq
              refine hbroken (t ++ ['\n']) ?_ hno'
              rw [← List.append_assoc]
              rfl
            · split at h
              · rcases written_pragma namelist h with ⟨x, hx⟩
                exact hbroken x hx hno'
              · cases h
                exact hbroken _ rfl hno'

theorem written_drain {line written rest out : Text} {fuel : Nat}
    (h : drainFrom line fuel written rest = .ok out) : ∃ x, out = written ++ x := by
  induction fuel generalizing written rest with
  | zero => cases h
  | succ fuel ih =>
      rw [drainFrom] at h
      rcases (bind_eq_ok_iff _ _ _).mp h with ⟨e, _, h1⟩
      rcases (bind_eq_ok_iff _ _ _).mp h1 with ⟨⟨t, more⟩, _, h2⟩
      cases more with
      | none =>
          cases h2
          exact ⟨e ++ t, List.append_assoc _ _ _⟩
      | some r =>
          rcases ih h2 with ⟨x, hx⟩
          exact ⟨e ++ (t ++ x), by rw [hx, List.append_assoc, List.append_assoc]⟩

/-- What has been written stays, up to the end of the file. -/
theorem written_finish (namelist : List NameCell) {s s' : Passing} {ls : List Text}
    {last out : Text}
    (h : postunparse_lines namelist s ls = .ok s') (hout : s'.finish last = .ok out) :
    ∃ x, out = s.written ++ x := by
  induction ls generalizing s with
  | nil =>
      cases h
      unfold Passing.finish at hout
      split at hout
      · cases hout
        exact ⟨_, rfl⟩
      · exact written_drain hout
  | cons l ls ih =>
      rw [postunparse_lines, List.foldlM_cons] at h
      rcases (bind_eq_ok_iff _ _ _).mp h with ⟨s1, hs1, hrest⟩
      rcases ih hrest with ⟨x, hx⟩
      rcases (written_line namelist hs1).1 with ⟨y, hy⟩
      exact ⟨y ++ x, by rw [hx, hy, List.append_assoc]⟩

/-- The text of a comment is on one line. -/
theorem ecommentText_plain {l t : Text} (hplain : '\n' ∉ l) (h : ecommentText (ended l) = .ok t) :
    '\n' ∉ t := by
  intro hmem
  unfold ecommentText readString at h
  split at h
  · split at h
    · next s hs =>
        cases h
        -- Every character of the text stands in front of the line end.
        cases hline : (skipBlanks (ended l)).drop 26 with
        | nil =>
            rw [hline] at hs
            cases hs
        | cons c u =>
            rw [hline] at hs
            have hu := mem_of_undoubled hs '\n' hmem
            have hsuffix : c :: u <:+ ended l := by
              rw [← hline]
              exact (List.drop_suffix _ _).trans (List.dropWhile_suffix _)
            rcases hsuffix with ⟨v, hv⟩
            have hne : c :: u ≠ [] := List.cons_ne_nil _ _
            have hlast := congrArg List.dropLast hv
            rw [List.dropLast_append_of_ne_nil hne, ended, List.dropLast_concat] at hlast
            refine hplain ?_
            rw [← hlast]
            refine List.mem_append_right _ ?_
            cases u with
            | nil => cases hu
            | cons d u =>
                rw [List.dropLast_cons_of_ne_nil (List.cons_ne_nil _ _)]
                exact List.mem_cons_of_mem _ hu
    · cases h
  · cases h

end Written

section After

variable (namelist : List NameCell)

/-- A control character. -/
def control (c : Char) : Bool := c.toNat < 32

/-- What the pass takes for the end of a line. -/
def dropped (c : Char) : Bool := c.toNat < 32 || 128 ≤ c.toNat

/-- The second pass keeps the lines that are no directives, unless they are read for one that
    waits for a call: each of them is written in its place, where a line starts, without the
    control characters at its end, and a line end follows. -/
def KeptAfter (src : Source) : Prop :=
  ∃ out, postunparse_f namelist src.text = .ok out ∧
    ∀ before l after, src.all = before ++ l :: after → ¬ IsDirective l →
      ∀ s, postunparse_lines namelist Passing.start (before.map ended) = .ok s → s.pending = none →
        ∃ s' rest, postunparse_line namelist s (ended l) = .ok s' ∧
          s'.written = s.broken ++ l.rdropWhile control ∧ out = s'.written ++ '\n' :: rest ∧
            Complete s.broken

/-- The files whose lines the second pass keeps. -/
structure KeepsAfter (src : Source) : Prop where
  goes : ∀ before l after, src.lines = before ++ l :: after →
    ∀ s, postunparse_lines namelist Passing.start (before.map ended) = .ok s →
      IsDirective l ∨ s.pending ≠ none → Goes (postunparse_line namelist s (ended l))
  finish : ∀ s, postunparse_lines namelist Passing.start (src.lines.map ended) = .ok s →
    s.pending ≠ none → Goes (s.finish src.last)
  long : ∀ before l after, src.lines = before ++ l :: after → ¬ IsDirective l →
    ∀ s, postunparse_lines namelist Passing.start (before.map ended) = .ok s → s.pending = none →
      (l.rdropWhile dropped).length ≠ 1 ∧ l.rdropWhile dropped = l.rdropWhile control
  comment : ∀ before l e after, src.lines = before ++ l :: e :: after → ¬ IsDirective l →
    ∀ s, postunparse_lines namelist Passing.start (before.map ended) = .ok s → s.pending = none →
      IsEcomment (ended e) → ecommentText (ended e) = .ok []
  last : ∀ s, postunparse_lines namelist Passing.start (src.lines.map ended) = .ok s →
    s.pending = none → src.last = [] ∨ IsDirective src.last

theorem postunparse_f_eq (src : Source) (out : Text) :
    postunparse_f namelist src.text = .ok out ↔
      ∃ s, postunparse_lines namelist Passing.start (src.lines.map ended) = .ok s ∧
        s.finish src.last = .ok out := by
  rw [postunparse_f, fgetsLines_lines]
  exact bind_eq_ok_iff _ _ _

theorem postunparse_lines_append_iff (s s' : Passing) (ls ms : List Text) :
    postunparse_lines namelist s (ls ++ ms) = .ok s' ↔
      ∃ s1, postunparse_lines namelist s ls = .ok s1 ∧
        postunparse_lines namelist s1 ms = .ok s' := by
  rw [postunparse_lines, List.foldlM_append]
  exact bind_eq_ok_iff _ _ _

theorem postunparse_lines_cons_iff (s s' : Passing) (l : Text) (ls : List Text) :
    postunparse_lines namelist s (l :: ls) = .ok s' ↔
      ∃ s1, postunparse_line namelist s l = .ok s1 ∧ postunparse_lines namelist s1 ls = .ok s' := by
  rw [postunparse_lines, List.foldlM_cons]
  exact bind_eq_ok_iff _ _ _

theorem keptText_ended (l : Text) :
    keptText (ended l) = if (l.rdropWhile dropped).length ≤ 1 then [] else l.rdropWhile
      dropped := by
  have hdrop : (ended l).rdropWhile dropped = l.rdropWhile dropped := by
    rw [ended, List.rdropWhile_concat_pos dropped l '\n' (by decide)]
  rw [← hdrop]
  rfl

theorem rdropWhile_control (l : Text) : (l.rdropWhile control).rdropWhile dropped =
    l.rdropWhile dropped := by
  induction l using List.reverseRecOn with
  | nil => rfl
  | append_singleton l c ih =>
      by_cases hc : control c = true
      · have hd : dropped c = true := by
          unfold control at hc
          unfold dropped
          rw [hc, Bool.true_or]
        rw [List.rdropWhile_concat_pos _ _ _ hc, List.rdropWhile_concat_pos _ _ _ hd, ih]
      · rw [List.rdropWhile_concat_neg _ _ _ hc]

/-- A line that is long enough is kept without the control characters at its end. -/
theorem keptText_eq_iff (l : Text) : keptText (ended l) = l.rdropWhile control ↔
    (l.rdropWhile dropped).length ≠ 1 ∧ l.rdropWhile dropped = l.rdropWhile control := by
  rw [keptText_ended]
  by_cases hshort : (l.rdropWhile dropped).length ≤ 1
  · rw [if_pos hshort]
    constructor
    · intro h
      have hnil : l.rdropWhile dropped = [] := by
        rw [← rdropWhile_control, ← h]
        rfl
      rw [hnil]
      exact ⟨by decide, h⟩
    · intro h
      have hnil : l.rdropWhile dropped = [] := by
        rw [← List.length_eq_zero_iff]
        omega
      rw [← h.2, hnil]
  · rw [if_neg hshort]
    exact ⟨fun h => ⟨by omega, h⟩, fun h => h.2⟩

/-- What follows the text of a line: a line end, unless it is a comment that belongs to the
    end of the line. -/
theorem follows_iff {s s' : Passing} {after : List Text} {last out : Text}
    (hunbreak : s.unbreak = true)
    (hpending : s.pending = none) (hplain : ∀ l ∈ after, '\n' ∉ l)
    (h : postunparse_lines namelist s (after.map ended) = .ok s')
      (hout : s'.finish last = .ok out) :
    (∃ rest, out = s.written ++ '\n' :: rest) ↔
      ∀ e after', after = e :: after' → IsEcomment (ended e) → ecommentText (ended e) = .ok [] := by
  have hbroken : s.broken = s.written ++ ['\n'] := by
    rw [Passing.broken, hunbreak, if_pos rfl]
  cases after with
  | nil =>
      cases h
      rw [Passing.finish, hpending] at hout
      cases hout
      exact ⟨fun _ e after' he => absurd he (by simp), fun _ => ⟨[], hbroken⟩⟩
  | cons e after =>
      rw [List.map_cons] at h
      rcases (postunparse_lines_cons_iff _ _ _ _ _).mp h with ⟨s1, hs1, hrest⟩
      rcases written_finish namelist hrest hout with ⟨x, hx⟩
      have hline := (written_line namelist hs1).2 hpending
      -- A comment that belongs to the end of the line stands where the break would.
      by_cases hcomment : IsEcomment (ended e)
      · rcases hline.1 hcomment with ⟨t, ht, hwritten⟩
        rw [hwritten, List.append_assoc, List.append_assoc, List.singleton_append] at hx
        constructor
        · intro hfollow e' after' he _
          rcases hfollow with ⟨rest, hrest'⟩
          cases he
          rw [hrest'] at hx
          have htext := List.append_cancel_left hx
          cases t with
          | nil => exact ht
          | cons c t =>
              rw [List.cons_append, List.cons.injEq] at htext
              refine absurd ?_ (ecommentText_plain (hplain e List.mem_cons_self) ht)
              rw [← htext.1]
              exact List.mem_cons_self
        · intro hall
          rw [hall e after rfl hcomment] at ht
          cases ht
          exact ⟨x, hx⟩
      · rcases hline.2 hcomment with ⟨y, hy⟩
        rw [hy, hbroken, List.append_assoc, List.append_assoc, List.singleton_append] at hx
        refine ⟨fun _ e' after' he hyes => ?_, fun _ => ⟨_, hx⟩⟩
        cases he
        exact absurd hyes hcomment

/-- Where no line stops the pass, it reaches every line. -/
theorem goes_lines {ls : List Text} (h : ∀ before l after, ls = before ++ l :: after →
    ∀ s, postunparse_lines namelist Passing.start (before.map ended) = .ok s →
      Goes (postunparse_line namelist s (ended l))) (before after : List Text)
    (hls : ls = before ++ after) :
    Goes (postunparse_lines namelist Passing.start (before.map ended)) := by
  induction before using List.reverseRecOn generalizing after with
  | nil => exact ⟨Passing.start, rfl⟩
  | append_singleton before l ih =>
      rw [List.append_assoc, List.singleton_append] at hls
      rcases ih (l :: after) hls with ⟨s, hs⟩
      rcases h before l after hls s hs with ⟨s', hs'⟩
      refine ⟨s', ?_⟩
      rw [List.map_append, List.map_singleton, postunparse_lines_append_iff]
      exact ⟨s, hs, (postunparse_lines_cons_iff _ _ _ _ _).mpr ⟨s', hs', rfl⟩⟩

/-- The lines are kept for these files only. -/
theorem keptAfter_iff (src : Source) : KeptAfter namelist src ↔ KeepsAfter namelist src := by
  constructor
  · intro h
    rcases h with ⟨out, hout, hkept⟩
    rcases (postunparse_f_eq _ _ _).mp hout with ⟨sEnd, hrun, hfinish⟩
    have hall : ∀ before l after, src.lines = before ++ l :: after →
        src.all = before ++ l :: (after ++ if src.last = [] then [] else [src.last]) := by
      intro before l after hsplit
      rw [Source.all, hsplit, List.append_assoc, List.cons_append]
    -- The run goes through every line.
    have hthrough : ∀ before l after, src.lines = before ++ l :: after →
        ∀ s, postunparse_lines namelist Passing.start (before.map ended) = .ok s →
          ∃ s', postunparse_line namelist s (ended l) = .ok s' ∧
            postunparse_lines namelist s' (after.map ended) = .ok sEnd := by
      intro before l after hsplit s hs
      rw [hsplit, List.map_append, List.map_cons, postunparse_lines_append_iff] at hrun
      rcases hrun with ⟨s1, hs1, hrest⟩
      rw [hs, Except.ok.injEq] at hs1
      rw [← hs1] at hrest
      exact (postunparse_lines_cons_iff _ _ _ _ _).mp hrest
    constructor
    case goes =>
      intro before l after hsplit s hs _
      rcases hthrough before l after hsplit s hs with ⟨s', hs', _⟩
      exact ⟨s', hs'⟩
    case finish =>
      intro s hs _
      rw [hrun, Except.ok.injEq] at hs
      rw [← hs]
      exact ⟨out, hfinish⟩
    case long =>
      intro before l after hsplit hplain s hs hpending
      rcases hkept _ _ _ (hall before l after hsplit) hplain s hs hpending with
        ⟨s', rest, hs', hwritten, _, _⟩
      rw [postunparse_line_plain namelist hpending hplain, Except.ok.injEq] at hs'
      rw [← hs'] at hwritten
      exact (keptText_eq_iff l).mp (List.append_cancel_left hwritten)
    case comment =>
      intro before l e after hsplit hplain s hs hpending
      rcases hkept _ _ _ (hall before l (e :: after) hsplit) hplain s hs hpending with
        ⟨s', rest, hs', _, hrest, _⟩
      rcases hthrough before l (e :: after) hsplit s hs with ⟨s1, hs1, hafter⟩
      rw [hs', Except.ok.injEq] at hs1
      rw [← hs1] at hafter
      rw [postunparse_line_plain namelist hpending hplain, Except.ok.injEq] at hs'
      have hlines : ∀ k ∈ e :: after, '\n' ∉ k := by
        intro k hk
        refine src.plain k (List.mem_cons_of_mem _ ?_)
        rw [hsplit]
        exact List.mem_append_right _ (List.mem_cons_of_mem _ hk)
      refine (follows_iff namelist (s := s') ?_ ?_ hlines hafter hfinish).mp ⟨rest, hrest⟩ e
        after rfl
      · rw [← hs']
      · rw [← hs']
    case last =>
      intro s hs hpending
      by_contra hlast
      rw [not_or] at hlast
      have hlines : src.all = src.lines ++ src.last :: [] := by
        rw [Source.all, if_neg hlast.1]
      rcases hkept _ _ _ hlines hlast.2 s hs hpending with ⟨s', rest, _, hwritten, hrest, _⟩
      rw [hrun, Except.ok.injEq] at hs
      rw [hs, Passing.finish, hpending] at hfinish
      cases hfinish
      have hlen := congrArg List.length hrest
      rw [hwritten] at hlen
      simp only [List.length_append, List.length_cons] at hlen
      omega
  · intro h
    have hgoes : ∀ before l after, src.lines = before ++ l :: after →
        ∀ s, postunparse_lines namelist Passing.start (before.map ended) = .ok s →
          Goes (postunparse_line namelist s (ended l)) := by
      intro before l after hsplit s hs
      by_cases hcase : IsDirective l ∨ s.pending ≠ none
      · exact h.goes before l after hsplit s hs hcase
      · rw [not_or, not_not] at hcase
        exact ⟨_, postunparse_line_plain namelist hcase.2 hcase.1⟩
    rcases goes_lines namelist hgoes src.lines [] (List.append_nil _).symm with ⟨sEnd, hrun⟩
    have hfinish : Goes (sEnd.finish src.last) := by
      by_cases hpending : sEnd.pending = none
      · rw [Passing.finish, hpending]
        exact ⟨_, rfl⟩
      · exact h.finish sEnd hrun hpending
    rcases hfinish with ⟨out, hout⟩
    refine ⟨out, (postunparse_f_eq _ _ _).mpr ⟨sEnd, hrun, hout⟩, ?_⟩
    intro before l after hall hplain s hs hpending
    have hsplit : ∃ after', src.lines = before ++ l :: after' := by
      rw [Source.all] at hall
      by_cases hnil : src.last = []
      · rw [if_pos hnil, List.append_nil] at hall
        exact ⟨after, hall⟩
      · rw [if_neg hnil] at hall
        rcases List.eq_nil_or_concat after with hafter | ⟨after', x, hafter⟩
        · rw [hafter] at hall
          have hboth := List.append_inj' hall rfl
          have hl := hboth.2
          rw [List.cons.injEq] at hl
          rw [← hl.1] at hplain
          rw [← hboth.1] at hs
          exact absurd ((h.last s hs hpending).resolve_left hnil) hplain
        · rw [hafter, List.concat_eq_append, ← List.cons_append, ← List.append_assoc] at hall
          exact ⟨after', (List.append_inj' hall rfl).1⟩
    rcases hsplit with ⟨after', hlines⟩
    have hline := postunparse_line_plain namelist hpending hplain
    have hrest : ∃ s1, postunparse_line namelist s (ended l) = .ok s1 ∧
        postunparse_lines namelist s1 (after'.map ended) = .ok sEnd := by
      rw [hlines, List.map_append, List.map_cons, postunparse_lines_append_iff] at hrun
      rcases hrun with ⟨s1, hs1, hrest⟩
      rw [hs, Except.ok.injEq] at hs1
      rw [← hs1] at hrest
      exact (postunparse_lines_cons_iff _ _ _ _ _).mp hrest
    rcases hrest with ⟨s1, hs1, hafter⟩
    have hs1' := hs1
    rw [hline, Except.ok.injEq] at hs1'
    have hplains : ∀ k ∈ after', '\n' ∉ k := by
      intro k hk
      refine src.plain k (List.mem_cons_of_mem _ ?_)
      rw [hlines]
      exact List.mem_append_right _ (List.mem_cons_of_mem _ hk)
    have hfollow := follows_iff namelist (s := s1) (by rw [← hs1']) (by rw [← hs1']) hplains
      hafter hout
    rcases hfollow.mpr (fun e after2 he => by
      rw [he] at hlines
      exact h.comment before l e after2 hlines hplain s hs hpending) with ⟨rest, hrest⟩
    refine ⟨s1, rest, hs1, ?_, hrest, (settled_lines namelist settled_start hs).complete hpending⟩
    rw [← hs1', (keptText_eq_iff l).mpr (h.long before l after' hlines hplain s hs hpending)]

end After

/-- A file with one line, and no line end behind it. -/
def unended : Source where
  lines := []
  last := "end".toList
  short := by decide
  plain := by decide

/-- A file with a line that is one character long. -/
def single : Source where
  lines := [['c']]
  last := []
  short := by decide
  plain := by decide

end XevXml.Tools.Passes
