import XevXml.Tools.Passes.After

/-!
# The Lines That Are Kept before the Front End

The first pass works on directives and should leave every other line alone, as a line of
its own and in its place. It writes such a line as it is, so a line is lost only when the
file ends without a line end behind it, and it is no longer a line of its own when the
directive in front of it has lost its line end. That happens to an extended directive with
nothing behind its name.

## Main definitions

* `KeptBefore`: The pass keeps the lines that are no directives.
* `KeepsBefore`: The files for which it does.

## Theorems

* `preparse_line_plain`: A line that is no directive is written as it is.
* `getLast_rewriteLine_iff`: When a directive keeps its line end.
* `keptBefore_iff`: The lines are kept for these files only.
-/

namespace XevXml.Tools.Passes

/-- A text is empty or ends a line. -/
def Complete (t : Text) : Prop := t = [] ∨ t.getLast? = some '\n'

/-- The tool does not stop. -/
def Goes {α : Type} (x : Run α) : Prop := ∃ a, x = .ok a

section Words

theorem skipBlanks_ended (l : Text) :
    skipBlanks (ended l) = [] ∧ skipBlanks l = [] ∨ skipBlanks (ended l) =
      ended (skipBlanks l) := by
  unfold skipBlanks ended
  rw [List.dropWhile_append]
  by_cases h : (l.dropWhile blank).isEmpty = true
  · rw [if_pos h]
    left
    exact ⟨by decide, List.isEmpty_iff.mp h⟩
  · rw [if_neg h]
    exact Or.inr rfl

/-- The end of a line is not part of its first word. -/
theorem firstWord_ended (l : Text) : firstWord (ended l) = firstWord l := by
  have hskip := skipBlanks_ended l
  unfold skipBlanks at hskip
  unfold firstWord
  rcases hskip with ⟨h, h'⟩ | h
  · rw [h, h']
  · have hblank : ([('\n' : Char)] : Text).takeWhile (fun c => !blank c) = [] := by decide
    rw [h, ended, List.takeWhile_append, hblank, List.append_nil]
    by_cases hall : ((l.dropWhile blank).takeWhile fun c => !blank c).length =
        (l.dropWhile blank).length
    · rw [if_pos hall, (List.takeWhile_prefix _).eq_of_length hall]
    · rw [if_neg hall]

theorem head_skipBlanks_ended (l : Text) (c : Char) (hc : blank c = false) :
    (skipBlanks (ended l)).head? = some c ↔ (skipBlanks l).head? = some c := by
  rcases skipBlanks_ended l with ⟨h, h'⟩ | h
  · rw [h, h']
  · rw [h, ended, List.head?_append]
    cases hl : (skipBlanks l).head? with
    | none =>
        have hne : '\n' ≠ c := by
          intro he
          rw [← he] at hc
          exact absurd hc (by decide)
        simp [hne]
    | some d => rfl

end Words

/-- All lines of a file, with the one that has no end. -/
def Source.all (src : Source) : List Text :=
  src.lines ++ if src.last = [] then [] else [src.last]

section Before

variable (namelist : List NameCell)

/-- A line that the first pass takes for a directive. -/
def IsPragma (l : Text) : Prop :=
  (skipBlanks l).head? = some '!' ∧ (xevparse_pragma_line namelist l).isSome

theorem isPragma_ended_iff (l : Text) : IsPragma namelist (ended l) ↔ IsPragma namelist l := by
  rw [IsPragma, IsPragma, xevparse_pragma_line, xevparse_pragma_line, firstWord_ended,
    head_skipBlanks_ended l '!' (by decide)]

/-- A line that is no directive is written as it is. -/
theorem preparse_line_plain {l : Text} (h : ¬ IsPragma namelist l) :
    preparse_line namelist (ended l) = .ok (ended l) := by
  rw [← isPragma_ended_iff] at h
  have hrewrite : rewriteLine namelist (ended l) = .ok (ended l) := by
    unfold rewriteLine
    by_cases hmark : (skipBlanks (ended l)).head? = some '!'
    · rw [if_pos hmark]
      cases hcell : xevparse_pragma_line namelist (ended l) with
      | none => rfl
      | some c => exact absurd ⟨hmark, by rw [hcell]; rfl⟩ h
    · rw [if_neg hmark]
  have hno : ¬ ((skipBlanks (ended l)).head? = some '!' ∧
      (xevparse_pragma_line namelist (ended l)).isSome) := h
  rw [preparse_line, hrewrite]
  simp only [bind, Except.bind]
  rw [if_neg hno]

theorem preparse_lines_cons_iff (l : Text) (ls : List Text) (t : Text) :
    preparse_lines namelist (l :: ls) = .ok t ↔
      ∃ a b, preparse_line namelist l = .ok a ∧ preparse_lines namelist ls = .ok b ∧
        t = a ++ b := by
  rw [preparse_lines, bind_eq_ok_iff]
  constructor
  · intro h
    rcases h with ⟨a, ha, h⟩
    rcases (bind_eq_ok_iff _ _ _).mp h with ⟨b, hb, h⟩
    cases h
    exact ⟨a, b, ha, hb, rfl⟩
  · intro h
    rcases h with ⟨a, b, ha, hb, rfl⟩
    exact ⟨a, ha, (bind_eq_ok_iff _ _ _).mpr ⟨b, hb, rfl⟩⟩

/-- What is written for lines is written for their parts. -/
theorem preparse_lines_append_iff (ls ms : List Text) (t : Text) :
    preparse_lines namelist (ls ++ ms) = .ok t ↔
      ∃ a b, preparse_lines namelist ls = .ok a ∧ preparse_lines namelist ms = .ok b ∧
        t = a ++ b := by
  induction ls generalizing t with
  | nil =>
      constructor
      · intro h
        exact ⟨[], t, rfl, h, rfl⟩
      · intro h
        rcases h with ⟨a, b, ha, hb, rfl⟩
        cases ha
        exact hb
  | cons l ls ih =>
      rw [List.cons_append, preparse_lines_cons_iff]
      constructor
      · intro h
        rcases h with ⟨a, b, ha, hb, rfl⟩
        rcases (ih b).mp hb with ⟨c, d, hc, hd, rfl⟩
        exact ⟨a ++ c, d, (preparse_lines_cons_iff _ _ _ _).mpr ⟨a, c, ha, hc, rfl⟩, hd,
          (List.append_assoc _ _ _).symm⟩
      · intro h
        rcases h with ⟨a, b, ha, hb, rfl⟩
        rcases (preparse_lines_cons_iff _ _ _ _).mp ha with ⟨c, d, hc, hd, rfl⟩
        exact ⟨c, d ++ b, hc, (ih _).mpr ⟨d, b, hd, hb, rfl⟩, List.append_assoc _ _ _⟩

/-- What stands behind the first word of a line. -/
def behindName (l : Text) : Text := l.drop ((l.takeWhile blank).length + (firstWord l).length)

/-- The end of a line is still there when the line has been worked on: nothing is lost
    unless an extended directive has nothing behind its name. A call that is written for a
    piece of code in the new name ends the line as well. -/
def KeepsEnd (l : Text) : Prop :=
  (skipBlanks l).head? = some '!' →
    ∀ rename, (xevparse_pragma_line namelist l).map NameCell.kind = some (.extend rename) →
      behindName l ≠ [] ∨ ((xevparse_matching_pragma namelist "!$xev".toList).isSome ∧
        (strchrF (rename ++ [' ']) '`').isSome)

/-- The calls for the pieces of code end their lines. -/
theorem extractFrom_ok {line s t : Text} {fuel : Nat} (h : extractFrom line fuel s = .ok t) :
    (strchrF s '`' = none ∧ t = []) ∨ ((strchrF s '`').isSome ∧ t.getLast? = some '\n') := by
  induction fuel generalizing s t with
  | zero => cases h
  | succ fuel ih =>
      rw [extractFrom] at h
      cases hp : strchrF s '`' with
      | none =>
          rw [hp] at h
          cases h
          exact Or.inl ⟨rfl, rfl⟩
      | some p =>
          rw [hp] at h
          dsimp only at h
          cases hq : strchrF p.tail '`' with
          | none =>
              rw [hq] at h
              cases h
          | some q =>
              rw [hq] at h
              rcases (bind_eq_ok_iff _ _ _).mp h with ⟨calls, hcalls, heq⟩
              cases heq
              refine Or.inr ⟨rfl, ?_⟩
              rcases ih hcalls with ⟨_, hnil⟩ | ⟨_, hlast⟩
              · rw [hnil, List.append_nil, List.getLast?_append]
                rfl
              · rw [List.getLast?_append, hlast]
                rfl

theorem strchrF_cons {c d : Char} (hc : d ≠ c) (hquote : d ≠ '\'' ∧ d ≠ '"') (s : Text) :
    strchrF (d :: s) c = strchrF s c := by
  have hno : ¬ (d = '\'' ∨ d = '"') := fun h => h.elim hquote.1 hquote.2
  rw [strchrF, List.length_cons, strchrFrom, if_neg hc, if_neg hno]
  rfl

/-- What holds neither quotes nor the character is passed over. -/
theorem strchrF_skip {c : Char} (t s : Text) (h : ∀ d ∈ t, d ≠ c ∧ d ≠ '\'' ∧ d ≠ '"') :
    strchrF (t ++ s) c = strchrF s c := by
  induction t with
  | nil => rfl
  | cons d t ih =>
      rw [List.forall_mem_cons] at h
      rw [List.cons_append, strchrF_cons h.1.1 h.1.2, ih h.2]

/-- How a line is ended that has been written: by its own end or by a call. -/
theorem getLast_preparse_line {l t : Text} (h : preparse_line namelist l = .ok t) :
    ∃ line, rewriteLine namelist l = .ok line ∧ (t.getLast? = some '\n' ↔
      line.getLast? = some '\n' ∨ (IsPragma namelist line ∧ (strchrF line '`').isSome)) := by
  rw [preparse_line] at h
  rcases (bind_eq_ok_iff _ _ _).mp h with ⟨line, hline, h'⟩
  refine ⟨line, hline, ?_⟩
  by_cases hpragma : IsPragma namelist line
  · have hp : (skipBlanks line).head? = some '!' ∧ (xevparse_pragma_line namelist line).isSome :=
      hpragma
    rw [if_pos hp] at h'
    rcases (bind_eq_ok_iff _ _ _).mp h' with ⟨calls, hcalls, heq⟩
    cases heq
    rcases extractFrom_ok hcalls with ⟨hnone, hnil⟩ | ⟨hsome, hlast⟩
    · rw [hnil, List.append_nil, hnone]
      simp
    · rw [List.getLast?_append, hlast]
      simp [hpragma, hsome]
  · have hp : ¬ ((skipBlanks line).head? = some '!' ∧
        (xevparse_pragma_line namelist line).isSome) := hpragma
    rw [if_neg hp] at h'
    cases h'
    simp [hpragma]

theorem takeWhile_blank_ended {l : Text} (h : (skipBlanks l).head? = some '!') :
    (ended l).takeWhile blank = l.takeWhile blank := by
  rw [ended, List.takeWhile_append]
  by_cases hall : (l.takeWhile blank).length = l.length
  · have hnil : skipBlanks l = [] := by
      rw [skipBlanks, List.dropWhile_eq_nil_iff]
      exact List.takeWhile_eq_self_iff.mp ((List.takeWhile_prefix _).eq_of_length hall)
    rw [hnil] at h
    cases h
  · rw [if_neg hall]

theorem length_lead_le (l : Text) :
    (l.takeWhile blank).length + (firstWord l).length ≤ l.length := by
  have h := congrArg List.length (List.takeWhile_append_dropWhile (p := blank) (l := l))
  have hword := (List.takeWhile_prefix (p := fun c => !blank c) (l := l.dropWhile blank)).length_le
  rw [List.length_append] at h
  rw [firstWord]
  omega

theorem behindName_ended {l : Text} (h : (skipBlanks l).head? = some '!') :
    behindName (ended l) = ended (behindName l) := by
  rw [behindName, behindName, takeWhile_blank_ended h, firstWord_ended, ended, ended]
  exact List.drop_append_of_le_length (length_lead_le l)

theorem getLast_string_line {l line : Text} (h : string_line (ended l) = .ok line) :
    line.getLast? = some '\n' := by
  rw [string_line] at h
  by_cases hlong : XEV_LINE_SIZE ≤ (ended l).length + 23
  · rw [if_pos hlong] at h
    cases h
  · rw [if_neg hlong] at h
    cases h
    have hdrop : (ended l).rdropWhile blank = l.rdropWhile blank := by
      rw [ended, List.rdropWhile_concat_pos blank l '\n' (by decide)]
    have hle : (l.rdropWhile blank).length ≤ l.length := (List.rdropWhile_prefix blank l).length_le
    rw [hdrop, ended, List.drop_append_of_le_length hle, ← List.append_assoc, List.getLast?_append]
    rfl

/-- The line that an extended directive becomes. -/
theorem extend_line_ok {rename l line : Text} (h : extend_line rename l = .ok line) :
    ∃ c rest lead, behindName l = c :: rest ∧ (∀ d ∈ lead, blank d = true) ∧
      line = lead ++ "!$xev ".toList ++ (rename ++ ' ' :: rest) := by
  unfold extend_line at h
  dsimp only at h
  split at h
  · cases h
  · next c rest heq =>
      by_cases hlong : XEV_LINE_SIZE ≤ l.length + (6 + rename.length - (firstWord l).length)
      · rw [if_pos hlong] at h
        cases h
      · rw [if_neg hlong] at h
        cases h
        refine ⟨c, rest, _, heq, ?_, List.append_assoc _ _ _⟩
        intro d hd
        rcases List.mem_append.mp hd with hd | hd
        · exact List.mem_takeWhile_imp hd
        · rw [List.eq_of_mem_replicate hd]
          decide

/-- The new name is the first word of a line, behind blanks. -/
theorem firstWord_renamed (lead rest : Text) (hlead : ∀ d ∈ lead, blank d = true) :
    firstWord (lead ++ "!$xev ".toList ++ rest) = "!$xev".toList ∧
      (skipBlanks (lead ++ "!$xev ".toList ++ rest)).head? = some '!' := by
  have hskip : (lead ++ "!$xev ".toList ++ rest).dropWhile blank = "!$xev ".toList ++ rest := by
    rw [List.append_assoc, List.dropWhile_append_of_pos hlead]
    exact List.dropWhile_cons_of_neg (by decide)
  rw [firstWord, skipBlanks, hskip]
  exact ⟨rfl, rfl⟩

/-- A line ends with its own end or a call exactly when nothing is lost. -/
theorem getLast_rewriteLine_iff {l line : Text} (h : rewriteLine namelist (ended l) = .ok line) :
    (line.getLast? = some '\n' ∨ (IsPragma namelist line ∧ (strchrF line '`').isSome)) ↔
      KeepsEnd namelist l := by
  have hself : (ended l).getLast? = some '\n' := by
    rw [ended, List.getLast?_append]
    rfl
  unfold rewriteLine at h
  by_cases hmark : (skipBlanks l).head? = some '!'
  · have hmark' : (skipBlanks (ended l)).head? = some '!' :=
      (head_skipBlanks_ended l '!' (by decide)).mpr hmark
    rw [if_pos hmark'] at h
    have hcell : xevparse_pragma_line namelist (ended l) = xevparse_pragma_line namelist l := by
      rw [xevparse_pragma_line, firstWord_ended, xevparse_pragma_line]
    rw [hcell] at h
    -- Only a name that is extended has the rest of its line moved.
    cases hkind : (xevparse_pragma_line namelist l).map NameCell.kind with
    | none =>
        rw [hkind] at h
        cases h
        refine ⟨fun _ _ rename hrename => ?_, fun _ => Or.inl hself⟩
        rw [hkind] at hrename
        cases hrename
    | some kind =>
        rw [hkind] at h
        cases kind with
        | plain =>
            cases h
            refine ⟨fun _ _ rename hrename => ?_, fun _ => Or.inl hself⟩
            rw [hkind] at hrename
            cases hrename
        | string =>
            refine ⟨fun _ _ rename hrename => ?_, fun _ => Or.inl (getLast_string_line h)⟩
            rw [hkind] at hrename
            cases hrename
        | extend rename =>
            rcases extend_line_ok h with ⟨c, rest, lead, hbehind, hlead, hline⟩
            have hword := firstWord_renamed lead (rename ++ ' ' :: rest) hlead
            rw [← hline] at hword
            have hpragma : IsPragma namelist line ↔
                (xevparse_matching_pragma namelist "!$xev".toList).isSome := by
              rw [IsPragma, xevparse_pragma_line, hword.1]
              exact and_iff_right hword.2
            have hkeeps : KeepsEnd namelist l ↔ behindName l ≠ [] ∨
                ((xevparse_matching_pragma namelist "!$xev".toList).isSome ∧
                  (strchrF (rename ++ [' ']) '`').isSome) := by
              refine ⟨fun hk => hk hmark rename hkind, fun hk _ rename' hrename => ?_⟩
              rw [hkind, Option.some.injEq, Kind.extend.injEq] at hrename
              rw [← hrename]
              exact hk
            rw [behindName_ended hmark] at hbehind
            rw [hkeeps, hpragma]
            by_cases hnil : behindName l = []
            · -- The end of the line has become the blank behind the name.
              rw [hnil, ended, List.nil_append, List.cons.injEq] at hbehind
              have hline' : line = (lead ++ "!$xev ".toList) ++ (rename ++ [' ']) := by
                rw [hline, ← hbehind.2]
              have hlast : line.getLast? ≠ some '\n' := by
                rw [hline', ← List.append_assoc, List.getLast?_append, List.getLast?_singleton,
                  Option.some_or]
                decide
              have hmarks : ∀ d ∈ "!$xev ".toList, d ≠ '`' ∧ d ≠ '\'' ∧ d ≠ '"' := by decide
              have hskip : strchrF line '`' = strchrF (rename ++ [' ']) '`' := by
                rw [hline']
                refine strchrF_skip _ _ (fun d hd => ?_)
                rcases List.mem_append.mp hd with hd | hd
                · have hb := hlead d hd
                  refine ⟨?_, ?_, ?_⟩ <;> rintro rfl <;> exact absurd hb (by decide)
                · exact hmarks d hd
              rw [hskip, hnil]
              simp [hlast]
            · have hlast : line.getLast? = some '\n' := by
                cases hb : behindName l with
                | nil => exact absurd hb hnil
                | cons d r =>
                    rw [hb, ended, List.cons_append, List.cons.injEq] at hbehind
                    rw [hline, ← hbehind.2, ← List.cons_append, ← List.append_assoc,
                      ← List.append_assoc, List.getLast?_append]
                    rfl
              simp [hlast, hnil]
  · have hmark' : ¬ (skipBlanks (ended l)).head? = some '!' := fun hm =>
      hmark ((head_skipBlanks_ended l '!' (by decide)).mp hm)
    rw [if_neg hmark'] at h
    cases h
    exact ⟨fun _ hm => absurd hm hmark, fun _ => Or.inl hself⟩

/-- The first pass keeps the lines that are no directives: each of them is written in its
    place, behind what is written for the lines before it, where a line starts. -/
def KeptBefore (source : Text) (src : Source) : Prop :=
  ∃ body, preparse_f namelist source src.text = .ok (prologue source ++ body ++ epilogue) ∧
    ∀ before l after, src.all = before ++ l :: after → ¬ IsPragma namelist l →
      ∃ w w', body = w ++ (ended l ++ w') ∧
        preparse_lines namelist (before.map ended) = .ok w ∧ Complete w

/-- The files whose lines the first pass keeps. -/
structure KeepsBefore (src : Source) : Prop where
  goes : ∀ l ∈ src.lines, Goes (preparse_line namelist (ended l))
  ends : ∀ before p l after, src.lines = before ++ p :: l :: after → ¬ IsPragma namelist l →
    KeepsEnd namelist p
  last : src.last = [] ∨ IsPragma namelist src.last

theorem goes_preparse_lines_iff (ls : List Text) :
    Goes (preparse_lines namelist ls) ↔ ∀ l ∈ ls, Goes (preparse_line namelist l) := by
  induction ls with
  | nil => exact ⟨fun _ l hl => absurd hl List.not_mem_nil, fun _ => ⟨[], rfl⟩⟩
  | cons l ls ih =>
      rw [List.forall_mem_cons, ← ih]
      constructor
      · intro h
        rcases h with ⟨t, ht⟩
        rcases (preparse_lines_cons_iff _ _ _ _).mp ht with ⟨a, b, ha, hb, _⟩
        exact ⟨⟨a, ha⟩, ⟨b, hb⟩⟩
      · intro h
        rcases h with ⟨⟨a, ha⟩, ⟨b, hb⟩⟩
        exact ⟨a ++ b, (preparse_lines_cons_iff _ _ _ _).mpr ⟨a, b, ha, hb, rfl⟩⟩

theorem preparse_f_eq (source : Text) (src : Source) (t : Text) :
    preparse_f namelist source src.text = .ok t ↔
      ∃ body, preparse_lines namelist (src.lines.map ended) = .ok body ∧
        t = prologue source ++ body ++ epilogue := by
  rw [preparse_f, fgetsLines_lines, bind_eq_ok_iff]
  constructor
  · intro h
    rcases h with ⟨body, hbody, heq⟩
    cases heq
    exact ⟨body, hbody, rfl⟩
  · intro h
    rcases h with ⟨body, hbody, rfl⟩
    exact ⟨body, hbody, rfl⟩

theorem preparse_line_ne_nil {l t : Text} (h : preparse_line namelist (ended l) = .ok t) :
    t ≠ [] := by
  rw [preparse_line] at h
  rcases (bind_eq_ok_iff _ _ _).mp h with ⟨line, hline, h'⟩
  have hne : line ≠ [] := by
    have hself : ended l ≠ [] := by simp [ended]
    unfold rewriteLine at hline
    split at hline
    · split at hline
      · rw [string_line] at hline
        split at hline
        · cases hline
        · cases hline
          exact List.cons_ne_nil _ _
      · rcases extend_line_ok hline with ⟨c, rest, lead, _, _, heq⟩
        rw [heq]
        simp
      · cases hline
        exact hself
    · cases hline
      exact hself
  split at h'
  · rcases (bind_eq_ok_iff _ _ _).mp h' with ⟨calls, _, heq⟩
    cases heq
    simp [hne]
  · cases h'
    exact hne

/-- What is written for lines is complete when the last of them keeps its end. -/
theorem complete_preparse_iff {before : List Text} {p w : Text}
    (h : preparse_lines namelist ((before ++ [p]).map ended) = .ok w) :
    Complete w ↔ KeepsEnd namelist p := by
  rw [List.map_append, List.map_singleton] at h
  rcases (preparse_lines_append_iff _ _ _ _).mp h with ⟨a, b, _, hb, rfl⟩
  rcases (preparse_lines_cons_iff _ _ _ _).mp hb with ⟨c, d, hc, hd, rfl⟩
  cases hd
  rw [List.append_nil]
  have hne := preparse_line_ne_nil namelist hc
  rcases getLast_preparse_line namelist hc with ⟨line, hline, hlast⟩
  rw [← getLast_rewriteLine_iff namelist hline, ← hlast, Complete,
    List.getLast?_append_of_ne_nil a hne]
  constructor
  · intro hor
    rcases hor with hnil | hl
    · exact absurd (List.append_eq_nil_iff.mp hnil).2 hne
    · exact hl
  · exact Or.inr

/-- The lines are kept for these files only. -/
theorem keptBefore_iff (source : Text) (src : Source) :
    KeptBefore namelist source src ↔ KeepsBefore namelist src := by
  constructor
  · intro h
    rcases h with ⟨body, hout, hkept⟩
    rcases (preparse_f_eq _ _ _ _).mp hout with ⟨body', hlines, heq⟩
    have hbody : body = body' :=
      List.append_cancel_left (List.append_cancel_right heq)
    have hgoes := (goes_preparse_lines_iff namelist _).mp ⟨body', hlines⟩
    refine ⟨fun l hl => hgoes _ (List.mem_map_of_mem hl), ?_, ?_⟩
    · intro before p l after hsplit hplain
      have hall : src.all = (before ++ [p]) ++ l ::
        (after ++ if src.last = [] then [] else [src.last]) := by
        rw [Source.all, hsplit]
        simp only [List.append_assoc, List.cons_append, List.nil_append]
      rcases hkept _ l _ hall hplain with ⟨w, w', _, hw, hcomplete⟩
      exact (complete_preparse_iff namelist hw).mp hcomplete
    · by_contra hlast
      rw [not_or] at hlast
      have hall : src.all = src.lines ++ src.last :: [] := by
        rw [Source.all, if_neg hlast.1]
      rcases hkept _ _ _ hall hlast.2 with ⟨w, w', hsplit, hw, _⟩
      -- Nothing is written behind what the complete lines give.
      rw [hlines, Except.ok.injEq] at hw
      rw [hbody, hw] at hsplit
      have hlen := congrArg List.length hsplit
      simp only [List.length_append, ended, List.length_cons] at hlen
      omega
  · intro h
    have hgoes : Goes (preparse_lines namelist (src.lines.map ended)) := by
      rw [goes_preparse_lines_iff]
      intro k hk
      rcases List.mem_map.mp hk with ⟨l, hl, rfl⟩
      exact h.goes l hl
    rcases hgoes with ⟨body, hbody⟩
    refine ⟨body, (preparse_f_eq _ _ _ _).mpr ⟨body, hbody, rfl⟩, ?_⟩
    intro before l after hall hplain
    have hsplit : ∃ after', src.lines = before ++ l :: after' := by
      rw [Source.all] at hall
      by_cases hnil : src.last = []
      · rw [if_pos hnil, List.append_nil] at hall
        exact ⟨after, hall⟩
      · rw [if_neg hnil] at hall
        rcases List.eq_nil_or_concat after with hafter | ⟨after', x, hafter⟩
        · rw [hafter] at hall
          have hl := (List.append_inj' hall rfl).2
          rw [List.cons.injEq] at hl
          rw [← hl.1] at hplain
          exact absurd (h.last.resolve_left hnil) hplain
        · rw [hafter, List.concat_eq_append, ← List.cons_append, ← List.append_assoc] at hall
          exact ⟨after', (List.append_inj' hall rfl).1⟩
    rcases hsplit with ⟨after', hlines⟩
    rw [hlines, List.map_append, List.map_cons] at hbody
    rcases (preparse_lines_append_iff _ _ _ _).mp hbody with ⟨w, b, hw, hb, rfl⟩
    rcases (preparse_lines_cons_iff _ _ _ _).mp hb with ⟨c, w', hc, _, rfl⟩
    rw [preparse_line_plain namelist hplain] at hc
    cases hc
    refine ⟨w, w', rfl, hw, ?_⟩
    rcases List.eq_nil_or_concat before with hbefore | ⟨before', p, hbefore⟩
    · rw [hbefore] at hw
      cases hw
      exact Or.inl rfl
    · rw [List.concat_eq_append] at hbefore
      rw [hbefore] at hw
      refine (complete_preparse_iff namelist hw).mpr (h.ends before' p l after' ?_ hplain)
      rw [hlines, hbefore, List.append_assoc, List.singleton_append]

end Before

end XevXml.Tools.Passes
