import XevXml.Ast.Preproc

/-!
# Accesses to the Lines of a Directive

The recursion over the lines of a directive reads characters of a line and takes
suffixes of it at fixed positions. A position behind the end of a string is an
error, and so is the largest number, which the search for the last visible
character returns if there is none. The comparison with zero that should find
this out is made with an unsigned number and is never true.

The first line of a directive begins with its sentinel, and so do the lines that
are no continued lines. For them nothing can go wrong. A continued line is cut
behind the mark in its sixth column. In free form that place is counted from the
sentinel on, so there may be nothing left if the sentinel stands behind other
characters. What is left is searched from its second character on, so there has
to be a visible one behind the first, in front of a comment. In fixed form the
position is not used, but a line without a visible character is treated like any
other one. It is taken for a continued line in free form if it is a comment from
its first character on and the comment ends with an ampersand.

## Main definitions

* `Access`, `Access.Within`: An access to a string, and when it is inside of it.
* `accesses`: The accesses for a line.
* `LineSafe`: All of them are inside, and an empty line does not go on.
* `Roomy`: The text of a continued line that is long enough.

## Theorems

* `cutAccesses_within_iff`, `accesses_within_iff`: When there is a result.
* `lineSafe_iff`: The accesses of a line are inside if the line is long enough.
* `findBefore_isSome`: A search among such lines comes to an end.
* `findContinuedDirective_safe_iff`: Both for a line and for a search.
-/

namespace XevXml.Preproc

open Numeral (isSpace)

section Accesses

/-- An access to a string: to the character at a position, which may not be there, or to the
    rest of the string from a position on. -/
inductive Access
  | index (pos : Option Nat) (str : Text)
  | substr (pos : Nat) (str : Text)
deriving DecidableEq, Repr

/-- The access is inside of the string. A suffix may begin at the end. -/
def Access.Within : Access → Prop
  | .index pos str => ∃ i, pos = some i ∧ i < str.length
  | .substr pos str => pos ≤ str.length

/-- The accesses of the loop over the characters of a string from position `i` on. -/
def scanAccesses (str : Text) : Nat → Text → List Access
  | _, [] => []
  | i, c :: rest =>
      .index (some i) str :: if c = '!' then [.substr i str] else scanAccesses str (i + 1) rest

/-- The accesses behind the first part of the function: the search for the last visible
    character, and what is done in free form with the position it returns. -/
def cutAccesses (isFixed : Bool) (ret : Text) : List Access :=
  scanAccesses ret 1 ret.tail ++
    match lastVisibleCharPos ret with
    | (last, kept, _) =>
        if isFixed then []
        else .index last kept ::
          if (last.bind fun i => kept[i]?) = some '&' then [.index last kept, .substr 0 kept]
          else []

/-- The accesses for a line. Behind a suffix that does not exist nothing is done. -/
def accesses (isFixed cont : Bool) (line : Text) : List Access :=
  match directivePos isFixed line with
  | none => []
  | some dirpos =>
      if cont = false then .substr dirpos line :: cutAccesses isFixed (line.drop dirpos)
      else
        (if 5 < line.length then [.index (some 5) line] else []) ++
          if isMarked isFixed line then
            [.substr dirpos line, .substr 6 (line.drop dirpos)] ++
              if 6 ≤ (line.drop dirpos).length then
                cutAccesses isFixed ((line.drop dirpos).drop 6)
              else []
          else []

/-- All accesses for a line are inside of its strings, and a line that continues another one
    without any visible character in front of a comment does not go on itself. The first line
    of a directive has its sentinel. -/
def LineSafe (isFixed cont : Bool) (line : Text) : Prop :=
  (∀ a ∈ accesses isFixed cont line, a.Within) ∧
    ∀ ret more kept cmt, front isFixed cont line = some (.text ret) → cont = true →
      seenBehind ret = [] → cut isFixed ret = some (more, kept, cmt) → more = false

/-- A continued line, from its sentinel on, has something visible in front of a comment: in
    fixed form behind the mark, in free form behind the character that follows the mark. If
    that character begins a comment the visible text behind it does not end with an
    ampersand. -/
def Roomy (isFixed : Bool) (str : Text) : Prop :=
  if isFixed then seenBehind (str.drop 6) ≠ []
  else seenBehind (str.drop 7) ≠ [] ∧
    (str[6]? = some '!' → (seenBehind (str.drop 7)).getLast? ≠ some '&')

/-- If the line is looked at as a continued line, and is one, it is long enough. -/
def Tolerated (isFixed cont : Bool) (line : Text) : Prop :=
  cont = true → isMarked isFixed line = true →
    ∀ dirpos, directivePos isFixed line = some dirpos → Roomy isFixed (line.drop dirpos)

end Accesses

section Lines

/-- The loop over the characters stays inside of the string. -/
theorem scanAccesses_within (str : Text) (i : Nat) (rest : Text)
    (h : str.length = i + rest.length) : ∀ a ∈ scanAccesses str i rest, a.Within := by
  induction rest generalizing i with
  | nil =>
      intro a ha
      exact nomatch ha
  | cons c rest ih =>
      rw [List.length_cons] at h
      unfold scanAccesses
      rw [List.forall_mem_cons]
      refine ⟨⟨i, rfl, by omega⟩, ?_⟩
      by_cases hc : c = '!'
      · rw [if_pos hc, List.forall_mem_singleton]
        change i ≤ str.length
        omega
      · rw [if_neg hc]
        exact ih (i + 1) (by omega)

/-- In the second part all accesses are inside exactly if there is a result. -/
theorem cutAccesses_within_iff (isFixed : Bool) (ret : Text) :
    (∀ a ∈ cutAccesses isFixed ret, a.Within) ↔ ∃ r, cut isFixed ret = some r := by
  cases ret with
  | nil =>
      cases isFixed with
      | true => simp [cutAccesses, scanAccesses, lastVisibleCharPos, cut]
      | false => simp [cutAccesses, scanAccesses, lastVisibleCharPos, cut, Access.Within]
  | cons c t =>
      have hscan := scanAccesses_within (c :: t) 1 t (by rw [List.length_cons, Nat.add_comm])
      unfold cutAccesses
      rw [List.forall_mem_append, List.tail_cons, lastVisibleCharPos_cons]
      cases isFixed with
      | true =>
          rw [cut_fixed_cons]
          exact ⟨fun _ => ⟨_, rfl⟩, fun _ => ⟨hscan, List.forall_mem_nil _⟩⟩
      | false =>
          rw [cut_free_cons]
          by_cases hseen : seenBehind t = []
          · simp [hseen, Access.Within]
          · -- The position of the last visible character is one of the string that is kept.
            have hlen : (seenBehind t).length < (c :: t.takeWhile fun c => c ≠ '!').length := by
              rcases seenBehind_append t with ⟨spaces, hsplit⟩
              rw [hsplit, List.length_cons, List.length_append]
              omega
            have hindex : (Access.index (some (seenBehind t).length)
                (c :: t.takeWhile fun c => c ≠ '!')).Within := ⟨_, rfl, hlen⟩
            have hzero : (Access.substr 0 (c :: t.takeWhile fun c => c ≠ '!')).Within :=
              Nat.zero_le _
            simp only [if_neg hseen, Bool.false_eq_true, if_false]
            constructor
            · intro _
              split_ifs
              · exact ⟨_, rfl⟩
              · exact ⟨_, rfl⟩
            · intro _
              refine ⟨hscan, ?_⟩
              rw [List.forall_mem_cons]
              refine ⟨hindex, ?_⟩
              split_ifs
              · rw [List.forall_mem_cons, List.forall_mem_singleton]
                exact ⟨hindex, hzero⟩
              · exact List.forall_mem_nil _

/-- The sentinel begins inside of the line. -/
theorem directivePos_le {isFixed : Bool} {line : Text} {d : Nat}
    (h : directivePos isFixed line = some d) : d ≤ line.length := by
  rcases sentinel_of_directivePos h with ⟨c, w, hline, hlen, -⟩
  by_contra hlt
  rw [List.drop_eq_nil_of_le (by omega)] at hline
  exact nomatch hline

/-- The accesses for a line are inside exactly if both parts have a result. -/
theorem accesses_within_iff (isFixed cont : Bool) (line : Text) :
    (∀ a ∈ accesses isFixed cont line, a.Within) ↔
      ∃ f, front isFixed cont line = some f ∧
        ∀ ret, f = .text ret → ∃ r, cut isFixed ret = some r := by
  unfold accesses front
  cases hdir : directivePos isFixed line with
  | none => simp
  | some d =>
      have hle := directivePos_le hdir
      have hsubstr : (Access.substr d line).Within := hle
      simp only
      by_cases hcont : cont = false
      · rw [if_pos hcont, if_pos hcont, List.forall_mem_cons, cutAccesses_within_iff]
        constructor
        · rintro ⟨-, hcut⟩
          refine ⟨_, rfl, ?_⟩
          intro ret hret
          cases hret
          exact hcut
        · rintro ⟨f, hf, hcut⟩
          cases hf
          exact ⟨hsubstr, hcut _ rfl⟩
      · rw [if_neg hcont, if_neg hcont, List.forall_mem_append]
        have hmarkAccess : ∀ a ∈ if 5 < line.length then [Access.index (some 5) line] else [],
            a.Within := by
          intro a ha
          by_cases hlen : 5 < line.length
          · rw [if_pos hlen, List.mem_singleton] at ha
            rw [ha]
            exact ⟨5, rfl, hlen⟩
          · rw [if_neg hlen] at ha
            exact nomatch ha
        by_cases hmark : isMarked isFixed line = true
        · rw [if_pos hmark, if_pos hmark, List.cons_append, List.cons_append, List.nil_append,
            List.forall_mem_cons, List.forall_mem_cons]
          unfold substr
          -- The directive may stand so late that fewer than six characters are left.
          by_cases hlen : 6 ≤ (line.drop d).length
          · rw [if_pos hlen, if_pos hlen, cutAccesses_within_iff, Option.map_some]
            constructor
            · rintro ⟨-, -, -, hcut⟩
              refine ⟨_, rfl, ?_⟩
              intro ret hret
              cases hret
              exact hcut
            · rintro ⟨f, hf, hcut⟩
              cases hf
              exact ⟨hmarkAccess, hsubstr, hlen, hcut _ rfl⟩
          · rw [if_neg hlen, if_neg hlen, Option.map_none]
            constructor
            · rintro ⟨-, -, hsix, -⟩
              exact absurd hsix hlen
            · rintro ⟨f, hf, -⟩
              exact nomatch hf
        · rw [if_neg hmark, if_neg hmark]
          constructor
          · intro _
            refine ⟨_, rfl, ?_⟩
            intro ret hret
            split_ifs at hret
          · intro _
            exact ⟨hmarkAccess, List.forall_mem_nil _⟩

/-- A marked line is cut behind its sixth character. -/
theorem front_marked {isFixed : Bool} {line : Text} {d : Nat}
    (hdir : directivePos isFixed line = some d) (hmark : isMarked isFixed line = true) :
    front isFixed true line = (substr 6 (line.drop d)).map .text := by
  rw [front, hdir]
  simp only [Bool.true_eq_false, if_false, hmark, if_true]

/-- The mark is the sixth character of its line. -/
theorem length_of_isMarked {isFixed : Bool} {line : Text} (h : isMarked isFixed line = true) :
    6 ≤ line.length := by
  unfold isMarked at h
  by_contra hlt
  rw [List.getElem?_eq_none (by omega)] at h
  exact nomatch h

/-- What is visible in front of a comment in a text with a first character. -/
theorem seenBehind_cons_eq_nil_iff (c : Char) (t : Text) :
    seenBehind (c :: t) = [] ↔ c = '!' ∨ isSpace c = true ∧ seenBehind t = [] := by
  unfold seenBehind
  by_cases hc : c = '!'
  · rw [List.takeWhile_cons_of_neg (by simpa using hc)]
    simp [hc]
  · rw [List.takeWhile_cons_of_pos (by simpa using hc)]
    simp only [List.rdropWhile_eq_nil_iff, List.forall_mem_cons, hc, false_or]

/-- In fixed form the text of a continued line is long enough exactly if something in it is
    visible, since the next line is looked for in any case. -/
theorem roomy_fixed_iff (str : Text) :
    Roomy true str ↔
      (∃ r, cut true (str.drop 6) = some r) ∧
        ∀ more kept cmt, seenBehind (str.drop 6) = [] →
          cut true (str.drop 6) = some (more, kept, cmt) → more = false := by
  have hcut : ∃ kept cmt, cut true (str.drop 6) = some (true, kept, cmt) := by
    cases str.drop 6 with
    | nil => exact ⟨[], [], rfl⟩
    | cons c t => exact ⟨_, _, cut_fixed_cons c t⟩
  rcases hcut with ⟨kept, cmt, hcut⟩
  unfold Roomy
  rw [if_pos rfl, hcut]
  constructor
  · intro h
    exact ⟨⟨_, rfl⟩, fun _ _ _ hseen => absurd hseen h⟩
  · rintro ⟨-, h⟩ hseen
    exact nomatch h true kept cmt hseen rfl

/-- In free form it is long enough exactly if there is a last visible character, and a text
    that begins with a comment does not go on. -/
theorem roomy_free_iff (str : Text) :
    Roomy false str ↔
      6 ≤ str.length ∧ (∃ r, cut false (str.drop 6) = some r) ∧
        ∀ more kept cmt, seenBehind (str.drop 6) = [] →
          cut false (str.drop 6) = some (more, kept, cmt) → more = false := by
  have htail : str.drop 7 = (str.drop 6).tail := by rw [List.tail_drop]
  have hhead : str[6]? = (str.drop 6).head? := by rw [List.head?_drop]
  unfold Roomy
  rw [if_neg Bool.false_ne_true, htail, hhead]
  cases ht : str.drop 6 with
  | nil =>
      have hnil : seenBehind [] = [] := rfl
      simp [hnil, cut, lastVisibleCharPos]
  | cons c t =>
      have hlen : 6 ≤ str.length := by
        by_contra hlt
        rw [List.drop_eq_nil_of_le (by omega)] at ht
        exact absurd ht.symm (List.cons_ne_nil c t)
      rw [List.tail_cons, List.head?_cons, cut_free_cons, seenBehind_cons_eq_nil_iff]
      by_cases hseen : seenBehind t = []
      · simp [hseen]
      · -- The line goes on if the last visible character is an ampersand.
        by_cases hamp : (seenBehind t).getLast? = some '&'
        · simp [hseen, hamp, hlen]
        · simp [hseen, hamp, hlen]

/-- In fixed form a directive begins with its sentinel. -/
theorem directivePos_fixed {line : Text} {d : Nat} (h : directivePos true line = some d) :
    d = 0 := by
  rw [directivePos, if_pos rfl] at h
  split_ifs at h
  exact (Option.some.inj h).symm

/-- A continued line is safe if and only if it is long enough. -/
theorem lineSafe_marked_iff {isFixed : Bool} {line : Text} {d : Nat}
    (hdir : directivePos isFixed line = some d) (hmark : isMarked isFixed line = true) :
    LineSafe isFixed true line ↔ Roomy isFixed (line.drop d) := by
  have hroomy : Roomy isFixed (line.drop d) ↔
      6 ≤ (line.drop d).length ∧ (∃ r, cut isFixed ((line.drop d).drop 6) = some r) ∧
        ∀ more kept cmt, seenBehind ((line.drop d).drop 6) = [] →
          cut isFixed ((line.drop d).drop 6) = some (more, kept, cmt) → more = false := by
    cases isFixed with
    | false => exact roomy_free_iff (line.drop d)
    | true =>
        rw [roomy_fixed_iff, directivePos_fixed hdir, List.drop_zero, iff_and_self]
        exact fun _ => length_of_isMarked hmark
  unfold LineSafe
  rw [accesses_within_iff, front_marked hdir hmark, hroomy]
  unfold substr
  by_cases hlen : 6 ≤ (line.drop d).length
  · rw [if_pos hlen, Option.map_some]
    constructor
    · rintro ⟨⟨f, hf, hcut⟩, hblank⟩
      cases hf
      exact ⟨hlen, hcut _ rfl, fun more kept cmt => hblank _ more kept cmt rfl rfl⟩
    · rintro ⟨-, hcut, hblank⟩
      refine ⟨⟨_, rfl, ?_⟩, ?_⟩
      · intro ret hret
        cases hret
        exact hcut
      · intro ret more kept cmt hret _
        cases hret
        exact hblank more kept cmt
  · rw [if_neg hlen, Option.map_none]
    constructor
    · rintro ⟨⟨f, hf, -⟩, -⟩
      exact nomatch hf
    · rintro ⟨hsix, -⟩
      exact absurd hsix hlen

/-- The first line of a directive is safe, since it begins with its sentinel. -/
theorem lineSafe_first {isFixed : Bool} {line : Text} {d : Nat}
    (hdir : directivePos isFixed line = some d) : LineSafe isFixed false line := by
  have hfront : front isFixed false line = some (.text (line.drop d)) := by
    rw [front, hdir]
    rfl
  refine ⟨?_, ?_⟩
  · rw [accesses_within_iff, hfront]
    refine ⟨_, rfl, ?_⟩
    intro ret hret
    cases hret
    exact ⟨_, cut_first hdir⟩
  · intro ret more kept cmt _ hcont
    exact absurd hcont Bool.false_ne_true

/-- A line that is not cut is safe. -/
theorem lineSafe_of_front {isFixed cont : Bool} {line : Text} {f : Front}
    (hfront : front isFixed cont line = some f) (hf : ∀ ret, f ≠ .text ret) :
    LineSafe isFixed cont line := by
  refine ⟨?_, ?_⟩
  · rw [accesses_within_iff]
    exact ⟨f, hfront, fun ret hret => absurd hret (hf ret)⟩
  · intro ret more kept cmt hret
    rw [hfront, Option.some.injEq] at hret
    exact absurd hret (hf ret)

/-- The accesses for a line are inside of its strings, and a line without a visible character
    does not go on, if and only if the line is no continued line that is too short. -/
theorem lineSafe_iff (isFixed cont : Bool) (line : Text) :
    LineSafe isFixed cont line ↔ Tolerated isFixed cont line := by
  unfold Tolerated
  cases hdir : directivePos isFixed line with
  | none =>
      have hfront : front isFixed cont line = some .stop := by rw [front, hdir]
      simp [lineSafe_of_front hfront]
  | some d =>
      cases cont with
      | false => simp [lineSafe_first hdir]
      | true =>
          by_cases hmark : isMarked isFixed line = true
          · rw [lineSafe_marked_iff hdir hmark]
            simp [hmark]
          · have hfront : front isFixed true line = some (if isFixed then .stop else .skip) := by
              rw [front, hdir]
              simp only [Bool.true_eq_false, if_false, hmark]
              rfl
            have hsafe := lineSafe_of_front hfront (by intro ret; split_ifs <;> simp)
            simp [hmark, hsafe]

end Lines

section Searches

mutual

/-- The lines attached to a node and to the nodes below it. -/
def Node.lines : Node → List PreprocessingInfo
  | .other => []
  | .located info successors => info ++ linesAll successors

/-- The lines attached to the successors of a node. -/
def linesAll : List Node → List PreprocessingInfo
  | [] => []
  | x :: xs => x.lines ++ linesAll xs

end

/-- For a line that is long enough both parts have a result. -/
theorem front_of_tolerated {isFixed : Bool} {line : Text} (h : Tolerated isFixed true line)
    (cont : Bool) :
    ∃ f, front isFixed cont line = some f ∧
      ∀ ret, f = .text ret → ∃ r, cut isFixed ret = some r := by
  rw [← accesses_within_iff]
  have htolerated : Tolerated isFixed cont line := by
    cases cont with
    | false =>
        intro hcont
        exact nomatch hcont
    | true => exact h
  exact ((lineSafe_iff isFixed cont line).mpr htolerated).1

/-- The search in the lines of a node comes to an end if the searches elsewhere do. -/
theorem findLines_isSome {isFixed : Bool} {path : List Nat}
    {elsewhere : Search → Option (Text × Search)} (helse : ∀ s, ∃ r, elsewhere s = some r)
    (info : List PreprocessingInfo) (h : ∀ ppi ∈ info, Tolerated isFixed true ppi.string)
    (cont : Bool) (index : Nat) (s : Search) :
    ∃ r, findLines isFixed path elsewhere cont index info s = some r := by
  induction info generalizing cont index s with
  | nil => exact ⟨_, rfl⟩
  | cons ppi info ih =>
      rw [List.forall_mem_cons] at h
      unfold findLines
      by_cases hflag : (path, index) ∈ s.transformation
      · rw [if_pos hflag]
        exact ⟨_, rfl⟩
      · rw [if_neg hflag]
        rcases front_of_tolerated h.1 cont with ⟨f, hf, hcut⟩
        rw [hf, Option.bind_some]
        cases f with
        | stop => exact ⟨_, rfl⟩
        | skip => exact ih h.2 true (index + 1) s
        | text ret =>
            rcases hcut ret rfl with ⟨⟨more, kept, cmt⟩, hkept⟩
            simp only [hkept, Option.bind_some]
            unfold goOn
            by_cases hmore : more = false
            · rw [if_pos hmore]
              exact ⟨_, rfl⟩
            · rw [if_neg hmore]
              -- The next line is looked for behind this one, and then elsewhere.
              rcases ih h.2 true (index + 1) ((s.flag cont (path, index)).comment cont cmt) with
                ⟨⟨contdir, s'⟩, hnext⟩
              rw [hnext, Option.bind_some]
              simp only
              split_ifs
              · exact ⟨_, rfl⟩
              · rcases helse s' with ⟨⟨found, s''⟩, hfound⟩
                rw [hfound]
                exact ⟨_, rfl⟩

mutual

/-- The search in a node comes to an end if all lines in it are long enough. -/
theorem findBefore_isSome (isFixed : Bool) (path : List Nat) : (x : Node) →
    (∀ ppi ∈ x.lines, Tolerated isFixed true ppi.string) → (s : Search) →
    ∃ r, findBefore isFixed path x s = some r
  | .other, _, s => by
      unfold findBefore
      exact ⟨_, rfl⟩
  | .located info successors, h, s => by
      unfold Node.lines at h
      rw [List.forall_mem_append] at h
      unfold findBefore
      exact findLines_isSome (findSuccessors_isSome isFixed path 0 successors h.2) info h.1 true 0 s

/-- So does the search in its successors. -/
theorem findSuccessors_isSome (isFixed : Bool) (path : List Nat) (ii : Nat) :
    (successors : List Node) →
    (∀ ppi ∈ linesAll successors, Tolerated isFixed true ppi.string) → (s : Search) →
    ∃ r, findSuccessors isFixed path ii successors s = some r
  | [], _, s => by
      unfold findSuccessors
      exact ⟨_, rfl⟩
  | x :: xs, h, s => by
      unfold linesAll at h
      rw [List.forall_mem_append] at h
      unfold findSuccessors
      rcases findBefore_isSome isFixed (ii :: path) x h.1 s with ⟨⟨cont2, s'⟩, hfound⟩
      rw [hfound, Option.bind_some]
      simp only
      split_ifs
      · exact ⟨_, rfl⟩
      · exact findSuccessors_isSome isFixed path (ii + 1) xs h.2 s'

end

/-- The search from a line of a statement on comes to an end if all lines of the statement and
    below it are long enough. -/
theorem findContinuedDirective_isSome (isFixed : Bool) (pos : RelativePosition) (path : List Nat)
    (info : List PreprocessingInfo) (successors : List Node)
    (h : ∀ ppi ∈ (Node.located info successors).lines, Tolerated isFixed true ppi.string)
    (cont : Bool) (index : Nat) (s : Search) :
    ∃ r, findContinuedDirective isFixed pos path info successors cont index s = some r := by
  have hboth := h
  unfold Node.lines at hboth
  rw [List.forall_mem_append] at hboth
  unfold findContinuedDirective
  apply findLines_isSome
  · intro s
    unfold elsewhere
    cases pos with
    | before => exact findSuccessors_isSome isFixed path 0 successors hboth.2 s
    | after => exact findBefore_isSome isFixed path (.located info successors) h s
    | inside => exact ⟨_, rfl⟩
  · exact fun ppi hppi => hboth.1 ppi (List.mem_of_mem_drop hppi)

/-- Every access for a line is inside of the string it is made to, and a continued line without
    a visible character does not go on, if and only if the line is not looked at as a continued
    line, or is none, or is long enough. A search in which all lines are long enough comes to
    an end. -/
theorem findContinuedDirective_safe_iff (isFixed : Bool) :
    (∀ cont line, LineSafe isFixed cont line ↔ Tolerated isFixed cont line) ∧
      ∀ pos path info successors,
        (∀ ppi ∈ (Node.located info successors).lines, Tolerated isFixed true ppi.string) →
          ∀ cont index s,
            ∃ r, findContinuedDirective isFixed pos path info successors cont index s = some r :=
  ⟨lineSafe_iff isFixed, findContinuedDirective_isSome isFixed⟩

section Examples

/-- A line of free form with nothing behind its mark is read in front of its text. -/
theorem markOnly_not_safe : ¬ LineSafe false true "!$xev&".toList := by
  rw [lineSafe_iff]
  intro h
  have hroomy := h rfl rfl 0 rfl
  exact absurd rfl hroomy.1

/-- A comment in front of the sentinel has the mark in its sixth column. -/
example : accesses false true "!abc &!$xev".toList =
    [.index (some 5) "!abc &!$xev".toList, .substr 6 "!abc &!$xev".toList,
      .substr 6 "!$xev".toList] := rfl

end Examples

end Searches

end XevXml.Preproc
