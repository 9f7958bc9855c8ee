import XevXml.Tools.Passes.Before

/-!
# Removal of Preprocessing Information

The front end keeps the comments and preprocessor lines of a file in elements
with the name `PreprocessingInfo`. The directives of the tools are comments for
it, so they are in the tree twice, as elements of their own and as such
information. `remove_ppinfo` takes the information away.

An element is detached from its parent or its preceding sibling when everything
below and behind it has been dealt with. So it does not matter whether what
follows an element has been removed, but the element at which the tool begins
has nothing it could be detached from and is not looked at.

Whether an element is removed is decided at the first exclamation mark in its
text. The text has to be there and to have one, so preprocessor lines and
comments with a `C` in front make an assertion fail. What stands in front of the
mark is not looked at either, so a comment in which the name of a directive is
mentioned is removed with it.

## Main definitions

* `check_ppinfo`, `removeAll`, `remove_ppinfo`: The tool.
* `isPragma`: Information that is a line with a directive of the configuration.
* `pruneAll`, `outerAll`: A forest without some cells, and the ones to look at.
* `RemovesPragmas`: Exactly the directives are removed.
* `Checkable`, `FoundInFront`: What the tool takes for granted about an element.

## Theorems

* `removeAll_isOk_iff`, `removeAll_eq`: What is removed from a forest.
* `pruneAll_eq_pruneAll_iff`: When two tests remove the same cells.
* `removesPragmas_iff`: When exactly the directives are removed.
-/

namespace XevXml.Tools.Passes

section Pruning

mutual

/-- A cell without the cells in it that satisfy a test. -/
def pruneCell (p : Cell → Bool) : Cell → Cell
  | .mk type name attrs pretext posttext cs =>
      .mk type name attrs pretext posttext (pruneAll p cs)

/-- A forest without the cells that satisfy a test and what is below them. -/
def pruneAll (p : Cell → Bool) : List Cell → List Cell
  | [] => []
  | x :: xs => if p x then pruneAll p xs else pruneCell p x :: pruneAll p xs

end

mutual

/-- The cells below a cell that are not inside of one that satisfies a test. -/
def outerCell (q : Cell → Bool) : Cell → List Cell
  | .mk _ _ _ _ _ cs => outerAll q cs

/-- The cells of a forest that are not inside of one that satisfies a test. -/
def outerAll (q : Cell → Bool) : List Cell → List Cell
  | [] => []
  | x :: xs => x :: (if q x then [] else outerCell q x) ++ outerAll q xs

end

theorem pruneCell_eq (p : Cell → Bool) (x : Cell) :
    pruneCell p x = x.withChildren (pruneAll p x.children) := by
  cases x
  rfl

theorem pruneAll_cons (p : Cell → Bool) (x : Cell) (xs : List Cell) :
    pruneAll p (x :: xs) = if p x then pruneAll p xs else pruneCell p x :: pruneAll p xs := by
  rw [pruneAll]

theorem outerCell_eq (q : Cell → Bool) (x : Cell) : outerCell q x = outerAll q x.children := by
  cases x
  rfl

/-- A test that more cells satisfy leaves fewer of them. -/
theorem length_pruneAll_le {p q : Cell → Bool} (hqp : ∀ x, q x = true → p x = true)
    (xs : List Cell) : (pruneAll p xs).length ≤ (pruneAll q xs).length := by
  induction xs with
  | nil => exact Nat.le_refl _
  | cons x xs ih =>
      rw [pruneAll_cons, pruneAll_cons]
      by_cases hp : p x = true
      · rw [if_pos hp]
        by_cases hq : q x = true
        · rw [if_pos hq]
          exact ih
        · rw [if_neg hq, List.length_cons]
          omega
      · rw [if_neg hp, if_neg fun hq => hp (hqp x hq), List.length_cons, List.length_cons]
        omega

/-- Two tests, of which one implies the other, remove the same cells exactly if they agree on
    the cells that are not inside of a removed one. -/
theorem pruneAll_eq_pruneAll_iff {p q : Cell → Bool} (hqp : ∀ x, q x = true → p x = true) :
    (∀ x, pruneCell p x = pruneCell q x ↔ ∀ y ∈ outerCell q x, p y = true → q y = true) ∧
      ∀ xs, pruneAll p xs = pruneAll q xs ↔ ∀ y ∈ outerAll q xs, p y = true → q y = true := by
  apply Cell.induct
  · intro type name attrs pretext posttext cs ih
    unfold pruneCell outerCell
    rw [← ih]
    simp
  · simp [pruneAll, outerAll]
  · intro x xs hx hxs
    unfold outerAll
    rw [pruneAll_cons, pruneAll_cons, List.cons_append, List.forall_mem_cons,
      List.forall_mem_append, ← hxs]
    by_cases hq : q x = true
    · rw [if_pos hq, if_pos (hqp x hq), if_pos hq]
      simp [hq]
    · rw [if_neg hq, if_neg hq, ← hx]
      by_cases hp : p x = true
      · rw [if_pos hp]
        -- One side has lost a cell that the other one has.
        have hle := length_pruneAll_le hqp xs
        constructor
        · intro heq
          rw [heq, List.length_cons] at hle
          omega
        · intro h
          exact absurd (h.1 hp) hq
      · rw [if_neg hp, List.cons.injEq]
        simp [hp]

end Pruning

section Removal

variable (namelist : List NameCell)

/-- Whether a cell is preprocessing information. -/
def isPreprocessingInfo (x : Cell) : Bool := x.name == "PreprocessingInfo"

/-- The text from its first exclamation mark on. -/
def fromMark (t : Text) : Text := t.dropWhile fun c => c != '!'

/-- Whether a cell is removed. -/
def check_ppinfo (x : Cell) : Run Bool :=
  if isPreprocessingInfo x then
    match x.posttext with
    | none => .error .assertion
    | some t =>
        if fromMark t = [] then .error .assertion
        else .ok (xevparse_pragma_line namelist (fromMark t)).isSome
  else .ok false

mutual

/-- A cell in which the tool has been. -/
def removeBelow : Cell → Run Cell
  | .mk type name attrs pretext posttext cs => do
      let cs ← removeAll cs
      return .mk type name attrs pretext posttext cs

/-- The cells behind a parent or a preceding sibling. The first one is looked at when the tool
    comes back from it and from what is behind it. -/
def removeAll : List Cell → Run (List Cell)
  | [] => .ok []
  | x :: xs => do
      let x ← removeBelow x
      let xs ← removeAll xs
      let removed ← check_ppinfo namelist x
      return if removed then xs else x :: xs

end

/-- The tool on a cell and the siblings behind it. -/
def remove_ppinfo (x : Cell) (xs : List Cell) : Run (List Cell) := do
  let x ← removeBelow namelist x
  let xs ← removeAll namelist xs
  return x :: xs

/-- The line that an element of preprocessing information has, without the blanks in front. -/
def infoLine (x : Cell) : Text := skipBlanks (x.posttext.getD [])

/-- The element has a text that is a line with a directive of the configuration. -/
def isPragma (x : Cell) : Bool :=
  isPreprocessingInfo x && ((infoLine x).head? == some '!' &&
    (xevparse_pragma_line namelist (infoLine x)).isSome)

/-- The tool comes to an end, and what is left is the forest without the elements that are
    lines with a directive. -/
def RemovesPragmas (x : Cell) (xs : List Cell) : Prop :=
  remove_ppinfo namelist x xs = .ok (pruneAll (isPragma namelist) (x :: xs))

/-- If the element is preprocessing information its text has an exclamation mark. -/
def Checkable (x : Cell) : Prop := isPreprocessingInfo x = true → '!' ∈ x.posttext.getD []

/-- The element is preprocessing information in which something that looks like a directive
    of the configuration begins at the first exclamation mark. -/
def foundAtMark (x : Cell) : Bool :=
  isPreprocessingInfo x &&
    (xevparse_pragma_line namelist (fromMark (x.posttext.getD []))).isSome

/-- If something that looks like a directive is found in the element, it is in front, with
    nothing but blanks before it. -/
def FoundInFront (x : Cell) : Prop :=
  foundAtMark namelist x = true →
    ∀ c ∈ (x.posttext.getD []).takeWhile fun c => c != '!', blank c = true

theorem fromMark_eq_nil_iff (t : Text) : fromMark t = [] ↔ '!' ∉ t := by
  unfold fromMark
  rw [List.dropWhile_eq_nil_iff]
  constructor
  · intro h hmem
    exact absurd (h '!' hmem) (by decide)
  · intro h c hc
    rw [bne_iff_ne]
    intro heq
    exact h (heq ▸ hc)

/-- An element of preprocessing information is checked if its text has a mark. -/
theorem check_ppinfo_eq (x : Cell) :
    check_ppinfo namelist x =
      if isPreprocessingInfo x = true ∧ '!' ∉ x.posttext.getD [] then .error .assertion
      else .ok (foundAtMark namelist x) := by
  unfold check_ppinfo foundAtMark
  by_cases hinfo : isPreprocessingInfo x = true
  · rw [if_pos hinfo]
    simp only [hinfo, true_and, Bool.true_and]
    cases x.posttext with
    | none => simp
    | some t =>
        simp only [Option.getD_some]
        by_cases hmark : '!' ∈ t
        · rw [if_neg fun h => (fromMark_eq_nil_iff t).mp h hmark, if_neg fun h => h hmark]
        · rw [if_pos ((fromMark_eq_nil_iff t).mpr hmark), if_pos hmark]
  · rw [if_neg hinfo]
    simp [hinfo]

theorem check_ppinfo_of_checkable {x : Cell} (h : Checkable x) :
    check_ppinfo namelist x = .ok (foundAtMark namelist x) := by
  rw [check_ppinfo_eq, if_neg fun hbad => hbad.2 (h hbad.1)]

/-- What is below an element does not matter for whether it is removed. -/
theorem check_ppinfo_withChildren (x : Cell) (cs : List Cell) :
    check_ppinfo namelist (x.withChildren cs) = check_ppinfo namelist x := rfl

theorem check_ppinfo_pruneCell (p : Cell → Bool) (x : Cell) :
    check_ppinfo namelist (pruneCell p x) = check_ppinfo namelist x := by
  rw [pruneCell_eq, check_ppinfo_withChildren]

/-- If every element has the text it needs the tool removes the ones in which it finds
    something at the mark. -/
theorem removeAll_eq :
    (∀ x : Cell, (∀ y ∈ cellsAll x.children, Checkable y) →
      removeBelow namelist x = .ok (pruneCell (foundAtMark namelist) x)) ∧
      ∀ xs : List Cell, (∀ y ∈ cellsAll xs, Checkable y) →
        removeAll namelist xs = .ok (pruneAll (foundAtMark namelist) xs) := by
  apply Cell.induct
  · intro type name attrs pretext posttext cs ih h
    unfold removeBelow pruneCell
    rw [ih h, ok_bind]
    rfl
  · intro _
    rfl
  · intro x xs hx hxs h
    rw [cellsAll, List.forall_mem_append] at h
    have hself : Checkable x := h.1 x ((mem_cells_iff x x).mpr (Or.inl rfl))
    have hbelow : ∀ y ∈ cellsAll x.children, Checkable y :=
      fun y hy => h.1 y ((mem_cells_iff x y).mpr (Or.inr hy))
    unfold removeAll
    rw [pruneAll_cons, hx hbelow, ok_bind, hxs h.2, ok_bind, check_ppinfo_pruneCell,
      check_ppinfo_of_checkable namelist hself, ok_bind]
    rfl

/-- What the tool has done to an element does not change its own name and text. -/
theorem check_ppinfo_removeBelow {x y : Cell} (h : removeBelow namelist x = .ok y) :
    check_ppinfo namelist y = check_ppinfo namelist x := by
  cases x with
  | mk type name attrs pretext posttext cs =>
      unfold removeBelow at h
      rcases (bind_eq_ok_iff _ _ _).mp h with ⟨ds, -, hy⟩
      cases hy
      rfl

/-- The tool comes to an end only if every element it looks at has the text it needs. -/
theorem checkable_of_removeAll :
    (∀ x y : Cell, removeBelow namelist x = .ok y → ∀ z ∈ cellsAll x.children, Checkable z) ∧
      ∀ xs ys : List Cell, removeAll namelist xs = .ok ys → ∀ z ∈ cellsAll xs, Checkable z := by
  apply Cell.induct (P := fun x => ∀ y, removeBelow namelist x = .ok y →
      ∀ z ∈ cellsAll x.children, Checkable z)
    (Q := fun xs => ∀ ys, removeAll namelist xs = .ok ys → ∀ z ∈ cellsAll xs, Checkable z)
  · intro type name attrs pretext posttext cs ih y h
    unfold removeBelow at h
    rcases (bind_eq_ok_iff _ _ _).mp h with ⟨ds, hds, -⟩
    exact ih ds hds
  · intro ys _ z hz
    exact nomatch hz
  · intro x xs hx hxs ys h
    unfold removeAll at h
    rcases (bind_eq_ok_iff _ _ _).mp h with ⟨y, hy, h⟩
    rcases (bind_eq_ok_iff _ _ _).mp h with ⟨rest, hrest, h⟩
    rcases (bind_eq_ok_iff _ _ _).mp h with ⟨removed, hcheck, -⟩
    -- The check has come to an end, so the text of the element is as it should be.
    have hself : Checkable x := by
      rw [check_ppinfo_removeBelow namelist hy, check_ppinfo_eq] at hcheck
      intro hinfo
      by_contra hmark
      rw [if_pos ⟨hinfo, hmark⟩] at hcheck
      exact nomatch hcheck
    rw [cellsAll, List.forall_mem_append]
    refine ⟨?_, hxs rest hrest⟩
    intro z hz
    rcases (mem_cells_iff x z).mp hz with hz | hz
    · rw [hz]
      exact hself
    · exact hx y hy z hz

/-- A line that begins with an exclamation mark behind some blanks begins at its first one. -/
theorem fromMark_eq_of_head {t : Text} (h : (skipBlanks t).head? = some '!') :
    fromMark t = skipBlanks t ∧ ∀ c ∈ t.takeWhile fun c => c != '!', blank c = true := by
  unfold skipBlanks at h ⊢
  unfold fromMark
  induction t with
  | nil => exact nomatch h
  | cons c t ih =>
      by_cases hblank : blank c = true
      · -- A blank is no exclamation mark, so both searches go on.
        have hc : (c != '!') = true := by
          rw [bne_iff_ne]
          intro heq
          rw [heq] at hblank
          exact absurd hblank (by decide)
        rw [List.dropWhile_cons_of_pos hblank] at h ⊢
        rw [List.dropWhile_cons_of_pos (p := fun c => c != '!') hc,
          List.takeWhile_cons_of_pos (p := fun c => c != '!') hc, List.forall_mem_cons]
        exact ⟨(ih h).1, hblank, (ih h).2⟩
      · rw [List.dropWhile_cons_of_neg hblank] at h ⊢
        rw [List.head?_cons, Option.some.injEq] at h
        have hc : ¬ (c != '!') = true := by
          rw [h]
          decide
        rw [List.dropWhile_cons_of_neg (p := fun c => c != '!') hc,
          List.takeWhile_cons_of_neg (p := fun c => c != '!') hc]
        exact ⟨rfl, fun d hd => absurd hd List.not_mem_nil⟩

/-- If only blanks stand in front of the first exclamation mark a line begins there. -/
theorem head_of_front_blank {t : Text} (hmark : '!' ∈ t)
    (h : ∀ c ∈ t.takeWhile fun c => c != '!', blank c = true) :
    (skipBlanks t).head? = some '!' := by
  unfold skipBlanks
  induction t with
  | nil => exact nomatch hmark
  | cons c t ih =>
      by_cases hc : c = '!'
      · rw [List.dropWhile_cons_of_neg (by rw [hc]; decide), List.head?_cons, hc]
      · rw [List.takeWhile_cons_of_pos (by rwa [bne_iff_ne]), List.forall_mem_cons] at h
        rw [List.dropWhile_cons_of_pos h.1]
        exact ih (List.mem_of_ne_of_mem (Ne.symm hc) hmark) h.2

/-- A line with a directive is found at its first exclamation mark. -/
theorem foundAtMark_of_isPragma (x : Cell) (h : isPragma namelist x = true) :
    foundAtMark namelist x = true := by
  unfold isPragma infoLine at h
  simp only [Bool.and_eq_true, beq_iff_eq] at h
  rcases h with ⟨hinfo, hhead, hpragma⟩
  unfold foundAtMark
  rw [Bool.and_eq_true, (fromMark_eq_of_head hhead).1]
  exact ⟨hinfo, hpragma⟩

/-- What is found at the mark is a line with a directive if it is found in front. -/
theorem foundInFront_iff {x : Cell} (hx : Checkable x) :
    FoundInFront namelist x ↔ (foundAtMark namelist x = true → isPragma namelist x = true) := by
  unfold FoundInFront
  apply imp_congr_right
  intro hfound
  unfold foundAtMark at hfound
  rw [Bool.and_eq_true] at hfound
  rcases hfound with ⟨hinfo, hpragma⟩
  unfold isPragma infoLine
  simp only [hinfo, Bool.true_and, Bool.and_eq_true, beq_iff_eq]
  constructor
  · intro hfront
    have hhead := head_of_front_blank (hx hinfo) hfront
    rw [← (fromMark_eq_of_head hhead).1]
    refine ⟨?_, hpragma⟩
    rw [(fromMark_eq_of_head hhead).1, hhead]
  · rintro ⟨hhead, -⟩
    exact (fromMark_eq_of_head hhead).2

theorem isPragma_pruneCell (p : Cell → Bool) (x : Cell) :
    isPragma namelist (pruneCell p x) = isPragma namelist x := by
  rw [pruneCell_eq]
  rfl

/-- No line with a directive is left when they are removed. -/
theorem not_isPragma_of_mem (xs : List Cell) (y : Cell)
    (h : y ∈ pruneAll (isPragma namelist) xs) : isPragma namelist y = false := by
  induction xs with
  | nil =>
      unfold pruneAll at h
      exact nomatch h
  | cons x xs ih =>
      rw [pruneAll_cons] at h
      by_cases hx : isPragma namelist x = true
      · rw [if_pos hx] at h
        exact ih h
      · rw [if_neg hx] at h
        rcases List.mem_cons.mp h with heq | hrest
        · rw [heq, isPragma_pruneCell]
          exact Bool.eq_false_of_not_eq_true hx
        · exact ih hrest

/-- The cells that are not inside of others are cells of the forest. -/
theorem mem_cellsAll_of_mem_outerAll (q : Cell → Bool) :
    (∀ x, ∀ y ∈ outerCell q x, y ∈ cellsAll x.children) ∧
      ∀ xs, ∀ y ∈ outerAll q xs, y ∈ cellsAll xs := by
  apply Cell.induct (P := fun x => ∀ y ∈ outerCell q x, y ∈ cellsAll x.children)
    (Q := fun xs => ∀ y ∈ outerAll q xs, y ∈ cellsAll xs)
  · intro type name attrs pretext posttext cs ih y hy
    unfold outerCell at hy
    exact ih y hy
  · intro y hy
    unfold outerAll at hy
    exact nomatch hy
  · intro x xs hx hxs y hy
    unfold outerAll at hy
    rw [cellsAll, List.mem_append, mem_cells_iff]
    rw [List.cons_append, List.mem_cons, List.mem_append] at hy
    rcases hy with hy | hy | hy
    · exact Or.inl (Or.inl hy)
    · by_cases hq : q x = true
      · rw [if_pos hq] at hy
        exact nomatch hy
      · rw [if_neg hq] at hy
        exact Or.inl (Or.inr (hx y hy))
    · exact Or.inr (hxs y hy)

/-- The tool comes to an end if and only if every element below and behind the one at which it
    begins has the text it needs. -/
theorem remove_ppinfo_eq_ok_iff (x : Cell) (xs out : List Cell) :
    remove_ppinfo namelist x xs = .ok out ↔
      (∀ y ∈ cellsAll x.children ++ cellsAll xs, Checkable y) ∧
        out = pruneCell (foundAtMark namelist) x :: pruneAll (foundAtMark namelist) xs := by
  unfold remove_ppinfo
  constructor
  · intro h
    rcases (bind_eq_ok_iff _ _ _).mp h with ⟨y, hy, h⟩
    rcases (bind_eq_ok_iff _ _ _).mp h with ⟨ys, hys, h⟩
    have hbelow := (checkable_of_removeAll namelist).1 x y hy
    have hbehind := (checkable_of_removeAll namelist).2 xs ys hys
    rw [(removeAll_eq namelist).1 x hbelow] at hy
    rw [(removeAll_eq namelist).2 xs hbehind] at hys
    cases hy
    cases hys
    cases h
    exact ⟨List.forall_mem_append.mpr ⟨hbelow, hbehind⟩, rfl⟩
  · rintro ⟨h, hout⟩
    rw [List.forall_mem_append] at h
    rw [(removeAll_eq namelist).1 x h.1, ok_bind, (removeAll_eq namelist).2 xs h.2, ok_bind, hout]
    rfl

/-- The tool comes to an end and removes exactly the elements that are lines with a directive
    if and only if the element at which it begins is none, every element of preprocessing
    information below and behind it has an exclamation mark in its text, and where something
    that looks like a directive of the configuration begins at the first mark of an element
    that is not inside of a removed one, nothing but blanks stands before it. -/
theorem removesPragmas_iff (x : Cell) (xs : List Cell) :
    RemovesPragmas namelist x xs ↔
      isPragma namelist x = false ∧
        (∀ y ∈ cellsAll x.children ++ cellsAll xs, Checkable y) ∧
          ∀ y ∈ outerAll (isPragma namelist) x.children ++ outerAll (isPragma namelist) xs,
            FoundInFront namelist y := by
  unfold RemovesPragmas
  rw [remove_ppinfo_eq_ok_iff]
  have himp := foundAtMark_of_isPragma namelist
  -- Where the texts are as they should be, the tests are compared element by element.
  have hcompare : (∀ y ∈ cellsAll x.children ++ cellsAll xs, Checkable y) →
      ((∀ y ∈ outerAll (isPragma namelist) x.children ++ outerAll (isPragma namelist) xs,
          FoundInFront namelist y) ↔
        pruneCell (foundAtMark namelist) x = pruneCell (isPragma namelist) x ∧
          pruneAll (foundAtMark namelist) xs = pruneAll (isPragma namelist) xs) := by
    intro hall
    rw [List.forall_mem_append] at hall
    rw [(pruneAll_eq_pruneAll_iff himp).1, (pruneAll_eq_pruneAll_iff himp).2, outerCell_eq,
      List.forall_mem_append]
    have hmem := (mem_cellsAll_of_mem_outerAll (isPragma namelist)).2
    apply and_congr
    · exact forall₂_congr fun y hy => foundInFront_iff namelist (hall.1 y (hmem _ y hy))
    · exact forall₂_congr fun y hy => foundInFront_iff namelist (hall.2 y (hmem _ y hy))
  constructor
  · rintro ⟨hall, hsame⟩
    rw [pruneAll_cons] at hsame
    by_cases hx : isPragma namelist x = true
    · -- The element at which the tool begins stays, and it should not.
      rw [if_pos hx] at hsame
      have hmem : pruneCell (foundAtMark namelist) x ∈ pruneAll (isPragma namelist) xs := by
        rw [hsame]
        exact List.mem_cons_self
      have hnot := not_isPragma_of_mem namelist xs _ hmem
      rw [isPragma_pruneCell, hx] at hnot
      exact nomatch hnot
    · rw [if_neg hx, List.cons.injEq] at hsame
      exact ⟨Bool.eq_false_of_not_eq_true hx, hall,
        (hcompare hall).mpr ⟨hsame.1.symm, hsame.2.symm⟩⟩
  · rintro ⟨hx, hall, hfront⟩
    refine ⟨hall, ?_⟩
    rcases (hcompare hall).mp hfront with ⟨hself, hrest⟩
    rw [pruneAll_cons, if_neg (by rw [hx]; exact Bool.false_ne_true), hself, hrest]

section Examples

/-- The configuration of `xev` directives. -/
def xevNames : List NameCell := [⟨false, "!$xev".toList, .plain⟩]

/-- An element of preprocessing information. -/
def info (text : String) : Cell :=
  .mk .node "PreprocessingInfo" [] none (some text.toList) []

/-- A program with a comment in the fixed form, which has no exclamation mark. -/
theorem fixedComment_stops :
    ¬ RemovesPragmas xevNames (.mk .node "SgGlobal" [] none none [info "C text"]) [] := by
  intro h
  exact nomatch h

/-- A comment that mentions a directive is removed. -/
example : remove_ppinfo xevNames (.mk .node "SgGlobal" [] none none [info "C see !$xev loop"]) [] =
    .ok [.mk .node "SgGlobal" [] none none []] := rfl

end Examples

end Removal

end XevXml.Tools.Passes
