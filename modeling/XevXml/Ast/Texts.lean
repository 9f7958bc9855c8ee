import XevXml.Dom.Xml
import Mathlib.Data.List.TakeWhile

/-!
# Texts between Statements

A rule may leave raw text between the statements of a block. The reader goes through the
children of the block, drops the lines of a text that hold nothing but white space, and
attaches the others: behind the last statement it has read, or in front of the first one.
As long as there is no statement the text is kept in a variable, and a text that is met
before the first statement takes the place of the one that was kept.

Of an element only matters whether the reader makes a statement of it. Statements are known
by their numbers in the block.

## Main definitions

* `ChildNode`: The children of a block.
* `traverseStatementsAndTexts`: What the reader does with them.
* `belongs`: Where the texts belong.
* `TextsKept`: Every line is attached where it belongs.

## Theorems

* `visibleText_eq`: The reader keeps the lines that are not blank.
* `traverse_front`, `traverse_rest`: The texts in front of the first statement and behind it.
* `texts_kept_iff`: The texts are kept if there is at most one in front of the statements.
-/

namespace XevXml

open Numeral (isSpace)

section Lines

/-- The lines of a text with their ends, behind the beginning of one. -/
def textLinesFrom : Text → Text → List Text
  | line, [] => if line = [] then [] else [line]
  | line, c :: t =>
      if c = '\n' then (line ++ [c]) :: textLinesFrom [] t else textLinesFrom (line ++ [c]) t

/-- The lines of a text with their ends. -/
def textLines (t : Text) : List Text := textLinesFrom [] t

/-- A line that is not blank. -/
def visible (line : Text) : Bool := line.any fun c => !isSpace c

/-- The lines of a text that are not blank. -/
def visibleLines (t : Text) : List Text := (textLines t).filter visible

/-- The loop over the characters of a text: the lines that are kept, the line that is read
    and whether anything is in it. -/
def skipSpaces : Text → Text → Text → Bool → Text
  | [], text, line, flag => if flag then text ++ line else text
  | c :: tmp, text, line, flag =>
      let flag := if !isSpace c then true else flag
      let line := line ++ [c]
      if c = '\n' then skipSpaces tmp (if flag then text ++ line else text) [] false
      else skipSpaces tmp text line flag

/-- What the reader keeps of a text. -/
def visibleText (t : Text) : Text := skipSpaces t [] [] false

theorem visible_concat (line : Text) (c : Char) :
    visible (line ++ [c]) = if !isSpace c then true else visible line := by
  unfold visible
  rw [List.any_append, List.any_cons, List.any_nil, Bool.or_false]
  generalize (line.any fun c => !isSpace c) = b
  cases isSpace c <;> cases b <;> rfl

theorem skipSpaces_eq (tmp text line : Text) :
    skipSpaces tmp text line (visible line) =
      text ++ ((textLinesFrom line tmp).filter visible).flatten := by
  induction tmp generalizing text line with
  | nil =>
      rw [skipSpaces, textLinesFrom]
      by_cases hline : line = []
      · rw [if_pos hline, hline]
        exact (List.append_nil text).symm
      · rw [if_neg hline, List.filter_cons, List.filter_nil]
        cases visible line <;> simp
  | cons c tmp ih =>
      rw [skipSpaces, textLinesFrom, ← visible_concat]
      by_cases hc : c = '\n'
      · rw [if_pos hc, if_pos hc, List.filter_cons]
        have hnil := ih (if visible (line ++ [c]) = true then text ++ (line ++ [c]) else text) []
        have hfalse : visible [] = false := rfl
        rw [hfalse] at hnil
        rw [hnil]
        cases visible (line ++ [c]) <;> simp
      · rw [if_neg hc, if_neg hc, ih]

/-- The reader keeps the lines that are not blank. -/
theorem visibleText_eq (t : Text) : visibleText t = (visibleLines t).flatten :=
  skipSpaces_eq t [] []

theorem textLinesFrom_append (l line t : Text) (hl : '\n' ∉ l) :
    textLinesFrom line (l ++ t) = textLinesFrom (line ++ l) t := by
  induction l generalizing line with
  | nil => rw [List.nil_append, List.append_nil]
  | cons c l ih =>
      rw [List.mem_cons, not_or] at hl
      rw [List.cons_append, textLinesFrom, if_neg (fun h => hl.1 h.symm), ih _ hl.2,
        List.append_assoc, List.singleton_append]

/-- The lines that are kept are the lines of what is kept. -/
theorem visibleLines_visibleText (t : Text) : visibleLines (visibleText t) = visibleLines t := by
  have hfrom : ∀ (t line : Text), '\n' ∉ line →
      textLinesFrom [] ((textLinesFrom line t).filter visible).flatten =
        (textLinesFrom line t).filter visible := by
    intro t
    induction t with
    | nil =>
        intro line hline
        rw [textLinesFrom]
        by_cases hnil : line = []
        · rw [if_pos hnil]
          rfl
        · rw [if_neg hnil, List.filter_cons, List.filter_nil]
          by_cases hvisible : visible line = true
          · have hlines := textLinesFrom_append line [] [] hline
            rw [List.append_nil, List.nil_append, textLinesFrom, if_neg hnil] at hlines
            rw [if_pos hvisible, List.flatten_cons, List.flatten_nil, List.append_nil, hlines]
          · rw [if_neg hvisible]
            rfl
    | cons c t ih =>
        intro line hline
        rw [textLinesFrom]
        -- A line that is dropped leaves the next one to begin afresh.
        by_cases hc : c = '\n'
        · rw [if_pos hc, List.filter_cons]
          by_cases hvisible : visible (line ++ [c]) = true
          · rw [if_pos hvisible, List.flatten_cons, List.append_assoc, textLinesFrom_append _ _
              _ hline,
              List.singleton_append, List.nil_append, textLinesFrom, if_pos hc,
              ih [] List.not_mem_nil]
          · rw [if_neg hvisible]
            exact ih [] List.not_mem_nil
        · rw [if_neg hc]
          refine ih (line ++ [c]) ?_
          intro hmem
          rcases List.mem_append.mp hmem with h | h
          · exact hline h
          · exact hc (List.mem_singleton.mp h).symm
  rw [visibleText_eq, visibleLines, visibleLines, textLines, textLines, hfrom t [] List.not_mem_nil]
  exact List.filter_filter.trans (congrArg₂ List.filter (funext fun _ => Bool.and_self _) rfl)

theorem visibleText_eq_nil_iff (t : Text) : visibleText t = [] ↔ visibleLines t = [] := by
  rw [← visibleLines_visibleText]
  constructor
  · intro h
    rw [h]
    rfl
  · intro h
    rw [visibleLines_visibleText] at h
    rw [visibleText_eq, h]
    rfl

end Lines

section Traversal

/-- The children of a block: elements that the reader makes a statement of, other elements,
    texts and comments. -/
inductive ChildNode (S : Type)
  | statement (s : S)
  | element
  | text (t : Text)
  | comment
deriving DecidableEq

/-- Where a text is attached: in front of a statement, behind one, or inside the block. -/
inductive RelativePosition
  | before (k : Nat)
  | after (k : Nat)
  | inside
deriving DecidableEq, Repr

variable {S : Type}

/-- What is kept while the children are read: the statements of the block, the last one of
    them, the text that waits for the first one, and what has been attached. -/
structure Traversal (S : Type) where
  statements : List S
  prev : Option Nat
  remain : Text
  attached : List (RelativePosition × Text)

/-- Before the first child. -/
def Traversal.start : Traversal S where
  statements := []
  prev := none
  remain := []
  attached := []

/-- A text that is attached if there is any. -/
def attachRawText (p : RelativePosition) (t : Text) : List (RelativePosition × Text) :=
  if t = [] then [] else [(p, t)]

/-- What is done with a child. -/
def traverseChild (s : Traversal S) : ChildNode S → Traversal S
  | .statement x =>
      let k := s.statements.length
      { statements := s.statements ++ [x]
        prev := some k
        remain := []
        attached := s.attached ++ attachRawText (.before k) s.remain }
  | .text tmp =>
      let text := visibleText tmp
      if text = [] then s
      else
        match s.prev with
        | some k => { s with attached := s.attached ++ attachRawText (.after k) text }
        -- takes the place of a text that waits already
        | none => { s with remain := text }
  | .element => s
  | .comment => s

/-- What the reader does with the children of a block: its statements and the texts that are
    attached. -/
def traverseStatementsAndTexts (cs : List (ChildNode S)) :
    List S × List (RelativePosition × Text) :=
  let s := cs.foldl traverseChild .start
  (s.statements, s.attached ++ attachRawText .inside s.remain)

/-- Whether a child is a statement. -/
def ChildNode.isStatement : ChildNode S → Bool
  | .statement _ => true
  | _ => false

/-- The texts of children in front of which there are `n` statements of the block, with the
    places where they belong. Those in front of all statements belong to `first`. -/
def belongsFrom (first : RelativePosition) : Nat → List (ChildNode S) →
    List (RelativePosition × Text)
  | _, [] => []
  | n, .statement _ :: cs => belongsFrom first (n + 1) cs
  | 0, .text t :: cs => (first, t) :: belongsFrom first 0 cs
  | n + 1, .text t :: cs => (.after n, t) :: belongsFrom first (n + 1) cs
  | n, .element :: cs => belongsFrom first n cs
  | n, .comment :: cs => belongsFrom first n cs

/-- The place of the texts in front of the first statement. -/
def firstPlace (cs : List (ChildNode S)) : RelativePosition :=
  if cs.any ChildNode.isStatement then .before 0 else .inside

/-- Where the texts of a block belong. -/
def belongs (cs : List (ChildNode S)) : List (RelativePosition × Text) :=
  belongsFrom (firstPlace cs) 0 cs

/-- The lines that are attached at a place, without blank ones. -/
def linesAt (p : RelativePosition) (xs : List (RelativePosition × Text)) : List Text :=
  (xs.filter fun x => x.1 = p).flatMap fun x => visibleLines x.2

/-- Every line that is not blank is attached once, in its order, where it belongs. -/
def TextsKept (cs : List (ChildNode S)) : Prop :=
  ∀ p, linesAt p (traverseStatementsAndTexts cs).2 = linesAt p (belongs cs)

/-- The texts among children that are not blank. -/
def visibleTexts (cs : List (ChildNode S)) : List Text :=
  cs.filterMap fun c =>
    match c with
    | .text t => if visibleLines t = [] then none else some t
    | _ => none

/-- The texts in front of the first statement that are not blank. -/
def frontTexts (cs : List (ChildNode S)) : List Text :=
  visibleTexts (cs.takeWhile fun c => !c.isStatement)

theorem linesAt_append (p : RelativePosition) (xs ys : List (RelativePosition × Text)) :
    linesAt p (xs ++ ys) = linesAt p xs ++ linesAt p ys := by
  rw [linesAt, List.filter_append, List.flatMap_append]
  rfl

theorem linesAt_cons (p q : RelativePosition) (t : Text) (xs : List (RelativePosition × Text)) :
    linesAt p ((q, t) :: xs) = (if q = p then visibleLines t else []) ++ linesAt p xs := by
  rw [linesAt, List.filter_cons]
  by_cases h : q = p
  · rw [if_pos (decide_eq_true h), if_pos h, List.flatMap_cons]
    rfl
  · rw [if_neg (by rw [decide_eq_true_iff]; exact h), if_neg h]
    rfl

theorem linesAt_attachRawText (p q : RelativePosition) (t : Text) :
    linesAt p (attachRawText q (visibleText t)) = if q = p then visibleLines t else [] := by
  unfold attachRawText
  by_cases ht : visibleText t = []
  · rw [if_pos ht, (visibleText_eq_nil_iff t).mp ht, ite_self]
    rfl
  · rw [if_neg ht, linesAt_cons, visibleLines_visibleText]
    exact List.append_nil _

/-- In front of the first statement the last text that is not blank waits. -/
theorem traverse_front (cs : List (ChildNode S)) (h : ∀ c ∈ cs, c.isStatement = false)
    (s : Traversal S) (hprev : s.prev = none) :
    cs.foldl traverseChild s =
      { s with remain := ((visibleTexts cs).getLast?.map visibleText).getD s.remain } := by
  induction cs generalizing s with
  | nil => rfl
  | cons c cs ih =>
      rw [List.forall_mem_cons] at h
      rw [List.foldl_cons]
      cases c with
      | statement x => cases h.1
      | element => exact ih h.2 s hprev
      | comment => exact ih h.2 s hprev
      | text t =>
          rw [traverseChild]
          by_cases ht : visibleText t = []
          · have hnone : visibleTexts (.text t :: cs) = visibleTexts cs := by
              unfold visibleTexts
              rw [List.filterMap_cons_none]
              dsimp only
              rw [if_pos ((visibleText_eq_nil_iff t).mp ht)]
            rw [if_pos ht, hnone, ih h.2 s hprev]
          · have hsome : visibleTexts (.text t :: cs) = t :: visibleTexts cs := by
              unfold visibleTexts
              rw [List.filterMap_cons_some]
              dsimp only
              rw [if_neg fun he => ht ((visibleText_eq_nil_iff t).mpr he)]
            rw [if_neg ht, hprev, hsome]
            dsimp only
            rw [ih h.2 _ rfl]
            cases hcs : visibleTexts cs with
            | nil => rfl
            | cons u us => rw [List.getLast?_cons_cons]; rfl

/-- Behind a statement every text is attached where it belongs. -/
theorem traverse_rest (first : RelativePosition) (cs : List (ChildNode S)) (s : Traversal S)
    (n : Nat)
    (hcount : s.statements.length = n + 1) (hprev : s.prev = some n) (hremain : s.remain = []) :
    (cs.foldl traverseChild s).remain = [] ∧
      ∀ p, linesAt p (cs.foldl traverseChild s).attached =
        linesAt p s.attached ++ linesAt p (belongsFrom first (n + 1) cs) := by
  induction cs generalizing s n with
  | nil => exact ⟨hremain, fun p => (List.append_nil _).symm⟩
  | cons c cs ih =>
      rw [List.foldl_cons]
      cases c with
      | element => exact ih s n hcount hprev hremain
      | comment => exact ih s n hcount hprev hremain
      | statement x =>
          rw [traverseChild, belongsFrom]
          have hlength : (s.statements ++ [x]).length = n + 1 + 1 := by
            rw [List.length_append, hcount]
            rfl
          refine ⟨(ih _ (n + 1) hlength (congrArg some hcount) rfl).1, fun p => ?_⟩
          rw [(ih _ (n + 1) hlength (congrArg some hcount) rfl).2 p, hremain, attachRawText,
            if_pos rfl,
            List.append_nil]
      | text t =>
          rw [traverseChild, belongsFrom]
          by_cases ht : visibleText t = []
          · rw [if_pos ht]
            refine ⟨(ih s n hcount hprev hremain).1, fun p => ?_⟩
            rw [(ih s n hcount hprev hremain).2 p, linesAt_cons, (visibleText_eq_nil_iff t).mp ht,
              ite_self]
            rfl
          · rw [if_neg ht, hprev]
            dsimp only
            have hnext := ih
              { s with attached := s.attached ++ attachRawText (.after n) (visibleText t) }
              n hcount hprev hremain
            rw [hprev] at hnext
            refine ⟨hnext.1, fun p => ?_⟩
            rw [hnext.2 p, linesAt_append, linesAt_attachRawText, linesAt_cons, List.append_assoc]

/-- The texts in front of the first statement belong to one place. -/
theorem linesAt_belongs_front (first p : RelativePosition) (cs ds : List (ChildNode S))
    (h : ∀ c ∈ cs, c.isStatement = false) :
    linesAt p (belongsFrom first 0 (cs ++ ds)) =
      (if first = p then (visibleTexts cs).flatMap visibleLines else []) ++
        linesAt p (belongsFrom first 0 ds) := by
  induction cs with
  | nil =>
      have hnil : (visibleTexts ([] : List (ChildNode S))).flatMap visibleLines = [] := rfl
      rw [hnil, ite_self, List.nil_append, List.nil_append]
  | cons c cs ih =>
      rw [List.forall_mem_cons] at h
      cases c with
      | statement x => cases h.1
      | element => exact ih h.2
      | comment => exact ih h.2
      | text t =>
          have hlines : (visibleTexts (.text t :: cs)).flatMap visibleLines =
              visibleLines t ++ (visibleTexts cs).flatMap visibleLines := by
            unfold visibleTexts
            rw [List.filterMap_cons]
            by_cases ht : visibleLines t = []
            · simp [ht]
            · simp [ht]
          rw [List.cons_append, belongsFrom, linesAt_cons, ih h.2, hlines]
          by_cases hp : first = p
          · rw [if_pos hp, if_pos hp, if_pos hp, List.append_assoc]
          · rw [if_neg hp, if_neg hp, if_neg hp, List.nil_append]

/-- What is attached of the texts in front of the first statement. -/
theorem linesAt_waiting (first p : RelativePosition) (ts : List Text) :
    linesAt p (attachRawText first ((ts.getLast?.map visibleText).getD [])) =
      if first = p then (ts.getLast?.map visibleLines).getD [] else [] := by
  cases ts.getLast? with
  | none => exact (ite_self _).symm
  | some t => exact linesAt_attachRawText p first t

/-- What the reader has attached at a place, for children `front` in front of the first
    statement. -/
theorem linesAt_traverse (front rest : List (ChildNode S))
    (hfront : ∀ c ∈ front, c.isStatement = false)
    (hrest : ∀ c ∈ rest.head?, c.isStatement = true) (p : RelativePosition) :
    ∃ behind, linesAt p (traverseStatementsAndTexts (front ++ rest)).2 =
        (if firstPlace (front ++ rest) = p then
          ((visibleTexts front).getLast?.map visibleLines).getD [] else []) ++ behind ∧
      linesAt p (belongs (front ++ rest)) =
        (if firstPlace (front ++ rest) = p then (visibleTexts front).flatMap visibleLines
          else []) ++
          behind := by
  have hplace : firstPlace (front ++ rest) = firstPlace rest := by
    have hnone : front.any ChildNode.isStatement = false := List.any_eq_false.mpr fun c hc => by
      rw [hfront c hc]
      exact Bool.false_ne_true
    rw [firstPlace, List.any_append, hnone, Bool.false_or, firstPlace]
  refine ⟨linesAt p (belongsFrom (firstPlace rest) 0 rest), ?_, ?_⟩
  · rw [hplace, ← linesAt_waiting, traverseStatementsAndTexts, List.foldl_append,
      traverse_front front hfront _ rfl]
    have hstart : (Traversal.start : Traversal S).remain = [] := rfl
    rw [hstart]
    -- The first statement takes what is left of the texts before it, and only the last is left.
    cases rest with
    | nil => exact (List.append_nil _).symm
    | cons c rest =>
        have hc := hrest c rfl
        cases c with
        | element => cases hc
        | comment => cases hc
        | text t => cases hc
        | statement x =>
            rw [List.foldl_cons, traverseChild, belongsFrom]
            generalize ((visibleTexts front).getLast?.map visibleText).getD [] = r
            rcases traverse_rest (firstPlace (.statement x :: rest)) rest
              (traverseChild { (Traversal.start : Traversal S) with remain := r } (.statement x)) 0
              rfl rfl rfl with ⟨hremain, hlines⟩
            rw [traverseChild] at hremain hlines
            dsimp only at hremain hlines ⊢
            have hnothing : attachRawText .inside [] = [] := rfl
            rw [hremain, hnothing, List.append_nil]
            exact hlines p
  · rw [belongs, hplace]
    exact linesAt_belongs_front _ p front rest hfront

/-- The lines of the last of some texts are the lines of all of them if there is one at most. -/
theorem last_lines_iff (ts : List Text) (h : ∀ t ∈ ts, visibleLines t ≠ []) :
    (ts.getLast?.map visibleLines).getD [] = ts.flatMap visibleLines ↔ ts.length ≤ 1 := by
  rcases List.eq_nil_or_concat ts with rfl | ⟨init, t, rfl⟩
  · simp
  · rw [List.concat_eq_append, List.getLast?_append, List.getLast?_singleton, Option.some_or,
      Option.map_some, Option.getD_some, List.flatMap_append, List.flatMap_singleton,
      List.length_append, List.length_singleton]
    constructor
    · intro heq
      have hnil : init.flatMap visibleLines = [] := by
        have hlen := congrArg List.length heq
        rw [List.length_append] at hlen
        exact List.length_eq_zero_iff.mp (by omega)
      cases init with
      | nil => exact Nat.le_refl 1
      | cons u init =>
          rw [List.flatMap_cons, List.append_eq_nil_iff] at hnil
          exact absurd hnil.1 (h u (by simp))
    · intro hlen
      have hinit : init = [] := List.length_eq_zero_iff.mp (by omega)
      rw [hinit]
      rfl

theorem visibleLines_of_mem {cs : List (ChildNode S)} {t : Text} (h : t ∈ visibleTexts cs) :
    visibleLines t ≠ [] := by
  unfold visibleTexts at h
  rcases List.mem_filterMap.mp h with ⟨c, _, hc⟩
  cases c with
  | statement x => cases hc
  | element => cases hc
  | comment => cases hc
  | text u =>
      dsimp only at hc
      by_cases hu : visibleLines u = []
      · rw [if_pos hu] at hc
        cases hc
      · rw [if_neg hu, Option.some.injEq] at hc
        rw [← hc]
        exact hu

/-- The texts of a block are kept if at most one that is not blank stands in front of its
    statements. -/
theorem texts_kept_iff (cs : List (ChildNode S)) : TextsKept cs ↔ (frontTexts cs).length ≤ 1 := by
  have hfront : ∀ c ∈ cs.takeWhile (fun c => !c.isStatement), c.isStatement = false := by
    intro c hc
    simpa using List.mem_takeWhile_imp hc
  have hrest : ∀ c ∈ (cs.dropWhile fun c => !c.isStatement).head?, c.isStatement = true := by
    intro c hc
    have hnot := List.head?_dropWhile_not (fun c : ChildNode S => !c.isStatement) cs
    rw [Option.mem_def.mp hc] at hnot
    simpa using hnot
  have hlines := linesAt_traverse _ _ hfront hrest
  rw [List.takeWhile_append_dropWhile] at hlines
  rw [frontTexts, ← last_lines_iff _ fun t ht => visibleLines_of_mem ht]
  constructor
  · intro h
    rcases hlines (firstPlace cs) with ⟨behind, hgot, hwanted⟩
    have hsame := h (firstPlace cs)
    rw [hgot, hwanted, if_pos rfl, if_pos rfl] at hsame
    exact List.append_cancel_right hsame
  · intro h p
    rcases hlines p with ⟨behind, hgot, hwanted⟩
    rw [hgot, hwanted, h]

/-- A text, a comment and another text in front of a statement. -/
def parted : List (ChildNode Unit) :=
  [.text "first\n".toList, .comment, .text "second\n".toList, .statement ()]

/-- The first text is lost. -/
theorem parted_not_kept : ¬ TextsKept parted := by
  intro h
  exact absurd (h (.before 0)) (by decide)

end Traversal

end XevXml
