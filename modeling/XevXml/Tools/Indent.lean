import XevXml.Tools.XmlText
import XevXml.Core.Numeral
import XevXml.Core.Trim

/-!
# Indentation

`xml_indent` rewrites the white space of a forest. For the text in front of a
cell and the text behind its children it looks for the first character that is
no white space and for the last one. If there is something between them the
text in front is put on a line of its own, and the text behind is kept as it is.
Otherwise there is nothing to keep, and a line break with the indentation takes
the place of the text.

The two positions are compared with `<`, where a text of one character has both
of them in the same place. So such a text counts as white space and is lost.

The positions are pointers, and the second one stands in front of the text if
nothing is found, so they are integers here. Whatever is written can be indented
again without a change, also when it is read from the file that has been written.

## Main definitions

* `first`, `last`: The positions of the first and of the last visible character.
* `Cell.indent`, `indentAll`, `xml_indent`: The tool on a cell and on a forest.
* `Cell.shown`: A cell with its texts trimmed.
* `ChangesWhiteSpaceOnly`: The texts stay, and indenting again changes nothing.
* `NoSingle`: A cell without a text of one character.

## Theorems

* `first_lt_last_iff`: The positions differ if there are two visible characters.
* `indentAll_indentAll`: Indenting again changes nothing.
* `fprint_indent_readBack`: Nor does it when the file is read again.
* `changesWhiteSpaceOnly_iff`: The texts stay if none has one character.
-/

namespace XevXml.Tools

namespace Indent

open Numeral Trim

/-- The position of the first character that is no white space, or the end. -/
def first (t : Text) : Int := (t.takeWhile isSpace).length

/-- The position of the last character that is no white space, or the one in front of the
    text. -/
def last (t : Text) : Int := (t.rdropWhile isSpace).length - 1

/-- The characters from one position to the other one. -/
def between (t : Text) (p q : Int) : Text := (t.drop p.toNat).take (q - p + 1).toNat

/-- The text in front of a cell. -/
def indentFront (depth : Nat) (t : Option Text) : Text :=
  match t with
  | none => spaces depth
  | some t =>
      if first t < last t then
        '\n' :: between t (first t) (last t) ++ '\n' :: List.replicate (2 * depth) ' '
      else spaces depth

/-- The text behind the children of a cell. -/
def indentBehind (depth : Nat) (t : Option Text) : Text :=
  match t with
  | none => spaces depth
  | some t => if first t < last t then t else spaces depth

mutual

/-- The tool on a cell. The text in front of a declaration is left as it is. -/
def Cell.indent (depth : Nat) : Cell → Cell
  | .mk type name attrs pretext posttext cs =>
      .mk type name attrs (if type = .dec then pretext else some (indentFront depth pretext))
        (some (indentBehind depth posttext)) (indentAll (depth + 1) cs)

/-- The tool on a cell and its siblings. -/
def indentAll (depth : Nat) : List Cell → List Cell
  | [] => []
  | x :: xs => Cell.indent depth x :: indentAll depth xs

end

/-- The tool on the content of a file. It stops if there is no element. -/
def xml_indent : List Cell → Run (List Cell)
  | [] => .error (.exit "xml_getstr(s): null xml")
  | x :: xs => .ok (indentAll 0 (x :: xs))

/-- A text without the white space around it. An absent text is empty. -/
def shownText (t : Option Text) : Text := trim isSpace (t.getD [])

mutual

/-- A cell with its texts trimmed. -/
def Cell.shown : Cell → Cell
  | .mk type name attrs pretext posttext cs =>
      .mk type name attrs (some (shownText pretext)) (some (shownText posttext)) (shownAll cs)

/-- A forest with its texts trimmed. -/
def shownAll : List Cell → List Cell
  | [] => []
  | x :: xs => Cell.shown x :: shownAll xs

end

/-- The tool comes to an end, what it writes has the elements, attributes and trimmed texts of
    what it has read, and it leaves what it writes as it is. -/
def ChangesWhiteSpaceOnly (xs : List Cell) : Prop :=
  ∃ out, xml_indent xs = .ok out ∧ shownAll out = shownAll xs ∧ xml_indent out = .ok out

/-- The cell has no text that is a single character between white space, unless it stands in
    front of a declaration. -/
def NoSingle (x : Cell) : Prop :=
  (x.type ≠ .dec → (shownText x.pretext).length ≠ 1) ∧ (shownText x.posttext).length ≠ 1

section Positions

/-- The positions differ exactly if the text has two visible characters at least. -/
theorem first_lt_last_iff (t : Text) : first t < last t ↔ 2 ≤ (trim isSpace t).length := by
  unfold first last
  by_cases h : trim isSpace t = []
  · rw [h, List.rdropWhile_eq_nil_iff.mpr ((trim_eq_nil_iff isSpace t).mp h)]
    simp only [List.length_nil]
    omega
  · rw [length_rdropWhile isSpace h]
    omega

/-- The characters between the positions are the trimmed text. -/
theorem between_first_last (t : Text) : between t (first t) (last t) = trim isSpace t := by
  rw [← slice_eq_trim]
  unfold between first last
  congr 1
  omega

theorem indentFront_eq (depth : Nat) (t : Option Text) :
    indentFront depth t =
      if 2 ≤ (shownText t).length then
        '\n' :: shownText t ++ '\n' :: List.replicate (2 * depth) ' '
      else spaces depth := by
  unfold shownText
  cases t with
  | none => rfl
  | some t =>
      unfold indentFront
      simp only [first_lt_last_iff, between_first_last, Option.getD_some]

theorem indentBehind_eq (depth : Nat) (t : Option Text) :
    indentBehind depth t =
      if 2 ≤ (shownText t).length then t.getD [] else spaces depth := by
  unfold shownText
  cases t with
  | none => rfl
  | some t =>
      unfold indentBehind
      simp only [first_lt_last_iff, Option.getD_some]

end Positions

section Texts

theorem isSpace_of_mem_spaces (depth : Nat) (c : Char) (hc : c ∈ spaces depth) :
    isSpace c = true := by
  unfold spaces at hc
  rcases List.mem_cons.mp hc with hc | hc
  · rw [hc]
    rfl
  · rw [List.eq_of_mem_replicate hc]
    rfl

/-- An indentation has nothing visible. -/
@[simp]
theorem shownText_spaces (depth : Nat) : shownText (some (spaces depth)) = [] :=
  (trim_eq_nil_iff isSpace _).mpr (isSpace_of_mem_spaces depth)

@[simp]
theorem shownText_shownText (t : Option Text) : shownText (some (shownText t)) = shownText t :=
  trim_trim isSpace _

/-- A text on a line of its own is the same text. -/
theorem shownText_own_line (depth : Nat) (t : Option Text) :
    shownText (some ('\n' :: shownText t ++ '\n' :: List.replicate (2 * depth) ' ')) =
      shownText t := by
  have hline : ∀ c ∈ ['\n'], isSpace c = true := by
    intro c hc
    rw [List.mem_singleton.mp hc]
    rfl
  have h := trim_append isSpace hline (isSpace_of_mem_spaces depth) (shownText t)
  rw [show trim isSpace (shownText t) = shownText t from trim_trim isSpace _] at h
  exact h

/-- The text in front of a cell stays if it is not a single character. -/
theorem shownText_indentFront_iff (depth : Nat) (t : Option Text) :
    shownText (some (indentFront depth t)) = shownText t ↔ (shownText t).length ≠ 1 := by
  rw [indentFront_eq]
  by_cases h : 2 ≤ (shownText t).length
  · rw [if_pos h, shownText_own_line, eq_self_iff_true, true_iff]
    omega
  · rw [if_neg h, shownText_spaces, eq_comm, ← List.length_eq_zero_iff]
    omega

/-- So does the one behind the children. -/
theorem shownText_indentBehind_iff (depth : Nat) (t : Option Text) :
    shownText (some (indentBehind depth t)) = shownText t ↔ (shownText t).length ≠ 1 := by
  rw [indentBehind_eq]
  by_cases h : 2 ≤ (shownText t).length
  · rw [if_pos h]
    have hsame : shownText (some (t.getD [])) = shownText t := rfl
    rw [hsame, eq_self_iff_true, true_iff]
    omega
  · rw [if_neg h, shownText_spaces, eq_comm, ← List.length_eq_zero_iff]
    omega

/-- The second time the text in front of a cell is left as it is. -/
theorem indentFront_indentFront (depth : Nat) (t : Option Text) :
    indentFront depth (some (indentFront depth t)) = indentFront depth t := by
  rw [indentFront_eq depth (some _)]
  by_cases h : 2 ≤ (shownText t).length
  · have hfront : indentFront depth t =
        '\n' :: shownText t ++ '\n' :: List.replicate (2 * depth) ' ' := by
      rw [indentFront_eq, if_pos h]
    rw [hfront, shownText_own_line, if_pos h]
  · have hfront : indentFront depth t = spaces depth := by
      rw [indentFront_eq, if_neg h]
    rw [hfront, shownText_spaces, if_neg (by rw [List.length_nil]; omega)]

/-- So is the text behind the children. -/
theorem indentBehind_indentBehind (depth : Nat) (t : Option Text) :
    indentBehind depth (some (indentBehind depth t)) = indentBehind depth t := by
  rw [indentBehind_eq depth (some _), Option.getD_some]
  by_cases h : 2 ≤ (shownText t).length
  · have hbehind : indentBehind depth t = t.getD [] := by
      rw [indentBehind_eq, if_pos h]
    rw [hbehind, ite_eq_left_iff]
    exact fun hshort => absurd h hshort
  · have hbehind : indentBehind depth t = spaces depth := by
      rw [indentBehind_eq, if_neg h]
    rw [hbehind, ite_self]

end Texts

section Forests

/-- Indenting again changes nothing. -/
theorem indent_indent :
    (∀ (x : Cell) (depth : Nat), Cell.indent depth (Cell.indent depth x) = Cell.indent depth x) ∧
      ∀ (xs : List Cell) (depth : Nat), indentAll depth (indentAll depth xs) =
        indentAll depth xs := by
  apply Cell.induct
  · intro type name attrs pretext posttext cs ih depth
    simp only [Cell.indent]
    rw [indentBehind_indentBehind, ih]
    by_cases hdec : type = .dec
    · rw [if_pos hdec, if_pos hdec]
    · rw [if_neg hdec, if_neg hdec, indentFront_indentFront]
  · intro depth
    rfl
  · intro x xs hx hxs depth
    simp only [indentAll]
    rw [hx, hxs]

theorem indentAll_indentAll (depth : Nat) (xs : List Cell) :
    indentAll depth (indentAll depth xs) = indentAll depth xs :=
  indent_indent.2 xs depth

/-- The texts stay if and only if none of them is a single character. -/
theorem shown_indent_iff :
    (∀ (x : Cell) (depth : Nat),
      Cell.shown (Cell.indent depth x) = Cell.shown x ↔ ∀ y ∈ x.cells, NoSingle y) ∧
      ∀ (xs : List Cell) (depth : Nat),
        shownAll (indentAll depth xs) = shownAll xs ↔ ∀ y ∈ cellsAll xs, NoSingle y := by
  apply Cell.induct
  · intro type name attrs pretext posttext cs ih depth
    rw [Cell.cells, List.forall_mem_cons, ← ih (depth + 1)]
    simp only [Cell.indent, Cell.shown, Cell.mk.injEq, true_and, Option.some.injEq, NoSingle,
      Cell.type, Cell.pretext, Cell.posttext]
    rw [shownText_indentBehind_iff, and_assoc]
    apply and_congr_left'
    by_cases hdec : type = .dec
    · rw [if_pos hdec]
      simp [hdec]
    · rw [if_neg hdec, shownText_indentFront_iff]
      simp [hdec]
  · intro depth
    simp [indentAll, cellsAll]
  · intro x xs hx hxs depth
    rw [cellsAll, List.forall_mem_append, ← hx depth, ← hxs depth]
    simp only [indentAll, shownAll, List.cons.injEq]

theorem shownAll_indentAll_iff (depth : Nat) (xs : List Cell) :
    shownAll (indentAll depth xs) = shownAll xs ↔ ∀ y ∈ cellsAll xs, NoSingle y :=
  shown_indent_iff.2 xs depth

/-- The tool changes white space only, and nothing when it is applied to what it has written,
    if and only if there is an element and no text is a single character. -/
theorem changesWhiteSpaceOnly_iff (xs : List Cell) :
    ChangesWhiteSpaceOnly xs ↔ xs ≠ [] ∧ ∀ y ∈ cellsAll xs, NoSingle y := by
  unfold ChangesWhiteSpaceOnly
  cases xs with
  | nil =>
      constructor
      · rintro ⟨out, hrun, -⟩
        exact nomatch hrun
      · rintro ⟨hne, -⟩
        exact absurd rfl hne
  | cons x xs =>
      rw [← shownAll_indentAll_iff 0]
      constructor
      · rintro ⟨out, hrun, hsame, -⟩
        cases hrun
        exact ⟨List.cons_ne_nil x xs, hsame⟩
      · rintro ⟨-, hsame⟩
        refine ⟨_, rfl, hsame, ?_⟩
        -- What has been written begins with an element as well.
        have hcons : indentAll 0 (x :: xs) = Cell.indent 0 x :: indentAll 0 xs := rfl
        rw [hcons, xml_indent, ← hcons, indentAll_indentAll]

section Examples

/-- An element with the text `x`. -/
def singleLetter : Cell := .mk .node "a" [] none (some ['x']) []

/-- The letter is replaced by white space. -/
theorem singleLetter_lost : ¬ ChangesWhiteSpaceOnly [singleLetter] := by
  rintro ⟨out, hrun, hsame, -⟩
  cases hrun
  simp only [singleLetter, indentAll, Cell.indent, shownAll, Cell.shown, List.cons.injEq,
    Cell.mk.injEq, Option.some.injEq] at hsame
  exact absurd hsame.1.2.2.2.2.1 (by decide)

end Examples

end Forests

section File

theorem readBackAll_eq_nil_iff (xs : List Cell) : readBackAll xs = [] ↔ xs = [] := by
  cases xs with
  | nil => simp [readBackAll]
  | cons x xs => simp [readBackAll]

theorem indentAll_eq_nil_iff (depth : Nat) (xs : List Cell) : indentAll depth xs = [] ↔
    xs = [] := by
  cases xs with
  | nil => simp [indentAll]
  | cons x xs => simp [indentAll]

theorem all_spaces_spaces (depth : Nat) : all_spaces (some (spaces depth)) = true := by
  unfold all_spaces spaces
  rw [Option.getD_some, List.all_eq_true]
  intro c hc
  rcases List.mem_cons.mp hc with hc | hc
  · rw [hc]
    rfl
  · rw [List.eq_of_mem_replicate hc]
    rfl

/-- When the file that has been written is read and indented again, the same file is written. -/
theorem fprint_indent_readBack :
    (∀ (x : Cell), (∀ y ∈ x.cells, y.type = .node) → ∀ depth,
      (Cell.indent depth (Cell.indent depth x).readBack).fprint = (Cell.indent depth x).fprint) ∧
      ∀ (xs : List Cell), (∀ y ∈ cellsAll xs, y.type = .node) → ∀ depth,
        fprint_xml (indentAll depth (readBackAll (indentAll depth xs))) =
          fprint_xml (indentAll depth xs) := by
  apply Cell.induct
  · intro type name attrs pretext posttext cs ih h depth
    rw [Cell.cells, List.forall_mem_cons] at h
    rcases h with ⟨htype, hcs⟩
    have hbelow := ih hcs (depth + 1)
    change type = .node at htype
    rw [htype]
    have hnode : (CellType.node = CellType.dec) = False := by simp
    have hattrs : (attrs.map attrBack).flatMap attrX = attrs.flatMap attrX := by
      rw [List.flatMap_map]
      rfl
    simp only [Cell.indent, Cell.readBack, Cell.fprint, hnode, if_false, Option.getD_some, hattrs,
      hbelow, indentFront_indentFront, ne_eq, indentAll_eq_nil_iff, readBackAll_eq_nil_iff]
    -- In an element that is written as one tag the white space has been lost in the file.
    by_cases htag : cs = [] ∧ all_spaces (some (indentBehind depth posttext)) = true
    · rw [if_pos htag]
      have hnone : indentBehind depth none = spaces depth := rfl
      simp [htag.1, htag.2, hnone, all_spaces_spaces]
    · rw [if_neg htag, indentBehind_indentBehind]
  · intro _ depth
    rfl
  · intro x xs hx hxs h depth
    rw [cellsAll, List.forall_mem_append] at h
    simp only [indentAll, readBackAll, fprint_xml]
    rw [hx h.1 depth, hxs h.2 depth]

end File

end Indent

end XevXml.Tools
