import XevXml.Dom.Entity
import Mathlib.Data.List.Forall2

/-!
# The Trees of the Tools

The command line tools have an XML library of their own. A cell has a type, a
name, attributes, children, the text in front of it and the text behind its last
child. A cell and those that follow it are a list here: the links that the tools
cut and set again are the tails of such lists.

A tool that finds something it does not expect prints a message and exits, or it
fails an assertion. Both are a `Stop`. The loops of the tools that are not bounded
by their input's shape have a bound on their steps here, and reaching it is a
`Stop` of its own.

## Main definitions

* `Stop`, `Run`: How a tool ends early.
* `OnlyExits`: A tool does not end early but with a message.
* `blank`: The characters the tools take for blanks.
* `Cell`: The cells.
* `xml_make_node`: A new cell.
* `Cell.trimmed`: A cell without the texts that are white space only.
* `SameUpToSpace`: Trees that differ in white space only.

## Theorems

* `Cell.induct`: Induction on cells and lists of cells.
* `sameUpToSpace_append_iff`: Lists are compared piece by piece.
-/

namespace XevXml.Tools

/-- How a tool ends before its work is done. What it does next is undefined when it
    has written behind the end of an array, or reads what it has not been given. -/
inductive Stop
  | exit (message : String)
  | assertion
  | bound
  | undefined
deriving DecidableEq, Repr

/-- What a tool computes unless it stops. -/
abbrev Run := Except Stop

theorem ok_bind {α β : Type} (a : α) (f : α → Run β) : (Except.ok a >>= f) = f a := rfl

theorem error_bind {α β : Type} (e : Stop) (f : α → Run β) :
    (Except.error e >>= f) = .error e := rfl

theorem bind_eq_ok_iff {α β : Type} (x : Run α) (f : α → Run β) (b : β) :
    (x >>= f) = .ok b ↔ ∃ a, x = .ok a ∧ f a = .ok b := by
  cases x with
  | error stop => simp [bind, Except.bind]
  | ok a => simp [bind, Except.bind]

/-- The tool stops with a message, if it stops here at all. -/
def OnlyExits {α : Type} (r : Run α) : Prop := ∀ e, r = .error e → ∃ m, e = .exit m

theorem onlyExits_ok {α : Type} (a : α) : OnlyExits (Except.ok a : Run α) := by
  intro e he
  cases he

theorem onlyExits_exit {α : Type} (m : String) : OnlyExits (Except.error (.exit m) : Run α) := by
  intro e he
  cases he
  exact ⟨m, rfl⟩

theorem onlyExits_bind {α β : Type} {r : Run α} {f : α → Run β} (hr : OnlyExits r)
    (hf : ∀ a, r = .ok a → OnlyExits (f a)) : OnlyExits (r >>= f) := by
  cases r with
  | error e =>
      intro e' he
      cases he
      exact hr e rfl
  | ok a => exact hf a rfl

/-- The characters that are not larger than a blank. Characters are signed, so
    those behind the ASCII characters count as well. -/
def blank (c : Char) : Bool := c.toNat ≤ 32 || 128 ≤ c.toNat

/-- The types of cells that stand in a tree. -/
inductive CellType
  | node
  | dec
  | comm
  | close
deriving DecidableEq, Repr

/-- A cell with everything below it. Values and texts can be absent. -/
inductive Cell
  | mk (type : CellType) (name : String) (attrs : List (String × Option Text))
      (pretext posttext : Option Text) (children : List Cell)

namespace Cell

def type : Cell → CellType
  | mk type _ _ _ _ _ => type

def name : Cell → String
  | mk _ name _ _ _ _ => name

def attrs : Cell → List (String × Option Text)
  | mk _ _ attrs _ _ _ => attrs

def pretext : Cell → Option Text
  | mk _ _ _ pretext _ _ => pretext

def posttext : Cell → Option Text
  | mk _ _ _ _ posttext _ => posttext

def children : Cell → List Cell
  | mk _ _ _ _ _ children => children

/-- The cell with other children. -/
def withChildren (x : Cell) (cs : List Cell) : Cell :=
  mk x.type x.name x.attrs x.pretext x.posttext cs

@[simp]
theorem name_withChildren (x : Cell) (cs : List Cell) : (x.withChildren cs).name = x.name := rfl

@[simp]
theorem children_withChildren (x : Cell) (cs : List Cell) : (x.withChildren cs).children = cs := rfl

@[simp]
theorem withChildren_withChildren (x : Cell) (cs ds : List Cell) :
    (x.withChildren cs).withChildren ds = x.withChildren ds := rfl

@[simp]
theorem withChildren_children (x : Cell) : x.withChildren x.children = x := by
  cases x
  rfl

/-- Induction on cells and lists of cells. -/
theorem induct {P : Cell → Prop} {Q : List Cell → Prop}
    (hmk : ∀ type name attrs pretext posttext cs, Q cs →
      P (mk type name attrs pretext posttext cs))
    (hnil : Q []) (hcons : ∀ x xs, P x → Q xs → Q (x :: xs)) : (∀ x, P x) ∧ ∀ xs, Q xs := by
  have hcell : ∀ x, P x := fun x => Cell.rec (motive_1 := P) (motive_2 := Q)
    (fun type name attrs pretext posttext cs ih => hmk type name attrs pretext posttext cs ih)
    hnil (fun x xs hx hxs => hcons x xs hx hxs) x
  refine ⟨hcell, fun xs => ?_⟩
  induction xs with
  | nil => exact hnil
  | cons x xs ih => exact hcons x xs (hcell x) ih

end Cell

mutual

/-- All cells in a cell. -/
def Cell.cells : Cell → List Cell
  | .mk type name attrs pretext posttext cs =>
      .mk type name attrs pretext posttext cs :: cellsAll cs

/-- All cells in a list of cells. -/
def cellsAll : List Cell → List Cell
  | [] => []
  | x :: xs => x.cells ++ cellsAll xs

end

theorem mem_cells_iff (x y : Cell) : y ∈ x.cells ↔ y = x ∨ y ∈ cellsAll x.children := by
  cases x with
  | mk type name attrs pretext posttext cs => rw [Cell.cells, List.mem_cons]; rfl

/-- The text of a line break and the indentation of a level, the table
    `xos.spaces`. -/
def spaces (level : Nat) : Text := '\n' :: List.replicate (2 * level) ' '

/-- A new element. -/
def xml_make_node (name : String) (pretext : Text) : Cell :=
  .mk .node name [] (some pretext) none []

/-- Whether a text is absent or white space. -/
def all_spaces (s : Option Text) : Bool := (s.getD []).all blank

section White

/-- A text that is white space counts as absent. -/
def trimmedText (s : Option Text) : Option Text := if all_spaces s = true then none else s

theorem trimmedText_eq_none_iff (s : Option Text) : trimmedText s = none ↔ all_spaces s = true := by
  unfold trimmedText
  cases s with
  | none =>
      rw [ite_self]
      exact ⟨fun _ => rfl, fun _ => rfl⟩
  | some t =>
      by_cases h : all_spaces (some t) = true
      · rw [if_pos h]
        exact ⟨fun _ => h, fun _ => rfl⟩
      · rw [if_neg h]
        exact ⟨fun hn => absurd hn (Option.some_ne_none t), fun ht => absurd ht h⟩

mutual

/-- A cell without the texts that are white space only. -/
def Cell.trimmed : Cell → Cell
  | .mk type name attrs pretext posttext cs =>
      .mk type name attrs (trimmedText pretext) (trimmedText posttext) (trimmedAll cs)

/-- A list of cells without them. -/
def trimmedAll : List Cell → List Cell
  | [] => []
  | x :: xs => x.trimmed :: trimmedAll xs

end

/-- Lists of cells that differ in white space only. -/
def SameUpToSpace (xs ys : List Cell) : Prop := trimmedAll xs = trimmedAll ys

theorem trimmedAll_eq_map (xs : List Cell) : trimmedAll xs = xs.map Cell.trimmed := by
  induction xs with
  | nil => rfl
  | cons x xs ih => rw [trimmedAll, ih, List.map_cons]

theorem sameUpToSpace_iff (xs ys : List Cell) :
    SameUpToSpace xs ys ↔ List.Forall₂ (fun x y => x.trimmed = y.trimmed) xs ys := by
  rw [SameUpToSpace, trimmedAll_eq_map, trimmedAll_eq_map, ← List.forall₂_eq_eq_eq,
    List.forall₂_map_left_iff, List.forall₂_map_right_iff]

/-- Lists are compared piece by piece. -/
theorem sameUpToSpace_append_iff {xs ys xs' ys' : List Cell} (h : xs.length = xs'.length) :
    SameUpToSpace (xs ++ ys) (xs' ++ ys') ↔ SameUpToSpace xs xs' ∧ SameUpToSpace ys ys' := by
  have hlen : (xs.map Cell.trimmed).length = (xs'.map Cell.trimmed).length := by
    rw [List.length_map, List.length_map, h]
  simp only [SameUpToSpace, trimmedAll_eq_map, List.map_append]
  exact ⟨fun he => List.append_inj he hlen, fun he => by rw [he.1, he.2]⟩

theorem trimmed_withChildren_iff (x : Cell) (cs ds : List Cell) :
    (x.withChildren cs).trimmed = (x.withChildren ds).trimmed ↔ SameUpToSpace cs ds := by
  simp [Cell.withChildren, Cell.trimmed, SameUpToSpace]

theorem trimmed_withChildren_self_iff (x : Cell) (cs : List Cell) :
    (x.withChildren cs).trimmed = x.trimmed ↔ SameUpToSpace cs x.children := by
  have h := trimmed_withChildren_iff x cs x.children
  rw [Cell.withChildren_children] at h
  exact h

theorem sameUpToSpace_cons_iff (x y : Cell) (xs ys : List Cell) :
    SameUpToSpace (x :: xs) (y :: ys) ↔ x.trimmed = y.trimmed ∧ SameUpToSpace xs ys := by
  rw [SameUpToSpace, SameUpToSpace, trimmedAll, trimmedAll, List.cons.injEq]

theorem length_eq_of_sameUpToSpace {xs ys : List Cell} (h : SameUpToSpace xs ys) :
    xs.length = ys.length :=
  ((sameUpToSpace_iff xs ys).mp h).length_eq

end White

end XevXml.Tools
