import XevXml.Core.Chain
import XevXml.Core.Intern
import XevXml.Dom.Xml
import XevXml.Tools.Cell

/-!
# String Objects

The tools compare names by comparing pointers. A string is looked up in a table of lists,
by a hash of its characters, and a cell is made for it if there is none. The first cell of a
list is compared on its own; behind it the search looks one cell ahead, so that a new cell
can be put where it stops, at the end.

The memory is a list of cells, in the order in which they have been made, and a pointer is
the number of a cell. What the table does is what interning does: the names of the cells are
the pool, and a string is given the cell that has it.

## Main definitions

* `StrobjCell`, `Strobj`: The cells, and the memory with the table.
* `strobjHash`: The place of a string in the table.
* `get_strobj`: Looking up a string.
* `int_strobj`, `strobj_int`: Numbers as strings.
* `Strobj.Inv`: Every list has the cells whose strings belong there, and no string has two
  cells.

## Theorems

* `strobjHash_lt`: The place is in the table.
* `seekCell_spec`: Where the search stops.
* `get_strobj_spec`: Looking up a string is interning it.
* `runStrobj_spec`: So is looking up any strings in a row.
-/

namespace XevXml.Tools

/-- A cell of a list. -/
structure StrobjCell where
  next : Option Nat
  s : Text
deriving DecidableEq, Repr

/-- The cells that have been made, and the table once there is one. -/
structure Strobj where
  cells : List StrobjCell
  strobjTable : Option (List (Option Nat))
deriving DecidableEq, Repr

def strobjHashBit : Nat := 10

def strobjHashSize : Nat := 1 <<< strobjHashBit

def strobjMinSize : Nat := 8

/-- The loop over the characters. A character is signed. -/
def hashFrom : Text → BitVec 32 → BitVec 32 → BitVec 32
  | [], res, _ => res
  | c :: s, res, coef =>
      let res := res + (BitVec.ofNat 8 c.toNat).signExtend 32 * coef
      let res := res &&& BitVec.ofNat 32 (strobjHashSize - 1)
      hashFrom s res (coef + 2)

/-- The place of a string in the table. -/
def strobjHash (s : Text) : Nat := (hashFrom s 0 123).toNat

/-- A new cell for a string. The cell has room for a short string, and as much more as a
    longer one needs. -/
def newStrobjCell (cells : List StrobjCell) (s : Text) : Option (List StrobjCell × Nat) :=
  let len := s.length + 1
  let room := if len ≤ strobjMinSize then strobjMinSize else strobjMinSize + (len - strobjMinSize)
  if len ≤ room then some (cells ++ [⟨none, s⟩], cells.length) else none

/-- Goes from a cell on as long as there is a next one with another string. -/
def seekCell (cells : List StrobjCell) (s : Text) : Nat → Nat → Option Nat
  | 0, _ => none
  | fuel + 1, cell => do
      let c ← cells[cell]?
      match c.next with
      | none => some cell
      | some next => do
          let d ← cells[next]?
          if d.s = s then some cell else seekCell cells s fuel next

/-- The table, which is made when it is needed for the first time. -/
def Strobj.table (st : Strobj) : List (Option Nat) :=
  st.strobjTable.getD (List.replicate strobjHashSize none)

/-- The string object of a string. There is no result if the memory of the table or of a
    cell is left, or if the search has not ended after as many cells as there are. -/
def get_strobj (st : Strobj) : Option Text → Option (Strobj × Option Nat)
  | none => some (st, none)
  | some s => do
      let table := st.table
      let p := strobjHash s
      match ← table[p]? with
      | none => do
          let (cells, cell) ← newStrobjCell st.cells s
          some (⟨cells, some (table.set p (some cell))⟩, some cell)
      | some first => do
          let c ← st.cells[first]?
          if c.s = s then some (⟨st.cells, some table⟩, some first)
          else do
            let cell ← seekCell st.cells s st.cells.length first
            let c ← st.cells[cell]?
            match c.next with
            | some next => some (⟨st.cells, some table⟩, some next)
            | none => do
                let (cells, new) ← newStrobjCell st.cells s
                some (⟨cells.set cell { c with next := some new }, some table⟩, some new)

/-- String objects are asked for one after the other. -/
def runStrobj : Strobj → List (Option Text) → Option (Strobj × List (Option Nat))
  | st, [] => some (st, [])
  | st, call :: calls => do
      let (st, id) ← get_strobj st call
      let (st, ids) ← runStrobj st calls
      some (st, id :: ids)

/-- Before the first string object. -/
def Strobj.initial : Strobj := ⟨[], none⟩

/-- The number of characters that are counted for a number, with one to spare. -/
def digitLoop (nn : Int) (c : Nat) : Nat :=
  if nn = 0 then c else digitLoop (nn.tdiv 10) (c + 1)
termination_by nn.natAbs
decreasing_by
  rename_i h
  rw [Int.natAbs_tdiv]
  exact Nat.div_lt_self (Int.natAbs_pos.mpr h) (by decide)

/-- The string object of a number, if the buffer has room for its digits. -/
def int_strobj (st : Strobj) (n : Int) : Option (Strobj × Option Nat) :=
  let c := digitLoop n 1
  let val := Numeral.printInt n
  if val.length + 1 ≤ c + 2 then get_strobj st (some val) else none

/-- The number in a string. -/
def strobj_int (s : Text) : Run Int :=
  match Numeral.scan s with
  | none => .error (.exit ("strobj_int(" ++ String.ofList s ++ ") failed\n"))
  | some _ => .ok (intFormat.extract s)

/-- The string of a string object. -/
def Strobj.string (st : Strobj) (p : Nat) : Option Text := (st.cells[p]?).map StrobjCell.s

/-- The strings of all cells. -/
def Strobj.names (st : Strobj) : List Text := st.cells.map StrobjCell.s

/-- The pointer in a cell. -/
def nextOf (cells : List StrobjCell) (p : Nat) : Option Nat := (cells[p]?).bind StrobjCell.next

/-- What holds between two calls: every list of the table has the cells whose strings belong
    there, and no string has two cells. -/
structure Strobj.Inv (st : Strobj) : Prop where
  size : st.table.length = strobjHashSize
  bucket : ∀ (p : Nat) (first : Option Nat), st.table[p]? = some first →
    ∃ as, Linked (nextOf st.cells) first as ∧
      ∀ a, a ∈ as ↔ ∃ t, st.names[a]? = some t ∧ strobjHash t = p
  distinct : st.names.Nodup

section Hash

theorem hashFrom_lt (s : Text) (res coef : BitVec 32) (h : res.toNat < strobjHashSize) :
    (hashFrom s res coef).toNat < strobjHashSize := by
  induction s generalizing res coef with
  | nil => exact h
  | cons c s ih =>
      refine ih _ _ ?_
      rw [BitVec.toNat_and]
      exact Nat.lt_of_le_of_lt Nat.and_le_right (by decide)

/-- The place of a string is in the table, so the assertion on it holds. -/
theorem strobjHash_lt (s : Text) : strobjHash s < strobjHashSize := hashFrom_lt s 0 123 (by decide)

end Hash

section Cells

variable {cells : List StrobjCell}

theorem nextOf_eq {a : Nat} {c : StrobjCell} (h : cells[a]? = some c) :
    nextOf cells a = c.next := by
  rw [nextOf, h, Option.bind_some]

theorem newStrobjCell_eq (cells : List StrobjCell) (s : Text) :
    newStrobjCell cells s = some (cells ++ [⟨none, s⟩], cells.length) := by
  have hroom : s.length + 1 ≤ if s.length + 1 ≤ strobjMinSize then strobjMinSize
      else strobjMinSize + (s.length + 1 - strobjMinSize) := by
    split <;> omega
  exact if_pos hroom

/-- A new cell at the end of the memory points nowhere. -/
theorem nextOf_append (cells : List StrobjCell) (s : Text) (a : Nat) :
    nextOf (cells ++ [⟨none, s⟩]) a = nextOf cells a := by
  rw [nextOf, nextOf]
  rcases Nat.lt_trichotomy a cells.length with hlt | rfl | hgt
  · rw [List.getElem?_append_left hlt]
  · rw [List.getElem?_concat_length, List.getElem?_eq_none (Nat.le_refl _)]
    rfl
  · rw [List.getElem?_eq_none (by rw [List.length_append, List.length_singleton]; omega),
      List.getElem?_eq_none (Nat.le_of_lt hgt)]

theorem nextOf_set {i : Nat} {c : StrobjCell} (h : i < cells.length) (a : Nat) :
    nextOf (cells.set i c) a = if a = i then c.next else nextOf cells a := by
  rw [nextOf, nextOf, List.getElem?_set]
  by_cases ha : a = i
  · rw [if_pos ha, if_pos ha.symm, if_pos h]
    rfl
  · rw [if_neg ha, if_neg (Ne.symm ha)]

/-- A cell keeps its string when it gets another pointer. -/
theorem map_s_set {i : Nat} {c : StrobjCell} (h : cells[i]? = some c) (p : Option Nat) :
    (cells.set i { c with next := p }).map StrobjCell.s = cells.map StrobjCell.s := by
  rw [List.map_set]
  refine List.ext_getElem? fun a => ?_
  rw [List.getElem?_set]
  by_cases ha : i = a
  · subst ha
    obtain ⟨hlt, heq⟩ := List.getElem?_eq_some_iff.mp h
    rw [if_pos rfl, if_pos (by rw [List.length_map]; exact hlt), List.getElem?_map, h]
    rfl
  · rw [if_neg ha]

/-- The search stops in front of a cell with the string, or at the last cell if there is no
    such cell behind the first one. -/
theorem seekCell_spec {s : Text} (as : List Nat) {a fuel : Nat}
    (h : Linked (nextOf cells) (some a) (a :: as)) (hvalid : ∀ b ∈ a :: as, b < cells.length)
    (hfuel : as.length < fuel) :
    ∃ cell c, seekCell cells s fuel a = some cell ∧ cells[cell]? = some c ∧
      ((∃ next d, c.next = some next ∧ next ∈ as ∧ cells[next]? = some d ∧ d.s = s) ∨
        c.next = none ∧ (∃ pre, a :: as = pre ++ [cell]) ∧
          ∀ b ∈ as, ∀ d, cells[b]? = some d → d.s ≠ s) := by
  induction as generalizing a fuel with
  | nil =>
      obtain ⟨k, rfl⟩ := Nat.exists_eq_add_of_le' hfuel
      have hlt : a < cells.length := hvalid a List.mem_cons_self
      have hget := List.getElem?_eq_getElem hlt
      have hnext : (cells[a]).next = none := by
        cases h with
        | cons h =>
            rw [nextOf_eq hget] at h
            generalize (cells[a]).next = p at h
            cases h
            rfl
      refine ⟨a, cells[a], ?_, hget,
        Or.inr ⟨hnext, ⟨[], rfl⟩, fun b hb => absurd hb List.not_mem_nil⟩⟩
      simp only [seekCell, hget, hnext, Option.bind_eq_bind, Option.bind_some]
  | cons b as ih =>
      obtain ⟨k, rfl⟩ := Nat.exists_eq_add_of_le' (Nat.one_le_of_lt hfuel)
      rw [List.length_cons] at hfuel
      have hlt : a < cells.length := hvalid a List.mem_cons_self
      have hget := List.getElem?_eq_getElem hlt
      have hltb : b < cells.length := hvalid b (List.mem_cons_of_mem _ List.mem_cons_self)
      have hgetb := List.getElem?_eq_getElem hltb
      have hrest : (cells[a]).next = some b ∧ Linked (nextOf cells) (some b) (b :: as) := by
        cases h with
        | cons h =>
            rw [nextOf_eq hget] at h
            generalize (cells[a]).next = p at h ⊢
            cases h with
            | cons h => exact ⟨rfl, .cons h⟩
      by_cases hs : (cells[b]).s = s
      · refine ⟨a, cells[a], ?_, hget, Or.inl ⟨b, cells[b], hrest.1, List.mem_cons_self, hgetb, hs⟩⟩
        simp only [seekCell, hget, hrest.1, hgetb, hs, if_true, Option.bind_eq_bind,
          Option.bind_some]
      · obtain ⟨cell, c, hseek, hcell, hcases⟩ :=
          ih hrest.2 (fun d hd => hvalid d (List.mem_cons_of_mem _ hd))
            (show as.length < k by omega)
        refine ⟨cell, c, ?_, hcell, ?_⟩
        · simp only [seekCell, hget, hrest.1, hgetb, hs, if_false, Option.bind_eq_bind,
            Option.bind_some, hseek]
        · rcases hcases with ⟨next, d, hnext, hmem, hd, hds⟩ | ⟨hnext, ⟨pre, hpre⟩, hall⟩
          · exact Or.inl ⟨next, d, hnext, List.mem_cons_of_mem _ hmem, hd, hds⟩
          · refine Or.inr ⟨hnext, ⟨a :: pre, by rw [hpre, List.cons_append]⟩, ?_⟩
            intro e he d hd
            rcases List.mem_cons.mp he with rfl | he
            · rw [hgetb, Option.some.injEq] at hd
              exact hd ▸ hs
            · exact hall e he d hd

end Cells

section Lookup

variable {st : Strobj} {s : Text}

theorem names_getElem? (st : Strobj) (a : Nat) : st.names[a]? = st.string a := by
  rw [Strobj.names, List.getElem?_map]
  rfl

/-- A string without a cell in its list has no cell at all. -/
theorem not_mem_names {as : List Nat}
    (hmem : ∀ a, a ∈ as ↔ ∃ t, st.names[a]? = some t ∧ strobjHash t = strobjHash s)
    (hno : ∀ a ∈ as, st.names[a]? ≠ some s) : s ∉ st.names := by
  intro hs
  obtain ⟨a, ha⟩ := List.mem_iff_getElem?.mp hs
  exact hno a ((hmem a).mpr ⟨s, ha, rfl⟩) ha

/-- The other lists do not change when a string gets a cell, and its own has the new one. -/
theorem Strobj.Inv.insert (hinv : st.Inv) (hs : s ∉ st.names) {cells : List StrobjCell}
    {table : List (Option Nat)} (hnames : cells.map StrobjCell.s = st.names ++ [s])
    (hsize : table.length = strobjHashSize)
    (hother : ∀ q, q ≠ strobjHash s → table[q]? = st.table[q]?)
    (hframe : ∀ a t, st.names[a]? = some t → strobjHash t ≠ strobjHash s →
      nextOf cells a = nextOf st.cells a)
    (hbucket : ∀ first, table[strobjHash s]? = some first → ∃ as, Linked (nextOf cells) first as ∧
      ∀ a, a ∈ as ↔ (∃ t, st.names[a]? = some t ∧ strobjHash t = strobjHash s) ∨
        a = st.names.length) :
    (⟨cells, some table⟩ : Strobj).Inv := by
  have hnames' : (⟨cells, some table⟩ : Strobj).names = st.names ++ [s] := hnames
  -- The new names are the old ones and the one at the end.
  have hget : ∀ a t, (st.names ++ [s])[a]? = some t ↔
      st.names[a]? = some t ∨ a = st.names.length ∧ s = t := by
    intro a t
    rcases Nat.lt_trichotomy a st.names.length with hlt | rfl | hgt
    · rw [List.getElem?_append_left hlt]
      exact ⟨Or.inl, fun h => h.elim id fun h => absurd h.1 (Nat.ne_of_lt hlt)⟩
    · rw [List.getElem?_concat_length, List.getElem?_eq_none (Nat.le_refl _)]
      simp
    · rw [List.getElem?_eq_none (by rw [List.length_append, List.length_singleton]; omega),
        List.getElem?_eq_none (Nat.le_of_lt hgt)]
      simp [Nat.ne_of_gt hgt]
  refine ⟨hsize, ?_, ?_⟩
  · intro p first hp
    by_cases heq : p = strobjHash s
    · subst heq
      obtain ⟨as, hchain, hmem⟩ := hbucket first hp
      refine ⟨as, hchain, fun a => ?_⟩
      rw [hmem, hnames']
      constructor
      · rintro (⟨t, ht, hhash⟩ | rfl)
        · exact ⟨t, (hget a t).mpr (Or.inl ht), hhash⟩
        · exact ⟨s, (hget _ s).mpr (Or.inr ⟨rfl, rfl⟩), rfl⟩
      · rintro ⟨t, ht, hhash⟩
        rcases (hget a t).mp ht with ht | ⟨ha, -⟩
        · exact Or.inl ⟨t, ht, hhash⟩
        · exact Or.inr ha
    · have hold : st.table[p]? = some first := (hother p heq).symm.trans hp
      obtain ⟨as, hchain, hmem⟩ := hinv.bucket p first hold
      refine ⟨as, hchain.congr ?_, fun a => ?_⟩
      · intro a ha
        obtain ⟨t, ht, hhash⟩ := (hmem a).mp ha
        exact hframe a t ht (by rw [hhash]; exact heq)
      · rw [hmem, hnames']
        constructor
        · rintro ⟨t, ht, hhash⟩
          exact ⟨t, (hget a t).mpr (Or.inl ht), hhash⟩
        · rintro ⟨t, ht, hhash⟩
          rcases (hget a t).mp ht with ht | ⟨-, rfl⟩
          · exact ⟨t, ht, hhash⟩
          · exact absurd hhash.symm heq
  · have hpool := (intern_spec hinv.distinct s).1
    rw [intern_of_not_mem hs] at hpool
    rw [hnames']
    exact hpool

/-- The table that is made when it is needed is the one that was meant before. -/
theorem Strobj.Inv.made (hinv : st.Inv) : (⟨st.cells, some st.table⟩ : Strobj).Inv :=
  ⟨hinv.size, hinv.bucket, hinv.distinct⟩

theorem length_names (st : Strobj) : st.names.length = st.cells.length := List.length_map _

theorem names_of_cell {a : Nat} {c : StrobjCell} (h : st.cells[a]? = some c) :
    st.names[a]? = some c.s := by
  rw [names_getElem?, Strobj.string, h]
  rfl

/-- A string gets the first cell of its list. -/
theorem Strobj.Inv.insert_first (hinv : st.Inv) (hs : s ∉ st.names)
    (hempty : ∀ a : Nat, ¬ ∃ t, st.names[a]? = some t ∧ strobjHash t = strobjHash s) :
    (⟨st.cells ++ [(⟨none, s⟩ : StrobjCell)],
      some (st.table.set (strobjHash s) (some st.cells.length))⟩ : Strobj).Inv := by
  refine hinv.insert hs ?_ ?_ ?_ ?_ ?_
  · rw [List.map_append]
    rfl
  · rw [List.length_set, hinv.size]
  · intro q hq
    rw [List.getElem?_set, if_neg (Ne.symm hq)]
  · intro a t _ _
    exact nextOf_append _ _ _
  · intro first hnew
    have hlt : strobjHash s < st.table.length := by
      rw [hinv.size]
      exact strobjHash_lt s
    rw [List.getElem?_set, if_pos rfl, if_pos hlt, Option.some.injEq] at hnew
    subst hnew
    refine ⟨[st.cells.length], .cons ?_, fun a => ?_⟩
    · rw [nextOf_append, nextOf, List.getElem?_eq_none (Nat.le_refl _)]
      exact .nil
    · rw [List.mem_singleton, length_names]
      exact ⟨Or.inr, fun h => h.elim (fun h => absurd h (hempty a)) id⟩

/-- A string gets a cell behind the last one of its list. -/
theorem Strobj.Inv.insert_last (hinv : st.Inv) (hs : s ∉ st.names) {first : Option Nat}
    {pre : List Nat} {cell : Nat} {c : StrobjCell}
    (hentry : st.table[strobjHash s]? = some first)
    (hchain : Linked (nextOf st.cells) first (pre ++ [cell]))
    (hmem : ∀ a, a ∈ pre ++ [cell] ↔
      ∃ t, st.names[a]? = some t ∧ strobjHash t = strobjHash s)
    (hcell : st.cells[cell]? = some c) :
    (⟨(st.cells ++ [(⟨none, s⟩ : StrobjCell)]).set cell { c with next := some st.cells.length },
      some st.table⟩ : Strobj).Inv ∧
    (⟨(st.cells ++ [(⟨none, s⟩ : StrobjCell)]).set cell { c with next := some st.cells.length },
      some st.table⟩ : Strobj).names = st.names ++ [s] := by
  obtain ⟨hlt, -⟩ := List.getElem?_eq_some_iff.mp hcell
  have hlt' : cell < (st.cells ++ [(⟨none, s⟩ : StrobjCell)]).length := by
    rw [List.length_append]
    exact Nat.lt_add_right _ hlt
  have hcell' : (st.cells ++ [(⟨none, s⟩ : StrobjCell)])[cell]? = some c := by
    rw [List.getElem?_append_left hlt, hcell]
  have hnames : ((st.cells ++ [(⟨none, s⟩ : StrobjCell)]).set cell
      { c with next := some st.cells.length }).map StrobjCell.s = st.names ++ [s] := by
    rw [map_s_set hcell', List.map_append]
    rfl
  refine ⟨hinv.insert hs hnames hinv.size (fun _ _ => rfl) ?_ ?_, hnames⟩
  · intro a t ht hhash
    have hne : a ≠ cell := by
      rintro rfl
      obtain ⟨t', ht', hhash'⟩ := (hmem a).mp (by simp)
      rw [ht', Option.some.injEq] at ht
      exact hhash (ht ▸ hhash')
    rw [nextOf_set hlt', if_neg hne, nextOf_append]
  · intro head hhead
    obtain rfl : first = head := by
      have htable := hentry.symm.trans hhead
      rwa [Option.some.injEq] at htable
    have hnodup := hchain.nodup
    refine ⟨pre ++ [cell, st.cells.length], hchain.extend ?_ ?_ ?_, ?_⟩
    · rw [nextOf_set hlt', if_pos rfl]
    · rw [nextOf_set hlt', if_neg (Nat.ne_of_gt hlt), nextOf_append, nextOf,
        List.getElem?_eq_none (Nat.le_refl _)]
      rfl
    · intro a ha
      have hne : a ≠ cell := by
        rintro rfl
        rw [List.nodup_append] at hnodup
        exact hnodup.2.2 a ha a (by simp) rfl
      rw [nextOf_set hlt', if_neg hne, nextOf_append]
    · intro a
      rw [← hmem a, length_names]
      simp [or_assoc]

/-- Looking up a string is interning it in the names of the cells. -/
theorem get_strobj_spec (hinv : st.Inv) (s : Text) :
    ∃ st', get_strobj st (some s) = some (st', some (intern st.names s).2) ∧ st'.Inv ∧
      st'.names = (intern st.names s).1 := by
  have hlt : strobjHash s < st.table.length := by
    rw [hinv.size]
    exact strobjHash_lt s
  obtain ⟨entry, hentry⟩ : ∃ entry, st.table[strobjHash s]? = some entry :=
    ⟨_, List.getElem?_eq_getElem hlt⟩
  obtain ⟨as, hchain, hmem⟩ := hinv.bucket _ _ hentry
  have hvalid : ∀ a ∈ as, a < st.cells.length := by
    intro a ha
    obtain ⟨t, ht, -⟩ := (hmem a).mp ha
    obtain ⟨hlt, -⟩ := List.getElem?_eq_some_iff.mp ht
    rwa [length_names] at hlt
  cases hchain with
  | nil =>
      -- The list is empty, and the new cell is its first one.
      have hempty : ∀ a : Nat, ¬ ∃ t, st.names[a]? = some t ∧ strobjHash t = strobjHash s :=
        fun a h => absurd ((hmem a).mpr h) List.not_mem_nil
      have hs : s ∉ st.names := not_mem_names hmem fun a ha => absurd ha List.not_mem_nil
      rw [intern_of_not_mem hs, length_names]
      refine ⟨_, ?_, hinv.insert_first hs hempty, ?_⟩
      · simp only [get_strobj, hentry, newStrobjCell_eq, Option.bind_eq_bind, Option.bind_some]
      · rw [Strobj.names, List.map_append]
        rfl
  | cons hrest =>
      rename_i first rest
      have hchain := Linked.cons hrest
      have hfit : (first :: rest).length ≤ st.cells.length := by
        have hsub := hchain.nodup.subperm fun a ha => List.mem_range.mpr (hvalid a ha)
        simpa using hsub.length_le
      have hltf := hvalid first List.mem_cons_self
      have hgetf := List.getElem?_eq_getElem hltf
      by_cases hhead : st.cells[first].s = s
      · rw [intern_of_getElem? hinv.distinct (hhead ▸ names_of_cell hgetf)]
        refine ⟨⟨st.cells, some st.table⟩, ?_, hinv.made, rfl⟩
        simp only [get_strobj, hentry, hgetf, hhead, if_true, Option.bind_eq_bind, Option.bind_some]
      obtain ⟨cell, c, hseek, hcell, hcases⟩ :=
        seekCell_spec (s := s) rest hchain hvalid
          (show rest.length < st.cells.length by rw [List.length_cons] at hfit; omega)
      rcases hcases with ⟨next, d, hnext, -, hd, hds⟩ | ⟨hnext, ⟨pre, hpre⟩, hall⟩
      · rw [intern_of_getElem? hinv.distinct (hds ▸ names_of_cell hd)]
        refine ⟨⟨st.cells, some st.table⟩, ?_, hinv.made, rfl⟩
        simp only [get_strobj, hentry, hgetf, hhead, if_false, hseek, hcell, hnext,
          Option.bind_eq_bind, Option.bind_some]
      · -- No cell of the list has the string, and the last one gets a new one behind it.
        have hs : s ∉ st.names := by
          refine not_mem_names hmem fun a ha heq => ?_
          have hgeta := List.getElem?_eq_getElem (hvalid a ha)
          rw [names_of_cell hgeta, Option.some.injEq] at heq
          rcases List.mem_cons.mp ha with rfl | harest
          · exact hhead heq
          · exact hall a harest _ hgeta heq
        rw [hpre] at hchain hmem
        obtain ⟨hinv', hnames⟩ := hinv.insert_last hs hentry hchain hmem hcell
        rw [intern_of_not_mem hs, length_names]
        refine ⟨_, ?_, hinv', hnames⟩
        simp only [get_strobj, hentry, hgetf, hhead, if_false, hseek, hcell, hnext,
          newStrobjCell_eq, Option.bind_eq_bind, Option.bind_some]

/-- Looking up any strings in a row is interning them, and the table stays as it should be. -/
theorem runStrobj_spec (hinv : st.Inv) (calls : List (Option Text)) :
    ∃ st', runStrobj st calls = some (st', (internAll st.names calls).2) ∧ st'.Inv ∧
      st'.names = (internAll st.names calls).1 := by
  induction calls generalizing st with
  | nil => exact ⟨st, rfl, hinv, rfl⟩
  | cons call calls ih =>
      cases call with
      | none =>
          obtain ⟨st', hrun, hinv', hnames⟩ := ih hinv
          refine ⟨st', ?_, hinv', hnames⟩
          simp only [runStrobj, get_strobj, Option.bind_eq_bind, Option.bind_some, hrun, internAll]
      | some s =>
          obtain ⟨st₁, hget, hinv₁, hnames₁⟩ := get_strobj_spec hinv s
          obtain ⟨st', hrun, hinv', hnames⟩ := ih hinv₁
          rw [hnames₁] at hrun hnames
          refine ⟨st', ?_, hinv', hnames⟩
          simp only [runStrobj, hget, Option.bind_eq_bind, Option.bind_some, hrun, internAll]

theorem initial_inv : Strobj.initial.Inv := by
  refine ⟨List.length_replicate, ?_, List.nodup_nil⟩
  intro p first hp
  have hnone : first = none := by
    have hmem := List.mem_of_getElem? hp
    exact List.eq_of_mem_replicate hmem
  subst hnone
  exact ⟨[], .nil, fun a => by simp [Strobj.names, Strobj.initial]⟩

/-- No two cells of a list have the same string. -/
theorem Strobj.Inv.bucket_nodup (hinv : st.Inv) {p : Nat} {first : Option Nat}
    (hentry : st.table[p]? = some first) :
    ∃ as, Linked (nextOf st.cells) first as ∧ as.Nodup ∧ (as.map st.string).Nodup := by
  obtain ⟨as, hchain, hmem⟩ := hinv.bucket p first hentry
  refine ⟨as, hchain, hchain.nodup, ?_⟩
  refine List.Nodup.map_on ?_ hchain.nodup
  intro a ha b _ heq
  obtain ⟨t, ht, -⟩ := (hmem a).mp ha
  obtain ⟨hlt, -⟩ := List.getElem?_eq_some_iff.mp ht
  rw [← names_getElem?, ← names_getElem?] at heq
  exact (List.getElem?_inj hlt hinv.distinct).mp heq

end Lookup

section Numbers

/-- The loop counts the digits of a number. -/
theorem digitLoop_eq {nn : Int} (h : nn ≠ 0) (c : Nat) :
    digitLoop nn c = c + (Numeral.printNat nn.natAbs).length := by
  generalize hm : nn.natAbs = m
  induction m using Nat.strong_induction_on generalizing nn c with
  | _ m ih =>
      have hdiv : (nn.tdiv 10).natAbs = m / 10 := by
        rw [Int.natAbs_tdiv, hm]
        rfl
      rw [digitLoop, if_neg h]
      by_cases hlt : m < 10
      · have hzero : nn.tdiv 10 = 0 := Int.natAbs_eq_zero.mp (by rw [hdiv]; omega)
        rw [hzero, digitLoop, if_pos rfl, Numeral.printNat, Nat.toDigits_of_lt_base hlt]
        rfl
      · have hne : nn.tdiv 10 ≠ 0 := by
          intro heq
          rw [heq] at hdiv
          have hzero : m / 10 = 0 := hdiv.symm
          omega
        rw [ih (m / 10) (by omega) hne (c + 1) hdiv, Numeral.printNat, Numeral.printNat,
          Nat.toDigits_of_base_le (by decide) (Nat.le_of_not_lt hlt), List.length_append,
          List.length_singleton]
        omega

/-- The buffer has room for the sign, the digits and the terminator. -/
theorem length_printInt (n : Int) : (Numeral.printInt n).length + 1 ≤ digitLoop n 1 + 2 := by
  by_cases hzero : n = 0
  · subst hzero
    rw [digitLoop, if_pos rfl]
    decide
  · rw [digitLoop_eq hzero]
    cases n with
    | ofNat m => simp only [Numeral.printInt, Int.ofNat_eq_natCast, Int.natAbs_natCast]; omega
    | negSucc m =>
        simp only [Numeral.printInt, Int.natAbs_negSucc, Nat.succ_eq_add_one, List.length_cons]
        omega

theorem int_strobj_eq (st : Strobj) (n : Int) :
    int_strobj st n = get_strobj st (some (Numeral.printInt n)) := if_pos (length_printInt n)

theorem strobj_int_printInt {n : Int} (h : intFormat.InRange n) :
    strobj_int (Numeral.printInt n) = .ok n := by
  rw [strobj_int, Numeral.scan_printInt]
  simp only [Numeral.Format.extract_printInt h]

end Numbers

/-- For any strings that are looked up in a row every call has a result. Two results are the
    same pointer if and only if the strings are the same, NULL being the result for NULL;
    in the end every pointer still has the string that it was given for; no list of the
    table has a cell or a string twice, and the place of a string is in the table. At any
    time a number has a string object, and the number is read back from it. -/
theorem strobj_interning (calls : List (Option Text)) :
    ∃ st ids, runStrobj .initial calls = some (st, ids) ∧ ids.length = calls.length ∧
      (∀ (i j : Nat) (x y : Option Text), calls[i]? = some x → calls[j]? = some y →
        (ids[i]? = ids[j]? ↔ x = y)) ∧
      (∀ (i : Nat) (s : Text), calls[i]? = some (some s) →
        ∃ p, ids[i]? = some (some p) ∧ st.string p = some s) ∧
      (∀ (p : Nat) (first : Option Nat), st.table[p]? = some first →
        ∃ as, Linked (nextOf st.cells) first as ∧ as.Nodup ∧ (as.map st.string).Nodup) ∧
      (∀ s, strobjHash s < strobjHashSize ∧ strobjHash s < st.table.length) ∧
      ∀ n : Int, intFormat.InRange n → ∃ st' p s, int_strobj st n = some (st', some p) ∧
        st'.string p = some s ∧ strobj_int s = .ok n := by
  obtain ⟨st, hrun, hinv, hnames⟩ := runStrobj_spec initial_inv calls
  have hnodup : Strobj.initial.names.Nodup := initial_inv.distinct
  obtain ⟨-, -, hlen, hall⟩ := internAll_spec calls hnodup
  refine ⟨st, _, hrun, hlen, ?_, ?_, fun p first => hinv.bucket_nodup, ?_, ?_⟩
  · intro i j x y hi hj
    exact internAll_eq_iff calls hnodup hi hj
  · intro i s hi
    rcases hall i _ hi with ⟨hnone, -⟩ | ⟨t, p, ht, hid, hp⟩
    · cases hnone
    · rw [Option.some.injEq] at ht
      exact ⟨p, hid, by rw [← names_getElem?, hnames, hp, ht]⟩
  · exact fun s => ⟨strobjHash_lt s, by rw [hinv.size]; exact strobjHash_lt s⟩
  · intro n hn
    obtain ⟨st', hget, -, hnames'⟩ := get_strobj_spec hinv (Numeral.printInt n)
    obtain ⟨-, -, hplace⟩ := intern_spec hinv.distinct (Numeral.printInt n)
    refine ⟨st', _, Numeral.printInt n, (int_strobj_eq st n).trans hget, ?_,
      strobj_int_printInt hn⟩
    rw [← names_getElem?, hnames', hplace]

end XevXml.Tools
