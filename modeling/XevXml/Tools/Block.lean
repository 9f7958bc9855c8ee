import XevXml.Core.Fuel
import XevXml.Tools.Cell

/-!
# Blocks between Directives

A directive with the clause `begin` opens a block, one with the clause `end` closes
it, and one with both ends a section of the block and opens the next one. They
stand in a row with the statements of the block. `xev_constr_block` moves the
statements of a section into a target of the directive that opens the block, and
`xev_destr_block` moves them back.

The way to find the end of a block leads over the blocks inside. Such a block is
constructed as soon as it is met, and everything behind it is constructed with it,
up to the end of the row. What separates the sections of the outer block is taken
for the beginning of a block then, and gets targets of its own. The outer block
finds it afterwards, still marked as an end, and takes over its children: the
clauses and the targets that it would have made itself.

The proofs therefore describe what a list of cells will have become when the
construction has gone over it, `Settles`, whatever part of it has been over it
already.

## Main definitions

* `find_end`, `make_pair`, `xev_constr_block`: The construction.
* `xev_destr_block`: The way back.

## Theorems

* `settles_inert`: Where there is no directive nothing is constructed.
* `find_end_block`: A block on the way to the end of a section.
* `settles_block`, `pairs_close`, `pairs_more`: A block, and the ends of its sections.
* `constructs_built`: What a row is constructed to.
-/

namespace XevXml.Tools

open Fuel

section Directives

/-- The names of the cells that are directives. -/
def isDirective (x : Cell) : Bool := x.name == "xev_pragma" || x.name == "xevdrs_line"

/-- Whether a clause has a name. -/
def clauseNamed (name : String) (c : Cell) : Bool :=
  c.attrs.lookup "name" == some (some name.toList)

/-- Whether the second child of a cell is a target. -/
def hasTarget (x : Cell) : Bool :=
  match x.children with
  | _ :: t :: _ => t.name == "xev_target"
  | _ => false

/-- Whether one of the clauses of a cell has a name. -/
def hasClause (name : String) (x : Cell) : Bool :=
  match x.children with
  | [] => false
  | c :: _ => c.children.any (clauseNamed name)

/-- Whether a directive opens a block that has not been constructed. -/
def directive_begin (x : Cell) : Run Bool :=
  if isDirective x = false ∨ hasTarget x = true then .ok false
  else if x.children = [] then .error .assertion
  else .ok (hasClause "begin" x)

/-- Whether a directive closes a section. -/
def directive_end (x : Cell) : Bool := isDirective x && hasClause "end" x

/-- Takes the first clause with a name from a list of clauses. -/
def detached (name : String) (c : Cell) : Cell :=
  c.withChildren (c.children.eraseP (clauseNamed name))

/-- Takes a clause from a directive. -/
def detach (name : String) (x : Cell) : Run Cell :=
  match x.children with
  | [] => .error .assertion
  | c :: cs =>
      if hasClause name x then .ok (x.withChildren (detached name c :: cs))
      else if c.children = [] then .error (.exit "xml_getstr(ca=name): mismatching xml structure")
      else .error (.exit "xml_getstr(na=name): mismatching xml structure")

end Directives

section Construct

/-- A target with the statements of a section. -/
def target (cs : List Cell) : Cell :=
  .mk .node "xev_target" [] (some (spaces 0)) (if cs = [] then none else some (spaces 0)) cs

mutual

/-- The statements up to the end of a section, the end, and what follows it. A
    block in between is constructed, and all that stands behind it. -/
def find_end : Nat → List Cell → Run (List Cell × Cell × List Cell)
  | 0, _ => .error .bound
  | _ + 1, [] => .error (.exit "cannot find begin-end pair")
  | fuel + 1, x :: xs =>
      if directive_end x then .ok ([], x, xs)
      else do
        let b ← directive_begin x
        let ys ← if b then xev_constr_block fuel (x :: xs) else .ok (x :: xs)
        let (n, e, en) ← find_end fuel ys.tail
        .ok (ys.take 1 ++ n, e, en)

/-- Gives a directive a target for every section of its block. `fst` is set for the
    first section. The result is the directive and what follows the block. -/
def make_pair : Nat → Bool → Cell → List Cell → Run (Cell × List Cell)
  | 0, _, _, _ => .error .bound
  | fuel + 1, fst, x, xs => do
      let (n, e, en) ← find_end fuel xs
      let cont ← directive_begin e
      let e ← detach "end" e
      let e ← if cont then detach "begin" e else .ok e
      let x := x.withChildren (x.children ++ target n :: e.children)
      let x ← if fst then detach "begin" x else .ok x
      if cont then make_pair fuel false x en else .ok (x, en)

/-- Constructs the blocks in a list of cells and below. -/
def xev_constr_block : Nat → List Cell → Run (List Cell)
  | 0, _ => .error .bound
  | _ + 1, [] => .ok []
  | fuel + 1, x :: xs => do
      let b ← directive_begin x
      let (x, xs) ← if b then make_pair fuel true x xs else .ok (x, xs)
      let cs ← xev_constr_block fuel x.children
      let ys ← xev_constr_block fuel xs
      .ok (x.withChildren cs :: ys)

end

end Construct

section Destruct

/-- A new clause. -/
def clauseNode (name : String) : Cell :=
  .mk .node "xev_clause" [("name", some name.toList)] (some []) none []

/-- Puts a new clause behind the others. -/
def appended (name : String) (c : Cell) : Cell := c.withChildren (c.children ++ [clauseNode name])

/-- Puts a new clause `end` into a list of clauses: behind the first one, which is
    the name of a pragma, or behind all of them. -/
def insert_end (type : String) (c : Cell) : Run Cell :=
  if type = "xev_pragma" then
    match c.children with
    | [] => .error .assertion
    | name :: cs => .ok (c.withChildren (name :: clauseNode "end" :: cs))
  else .ok (appended "end" c)

/-- The sections of a block in a row, each with the directive that ends it. -/
def sections (type : String) : List Cell → Run (List Cell)
  | [] => .ok []
  | [_] => .error (.exit "xml_cut_link(n): mismatched structure")
  | t :: l :: ts => do
      let l ← insert_end type l
      let l := if ts = [] then l else appended "begin" l
      let ys ← sections type ts
      .ok (t.children ++ .mk .node type [] (some (spaces 3)) (some (spaces 3)) [l] :: ys)

/-- Moves the sections of all blocks back into the rows they come from. -/
def xev_destr_block : Nat → List Cell → Run (List Cell)
  | 0, _ => .error .bound
  | _ + 1, [] => .ok []
  | fuel + 1, x :: xs => do
      let (x, xs) ← if isDirective x && hasTarget x then
          match x.children with
          | [] => .error .assertion
          | c :: ts => do
              let ys ← sections x.name ts
              .ok (x.withChildren [appended "begin" c], ys ++ xs)
        else .ok (x, xs)
      let cs ← xev_destr_block fuel x.children
      let ys ← xev_destr_block fuel xs
      .ok (x.withChildren cs :: ys)

end Destruct

section Forests

mutual

/-- What stands in a row: a cell with a row of its own, a directive on its own, and
    a block. -/
inductive Item
  | plain (x : Cell) (cs : Items)
  | line (x : Cell)
  | block (d : Cell) (ch : Chain)

/-- A row. -/
inductive Items
  | nil
  | cons (i : Item) (is : Items)

/-- The sections of a block, each with the directive that ends it. -/
inductive Chain
  | close (is : Items) (e : Cell)
  | more (is : Items) (e : Cell) (ch : Chain)

end

/-- Induction on rows. -/
theorem Items.induct {P : Item → Prop} {Q : Items → Prop} {R : Chain → Prop}
    (hplain : ∀ x cs, Q cs → P (.plain x cs)) (hline : ∀ x, P (.line x))
    (hblock : ∀ d ch, R ch → P (.block d ch)) (hnil : Q .nil)
    (hcons : ∀ i is, P i → Q is → Q (.cons i is)) (hclose : ∀ is e, Q is → R (.close is e))
    (hmore : ∀ is e ch, Q is → R ch → R (.more is e ch)) (is : Items) : Q is :=
  Items.rec (motive_1 := P) (motive_2 := Q) (motive_3 := R) (fun x cs ih => hplain x cs ih)
    (fun x => hline x) (fun d ch ih => hblock d ch ih) hnil
    (fun i is ihi ihis => hcons i is ihi ihis) (fun is e ih => hclose is e ih)
    (fun is e ch ihis ihch => hmore is e ch ihis ihch) is

mutual

/-- The cells of an item. -/
def Item.flat : Item → List Cell
  | .plain x cs => [x.withChildren cs.flat]
  | .line x => [x]
  | .block d ch => d :: ch.flat

/-- The cells of a row. -/
def Items.flat : Items → List Cell
  | .nil => []
  | .cons i is => i.flat ++ is.flat

/-- The cells of the sections of a block. -/
def Chain.flat : Chain → List Cell
  | .close is e => is.flat ++ [e]
  | .more is e ch => is.flat ++ e :: ch.flat

end

mutual

/-- The cell that an item is constructed to. -/
def Item.built : Item → Cell
  | .plain x cs => x.withChildren cs.built
  | .line x => x
  | .block d ch => d.withChildren (d.children.map (detached "begin") ++ ch.parts)

/-- The cells that a row is constructed to. -/
def Items.built : Items → List Cell
  | .nil => []
  | .cons i is => i.built :: is.built

/-- The targets of a block, each with the clauses of the directive that ends it. -/
def Chain.parts : Chain → List Cell
  | .close is e => target is.built :: e.children.map (detached "end")
  | .more is e ch =>
      target is.built :: (e.children.map fun c => detached "begin" (detached "end" c)) ++ ch.parts

end

/-- No cell in a cell is a directive. -/
def Inert (x : Cell) : Prop := ∀ y ∈ x.cells, isDirective y = false

/-- A directive that has its clauses in one list. -/
def IsDirective (x : Cell) : Prop := isDirective x = true ∧ ∃ c, x.children = [c] ∧ Inert c

mutual

/-- Directives stand where rows, blocks and sections have them. -/
def Item.Nested : Item → Prop
  | .plain x cs => isDirective x = false ∧ cs.Nested
  | .line x => IsDirective x ∧ hasClause "begin" x = false ∧ hasClause "end" x = false
  | .block d ch =>
      IsDirective d ∧ hasClause "begin" d = true ∧ hasClause "end" d = false ∧ ch.Nested

def Items.Nested : Items → Prop
  | .nil => True
  | .cons i is => i.Nested ∧ is.Nested

def Chain.Nested : Chain → Prop
  | .close is e =>
      is.Nested ∧ IsDirective e ∧ hasClause "end" e = true ∧ hasClause "begin" e = false
  | .more is e ch =>
      is.Nested ∧ IsDirective e ∧ hasClause "end" e = true ∧ hasClause "begin" e = true ∧ ch.Nested

end

end Forests

section Steps

/-- The construction of a list. -/
def Constructs (xs ys : List Cell) : Prop := Computes (fun fuel => xev_constr_block fuel xs) ys

theorem constructs_nil : Constructs [] [] :=
  computes_succ (g := fun _ => .ok []) (fun _ => rfl) (computes_ok [])

/-- A cell that opens no block. -/
theorem constructs_cons {x : Cell} {xs cs ys : List Cell} (hx : directive_begin x = .ok false)
    (hcs : Constructs x.children cs) (hys : Constructs xs ys) :
    Constructs (x :: xs) (x.withChildren cs :: ys) := by
  refine computes_succ (g := fun fuel => do
    let cs ← xev_constr_block fuel x.children
    let ys ← xev_constr_block fuel xs
    .ok (x.withChildren cs :: ys)) ?_ ?_
  · intro fuel
    rw [xev_constr_block, hx]
    rfl
  · exact computes_bind hcs (computes_bind hys (computes_ok _))

/-- A directive that opens one. -/
theorem constructs_block {x x' : Cell} {xs xs' cs ys : List Cell}
    (hx : directive_begin x = .ok true)
    (hpair : Computes (fun fuel => make_pair fuel true x xs) (x', xs'))
    (hcs : Constructs x'.children cs) (hys : Constructs xs' ys) :
    Constructs (x :: xs) (x'.withChildren cs :: ys) := by
  refine computes_succ (g := fun fuel => do
    let p ← make_pair fuel true x xs
    let cs ← xev_constr_block fuel p.1.children
    let ys ← xev_constr_block fuel p.2
    .ok (p.1.withChildren cs :: ys)) ?_ ?_
  · intro fuel
    rw [xev_constr_block, hx]
    rfl
  · exact computes_bind hpair (computes_bind hcs (computes_bind hys (computes_ok _)))

theorem constructs_cons_ne_nil (x : Cell) (xs : List Cell) : ¬ Constructs (x :: xs) [] := by
  intro ⟨n, hn⟩
  have h := hn (n + 1) (Nat.le_succ n)
  simp only [xev_constr_block, bind_eq_ok_iff] at h
  rcases h with ⟨b, _, h⟩
  cases b with
  | false =>
      simp only [Bool.false_eq_true, if_false, bind_eq_ok_iff, Except.ok.injEq, reduceCtorEq,
        and_false, exists_false] at h
  | true =>
      simp only [if_true, bind_eq_ok_iff, Except.ok.injEq, reduceCtorEq, and_false,
        exists_false] at h

theorem constructs_unique {xs ys zs : List Cell} (hy : Constructs xs ys) (hz : Constructs xs zs) :
    ys = zs := computes_unique hy hz

end Steps

section Settles

/-- A list is constructed to another one, with which the construction has nothing
    left to do. -/
def Settled (xs ys : List Cell) : Prop := Constructs xs ys ∧ Constructs ys ys

/-- A list becomes another one when the construction goes over it, whatever follows
    it, and so does the list that it becomes. -/
def Settles (xs ys : List Cell) : Prop :=
  ∀ zs zs', Settled zs zs' → Settled (xs ++ zs) (ys ++ zs') ∧ Settled (ys ++ zs) (ys ++ zs')

theorem settled_nil : Settled [] [] := ⟨constructs_nil, constructs_nil⟩

theorem settled_self {xs ys : List Cell} (h : Settled xs ys) : Settled ys ys := ⟨h.2, h.2⟩

theorem settles_nil : Settles [] [] := fun _ _ h => ⟨h, h⟩

theorem settles_self {xs ys : List Cell} (h : Settles xs ys) : Settles ys ys :=
  fun zs zs' hz => ⟨(h zs zs' hz).2, (h zs zs' hz).2⟩

theorem settles_append {xs ys xs' ys' : List Cell} (h : Settles xs ys) (h' : Settles xs' ys') :
    Settles (xs ++ xs') (ys ++ ys') := by
  intro zs zs' hz
  rw [List.append_assoc, List.append_assoc, List.append_assoc]
  have hz' := h' zs zs' hz
  exact ⟨(h _ _ hz'.1).1, (h _ _ hz'.2).2⟩

theorem constructs_of_settles {xs ys : List Cell} (h : Settles xs ys) : Constructs xs ys := by
  have hz := (h [] [] settled_nil).1.1
  rw [List.append_nil, List.append_nil] at hz
  exact hz

/-- A cell that opens no block settles when its children do. -/
theorem settles_cell {x : Cell} {cs ds : List Cell}
    (hcs : directive_begin (x.withChildren cs) = .ok false)
    (hds : directive_begin (x.withChildren ds) = .ok false) (h : Settles cs ds) :
    Settles [x.withChildren cs] [x.withChildren ds] := by
  have h1 := constructs_of_settles h
  have h2 := constructs_of_settles (settles_self h)
  intro zs zs' hz
  have hself : Constructs (x.withChildren ds :: zs') (x.withChildren ds :: zs') :=
    constructs_cons hds h2 hz.2
  exact ⟨⟨constructs_cons hcs h1 hz.1, hself⟩, constructs_cons hds h2 hz.1, hself⟩

theorem settles_ne_nil {xs ys : List Cell} (h : Settles xs ys) : xs = [] ↔ ys = [] := by
  have hc := constructs_of_settles h
  cases xs with
  | nil => rw [constructs_unique hc constructs_nil]
  | cons x xs =>
      refine ⟨fun hn => absurd hn (List.cons_ne_nil x xs), fun hn => ?_⟩
      rw [hn] at hc
      exact absurd hc (constructs_cons_ne_nil x xs)

theorem directive_begin_of_not {x : Cell} (h : isDirective x = false) :
    directive_begin x = .ok false := by
  rw [directive_begin, if_pos (Or.inl h)]

/-- Where there is no directive nothing is constructed. -/
theorem settles_inert :
    (∀ x : Cell, Inert x → Settles [x] [x]) ∧
    ∀ xs : List Cell, (∀ y ∈ cellsAll xs, isDirective y = false) → Settles xs xs := by
  apply Cell.induct
  case hmk =>
    intro type name attrs pretext posttext cs ih h
    simp only [Inert, mem_cells_iff, forall_eq_or_imp, Cell.children] at h
    exact settles_cell (x := .mk type name attrs pretext posttext []) (directive_begin_of_not h.1)
      (directive_begin_of_not h.1) (ih h.2)
  case hnil =>
    intro _
    exact settles_nil
  case hcons =>
    intro x xs ihx ihxs h
    simp only [cellsAll, List.mem_append, or_imp, forall_and] at h
    exact settles_append (ihx h.1) (ihxs h.2)

end Settles

section Find

/-- The search for the end of a section goes over what is no directive with a mark. -/
theorem find_end_cell {x : Cell} {xs n en : List Cell} {e : Cell}
    (hend : directive_end x = false) (hbegin : directive_begin x = .ok false)
    (h : Computes (fun fuel => find_end fuel xs) (n, e, en)) :
    Computes (fun fuel => find_end fuel (x :: xs)) (x :: n, e, en) := by
  refine computes_succ (g := fun fuel => do
    let r ← find_end fuel xs
    .ok (x :: r.1, r.2.1, r.2.2)) ?_ ?_
  · intro fuel
    rw [find_end, hend, hbegin]
    rfl
  · exact computes_bind h (computes_ok _)

/-- A block on the way is constructed, with everything behind it. -/
theorem find_end_block {x y : Cell} {xs ys n en : List Cell} {e : Cell}
    (hend : directive_end x = false) (hbegin : directive_begin x = .ok true)
    (hconstr : Constructs (x :: xs) (y :: ys))
    (h : Computes (fun fuel => find_end fuel ys) (n, e, en)) :
    Computes (fun fuel => find_end fuel (x :: xs)) (y :: n, e, en) := by
  refine computes_succ (g := fun fuel => do
    let zs ← xev_constr_block fuel (x :: xs)
    let r ← find_end fuel zs.tail
    .ok (zs.take 1 ++ r.1, r.2.1, r.2.2)) ?_ ?_
  · intro fuel
    rw [find_end, hend, hbegin]
    rfl
  · exact computes_bind hconstr (computes_bind h (computes_ok _))

theorem find_end_here {e : Cell} (en : List Cell) (h : directive_end e = true) :
    Computes (fun fuel => find_end fuel (e :: en)) ([], e, en) := by
  refine computes_succ (g := fun _ => .ok ([], e, en)) ?_ (computes_ok _)
  intro fuel
  rw [find_end, h]
  rfl

/-- The search goes over a list of cells without marks that are in effect. -/
theorem find_end_append {xs : List Cell} (e : Cell) (en : List Cell)
    (hxs : ∀ x ∈ xs, directive_end x = false ∧ directive_begin x = .ok false)
    (h : directive_end e = true) :
    Computes (fun fuel => find_end fuel (xs ++ e :: en)) (xs, e, en) := by
  induction xs with
  | nil => exact find_end_here en h
  | cons x xs ih =>
      rw [List.forall_mem_cons] at hxs
      exact find_end_cell hxs.1.1 hxs.1.2 (ih hxs.2)

end Find

section Marks

theorem clauseNamed_unique {c : Cell} {name name' : String} (h : clauseNamed name c = true)
    (hne : name ≠ name') : clauseNamed name' c = false := by
  rw [clauseNamed, beq_iff_eq] at h
  rw [clauseNamed, h, beq_eq_false_iff_ne, ne_eq, Option.some.injEq, Option.some.injEq]
  intro he
  exact hne (String.toList_inj.mp he)

/-- Taking a clause away keeps those with another name. -/
theorem any_detached {c : Cell} {name name' : String} (hne : name ≠ name') :
    (detached name c).children.any (clauseNamed name') = c.children.any (clauseNamed name') := by
  rw [detached, Cell.children_withChildren]
  induction c.children with
  | nil => rfl
  | cons d ds ih =>
      cases hd : clauseNamed name d with
      | true =>
          rw [List.eraseP_cons_of_pos hd, List.any_cons, clauseNamed_unique hd hne,
            Bool.false_or]
      | false =>
          rw [List.eraseP_cons_of_neg (by rw [hd]; decide), List.any_cons, List.any_cons, ih]

/-- The two marks are taken away in either order. -/
theorem detached_comm (c : Cell) (name name' : String) (hne : name ≠ name') :
    detached name (detached name' c) = detached name' (detached name c) := by
  rw [detached, detached, detached, detached, Cell.withChildren_withChildren,
    Cell.withChildren_withChildren, Cell.children_withChildren, Cell.children_withChildren]
  refine congrArg _ (List.eraseP_comm fun d _ => ?_)
  by_cases hd : clauseNamed name' d = true
  · refine Or.inr ?_
    rw [clauseNamed_unique hd hne.symm]
    decide
  · exact Or.inl hd

theorem mem_cellsAll_iff (xs : List Cell) (y : Cell) : y ∈ cellsAll xs ↔ ∃ x ∈ xs, y ∈ x.cells := by
  induction xs with
  | nil => simp [cellsAll]
  | cons x xs ih => simp [cellsAll, ih]

theorem inert_detached {c : Cell} (name : String) (h : Inert c) : Inert (detached name c) := by
  intro y hy
  rw [detached, mem_cells_iff, Cell.children_withChildren] at hy
  rcases hy with rfl | hy
  · exact h c ((mem_cells_iff c c).mpr (Or.inl rfl))
  · rw [mem_cellsAll_iff] at hy
    rcases hy with ⟨x, hx, hy⟩
    refine h y ((mem_cells_iff c y).mpr (Or.inr ?_))
    rw [mem_cellsAll_iff]
    exact ⟨x, List.mem_of_mem_eraseP hx, hy⟩

/-- A directive that has a target opens no block any more. -/
theorem directive_begin_target (x c : Cell) (n cs : List Cell) :
    directive_begin (x.withChildren (c :: target n :: cs)) = .ok false := by
  rw [directive_begin]
  exact if_pos (Or.inr rfl)

theorem directive_begin_list (x c : Cell) (hx : isDirective x = true) :
    directive_begin (x.withChildren [c]) = .ok (c.children.any (clauseNamed "begin")) := by
  have hn : ¬ (isDirective (x.withChildren [c]) = false ∨
    hasTarget (x.withChildren [c]) = true) := by
    intro h
    rcases h with h | h
    · rw [show isDirective (x.withChildren [c]) = isDirective x from rfl, hx] at h
      cases h
    · cases h
  rw [directive_begin, if_neg hn, if_neg (by simp)]
  rfl

theorem detach_cons (name : String) (x c : Cell) (cs : List Cell)
    (h : c.children.any (clauseNamed name) = true) :
    detach name (x.withChildren (c :: cs)) = .ok (x.withChildren (detached name c :: cs)) := by
  have hx : hasClause name (x.withChildren (c :: cs)) = true := h
  simp only [detach, Cell.children_withChildren, hx, if_true, Cell.withChildren_withChildren]

end Marks

section Pairs

/-- The first clause list of a directive while its block is constructed. -/
def opened (fst : Bool) (c : Cell) : Cell := if fst then detached "begin" c else c

/-- The last section of a block. -/
theorem make_pair_last {fst : Bool} {x c d e : Cell} {cs ds xs n en : List Cell}
    (hfind : Computes (fun fuel => find_end fuel xs) (n, e.withChildren (d :: ds), en))
    (hcont : directive_begin (e.withChildren (d :: ds)) = .ok false)
    (hend : d.children.any (clauseNamed "end") = true)
    (hfst : fst = true → c.children.any (clauseNamed "begin") = true) :
    Computes (fun fuel => make_pair fuel fst (x.withChildren (c :: cs)) xs)
      (x.withChildren (opened fst c :: cs ++ target n :: detached "end" d :: ds), en) := by
  refine computes_succ (g := fun fuel => do
    let r ← find_end fuel xs
    let cont ← directive_begin r.2.1
    let e ← detach "end" r.2.1
    let e ← if cont then detach "begin" e else .ok e
    let x := (x.withChildren (c :: cs)).withChildren
      ((x.withChildren (c :: cs)).children ++ target r.1 :: e.children)
    let x ← if fst then detach "begin" x else .ok x
    if cont then make_pair fuel false x r.2.2 else .ok (x, r.2.2)) ?_ ?_
  · intro fuel
    rw [make_pair]
  · refine computes_bind hfind ?_
    simp only [hcont, detach_cons "end" e d ds hend, bind, Except.bind, Bool.false_eq_true,
      if_false,
      Cell.children_withChildren, Cell.withChildren_withChildren, List.cons_append]
    cases fst with
    | false => exact computes_ok _
    | true =>
        simp only [if_true, detach_cons "begin" x c _ (hfst rfl)]
        exact computes_ok _

/-- A section that another one follows. -/
theorem make_pair_next {fst : Bool} {x c d e : Cell} {cs ds xs n en : List Cell}
    {r : Cell × List Cell}
    (hfind : Computes (fun fuel => find_end fuel xs) (n, e.withChildren (d :: ds), en))
    (hcont : directive_begin (e.withChildren (d :: ds)) = .ok true)
    (hend : d.children.any (clauseNamed "end") = true)
    (hbegin : d.children.any (clauseNamed "begin") = true)
    (hfst : fst = true → c.children.any (clauseNamed "begin") = true)
    (hrest : Computes (fun fuel => make_pair fuel false (x.withChildren (opened fst c :: cs ++
      target n :: detached "begin" (detached "end" d) :: ds)) en) r) :
    Computes (fun fuel => make_pair fuel fst (x.withChildren (c :: cs)) xs) r := by
  refine computes_succ (g := fun fuel => do
    let r ← find_end fuel xs
    let cont ← directive_begin r.2.1
    let e ← detach "end" r.2.1
    let e ← if cont then detach "begin" e else .ok e
    let x := (x.withChildren (c :: cs)).withChildren
      ((x.withChildren (c :: cs)).children ++ target r.1 :: e.children)
    let x ← if fst then detach "begin" x else .ok x
    if cont then make_pair fuel false x r.2.2 else .ok (x, r.2.2)) ?_ ?_
  · intro fuel
    rw [make_pair]
  · have hbegin' : (detached "end" d).children.any (clauseNamed "begin") = true := by
      rw [any_detached (by decide)]
      exact hbegin
    refine computes_bind hfind ?_
    simp only [hcont, detach_cons "end" e d ds hend, detach_cons "begin" e _ ds hbegin', bind,
      Except.bind, if_true, Cell.children_withChildren, Cell.withChildren_withChildren,
      List.cons_append]
    cases fst with
    | false => exact hrest
    | true =>
        simp only [if_true, detach_cons "begin" x c _ (hfst rfl)]
        exact hrest

/-- A row becomes a block's sections when the construction goes over it: the first
    section, whatever it starts with, is followed by parts that settle. -/
def Pairs (xs parts : List Cell) : Prop :=
  ∀ (fst : Bool) (x c : Cell) (cs K K' : List Cell), Settled K K' →
    (fst = true → c.children.any (clauseNamed "begin") = true) →
      ∃ n P K'', Settled K'' K' ∧ Settles (target n :: P) parts ∧
        Computes (fun fuel => make_pair fuel fst (x.withChildren (c :: cs)) (xs ++ K))
          (x.withChildren (opened fst c :: cs ++ target n :: P), K'')

/-- The search for an end goes over a row. It finds the end as it was, or it has
    constructed it and all that follows. -/
def Finds (xs ys : List Cell) : Prop :=
  ∀ e R e' R', Settled (e :: R) (e' :: R') → directive_end e = true → directive_end e' = true →
    ∃ L, Settles L ys ∧
      (Computes (fun fuel => find_end fuel (xs ++ e :: R)) (L, e, R) ∨
        Computes (fun fuel => find_end fuel (xs ++ e :: R)) (L, e', R'))

theorem finds_nil : Finds [] [] := fun _ _ _ _ _ he _ =>
  ⟨[], settles_nil, Or.inl (find_end_here _ he)⟩

theorem finds_cell {x y : Cell} {xs ys : List Cell} (hend : directive_end x = false)
    (hbegin : directive_begin x = .ok false) (hx : Settles [x] [y]) (h : Finds xs ys) :
    Finds (x :: xs) (y :: ys) := by
  intro e R e' R' hR he he'
  rcases h e R e' R' hR he he' with ⟨L, hL, hfind⟩
  refine ⟨x :: L, settles_append hx hL, ?_⟩
  rcases hfind with hfind | hfind
  · exact Or.inl (find_end_cell hend hbegin hfind)
  · exact Or.inr (find_end_cell hend hbegin hfind)

/-- Behind a block everything has been constructed. -/
theorem finds_block {x y : Cell} {xs zs ys : List Cell} (hend : directive_end x = false)
    (hbegin : directive_begin x = .ok true) (hx : Settles (x :: xs) [y]) (hz : Settles zs ys)
    (hys : ∀ z ∈ ys, directive_end z = false ∧ directive_begin z = .ok false) :
    Finds (x :: xs ++ zs) (y :: ys) := by
  intro e R e' R' hR he he'
  have hconstr := (settles_append hx hz (e :: R) (e' :: R') hR).1.1
  rw [List.cons_append, List.cons_append] at hconstr
  refine ⟨y :: ys, settles_self (settles_append hx hz), Or.inr ?_⟩
  exact find_end_block hend hbegin hconstr (find_end_append e' R' hys he')

/-- A target settles when its statements do. -/
theorem settles_target {ns ms : List Cell} (h : Settles ns ms) :
    Settles [target ns] [target ms] := by
  have hbegin : ∀ t : Cell, t.name = "xev_target" → directive_begin t = .ok false := by
    intro t ht
    refine directive_begin_of_not ?_
    rw [isDirective, ht]
    decide
  have hpost : (if ns = [] then none else some (spaces 0)) =
      if ms = [] then none else some (spaces 0) := by
    by_cases hn : ns = []
    · rw [if_pos hn, if_pos ((settles_ne_nil h).mp hn)]
    · rw [if_neg hn, if_neg fun hm => hn ((settles_ne_nil h).mpr hm)]
  have ht : target ms = (target ns).withChildren ms := by
    rw [target, target, ← hpost]
    rfl
  rw [ht]
  have hcell := settles_cell (x := target ns) (hbegin _ rfl) (hbegin _ rfl) h
  exact hcell

/-- The directive that opens a block takes all of it. -/
theorem settles_block {x c : Cell} {xs parts : List Cell} (hx : isDirective x = true)
    (hc : Inert c) (hbegin : c.children.any (clauseNamed "begin") = true)
    (hparts : ∃ n P, parts = target n :: P) (h : Pairs xs parts) :
    Settles (x.withChildren [c] :: xs) [x.withChildren (detached "begin" c :: parts)] := by
  intro K K' hK
  rcases h true x c [] K K' hK (fun _ => hbegin) with ⟨n, P, K'', hK'', hP, hpair⟩
  rcases hparts with ⟨m, Q, rfl⟩
  have hd := settles_inert.1 _ (inert_detached "begin" hc)
  have hcs : Settles (x.withChildren ([opened true c] ++ target n :: P)).children
      (detached "begin" c :: target m :: Q) := settles_append hd hP
  have hopen : directive_begin (x.withChildren [c]) = .ok true := by
    rw [directive_begin_list x c hx, hbegin]
  have hself : ∀ Z, Constructs Z K' →
      Constructs (x.withChildren (detached "begin" c :: target m :: Q) :: Z)
        (x.withChildren (detached "begin" c :: target m :: Q) :: K') := fun Z hZ =>
    constructs_cons (directive_begin_target x _ m Q) (constructs_of_settles (settles_self hcs)) hZ
  have hall : Constructs (x.withChildren [c] :: xs ++ K)
      (x.withChildren (detached "begin" c :: target m :: Q) :: K') := by
    have hblock := constructs_block hopen hpair (constructs_of_settles hcs) hK''.1
    exact hblock
  exact ⟨⟨hall, hself K' hK.2⟩, hself K hK.1, hself K' hK.2⟩

/-- The end of the last section of a block. -/
theorem pairs_close {e d : Cell} {xs ys : List Cell} (he : isDirective e = true) (hd : Inert d)
    (hend : d.children.any (clauseNamed "end") = true)
    (hbegin : d.children.any (clauseNamed "begin") = false) (h : Finds xs ys) :
    Pairs (xs ++ [e.withChildren [d]]) [target ys, detached "end" d] := by
  intro fst x c cs K K' hK hfst
  have hno : directive_begin (e.withChildren [d]) = .ok false := by
    rw [directive_begin_list e d he, hbegin]
  have hdir : directive_end (e.withChildren [d]) = true := Bool.and_eq_true_iff.mpr ⟨he, hend⟩
  have hR : Settled (e.withChildren [d] :: K) (e.withChildren [d] :: K') :=
    (settles_cell hno hno (settles_inert.1 d hd) K K' hK).1
  rcases h _ K _ K' hR hdir hdir with ⟨L, hL, hfind⟩
  have hP : Settles [target L, detached "end" d] [target ys, detached "end" d] :=
    settles_append (settles_target hL) (settles_inert.1 _ (inert_detached "end" hd))
  rw [List.append_assoc]
  -- what follows has been constructed already where a block was met on the way
  rcases hfind with hfind | hfind
  · exact ⟨L, [detached "end" d], K, hK, hP, make_pair_last hfind hno hend hfst⟩
  · exact ⟨L, [detached "end" d], K', settled_self hK, hP, make_pair_last hfind hno hend hfst⟩

/-- The end of a section that another one follows. -/
theorem pairs_more {e d : Cell} {xs ys zs parts : List Cell} (he : isDirective e = true)
    (hd : Inert d) (hend : d.children.any (clauseNamed "end") = true)
    (hbegin : d.children.any (clauseNamed "begin") = true) (h : Finds xs ys)
    (hparts : ∃ n P, parts = target n :: P) (hz : Pairs zs parts) :
    Pairs (xs ++ e.withChildren [d] :: zs)
      (target ys :: detached "begin" (detached "end" d) :: parts) := by
  intro fst x c cs K K' hK hfst
  have hyes : directive_begin (e.withChildren [d]) = .ok true := by
    rw [directive_begin_list e d he, hbegin]
  have hdir : directive_end (e.withChildren [d]) = true := Bool.and_eq_true_iff.mpr ⟨he, hend⟩
  have hend' : (detached "begin" d).children.any (clauseNamed "end") = true := by
    rw [any_detached (by decide)]
    exact hend
  have hR := (settles_block he hd hbegin hparts hz K K' hK).1
  rcases h _ _ _ _ hR hdir (Bool.and_eq_true_iff.mpr ⟨he, hend'⟩) with ⟨L, hL, hfind⟩
  have hclauses := settles_inert.1 _ (inert_detached "begin" (inert_detached "end" hd))
  rw [List.append_assoc]
  rcases hfind with hfind | hfind
  · -- the end is as it was, and the sections behind it are still to be collected
    rcases hz false x (opened fst c) (cs ++ [target L, detached "begin" (detached "end" d)]) K K' hK
      (fun hf => absurd hf (by decide)) with ⟨n, P, K'', hK'', hP, hpair⟩
    refine ⟨L, detached "begin" (detached "end" d) :: target n :: P, K'', hK'',
      settles_append (settles_target hL) (settles_append hclauses hP), ?_⟩
    refine make_pair_next hfind hyes hend hbegin hfst ?_
    rw [List.cons_append, List.append_assoc] at hpair
    exact hpair
  · -- the sections behind the end have become parts of it
    rcases hparts with ⟨m, Q, rfl⟩
    rcases hz false x c [] K K' hK (fun hf => absurd hf (by decide)) with ⟨_, _, _, _, hP, _⟩
    refine ⟨L, detached "end" (detached "begin" d) :: target m :: Q, K', settled_self hK, ?_, ?_⟩
    · rw [detached_comm d "end" "begin" (by decide)]
      exact settles_append (settles_target hL) (settles_append hclauses (settles_self hP))
    · exact make_pair_last hfind (directive_begin_target e _ m Q) hend' hfst

end Pairs

section Construction

theorem parts_eq_target (ch : Chain) : ∃ n P, ch.parts = target n :: P := by
  cases ch with
  | close is e => exact ⟨_, _, rfl⟩
  | more is e ch => exact ⟨_, _, rfl⟩

theorem directive_end_of_not {x : Cell} (h : isDirective x = false) : directive_end x = false := by
  rw [directive_end, h, Bool.false_and]

/-- No mark in a constructed row is in effect. -/
theorem built_unmarked (is : Items) (h : is.Nested) :
    ∀ z ∈ is.built, directive_end z = false ∧ directive_begin z = .ok false := by
  refine Items.induct
    (P := fun i => i.Nested → directive_end i.built = false ∧ directive_begin i.built = .ok false)
    (Q := fun is => is.Nested →
      ∀ z ∈ is.built, directive_end z = false ∧ directive_begin z = .ok false)
    (R := fun _ => True) ?plain ?line ?block ?nil ?cons ?close ?more is h
  case plain =>
    intro x cs _ h
    exact ⟨directive_end_of_not (x := x.withChildren _) h.1,
      directive_begin_of_not (x := x.withChildren _) h.1⟩
  case line =>
    intro x h
    rcases h with ⟨⟨hx, c, hc, _⟩, hbegin, hend⟩
    have heq : x = x.withChildren [c] := by rw [← hc, Cell.withChildren_children]
    refine ⟨by rw [Item.built, directive_end, hend, Bool.and_false], ?_⟩
    rw [hasClause, hc] at hbegin
    rw [Item.built, heq, directive_begin_list x c hx]
    exact congrArg _ hbegin
  -- With its target in place the directive opens no block any more.
  case block =>
    intro d ch _ h
    rcases h with ⟨⟨_, c, hc, _⟩, _, hend, _⟩
    rcases parts_eq_target ch with ⟨n, P, hP⟩
    rw [hasClause, hc] at hend
    rw [Item.built, hc, hP]
    refine ⟨?_, directive_begin_target d _ n P⟩
    have hend' : hasClause "end"
      (d.withChildren (detached "begin" c :: target n :: P)) = false := by
      rw [hasClause, Cell.children_withChildren]
      exact (any_detached (by decide)).trans hend
    rw [directive_end]
    exact (congrArg _ hend').trans (Bool.and_false _)
  case nil =>
    intro _ z hz
    cases hz
  case cons =>
    intro i is ihi ihis h
    exact List.forall_mem_cons.mpr ⟨ihi h.1, ihis h.2⟩
  case close =>
    intro _ _ _
    trivial
  case more =>
    intro _ _ _ _ _
    trivial

/-- What the construction makes of a row, and of the sections of a block. -/
theorem settles_built (is : Items) (h : is.Nested) :
    Settles is.flat is.built ∧ Finds is.flat is.built := by
  refine Items.induct
    (P := fun i => i.Nested → Settles i.flat [i.built] ∧
      ∀ is : Items, is.Nested → Settles is.flat is.built → Finds is.flat is.built →
        Finds (i.flat ++ is.flat) (i.built :: is.built))
    (Q := fun is => is.Nested → Settles is.flat is.built ∧ Finds is.flat is.built)
    (R := fun ch => ch.Nested → Pairs ch.flat ch.parts) ?plain ?line ?block ?nil ?cons ?close ?more
    is h
  case plain =>
    intro x cs ih h
    have hb : ∀ ds, directive_begin (x.withChildren ds) = .ok false := fun ds =>
      directive_begin_of_not (x := x.withChildren ds) h.1
    have hx := settles_cell (hb _) (hb _) (ih h.2).1
    refine ⟨hx, fun is _ _ hfind => ?_⟩
    exact finds_cell (directive_end_of_not (x := x.withChildren _) h.1) (hb _) hx hfind
  case line =>
    intro x h
    have hself := built_unmarked (.cons (.line x) .nil) ⟨h, trivial⟩ x (List.mem_singleton.mpr rfl)
    rcases h with ⟨⟨_, c, hc, hi⟩, _, _⟩
    have heq : x = x.withChildren [c] := by rw [← hc, Cell.withChildren_children]
    have hx : Settles [x] [x] := by
      rw [heq] at hself ⊢
      exact settles_cell hself.2 hself.2 (settles_inert.1 c hi)
    refine ⟨hx, fun is _ _ hfind => ?_⟩
    exact finds_cell hself.1 hself.2 hx hfind
  -- The directive is found as one that opens a block, and its end by the chain of sections.
  case block =>
    intro d ch ih h
    rcases h with ⟨⟨hd, c, hc, hi⟩, hbegin, hend, hch⟩
    have heq : d = d.withChildren [c] := by rw [← hc, Cell.withChildren_children]
    have hany : c.children.any (clauseNamed "begin") = true := by
      rw [hasClause, hc] at hbegin
      exact hbegin
    have hopen : directive_begin d = .ok true := by
      rw [heq, directive_begin_list d c hd, hany]
    have hx : Settles (d :: ch.flat) [(Item.block d ch).built] := by
      rw [Item.built, hc, heq]
      exact settles_block hd hi hany (parts_eq_target ch) (ih hch)
    refine ⟨hx, fun is his hset _ => ?_⟩
    refine finds_block ?_ hopen hx hset (built_unmarked is his)
    rw [directive_end, hend, Bool.and_false]
  case nil =>
    intro _
    exact ⟨settles_nil, finds_nil⟩
  case cons =>
    intro i is ihi ihis h
    have hi := ihi h.1
    have his := ihis h.2
    exact ⟨settles_append hi.1 his.1, hi.2 is h.2 his.1 his.2⟩
  case close =>
    intro is e ih h
    rcases h with ⟨his, ⟨he, d, hd, hi⟩, hend, hbegin⟩
    have heq : e = e.withChildren [d] := by rw [← hd, Cell.withChildren_children]
    rw [hasClause, hd] at hend hbegin
    rw [Chain.flat, Chain.parts, hd, heq]
    exact pairs_close he hi hend hbegin (ih his).2
  -- A directive between two sections is an end and a beginning at once.
  case more =>
    intro is e ch ihis ihch h
    rcases h with ⟨his, ⟨he, d, hd, hi⟩, hend, hbegin, hch⟩
    have heq : e = e.withChildren [d] := by rw [← hd, Cell.withChildren_children]
    rw [hasClause, hd] at hend hbegin
    rw [Chain.flat, Chain.parts, hd, heq]
    exact pairs_more he hi hend hbegin (ihis his).2 (parts_eq_target ch) (ihch hch)

/-- The construction gives every block a target for each of its sections. -/
theorem constructs_built (is : Items) (h : is.Nested) : Constructs is.flat is.built :=
  constructs_of_settles (settles_built is h).1

end Construction

end XevXml.Tools
