import XevXml.Tools.Cell
import Mathlib.Data.List.TakeWhile

/-!
# Program Units and CONTAINS

Fortran separates the statements of a program unit from the routines inside it by
CONTAINS. The tool xevrestruct turns the body of every unit into a
`contains_body` that has a head and a tail, and it turns it back again.

Both directions are one traversal: where a cell is the header of a unit, its body
is rewritten, and then the children of the cell are visited, those of the new body
among them. A rewriting adds at most three cells to a body. That bounds the
traversal, and `Rewriting` has it as a field.

The way back takes both parts of a body apart. It wants a head that is not empty,
and it puts CONTAINS back only where the tail is not empty. A unit that has
nothing in front of CONTAINS or nothing behind it does not come back, nor does an
empty unit.

## Main definitions

* `unitOf`: The headers of units and where their bodies are.
* `contplus`, `contminus`: The two rewritings of a body.
* `restructure`: The traversal.
* `bodyOf`: The statements of a unit.
* `Divided`: The bodies that come back.

## Theorems

* `restructure_cons`: One step of the traversal.
* `bodyBack_iff`: A body comes back when it is divided and its statements do.
* `contains_restored_iff`: Which forests come back.
-/

namespace XevXml.Tools

/-- The steps of a path: to the next cell and to the first child. -/
inductive Op
  | n
  | c
deriving DecidableEq, Repr

/-- Where the body of a unit is: the path from the first child of the header, the
    path as the tools write it and the name of the body. -/
structure UnitForm where
  path : List Op
  op : String
  body : String

/-- The headers of programs, procedures and modules. -/
def unitOf (name : String) : Option UnitForm :=
  if name = "SgProgramHeaderStatement" then some ⟨[.n, .c], "cnc", "SgBasicBlock"⟩
  else if name = "SgProcedureHeaderStatement" then some ⟨[.n, .n, .c], "cnnc", "SgBasicBlock"⟩
  else if name = "SgModuleStatement" then some ⟨[], "c", "SgClassDefinition"⟩
  else none

/-- Rewrites the cell at the end of a path, which has to have the name of a body. -/
def atBody (f : Cell → Run Cell) (form : UnitForm) : List Op → List Cell → Run (List Cell)
  | [], [] => .error .assertion
  | [], c :: cs =>
      if c.name = form.body then do
        let c' ← f c
        .ok (c' :: cs)
      else .error .assertion
  | _ :: _, [] => .error (.exit ("xml_get_cell(" ++ form.op ++ "): mismatched structure"))
  | .n :: ops, c :: cs => do
      let cs' ← atBody f form ops cs
      .ok (c :: cs')
  | .c :: ops, c :: cs => do
      let ds ← atBody f form ops c.children
      .ok (c.withChildren ds :: cs)

section Weight

mutual

/-- The number of cells in a cell, where a header counts for five. -/
def Cell.weight : Cell → Nat
  | .mk _ name _ _ _ cs => (if (unitOf name).isSome then 5 else 1) + weightAll cs

/-- The weight of a list of cells. -/
def weightAll : List Cell → Nat
  | [] => 0
  | x :: xs => x.weight + weightAll xs

end

theorem weight_eq (x : Cell) :
    x.weight = (if (unitOf x.name).isSome then 5 else 1) + weightAll x.children := by
  cases x with
  | mk type name attrs pretext posttext cs => rw [Cell.weight]; rfl

theorem weightAll_children_lt (x : Cell) : weightAll x.children < x.weight := by
  rw [weight_eq]
  split <;> omega

theorem weightAll_append (xs ys : List Cell) :
    weightAll (xs ++ ys) = weightAll xs + weightAll ys := by
  induction xs with
  | nil => rw [List.nil_append, weightAll, Nat.zero_add]
  | cons x xs ih =>
      rw [List.cons_append, weightAll, weightAll, ih]
      omega

theorem weight_withChildren (x : Cell) (cs : List Cell) :
    (x.withChildren cs).weight + weightAll x.children = x.weight + weightAll cs := by
  rw [weight_eq, weight_eq x, Cell.name_withChildren, Cell.children_withChildren]
  omega

end Weight

/-- A way to rewrite bodies that adds at most three cells to one. -/
structure Rewriting where
  body : Cell → Run Cell
  weight_le : ∀ c c', body c = .ok c' → c'.weight ≤ c.weight + 3

theorem weightAll_atBody (f : Rewriting) (form : UnitForm) (ops : List Op) (cs ds : List Cell)
    (h : atBody f.body form ops cs = .ok ds) : weightAll ds ≤ weightAll cs + 3 := by
  induction ops, cs using atBody.induct form generalizing ds with
  | case1 => cases h
  | case2 c cs hn =>
      rw [atBody, if_pos hn, bind_eq_ok_iff] at h
      rcases h with ⟨c', hc, hds⟩
      cases hds
      have := f.weight_le c c' hc
      rw [weightAll, weightAll]
      omega
  | case3 c cs hn =>
      rw [atBody, if_neg hn] at h
      cases h
  | case4 => cases h
  | case5 ops c cs ih =>
      rw [atBody, bind_eq_ok_iff] at h
      rcases h with ⟨cs', hcs, hds⟩
      cases hds
      have := ih cs' hcs
      rw [weightAll, weightAll]
      omega
  | case6 ops c cs ih =>
      rw [atBody, bind_eq_ok_iff] at h
      rcases h with ⟨ds', hds', hds⟩
      cases hds
      have := ih ds' hds'
      have := weight_withChildren c ds'
      rw [weightAll, weightAll]
      omega

/-- A cell whose body is rewritten if it is the header of a unit. -/
def restructured (f : Rewriting) (x : Cell) : Run Cell :=
  match unitOf x.name with
  | none => .ok x
  | some form => do
      let cs ← atBody f.body form form.path x.children
      .ok (x.withChildren cs)

theorem weightAll_restructured (f : Rewriting) (x y : Cell) (h : restructured f x = .ok y) :
    weightAll y.children < x.weight := by
  unfold restructured at h
  cases hu : unitOf x.name with
  | none =>
      rw [hu] at h
      cases h
      exact weightAll_children_lt x
  | some form =>
      rw [hu, bind_eq_ok_iff] at h
      rcases h with ⟨cs, hcs, hy⟩
      cases hy
      have := weightAll_atBody f form form.path x.children cs hcs
      rw [Cell.children_withChildren, weight_eq, hu, Option.isSome_some, if_pos rfl]
      omega

/-- Rewrites the bodies of the units in a list of cells and below. -/
def restructure (f : Rewriting) : List Cell → Run (List Cell)
  | [] => .ok []
  | x :: xs =>
      match h : restructured f x with
      | .error stop => .error stop
      | .ok y =>
          -- A header outweighs the cells that its body gets.
          have : weightAll y.children < x.weight := weightAll_restructured f x y h
          do
            let cs ← restructure f y.children
            let ys ← restructure f xs
            .ok (y.withChildren cs :: ys)
termination_by xs => weightAll xs
decreasing_by
  · rw [weightAll]
    omega
  · have := weightAll_children_lt x
    rw [weightAll]
    omega

/-- What the traversal makes of one cell. -/
def visit (f : Rewriting) (x : Cell) : Run Cell := do
  let y ← restructured f x
  let cs ← restructure f y.children
  .ok (y.withChildren cs)

section Visit

variable (f : Rewriting)

@[simp]
theorem restructure_nil : restructure f [] = .ok [] := by
  rw [restructure]

/-- One step of the traversal. -/
theorem restructure_cons (x : Cell) (xs : List Cell) :
    restructure f (x :: xs) = (do
      let y ← visit f x
      let ys ← restructure f xs
      .ok (y :: ys)) := by
  rw [restructure, visit]
  split
  case h_1 stop h =>
    rw [h]
    rfl
  case h_2 y h =>
    simp only [h, bind, Except.bind]
    cases restructure f y.children with
    | error stop => rfl
    | ok cs => rfl

theorem restructure_append_iff (xs ys zs : List Cell) :
    restructure f (xs ++ ys) = .ok zs ↔
      ∃ us vs, restructure f xs = .ok us ∧ restructure f ys = .ok vs ∧ zs = us ++ vs := by
  induction xs generalizing zs with
  | nil => simp [eq_comm]
  | cons x xs ih =>
      rw [List.cons_append, restructure_cons, restructure_cons]
      simp only [bind_eq_ok_iff, ih, Except.ok.injEq]
      constructor
      · intro ⟨y, hy, zs', ⟨us, vs, hus, hvs, hz⟩, h⟩
        exact ⟨y :: us, vs, ⟨y, hy, us, hus, rfl⟩, hvs, by rw [← h, hz, List.cons_append]⟩
      · intro ⟨us', vs, ⟨y, hy, us, hus, hu⟩, hvs, h⟩
        exact ⟨y, hy, us ++ vs, ⟨us, vs, hus, hvs, rfl⟩, by rw [h, ← hu, List.cons_append]⟩

theorem length_restructure (xs ys : List Cell) (h : restructure f xs = .ok ys) :
    ys.length = xs.length := by
  induction xs generalizing ys with
  | nil =>
      rw [restructure_nil] at h
      cases h
      rfl
  | cons x xs ih =>
      simp only [restructure_cons, bind_eq_ok_iff, Except.ok.injEq] at h
      rcases h with ⟨y, _, ys', hys', h⟩
      rw [← h, List.length_cons, List.length_cons, ih ys' hys']

/-- A cell that is no header has its children visited. -/
theorem visit_plain (x : Cell) (h : unitOf x.name = none) :
    visit f x = (do
      let cs ← restructure f x.children
      .ok (x.withChildren cs)) := by
  rw [visit, restructured, h]
  rfl

/-- The header of a unit has its body rewritten first. -/
theorem visit_unit (x : Cell) (form : UnitForm) (h : unitOf x.name = some form) :
    visit f x = (do
      let cs ← atBody f.body form form.path x.children
      let ds ← restructure f cs
      .ok (x.withChildren ds)) := by
  rw [visit, restructured, h]
  simp only [bind, Except.bind]
  cases atBody f.body form form.path x.children with
  | error stop => rfl
  | ok cs => rfl

end Visit

/-- Whether a statement is CONTAINS. -/
def isContains (x : Cell) : Bool := x.name == "SgContainsStatement"

/-- The two parts of a body, with the texts behind their statements. -/
def containsBody (post1 post2 : Option Text) (head tail : List Cell) : Cell :=
  .mk .node "contains_body" [] (some (spaces 0)) (some (spaces 0))
    [.mk .node "contains_head" [] (some (spaces 1)) post1 head,
      .mk .node "contains_tail" [] (some (spaces 1)) post2 tail]

/-- Divides a body at its first CONTAINS, which is dropped. The link in front of
    CONTAINS is cut, so something has to be there. -/
def contplus (parent : Cell) : Run Cell :=
  let x := parent.children
  let head := x.takeWhile fun c => !isContains c
  let c := x.dropWhile fun c => !isContains c
  let y := c.tail
  if c ≠ [] ∧ head = [] then .error (.exit "xml_cut_link: null xml")
  else .ok (parent.withChildren [containsBody (if x = [] then none else some (spaces 1))
    (if y = [] then none else some (spaces 1)) head y])

/-- Puts the two parts of a body in a row again, with CONTAINS between them if
    there is a tail. The first part cannot be empty. -/
def contminus (parent : Cell) : Run Cell :=
  match parent.children.head?.map Cell.children with
  | some (c1 :: c2 :: _) =>
      let x := c1.children
      let y := c2.children
      if x = [] then .error .assertion
      else if y = [] then .ok (parent.withChildren x)
      else .ok (parent.withChildren (x ++ xml_make_node "SgContainsStatement" (spaces 1) :: y))
  | _ => .error .assertion

section Weights

theorem weightAll_takeWhile_tail (p : Cell → Bool) (xs : List Cell) :
    weightAll (xs.takeWhile p) + weightAll (xs.dropWhile p).tail ≤ weightAll xs := by
  have h := weightAll_append (xs.takeWhile p) (xs.dropWhile p)
  rw [List.takeWhile_append_dropWhile] at h
  cases hd : xs.dropWhile p with
  | nil =>
      rw [hd] at h
      rw [List.tail_nil, h]
  | cons d ds =>
      rw [hd, weightAll] at h
      rw [List.tail_cons]
      omega

theorem weight_containsBody (post1 post2 : Option Text) (head tail : List Cell) :
    (containsBody post1 post2 head tail).weight = weightAll head + weightAll tail + 3 := by
  have hb : (unitOf "contains_body").isSome = false := by decide
  have hh : (unitOf "contains_head").isSome = false := by decide
  have ht : (unitOf "contains_tail").isSome = false := by decide
  simp only [containsBody, Cell.weight, weightAll, hb, hh, ht, Bool.false_eq_true, if_false]
  omega

theorem contplus_weight (c c' : Cell) (h : contplus c = .ok c') : c'.weight ≤ c.weight + 3 := by
  simp only [contplus] at h
  split at h
  · cases h
  · cases h
    have h1 := weightAll_takeWhile_tail (fun c => !isContains c) c.children
    have h2 := weight_withChildren c
      [containsBody (if c.children = [] then none else some (spaces 1))
      (if (c.children.dropWhile fun c => !isContains c).tail = [] then none else some (spaces 1))
      (c.children.takeWhile fun c => !isContains c)
      (c.children.dropWhile fun c => !isContains c).tail]
    rw [weightAll, weight_containsBody, weightAll] at h2
    omega

theorem weight_contains_node : (xml_make_node "SgContainsStatement" (spaces 1)).weight = 1 := by
  have h : (unitOf "SgContainsStatement").isSome = false := by decide
  simp only [xml_make_node, Cell.weight, weightAll, h, Bool.false_eq_true, if_false]

theorem contminus_weight (c c' : Cell) (h : contminus c = .ok c') : c'.weight ≤ c.weight + 3 := by
  unfold contminus at h
  split at h
  case h_2 => cases h
  case h_1 c1 c2 cs hcs =>
    -- The two parts weigh less than the body that holds them.
    have hbody : c1.weight + c2.weight ≤ weightAll c.children := by
      cases hc : c.children with
      | nil =>
          rw [hc] at hcs
          cases hcs
      | cons c0 rest =>
          rw [hc, List.head?_cons, Option.map_some, Option.some.injEq] at hcs
          have := weightAll_children_lt c0
          rw [hcs, weightAll, weightAll] at this
          rw [weightAll]
          omega
    have h1 := weightAll_children_lt c1
    have h2 := weightAll_children_lt c2
    dsimp only at h
    split at h
    · cases h
    · split at h
      · cases h
        have := weight_withChildren c c1.children
        omega
      · cases h
        have := weight_withChildren c
          (c1.children ++ xml_make_node "SgContainsStatement" (spaces 1) :: c2.children)
        rw [weightAll_append, weightAll, weight_contains_node] at this
        omega

end Weights

/-- Dividing a body as a rewriting. -/
def dividing : Rewriting := ⟨contplus, contplus_weight⟩

/-- Joining a body as a rewriting. -/
def joining : Rewriting := ⟨contminus, contminus_weight⟩

/-- The pass that divides the bodies of all units. -/
def xevparse_contplus : List Cell → Run (List Cell) := restructure dividing

/-- The pass that joins them. -/
def xevparse_contminus : List Cell → Run (List Cell) := restructure joining

section Condition

/-- Whether a path leads to a cell with the name of a body, through no header. -/
def Reaches (form : UnitForm) : List Op → List Cell → Prop
  | [], b :: _ => b.name = form.body
  | .n :: ops, _ :: cs => Reaches form ops cs
  | .c :: ops, d :: _ => unitOf d.name = none ∧ Reaches form ops d.children
  | _, [] => False

/-- The header of a unit has a body where the tools look for it. -/
def WellFormed (x : Cell) : Prop :=
  ∀ form, unitOf x.name = some form → Reaches form form.path x.children

/-- The statements of the body at the end of a path. -/
def bodyAt : List Op → List Cell → List Cell
  | [], b :: _ => b.children
  | .n :: ops, _ :: cs => bodyAt ops cs
  | .c :: ops, d :: _ => bodyAt ops d.children
  | _, [] => []

/-- The statements of the body of a unit. -/
def bodyOf (x : Cell) : Option (List Cell) :=
  (unitOf x.name).map fun form => bodyAt form.path x.children

/-- Whether a cell has nothing but its name. -/
def Plain (x : Cell) : Prop :=
  x.type = .node ∧ x.attrs = [] ∧ all_spaces x.pretext = true ∧ all_spaces x.posttext = true ∧
    x.children = []

/-- Whether a body is not empty and its CONTAINS, if there is one, is plain and
    has statements on either side. -/
def Divided (stmts : List Cell) : Prop :=
  stmts ≠ [] ∧ ∀ head c tail, stmts = head ++ c :: tail → isContains c = true →
    (∀ s ∈ head, isContains s = false) → head ≠ [] ∧ tail ≠ [] ∧ Plain c

end Condition

section Parts

variable (f : Rewriting)

theorem restructure_singleton_iff (x : Cell) (ys : List Cell) :
    restructure f [x] = .ok ys ↔ ∃ y, visit f x = .ok y ∧ ys = [y] := by
  rw [restructure_cons, restructure_nil]
  simp only [bind_eq_ok_iff, Except.ok.injEq, exists_eq_left', @eq_comm _ ys]

theorem visit_plain_iff (x y : Cell) (h : unitOf x.name = none) :
    visit f x = .ok y ↔ ∃ cs, restructure f x.children = .ok cs ∧ y = x.withChildren cs := by
  rw [visit_plain f x h]
  simp only [bind_eq_ok_iff, Except.ok.injEq, @eq_comm _ y]

theorem visit_contains_node :
    visit f (xml_make_node "SgContainsStatement" (spaces 1)) =
      .ok (xml_make_node "SgContainsStatement" (spaces 1)) := by
  rw [visit_plain_iff f _ _ (by decide)]
  exact ⟨[], restructure_nil f, rfl⟩

/-- Both parts of a divided body are visited, and their frame stays. -/
theorem restructure_containsBody_iff (post1 post2 : Option Text) (head tail ds : List Cell) :
    restructure f [containsBody post1 post2 head tail] = .ok ds ↔
      ∃ hs ts, restructure f head = .ok hs ∧ restructure f tail = .ok ts ∧
        ds = [containsBody post1 post2 hs ts] := by
  have hb : unitOf (containsBody post1 post2 head tail).name = none :=
    show unitOf "contains_body" = none by decide
  have hh : unitOf (Cell.mk .node "contains_head" [] (some (spaces 1)) post1 head).name = none :=
    show unitOf "contains_head" = none by decide
  have ht : unitOf (Cell.mk .node "contains_tail" [] (some (spaces 1)) post2 tail).name = none :=
    show unitOf "contains_tail" = none by decide
  rw [restructure_singleton_iff]
  simp only [visit_plain_iff f _ _ hb]
  constructor
  · intro ⟨y, ⟨cs, hcs, hy⟩, hds⟩
    simp only [containsBody, Cell.children, restructure_cons, restructure_nil, bind_eq_ok_iff,
      visit_plain_iff f _ _ hh, visit_plain_iff f _ _ ht, Except.ok.injEq] at hcs
    rcases hcs with ⟨y1, ⟨hs, hhs, hy1⟩, ys, ⟨y2, ⟨ts, hts, hy2⟩, rest, hrest, hys⟩, hcs⟩
    refine ⟨hs, ts, hhs, hts, ?_⟩
    rw [hds, hy, ← hcs, ← hys, ← hrest, hy1, hy2]
    rfl
  · intro ⟨hs, ts, hhs, hts, hds⟩
    refine ⟨_, ⟨[.mk .node "contains_head" [] (some (spaces 1)) post1 hs,
      .mk .node "contains_tail" [] (some (spaces 1)) post2 ts], ?_, rfl⟩, hds⟩
    simp only [containsBody, Cell.children, restructure_cons, restructure_nil, bind_eq_ok_iff,
      visit_plain_iff f _ _ hh, visit_plain_iff f _ _ ht, Except.ok.injEq]
    exact ⟨_, ⟨hs, hhs, rfl⟩, _, ⟨_, ⟨ts, hts, rfl⟩, [], rfl, rfl⟩, rfl⟩

end Parts

section Body

theorem takeWhile_of_none (stmts : List Cell) (h : ∀ s ∈ stmts, isContains s = false) :
    (stmts.takeWhile fun c => !isContains c) = stmts ∧
      (stmts.dropWhile fun c => !isContains c) = [] := by
  have hall : ∀ s ∈ stmts, (!isContains s) = true := by
    intro s hs
    rw [h s hs, Bool.not_false]
  exact ⟨List.takeWhile_eq_self_iff.mpr hall, List.dropWhile_eq_nil_iff.mpr hall⟩

theorem takeWhile_of_first (head tail : List Cell) (c : Cell)
    (h : ∀ s ∈ head, isContains s = false) (hc : isContains c = true) :
    ((head ++ c :: tail).takeWhile fun c => !isContains c) = head ∧
      ((head ++ c :: tail).dropWhile fun c => !isContains c) = c :: tail := by
  have hall : ∀ s ∈ head, (!isContains s) = true := by
    intro s hs
    rw [h s hs, Bool.not_false]
  rw [List.takeWhile_append_of_pos hall, List.dropWhile_append_of_pos hall,
    List.takeWhile_cons_of_neg (by simp [hc]), List.dropWhile_cons_of_neg (by simp [hc]),
    List.append_nil]
  exact ⟨rfl, rfl⟩

/-- A body without CONTAINS becomes the head. -/
theorem contplus_none (b : Cell) (h : ∀ s ∈ b.children, isContains s = false) :
    ∃ post1 post2, contplus b = .ok (b.withChildren [containsBody post1 post2 b.children []]) := by
  have hw := takeWhile_of_none b.children h
  refine ⟨if b.children = [] then none else some (spaces 1), none, ?_⟩
  rw [contplus, hw.1, hw.2, if_neg (by simp)]
  rfl

/-- A body with CONTAINS loses it, unless it is the first statement. -/
theorem contplus_some (b c : Cell) (head tail : List Cell) (hb : b.children = head ++ c :: tail)
    (h : ∀ s ∈ head, isContains s = false) (hc : isContains c = true) :
    (head = [] ∧ contplus b = .error (.exit "xml_cut_link: null xml")) ∨ (head ≠ [] ∧
      ∃ post1 post2, contplus b = .ok (b.withChildren [containsBody post1 post2 head tail])) := by
  have hw := takeWhile_of_first head tail c h hc
  rw [contplus, hb, hw.1, hw.2]
  by_cases hhead : head = []
  · left
    exact ⟨hhead, if_pos ⟨List.cons_ne_nil c tail, hhead⟩⟩
  · right
    refine ⟨hhead, if head ++ c :: tail = [] then none else some (spaces 1),
      if tail = [] then none else some (spaces 1), ?_⟩
    rw [if_neg (fun hn => hhead hn.2)]
    rfl

theorem contminus_containsBody (b : Cell) (post1 post2 : Option Text) (hs ts : List Cell) :
    contminus (b.withChildren [containsBody post1 post2 hs ts]) =
      if hs = [] then .error .assertion
      else if ts = [] then .ok (b.withChildren hs)
      else .ok (b.withChildren (hs ++ xml_make_node "SgContainsStatement" (spaces 1) :: ts)) := by
  rfl

end Body

section Back

/-- A list of cells comes back up to white space. -/
def BackAll (xs : List Cell) : Prop :=
  ∃ ys zs, xevparse_contplus xs = .ok ys ∧ xevparse_contminus ys = .ok zs ∧ SameUpToSpace zs xs

/-- A cell comes back. -/
def Back (x : Cell) : Prop :=
  ∃ y z, visit dividing x = .ok y ∧ visit joining y = .ok z ∧
    z.trimmed = x.trimmed

theorem backAll_nil : BackAll [] := ⟨[], [], restructure_nil _, restructure_nil _, rfl⟩

theorem backAll_cons (x : Cell) (xs : List Cell) : BackAll (x :: xs) ↔ Back x ∧ BackAll xs := by
  unfold BackAll Back xevparse_contplus xevparse_contminus
  constructor
  · intro ⟨ys, zs, hys, hzs, hsame⟩
    simp only [restructure_cons, bind_eq_ok_iff, Except.ok.injEq] at hys
    rcases hys with ⟨y, hy, ys', hys', rfl⟩
    simp only [restructure_cons, bind_eq_ok_iff, Except.ok.injEq] at hzs
    rcases hzs with ⟨z, hz, zs', hzs', rfl⟩
    rw [sameUpToSpace_cons_iff] at hsame
    exact ⟨⟨y, z, hy, hz, hsame.1⟩, ys', zs', hys', hzs', hsame.2⟩
  · intro ⟨⟨y, z, hy, hz, hyz⟩, ys, zs, hys, hzs, hsame⟩
    refine ⟨y :: ys, z :: zs, ?_, ?_, (sameUpToSpace_cons_iff z x zs xs).mpr ⟨hyz, hsame⟩⟩
    · simp only [restructure_cons, bind_eq_ok_iff, Except.ok.injEq]
      exact ⟨y, hy, ys, hys, rfl⟩
    · simp only [restructure_cons, bind_eq_ok_iff, Except.ok.injEq]
      exact ⟨z, hz, zs, hzs, rfl⟩

theorem backAll_append (xs ys : List Cell) : BackAll (xs ++ ys) ↔ BackAll xs ∧ BackAll ys := by
  induction xs with
  | nil => exact ⟨fun h => ⟨backAll_nil, h⟩, fun h => h.2⟩
  | cons x xs ih => rw [List.cons_append, backAll_cons, backAll_cons, ih, and_assoc]

/-- A cell that is no header comes back when its children do. -/
theorem back_plain_iff (x : Cell) (h : unitOf x.name = none) : Back x ↔ BackAll x.children := by
  unfold Back BackAll xevparse_contplus xevparse_contminus
  constructor
  · intro ⟨y, z, hy, hz, hyz⟩
    rw [visit_plain_iff _ x y h] at hy
    rcases hy with ⟨cs, hcs, rfl⟩
    rw [visit_plain_iff _ (x.withChildren cs) z h] at hz
    rcases hz with ⟨ds, hds, rfl⟩
    exact ⟨cs, ds, hcs, hds, (trimmed_withChildren_self_iff x ds).mp hyz⟩
  · intro ⟨cs, ds, hcs, hds, hsame⟩
    refine ⟨x.withChildren cs, x.withChildren ds, ?_, ?_, ?_⟩
    · rw [visit_plain_iff _ x _ h]
      exact ⟨cs, hcs, rfl⟩
    · rw [visit_plain_iff _ (x.withChildren cs) _ h]
      exact ⟨ds, hds, rfl⟩
    · exact (trimmed_withChildren_self_iff x ds).mpr hsame

/-- The cells a path starts from come back, the body at its end rewritten in
    either direction. -/
def BackAt (form : UnitForm) (ops : List Op) (xs : List Cell) : Prop :=
  ∃ as bs cs ds, atBody contplus form ops xs = .ok as ∧ xevparse_contplus as = .ok bs ∧
    atBody contminus form ops bs = .ok cs ∧ xevparse_contminus cs = .ok ds ∧ SameUpToSpace ds xs

/-- A body comes back. -/
def BackBody (b : Cell) : Prop :=
  ∃ b1 b2 b3 b4, contplus b = .ok b1 ∧ visit dividing b1 = .ok b2 ∧
    contminus b2 = .ok b3 ∧ visit joining b3 = .ok b4 ∧
    b4.trimmed = b.trimmed

theorem back_unit_iff (x : Cell) (form : UnitForm) (h : unitOf x.name = some form) :
    Back x ↔ BackAt form form.path x.children := by
  unfold Back BackAt xevparse_contplus xevparse_contminus
  constructor
  · intro ⟨y, z, hy, hz, hyz⟩
    simp only [visit_unit _ x form h, bind_eq_ok_iff, Except.ok.injEq] at hy
    rcases hy with ⟨as, has, bs, hbs, rfl⟩
    simp only [visit_unit _ (x.withChildren bs) form h, bind_eq_ok_iff, Except.ok.injEq] at hz
    rcases hz with ⟨cs, hcs, ds, hds, rfl⟩
    exact ⟨as, bs, cs, ds, has, hbs, hcs, hds, (trimmed_withChildren_self_iff x ds).mp hyz⟩
  · intro ⟨as, bs, cs, ds, has, hbs, hcs, hds, hsame⟩
    refine ⟨x.withChildren bs, x.withChildren ds, ?_, ?_, ?_⟩
    · simp only [visit_unit _ x form h, bind_eq_ok_iff, Except.ok.injEq]
      exact ⟨as, has, bs, hbs, rfl⟩
    · simp only [visit_unit _ (x.withChildren bs) form h, bind_eq_ok_iff, Except.ok.injEq]
      exact ⟨cs, hcs, ds, hds, rfl⟩
    · exact (trimmed_withChildren_self_iff x ds).mpr hsame

/-- What a divided body becomes on the way back. -/
theorem bodyBack_divided_iff (b : Cell) (hb : unitOf b.name = none) (post1 post2 : Option Text)
    (head tail : List Cell)
    (h : contplus b = .ok (b.withChildren [containsBody post1 post2 head tail])) :
    BackBody b ↔ ∃ hs ts zs, xevparse_contplus head = .ok hs ∧ xevparse_contplus tail = .ok ts ∧
      hs ≠ [] ∧ xevparse_contminus
        (if ts = [] then hs else hs ++ xml_make_node "SgContainsStatement" (spaces 1) :: ts) =
          .ok zs ∧
      SameUpToSpace zs b.children := by
  unfold BackBody xevparse_contplus xevparse_contminus
  constructor
  · intro ⟨b1, b2, b3, b4, hb1, hb2, hb3, hb4, hsame⟩
    rw [h] at hb1
    cases hb1
    rw [visit_plain_iff _ (b.withChildren _) b2 hb] at hb2
    rcases hb2 with ⟨ds, hds, rfl⟩
    rw [Cell.children_withChildren, restructure_containsBody_iff] at hds
    rcases hds with ⟨hs, ts, hhs, hts, rfl⟩
    rw [Cell.withChildren_withChildren, contminus_containsBody] at hb3
    -- With nothing in front of the statement the way back ends in an assertion.
    by_cases hempty : hs = []
    · rw [if_pos hempty] at hb3
      cases hb3
    rw [if_neg hempty] at hb3
    by_cases htail : ts = []
    · rw [if_pos htail] at hb3
      cases hb3
      rw [visit_plain_iff _ (b.withChildren hs) b4 hb] at hb4
      rcases hb4 with ⟨zs, hzs, rfl⟩
      refine ⟨hs, ts, zs, hhs, hts, hempty, ?_, (trimmed_withChildren_self_iff b zs).mp hsame⟩
      rw [if_pos htail]
      exact hzs
    · rw [if_neg htail] at hb3
      cases hb3
      rw [visit_plain_iff _ (b.withChildren _) b4 hb] at hb4
      rcases hb4 with ⟨zs, hzs, rfl⟩
      refine ⟨hs, ts, zs, hhs, hts, hempty, ?_, (trimmed_withChildren_self_iff b zs).mp hsame⟩
      rw [if_neg htail]
      exact hzs
  · intro ⟨hs, ts, zs, hhs, hts, hempty, hzs, hsame⟩
    refine ⟨_, b.withChildren [containsBody post1 post2 hs ts],
      b.withChildren (if ts = [] then hs
        else hs ++ xml_make_node "SgContainsStatement" (spaces 1) :: ts),
      b.withChildren zs, h, ?_, ?_, ?_, (trimmed_withChildren_self_iff b zs).mpr hsame⟩
    · rw [visit_plain_iff _ (b.withChildren _) _ hb]
      refine ⟨[containsBody post1 post2 hs ts], ?_, rfl⟩
      rw [Cell.children_withChildren, restructure_containsBody_iff]
      exact ⟨hs, ts, hhs, hts, rfl⟩
    · rw [contminus_containsBody, if_neg hempty]
      split <;> rfl
    · rw [visit_plain_iff _ (b.withChildren _) _ hb]
      exact ⟨zs, hzs, rfl⟩

theorem restructure_eq_nil_iff (f : Rewriting) (xs ys : List Cell) (h : restructure f xs = .ok ys) :
    ys = [] ↔ xs = [] := by
  rw [← List.length_eq_zero_iff, ← List.length_eq_zero_iff, length_restructure f xs ys h]

theorem bodyBack_none_iff (b : Cell) (hb : unitOf b.name = none)
    (h : ∀ s ∈ b.children, isContains s = false) :
    BackBody b ↔ b.children ≠ [] ∧ BackAll b.children := by
  rcases contplus_none b h with ⟨post1, post2, hplus⟩
  rw [bodyBack_divided_iff b hb post1 post2 _ _ hplus]
  unfold BackAll
  constructor
  · intro ⟨hs, ts, zs, hhs, hts, hempty, hzs, hsame⟩
    have ht := (restructure_eq_nil_iff _ _ ts hts).mpr rfl
    rw [if_pos ht] at hzs
    exact ⟨fun hn => hempty ((restructure_eq_nil_iff _ _ hs hhs).mpr hn), hs, zs, hhs, hzs, hsame⟩
  · intro ⟨hne, hs, zs, hhs, hzs, hsame⟩
    exact ⟨hs, [], zs, hhs, restructure_nil _,
      fun hn => hne ((restructure_eq_nil_iff _ _ hs hhs).mp hn), hzs, hsame⟩

/-- A CONTAINS is plain when a new one takes its place. -/
theorem plain_iff (c : Cell) (hc : isContains c = true) :
    Plain c ↔ (xml_make_node "SgContainsStatement" (spaces 1)).trimmed = c.trimmed := by
  cases c with
  | mk type name attrs pretext posttext cs =>
      have hname : name = "SgContainsStatement" := beq_iff_eq.mp hc
      have hnew : (xml_make_node "SgContainsStatement" (spaces 1)).trimmed =
          .mk .node "SgContainsStatement" [] none none [] := by rfl
      have hcs : [] = trimmedAll cs ↔ cs = [] := by
        rw [trimmedAll_eq_map, eq_comm, List.map_eq_nil_iff]
      have htext : ∀ s, none = trimmedText s ↔ all_spaces s = true := by
        intro s
        rw [eq_comm, trimmedText_eq_none_iff]
      rw [hnew, Cell.trimmed, Cell.mk.injEq, htext, htext, hcs, eq_comm, hname, @eq_comm _ [] attrs]
      simp only [Plain, Cell.type, Cell.attrs, Cell.pretext, Cell.posttext, Cell.children, true_and]

theorem back_of_plain (c : Cell) (hc : isContains c = true) (h : Plain c) : Back c := by
  have hname : unitOf c.name = none := by
    rw [beq_iff_eq.mp hc]
    decide
  rw [back_plain_iff c hname, h.2.2.2.2]
  exact backAll_nil

theorem bodyBack_some_iff (b c : Cell) (hb : unitOf b.name = none) (head tail : List Cell)
    (hbody : b.children = head ++ c :: tail) (h : ∀ s ∈ head, isContains s = false)
    (hc : isContains c = true) :
    BackBody b ↔ (head ≠ [] ∧ tail ≠ [] ∧ Plain c) ∧ BackAll b.children := by
  rcases contplus_some b c head tail hbody h hc with ⟨hhead, hplus⟩ | ⟨hhead, post1, post2, hplus⟩
  · -- There is no link to cut.
    constructor
    · intro ⟨b1, _, _, _, hb1, _⟩
      rw [hplus] at hb1
      cases hb1
    · intro hr
      exact absurd hhead hr.1.1
  rw [bodyBack_divided_iff b hb post1 post2 head tail hplus, hbody, backAll_append, backAll_cons]
  constructor
  · intro ⟨hs, ts, zs, hhs, hts, _, hzs, hsame⟩
    by_cases htail : tail = []
    · -- The body that comes back is shorter.
      have ht : ts = [] := (restructure_eq_nil_iff _ _ ts hts).mpr htail
      rw [if_pos ht] at hzs
      have h1 := length_restructure _ _ _ hzs
      have h2 := length_restructure _ _ _ hhs
      have h3 := length_eq_of_sameUpToSpace hsame
      rw [List.length_append, List.length_cons] at h3
      omega
    have ht : ts ≠ [] := fun hn => htail ((restructure_eq_nil_iff _ _ ts hts).mp hn)
    rw [if_neg ht] at hzs
    rcases (restructure_append_iff _ _ _ _).mp hzs with ⟨us, vs, hus, hvs, rfl⟩
    simp only [restructure_cons, visit_contains_node, bind_eq_ok_iff, Except.ok.injEq,
      exists_eq_left'] at hvs
    rcases hvs with ⟨ws, hws, rfl⟩
    have hlen : us.length = head.length := by
      rw [length_restructure _ _ _ hus, length_restructure _ _ _ hhs]
    rw [sameUpToSpace_append_iff hlen, sameUpToSpace_cons_iff] at hsame
    have hplain := (plain_iff c hc).mpr hsame.2.1
    exact ⟨⟨hhead, htail, hplain⟩, ⟨hs, us, hhs, hus, hsame.1⟩, back_of_plain c hc hplain,
      ts, ws, hts, hws, hsame.2.2⟩
  · intro ⟨⟨_, htail, hplain⟩, ⟨hs, us, hhs, hus, hsame1⟩, _, ts, ws, hts, hws, hsame2⟩
    have ht : ts ≠ [] := fun hn => htail ((restructure_eq_nil_iff _ _ ts hts).mp hn)
    have hlen : us.length = head.length := by
      rw [length_restructure _ _ _ hus, length_restructure _ _ _ hhs]
    refine ⟨hs, ts, us ++ xml_make_node "SgContainsStatement" (spaces 1) :: ws, hhs, hts,
      fun hn => hhead ((restructure_eq_nil_iff _ _ hs hhs).mp hn), ?_, ?_⟩
    · rw [if_neg ht]
      refine (restructure_append_iff _ _ _ _).mpr ⟨us, _, hus, ?_, rfl⟩
      simp only [restructure_cons, visit_contains_node, bind_eq_ok_iff, Except.ok.injEq,
        exists_eq_left']
      exact ⟨ws, hws, rfl⟩
    · rw [sameUpToSpace_append_iff hlen, sameUpToSpace_cons_iff]
      exact ⟨hsame1, (plain_iff c hc).mp hplain, hsame2⟩

theorem first_contains (stmts : List Cell) :
    (∀ s ∈ stmts, isContains s = false) ∨ ∃ head c tail, stmts = head ++ c :: tail ∧
      isContains c = true ∧ ∀ s ∈ head, isContains s = false := by
  induction stmts with
  | nil => exact Or.inl (fun s hs => absurd hs List.not_mem_nil)
  | cons x xs ih =>
      cases hx : isContains x with
      | true => exact Or.inr ⟨[], x, xs, rfl, hx, fun s hs => absurd hs List.not_mem_nil⟩
      | false =>
          rcases ih with hnone | ⟨head, c, tail, rfl, hc, hhead⟩
          · exact Or.inl (List.forall_mem_cons.mpr ⟨hx, hnone⟩)
          · exact Or.inr ⟨x :: head, c, tail, rfl, hc, List.forall_mem_cons.mpr ⟨hx, hhead⟩⟩

/-- The first CONTAINS of a body decides whether it is divided. -/
theorem divided_some_iff (head tail : List Cell) (c : Cell) (h : ∀ s ∈ head, isContains s = false)
    (hc : isContains c = true) :
    Divided (head ++ c :: tail) ↔ head ≠ [] ∧ tail ≠ [] ∧ Plain c := by
  constructor
  · intro hd
    exact hd.2 head c tail rfl hc h
  · intro hd
    refine ⟨fun hn => List.cons_ne_nil c tail (List.append_eq_nil_iff.mp hn).2, ?_⟩
    intro head' c' tail' heq hc' h'
    have h1 := takeWhile_of_first head tail c h hc
    have h2 := takeWhile_of_first head' tail' c' h' hc'
    rw [heq, h2.1, h2.2] at h1
    rw [h1.1, (List.cons.inj h1.2).1, (List.cons.inj h1.2).2]
    exact hd

/-- A body comes back when it is divided and each of its statements does. -/
theorem bodyBack_iff (b : Cell) (hb : unitOf b.name = none) :
    BackBody b ↔ Divided b.children ∧ BackAll b.children := by
  rcases first_contains b.children with hnone | ⟨head, c, tail, hbody, hc, hhead⟩
  · rw [bodyBack_none_iff b hb hnone, Divided]
    refine and_congr_left fun _ => ⟨fun hne => ⟨hne, ?_⟩, fun hd => hd.1⟩
    intro head c tail heq hc _
    have hmem : c ∈ b.children := by
      rw [heq]
      exact List.mem_append_right head List.mem_cons_self
    rw [hnone c hmem] at hc
    cases hc
  · rw [bodyBack_some_iff b c hb head tail hbody hhead hc, hbody,
      divided_some_iff head tail c hhead hc]

theorem contplus_name (b b' : Cell) (h : contplus b = .ok b') : b'.name = b.name := by
  unfold contplus at h
  dsimp only at h
  split at h
  · cases h
  · cases h
    rfl

theorem visit_name (f : Rewriting) (x y : Cell) (h : visit f x = .ok y) : y.name = x.name := by
  cases hu : unitOf x.name with
  | none =>
      rw [visit_plain_iff f x y hu] at h
      rcases h with ⟨cs, _, rfl⟩
      rfl
  | some form =>
      simp only [visit_unit f x form hu, bind_eq_ok_iff, Except.ok.injEq] at h
      rcases h with ⟨_, _, ds, _, rfl⟩
      rfl

section Path

variable (form : UnitForm)

theorem backAt_end_iff (b : Cell) (rest : List Cell) (h : b.name = form.body) :
    BackAt form [] (b :: rest) ↔ BackBody b ∧ BackAll rest := by
  unfold BackAt BackBody BackAll xevparse_contplus xevparse_contminus
  constructor
  · intro ⟨as, bs, cs, ds, has, hbs, hcs, hds, hsame⟩
    simp only [atBody, if_pos h, bind_eq_ok_iff, Except.ok.injEq] at has
    rcases has with ⟨b1, hb1, rfl⟩
    simp only [restructure_cons, bind_eq_ok_iff, Except.ok.injEq] at hbs
    rcases hbs with ⟨b2, hb2, rs, hrs, rfl⟩
    have hname : b2.name = form.body := by
      rw [visit_name _ b1 b2 hb2, contplus_name b b1 hb1, h]
    simp only [atBody, if_pos hname, bind_eq_ok_iff, Except.ok.injEq] at hcs
    rcases hcs with ⟨b3, hb3, rfl⟩
    simp only [restructure_cons, bind_eq_ok_iff, Except.ok.injEq] at hds
    rcases hds with ⟨b4, hb4, ts, hts, rfl⟩
    rw [sameUpToSpace_cons_iff] at hsame
    exact ⟨⟨b1, b2, b3, b4, hb1, hb2, hb3, hb4, hsame.1⟩, rs, ts, hrs, hts, hsame.2⟩
  · intro ⟨⟨b1, b2, b3, b4, hb1, hb2, hb3, hb4, hb⟩, rs, ts, hrs, hts, hsame⟩
    have hname : b2.name = form.body := by
      rw [visit_name _ b1 b2 hb2, contplus_name b b1 hb1, h]
    refine ⟨b1 :: rest, b2 :: rs, b3 :: rs, b4 :: ts, ?_, ?_, ?_, ?_, ?_⟩
    · simp only [atBody, if_pos h, bind_eq_ok_iff, Except.ok.injEq]
      exact ⟨b1, hb1, rfl⟩
    · simp only [restructure_cons, bind_eq_ok_iff, Except.ok.injEq]
      exact ⟨b2, hb2, rs, hrs, rfl⟩
    · simp only [atBody, if_pos hname, bind_eq_ok_iff, Except.ok.injEq]
      exact ⟨b3, hb3, rfl⟩
    · simp only [restructure_cons, bind_eq_ok_iff, Except.ok.injEq]
      exact ⟨b4, hb4, ts, hts, rfl⟩
    · exact (sameUpToSpace_cons_iff b4 b ts rest).mpr ⟨hb, hsame⟩

theorem backAt_next_iff (ops : List Op) (x : Cell) (xs : List Cell) :
    BackAt form (.n :: ops) (x :: xs) ↔ Back x ∧ BackAt form ops xs := by
  unfold BackAt Back xevparse_contplus xevparse_contminus
  constructor
  · intro ⟨as, bs, cs, ds, has, hbs, hcs, hds, hsame⟩
    simp only [atBody, bind_eq_ok_iff, Except.ok.injEq] at has
    rcases has with ⟨as', has, rfl⟩
    simp only [restructure_cons, bind_eq_ok_iff, Except.ok.injEq] at hbs
    rcases hbs with ⟨y, hy, bs', hbs, rfl⟩
    simp only [atBody, bind_eq_ok_iff, Except.ok.injEq] at hcs
    rcases hcs with ⟨cs', hcs, rfl⟩
    simp only [restructure_cons, bind_eq_ok_iff, Except.ok.injEq] at hds
    rcases hds with ⟨z, hz, ds', hds, rfl⟩
    rw [sameUpToSpace_cons_iff] at hsame
    exact ⟨⟨y, z, hy, hz, hsame.1⟩, as', bs', cs', ds', has, hbs, hcs, hds, hsame.2⟩
  · intro ⟨⟨y, z, hy, hz, hx⟩, as, bs, cs, ds, has, hbs, hcs, hds, hsame⟩
    refine ⟨x :: as, y :: bs, y :: cs, z :: ds, ?_, ?_, ?_, ?_, ?_⟩
    · simp only [atBody, bind_eq_ok_iff, Except.ok.injEq]
      exact ⟨as, has, rfl⟩
    · simp only [restructure_cons, bind_eq_ok_iff, Except.ok.injEq]
      exact ⟨y, hy, bs, hbs, rfl⟩
    · simp only [atBody, bind_eq_ok_iff, Except.ok.injEq]
      exact ⟨cs, hcs, rfl⟩
    · simp only [restructure_cons, bind_eq_ok_iff, Except.ok.injEq]
      exact ⟨z, hz, ds, hds, rfl⟩
    · exact (sameUpToSpace_cons_iff z x ds xs).mpr ⟨hx, hsame⟩

theorem backAt_child_iff (ops : List Op) (d : Cell) (xs : List Cell) (h : unitOf d.name = none) :
    BackAt form (.c :: ops) (d :: xs) ↔ BackAt form ops d.children ∧ BackAll xs := by
  unfold BackAt BackAll xevparse_contplus xevparse_contminus
  constructor
  · intro ⟨as, bs, cs, ds, has, hbs, hcs, hds, hsame⟩
    simp only [atBody, bind_eq_ok_iff, Except.ok.injEq] at has
    rcases has with ⟨as', has, rfl⟩
    simp only [restructure_cons, bind_eq_ok_iff, Except.ok.injEq] at hbs
    rcases hbs with ⟨y, hy, ys, hys, rfl⟩
    rw [visit_plain_iff _ (d.withChildren as') y h] at hy
    rcases hy with ⟨bs', hbs, rfl⟩
    simp only [atBody, bind_eq_ok_iff, Except.ok.injEq] at hcs
    rcases hcs with ⟨cs', hcs, rfl⟩
    simp only [restructure_cons, bind_eq_ok_iff, Except.ok.injEq] at hds
    rcases hds with ⟨z, hz, zs, hzs, rfl⟩
    rw [visit_plain_iff _ (((d.withChildren as').withChildren bs').withChildren cs') z h] at hz
    rcases hz with ⟨ds', hds, rfl⟩
    rw [sameUpToSpace_cons_iff] at hsame
    exact ⟨⟨as', bs', cs', ds', has, hbs, hcs, hds,
      (trimmed_withChildren_self_iff d ds').mp hsame.1⟩, ys, zs, hys, hzs, hsame.2⟩
  · intro ⟨⟨as, bs, cs, ds, has, hbs, hcs, hds, hd⟩, ys, zs, hys, hzs, hsame⟩
    refine ⟨d.withChildren as :: xs, d.withChildren bs :: ys, d.withChildren cs :: ys,
      d.withChildren ds :: zs, ?_, ?_, ?_, ?_, ?_⟩
    · simp only [atBody, bind_eq_ok_iff, Except.ok.injEq]
      exact ⟨as, has, rfl⟩
    · simp only [restructure_cons, bind_eq_ok_iff, Except.ok.injEq]
      refine ⟨d.withChildren bs, ?_, ys, hys, rfl⟩
      rw [visit_plain_iff _ (d.withChildren as) _ h]
      exact ⟨bs, hbs, rfl⟩
    · simp only [atBody, bind_eq_ok_iff, Except.ok.injEq]
      exact ⟨cs, hcs, rfl⟩
    · simp only [restructure_cons, bind_eq_ok_iff, Except.ok.injEq]
      refine ⟨d.withChildren ds, ?_, zs, hzs, rfl⟩
      rw [visit_plain_iff _ (d.withChildren cs) _ h]
      exact ⟨ds, hds, rfl⟩
    · exact (sameUpToSpace_cons_iff _ d zs xs).mpr
        ⟨(trimmed_withChildren_self_iff d ds).mpr hd, hsame⟩

/-- What a path starts from comes back when the body at its end is divided and
    all of it comes back as it stands. -/
theorem backAt_iff (hform : unitOf form.body = none) (ops : List Op) (xs : List Cell)
    (h : Reaches form ops xs) : BackAt form ops xs ↔ Divided (bodyAt ops xs) ∧ BackAll xs := by
  induction ops, xs using bodyAt.induct with
  | case1 b rest =>
      rw [Reaches] at h
      have hb : unitOf b.name = none := by rw [h, hform]
      rw [bodyAt, backAll_cons, back_plain_iff b hb, ← and_assoc, ← bodyBack_iff b hb,
        backAt_end_iff form b rest h]
  | case2 ops x xs ih =>
      rw [Reaches] at h
      rw [bodyAt, backAll_cons, and_left_comm, ← ih h, backAt_next_iff]
  | case3 ops d xs ih =>
      rw [Reaches] at h
      rw [bodyAt, backAll_cons, back_plain_iff d h.1, ← and_assoc, ← ih h.2,
        backAt_child_iff form ops d xs h.1]
  | case4 ops =>
      -- No path starts from an empty list.
      cases ops with
      | nil => exact absurd h (by simp only [Reaches, not_false_eq_true])
      | cons op ops => cases op <;> exact absurd h (by simp only [Reaches, not_false_eq_true])

end Path

theorem unitOf_body (name : String) (form : UnitForm) (h : unitOf name = some form) :
    unitOf form.body = none := by
  unfold unitOf at h
  split at h
  · cases h
    decide
  split at h
  · cases h
    decide
  split at h
  · cases h
    decide
  · cases h

/-- One cell: the body it has, and its children. -/
theorem back_iff (x : Cell) (h : WellFormed x) :
    Back x ↔ (∀ stmts, bodyOf x = some stmts → Divided stmts) ∧ BackAll x.children := by
  cases hu : unitOf x.name with
  | none =>
      rw [back_plain_iff x hu, bodyOf, hu]
      refine ⟨fun hx => ⟨fun stmts hs => ?_, hx⟩, fun hx => hx.2⟩
      cases hs
  | some form =>
      rw [back_unit_iff x form hu, backAt_iff form (unitOf_body x.name form hu) _ _ (h form hu),
        bodyOf, hu]
      simp only [Option.map_some, Option.some.injEq, forall_eq']

theorem backAll_cells_iff :
    (∀ x : Cell, (∀ y ∈ x.cells, WellFormed y) →
      (Back x ↔ ∀ y ∈ x.cells, ∀ stmts, bodyOf y = some stmts → Divided stmts)) ∧
    ∀ xs : List Cell, (∀ y ∈ cellsAll xs, WellFormed y) →
      (BackAll xs ↔ ∀ y ∈ cellsAll xs, ∀ stmts, bodyOf y = some stmts → Divided stmts) := by
  apply Cell.induct
  case hmk =>
    intro type name attrs pretext posttext cs ih h
    simp only [mem_cells_iff, forall_eq_or_imp, Cell.children] at h ⊢
    rw [back_iff _ h.1, Cell.children, ih h.2]
  case hnil =>
    intro _
    exact ⟨fun _ y hy => absurd hy List.not_mem_nil, fun _ => backAll_nil⟩
  case hcons =>
    intro x xs ihx ihxs h
    simp only [cellsAll, List.mem_append, or_imp, forall_and] at h ⊢
    rw [backAll_cons, ihx h.1, ihxs h.2]

end Back

/-- A forest of well formed units comes back exactly when the bodies of all its
    units are divided. -/
theorem contains_restored_iff (xs : List Cell) (h : ∀ x ∈ cellsAll xs, WellFormed x) :
    (∃ ys zs, xevparse_contplus xs = .ok ys ∧ xevparse_contminus ys = .ok zs ∧
      SameUpToSpace zs xs) ↔
    ∀ x ∈ cellsAll xs, ∀ stmts, bodyOf x = some stmts → Divided stmts :=
  backAll_cells_iff.2 xs h

/-- A module with the given statements. -/
def moduleOf (stmts : List Cell) : Cell :=
  (xml_make_node "SgModuleStatement" []).withChildren
    [(xml_make_node "SgClassDefinition" []).withChildren stmts]

theorem moduleOf_wellFormed (stmts : List Cell)
    (h : ∀ x ∈ cellsAll stmts, unitOf x.name = none) :
    ∀ x ∈ cellsAll [moduleOf stmts], WellFormed x := by
  intro x hx
  simp only [moduleOf, xml_make_node, Cell.withChildren, cellsAll, Cell.cells, List.append_nil,
    List.mem_cons] at hx
  rcases hx with rfl | rfl | hx
  · intro form hform
    cases hform
    rfl
  · intro form hform
    cases hform
  · intro form hform
    rw [h x hx] at hform
    cases hform

/-- A module with a statement on either side of CONTAINS comes back. -/
theorem contains_restored_module :
    ∃ ys zs, xevparse_contplus [moduleOf [xml_make_node "SgVariableDeclaration" [],
        xml_make_node "SgContainsStatement" [], xml_make_node "SgNullStatement" []]] = .ok ys ∧
      xevparse_contminus ys = .ok zs ∧
      SameUpToSpace zs [moduleOf [xml_make_node "SgVariableDeclaration" [],
        xml_make_node "SgContainsStatement" [], xml_make_node "SgNullStatement" []]] := by
  refine (contains_restored_iff _ (moduleOf_wellFormed _ ?_)).mpr ?_
  · intro x hx
    simp only [xml_make_node, cellsAll, Cell.cells, List.append_nil, List.cons_append,
      List.nil_append, List.mem_cons, List.not_mem_nil, or_false] at hx
    rcases hx with rfl | rfl | rfl <;> decide
  · intro x hx stmts hstmts
    simp only [moduleOf, xml_make_node, Cell.withChildren, cellsAll, Cell.cells, List.append_nil,
      List.cons_append, List.nil_append, List.mem_cons, List.not_mem_nil, or_false] at hx
    rcases hx with rfl | rfl | rfl | rfl | rfl
    · cases hstmts
      have hplain : Plain (xml_make_node "SgContainsStatement" []) := ⟨rfl, rfl, rfl, rfl, rfl⟩
      exact (divided_some_iff [xml_make_node "SgVariableDeclaration" []]
        [xml_make_node "SgNullStatement" []] (xml_make_node "SgContainsStatement" [])
        (by decide) (by decide)).mpr ⟨List.cons_ne_nil _ _, List.cons_ne_nil _ _, hplain⟩
    all_goals cases hstmts

/-- A module with a body of plain statements that does not come back. -/
def NotRestored (stmts : List Cell) : Prop :=
  (∀ x ∈ cellsAll [moduleOf stmts], WellFormed x) ∧
    ¬ ∃ ys zs, xevparse_contplus [moduleOf stmts] = .ok ys ∧ xevparse_contminus ys = .ok zs ∧
      SameUpToSpace zs [moduleOf stmts]

theorem notRestored_of_not_divided {stmts : List Cell}
    (hplain : ∀ x ∈ cellsAll stmts, unitOf x.name = none) (hd : ¬ Divided stmts) :
    NotRestored stmts := by
  refine ⟨moduleOf_wellFormed stmts hplain, fun hback => hd ?_⟩
  refine (backAll_cells_iff.2 _ (moduleOf_wellFormed stmts hplain)).mp hback (moduleOf stmts) ?_
    stmts rfl
  simp only [moduleOf, Cell.withChildren, cellsAll, Cell.cells, List.append_nil]
  exact List.mem_cons_self

/-- The names of two statements without children. -/
theorem unitOf_two {a b : String} (ha : unitOf a = none) (hb : unitOf b = none) :
    ∀ x ∈ cellsAll [xml_make_node a [], xml_make_node b []], unitOf x.name = none := by
  intro x hx
  simp only [xml_make_node, cellsAll, Cell.cells, List.append_nil, List.cons_append,
    List.nil_append, List.mem_cons, List.not_mem_nil, or_false] at hx
  rcases hx with rfl | rfl
  · exact ha
  · exact hb

/-- An empty module, a module that starts with CONTAINS and a module that ends with
    it do not come back. -/
theorem contains_not_restored :
    NotRestored [] ∧
      NotRestored [xml_make_node "SgContainsStatement" [], xml_make_node "SgNullStatement" []] ∧
      NotRestored [xml_make_node "SgVariableDeclaration" [],
        xml_make_node "SgContainsStatement" []] := by
  refine ⟨?_, ?_, ?_⟩
  · exact notRestored_of_not_divided (fun x hx => absurd hx List.not_mem_nil) fun hd => hd.1 rfl
  · refine notRestored_of_not_divided (unitOf_two (by decide) (by decide)) fun hd => ?_
    exact (hd.2 [] _ _ rfl (by decide) (fun s hs => absurd hs List.not_mem_nil)).1 rfl
  · refine notRestored_of_not_divided (unitOf_two (by decide) (by decide)) fun hd => ?_
    exact (hd.2 [xml_make_node "SgVariableDeclaration" []] _ _ rfl (by decide) (by decide)).2.1 rfl

end XevXml.Tools
