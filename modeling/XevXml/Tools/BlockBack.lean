import XevXml.Tools.Block

/-!
# Blocks Taken Apart Again

`xev_destr_block` puts the sections of a block behind the directive that opens it.
The directives that ended the sections are made anew: they get the element name of
the directive that opens the block, the clauses that the construction has kept, and
a new clause `end`, behind the first clause of a pragma, which is its name. The
clause `begin` of a directive comes back as its last one.

A row and what comes back are compared without the texts that are white space, and
with the marks of every directive in front of its other clauses.

## Main definitions

* `SameUpToMarks`: Rows that differ in white space and in the places of the marks.
* `Closes`: What is needed of the directive that ends a section.

## Theorems

* `tally_eraseP_begin`, `tally_eraseP_end`: What it means to take a mark away.
* `insert_end_spec`: Where a mark is put back.
* `restores_parts`: The sections of a block come back.
* `xev_destr_constr_block`: A row comes back.
-/

namespace XevXml.Tools

open Fuel

section Same

/-- The clauses of a directive with its marks in front. -/
def marksFirst (cs : List Cell) : List Cell :=
  cs.filter (clauseNamed "begin") ++ cs.filter (clauseNamed "end") ++
    cs.filter fun c => !(clauseNamed "begin" c || clauseNamed "end" c)

/-- The children of a directive with the marks in front of the other clauses. -/
def clausesFirst (cs : List Cell) : List Cell :=
  match cs with
  | [] => []
  | c :: cs => c.withChildren (marksFirst c.children) :: cs

mutual

/-- A cell without the texts that are white space only, and with the marks of the
    directives in front. -/
def Cell.arranged : Cell → Cell
  | .mk type name attrs pretext posttext cs =>
      .mk type name attrs (trimmedText pretext) (trimmedText posttext)
        (if name == "xev_pragma" || name == "xevdrs_line" then clausesFirst (arrangedAll cs)
          else arrangedAll cs)

/-- A list of cells arranged so. -/
def arrangedAll : List Cell → List Cell
  | [] => []
  | x :: xs => x.arranged :: arrangedAll xs

end

/-- Rows that differ in white space and in the places of the marks only. -/
def SameUpToMarks (xs ys : List Cell) : Prop := arrangedAll xs = arrangedAll ys

theorem arrangedAll_eq_map (xs : List Cell) : arrangedAll xs = xs.map Cell.arranged := by
  induction xs with
  | nil => rfl
  | cons x xs ih => rw [arrangedAll, ih, List.map_cons]

theorem sameUpToMarks_append {xs ys xs' ys' : List Cell} (h : SameUpToMarks xs xs')
    (h' : SameUpToMarks ys ys') : SameUpToMarks (xs ++ ys) (xs' ++ ys') := by
  rw [SameUpToMarks, arrangedAll_eq_map, arrangedAll_eq_map] at *
  rw [List.map_append, List.map_append, h, h']

/-- A cell that is no directive. -/
theorem arranged_of_not {x : Cell} (h : isDirective x = false) :
    x.arranged = .mk x.type x.name x.attrs (trimmedText x.pretext) (trimmedText x.posttext)
      (arrangedAll x.children) := by
  cases x with
  | mk type name attrs pretext posttext cs =>
      rw [isDirective, Cell.name] at h
      rw [Cell.arranged, h]
      rfl

/-- A directive with a list of clauses. -/
theorem arranged_directive {x c : Cell} (hx : isDirective x = true) (hc : isDirective c = false) :
    (x.withChildren [c]).arranged =
      .mk x.type x.name x.attrs (trimmedText x.pretext) (trimmedText x.posttext)
        [.mk c.type c.name c.attrs (trimmedText c.pretext) (trimmedText c.posttext)
          (marksFirst (arrangedAll c.children))] := by
  rw [isDirective] at hx
  rw [Cell.withChildren, Cell.arranged, hx, if_pos rfl, arrangedAll, arrangedAll,
    arranged_of_not hc]
  rfl

end Same

section Clauses

/-- A clause that has nothing but its name. -/
def PlainClause (name : String) (c : Cell) : Prop := c.trimmed = (clauseNode name).trimmed

/-- The marks among some clauses have nothing but their names. -/
def PlainMarks (cs : List Cell) : Prop :=
  ∀ c ∈ cs, (clauseNamed "begin" c = true → PlainClause "begin" c) ∧
    (clauseNamed "end" c = true → PlainClause "end" c)

/-- The number of each mark, and the other clauses. -/
def tally (cs : List Cell) : Nat × Nat × List Cell :=
  (cs.countP (clauseNamed "begin"), cs.countP (clauseNamed "end"),
    cs.filter fun c => !(clauseNamed "begin" c || clauseNamed "end" c))

theorem tally_begin {a : Cell} (cs ds : List Cell) (ha : clauseNamed "begin" a = true) :
    tally (cs ++ a :: ds) = ((tally (cs ++ ds)).1 + 1, (tally (cs ++ ds)).2) := by
  have hno : clauseNamed "end" a = false := clauseNamed_unique ha (by decide)
  simp only [tally, List.countP_append, List.countP_cons, List.filter_append, List.filter_cons, ha,
    hno, Bool.true_or, Bool.not_true, Bool.false_eq_true, if_true, if_false, Nat.add_zero,
    Nat.add_assoc]

theorem tally_end {a : Cell} (cs ds : List Cell) (ha : clauseNamed "end" a = true) :
    tally (cs ++ a :: ds) =
      ((tally (cs ++ ds)).1, (tally (cs ++ ds)).2.1 + 1, (tally (cs ++ ds)).2.2) := by
  have hno : clauseNamed "begin" a = false := clauseNamed_unique ha (by decide)
  simp only [tally, List.countP_append, List.countP_cons, List.filter_append, List.filter_cons, ha,
    hno, Bool.or_true, Bool.not_true, Bool.false_eq_true, if_true, if_false, Nat.add_zero,
    Nat.add_assoc]

/-- The list around the clause that is taken away. -/
theorem eraseP_split {name : String} {cs : List Cell} (h : cs.any (clauseNamed name) = true) :
    ∃ a ds ds', clauseNamed name a = true ∧ cs = ds ++ a :: ds' ∧
      cs.eraseP (clauseNamed name) = ds ++ ds' := by
  rcases List.any_eq_true.mp h with ⟨c, hc, hname⟩
  rcases List.exists_of_eraseP hc hname with ⟨a, ds, ds', _, ha, hcs, herase⟩
  exact ⟨a, ds, ds', ha, hcs, herase⟩

theorem tally_eraseP_begin {cs : List Cell} (h : cs.any (clauseNamed "begin") = true) :
    tally cs = ((tally (cs.eraseP (clauseNamed "begin"))).1 + 1,
      (tally (cs.eraseP (clauseNamed "begin"))).2) := by
  rcases eraseP_split h with ⟨a, ds, ds', ha, hcs, herase⟩
  rw [herase, hcs, tally_begin ds ds' ha]

theorem tally_eraseP_end {cs : List Cell} (h : cs.any (clauseNamed "end") = true) :
    tally cs = ((tally (cs.eraseP (clauseNamed "end"))).1,
      (tally (cs.eraseP (clauseNamed "end"))).2.1 + 1,
      (tally (cs.eraseP (clauseNamed "end"))).2.2) := by
  rcases eraseP_split h with ⟨a, ds, ds', ha, hcs, herase⟩
  rw [herase, hcs, tally_end ds ds' ha]

theorem plainMarks_eraseP {cs : List Cell} (name : String) (h : PlainMarks cs) :
    PlainMarks (cs.eraseP (clauseNamed name)) := fun c hc => h c (List.mem_of_mem_eraseP hc)

theorem plainMarks_insert {cs ds : List Cell} {a : Cell} (h : PlainMarks (cs ++ ds))
    (ha : PlainMarks [a]) : PlainMarks (cs ++ a :: ds) := by
  intro c hc
  rw [List.mem_append, List.mem_cons] at hc
  rcases hc with hc | rfl | hc
  · exact h c (List.mem_append_left ds hc)
  · exact ha c (List.mem_singleton.mpr rfl)
  · exact h c (List.mem_append_right cs hc)

/-- The new clauses are plain. -/
theorem plainMarks_clauseNode (name : String) : PlainMarks [clauseNode name] := by
  intro c hc
  rw [List.mem_singleton] at hc
  subst hc
  have hname : ∀ m, clauseNamed m (clauseNode name) = true → m = name := by
    intro m hm
    by_contra hne
    have hself : clauseNamed name (clauseNode name) = true := by
      rw [clauseNamed, clauseNode, Cell.attrs, List.lookup_cons_self, beq_self_eq_true]
    rw [clauseNamed_unique hself fun he => hne he.symm] at hm
    cases hm
  refine ⟨fun h => ?_, fun h => ?_⟩
  · rw [← hname _ h, PlainClause]
  · rw [← hname _ h, PlainClause]

theorem clauseNamed_arranged (name : String) (c : Cell) :
    clauseNamed name c.arranged = clauseNamed name c := by
  cases c with
  | mk type name' attrs pretext posttext cs => rfl

theorem arranged_of_plain {name : String} {c : Cell} (h : PlainClause name c) :
    c.arranged = (clauseNode name).arranged := by
  cases c with
  | mk type name' attrs pretext posttext cs =>
      rw [PlainClause, clauseNode, Cell.trimmed, Cell.trimmed, Cell.mk.injEq] at h
      rcases h with ⟨rfl, rfl, rfl, hpre, hpost, hcs⟩
      have hnil : cs = [] := by
        rw [trimmedAll, trimmedAll_eq_map, List.map_eq_nil_iff] at hcs
        exact hcs
      subst hnil
      rw [Cell.arranged, hpre, hpost]
      rfl

/-- The plain clauses with a name are as good as their number. -/
theorem filter_arranged {name : String} {cs : List Cell}
    (h : ∀ c ∈ cs, clauseNamed name c = true → PlainClause name c) :
    (arrangedAll cs).filter (clauseNamed name) =
      List.replicate (cs.countP (clauseNamed name)) (clauseNode name).arranged := by
  rw [arrangedAll_eq_map, List.filter_map, List.eq_replicate_iff, List.length_map,
    List.countP_eq_length_filter]
  refine ⟨congrArg _ (List.filter_congr fun c _ => clauseNamed_arranged name c), ?_⟩
  intro b hb
  rcases List.mem_map.mp hb with ⟨c, hc, rfl⟩
  rw [List.mem_filter, Function.comp, clauseNamed_arranged] at hc
  exact arranged_of_plain (h c hc.1 hc.2)

/-- Clauses with the same tally are the same up to the places of the marks. -/
theorem marksFirst_eq {cs ds : List Cell} (hcs : PlainMarks cs) (hds : PlainMarks ds)
    (h : tally cs = tally ds) : marksFirst (arrangedAll cs) = marksFirst (arrangedAll ds) := by
  have hrest : ∀ xs : List Cell,
      (arrangedAll xs).filter (fun c => !(clauseNamed "begin" c || clauseNamed "end" c)) =
        (tally xs).2.2.map Cell.arranged := by
    intro xs
    rw [arrangedAll_eq_map, List.filter_map, tally]
    refine congrArg _ (List.filter_congr fun c _ => ?_)
    rw [Function.comp, clauseNamed_arranged, clauseNamed_arranged]
  have hmarks : ∀ xs : List Cell, PlainMarks xs → marksFirst (arrangedAll xs) =
      List.replicate (tally xs).1 (clauseNode "begin").arranged ++
        List.replicate (tally xs).2.1 (clauseNode "end").arranged ++
          (tally xs).2.2.map Cell.arranged := by
    intro xs hxs
    rw [marksFirst, filter_arranged fun c hc => (hxs c hc).1,
      filter_arranged fun c hc => (hxs c hc).2,
      hrest]
    rfl
  rw [hmarks cs hcs, hmarks ds hds, h]

end Clauses

section Marks

theorem isDirective_of_inert {c : Cell} (h : Inert c) : isDirective c = false :=
  h c ((mem_cells_iff c c).mpr (Or.inl rfl))

/-- A new clause is no directive. -/
theorem inert_insert {c : Cell} (name : String) {ds ds' : List Cell} (h : Inert c)
    (hc : c.children = ds ++ ds') : Inert (c.withChildren (ds ++ clauseNode name :: ds')) := by
  have hnode : Inert (clauseNode name) := by
    intro y hy
    rw [mem_cells_iff] at hy
    rcases hy with rfl | hy
    · rfl
    · cases hy
  intro y hy
  rw [mem_cells_iff, Cell.children_withChildren, mem_cellsAll_iff] at hy
  rcases hy with rfl | ⟨x, hx, hy⟩
  · have hname := isDirective_of_inert h
    exact hname
  · rw [List.mem_append, List.mem_cons] at hx
    have hold : x ∈ ds ++ ds' → isDirective y = false := fun hx => by
      rw [← hc] at hx
      exact h y ((mem_cells_iff c y).mpr (Or.inr ((mem_cellsAll_iff _ y).mpr ⟨x, hx, hy⟩)))
    rcases hx with hx | rfl | hx
    · exact hold (List.mem_append_left ds' hx)
    · exact hnode y hy
    · exact hold (List.mem_append_right ds hx)

/-- Where the clause `end` is put back. -/
theorem insert_end_spec {type : String} {c : Cell} (hc : Inert c) (hplain : PlainMarks c.children)
    (h : type = "xev_pragma" → c.children ≠ []) :
    ∃ ds, insert_end type c = .ok (c.withChildren ds) ∧ Inert (c.withChildren ds) ∧ PlainMarks ds ∧
      tally ds = ((tally c.children).1, (tally c.children).2.1 + 1, (tally c.children).2.2) := by
  have hsplit : ∃ ds ds', c.children = ds ++ ds' ∧
      insert_end type c = .ok (c.withChildren (ds ++ clauseNode "end" :: ds')) := by
    by_cases ht : type = "xev_pragma"
    · rw [insert_end, if_pos ht]
      cases hc : c.children with
      | nil => exact absurd hc (h ht)
      | cons d ds => exact ⟨[d], ds, rfl, rfl⟩
    · rw [insert_end, if_neg ht]
      exact ⟨c.children, [], (List.append_nil _).symm, rfl⟩
  rcases hsplit with ⟨ds, ds', heq, hins⟩
  refine ⟨_, hins, inert_insert "end" hc heq, ?_, ?_⟩
  · rw [heq] at hplain
    exact plainMarks_insert hplain (plainMarks_clauseNode "end")
  · rw [heq, tally_end ds ds' (by decide)]

/-- What is needed of the directive that ends a section: it can be made anew from the
    name of the directive that opens the block and from its clauses. -/
def Closes (name : String) (e : Cell) : Prop :=
  e.type = .node ∧ e.name = name ∧ e.attrs = [] ∧ all_spaces e.pretext = true ∧
    all_spaces e.posttext = true ∧ ∀ c ∈ e.children, PlainMarks c.children ∧
      (name = "xev_pragma" →
        ∃ d ∈ c.children, clauseNamed "begin" d = false ∧ clauseNamed "end" d = false)

/-- A directive made anew. -/
def remade (type : String) (c : Cell) : Cell :=
  .mk .node type [] (some (spaces 3)) (some (spaces 3)) [c]

/-- A directive made anew is the old one when its clauses are. -/
theorem arranged_remade {name : String} {e c : Cell} {ds : List Cell}
    (he : Closes name (e.withChildren [c])) (hdir : isDirective e = true) (hc : Inert c)
    (hds : PlainMarks ds) (htally : tally ds = tally c.children) :
    (remade name (c.withChildren ds)).arranged = (e.withChildren [c]).arranged := by
  rcases he with ⟨htype, hname, hattrs, hpre, hpost, hcs⟩
  have hnot := isDirective_of_inert hc
  have hplain := (hcs c (List.mem_singleton.mpr rfl)).1
  have hname' : e.name = name := hname
  have hdir' : isDirective (remade name c) = true := by
    rw [isDirective, ← hname'] at *
    exact hdir
  have hpre' := (trimmedText_eq_none_iff e.pretext).mpr hpre
  have hpost' := (trimmedText_eq_none_iff e.posttext).mpr hpost
  have hnew := arranged_directive (x := remade name c) (c := c.withChildren ds) hdir' hnot
  refine hnew.trans ?_
  rw [arranged_directive hdir hnot, hpre', hpost', hname', show e.attrs = [] from hattrs,
    show e.type = .node from htype, Cell.children_withChildren, marksFirst_eq hds hplain htally]
  rfl

/-- The directive that ends the last section comes back. -/
theorem remade_last {name : String} {e c : Cell} (he : Closes name (e.withChildren [c]))
    (hdir : isDirective e = true) (hc : Inert c)
    (hend : c.children.any (clauseNamed "end") = true) :
    ∃ l, insert_end name (detached "end" c) = .ok l ∧ Inert l ∧
      (remade name l).arranged = (e.withChildren [c]).arranged := by
  have hcs := he.2.2.2.2.2 c (List.mem_singleton.mpr rfl)
  have hne : name = "xev_pragma" → (detached "end" c).children ≠ [] := by
    intro hn hnil
    rcases hcs.2 hn with ⟨d, hd, _, hno⟩
    have hmem : d ∈ (detached "end" c).children :=
      (List.mem_eraseP_of_neg (by rw [hno]; decide)).mpr hd
    rw [hnil] at hmem
    cases hmem
  rcases insert_end_spec (inert_detached "end" hc) (plainMarks_eraseP "end" hcs.1) hne with
    ⟨ds, hins, hinert, hplain, htally⟩
  refine ⟨_, hins, hinert, ?_⟩
  refine arranged_remade he hdir hc hplain ?_
  rw [htally, tally_eraseP_end hend, detached, Cell.children_withChildren]

/-- The directive that ends a section and opens another one comes back. -/
theorem remade_next {name : String} {e c : Cell} (he : Closes name (e.withChildren [c]))
    (hdir : isDirective e = true) (hc : Inert c)
    (hend : c.children.any (clauseNamed "end") = true)
    (hbegin : c.children.any (clauseNamed "begin") = true) :
    ∃ l, insert_end name (detached "begin" (detached "end" c)) = .ok l ∧
      Inert (appended "begin" l) ∧
      (remade name (appended "begin" l)).arranged = (e.withChildren [c]).arranged := by
  have hcs := he.2.2.2.2.2 c (List.mem_singleton.mpr rfl)
  have hne : name = "xev_pragma" → (detached "begin" (detached "end" c)).children ≠ [] := by
    intro hn hnil
    rcases hcs.2 hn with ⟨d, hd, hno, hno'⟩
    have hmem : d ∈ (detached "begin" (detached "end" c)).children :=
      (List.mem_eraseP_of_neg (by rw [hno]; decide)).mpr
        ((List.mem_eraseP_of_neg (by rw [hno']; decide)).mpr hd)
    rw [hnil] at hmem
    cases hmem
  have hbegin' : (detached "end" c).children.any (clauseNamed "begin") = true := by
    rw [any_detached (by decide)]
    exact hbegin
  rcases insert_end_spec (inert_detached "begin" (inert_detached "end" hc))
    (plainMarks_eraseP "begin" (plainMarks_eraseP "end" hcs.1)) hne with
    ⟨ds, hins, hinert, hplain, htally⟩
  have hlast := List.append_nil ds
  have hplain' : PlainMarks (ds ++ [clauseNode "begin"]) := by
    rw [← hlast] at hplain
    exact plainMarks_insert hplain (plainMarks_clauseNode "begin")
  have htally' : tally (ds ++ [clauseNode "begin"]) = tally c.children := by
    rw [tally_begin ds [] (by decide), hlast, htally, tally_eraseP_end hend,
      show c.children.eraseP (clauseNamed "end") = (detached "end" c).children from rfl,
      tally_eraseP_begin hbegin']
    rfl
  exact ⟨_, hins, inert_insert "begin" hinert hlast.symm,
    arranged_remade he hdir hc hplain' htally'⟩

end Marks

section Back

/-- The way back for a list. -/
def Destructs (xs ys : List Cell) : Prop := Computes (fun fuel => xev_destr_block fuel xs) ys

theorem destructs_nil : Destructs [] [] :=
  computes_succ (g := fun _ => .ok []) (fun _ => rfl) (computes_ok [])

/-- A cell that is not the beginning of a constructed block. -/
theorem destructs_cons {x : Cell} {xs cs ys : List Cell}
    (hx : (isDirective x && hasTarget x) = false) (hcs : Destructs x.children cs)
    (hys : Destructs xs ys) : Destructs (x :: xs) (x.withChildren cs :: ys) := by
  refine computes_succ (g := fun fuel => do
    let cs ← xev_destr_block fuel x.children
    let ys ← xev_destr_block fuel xs
    .ok (x.withChildren cs :: ys)) ?_ ?_
  · intro fuel
    rw [xev_destr_block, hx]
    rfl
  · exact computes_bind hcs (computes_bind hys (computes_ok _))

/-- The beginning of one. -/
theorem destructs_block {x c : Cell} {ts xs ss cs ys : List Cell} (hx : isDirective x = true)
    (ht : hasTarget (x.withChildren (c :: ts)) = true) (hss : sections x.name ts = .ok ss)
    (hcs : Destructs [appended "begin" c] cs) (hys : Destructs (ss ++ xs) ys) :
    Destructs (x.withChildren (c :: ts) :: xs) (x.withChildren cs :: ys) := by
  refine computes_succ (g := fun fuel => do
    let cs ← xev_destr_block fuel [appended "begin" c]
    let ys ← xev_destr_block fuel (ss ++ xs)
    .ok (x.withChildren cs :: ys)) ?_ ?_
  · intro fuel
    have hd : (isDirective (x.withChildren (c :: ts)) && hasTarget (x.withChildren (c :: ts))) =
        true := Bool.and_eq_true_iff.mpr ⟨hx, ht⟩
    simp only [xev_destr_block, hd, if_true, Cell.children_withChildren,
      Cell.name_withChildren, hss,
      Cell.withChildren_withChildren, bind, Except.bind]
  · exact computes_bind hcs (computes_bind hys (computes_ok _))

/-- A list comes back as another one, whatever follows it. -/
def Restores (xs ys : List Cell) : Prop :=
  ∀ zs zs', Destructs zs zs' → Destructs (xs ++ zs) (ys ++ zs')

theorem restores_append {xs ys xs' ys' : List Cell} (h : Restores xs ys) (h' : Restores xs' ys') :
    Restores (xs ++ xs') (ys ++ ys') := by
  intro zs zs' hz
  rw [List.append_assoc, List.append_assoc]
  exact h _ _ (h' zs zs' hz)

theorem destructs_of_restores {xs ys : List Cell} (h : Restores xs ys) : Destructs xs ys := by
  have hz := h [] [] destructs_nil
  rw [List.append_nil, List.append_nil] at hz
  exact hz

theorem restores_cell {x : Cell} {cs ds : List Cell}
    (hx : (isDirective (x.withChildren cs) && hasTarget (x.withChildren cs)) = false)
    (h : Restores cs ds) : Restores [x.withChildren cs] [x.withChildren ds] := fun _ _ hz =>
  destructs_cons hx (destructs_of_restores h) hz

/-- Where there is no directive everything stays. -/
theorem restores_inert :
    (∀ x : Cell, Inert x → Restores [x] [x]) ∧
    ∀ xs : List Cell, (∀ y ∈ cellsAll xs, isDirective y = false) → Restores xs xs := by
  apply Cell.induct
  case hmk =>
    intro type name attrs pretext posttext cs ih h
    simp only [Inert, mem_cells_iff, forall_eq_or_imp, Cell.children] at h
    refine restores_cell (x := .mk type name attrs pretext posttext []) ?_ (ih h.2)
    exact Bool.and_eq_false_iff.mpr (Or.inl h.1)
  case hnil =>
    intro _ zs zs' hz
    exact hz
  case hcons =>
    intro x xs ihx ihxs h
    simp only [cellsAll, List.mem_append, or_imp, forall_and] at h
    exact restores_append (ihx h.1) (ihxs h.2)

/-- A directive made anew stays. -/
theorem restores_remade (name : String) {c : Cell} (hc : Inert c) :
    Restores [remade name c] [remade name c] :=
  restores_cell (x := remade name c) (Bool.and_false _) (restores_inert.1 c hc)

/-- A constructed block comes back as the directive that opens it, its sections and the
    directives that end them. -/
theorem restores_block {x c : Cell} {ts ss ys : List Cell} (hx : isDirective x = true)
    (ht : hasTarget (x.withChildren (c :: ts)) = true) (hc : Inert c)
    (hss : sections x.name ts = .ok ss) (h : Restores ss ys) :
    Restores [x.withChildren (c :: ts)] (x.withChildren [appended "begin" c] :: ys) := by
  intro zs zs' hz
  have hclauses : Inert (appended "begin" c) := inert_insert "begin" hc (List.append_nil _).symm
  exact destructs_block hx ht hss (destructs_of_restores (restores_inert.1 _ hclauses))
    (h zs zs' hz)

/-- The last section of a block. -/
theorem sections_last {name : String} {c l : Cell} (ns : List Cell)
    (h : insert_end name c = .ok l) :
    sections name [target ns, c] = .ok (ns ++ [remade name l]) := by
  simp only [sections, h, bind, Except.bind, if_true]
  rfl

/-- A section that another one follows. -/
theorem sections_next {name : String} {c l : Cell} {ts ss : List Cell} (ns : List Cell)
    (hts : ts ≠ []) (h : insert_end name c = .ok l) (hss : sections name ts = .ok ss) :
    sections name (target ns :: c :: ts) =
      .ok (ns ++ remade name (appended "begin" l) :: ss) := by
  simp only [sections, h, bind, Except.bind, if_neg hts, hss]
  rfl

end Back

section Restored

mutual

/-- Every section of every block is ended by a directive that can be made anew. -/
def Item.Closed : Item → Prop
  | .plain _ cs => cs.Closed
  | .line _ => True
  | .block d ch => (∀ c ∈ d.children, PlainMarks c.children) ∧ ch.Closed d.name

def Items.Closed : Items → Prop
  | .nil => True
  | .cons i is => i.Closed ∧ is.Closed

def Chain.Closed (name : String) : Chain → Prop
  | .close is e => is.Closed ∧ Closes name e
  | .more is e ch => is.Closed ∧ Closes name e ∧ ch.Closed name

end

/-- The directive that opens a block gets its mark back. -/
theorem arranged_appended {x c : Cell} (hx : isDirective x = true) (hc : Inert c)
    (hplain : PlainMarks c.children) (hbegin : c.children.any (clauseNamed "begin") = true) :
    (x.withChildren [appended "begin" (detached "begin" c)]).arranged =
      (x.withChildren [c]).arranged := by
  have hcs := List.append_nil (c.children.eraseP (clauseNamed "begin"))
  have hnew : PlainMarks (appended "begin" (detached "begin" c)).children := by
    refine plainMarks_insert ?_ (plainMarks_clauseNode "begin")
    exact hcs.symm ▸ plainMarks_eraseP "begin" hplain
  have htally : tally (appended "begin" (detached "begin" c)).children = tally c.children := by
    have h := tally_begin (c.children.eraseP (clauseNamed "begin")) [] (a := clauseNode "begin")
      (by decide)
    rw [hcs, ← tally_eraseP_begin hbegin] at h
    exact h
  have hnot := isDirective_of_inert hc
  have hnot' : isDirective (appended "begin" (detached "begin" c)) = false := hnot
  rw [arranged_directive hx hnot, arranged_directive hx hnot', marksFirst_eq hnew hplain htally]
  rfl

/-- What comes back from a constructed row. -/
theorem restores_built (is : Items) (h : is.Nested) (h' : is.Closed) :
    ∃ ys, Restores is.built ys ∧ SameUpToMarks ys is.flat := by
  refine Items.induct
    (P := fun i => i.Nested → i.Closed → ∃ ys, Restores [i.built] ys ∧ SameUpToMarks ys i.flat)
    (Q := fun is => is.Nested → is.Closed →
      ∃ ys, Restores is.built ys ∧ SameUpToMarks ys is.flat)
    (R := fun ch => ch.Nested → ∀ name, ch.Closed name →
      ∃ ss ys, sections name ch.parts = .ok ss ∧ Restores ss ys ∧ SameUpToMarks ys ch.flat)
    ?plain ?line ?block ?nil ?cons ?close ?more is h h'
  case plain =>
    intro x cs ih h h'
    rcases ih h.2 h' with ⟨ys, hys, hsame⟩
    have hnot : ∀ ds, isDirective (x.withChildren ds) = false := fun _ => h.1
    refine ⟨[x.withChildren ys], restores_cell ?_ hys, ?_⟩
    · exact Bool.and_eq_false_iff.mpr (Or.inl (hnot _))
    · have hcell : (x.withChildren ys).arranged = (x.withChildren cs.flat).arranged := by
        rw [SameUpToMarks] at hsame
        rw [arranged_of_not (hnot ys), arranged_of_not (hnot cs.flat), Cell.children_withChildren,
          Cell.children_withChildren, hsame]
        rfl
      exact congrArg (fun y => [y]) hcell
  case line =>
    intro x h _
    rcases h with ⟨⟨_, c, hc, hi⟩, _, _⟩
    have heq : x = x.withChildren [c] := by rw [← hc, Cell.withChildren_children]
    refine ⟨[x], ?_, rfl⟩
    rw [Item.built, heq]
    exact restores_cell (Bool.and_false _) (restores_inert.1 c hi)
  -- The mark taken out of the clauses comes back behind them.
  case block =>
    intro d ch ih h h'
    rcases h with ⟨⟨hd, c, hc, hi⟩, hbegin, _, hch⟩
    rcases ih hch d.name h'.2 with ⟨ss, ys, hss, hys, hsame⟩
    rcases parts_eq_target ch with ⟨n, P, hP⟩
    have hplain := h'.1 c (by rw [hc]; exact List.mem_singleton.mpr rfl)
    have heq : d = d.withChildren [c] := by rw [← hc, Cell.withChildren_children]
    have ht : hasTarget (d.withChildren (detached "begin" c :: ch.parts)) = true := by
      rw [hP]
      rfl
    rw [hasClause, hc] at hbegin
    refine ⟨d.withChildren [appended "begin" (detached "begin" c)] :: ys, ?_, ?_⟩
    · rw [Item.built, hc]
      exact restores_block hd ht (inert_detached "begin" hi) hss hys
    · have hfirst := arranged_appended hd hi hplain hbegin
      rw [← heq] at hfirst
      rw [Item.flat, SameUpToMarks, arrangedAll, arrangedAll, hfirst, hsame]
  case nil =>
    intro _ _
    exact ⟨[], fun zs zs' hz => hz, rfl⟩
  case cons =>
    intro i is ihi ihis h h'
    rcases ihi h.1 h'.1 with ⟨ys, hys, hsame⟩
    rcases ihis h.2 h'.2 with ⟨ys', hys', hsame'⟩
    exact ⟨ys ++ ys', restores_append hys hys', sameUpToMarks_append hsame hsame'⟩
  -- The last section ends where the closing directive is made anew.
  case close =>
    intro is e ih h name h'
    rcases h with ⟨his, ⟨he, c, hc, hi⟩, hend, _⟩
    rcases ih his h'.1 with ⟨ys, hys, hsame⟩
    have heq : e = e.withChildren [c] := by rw [← hc, Cell.withChildren_children]
    have hcl := h'.2
    rw [hasClause, hc] at hend
    rw [heq] at hcl
    rcases remade_last hcl he hi hend with ⟨l, hl, hli, hlsame⟩
    rw [← heq] at hlsame
    refine ⟨is.built ++ [remade name l], ys ++ [remade name l], ?_, ?_, ?_⟩
    · rw [Chain.parts, hc]
      exact sections_last is.built hl
    · exact restores_append hys (restores_remade name hli)
    · refine sameUpToMarks_append hsame ?_
      exact congrArg (fun y => [y]) hlsame
  -- A directive between two sections closes one and opens the other.
  case more =>
    intro is e ch ihis ihch h name h'
    rcases h with ⟨his, ⟨he, c, hc, hi⟩, hend, hbegin, hch⟩
    rcases ihis his h'.1 with ⟨ys, hys, hsame⟩
    rcases ihch hch name h'.2.2 with ⟨ss, zs, hss, hzs, hsame'⟩
    rcases parts_eq_target ch with ⟨n, P, hP⟩
    have heq : e = e.withChildren [c] := by rw [← hc, Cell.withChildren_children]
    have hcl := h'.2.1
    rw [hasClause, hc] at hend hbegin
    rw [heq] at hcl
    rcases remade_next hcl he hi hend hbegin with ⟨l, hl, hli, hlsame⟩
    rw [← heq] at hlsame
    refine ⟨is.built ++ remade name (appended "begin" l) :: ss,
      ys ++ remade name (appended "begin" l) :: zs, ?_, ?_, ?_⟩
    · rw [Chain.parts, hc]
      exact sections_next is.built (by rw [hP]; exact List.cons_ne_nil _ _) hl hss
    · exact restores_append hys (restores_append (restores_remade name hli) hzs)
    · refine sameUpToMarks_append hsame ?_
      rw [SameUpToMarks, arrangedAll, arrangedAll, hlsame, hsame']

/-- The construction comes to an end and gives every directive that opens a block a
    target for each of its sections. Where the ends of the sections can be made anew,
    the way back leads to the row again. -/
theorem xev_destr_constr_block (is : Items) (h : is.Nested) :
    Constructs is.flat is.built ∧
      (is.Closed → ∃ ys, Destructs is.built ys ∧ SameUpToMarks ys is.flat) := by
  refine ⟨constructs_built is h, fun h' => ?_⟩
  rcases restores_built is h h' with ⟨ys, hys, hsame⟩
  exact ⟨ys, destructs_of_restores hys, hsame⟩

/-- A pragma with some clauses. -/
def pragma (names : List String) : Cell :=
  .mk .node "xev_pragma" [] none none
    [.mk .node "xev_clause_list" [] none none (names.map clauseNode)]

theorem isDirective_pragma (names : List String) : IsDirective (pragma names) := by
  refine ⟨rfl, _, rfl, ?_⟩
  intro y hy
  rw [mem_cells_iff, Cell.children, mem_cellsAll_iff] at hy
  rcases hy with rfl | ⟨c, hc, hy⟩
  · rfl
  · rcases List.mem_map.mp hc with ⟨name, _, rfl⟩
    rw [mem_cells_iff] at hy
    rcases hy with rfl | hy
    · rfl
    · cases hy

theorem plainMarks_pragma (names : List String) :
    ∀ c ∈ (pragma names).children, PlainMarks c.children := by
  intro c hc
  rw [pragma, Cell.children, List.mem_singleton] at hc
  subst hc
  intro d hd
  rcases List.mem_map.mp hd with ⟨name, _, rfl⟩
  exact plainMarks_clauseNode name _ (List.mem_singleton.mpr rfl)

/-- A pragma that starts with its name ends a section of a pragma. -/
theorem closes_pragma (names : List String) : Closes "xev_pragma" (pragma ("xev" :: names)) := by
  refine ⟨rfl, rfl, rfl, rfl, rfl, fun c hc => ⟨plainMarks_pragma _ c hc, fun _ => ?_⟩⟩
  rw [pragma, Cell.children, List.mem_singleton] at hc
  subst hc
  exact ⟨clauseNode "xev", List.mem_cons_self, by decide, by decide⟩

/-- A block with two sections, with a block in the second one. -/
def twoSections : Items :=
  .cons (.block (pragma ["xev", "begin"])
    (.more (.cons (.plain (xml_make_node "SgExprStatement" []) .nil) .nil)
      (pragma ["xev", "end", "begin"])
      (.close (.cons (.block (pragma ["xev", "begin"]) (.close .nil (pragma ["xev", "end"]))) .nil)
        (pragma ["xev", "end"])))) .nil

theorem xev_destr_constr_block_two :
    Constructs twoSections.flat twoSections.built ∧
      ∃ ys, Destructs twoSections.built ys ∧ SameUpToMarks ys twoSections.flat := by
  have hnested : twoSections.Nested := by
    refine ⟨⟨isDirective_pragma _, by decide, by decide, ?_⟩, trivial⟩
    refine ⟨⟨⟨rfl, trivial⟩, trivial⟩, isDirective_pragma _, by decide, by decide, ?_⟩
    refine ⟨⟨⟨isDirective_pragma _, by decide, by decide, ?_⟩, trivial⟩, isDirective_pragma _,
      by decide, by decide⟩
    exact ⟨trivial, isDirective_pragma _, by decide, by decide⟩
  have hclosed : twoSections.Closed := by
    refine ⟨⟨plainMarks_pragma _, ⟨⟨trivial, trivial⟩, closes_pragma _, ?_⟩⟩, trivial⟩
    exact ⟨⟨⟨plainMarks_pragma _, trivial, closes_pragma _⟩, trivial⟩, closes_pragma _⟩
  have h := xev_destr_constr_block twoSections hnested
  exact ⟨h.1, h.2 hclosed⟩

/-- A block that a pragma without a name ends. -/
def namelessEnd : Items :=
  .cons (.block (pragma ["xev", "begin"]) (.close .nil (pragma ["end"]))) .nil

/-- The clause `end` has no place to go to, and the way back stops. -/
theorem xev_destr_block_nameless :
    namelessEnd.Nested ∧ Constructs namelessEnd.flat namelessEnd.built ∧
      ∀ fuel, xev_destr_block (fuel + 1) namelessEnd.built = .error .assertion := by
  have hnested : namelessEnd.Nested :=
    ⟨⟨isDirective_pragma _, by decide, by decide, trivial, isDirective_pragma _, by decide,
      by decide⟩, trivial⟩
  exact ⟨hnested, constructs_built namelessEnd hnested, fun _ => rfl⟩

end Restored

end XevXml.Tools
