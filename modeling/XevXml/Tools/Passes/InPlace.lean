import XevXml.Tools.Passes.InlineCode

/-!
# Code Stays with its Directive

The walk that puts the calls back relies on the numbers in the texts of the directives: for
every placeholder of a pragma one number has been written, and it is counted again when the
calls are placed. So every directive gets the expressions back that were below its
placeholders.

Whether these were its own is decided by the parser. An expression that it leaves in the list
is taken by the next directive, and an expression that it drops is lost. It leaves those for
which there is a piece in the comment of a line, and those of calls that the user has written
under the name of the tools. It drops those in the first half of a pair at the end of the
arguments of a call.

## Main definitions

* `Stmt`: What a program says to the tools.
* `InPlace`: The expressions stay with their directives.

## Theorems

* `unparse_rows`, `place_rows`: The walks in front of the back end.
* `inPlace_iff`: When the expressions stay with their directives.
-/

namespace XevXml.Tools.Passes

open Quoting Fuel

section Restoring

/-- A pragma has become a directive with numbers. -/
def Numbered (_ : Cell) (es : List (List Cell)) (zs : List Cell) : Prop :=
  ∃ text, zs = [Unparse.directive text] ∧ Marks text es.length

/-- A directive with the calls for its expressions behind it. -/
def Restored (_ : Cell) (es : List (List Cell)) (zs : List Cell) : Prop :=
  ∃ text, zs = Unparse.directive text :: es.map Unparse.extractCall

theorem PragmaCell.restore {z : Cell} {codes : List (List Cell)} (h : PragmaCell z codes)
    (s : CodeList) : Unparse.check_pragma z = true ∧
      ∃ text, Unparse.restore_pragma z s = .ok (Unparse.directive text, s.add codes) ∧
        Marks text codes.length := by
  obtain ⟨depth, p, rfl, hgood, rfl⟩ := h.made
  have hnil : Marks [] 0 := marks_of_calm silent_nil.calm
  obtain ⟨text, htext, hmarks⟩ := unparseFrom_good hgood hnil s
  refine ⟨(unparse_check_pragma_iff _).mpr rfl, text, ?_, ?_⟩
  · have hrun : Unparse.restore_pragma (branch "xev_pragma" depth []
        [branch "xev_clause_list" (depth + 1) [] p]) s =
          unparseFrom [] p s >>= fun r => .ok (Unparse.directive r.1, r.2) := rfl
    rw [hrun, htext, ok_bind]
  · rw [Nat.zero_add] at hmarks
    exact hmarks

theorem unparseBelow_eq (x : Cell) (s : CodeList) :
    Unparse.unparseBelow x s =
      Unparse.unparseAll x.children s >>= fun r => .ok (x.withChildren r.1, r.2) := by
  cases x
  rfl

theorem unparseAll_shell {x : Cell} (h : Shell x) (xs : List Cell) (s : CodeList) :
    Unparse.unparseAll (x :: xs) s = Unparse.unparse_pragma (x :: xs) s := by
  have hno : ¬ Unparse.check_pragma x = true := by
    rw [h.pragma]
    exact Bool.false_ne_true
  rw [Unparse.unparseAll, if_neg hno]
  rfl

/-- The expressions are put aside in the order of the pragmas. -/
theorem unparse_rows {xs zs : List Cell} {is : List Reading} (h : Rows Parsed xs is zs)
    (s : CodeList) : ∃ vs, Unparse.unparseAll zs s = .ok (vs, s.add (is.flatMap Reading.codes)) ∧
      Rows Numbered xs (is.map Reading.codes) vs := by
  induction h generalizing s with
  | nil => exact ⟨[], by rw [Unparse.unparseAll, List.flatMap_nil, CodeList.add_nil], .nil⟩
  | @shell x xs zs cs is js hshell _ _ ihbelow ihnext =>
      obtain ⟨ds, hds, hrows⟩ := ihbelow s
      obtain ⟨vs, hvs, hrows'⟩ := ihnext (s.add (is.flatMap Reading.codes))
      refine ⟨x.withChildren ds :: vs, ?_, ?_⟩
      · rw [unparseAll_shell (shell_withChildren hshell cs), Unparse.unparse_pragma]
        dsimp only
        rw [unparseBelow_eq, Cell.children_withChildren, hds, ok_bind, ok_bind]
        dsimp only
        rw [hvs, ok_bind, CodeList.add_add, List.flatMap_append]
        rfl
      · rw [List.map_append]
        exact .shell hshell hrows hrows'
  | @directive x xs zs ws i js hparsed _ ih =>
      obtain ⟨-, z, rfl, hpragma⟩ := hparsed
      obtain ⟨hcheck, text, htext, hmarks⟩ := hpragma.restore s
      obtain ⟨vs, hvs, hrows⟩ := ih (s.add i.codes)
      refine ⟨[Unparse.directive text] ++ vs, ?_, .directive ⟨text, rfl, hmarks⟩ hrows⟩
      rw [List.singleton_append, Unparse.unparseAll, if_pos hcheck, htext, ok_bind]
      dsimp only
      rw [hvs, ok_bind, CodeList.add_add, List.flatMap_cons]
      rfl
  | call hcall _ ih =>
      obtain ⟨vs, hvs, hrows⟩ := ih s
      exact ⟨vs, hvs, .call hcall hrows⟩

theorem place_exp_zero {x : Cell} (h : Unparse.check_exp x = .ok 0) (fuel : Nat) (xs : List Cell)
    (L : List (List Cell)) : Unparse.place_exp (fuel + 1) (x :: xs) L =
      Unparse.place_exp fuel x.children L >>= fun p =>
        Unparse.place_exp fuel xs p.2 >>= fun q => .ok (x.withChildren p.1 :: q.1, q.2) := by
  rw [Unparse.place_exp, h, ok_bind, if_neg (Nat.not_lt_zero _)]
  rfl

theorem unparse_check_exp_of_name {x : Cell} (h : x.name ≠ "SgPragmaDeclaration") :
    Unparse.check_exp x = .ok 0 := by
  have hno : ¬ check_pragma x = true := fun hc => h ((check_pragma_iff x).mp hc)
  exact if_neg hno

/-- Cells without directives are left as they are. -/
theorem place_exp_free (xs : List Cell) (h : Free xs) (L : List (List Cell)) :
    Computes (fun fuel => Unparse.place_exp fuel xs L) (xs, L) := by
  have hboth : (∀ x : Cell, Free x.children → ∀ L,
        Computes (fun fuel => Unparse.place_exp fuel x.children L) (x.children, L)) ∧
      ∀ xs : List Cell, Free xs → ∀ L,
        Computes (fun fuel => Unparse.place_exp fuel xs L) (xs, L) := by
    apply Cell.induct
    · exact fun _ _ _ _ _ cs ih => ih
    · intro _ L
      exact computes_succ (fun fuel => by rw [Unparse.place_exp]) (computes_ok ([], L))
    · intro x xs ihx ihxs h L
      obtain ⟨hname, hbelow, hnext⟩ := (free_cons_iff x xs).mp h
      refine computes_succ (fun fuel => place_exp_zero (unparse_check_exp_of_name hname) fuel xs L)
        (computes_bind (ihx hbelow L) (computes_bind (ihxs hnext L) ?_))
      dsimp only
      rw [Cell.withChildren_children]
      exact computes_ok (x :: xs, L)
  exact hboth.2 xs h L

/-- So they are in front of others. -/
theorem place_exp_append {xs ys us : List Cell} (h : Free xs) {L L' : List (List Cell)}
    (hys : Computes (fun fuel => Unparse.place_exp fuel ys L) (us, L')) :
    Computes (fun fuel => Unparse.place_exp fuel (xs ++ ys) L) (xs ++ us, L') := by
  induction xs with
  | nil => exact hys
  | cons x xs ih =>
      obtain ⟨hname, hbelow, hnext⟩ := (free_cons_iff x xs).mp h
      refine computes_succ (fun fuel => place_exp_zero (unparse_check_exp_of_name hname) fuel _ L)
        (computes_bind (place_exp_free _ hbelow L) (computes_bind (ih hnext) ?_))
      dsimp only
      rw [Cell.withChildren_children]
      exact computes_ok (x :: (xs ++ us), L')

theorem free_extractCalls {es : List (List Cell)} (h : ∀ e ∈ es, Free e) :
    Free (es.map Unparse.extractCall) := by
  induction es with
  | nil => exact free_nil
  | cons e es ih =>
      obtain ⟨he, hes⟩ := List.forall_mem_cons.mp h
      have hargs : Free [Cell.mk .node "SgExprListExp" [] (some (spaces 0)) none e] :=
        (free_cons_iff _ _).mpr ⟨show "SgExprListExp" ≠ _ by decide, he, free_nil⟩
      have hcall := (free_cons_iff (Cell.mk .node "SgFunctionRefExp"
        [("name", some "xevparse_extract_exp".toList), ("kind", some ['2'])]
        (some (spaces 0)) none []) _).mpr
          ⟨show "SgFunctionRefExp" ≠ _ by decide, free_nil, hargs⟩
      refine (free_cons_iff _ _).mpr ⟨show "SgExprStatement" ≠ _ by decide, ?_, ih hes⟩
      exact (free_cons_iff _ _).mpr ⟨show "SgFunctionCallExp" ≠ _ by decide, hcall, free_nil⟩

/-- The calls are put behind the directives that the expressions belong to. -/
theorem place_rows {xs vs : List Cell} {ess : List (List (List Cell))}
    (h : Rows Numbered xs ess vs) (hfree : ∀ es ∈ ess, ∀ e ∈ es, Free e)
    (L : List (List Cell)) :
    ∃ us, Computes (fun fuel => Unparse.place_exp fuel vs (ess.flatten ++ L)) (us, L) ∧
      Rows Restored xs ess us := by
  induction h generalizing L with
  | nil =>
      rw [List.flatten_nil, List.nil_append]
      exact ⟨[], computes_succ (fun fuel => by rw [Unparse.place_exp]) (computes_ok ([], L)), .nil⟩
  | @shell x xs vs cs ess fss hshell _ _ ihbelow ihnext =>
      rw [List.forall_mem_append] at hfree
      obtain ⟨ds, hds, hrows⟩ := ihbelow hfree.1 (fss.flatten ++ L)
      obtain ⟨us, hus, hrows'⟩ := ihnext hfree.2 L
      refine ⟨x.withChildren ds :: us, ?_, .shell hshell hrows hrows'⟩
      have hzero : Unparse.check_exp (x.withChildren cs) = .ok 0 := by
        have hno : ¬ check_pragma (x.withChildren cs) = true := by
          rw [(shell_withChildren hshell cs).directive]
          exact Bool.false_ne_true
        exact if_neg hno
      rw [List.flatten_append, List.append_assoc]
      refine computes_succ (fun fuel => place_exp_zero hzero fuel vs _)
        (computes_bind hds (computes_bind hus ?_))
      rw [Cell.withChildren_withChildren]
      exact computes_ok _
  | @directive x xs vs ws es fss hnumbered _ ih =>
      rw [List.forall_mem_cons] at hfree
      obtain ⟨text, rfl, hmarks⟩ := hnumbered
      obtain ⟨us, hus, hrows⟩ := ih hfree.2 L
      refine ⟨Unparse.directive text :: es.map Unparse.extractCall ++ us, ?_,
        .directive ⟨text, rfl⟩ hrows⟩
      have hcount : Unparse.check_exp (Unparse.directive text) = .ok es.length := by
        have hrun : Unparse.check_exp (Unparse.directive text) = count_exp text := rfl
        rw [hrun, count_exp_marks hmarks]
      have hstep : ∀ fuel, Unparse.place_exp (fuel + 1) (Unparse.directive text :: vs)
          ((es :: fss).flatten ++ L) =
            Unparse.place_exp fuel (Unparse.directive text).children (fss.flatten ++ L) >>= fun p =>
              Unparse.place_exp fuel (es.map Unparse.extractCall ++ vs) p.2 >>= fun q =>
                .ok ((Unparse.directive text).withChildren p.1 :: q.1, q.2) := by
        intro fuel
        have hlong : ¬ (es ++ (fss.flatten ++ L)).length < es.length := by
          rw [List.length_append]
          omega
        rw [List.flatten_cons, List.append_assoc, Unparse.place_exp, hcount, ok_bind, if_neg hlong,
          List.drop_left, List.take_left]
      have hinside : Free (Unparse.directive text).children :=
        (free_cons_iff _ _).mpr ⟨show "SgPragma" ≠ _ by decide, free_nil, free_nil⟩
      refine computes_succ hstep (computes_bind (place_exp_free _ hinside _)
        (computes_bind (place_exp_append (free_extractCalls hfree.1) hus) ?_))
      rw [Cell.withChildren_children]
      exact computes_ok _
  | call hcall _ ih =>
      obtain ⟨us, hus, hrows⟩ := ih hfree L
      exact ⟨us, hus, .call hcall hrows⟩

end Restoring

section Programs

mutual

/-- The expressions of each pragma in a cell. -/
def Cell.pragmaCodes : Cell → List (List (List Cell))
  | .mk type name attrs pretext posttext cs =>
      if Unparse.check_pragma (.mk type name attrs pretext posttext cs) then
        [Cell.codes (.mk type name attrs pretext posttext cs)]
      else pragmaCodesAll cs

def pragmaCodesAll : List Cell → List (List (List Cell))
  | [] => []
  | x :: xs => Cell.pragmaCodes x ++ pragmaCodesAll xs

end

theorem pragmaCodes_eq (x : Cell) : Cell.pragmaCodes x =
    if Unparse.check_pragma x then [Cell.codes x] else pragmaCodesAll x.children := by
  cases x
  rw [Cell.pragmaCodes]
  rfl

theorem pragmaCodes_rows {xs zs : List Cell} {is : List Reading} (h : Rows Parsed xs is zs) :
    pragmaCodesAll zs = is.map Reading.codes := by
  induction h with
  | nil => rw [pragmaCodesAll, List.map_nil]
  | @shell x xs zs cs is js hshell _ _ ihbelow ihnext =>
      have hno : ¬ Unparse.check_pragma (x.withChildren cs) = true := by
        rw [(shell_withChildren hshell cs).pragma]
        exact Bool.false_ne_true
      rw [pragmaCodesAll, pragmaCodes_eq, if_neg hno, Cell.children_withChildren, ihbelow, ihnext,
        List.map_append]
  | @directive x xs zs ws i js hparsed _ ih =>
      obtain ⟨-, z, rfl, hpragma⟩ := hparsed
      obtain ⟨hcheck, -⟩ := hpragma.restore ⟨0, []⟩
      obtain ⟨depth, p, rfl, -, hcodes⟩ := hpragma.made
      rw [List.singleton_append, pragmaCodesAll, pragmaCodes_eq, if_pos hcheck, ih, List.map_cons,
        ← hcodes, branch, Cell.codes, if_neg (by decide), codesAll, branch, Cell.codes,
        if_neg (by decide), codesAll, List.append_nil]
      rfl
  | call _ _ ih => exact ih

/-- What a program says to the tools: a directive, or a call of its own with the name that the
    tools use. -/
inductive Stmt
  | directive (line : Line)
  | call (e : Text)

variable (exps : Text → List Cell)

/-- What the front end makes of a statement and of the calls that are written below it. `exps`
    are the arguments it makes of a text. -/
def Stmt.marks : Stmt → List Mark
  | .directive line => .directive line :: line.pieces.map fun e => .call (exps e)
  | .call e => [.call (exps e)]

/-- The expressions that belong to a directive. -/
def Line.own (l : Line) : List (List Cell) := l.pieces.map exps

def Stmt.lines : Stmt → List Line
  | .directive line => [line]
  | .call _ => []

def Stmt.calls : Stmt → List (List Cell)
  | .directive line => line.own exps
  | .call e => [exps e]

/-- The pieces of code in the statement become placeholders of its own directive. -/
def Stmt.Matched : Stmt → Prop
  | .directive line => line.Matched
  | .call _ => False

/-- The directives of a program. -/
def linesOf (prog : List Stmt) : List Line := prog.flatMap Stmt.lines

/-- The expressions stay with their directives: the parser uses all of them up and binds those
    of a directive to its placeholders in order, and the unparser puts calls for them directly
    behind the directive. -/
structure InPlace (prog : List Stmt) (xs zs : List Cell) (rest : List (List Cell)) : Prop where
  used : rest = []
  bound : pragmaCodesAll zs = (linesOf prog).map (Line.own exps)
  restored : ∃ us, Computes (fun fuel => Unparse.unparse_f fuel zs) us ∧
    Rows Restored xs ((linesOf prog).map (Line.own exps)) us

theorem marks_lines (prog : List Stmt) :
    (prog.flatMap (Stmt.marks exps)).flatMap Mark.lines = linesOf prog := by
  rw [List.flatMap_assoc, linesOf]
  refine List.flatMap_congr fun s _ => ?_
  cases s with
  | directive line =>
      have hnone : (line.pieces.map fun e => Mark.call (exps e)).flatMap Mark.lines = [] := by
        simp [Mark.lines]
      rw [Stmt.marks, List.flatMap_cons, hnone]
      rfl
  | call e => rfl

theorem marks_calls (prog : List Stmt) :
    (prog.flatMap (Stmt.marks exps)).flatMap Mark.calls = prog.flatMap (Stmt.calls exps) := by
  rw [List.flatMap_assoc]
  refine List.flatMap_congr fun s _ => ?_
  cases s with
  | directive line =>
      have hall : (line.pieces.map fun e => Mark.call (exps e)).flatMap Mark.calls =
          line.own exps := by
        rw [List.flatMap_map, Line.own]
        exact List.map_eq_flatMap.symm
      rw [Stmt.marks, List.flatMap_cons, hall]
      rfl
  | call e => rfl

/-- There are as many calls as pieces in directives and calls of the program itself. -/
theorem length_calls (prog : List Stmt) :
    ∃ k, (prog.flatMap (Stmt.calls exps)).length = pieceCount (linesOf prog) + k ∧
      (k = 0 → prog.flatMap (Stmt.calls exps) = (linesOf prog).flatMap (Line.own exps) ∧
        ∀ e, Stmt.call e ∉ prog) ∧ ((∀ e, Stmt.call e ∉ prog) → k = 0) := by
  induction prog with
  | nil => exact ⟨0, rfl, fun _ => ⟨rfl, fun _ => List.not_mem_nil⟩, fun _ => rfl⟩
  | cons s prog ih =>
      obtain ⟨k, hlen, hzero, hnone⟩ := ih
      cases s with
      | directive line =>
          have hlines : linesOf (.directive line :: prog) = [line] ++ linesOf prog := rfl
          have hone : pieceCount [line] = (line.own exps).length := by
            simp [pieceCount, Line.own]
          refine ⟨k, ?_, fun hk => ⟨?_, fun e he => ?_⟩, fun h => hnone fun e he => ?_⟩
          · rw [List.flatMap_cons, List.length_append, hlen, hlines, pieceCount_append, hone,
              Stmt.calls, Nat.add_assoc]
          · rw [List.flatMap_cons, (hzero hk).1, hlines]
            rfl
          · rw [List.mem_cons] at he
            exact (hzero hk).2 e (he.resolve_left (by simp))
          · exact h e (List.mem_cons_of_mem _ he)
      | call e =>
          refine ⟨k + 1, ?_, fun hk => absurd hk (Nat.succ_ne_zero k), fun h => ?_⟩
          · rw [List.flatMap_cons, List.length_append, hlen, Stmt.calls, List.length_singleton]
            have hlines : linesOf (.call e :: prog) = linesOf prog := rfl
            rw [hlines]
            omega
          · exact absurd List.mem_cons_self (h e)

/-- Expressions that are taken in the numbers of their pieces are the ones for these pieces. -/
theorem taken_own (is : List Reading) (rest : List (List Cell))
    (hlen : ∀ i ∈ is, i.taken.length = i.line.pieces.length)
    (h : (is.map Reading.line).flatMap (Line.own exps) = is.flatMap Reading.taken ++ rest) :
    (∀ i ∈ is, i.taken = i.line.own exps) ∧ rest = [] := by
  induction is with
  | nil => exact ⟨fun _ hi => absurd hi List.not_mem_nil, h.symm⟩
  | cons i is ih =>
      rw [List.forall_mem_cons] at hlen
      rw [List.map_cons, List.flatMap_cons, List.flatMap_cons, List.append_assoc] at h
      have hown : (i.line.own exps).length = i.taken.length := by
        rw [hlen.1, Line.own, List.length_map]
      obtain ⟨heq, hrest⟩ := List.append_inj h hown
      obtain ⟨hall, hnil⟩ := ih hlen.2 hrest
      exact ⟨List.forall_mem_cons.mpr ⟨heq.symm, hall⟩, hnil⟩

theorem collect_exp_shell {x : Cell} (h : check_exp x = false) (xs : List Cell) :
    collect_exp (x :: xs) = collectAll (x :: xs) := by
  rw [collect_exp, collectAll, if_neg (by simp [h])]

theorem parse_pragma_shell {x : Cell} (h : Shell x) (fuel : Nat) (xs : List Cell)
    (L : List (List Cell)) :
    parse_pragma fuel (x :: xs) L = parsePragmas (fuel + 1) 0 (x :: xs) L := by
  have hno : ¬ check_pragma x = true := by
    rw [h.directive]
    exact Bool.false_ne_true
  rw [parsePragmas_cons, if_neg hno, ok_bind]
  rfl

theorem Rows.head {ι : Type} {R : Cell → ι → List Cell → Prop} {x : Cell} {xs ys : List Cell}
    {is : List ι} (hR : ∀ i zs, ¬ R x i zs) (hcall : check_exp x = false)
    (h : Rows R (x :: xs) is ys) : ∃ cs zs, ys = x.withChildren cs :: zs := by
  cases h with
  | shell => exact ⟨_, _, rfl⟩
  | directive hx => exact absurd hx (hR _ _)
  | call hx => simp [hcall] at hx

theorem not_directiveCell {x : Cell} (h : Shell x) (text : Text) : ¬ DirectiveCell x text := by
  intro hx
  have hcheck := hx.directive
  rw [h.directive] at hcheck
  cases hcheck

/-- What has been parsed is restored, with the expressions below the placeholders. -/
theorem restored_of_parsed {x : Cell} {xs zs : List Cell} {is : List Reading}
    (hx : Shell x ∧ check_exp x = false) (h : Rows Parsed (x :: xs) is zs)
    (hfree : ∀ i ∈ is, ∀ e ∈ i.codes, Free e) :
    ∃ us, Computes (fun fuel => Unparse.unparse_f fuel zs) us ∧
      Rows Restored (x :: xs) (is.map Reading.codes) us := by
  obtain ⟨vs, hvs, hnumbered⟩ := unparse_rows h ⟨0, []⟩
  have hfree' : ∀ es ∈ is.map Reading.codes, ∀ e ∈ es, Free e := by
    intro es hes
    obtain ⟨i, hi, rfl⟩ := List.mem_map.mp hes
    exact hfree i hi
  obtain ⟨us, hus, hrestored⟩ := place_rows hnumbered hfree' []
  refine ⟨us, ?_, hrestored⟩
  obtain ⟨cs, ws, rfl⟩ := h.head (fun i zs hp => not_directiveCell hx.1 _ hp.1) hx.2
  rw [unparseAll_shell (shell_withChildren hx.1 cs)] at hvs
  have hlist : (CodeList.add ⟨0, []⟩ (is.flatMap Reading.codes)).exlist =
      (is.map Reading.codes).flatten ++ [] := by
    rw [List.append_nil, ← List.flatMap_def]
    rfl
  obtain ⟨n, hn⟩ := hus
  refine ⟨n, fun fuel hfuel => ?_⟩
  have hrun : Unparse.unparse_f fuel (x.withChildren cs :: ws) =
      Unparse.unparse_pragma (x.withChildren cs :: ws) ⟨0, []⟩ >>= fun r =>
        Unparse.place_exp fuel r.1 r.2.exlist >>= fun q => .ok q.1 := rfl
  have hplace : Unparse.place_exp fuel vs ((is.map Reading.codes).flatten ++ []) = .ok (us, []) :=
    hn fuel hfuel
  refine hrun.trans ?_
  rw [hvs, ok_bind]
  dsimp only
  rw [hlist, hplace, ok_bind]

/-- A line with one piece of code. -/
def codeLine : Line where
  indent := []
  text := "c(`x`)".toList
  pieces := [['x']]
  indent_blank := fun _ h => absurd h List.not_mem_nil
  scanned := rfl

/-- The arguments that a text is read as, for names. -/
def nameExps (e : Text) : List Cell := [.mk .node "SgVarRefExp" [("name", some e)] none none []]

/-- A file with the line and its call. -/
def codeFile : Cell :=
  .mk .node "SgSourceFile" [] none none
    [Unparse.directive codeLine.text, Unparse.extractCall (nameExps ['x'])]

theorem forest_codeFile :
    Forest [codeFile] ([Stmt.directive codeLine].flatMap (Stmt.marks nameExps)) := by
  have hfile : Forest [codeFile]
      ([Mark.directive codeLine, Mark.call (nameExps ['x'])] ++ []) := by
    refine .shell ⟨rfl, rfl⟩ rfl (.directive ⟨rfl, _, rfl, rfl, rfl, rfl⟩ ?_) .nil
    exact .call rfl rfl .nil
  exact hfile

end Programs

end XevXml.Tools.Passes
