import XevXml.Tools.Passes.Enough
import XevXml.Tools.Tgen.Directive
import XevXml.Core.Fuel

/-!
# Code in Directives

Pieces of code in a directive are written a second time, as calls that the front end can
read, and these calls are lines of their own in the program. Behind the front end the tools go
through the tree four times. The first walk takes all calls away and puts their expressions
into one list, in the order of the document. The second one makes pragmas of the directives
and takes an expression from the front of the list for every placeholder. When the tree is
written, a third walk makes directives with numbers of the pragmas and collects their
expressions again, and a fourth one counts the numbers in each directive and puts calls for as
many expressions behind it.

No walk knows which call was written for which directive. What a directive takes from the list
is kept with it here, as a `Reading`: one expression for every piece in front of the comment at
the end of its line.

The tree is taken as the parser leaves it. The line in which the text of a pragma is put
together has no bound here, as elsewhere.

## Main definitions

* `collect_exp`, `parse_pragma`: The walks behind the front end.
* `Unparse.unparse_pragma`, `Unparse.place_exp`: The walks in front of the back end.
* `Line`, `Mark`, `Forest`: The directives of a program and the trees they stand in.
* `Rows`: A forest in which something else stands in the places of the directives.
* `Reading`: What is taken from the list for a directive.

## Theorems

* `collectAll_forest`: The calls are collected in order.
* `parse_rows`: The parser goes through all directives in order.
* `Reading.matched_iff`: When all expressions of a directive get below placeholders.
-/

namespace XevXml.Tools.Passes

open Quoting Fuel Tgen

section Collecting

/-- Whether a cell is a call that holds an expression. -/
def check_exp (x : Cell) : Bool :=
  xml_chk_struct [x] "=SgExprStatement" && xml_chk_struct [x] "c=SgFunctionCallExp" &&
    xml_chk_struct [x] "cc=SgFunctionRefExp" &&
    xml_chk_struct [x] "cca=name=xevparse_extract_exp"

/-- The expression of such a call. -/
def extracted (x : Cell) : Run (List Cell) := do
  match ← xml_get_cell [x] "ccn" with
  | [] => .error .assertion
  | pre :: _ => .ok pre.children

mutual

/-- The expressions below a cell, and the cell without the calls. -/
def collectBelow : Cell → Run (List (List Cell) × Cell)
  | .mk type name attrs pretext posttext cs => do
      let (es, cs) ← collectAll cs
      .ok (es, .mk type name attrs pretext posttext cs)

/-- The expressions in the calls among cells and below them, and what is left of the cells. -/
def collectAll : List Cell → Run (List (List Cell) × List Cell)
  | [] => .ok ([], [])
  | x :: xs =>
      if check_exp x then do
        let e ← extracted x
        let (es, xs) ← collectAll xs
        .ok (e :: es, xs)
      else do
        let (es, x) ← collectBelow x
        let (fs, xs) ← collectAll xs
        .ok (es ++ fs, x :: xs)

end

/-- Collects the expressions below the first cell and behind it. -/
def collect_exp : List Cell → Run (List (List Cell) × List Cell)
  | [] => .error .assertion
  | x :: xs => do
      let (es, x) ← collectBelow x
      let (fs, xs) ← collectAll xs
      .ok (es ++ fs, x :: xs)

end Collecting

section Parsing

/-- The pragma that a directive of the front end becomes at a level. -/
def get_pragma_ (depth : Nat) (ex_list : List (List Cell)) (x : Cell) :
    Run (Cell × List (List Cell)) :=
  if xml_chk_struct [x] "c=SgPragma" = false then .error .assertion
  else do
    match ← xml_getstr [x] "ca=pragma" with
    | none => .error .undefined
    | some t =>
        if t.head?.any nameChar = false then .error (.exit "unknown type of pragma 1")
        else do
          let (p, ex_list) ← xev_parse_pragma (depth + 2) t ex_list
          .ok (branch "xev_pragma" depth [] [branch "xev_clause_list" (depth + 1) [] p], ex_list)

def check_pragma (x : Cell) : Bool := xml_chk_struct [x] "=SgPragmaDeclaration"

/-- Goes through cells at a level and what is below them, and through the pragmas that are put
    in. -/
def parsePragmas : Nat → Nat → List Cell → List (List Cell) → Run (List Cell × List (List Cell))
  | 0, _, _, _ => .error .bound
  | _ + 1, _, [], ex_list => .ok ([], ex_list)
  | fuel + 1, depth, y :: ys, ex_list => do
      let (y, ex_list) ← if check_pragma y then get_pragma_ depth ex_list y else .ok (y, ex_list)
      let (cs, ex_list) ← parsePragmas fuel (depth + 1) y.children ex_list
      let (ys, ex_list) ← parsePragmas fuel depth ys ex_list
      .ok (y.withChildren cs :: ys, ex_list)

/-- Makes pragmas of the directives below the first cell and behind it. -/
def parse_pragma (fuel : Nat) (xs : List Cell) (ex_list : List (List Cell)) :
    Run (List Cell × List (List Cell)) :=
  match xs with
  | [] => .error .assertion
  | x :: xs => do
      let (cs, ex_list) ← parsePragmas fuel 1 x.children ex_list
      let (xs, ex_list) ← parsePragmas fuel 0 xs ex_list
      .ok (x.withChildren cs :: xs, ex_list)

end Parsing

section Unparsing

namespace Unparse

def check_pragma (x : Cell) : Bool := xml_chk_struct [x] "=xev_pragma"

/-- A directive with a text. -/
def directive (t : Text) : Cell :=
  .mk .node "SgPragmaDeclaration" [] (some (spaces 0)) none
    [.mk .node "SgPragma" [("pragma", some t)] (some (spaces 0)) none []]

/-- The directive that a pragma becomes. -/
def restore_pragma (x : Cell) (s : CodeList) : Run (Cell × CodeList) :=
  match x.children with
  | [] => .error .assertion
  | list :: _ => do
      let (t, s) ← xev_unparse_pragma list.children s
      .ok (directive t, s)

mutual

/-- Makes directives of the pragmas below a cell. -/
def unparseBelow : Cell → CodeList → Run (Cell × CodeList)
  | .mk type name attrs pretext posttext cs, s => do
      let (cs, s) ← unparseAll cs s
      .ok (.mk type name attrs pretext posttext cs, s)

/-- Makes directives of the pragmas among cells and below them. There is no pragma in a
    directive. -/
def unparseAll : List Cell → CodeList → Run (List Cell × CodeList)
  | [], s => .ok ([], s)
  | x :: xs, s => do
      let (x, s) ← if check_pragma x then restore_pragma x s else unparseBelow x s
      let (xs, s) ← unparseAll xs s
      .ok (x :: xs, s)

end

/-- Makes directives of the pragmas below the first cell and behind it. -/
def unparse_pragma (xs : List Cell) (s : CodeList) : Run (List Cell × CodeList) :=
  match xs with
  | [] => .error .assertion
  | x :: xs => do
      let (x, s) ← unparseBelow x s
      let (xs, s) ← unparseAll xs s
      .ok (x :: xs, s)

/-- The number of placeholders in a cell. -/
def check_exp (x : Cell) : Run Nat :=
  if xml_chk_struct [x] "=SgPragmaDeclaration" then do
    match ← xml_getstr [x] "ca=pragma" with
    | none => .error .assertion
    | some ptext => count_exp ptext
  else .ok 0

/-- The call that holds an expression. -/
def extractCall (e : List Cell) : Cell :=
  .mk .node "SgExprStatement" [] (some (spaces 0)) none
    [.mk .node "SgFunctionCallExp" [] (some (spaces 0)) none
      [.mk .node "SgFunctionRefExp"
          [("name", some "xevparse_extract_exp".toList), ("kind", some ['2'])]
          (some (spaces 0)) none [],
        .mk .node "SgExprListExp" [] (some (spaces 0)) none e]]

/-- Goes through cells and what is below them, and through the calls that are put in. -/
def place_exp : Nat → List Cell → List (List Cell) → Run (List Cell × List (List Cell))
  | 0, _, _ => .error .bound
  | _ + 1, [], exlist => .ok ([], exlist)
  | fuel + 1, x :: xs, exlist => do
      let c ← check_exp x
      if exlist.length < c then .error .undefined
      else do
        let (cs, rest) ← place_exp fuel x.children (exlist.drop c)
        let (xs, rest) ← place_exp fuel ((exlist.take c).map extractCall ++ xs) rest
        .ok (x.withChildren cs :: xs, rest)

/-- The tree that the back end gets. -/
def unparse_f (fuel : Nat) (xs : List Cell) : Run (List Cell) := do
  let (xs, s) ← unparse_pragma xs ⟨0, []⟩
  let (xs, _) ← place_exp fuel xs s.exlist
  .ok xs

end Unparse

end Unparsing

section FrontEnd

/-- A line with a directive, for whose pieces of code calls are written. -/
structure Line where
  indent : Text
  text : Text
  pieces : List Text
  indent_blank : ∀ c ∈ indent, blank c = true
  scanned : piecesOf (indent ++ '!' :: '$' :: (text ++ ['\n']))
    (indent ++ '!' :: '$' :: (text ++ ['\n'])) = .ok pieces

def Line.line (l : Line) : Text := l.indent ++ '!' :: '$' :: (l.text ++ ['\n'])

/-- What is written below the line. -/
theorem Line.calls (l : Line) : extract_exp l.line = .ok (l.pieces.flatMap callText) := by
  rw [extract_exp_eq, Line.line, l.scanned]
  rfl

/-- The pieces stand behind the mark of the directive. -/
theorem Line.piecesOf_text (l : Line) : piecesOf l.line (l.text ++ ['\n']) = .ok l.pieces := by
  have hfront : Clear (l.indent ++ ['!', '$']) :=
    (calm_of_blank l.indent_blank).clear.append (clear_of_plain (by decide))
  have hline : l.line = l.indent ++ ['!', '$'] ++ (l.text ++ ['\n']) := by simp [Line.line]
  refine (piecesOf_clear hfront _).symm.trans ?_
  rw [← hline]
  exact l.scanned

theorem Line.enough (l : Line) {L : List (List Cell)} (h : l.pieces.length ≤ L.length) :
    Enough L l.text :=
  ⟨l.line, ['\n'], l.pieces, l.piecesOf_text, h⟩

/-- What the front end has made of a line: a directive, or a call with an expression. -/
inductive Mark
  | directive (line : Line)
  | call (e : List Cell)

def Mark.lines : Mark → List Line
  | .directive line => [line]
  | .call _ => []

def Mark.calls : Mark → List (List Cell)
  | .directive _ => []
  | .call e => [e]

/-- A cell that is neither a directive nor a pragma. -/
structure Shell (x : Cell) : Prop where
  directive : check_pragma x = false
  pragma : Unparse.check_pragma x = false

/-- A directive of the front end with its text. -/
structure DirectiveCell (x : Cell) (text : Text) : Prop where
  directive : check_pragma x = true
  inside : ∃ p, x.children = [p] ∧ p.name = "SgPragma" ∧ p.children = [] ∧
    getAttr p "pragma" = some text

theorem chk_name (x : Cell) (rest : List Cell) (name : String) :
    checkStruct ('=' :: name.toList) (x :: rest) = (x.name == name) := by
  rw [checkStruct, if_neg (by decide), if_neg (by decide), if_neg (by decide), if_pos rfl,
    String.ofList_toList]

theorem check_pragma_iff (x : Cell) : check_pragma x = true ↔ x.name = "SgPragmaDeclaration" := by
  have h := chk_name x [] "SgPragmaDeclaration"
  rw [check_pragma, xml_chk_struct]
  refine Iff.trans ?_ beq_iff_eq
  rw [← h]
  rfl

theorem unparse_check_pragma_iff (x : Cell) :
    Unparse.check_pragma x = true ↔ x.name = "xev_pragma" := by
  have h := chk_name x [] "xev_pragma"
  rw [Unparse.check_pragma, xml_chk_struct]
  refine Iff.trans ?_ beq_iff_eq
  rw [← h]
  rfl

theorem check_exp_of_name {x : Cell} (h : x.name ≠ "SgExprStatement") : check_exp x = false := by
  have hname : xml_chk_struct [x] "=SgExprStatement" = false := by
    have hchk := chk_name x [] "SgExprStatement"
    rw [xml_chk_struct]
    refine Eq.trans ?_ (beq_eq_false_iff_ne.mpr h)
    rw [← hchk]
    rfl
  rw [check_exp, hname, Bool.false_and, Bool.false_and, Bool.false_and]

theorem DirectiveCell.no_call {x : Cell} {text : Text} (h : DirectiveCell x text) :
    check_exp x = false := by
  refine check_exp_of_name ?_
  rw [(check_pragma_iff x).mp h.directive]
  decide

theorem DirectiveCell.collectBelow {x : Cell} {text : Text} (h : DirectiveCell x text) :
    collectBelow x = .ok ([], x) := by
  obtain ⟨p, hp, hname, hchildren, -⟩ := h.inside
  have hno : check_exp p = false := by
    refine check_exp_of_name ?_
    rw [hname]
    decide
  cases x with
  | mk type name attrs pretext posttext cs =>
      cases p with
      | mk type' name' attrs' pretext' posttext' ds =>
          have hcs : cs = _ := hp
          have hds : ds = [] := hchildren
          subst hcs hds
          rw [Passes.collectBelow, collectAll, if_neg (by simp [hno]), Passes.collectBelow,
            collectAll]
          rfl

theorem DirectiveCell.getstr {x : Cell} {text : Text} (h : DirectiveCell x text) :
    xml_chk_struct [x] "c=SgPragma" = true ∧ xml_getstr [x] "ca=pragma" = .ok (some text) := by
  obtain ⟨p, hp, hname, -, hattr⟩ := h.inside
  constructor
  · have hchk := chk_name p [] "SgPragma"
    rw [hname, beq_self_eq_true] at hchk
    rw [← hchk, ← hp]
    rfl
  · rw [← hattr]
    have hmove : xml_getstr [x] "ca=pragma" =
        moveStr "ca=pragma" "a=pragma".toList x.children := rfl
    rw [hmove, hp]
    rfl

/-- Cells with directives and calls among them and below them, in their order. -/
inductive Forest : List Cell → List Mark → Prop
  | nil : Forest [] []
  | shell {x : Cell} {xs : List Cell} {ms ns : List Mark} : Shell x → check_exp x = false →
      Forest x.children ms → Forest xs ns → Forest (x :: xs) (ms ++ ns)
  | directive {x : Cell} {xs : List Cell} {line : Line} {ns : List Mark} :
      DirectiveCell x line.text → Forest xs ns → Forest (x :: xs) (.directive line :: ns)
  | call {x : Cell} {xs : List Cell} {e : List Cell} {ns : List Mark} : check_exp x = true →
      extracted x = .ok e → Forest xs ns → Forest (x :: xs) (.call e :: ns)

/-- What stands in a forest in the places of its directives when the calls have been taken
    away. `R` relates a directive, what is kept for it, and the cells in its place. -/
inductive Rows {ι : Type} (R : Cell → ι → List Cell → Prop) :
    List Cell → List ι → List Cell → Prop
  | nil : Rows R [] [] []
  | shell {x : Cell} {xs ys cs : List Cell} {is js : List ι} : Shell x →
      Rows R x.children is cs → Rows R xs js ys →
      Rows R (x :: xs) (is ++ js) (x.withChildren cs :: ys)
  | directive {x : Cell} {xs ys zs : List Cell} {i : ι} {js : List ι} : R x i zs →
      Rows R xs js ys → Rows R (x :: xs) (i :: js) (zs ++ ys)
  | call {x : Cell} {xs ys : List Cell} {js : List ι} : check_exp x = true →
      Rows R xs js ys → Rows R (x :: xs) js ys

theorem shell_withChildren {x : Cell} (h : Shell x) (cs : List Cell) :
    Shell (x.withChildren cs) :=
  ⟨h.directive, h.pragma⟩

theorem collectBelow_eq (x : Cell) :
    collectBelow x = collectAll x.children >>= fun r => .ok (r.1, x.withChildren r.2) := by
  cases x
  rfl

/-- The directives stay where they are. -/
def Kept (x : Cell) (line : Line) (zs : List Cell) : Prop := DirectiveCell x line.text ∧ zs = [x]

/-- The expressions of all calls are collected, and the calls are taken away. -/
theorem collectAll_forest {xs : List Cell} {ms : List Mark} (h : Forest xs ms) :
    ∃ ys, collectAll xs = .ok (ms.flatMap Mark.calls, ys) ∧
      Rows Kept xs (ms.flatMap Mark.lines) ys := by
  induction h with
  | nil => exact ⟨[], by rw [collectAll]; rfl, .nil⟩
  | @shell x xs ms ns hshell hno _ _ ihbelow ihnext =>
      obtain ⟨cs, hcs, hrows⟩ := ihbelow
      obtain ⟨ys, hys, hrows'⟩ := ihnext
      refine ⟨x.withChildren cs :: ys, ?_, ?_⟩
      · rw [collectAll, if_neg (by simp [hno]), collectBelow_eq, hcs, ok_bind, ok_bind]
        dsimp only
        rw [hys, ok_bind, List.flatMap_append]
      · rw [List.flatMap_append]
        exact .shell hshell hrows hrows'
  | @directive x xs line ns hdir _ ih =>
      obtain ⟨ys, hys, hrows⟩ := ih
      refine ⟨x :: ys, ?_, .directive ⟨hdir, rfl⟩ hrows⟩
      rw [collectAll, if_neg (by simp [hdir.no_call]), hdir.collectBelow, ok_bind]
      dsimp only
      rw [hys]
      rfl
  | @call x xs e ns hcall hexp _ ih =>
      obtain ⟨ys, hys, hrows⟩ := ih
      refine ⟨ys, ?_, .call hcall hrows⟩
      rw [collectAll, if_pos hcall, hexp, ok_bind, hys]
      rfl

end FrontEnd

section Binding

/-- What reading a directive takes from the list, and what of it is put below placeholders. -/
structure Reading where
  line : Line
  taken : List (List Cell)
  codes : List (List Cell)
  code : Text
  comment : Text
  text_eq : line.text = code ++ comment
  comment_eq : comment = [] ∨ comment.head? = some '!'
  spans : ∃ es, Spans code es ∧ es.length = taken.length
  sublist : codes.Sublist taken
  length_eq : codes.length + lost false [] (skeleton code) = taken.length

/-- A pragma with some expressions below its placeholders. -/
structure PragmaCell (z : Cell) (codes : List (List Cell)) : Prop where
  made : ∃ depth p, z = branch "xev_pragma" depth [] [branch "xev_clause_list" (depth + 1) [] p] ∧
    (∀ y ∈ p, GoodClause y) ∧ codesAll p = codes

theorem get_pragma_reading {x : Cell} (l : Line) (hx : DirectiveCell x l.text) (depth : Nat)
    {L : List (List Cell)} (hL : l.pieces.length ≤ L.length) :
    (∃ m, get_pragma_ depth L x = .error (.exit m)) ∨
      ∃ z L', ∃ i : Reading, get_pragma_ depth L x = .ok (z, L') ∧ i.line = l ∧
        L = i.taken ++ L' ∧ PragmaCell z i.codes := by
  obtain ⟨hchk, hstr⟩ := hx.getstr
  rw [get_pragma_, if_neg (by simp [hchk]), hstr, ok_bind]
  dsimp only
  split
  · exact Or.inl ⟨_, rfl⟩
  · cases hparse : xev_parse_pragma (depth + 2) l.text L with
    | error e =>
        obtain ⟨m, rfl⟩ := onlyExits_parseClauses (depth + 2) (l.enough hL) (by omega) e hparse
        exact Or.inl ⟨m, rfl⟩
    | ok r =>
        obtain ⟨p, L'⟩ := r
        obtain ⟨c, r, taken, m, htaken, hr, hgood, hsub, hlen, hlost⟩ :=
          parseClauses_taken (depth + 2) hparse
        have hnil := hlost []
        rw [List.append_nil] at hnil
        have hm : lost false [] (skeleton c) = m := hnil
        exact Or.inr ⟨_, L', ⟨l, taken, codesAll p, c, r, htaken.text, hr, htaken.spans, hsub,
          by rw [hm, hlen]⟩, rfl, rfl, htaken.list, depth, p, rfl, hgood, rfl⟩

/-- Cells without directives are left as they are. -/
theorem parsePragmas_free (xs : List Cell) (h : Free xs) (depth : Nat) (L : List (List Cell)) :
    Computes (fun fuel => parsePragmas fuel depth xs L) (xs, L) := by
  have hboth : (∀ x : Cell, Free x.children → ∀ depth L,
        Computes (fun fuel => parsePragmas fuel depth x.children L) (x.children, L)) ∧
      ∀ xs : List Cell, Free xs → ∀ depth L,
        Computes (fun fuel => parsePragmas fuel depth xs L) (xs, L) := by
    apply Cell.induct
    · exact fun _ _ _ _ _ cs ih => ih
    · intro _ depth L
      exact computes_succ (fun fuel => by rw [parsePragmas]) (computes_ok ([], L))
    · intro x xs ihx ihxs h depth L
      obtain ⟨hname, hbelow, hnext⟩ := (free_cons_iff x xs).mp h
      have hno : ¬ check_pragma x = true := fun hc => hname ((check_pragma_iff x).mp hc)
      refine computes_succ (fun fuel => by rw [parsePragmas, if_neg hno, ok_bind]) ?_
      refine computes_bind (ihx hbelow (depth + 1) L) ?_
      refine computes_bind (ihxs hnext depth L) ?_
      dsimp only
      rw [Cell.withChildren_children]
      exact computes_ok (x :: xs, L)
  exact hboth.2 xs h depth L

theorem PragmaCell.free {z : Cell} {codes : List (List Cell)} (h : PragmaCell z codes)
    (hfree : ∀ e ∈ codes, Free e) : check_pragma z = false ∧ Free z.children := by
  obtain ⟨depth, p, rfl, hgood, rfl⟩ := h.made
  refine ⟨?_, ?_⟩
  · rw [Bool.eq_false_iff, Ne, check_pragma_iff]
    exact show "xev_pragma" ≠ _ by decide
  · exact (free_cons_iff _ _).mpr ⟨show "xev_clause_list" ≠ _ by decide,
      free_clauses hgood hfree, free_nil⟩

/-- A directive has become a pragma. -/
def Parsed (x : Cell) (i : Reading) (zs : List Cell) : Prop :=
  DirectiveCell x i.line.text ∧ ∃ z, zs = [z] ∧ PragmaCell z i.codes

/-- How the parser of all directives ends: with a message, or with pragmas in their places and
    what is left of the list. -/
def ParseEnds (f : Nat → Run (List Cell × List (List Cell))) (xs : List Cell)
    (lines : List Line) (L : List (List Cell)) : Prop :=
  (∃ m, Ends f (.error (.exit m))) ∨
    ∃ zs L' is, Computes f (zs, L') ∧ L = is.flatMap Reading.taken ++ L' ∧ Rows Parsed xs is zs ∧
      is.map Reading.line = lines

/-- The number of pieces in lines. -/
def pieceCount (lines : List Line) : Nat := (lines.map fun l => l.pieces.length).sum

/-- The pieces of a line are those in front of its comment and those in it. -/
theorem Reading.pieces_eq (i : Reading) :
    ∃ es fs, es.length = i.taken.length ∧
      piecesOf i.line.line (i.comment ++ ['\n']) = .ok fs ∧ i.line.pieces = es ++ fs := by
  obtain ⟨es, hes, hlen⟩ := i.spans
  have hpieces : piecesOf i.line.line (i.code ++ (i.comment ++ ['\n'])) = .ok i.line.pieces := by
    rw [← List.append_assoc, ← i.text_eq]
    exact i.line.piecesOf_text
  rw [piecesOf_spans hes] at hpieces
  cases hrest : piecesOf i.line.line (i.comment ++ ['\n']) with
  | error e =>
      rw [hrest] at hpieces
      cases hpieces
  | ok fs =>
      rw [hrest] at hpieces
      exact ⟨es, fs, hlen, rfl, (Except.ok.inj hpieces).symm⟩

theorem Reading.length_le (i : Reading) : i.taken.length ≤ i.line.pieces.length := by
  obtain ⟨es, fs, hlen, -, hpieces⟩ := i.pieces_eq
  rw [hpieces, List.length_append, hlen]
  omega

theorem Reading.commentOf_eq (i : Reading) : commentOf i.line.text = i.comment := by
  obtain ⟨es, hes, -⟩ := i.spans
  rw [i.text_eq, commentOf_spans hes]
  rcases i.comment_eq with hnil | hmark
  · rw [hnil]
    rfl
  · obtain ⟨t, ht⟩ := List.head?_eq_some_iff.mp hmark
    rw [ht]
    rfl

theorem strchrF_newline (s : Text) : strchrF (s ++ ['\n']) '`' = none ↔ strchrF s '`' = none := by
  have hend : ∀ q, Quoting.bare isQuote '`' q ['\n'] = true := by
    intro q
    cases q <;> rfl
  rcases strchrF_spec s with ⟨hnone, hbare⟩ | ⟨p, r, rfl, hp, hsome⟩
  · have hboth : Quoting.bare isQuote '`' none (s ++ ['\n']) = true := by
      rw [bare_append, hbare, hend]
      rfl
    rw [hnone, strchrF_bare hboth]
  · rw [hsome, List.append_assoc, List.cons_append, strchrF_clear hp]
    simp

/-- The expressions of a line are all taken if none of them stands in its comment. -/
theorem Reading.taken_iff (i : Reading) :
    i.taken.length = i.line.pieces.length ↔ strchrF (commentOf i.line.text) '`' = none := by
  obtain ⟨es, fs, hlen, hrest, hpieces⟩ := i.pieces_eq
  rw [i.commentOf_eq, ← strchrF_newline, ← piecesOf_nil_iff, hrest, hpieces, List.length_append,
    ← hlen, Except.ok.injEq, ← List.length_eq_zero_iff]
  omega

/-- The pieces of the line become placeholders: none stands in the comment at its end, and none
    in the first half of a pair without a second one. -/
structure Line.Matched (l : Line) : Prop where
  comment : strchrF (commentOf l.text) '`' = none
  pairs : lost false [] (skeleton (l.text.take (l.text.length - (commentOf l.text).length))) = 0

/-- All expressions of a line are put below placeholders exactly if its pieces match. -/
theorem Reading.matched_iff (i : Reading) :
    i.codes.length = i.line.pieces.length ↔ i.line.Matched := by
  have hcode : i.line.text.take (i.line.text.length - (commentOf i.line.text).length) = i.code := by
    rw [i.commentOf_eq, i.text_eq, List.length_append, Nat.add_sub_cancel, List.take_left]
  have hle := i.length_le
  have hsub := i.sublist.length_le
  have hlen := i.length_eq
  constructor
  · intro h
    refine ⟨i.taken_iff.mp (by omega), ?_⟩
    rw [hcode]
    omega
  · rintro ⟨hcomment, hpairs⟩
    have htaken := i.taken_iff.mpr hcomment
    rw [hcode] at hpairs
    omega

theorem parsePragmas_cons (fuel depth : Nat) (y : Cell) (ys : List Cell) (L : List (List Cell)) :
    parsePragmas (fuel + 1) depth (y :: ys) L =
      (if check_pragma y then get_pragma_ depth L y else .ok (y, L)) >>= fun r =>
        parsePragmas fuel (depth + 1) r.1.children r.2 >>= fun p =>
          parsePragmas fuel depth ys p.2 >>= fun q => .ok (r.1.withChildren p.1 :: q.1, q.2) := by
  rw [parsePragmas]
  split <;> rfl

theorem pieceCount_append (ls ms : List Line) :
    pieceCount (ls ++ ms) = pieceCount ls + pieceCount ms := by
  rw [pieceCount, List.map_append, List.sum_append]
  rfl

theorem length_taken_le (is : List Reading) :
    (is.flatMap Reading.taken).length ≤ pieceCount (is.map Reading.line) := by
  induction is with
  | nil => exact Nat.le_refl _
  | cons i is ih =>
      have hone := i.length_le
      have hsplit : pieceCount ((i :: is).map Reading.line) =
          i.line.pieces.length + pieceCount (is.map Reading.line) := by
        rw [List.map_cons, ← List.singleton_append, pieceCount_append]
        simp [pieceCount]
      rw [List.flatMap_cons, List.length_append, hsplit]
      omega

/-- The parser goes through all directives in order. -/
theorem parse_rows {xs ys : List Cell} {lines : List Line} (h : Rows Kept xs lines ys)
    (depth : Nat) (L : List (List Cell)) (hfree : ∀ e ∈ L, Free e)
    (hL : pieceCount lines ≤ L.length) :
    ParseEnds (fun fuel => parsePragmas fuel depth ys L) xs lines L := by
  induction h generalizing depth L with
  | nil =>
      exact Or.inr ⟨[], L, [], computes_succ (fun fuel => by rw [parsePragmas])
        (computes_ok ([], L)), rfl, .nil, rfl⟩
  | @shell x xs ys cs ls ms hshell _ _ ihbelow ihnext =>
      rw [pieceCount_append] at hL
      have hstep : ∀ fuel, parsePragmas (fuel + 1) depth (x.withChildren cs :: ys) L =
          parsePragmas fuel (depth + 1) cs L >>= fun p =>
            parsePragmas fuel depth ys p.2 >>= fun q => .ok (x.withChildren p.1 :: q.1, q.2) := by
        intro fuel
        have hno : ¬ check_pragma (x.withChildren cs) = true := by
          rw [(shell_withChildren hshell cs).directive]
          exact Bool.false_ne_true
        rw [parsePragmas_cons, if_neg hno, ok_bind]
        rfl
      rcases ihbelow (depth + 1) L hfree (by omega) with ⟨m, hm⟩ |
        ⟨cs', L1, is, hcs, hsplit, hrows, hlines⟩
      · exact Or.inl ⟨m, ends_succ hstep (ends_bind_error hm)⟩
      · have hcount := length_taken_le is
        rw [hlines] at hcount
        rw [hsplit, List.length_append] at hL
        have hfree1 : ∀ e ∈ L1, Free e := fun e he =>
          hfree e (hsplit ▸ List.mem_append_right _ he)
        rcases ihnext depth L1 hfree1 (by omega) with ⟨m, hm⟩ |
          ⟨zs, L2, js, hzs, hsplit', hrows', hlines'⟩
        · exact Or.inl ⟨m, ends_succ hstep (ends_bind hcs (ends_bind_error hm))⟩
        · refine Or.inr ⟨x.withChildren cs' :: zs, L2, is ++ js,
            computes_succ hstep (computes_bind hcs (computes_bind hzs (computes_ok _))), ?_,
            .shell hshell hrows hrows', ?_⟩
          · rw [List.flatMap_append, List.append_assoc, ← hsplit', ← hsplit]
          · rw [List.map_append, hlines, hlines']
  | @directive x xs ys zs l ms hkept _ ih =>
      obtain ⟨hdir, rfl⟩ := hkept
      have hcount : pieceCount (l :: ms) = l.pieces.length + pieceCount ms := by
        rw [← List.singleton_append, pieceCount_append]
        simp [pieceCount]
      rw [hcount] at hL
      rw [List.singleton_append]
      rcases get_pragma_reading l hdir depth (by omega : l.pieces.length ≤ L.length) with
        ⟨m, hm⟩ | ⟨z, L1, i, hz, rfl, hsplit, hpragma⟩
      · refine Or.inl ⟨m, ends_succ (g := fun _ => .error (.exit m)) (fun fuel => ?_)
          ⟨0, fun _ _ => rfl⟩⟩
        rw [parsePragmas_cons, if_pos hdir.directive, hm]
        rfl
      · have hone := i.length_le
        rw [hsplit, List.length_append] at hL
        have hfree1 : ∀ e ∈ L1, Free e := fun e he =>
          hfree e (hsplit ▸ List.mem_append_right _ he)
        have hcodes : ∀ e ∈ i.codes, Free e := fun e he =>
          hfree e (hsplit ▸ List.mem_append_left _ (i.sublist.subset he))
        obtain ⟨-, hbelow⟩ := hpragma.free hcodes
        have hstep : ∀ fuel, parsePragmas (fuel + 1) depth (x :: ys) L =
            parsePragmas fuel (depth + 1) z.children L1 >>= fun p =>
              parsePragmas fuel depth ys p.2 >>= fun q =>
                .ok (z.withChildren p.1 :: q.1, q.2) := by
          intro fuel
          rw [parsePragmas_cons, if_pos hdir.directive, hz, ok_bind]
        have hinside := parsePragmas_free z.children hbelow (depth + 1) L1
        rcases ih depth L1 hfree1 (by omega) with ⟨m, hm⟩ |
          ⟨zs, L2, js, hzs, hsplit', hrows', hlines'⟩
        · exact Or.inl ⟨m, ends_succ hstep (ends_bind hinside (ends_bind_error hm))⟩
        · refine Or.inr ⟨[z] ++ zs, L2, i :: js, ?_, ?_,
            .directive ⟨hdir, z, rfl, hpragma⟩ hrows', ?_⟩
          · refine computes_succ hstep (computes_bind hinside (computes_bind hzs ?_))
            dsimp only
            rw [Cell.withChildren_children]
            exact computes_ok _
          · rw [List.flatMap_cons, List.append_assoc, ← hsplit', ← hsplit]
          · rw [List.map_cons, hlines']
  | @call x xs ys ms hcall _ ih => 
      rcases ih depth L hfree hL with hexit | ⟨zs, L', is, hzs, hsplit, hrows, hlines⟩
      · exact Or.inl hexit
      · exact Or.inr ⟨zs, L', is, hzs, hsplit, .call hcall hrows, hlines⟩

end Binding

end XevXml.Tools.Passes
