import XevXml.Tools.Cell
import XevXml.Tools.Langstr
import XevXml.Core.Numeral

/-!
# The Text of a Pragma

A directive is a list of clauses. A clause has a name and arguments: integers,
strings, booleans, literals, calls with arguments of their own, pieces of code,
and pairs of such terms. The tools keep it as a tree, and write it into one line of
text where the directive has to stand in a program.

`xev_unparse_pragma` goes through the tree and `xev_parse_pragma` through the text.
Code does not get into the text: the writer numbers it and puts it into a list, and
the reader takes it from there, in order.

A line of text is a list of characters here, without the bound of the buffer that
the writer fills.

## Main definitions

* `clause_text`, `xev_unparse_pragma`: The text of terms and of clauses.
* `parse_term`, `xev_parse_pragma`: The reader.
* `IsTerm`, `IsArg`, `IsClause`: The trees of pragmas.

## Theorems

* `roundArg_of_isArg`: What is written for an argument is read back.
* `loop_args`: So is what is written for the arguments of a clause.
* `xev_parse_unparse`: What is written for a pragma is read back.
-/

namespace XevXml.Tools

/-- The value of an attribute. -/
def attrValue (x : Cell) (name : String) : Run Text :=
  match x.attrs.lookup name with
  | some (some value) => .ok value
  | _ => .error .assertion

section Unparse

/-- The pieces of code that have been put aside, and the number of the next one. -/
structure CodeList where
  num_ex : Nat
  exlist : List (List Cell)

/-- Puts a piece of code aside, and gives its number. -/
def get_num_ex (s : CodeList) (x : List Cell) : Nat × CodeList :=
  (s.num_ex, ⟨s.num_ex + 1, s.exlist ++ [x]⟩)

/-- The text of a number between backquotes. -/
def codeMark (n : Nat) : Text := '`' :: Numeral.printNat n ++ ['`']

/-- The numbers of the types of cells. -/
def CellType.number : CellType → Nat
  | .node => 0
  | .dec => 1
  | .comm => 2
  | .close => 14

mutual

/-- The text of a term, which is nothing for a cell that is no term. -/
def Cell.termText : Cell → CodeList → Run (Option Text × CodeList)
  | .mk type name attrs pretext posttext cs, s =>
      let x := Cell.mk type name attrs pretext posttext cs
      if type ≠ .node then
        .error (.exit ("clause_text: unknown type " ++ toString type.number))
      else if name = "xev_integer" then do
        let valuestr ← attrValue x "value"
        .ok (some valuestr, s)
      else if name = "xev_string" then do
        let value ← attrValue x "value"
        .ok (some (strG2F value '\''), s)
      else if name = "xev_boolean" then do
        let valuestr ← attrValue x "value"
        .ok (some valuestr, s)
      else if name = "xev_literal" then do
        let name ← attrValue x "name"
        .ok (some name, s)
      else if name = "xev_pair" then do
        let (t, s) ← pairText cs s
        .ok (some t, s)
      else if name = "xevparse_code_exp" then
        let (n, s) := get_num_ex s cs
        .ok (some (codeMark n), s)
      else if name = "xev_func_call" then do
        let name ← attrValue x "name"
        let (t, s) ← clause_text false 0 cs s
        .ok (some (name ++ '(' :: t ++ [')']), s)
      else .ok (none, s)

/-- The text of the two terms of a pair. -/
def pairText : List Cell → CodeList → Run (Text × CodeList)
  | [], _ => .error .assertion
  | fst :: snd, s => do
      let (t1, s) ← fst.termText s
      let (t2, s) ← clause_text true 0 snd s
      .ok (t1.getD [] ++ ':' :: t2, s)

/-- The text of a list of terms, with commas between them if they are wanted.
    `c` terms have been written. -/
def clause_text (nocomma : Bool) : Nat → List Cell → CodeList → Run (Text × CodeList)
  | _, [], s => .ok ([], s)
  | c, x :: xs, s => do
      let (t, s) ← x.termText s
      match t with
      | none => clause_text nocomma c xs s
      | some t => do
          let (ts, s) ← clause_text nocomma (c + 1) xs s
          .ok ((if c + 1 ≠ 1 ∧ nocomma = false then [',', ' '] else []) ++ t ++ ts, s)

end

/-- The text of a list of clauses, behind what the line holds. -/
def unparseFrom : Text → List Cell → CodeList → Run (Text × CodeList)
  | buf, [], s => .ok (buf, s)
  | buf, x :: xs, s => do
      let name ← attrValue x "name"
      let buf := (if buf.length ≠ 0 then buf ++ [' '] else buf) ++ name
      if x.children = [] then unparseFrom buf xs s
      else do
        let (t, s) ← clause_text false 0 x.children s
        unparseFrom (buf ++ '(' :: t ++ [')']) xs s

/-- The text of a pragma. -/
def xev_unparse_pragma (xs : List Cell) (s : CodeList) : Run (Text × CodeList) :=
  unparseFrom [] xs s

end Unparse

section Parse

/-- The text from the first character on that is not blank. -/
def skipBlanks (t : Text) : Text := t.dropWhile blank

/-- The letters and the digits. -/
def isalnum (c : Char) : Bool :=
  c.isDigit || (65 ≤ c.toNat && c.toNat ≤ 90) || (97 ≤ c.toNat && c.toNat ≤ 122)

/-- The characters of names. -/
def nameChar (c : Char) : Bool := isalnum c || c == '_' || c == '.'

/-- A new cell at a level. -/
def leaf (name : String) (depth : Nat) (attrs : List (String × Option Text)) : Cell :=
  .mk .node name attrs (some (spaces depth)) none []

/-- A new cell with children, at a level. -/
def branch (name : String) (depth : Nat) (attrs : List (String × Option Text)) (cs : List Cell) :
    Cell :=
  .mk .node name attrs (some (spaces depth)) (some (spaces depth)) cs

/-- The next piece of code, which stands between backquotes in the text. -/
def parse_code (depth : Nat) (ex_list : List (List Cell)) (t : Text) :
    Run (Cell × List (List Cell) × Text) :=
  match ex_list with
  | [] => .error .assertion
  | ex :: ex_list =>
      match strchrF t.tail '`' with
      | none => .error (.exit ("incomplete fortran code: " ++ String.ofList t))
      | some p => .ok (branch "xevparse_code_exp" depth [] ex, ex_list, p.tail)

/-- A term, or the pair of it and the term in front of it. -/
def paired (depth : Nat) (fst : Option Cell) (tx : Cell) : Cell :=
  match fst with
  | none => tx
  | some fst => branch "xev_pair" depth [] [fst, tx]

/-- What a loop over arguments gives, with one more argument in front. -/
def withArg (x : Cell) (r : Run (List Cell × List (List Cell) × Text)) :
    Run (List Cell × List (List Cell) × Text) := do
  let (xs, ex_list, t) ← r
  .ok (x :: xs, ex_list, t)

/-- What a name starts: a boolean, a call or a literal. -/
def afterName (args : Text → Run (List Cell × List (List Cell) × Text)) (depth : Nat)
    (ex_list : List (List Cell)) (name p : Text) : Run (Cell × List (List Cell) × Text) :=
  if name = "true".toList ∨ name = "false".toList then
    .ok (leaf "xev_boolean" depth [("value", some name)], ex_list, p)
  else
    match skipBlanks p with
    | '(' :: t => do
        let (xs, ex_list, t) ← args t
        .ok (branch "xev_func_call" depth [("name", some name)] xs, ex_list, t)
    | t =>
        if t.head? ∈ [some ')', some ',', some ':'] then
          .ok (leaf "xev_literal" depth [("name", some name)], ex_list, t)
        else .error (.exit ("unknown type of pragma 5: " ++ String.ofList t))

variable (depth0 : Nat)

mutual

/-- Reads a term. Code is read at the level of the pragma. -/
def parse_term : Nat → Nat → List (List Cell) → Text → Run (Cell × List (List Cell) × Text)
  | 0, _, _, _ => .error .bound
  | fuel + 1, depth, ex_list, t =>
      match t with
      | [] => .error (.exit ("unknown pragma term: " ++ String.ofList t))
      | c :: rest =>
          if c = '!' then .error (.exit "xevparse: comment where term is expected")
          else if c.isDigit ∨ c = '-' then
            let digits := c :: rest.takeWhile Char.isDigit
            .ok (leaf "xev_integer" depth [("value", some digits)], ex_list,
              rest.dropWhile Char.isDigit)
          else if c = '"' ∨ c = '\'' then
            match endstrF t with
            | none => .error (.exit ("unterminated string (" ++ String.ofList t ++ ")"))
            | some (s1, p) =>
                match strF2G s1 with
                | none => .error .assertion
                | some s2 => .ok (leaf "xev_string" depth [("value", some s2)], ex_list, p)
          else if c = '`' then parse_code depth0 ex_list t
          else if nameChar c = false then
            .error (.exit ("unknown pragma term: " ++ String.ofList t))
          else
            afterName (parse_args fuel (depth + 1) ex_list none) depth ex_list
              (t.takeWhile nameChar) (t.dropWhile nameChar)

/-- Reads the arguments of a call. -/
def parse_args : Nat → Nat → List (List Cell) → Option Cell → Text →
    Run (List Cell × List (List Cell) × Text)
  | 0, _, _, _, _ => .error .bound
  | fuel + 1, depth, ex_list, fst, t =>
      let t := skipBlanks t
      if t.head? = some ')' then .ok ([], ex_list, t.tail)
      else do
        let (tx, ex_list, t) ← parse_term fuel depth ex_list t
        match skipBlanks t with
        | ')' :: t => .ok ([paired depth fst tx], ex_list, t)
        | ',' :: t => withArg (paired depth fst tx) (parse_args fuel depth ex_list none t)
        | ':' :: t =>
            match fst with
            | some _ => .error (.exit "entangled pairs")
            | none => parse_args fuel depth ex_list (some tx) t
        | _ => .error (.exit "format error in pragma")

end

/-- Reads the arguments of a clause. There has to be one, and there is no blank in
    front of what separates them. -/
def parse_terms : Nat → Nat → List (List Cell) → Option Cell → Text →
    Run (List Cell × List (List Cell) × Text)
  | 0, _, _, _, _ => .error .bound
  | fuel + 1, depth, ex_list, fst, t => do
      let (tx, ex_list, t) ← parse_term depth0 fuel depth ex_list t
      match t with
      | ')' :: t => .ok ([paired depth fst tx], ex_list, t)
      | ',' :: t =>
          withArg (paired depth fst tx) (parse_terms fuel depth ex_list none (skipBlanks t))
      | ':' :: t =>
          match fst with
          | some _ => .error (.exit "entangled pairs")
          | none => parse_terms fuel depth ex_list (some tx) (skipBlanks t)
      | _ => .error (.exit "format error in pragma")

/-- A clause. -/
def clauseCell (depth : Nat) (name : Text) (cs : List Cell) : Cell :=
  .mk .node "xev_clause" [("name", some name)] (some (spaces depth))
    (if cs = [] then none else some (spaces depth)) cs

/-- A clause in front of what has been read. -/
def withClause (x : Cell) (r : Run (List Cell × List (List Cell))) :
    Run (List Cell × List (List Cell)) := do
  let (xs, ex_list) ← r
  .ok (x :: xs, ex_list)

/-- The name of the clause that a text starts with, and what follows it. Braces
    are short for a beginning and an end. -/
def clauseName (t : Text) : Text × Text :=
  if t.head? = some '{' then ("begin".toList, t.tail)
  else if t.head? = some '}' then ("end".toList, t.tail)
  else (t.takeWhile nameChar, t.dropWhile nameChar)

/-- Reads clauses up to the end of the line or a comment. -/
def parseClauses : Nat → List (List Cell) → Text → Run (List Cell × List (List Cell))
  | 0, _, _ => .error .bound
  | fuel + 1, ex_list, t =>
      let t := skipBlanks t
      if t.head? = none ∨ t.head? = some '!' then .ok ([], ex_list)
      else
        -- a sign of continuation is skipped
        let t := if t.head? = some '&' then t.tail else t
        let (name, p) := clauseName t
        if p.head?.any (fun c => !blank c && c != '(') then
          .error (.exit ("unknown type of pragma 2: " ++ String.ofList t))
        else
          let t := skipBlanks p
          if t.head? = some '(' then do
            let (cs, ex_list, t) ← parse_terms depth0 fuel (depth0 + 1) ex_list none t.tail
            withClause (clauseCell depth0 name cs) (parseClauses fuel ex_list t)
          else withClause (clauseCell depth0 name []) (parseClauses fuel ex_list t)

/-- The clauses of a pragma. Every step but the last few takes a character of the
    line. -/
def xev_parse_pragma (t : Text) (ex_list : List (List Cell)) : Run (List Cell × List (List Cell)) :=
  parseClauses depth0 (2 * t.length + 2) ex_list t

end Parse

section Trees

/-- A name. -/
def IsName (name : Text) : Prop := name ≠ [] ∧ ∀ c ∈ name, nameChar c = true

/-- A name that is neither a boolean nor looks like a number. -/
def IsIdentifier (name : Text) : Prop :=
  IsName name ∧ (∀ c ∈ name.head?, c.isDigit = false) ∧ name ≠ "true".toList ∧
    name ≠ "false".toList

/-- The texts of a cell are white space. -/
def White (pretext posttext : Option Text) : Prop :=
  all_spaces pretext = true ∧ all_spaces posttext = true

mutual

/-- The trees of terms. -/
inductive IsTerm : Cell → Prop
  | integer (c : Char) (ds : Text) (pretext posttext : Option Text) (hw : White pretext posttext)
      (hc : c.isDigit = true ∨ c = '-') (hds : ∀ d ∈ ds, d.isDigit = true) :
      IsTerm (.mk .node "xev_integer" [("value", some (c :: ds))] pretext posttext [])
  | string (value : Text) (pretext posttext : Option Text) (hw : White pretext posttext) :
      IsTerm (.mk .node "xev_string" [("value", some value)] pretext posttext [])
  | boolean (value : Text) (pretext posttext : Option Text) (hw : White pretext posttext)
      (hvalue : value = "true".toList ∨ value = "false".toList) :
      IsTerm (.mk .node "xev_boolean" [("value", some value)] pretext posttext [])
  | literal (name : Text) (pretext posttext : Option Text) (hw : White pretext posttext)
      (hname : IsIdentifier name) :
      IsTerm (.mk .node "xev_literal" [("name", some name)] pretext posttext [])
  | func (name : Text) (args : List Cell) (pretext posttext : Option Text)
      (hw : White pretext posttext) (hname : IsIdentifier name) (hargs : ∀ x ∈ args, IsArg x) :
      IsTerm (.mk .node "xev_func_call" [("name", some name)] pretext posttext args)
  | code (exp : List Cell) (pretext posttext : Option Text) (hw : White pretext posttext) :
      IsTerm (.mk .node "xevparse_code_exp" [] pretext posttext exp)

/-- The trees of arguments: terms and pairs of terms. -/
inductive IsArg : Cell → Prop
  | term (x : Cell) (hx : IsTerm x) : IsArg x
  | pair (fst snd : Cell) (pretext posttext : Option Text) (hw : White pretext posttext)
      (hfst : IsTerm fst) (hsnd : IsTerm snd) :
      IsArg (.mk .node "xev_pair" [] pretext posttext [fst, snd])

end

/-- The trees of clauses. -/
inductive IsClause : Cell → Prop
  | clause (name : Text) (args : List Cell) (pretext posttext : Option Text)
      (hw : White pretext posttext) (hname : IsName name) (hargs : ∀ x ∈ args, IsArg x) :
      IsClause (.mk .node "xev_clause" [("name", some name)] pretext posttext args)

/-- Induction on the trees of terms and arguments. -/
theorem isTerm_induct {P Q : Cell → Prop}
    (hinteger : ∀ c ds pretext posttext, White pretext posttext → (c.isDigit = true ∨ c = '-') →
      (∀ d ∈ ds, d.isDigit = true) →
      P (.mk .node "xev_integer" [("value", some (c :: ds))] pretext posttext []))
    (hstring : ∀ value pretext posttext, White pretext posttext →
      P (.mk .node "xev_string" [("value", some value)] pretext posttext []))
    (hboolean : ∀ value pretext posttext, White pretext posttext →
      (value = "true".toList ∨ value = "false".toList) →
      P (.mk .node "xev_boolean" [("value", some value)] pretext posttext []))
    (hliteral : ∀ name pretext posttext, White pretext posttext → IsIdentifier name →
      P (.mk .node "xev_literal" [("name", some name)] pretext posttext []))
    (hfunc : ∀ name args pretext posttext, White pretext posttext → IsIdentifier name →
      (∀ x ∈ args, Q x) →
      P (.mk .node "xev_func_call" [("name", some name)] pretext posttext args))
    (hcode : ∀ exp pretext posttext, White pretext posttext →
      P (.mk .node "xevparse_code_exp" [] pretext posttext exp))
    (hterm : ∀ x, P x → Q x)
    (hpair : ∀ fst snd pretext posttext, White pretext posttext → P fst → P snd →
      Q (.mk .node "xev_pair" [] pretext posttext [fst, snd])) (x : Cell) (h : IsArg x) : Q x :=
  IsArg.rec (motive_1 := fun x _ => P x) (motive_2 := fun x _ => Q x)
    (fun c ds pretext posttext hw hc hds => hinteger c ds pretext posttext hw hc hds)
    (fun value pretext posttext hw => hstring value pretext posttext hw)
    (fun value pretext posttext hw hvalue => hboolean value pretext posttext hw hvalue)
    (fun name pretext posttext hw hname => hliteral name pretext posttext hw hname)
    (fun name args pretext posttext hw hname _ ih => hfunc name args pretext posttext hw hname ih)
    (fun exp pretext posttext hw => hcode exp pretext posttext hw)
    (fun x _ ih => hterm x ih)
    (fun fst snd pretext posttext hw _ _ ih1 ih2 => hpair fst snd pretext posttext hw ih1 ih2) h

end Trees

section Characters

theorem toNat_of_nameChar {c : Char} (h : nameChar c = true) : 32 < c.toNat ∧ c.toNat < 128 := by
  simp only [nameChar, isalnum, Bool.or_eq_true, Bool.and_eq_true, decide_eq_true_eq,
    beq_iff_eq] at h
  rcases h with ((h | h) | h) | h
  · rcases h with h | h
    · have hrange := Char.isDigit_iff_toNat.mp h
      have hlo : '0'.toNat = 48 := rfl
      have hhi : '9'.toNat = 57 := rfl
      omega
    · omega
  · omega
  · rw [h]
    decide
  · rw [h]
    decide

theorem blank_of_nameChar {c : Char} (h : nameChar c = true) : blank c = false := by
  have hrange := toNat_of_nameChar h
  simp only [blank, Bool.or_eq_false_iff, decide_eq_false_iff_not]
  omega

/-- A character that is no part of a name. -/
theorem ne_of_nameChar {c d : Char} (h : nameChar c = true) (hd : nameChar d = false) : c ≠ d := by
  intro he
  rw [he, hd] at h
  cases h

theorem nameChar_of_isDigit {c : Char} (h : c.isDigit = true) : nameChar c = true := by
  rw [nameChar, isalnum, h]
  rfl

/-- A text starts with something that is neither blank nor the end of a list. -/
def Starts (t : Text) : Prop := ∃ c s, t = c :: s ∧ blank c = false ∧ c ≠ ')'

theorem skipBlanks_of_starts {t : Text} (h : Starts t) : skipBlanks t = t := by
  rcases h with ⟨c, s, rfl, hc, _⟩
  rw [skipBlanks, List.dropWhile_cons_of_neg (by rw [hc]; decide)]

theorem head_of_starts {t : Text} (h : Starts t) : ¬ t.head? = some ')' := by
  rcases h with ⟨c, s, rfl, _, hne⟩
  rw [List.head?_cons, Option.some.injEq]
  exact hne

theorem starts_append {t : Text} (h : Starts t) (rest : Text) : Starts (t ++ rest) := by
  rcases h with ⟨c, s, rfl, hc, hne⟩
  exact ⟨c, s ++ rest, rfl, hc, hne⟩

/-- What can follow a term. -/
def Delimited (rest : Text) : Prop := rest.head? ∈ [some ')', some ',', some ':']

theorem delimited_cases {rest : Text} (h : Delimited rest) :
    ∃ d s, rest = d :: s ∧ (d = ')' ∨ d = ',' ∨ d = ':') := by
  cases rest with
  | nil => exact absurd h (by simp [Delimited])
  | cons d s =>
      refine ⟨d, s, rfl, ?_⟩
      simp only [Delimited, List.head?_cons, List.mem_cons, Option.some.injEq, List.not_mem_nil,
        or_false] at h
      exact h

end Characters

section Space

theorem all_spaces_spaces (level : Nat) : all_spaces (some (spaces level)) = true := by
  rw [all_spaces, Option.getD_some, List.all_eq_true]
  intro c hc
  rw [spaces, List.mem_cons, List.mem_replicate] at hc
  rcases hc with rfl | ⟨_, rfl⟩ <;> decide

theorem white_spaces (level : Nat) : White (some (spaces level)) (some (spaces level)) :=
  ⟨all_spaces_spaces level, all_spaces_spaces level⟩

theorem white_spaces_none (level : Nat) : White (some (spaces level)) none :=
  ⟨all_spaces_spaces level, rfl⟩

/-- Cells with white texts are compared by everything else. -/
theorem trimmed_eq_of_white (name : String) (attrs : List (String × Option Text))
    {pre post pre' post' : Option Text} {cs cs' : List Cell} (h : White pre post)
    (h' : White pre' post') (hcs : SameUpToSpace cs cs') :
    (Cell.mk .node name attrs pre post cs).trimmed =
      (Cell.mk .node name attrs pre' post' cs').trimmed := by
  rw [Cell.trimmed, Cell.trimmed, (trimmedText_eq_none_iff pre).mpr h.1,
    (trimmedText_eq_none_iff post).mpr h.2, (trimmedText_eq_none_iff pre').mpr h'.1,
    (trimmedText_eq_none_iff post').mpr h'.2, hcs]

end Space

section Terms

/-- The list with more pieces of code put aside. -/
def CodeList.add (s : CodeList) (new : List (List Cell)) : CodeList :=
  ⟨s.num_ex + new.length, s.exlist ++ new⟩

theorem CodeList.add_nil (s : CodeList) : s.add [] = s := by
  rw [CodeList.add, List.append_nil]
  rfl

theorem CodeList.add_add (s : CodeList) (new new' : List (List Cell)) :
    (s.add new).add new' = s.add (new ++ new') := by
  simp only [CodeList.add, List.length_append, List.append_assoc, Nat.add_assoc]

variable (depth0 : Nat)

/-- A text is read as a term, with the code that belongs to it. -/
def ReadsTerm (x : Cell) (text : Text) (new : List (List Cell)) : Prop :=
  ∀ fuel depth ex_list rest, 2 * text.length ≤ fuel → Delimited rest →
    ∃ y, parse_term depth0 fuel depth (new ++ ex_list) (text ++ rest) = .ok (y, ex_list, rest) ∧
      y.trimmed = x.trimmed

/-- A term is written, and its text is read as the term. -/
def RoundTerm (x : Cell) : Prop :=
  ∀ s, ∃ text new, x.termText s = .ok (some text, s.add new) ∧ Starts text ∧
    ReadsTerm depth0 x text new

theorem takeWhile_append_delimited (p : Char → Bool) (t rest : Text) (ht : ∀ c ∈ t, p c = true)
    (hp : p ')' = false ∧ p ',' = false ∧ p ':' = false) (hrest : Delimited rest) :
    (t ++ rest).takeWhile p = t ∧ (t ++ rest).dropWhile p = rest := by
  rcases delimited_cases hrest with ⟨d, s, rfl, hd⟩
  have hstop : ¬ p d = true := by
    rw [Bool.not_eq_true]
    rcases hd with rfl | rfl | rfl
    · exact hp.1
    · exact hp.2.1
    · exact hp.2.2
  rw [List.takeWhile_append_of_pos ht, List.dropWhile_append_of_pos ht,
    List.takeWhile_cons_of_neg hstop, List.dropWhile_cons_of_neg hstop, List.append_nil]
  exact ⟨rfl, rfl⟩

theorem roundTerm_integer (c : Char) (ds : Text) (pre post : Option Text) (hw : White pre post)
    (hc : c.isDigit = true ∨ c = '-') (hds : ∀ d ∈ ds, d.isDigit = true) :
    RoundTerm depth0 (.mk .node "xev_integer" [("value", some (c :: ds))] pre post []) := by
  intro s
  refine ⟨c :: ds, [], ?_, ?_, ?_⟩
  · rw [CodeList.add_nil]
    rfl
  · refine ⟨c, ds, rfl, ?_, ?_⟩
    · rcases hc with hc | rfl
      · exact blank_of_nameChar (nameChar_of_isDigit hc)
      · decide
    · rcases hc with hc | rfl
      · exact ne_of_nameChar (nameChar_of_isDigit hc) (by decide)
      · decide
  · intro fuel depth ex_list rest hfuel hrest
    rcases Nat.exists_eq_add_of_le' (by rw [List.length_cons] at hfuel; omega : 1 ≤ fuel) with
      ⟨k, rfl⟩
    have hne : c ≠ '!' := by
      rcases hc with hc | rfl
      · exact ne_of_nameChar (nameChar_of_isDigit hc) (by decide)
      · decide
    have hsplit := takeWhile_append_delimited Char.isDigit ds rest hds (by decide) hrest
    refine ⟨leaf "xev_integer" depth [("value", some (c :: ds))], ?_,
      trimmed_eq_of_white _ _ (white_spaces_none depth) hw rfl⟩
    rw [List.cons_append, parse_term]
    dsimp only
    rw [if_neg hne, if_pos hc, hsplit.1, hsplit.2]
    rfl

theorem roundTerm_string (value : Text) (pre post : Option Text) (hw : White pre post) :
    RoundTerm depth0 (.mk .node "xev_string" [("value", some value)] pre post []) := by
  intro s
  refine ⟨strG2F value '\'', [], ?_, ?_, ?_⟩
  · rw [CodeList.add_nil]
    rfl
  · exact ⟨'\'', doubled '\'' value ++ ['\''], rfl, by decide, by decide⟩
  · intro fuel depth ex_list rest hfuel hrest
    rcases Nat.exists_eq_add_of_le'
      (by rw [strG2F, List.cons_append, List.length_cons] at hfuel; omega : 1 ≤ fuel)
      with ⟨k, rfl⟩
    have hquote : NoQuoteAhead '\'' rest := by
      rcases delimited_cases hrest with ⟨d, s, rfl, hd⟩
      rw [NoQuoteAhead, List.head?_cons]
      rcases hd with rfl | rfl | rfl <;> decide
    have hend := endstrF_strG2F value rest hquote
    refine ⟨leaf "xev_string" depth [("value", some value)], ?_,
      trimmed_eq_of_white _ _ (white_spaces_none depth) hw rfl⟩
    have htext : strG2F value '\'' ++ rest = '\'' :: (doubled '\'' value ++ ['\''] ++ rest) := rfl
    rw [htext] at hend ⊢
    rw [parse_term]
    dsimp only
    rw [if_neg (by decide), if_neg (by decide), if_pos (by decide), hend]
    dsimp only
    rw [strF2G_strG2F]
    rfl

theorem roundTerm_code (exp : List Cell) (pre post : Option Text) (hw : White pre post) :
    RoundTerm depth0 (.mk .node "xevparse_code_exp" [] pre post exp) := by
  intro s
  refine ⟨codeMark s.num_ex, [exp], rfl, ?_, ?_⟩
  · exact ⟨'`', Numeral.printNat s.num_ex ++ ['`'], rfl, by decide, by decide⟩
  · intro fuel depth ex_list rest hfuel hrest
    rcases Nat.exists_eq_add_of_le'
      (by rw [codeMark, List.cons_append, List.length_cons] at hfuel; omega : 1 ≤ fuel) with
        ⟨k, rfl⟩
    have hdigits : ∀ d ∈ Numeral.printNat s.num_ex, d ≠ '`' ∧ d ≠ '\'' ∧ d ≠ '"' := by
      intro d hd
      have hname := nameChar_of_isDigit (Numeral.isDigit_of_mem_printNat hd)
      exact ⟨ne_of_nameChar hname (by decide), ne_of_nameChar hname (by decide),
        ne_of_nameChar hname (by decide)⟩
    have hfind := strchrF_append '`' (Numeral.printNat s.num_ex) rest hdigits
    refine ⟨branch "xevparse_code_exp" depth0 [] exp, ?_,
      trimmed_eq_of_white _ _ (white_spaces depth0) hw rfl⟩
    have htext : codeMark s.num_ex ++ rest = '`' :: (Numeral.printNat s.num_ex ++ '`' :: rest) := by
      rw [codeMark, List.cons_append, List.cons_append, List.append_assoc]
      rfl
    rw [htext, parse_term, List.singleton_append]
    dsimp only
    rw [if_neg (by decide), if_neg (by decide), if_neg (by decide), if_pos rfl, parse_code]
    dsimp only [List.tail_cons]
    rw [hfind]
    rfl

/-- Reading a name that no number, no string and no code starts. -/
theorem parse_term_name (fuel depth : Nat) (ex_list : List (List Cell)) (name rest : Text)
    (hname : IsName name) (hdigit : ∀ c ∈ name.head?, c.isDigit = false)
    (hrest : rest.head?.any nameChar = false) :
    parse_term depth0 (fuel + 1) depth ex_list (name ++ rest) =
      afterName (parse_args depth0 fuel (depth + 1) ex_list none) depth ex_list name rest := by
  have hstop : rest.takeWhile nameChar = [] ∧ rest.dropWhile nameChar = rest := by
    cases rest with
    | nil => exact ⟨rfl, rfl⟩
    | cons d s =>
        have hd : ¬ nameChar d = true := by
          rw [Bool.not_eq_true]
          simpa using hrest
        exact ⟨List.takeWhile_cons_of_neg hd, List.dropWhile_cons_of_neg hd⟩
  have htake : (name ++ rest).takeWhile nameChar = name := by
    rw [List.takeWhile_append_of_pos hname.2, hstop.1, List.append_nil]
  have hdrop : (name ++ rest).dropWhile nameChar = rest := by
    rw [List.dropWhile_append_of_pos hname.2, hstop.2]
  cases name with
  | nil => exact absurd rfl hname.1
  | cons c cs =>
      have hc : nameChar c = true := hname.2 c List.mem_cons_self
      have hd : ¬ (c.isDigit = true ∨ c = '-') := by
        rw [hdigit c (by simp)]
        exact fun h => h.elim (fun h => Bool.false_ne_true h) (ne_of_nameChar hc (by decide))
      have hquote : ¬ (c = '"' ∨ c = '\'') := fun h =>
        h.elim (ne_of_nameChar hc (by decide)) (ne_of_nameChar hc (by decide))
      rw [List.cons_append] at htake hdrop ⊢
      rw [parse_term]
      dsimp only
      rw [if_neg (ne_of_nameChar hc (by decide)), if_neg hd, if_neg hquote,
        if_neg (ne_of_nameChar hc (by decide)), if_neg (by rw [hc]; decide), htake, hdrop]

theorem skipBlanks_paren (t : Text) : skipBlanks ('(' :: t) = '(' :: t := by
  rw [skipBlanks, List.dropWhile_cons_of_neg (by decide)]

theorem afterName_call (args : Text → Run (List Cell × List (List Cell) × Text)) (depth : Nat)
    (ex_list ex_list' : List (List Cell)) (name t rest : Text) (xs : List Cell)
    (hname : IsIdentifier name) (h : args t = .ok (xs, ex_list', rest)) :
    afterName args depth ex_list name ('(' :: t) =
      .ok (branch "xev_func_call" depth [("name", some name)] xs, ex_list', rest) := by
  have hbool : ¬ (name = "true".toList ∨ name = "false".toList) :=
    fun hn => hn.elim hname.2.2.1 hname.2.2.2
  simp only [afterName, if_neg hbool, skipBlanks_paren, h, bind, Except.bind]

theorem starts_of_isName {name : Text} (h : IsName name) : Starts name := by
  rcases List.exists_cons_of_ne_nil h.1 with ⟨c, s, rfl⟩
  have hc := h.2 c List.mem_cons_self
  exact ⟨c, s, rfl, blank_of_nameChar hc, ne_of_nameChar hc (by decide)⟩

theorem head_delimited {rest : Text} (h : Delimited rest) : rest.head?.any nameChar = false := by
  rcases delimited_cases h with ⟨d, s, rfl, hd⟩
  rw [List.head?_cons, Option.any_some]
  rcases hd with rfl | rfl | rfl <;> decide

theorem head_of_not_digit {c : Char} (s : Text) (h : c.isDigit = false) :
    ∀ d ∈ (c :: s).head?, d.isDigit = false := by
  intro d hd
  rw [List.head?_cons, Option.mem_some_iff] at hd
  rw [← hd, h]

theorem roundTerm_boolean (value : Text) (pre post : Option Text) (hw : White pre post)
    (hvalue : value = "true".toList ∨ value = "false".toList) :
    RoundTerm depth0 (.mk .node "xev_boolean" [("value", some value)] pre post []) := by
  have hname : IsName value ∧ ∀ c ∈ value.head?, c.isDigit = false := by
    rcases hvalue with rfl | rfl
    · exact ⟨⟨by decide, by decide⟩, head_of_not_digit _ (by decide)⟩
    · exact ⟨⟨by decide, by decide⟩, head_of_not_digit _ (by decide)⟩
  intro s
  refine ⟨value, [], ?_, starts_of_isName hname.1, ?_⟩
  · rw [CodeList.add_nil]
    rfl
  · intro fuel depth ex_list rest hfuel hrest
    have hpos := List.length_pos_of_ne_nil hname.1.1
    rcases Nat.exists_eq_add_of_le' (by omega : 1 ≤ fuel) with ⟨k, rfl⟩
    refine ⟨leaf "xev_boolean" depth [("value", some value)], ?_,
      trimmed_eq_of_white _ _ (white_spaces_none depth) hw rfl⟩
    rw [parse_term_name depth0 k depth _ value rest hname.1 hname.2 (head_delimited hrest),
      afterName, if_pos hvalue]
    rfl

theorem roundTerm_literal (name : Text) (pre post : Option Text) (hw : White pre post)
    (hname : IsIdentifier name) :
    RoundTerm depth0 (.mk .node "xev_literal" [("name", some name)] pre post []) := by
  intro s
  refine ⟨name, [], ?_, starts_of_isName hname.1, ?_⟩
  · rw [CodeList.add_nil]
    rfl
  · intro fuel depth ex_list rest hfuel hrest
    have hpos := List.length_pos_of_ne_nil hname.1.1
    rcases Nat.exists_eq_add_of_le' (by omega : 1 ≤ fuel) with ⟨k, rfl⟩
    refine ⟨leaf "xev_literal" depth [("name", some name)], ?_,
      trimmed_eq_of_white _ _ (white_spaces_none depth) hw rfl⟩
    rw [parse_term_name depth0 k depth _ name rest hname.1 hname.2.1 (head_delimited hrest),
      afterName, if_neg (fun h => h.elim hname.2.2.1 hname.2.2.2)]
    rcases delimited_cases hrest with ⟨d, s, rfl, hd⟩
    rcases hd with rfl | rfl | rfl <;> rfl

end Terms

section Loops

variable (depth0 : Nat)

/-- How a loop over arguments goes on behind a term. The two loops of the reader
    agree on what the writer writes. -/
structure ArgLoop (loop : Nat → Nat → List (List Cell) → Option Cell → Text →
    Run (List Cell × List (List Cell) × Text)) : Prop where
  close : ∀ fuel depth ex_list ex_list' fst tx t rest, Starts t →
    parse_term depth0 fuel depth ex_list t = .ok (tx, ex_list', ')' :: rest) →
    loop (fuel + 1) depth ex_list fst t = .ok ([paired depth fst tx], ex_list', rest)
  comma : ∀ fuel depth ex_list ex_list' fst tx t rest, Starts t → Starts rest →
    parse_term depth0 fuel depth ex_list t = .ok (tx, ex_list', ',' :: ' ' :: rest) →
    loop (fuel + 1) depth ex_list fst t =
      withArg (paired depth fst tx) (loop fuel depth ex_list' none rest)
  colon : ∀ fuel depth ex_list ex_list' tx t rest, Starts t → Starts rest →
    parse_term depth0 fuel depth ex_list t = .ok (tx, ex_list', ':' :: rest) →
    loop (fuel + 1) depth ex_list none t = loop fuel depth ex_list' (some tx) rest

theorem skipBlanks_blank (t : Text) : skipBlanks (' ' :: t) = skipBlanks t := by
  rw [skipBlanks, skipBlanks, List.dropWhile_cons_of_pos (by decide)]

theorem parse_args_blank (fuel depth : Nat) (ex_list : List (List Cell)) (fst : Option Cell)
    (t : Text) :
    parse_args depth0 fuel depth ex_list fst (' ' :: t) = parse_args depth0 fuel depth ex_list fst
      t := by
  cases fuel with
  | zero => rfl
  | succ fuel => rw [parse_args, parse_args, skipBlanks_blank]

/-- The loop over the arguments of a call. -/
theorem argLoop_parse_args : ArgLoop depth0 (parse_args depth0) where
  close := by
    intro fuel depth ex_list ex_list' fst tx t rest ht h
    rw [parse_args]
    dsimp only
    rw [skipBlanks_of_starts ht, if_neg (head_of_starts ht), h]
    rfl
  comma := by
    intro fuel depth ex_list ex_list' fst tx t rest ht hrest h
    rw [parse_args, ← parse_args_blank depth0 fuel depth ex_list' none rest]
    dsimp only
    rw [skipBlanks_of_starts ht, if_neg (head_of_starts ht), h]
    rfl
  colon := by
    intro fuel depth ex_list ex_list' tx t rest ht hrest h
    rw [parse_args]
    dsimp only
    rw [skipBlanks_of_starts ht, if_neg (head_of_starts ht), h]
    rfl

/-- The loop over the arguments of a clause. -/
theorem argLoop_parse_terms : ArgLoop depth0 (parse_terms depth0) where
  close := by
    intro fuel depth ex_list ex_list' fst tx t rest _ h
    rw [parse_terms, h]
    rfl
  comma := by
    intro fuel depth ex_list ex_list' fst tx t rest _ hrest h
    have hskip : skipBlanks (' ' :: rest) = rest := by
      rw [skipBlanks_blank, skipBlanks_of_starts hrest]
    rw [parse_terms, h]
    exact congrArg (fun u => withArg _ (parse_terms depth0 fuel depth ex_list' none u)) hskip
  colon := by
    intro fuel depth ex_list ex_list' tx t rest _ hrest h
    rw [parse_terms, h]
    exact congrArg (parse_terms depth0 fuel depth ex_list' (some tx)) (skipBlanks_of_starts hrest)

/-- An argument is a term or a pair of terms that are written and read back. -/
def RoundArg (x : Cell) : Prop :=
  RoundTerm depth0 x ∨ ∃ fst snd pretext posttext, White pretext posttext ∧ RoundTerm depth0 fst ∧
    RoundTerm depth0 snd ∧ x = .mk .node "xev_pair" [] pretext posttext [fst, snd]

theorem pair_text (fst snd : Cell) (pre post : Option Text) (t1 t2 : Text)
    (s s1 s2 : CodeList) (h1 : fst.termText s = .ok (some t1, s1))
    (h2 : snd.termText s1 = .ok (some t2, s2)) :
    (Cell.mk .node "xev_pair" [] pre post [fst, snd]).termText s =
      .ok (some (t1 ++ ':' :: t2), s2) := by
  have hsnd : clause_text true 0 [snd] s1 = .ok (t2, s2) := by
    rw [clause_text, h2]
    simp only [bind, Except.bind, clause_text, List.append_nil]
    rfl
  have hpair : pairText [fst, snd] s = .ok (t1 ++ ':' :: t2, s2) := by
    rw [pairText, h1]
    simp only [bind, Except.bind, hsnd, Option.getD_some]
  rw [Cell.termText]
  dsimp only
  rw [if_neg (by decide), if_neg (by decide), if_neg (by decide), if_neg (by decide),
    if_neg (by decide), if_pos rfl, hpair]
  rfl

/-- One argument is written, and a loop takes it from the text. -/
theorem loop_arg (x : Cell) (h : RoundArg depth0 x) (s : CodeList) :
    ∃ text new, x.termText s = .ok (some text, s.add new) ∧ Starts text ∧
      ∀ loop, ArgLoop depth0 loop → ∀ fuel depth ex_list, 2 * text.length + 1 ≤ fuel →
        (∀ rest, ∃ y, y.trimmed = x.trimmed ∧
          loop fuel depth (new ++ ex_list) none (text ++ ')' :: rest) = .ok ([y], ex_list, rest)) ∧
        ∀ rest, Starts rest → ∃ y fuel', y.trimmed = x.trimmed ∧ fuel ≤ fuel' + 2 * text.length ∧
          loop fuel depth (new ++ ex_list) none (text ++ ',' :: ' ' :: rest) =
            withArg y (loop fuel' depth ex_list none rest) := by
  have hclose : ∀ rest : Text, Delimited (')' :: rest) := fun _ => List.mem_cons_self
  have hcomma : ∀ rest : Text, Delimited (',' :: rest) :=
    fun _ => List.mem_cons_of_mem _ List.mem_cons_self
  have hcolon : ∀ rest : Text, Delimited (':' :: rest) :=
    fun _ => List.mem_cons_of_mem _ (List.mem_cons_of_mem _ List.mem_cons_self)
  rcases h with h | ⟨fst, snd, pre, post, hw, hfst, hsnd, rfl⟩
  · rcases h s with ⟨text, new, htext, hstart, hread⟩
    refine ⟨text, new, htext, hstart, ?_⟩
    intro loop hloop fuel depth ex_list hfuel
    rcases Nat.exists_eq_add_of_le' (by omega : 1 ≤ fuel) with ⟨k, rfl⟩
    have hpos : 0 < text.length := by
      rcases hstart with ⟨c, t, rfl, _⟩
      exact Nat.succ_pos _
    constructor
    · intro rest
      rcases hread k depth ex_list _ (by omega) (hclose rest) with ⟨y, hy, htrim⟩
      exact ⟨y, htrim, hloop.close k depth _ _ none y _ rest (starts_append hstart _) hy⟩
    · intro rest hrest
      rcases hread k depth ex_list _ (by omega) (hcomma (' ' :: rest)) with ⟨y, hy, htrim⟩
      exact ⟨y, k, htrim, by omega,
        hloop.comma k depth _ _ none y _ rest (starts_append hstart _) hrest hy⟩
  · rcases hfst s with ⟨t1, new1, htext1, hstart1, hread1⟩
    rcases hsnd (s.add new1) with ⟨t2, new2, htext2, hstart2, hread2⟩
    refine ⟨t1 ++ ':' :: t2, new1 ++ new2, ?_, starts_append hstart1 _, ?_⟩
    · rw [← CodeList.add_add]
      exact pair_text fst snd pre post t1 t2 s _ _ htext1 htext2
    · intro loop hloop fuel depth ex_list hfuel
      rw [List.length_append, List.length_cons] at hfuel
      rcases Nat.exists_eq_add_of_le' (by omega : 2 ≤ fuel) with ⟨k, rfl⟩
      rw [List.length_append, List.length_cons]
      have hstart1' : ∀ u, Starts (t1 ++ u) := fun u => starts_append hstart1 u
      have hstart2' : ∀ u, Starts (t2 ++ u) := fun u => starts_append hstart2 u
      -- The loop keeps the first component until it has the second one.
      have hkeep : ∀ rest, ∃ y1, y1.trimmed = fst.trimmed ∧
          loop (k + 2) depth (new1 ++ new2 ++ ex_list) none (t1 ++ ':' :: t2 ++ rest) =
            loop (k + 1) depth (new2 ++ ex_list) (some y1) (t2 ++ rest) := by
        intro rest
        rcases hread1 (k + 1) depth (new2 ++ ex_list) _ (by omega) (hcolon (t2 ++ rest)) with
          ⟨y1, hy1, htrim1⟩
        refine ⟨y1, htrim1, ?_⟩
        rw [List.append_assoc, List.append_assoc, List.cons_append]
        exact hloop.colon (k + 1) depth _ _ y1 _ _ (hstart1' _) (hstart2' _) hy1
      have htrim : ∀ y1 y2 : Cell, y1.trimmed = fst.trimmed → y2.trimmed = snd.trimmed →
          (paired depth (some y1) y2).trimmed =
            (Cell.mk .node "xev_pair" [] pre post [fst, snd]).trimmed := by
        intro y1 y2 h1 h2
        refine trimmed_eq_of_white _ _ (white_spaces depth) hw ?_
        rw [sameUpToSpace_cons_iff, sameUpToSpace_cons_iff]
        exact ⟨h1, h2, rfl⟩
      constructor
      · intro rest
        rcases hkeep (')' :: rest) with ⟨y1, htrim1, hk⟩
        rcases hread2 k depth ex_list _ (by omega) (hclose rest) with ⟨y2, hy2, htrim2⟩
        refine ⟨paired depth (some y1) y2, htrim y1 y2 htrim1 htrim2, ?_⟩
        rw [hk]
        exact hloop.close k depth _ _ (some y1) y2 _ rest (hstart2' _) hy2
      · intro rest hrest
        rcases hkeep (',' :: ' ' :: rest) with ⟨y1, htrim1, hk⟩
        rcases hread2 k depth ex_list _ (by omega) (hcomma (' ' :: rest)) with ⟨y2, hy2, htrim2⟩
        refine ⟨paired depth (some y1) y2, k, htrim y1 y2 htrim1 htrim2, by omega, ?_⟩
        rw [hk]
        exact hloop.comma k depth _ _ (some y1) y2 _ rest (hstart2' _) hrest hy2

/-- Arguments are written with commas between them, and a loop takes all of them
    from the text. `c` terms are written already. -/
theorem loop_args (xs : List Cell) (h : ∀ x ∈ xs, RoundArg depth0 x) (hne : xs ≠ []) (c : Nat)
    (s : CodeList) :
    ∃ text new, clause_text false c xs s =
        .ok ((if c + 1 ≠ 1 then [',', ' '] else []) ++ text, s.add new) ∧ Starts text ∧
      ∀ loop, ArgLoop depth0 loop → ∀ fuel depth ex_list rest, 2 * text.length + 1 ≤ fuel →
        ∃ ys, loop fuel depth (new ++ ex_list) none (text ++ ')' :: rest) = .ok
          (ys, ex_list, rest) ∧
          SameUpToSpace ys xs := by
  induction xs generalizing c s with
  | nil => exact absurd rfl hne
  | cons x xs ih =>
      rw [List.forall_mem_cons] at h
      rcases loop_arg depth0 x h.1 s with ⟨text, new, htext, hstart, hloop⟩
      by_cases hxs : xs = []
      · -- the last argument
        refine ⟨text, new, ?_, hstart, ?_⟩
        · rw [hxs, clause_text, htext]
          simp only [bind, Except.bind, clause_text, List.append_nil, and_true]
        · intro loop hl fuel depth ex_list rest hfuel
          rcases (hloop loop hl fuel depth ex_list hfuel).1 rest with ⟨y, htrim, hy⟩
          refine ⟨[y], hy, ?_⟩
          rw [hxs, sameUpToSpace_cons_iff]
          exact ⟨htrim, rfl⟩
      · rcases ih h.2 hxs (c + 1) (s.add new) with ⟨text', new', htext', hstart', hloop'⟩
        refine ⟨text ++ ',' :: ' ' :: text', new ++ new', ?_, starts_append hstart _, ?_⟩
        · rw [clause_text, htext]
          simp only [bind, Except.bind, htext', and_true, CodeList.add_add, List.append_assoc]
          rw [if_pos (by omega : c + 1 + 1 ≠ 1)]
          rfl
        · intro loop hl fuel depth ex_list rest hfuel
          rw [List.length_append, List.length_cons, List.length_cons] at hfuel
          rcases (hloop loop hl fuel depth (new' ++ ex_list) (by omega)).2 (text' ++ ')' :: rest)
            (starts_append hstart' _) with ⟨y, fuel', htrim, hle, hy⟩
          rcases hloop' loop hl fuel' depth ex_list rest (by omega) with ⟨ys, hys, hsame⟩
          refine ⟨y :: ys, ?_, (sameUpToSpace_cons_iff y x ys xs).mpr ⟨htrim, hsame⟩⟩
          rw [List.append_assoc, List.append_assoc, List.cons_append, List.cons_append, hy, hys]
          rfl

/-- The arguments of a call, of which there can be none. -/
theorem call_args (xs : List Cell) (h : ∀ x ∈ xs, RoundArg depth0 x) (s : CodeList) :
    ∃ text new, clause_text false 0 xs s = .ok (text, s.add new) ∧
      ∀ fuel depth ex_list rest, 2 * text.length + 1 ≤ fuel →
        ∃ ys, parse_args depth0 fuel depth (new ++ ex_list) none (text ++ ')' :: rest) =
            .ok (ys, ex_list, rest) ∧ SameUpToSpace ys xs := by
  by_cases hne : xs = []
  · refine ⟨[], [], ?_, ?_⟩
    · rw [hne, clause_text, CodeList.add_nil]
    · intro fuel depth ex_list rest hfuel
      rcases Nat.exists_eq_add_of_le' (by omega : 1 ≤ fuel) with ⟨k, rfl⟩
      refine ⟨[], ?_, by rw [hne]; rfl⟩
      rw [parse_args]
      rfl
  · rcases loop_args depth0 xs h hne 0 s with ⟨text, new, htext, _, hloop⟩
    exact ⟨text, new, htext, fun fuel depth ex_list rest hfuel =>
      hloop (parse_args depth0) (argLoop_parse_args depth0) fuel depth ex_list rest hfuel⟩

theorem roundTerm_func (name : Text) (args : List Cell) (pre post : Option Text)
    (hw : White pre post) (hname : IsIdentifier name) (hargs : ∀ x ∈ args, RoundArg depth0 x) :
    RoundTerm depth0 (.mk .node "xev_func_call" [("name", some name)] pre post args) := by
  intro s
  rcases call_args depth0 args hargs s with ⟨text, new, htext, hread⟩
  refine ⟨name ++ '(' :: text ++ [')'], new, ?_, ?_, ?_⟩
  · rw [Cell.termText]
    dsimp only
    rw [if_neg (by decide), if_neg (by decide), if_neg (by decide), if_neg (by decide),
      if_neg (by decide), if_neg (by decide), if_neg (by decide), if_pos rfl, htext]
    rfl
  · exact starts_append (starts_append (starts_of_isName hname.1) _) _
  · intro fuel depth ex_list rest hfuel _
    simp only [List.length_append, List.length_cons, List.length_nil] at hfuel
    rcases Nat.exists_eq_add_of_le' (by omega : 1 ≤ fuel) with ⟨k, rfl⟩
    rcases hread k (depth + 1) ex_list rest (by omega) with ⟨ys, hys, hsame⟩
    refine ⟨branch "xev_func_call" depth [("name", some name)] ys, ?_,
      trimmed_eq_of_white _ _ (white_spaces depth) hw hsame⟩
    have htext' : name ++ '(' :: text ++ [')'] ++ rest = name ++ '(' :: (text ++ ')' :: rest) := by
      simp only [List.append_assoc, List.cons_append, List.nil_append]
    rw [htext', parse_term_name depth0 k depth _ name _ hname.1 hname.2.1
      (by rw [List.head?_cons]; decide)]
    exact afterName_call _ depth _ _ name _ rest ys hname hys

/-- What is written for an argument is read back. -/
theorem roundArg_of_isArg (x : Cell) (h : IsArg x) : RoundArg depth0 x :=
  isTerm_induct (P := RoundTerm depth0) (Q := RoundArg depth0)
    (fun c ds pre post hw hc hds => roundTerm_integer depth0 c ds pre post hw hc hds)
    (fun value pre post hw => roundTerm_string depth0 value pre post hw)
    (fun value pre post hw hvalue => roundTerm_boolean depth0 value pre post hw hvalue)
    (fun name pre post hw hname => roundTerm_literal depth0 name pre post hw hname)
    (fun name args pre post hw hname hargs => roundTerm_func depth0 name args pre post hw
      hname hargs)
    (fun exp pre post hw => roundTerm_code depth0 exp pre post hw)
    (fun _ hx => Or.inl hx)
    (fun fst snd pre post hw hfst hsnd => Or.inr ⟨fst, snd, pre, post, hw, hfst, hsnd, rfl⟩) x h

end Loops

section Clauses

variable (depth0 : Nat)

theorem parseClauses_blank (fuel : Nat) (ex_list : List (List Cell)) (t : Text) :
    parseClauses depth0 fuel ex_list (' ' :: t) = parseClauses depth0 fuel ex_list t := by
  cases fuel with
  | zero => rfl
  | succ fuel => rw [parseClauses, parseClauses, skipBlanks_blank]

/-- What can follow the name of a clause. -/
def AfterName (rest : Text) : Prop := rest = [] ∨ ∃ t, rest = ' ' :: t ∨ rest = '(' :: t

theorem clauseName_append (name rest : Text) (hname : IsName name) (hrest : AfterName rest) :
    clauseName (name ++ rest) = (name, rest) := by
  have hstop : rest.takeWhile nameChar = [] ∧ rest.dropWhile nameChar = rest := by
    rcases hrest with rfl | ⟨t, rfl | rfl⟩
    · exact ⟨rfl, rfl⟩
    · exact ⟨List.takeWhile_cons_of_neg (by decide), List.dropWhile_cons_of_neg (by decide)⟩
    · exact ⟨List.takeWhile_cons_of_neg (by decide), List.dropWhile_cons_of_neg (by decide)⟩
  have hhead : ∀ d, nameChar d = false → ¬ (name ++ rest).head? = some d := by
    intro d hd
    rcases List.exists_cons_of_ne_nil hname.1 with ⟨c, cs, rfl⟩
    rw [List.cons_append, List.head?_cons, Option.some.injEq]
    exact ne_of_nameChar (hname.2 c List.mem_cons_self) hd
  rw [clauseName, if_neg (hhead '{' (by decide)), if_neg (hhead '}' (by decide)),
    List.takeWhile_append_of_pos hname.2, List.dropWhile_append_of_pos hname.2, hstop.1, hstop.2,
    List.append_nil]

/-- The first step of reading a clause finds its name. -/
theorem parseClauses_name (fuel : Nat) (ex_list : List (List Cell)) (name rest : Text)
    (hname : IsName name) (hrest : AfterName rest) :
    parseClauses depth0 (fuel + 1) ex_list (name ++ rest) =
      if (skipBlanks rest).head? = some '(' then
        parse_terms depth0 fuel (depth0 + 1) ex_list none (skipBlanks rest).tail >>= fun r =>
          withClause (clauseCell depth0 name r.1) (parseClauses depth0 fuel r.2.1 r.2.2)
      else withClause (clauseCell depth0 name [])
        (parseClauses depth0 fuel ex_list (skipBlanks rest)) := by
  have hany : ¬ rest.head?.any (fun c => !blank c && c != '(') = true := by
    rcases hrest with rfl | ⟨t, rfl | rfl⟩
    · decide
    · rw [List.head?_cons]
      decide
    · rw [List.head?_cons]
      decide
  have hhead : ∀ d, nameChar d = false → ¬ (name ++ rest).head? = some d := by
    intro d hd
    rcases List.exists_cons_of_ne_nil hname.1 with ⟨c, cs, rfl⟩
    rw [List.cons_append, List.head?_cons, Option.some.injEq]
    exact ne_of_nameChar (hname.2 c List.mem_cons_self) hd
  have hnone : ¬ (name ++ rest).head? = none := by
    rcases List.exists_cons_of_ne_nil hname.1 with ⟨c, cs, rfl⟩
    rw [List.cons_append, List.head?_cons]
    exact Option.some_ne_none c
  rw [parseClauses]
  dsimp only
  rw [skipBlanks_of_starts (starts_append (starts_of_isName hname) rest),
    if_neg (fun h => h.elim hnone (hhead '!' (by decide))), if_neg (hhead '&' (by decide)),
    clauseName_append name rest hname hrest]
  dsimp only
  rw [if_neg hany]

/-- A clause without arguments goes to the blank behind it or to the end. -/
theorem parseClauses_word (fuel : Nat) (ex_list ex_list' : List (List Cell)) (name rest : Text)
    (xs : List Cell) (hname : IsName name)
    (hrest : rest = [] ∨ ∃ c t, rest = ' ' :: c :: t ∧ nameChar c = true)
    (h : parseClauses depth0 fuel ex_list rest = .ok (xs, ex_list')) :
    parseClauses depth0 (fuel + 1) ex_list (name ++ rest) =
      .ok (clauseCell depth0 name [] :: xs, ex_list') := by
  have hafter : AfterName rest := by
    rcases hrest with rfl | ⟨c, t, rfl, _⟩
    · exact Or.inl rfl
    · exact Or.inr ⟨c :: t, Or.inl rfl⟩
  have hskip : (skipBlanks rest).head? ≠ some '(' ∧
      parseClauses depth0 fuel ex_list (skipBlanks rest) =
        parseClauses depth0 fuel ex_list rest := by
    rcases hrest with rfl | ⟨c, t, rfl, hc⟩
    · exact ⟨by decide, rfl⟩
    · have hstart : skipBlanks (c :: t) = c :: t :=
        skipBlanks_of_starts ⟨c, t, rfl, blank_of_nameChar hc, ne_of_nameChar hc (by decide)⟩
      rw [skipBlanks_blank, parseClauses_blank, hstart]
      refine ⟨?_, rfl⟩
      rw [List.head?_cons, ne_eq, Option.some.injEq]
      exact ne_of_nameChar hc (by decide)
  rw [parseClauses_name depth0 fuel ex_list name rest hname hafter, if_neg hskip.1, hskip.2, h]
  rfl

/-- A clause with arguments ends behind them. -/
theorem parseClauses_call (fuel : Nat) (ex_list ex_list' ex_list'' : List (List Cell))
    (name t rest : Text) (cs xs : List Cell) (hname : IsName name)
    (hargs : parse_terms depth0 fuel (depth0 + 1) ex_list none t = .ok (cs, ex_list', rest))
    (h : parseClauses depth0 fuel ex_list' rest = .ok (xs, ex_list'')) :
    parseClauses depth0 (fuel + 1) ex_list (name ++ '(' :: t) =
      .ok (clauseCell depth0 name cs :: xs, ex_list'') := by
  rw [parseClauses_name depth0 fuel ex_list name _ hname (Or.inr ⟨t, Or.inr rfl⟩), skipBlanks_paren,
    if_pos (by rw [List.head?_cons]), List.tail_cons, hargs]
  simp only [bind, Except.bind, h, withClause]

theorem white_clauseCell (cs : List Cell) :
    White (some (spaces depth0)) (if cs = [] then none else some (spaces depth0)) := by
  split
  · exact white_spaces_none depth0
  · exact white_spaces depth0

/-- Clauses are written with blanks between them and read back. `buf` is written
    already. -/
theorem parseClauses_text (xs : List Cell) (h : ∀ x ∈ xs, IsClause x) (buf : Text) (s : CodeList) :
    ∃ text new, unparseFrom buf xs s = .ok (buf ++ text, s.add new) ∧
      (buf ≠ [] → text = [] ∨ ∃ c t, text = ' ' :: c :: t ∧ nameChar c = true) ∧
      ∀ fuel ex_list, 2 * text.length + 1 ≤ fuel →
        ∃ ys, parseClauses depth0 fuel (new ++ ex_list) text = .ok (ys, ex_list) ∧
          SameUpToSpace ys xs := by
  induction xs generalizing buf s with
  | nil =>
      refine ⟨[], [], ?_, fun _ => Or.inl rfl, ?_⟩
      · rw [unparseFrom, CodeList.add_nil, List.append_nil]
      · intro fuel ex_list hfuel
        rcases Nat.exists_eq_add_of_le' (by omega : 1 ≤ fuel) with ⟨k, rfl⟩
        exact ⟨[], rfl, rfl⟩
  | cons x xs ih =>
      rw [List.forall_mem_cons] at h
      rcases h with ⟨⟨name, args, pre, post, hw, hname, hargs⟩, hxs⟩
      have hround : ∀ x ∈ args, RoundArg depth0 x :=
        fun x hx => roundArg_of_isArg depth0 x (hargs x hx)
      -- A blank stands in front of every clause but the first.
      have hsep : ∃ sep : Text, (sep = [] ∨ sep = [' ']) ∧ (buf ≠ [] → sep = [' ']) ∧
          (if buf.length ≠ 0 then buf ++ [' '] else buf) = buf ++ sep := by
        by_cases hb : buf.length ≠ 0
        · exact ⟨[' '], Or.inr rfl, fun _ => rfl, by rw [if_pos hb]⟩
        · refine ⟨[], Or.inl rfl, fun hne => ?_, by rw [if_neg hb, List.append_nil]⟩
          exact absurd (List.length_pos_of_ne_nil hne) (by omega)
      rcases hsep with ⟨sep, hsep, hsepne, hbuf⟩
      have hparse : ∀ fuel ex_list t, parseClauses depth0 fuel ex_list (sep ++ t) =
          parseClauses depth0 fuel ex_list t := by
        intro fuel ex_list t
        rcases hsep with rfl | rfl
        · rfl
        · exact parseClauses_blank depth0 fuel ex_list t
      have hfirst : ∀ t, buf ≠ [] → ∃ c u, sep ++ (name ++ t) = ' ' :: c :: u ∧
        nameChar c = true := by
        intro t hne
        rcases List.exists_cons_of_ne_nil hname.1 with ⟨c, cs, rfl⟩
        rw [hsepne hne]
        exact ⟨c, cs ++ t, rfl, hname.2 c List.mem_cons_self⟩
      have hlen : sep.length ≤ 1 := by rcases hsep with rfl | rfl <;> decide
      have hnlen : 0 < name.length := List.length_pos_of_ne_nil hname.1
      have hne : ∀ t : Text, buf ++ sep ++ name ++ t ≠ [] := by
        intro t hn
        rw [List.append_eq_nil_iff, List.append_eq_nil_iff] at hn
        exact hname.1 hn.1.2
      have hvalue : attrValue (.mk .node "xev_clause" [("name", some name)] pre post args) "name" =
          .ok name := rfl
      by_cases hnone : args = []
      · rcases ih hxs (buf ++ sep ++ name) s with ⟨text, new, htext, hfollow, hread⟩
        refine ⟨sep ++ (name ++ text), new, ?_, fun hb => Or.inr (hfirst text hb), ?_⟩
        · rw [unparseFrom, hvalue, hbuf]
          simp only [bind, Except.bind, Cell.children, if_pos hnone, htext]
          simp only [List.append_assoc]
        · intro fuel ex_list hfuel
          simp only [List.length_append] at hfuel
          rcases Nat.exists_eq_add_of_le' (by omega : 1 ≤ fuel) with ⟨k, rfl⟩
          rcases hread k ex_list (by omega) with ⟨ys, hys, hsame⟩
          refine ⟨clauseCell depth0 name [] :: ys, ?_, ?_⟩
          · rw [hparse]
            exact parseClauses_word depth0 k _ _ name text ys hname
              (hfollow (by rw [← List.append_nil (buf ++ sep ++ name)]; exact hne [])) hys
          · rw [sameUpToSpace_cons_iff, hnone]
            exact ⟨trimmed_eq_of_white _ _ (white_clauseCell depth0 []) hw rfl, hsame⟩
      · rcases loop_args depth0 args hround hnone 0 s with ⟨t, new1, ht, hstart, hloop⟩
        rcases ih hxs (buf ++ sep ++ name ++ '(' :: t ++ [')']) (s.add new1) with
          ⟨text, new2, htext, hfollow, hread⟩
        refine ⟨sep ++ (name ++ '(' :: (t ++ ')' :: text)), new1 ++ new2, ?_,
          fun hb => Or.inr (hfirst _ hb), ?_⟩
        · have hlist : clause_text false 0 args s = .ok (t, s.add new1) := ht
          rw [unparseFrom, hvalue, hbuf]
          simp only [bind, Except.bind, Cell.children, if_neg hnone, hlist, htext, CodeList.add_add]
          simp only [List.append_assoc, List.cons_append, List.nil_append]
        · intro fuel ex_list hfuel
          simp only [List.length_append, List.length_cons] at hfuel
          rcases Nat.exists_eq_add_of_le' (by omega : 1 ≤ fuel) with ⟨k, rfl⟩
          rcases hloop _ (argLoop_parse_terms depth0) k (depth0 + 1) (new2 ++ ex_list) text
            (by omega) with ⟨cs, hcs, hsamecs⟩
          rcases hread k ex_list (by omega) with ⟨ys, hys, hsame⟩
          refine ⟨clauseCell depth0 name cs :: ys, ?_, ?_⟩
          · rw [hparse, List.append_assoc]
            exact parseClauses_call depth0 k _ _ _ name _ text cs ys hname hcs hys
          · rw [sameUpToSpace_cons_iff]
            exact ⟨trimmed_eq_of_white _ _ (white_clauseCell depth0 cs) hw hsamecs, hsame⟩

end Clauses

/-- The size of the line that the writer fills. -/
def XEV_LINE_SIZE : Nat := 4096

/-- What is written for a pragma is read back, and the code that was put aside is
    used up. -/
theorem xev_parse_unparse (depth0 : Nat) (xs : List Cell) (h : ∀ x ∈ xs, IsClause x)
    (s : CodeList) :
    ∃ text new, xev_unparse_pragma xs s = .ok (text, s.add new) ∧
      (text.length < XEV_LINE_SIZE → ∃ ys, xev_parse_pragma depth0 text new = .ok (ys, []) ∧
        SameUpToSpace ys xs) := by
  rcases parseClauses_text depth0 xs h [] s with ⟨text, new, htext, _, hread⟩
  refine ⟨text, new, htext, fun _ => ?_⟩
  rcases hread (2 * text.length + 2) [] (by omega) with ⟨ys, hys, hsame⟩
  rw [List.append_nil] at hys
  exact ⟨ys, hys, hsame⟩

/-- A clause with a call in it. -/
def callSample (name : String) : Cell :=
  .mk .node "xev_clause" [("name", some ['c'])] none none
    [.mk .node "xev_func_call" [("name", some name.toList)] none none
      [.mk .node "xev_integer" [("value", some ['1'])] none none []]]

/-- A clause with a pair of a pair. -/
def pairSample : Cell :=
  .mk .node "xev_clause" [("name", some ['c'])] none none
    [.mk .node "xev_pair" [] none none
      [.mk .node "xev_pair" [] none none
        [.mk .node "xev_literal" [("name", some ['x'])] none none [],
          .mk .node "xev_literal" [("name", some ['y'])] none none []],
        .mk .node "xev_literal" [("name", some ['z'])] none none []]]

/-- The call is written and read back. -/
theorem xev_parse_unparse_call :
    ∃ text new, xev_unparse_pragma [callSample "f"] ⟨0, []⟩ =
      .ok (text, (⟨0, []⟩ : CodeList).add new) ∧
      (text.length < XEV_LINE_SIZE → ∃ ys, xev_parse_pragma 0 text new = .ok (ys, []) ∧
        SameUpToSpace ys [callSample "f"]) := by
  refine xev_parse_unparse 0 _ ?_ _
  intro x hx
  rw [List.mem_singleton.mp hx]
  refine .clause _ _ _ _ ⟨rfl, rfl⟩ ⟨by decide, by decide⟩ ?_
  intro y hy
  rw [List.mem_singleton.mp hy]
  refine .term _ (.func _ _ _ _ ⟨rfl, rfl⟩ ⟨⟨by decide, by decide⟩,
    head_of_not_digit _ (by decide), by decide, by decide⟩ ?_)
  intro z hz
  rw [List.mem_singleton.mp hz]
  exact .term _ (.integer '1' [] none none ⟨rfl, rfl⟩ (Or.inl (by decide)) (by decide))

/-- A clause whose first argument ends with something that separates no arguments
    is not read. -/
theorem parseClauses_argument (fuel : Nat) (ex_list : List (List Cell)) (name t : Text)
    (stop : Stop) (hname : IsName name)
    (h : parse_terms 0 fuel 1 ex_list none t = .error stop) :
    parseClauses 0 (fuel + 1) ex_list (name ++ '(' :: t) = .error stop := by
  rw [parseClauses_name 0 fuel ex_list name _ hname (Or.inr ⟨t, Or.inr rfl⟩), skipBlanks_paren,
    if_pos (by rw [List.head?_cons]), List.tail_cons, h]
  rfl

/-- A call of `true` is read as a boolean that parentheses follow, and a pair of a
    pair is not read. -/
theorem call_true_not_read :
    (xev_unparse_pragma [callSample "true"] ⟨0, []⟩ =
        .ok (['c', '(', 't', 'r', 'u', 'e', '(', '1', ')', ')'], ⟨0, []⟩) ∧
      xev_parse_pragma 0 ['c', '(', 't', 'r', 'u', 'e', '(', '1', ')', ')'] [] =
        .error (.exit "format error in pragma")) ∧
    xev_unparse_pragma [pairSample] ⟨0, []⟩ =
        .ok (['c', '(', 'x', ':', 'y', ':', 'z', ')'], ⟨0, []⟩) ∧
      xev_parse_pragma 0 ['c', '(', 'x', ':', 'y', ':', 'z', ')'] [] =
        .error (.exit "entangled pairs") := by
  have hc : IsName ['c'] := ⟨by decide, by decide⟩
  refine ⟨⟨rfl, ?_⟩, rfl, ?_⟩
  · refine parseClauses_argument 21 [] ['c'] _ _ hc ?_
    have hterm := parse_term_name 0 19 1 [] ['t', 'r', 'u', 'e'] ['(', '1', ')', ')']
      ⟨by decide, by decide⟩ (head_of_not_digit _ (by decide)) (by decide)
    rw [afterName, if_pos (by decide)] at hterm
    rw [parse_terms]
    exact congrArg (fun r => r >>= _) hterm
  · refine parseClauses_argument 17 [] ['c'] _ _ hc ?_
    have hx := parse_term_name 0 15 1 [] ['x'] [':', 'y', ':', 'z', ')'] ⟨by decide, by decide⟩
      (head_of_not_digit _ (by decide)) (by decide)
    have hy := parse_term_name 0 14 1 [] ['y'] [':', 'z', ')'] ⟨by decide, by decide⟩
      (head_of_not_digit _ (by decide)) (by decide)
    rw [afterName, if_neg (by decide)] at hx hy
    have hcolon := (argLoop_parse_terms 0).colon 16 1 [] [] _ _ ['y', ':', 'z', ')']
      ⟨'x', _, rfl, by decide, by decide⟩ ⟨'y', _, rfl, by decide, by decide⟩ hx
    refine hcolon.trans ?_
    rw [parse_terms]
    exact congrArg (fun r => r >>= _) hy

end XevXml.Tools
