import XevXml.Tools.Tgen.Context

/-!
# The Two Walks over a Program

`xevtgen` goes over the directives of a program twice. The first walk counts the contexts and
registers their names, so that a context can be used in front of the directive that defines
it. The second one writes the template, and counts the contexts again to know which of them a
directive defines. Both go the same way: a directive is worked on, and its children are not
looked at unless it declares variables.

A pointer to a cell is the list of the cell and those behind it here. What the second walk
writes, and the variables and conditions it takes note of on its way, are left out, and so is
what can stop the tool there. What each directive is given is noted in a list.

## Main definitions

* `xml_get_cell`, `xml_getstr`: Moving over a tree.
* `Keyword`, `Subject`: The kinds of directives and of transformations.
* `walk`: The way that both walks go.
* `xevtgen_count_variables`: The first walk.
* `xevtgen_write_template`: The contexts of the second one.
-/

namespace XevXml.Tools.Tgen

section Moving

/-- Moves over a tree: `n` to the next cell, `c` to the first child. -/
def moveCell (org : String) : Text → List Cell → Run (List Cell)
  | [], p => .ok p
  | _ :: _, [] => .error (.exit ("xml_get_cell(" ++ org ++ "): mismatched structure"))
  | op :: ops, x :: rest =>
      if op = 'n' then moveCell org ops rest
      else if op = 'c' then moveCell org ops x.children
      else .error (.exit ("xml_get_cell(" ++ org ++ "): unknown op " ++ String.ofList [op]))

/-- The cell that a text of moves leads to. -/
def xml_get_cell (p : List Cell) (op : String) : Run (List Cell) :=
  if p.isEmpty then .error (.exit "xml_get_cell: null xml") else moveCell op op.toList p

/-- Moves over a tree and reads an attribute there, or the name of the cell. -/
def moveStr (org : String) : Text → List Cell → Run (Option Text)
  | _, [] => .error (.exit ("xml_getstr(" ++ org ++ "): mismatching xml structure"))
  | [], x :: _ => .ok (some x.name.toList)
  | op :: ops, x :: rest =>
      if op = 'n' then moveStr org ops rest
      else if op = 'c' then moveStr org ops x.children
      else if op = 'a' ∧ ops.head? = some '=' then .ok (getAttr x (String.ofList ops.tail))
      else .error (.exit ("xml_getstr(" ++ org ++ "): unknown character " ++ String.ofList [op]))

/-- The string that a text of moves leads to. -/
def xml_getstr (p : List Cell) (op : String) : Run (Option Text) :=
  if p.isEmpty then .error (.exit ("xml_getstr(" ++ op ++ "): null xml")) else moveStr op
    op.toList p

/-- Whether there is a cell with an attribute behind some moves. -/
def checkStruct : Text → List Cell → Bool
  | _, [] => false
  | [], _ :: _ => true
  | op :: ops, x :: rest =>
      if op = 'n' then checkStruct ops rest
      else if op = 'c' then checkStruct ops x.children
      else if op = 'a' then
        let name := ops.tail.takeWhile (· != '=')
        match x.attrs.lookup (String.ofList name) with
        | none => false
        | some value =>
            match ops.tail.dropWhile (· != '=') with
            | [] => true
            | _ :: v => value == some v
      else if op = '=' then x.name == String.ofList ops
      else false

def xml_chk_struct (p : List Cell) (op : String) : Bool := checkStruct op.toList p

end Moving

section Keywords

/-- The kinds of directives. -/
inductive Keyword
  | var
  | list
  | ctxdef
  | condef
  | trans
  | src
  | dst
  | stmt
  | incl
  | mode
  | clean
deriving DecidableEq

/-- The kind of a directive by the name of its clause. -/
def keyword (k : Option Text) : Option Keyword :=
  if k = some "var".toList then some .var
  else if k = some "list".toList then some .list
  else if k = some "ctxdef".toList then some .ctxdef
  else if k = some "condef".toList then some .condef
  else if k = some "trans".toList then some .trans
  else if k = some "src".toList then some .src
  else if k = some "dst".toList then some .dst
  else if k = some "stmt".toList then some .stmt
  else if k = some "include".toList then some .incl
  else if k = some "mode".toList then some .mode
  else if k = some "clean".toList then some .clean
  else none

/-- What a transformation is about. -/
inductive Subject
  | exp
  | term
  | clause
  | stmt
deriving DecidableEq

def subject (t : Option Text) : Option Subject :=
  if t = some "exp".toList then some .exp
  else if t = some "term".toList then some .term
  else if t = some "clause".toList then some .clause
  else if t = some "stmt".toList then some .stmt
  else none

end Keywords

section Clauses

/-- A directive for the tool. -/
def directive_tgen (x : Cell) : Bool :=
  x.name == "xev_pragma" && xml_chk_struct [x] "cca=name=xev" && xml_chk_struct [x] "ccna=name=tgen"

/-- The clauses from the first one with a name on. -/
def clauseFrom (name : String) (cl : List Cell) : List Cell :=
  cl.dropWhile fun x => !(x.name == "xev_clause" && getAttr x "name" == some name.toList)

/-- The contexts that are tested. -/
def get_context (cl : List Cell) : List Cell :=
  ((clauseFrom "context" cl).head?.map Cell.children).getD []

def get_src (cl : List Cell) : List Cell := clauseFrom "src" cl

def get_dst (cl : List Cell) : List Cell := clauseFrom "dst" cl

/-- The name of the context that is defined. -/
def get_context_name (cl : List Cell) : Run (Option Text) :=
  let cl := cl.dropWhile fun x => !(getAttr x "name" == some "ctxdef".toList)
  if cl.isEmpty then .ok none else xml_getstr cl "ca=name"

/-- What stands behind the second list of clauses of a directive. The cell behind the end of a
    list of cells is asked for its follower. -/
def behindSecond (x : Cell) : Run Bool := do
  let e ← xml_get_cell [x] "cnn"
  if e.isEmpty then .error .assertion else .ok (!e.tail.isEmpty)

end Clauses

section Walks

variable {σ : Type} (step : σ → Cell → Run (σ × Bool))

mutual

/-- Works on a directive, or goes on with the children. -/
def Cell.walk (s : σ) : Cell → Run σ
  | .mk type name attrs pretext posttext cs =>
      let x := Cell.mk type name attrs pretext posttext cs
      if directive_tgen x then do
        let r ← step s x
        if r.2 then .ok r.1 else walk r.1 cs
      else walk s cs

/-- Goes over a list of cells. -/
def walk (s : σ) : List Cell → Run σ
  | [] => .ok s
  | x :: xs => do
      let s ← Cell.walk s x
      walk s xs

end

end Walks

section Counting

/-- What the first walk has found: the contexts, and which of them each directive has. -/
structure Count where
  num_contexts : Nat
  ctxlist : List CtxDef
  log : List (Option CtxDef)

/-- In front of the first directive. -/
def Count.start : Count := ⟨0, [], []⟩

/-- A directive with a context. -/
def Count.new_context (s : Count) (name : Option Text) : Count :=
  ⟨s.num_contexts + 1, ⟨s.num_contexts, name⟩ :: s.ctxlist, s.log ++ [some ⟨s.num_contexts, name⟩]⟩

/-- A directive without one. -/
def Count.pass (s : Count) : Count := { s with log := s.log ++ [none] }

/-- A directive with a source: the part behind the source can have a context. -/
def Count.source (s : Count) (x : Cell) : Run Count := do
  let more ← behindSecond x
  if more then do
    let p ← xml_get_cell [x] "cnnn"
    let name ← get_context_name p
    .ok (s.new_context name)
  else .ok s.pass

/-- The first walk at a transformation. -/
def count_trans (s : Count) (x : Cell) (cl : List Cell) : Run Count := do
  let t ← xml_getstr cl "nnna=name"
  let own : Run Count := do
    let name ← get_context_name cl
    .ok (s.new_context name)
  match subject t with
  | some .clause => if (get_dst cl).length < (get_src cl).length then .ok s.pass else own
  | some .stmt => if (get_src cl).isEmpty then own else s.source x
  | _ => own

/-- The first walk at a directive. -/
def count_directive (s : Count) (x : Cell) : Run (Count × Bool) := do
  let cl ← xml_get_cell [x] "cc"
  let k ← xml_getstr cl "nna=name"
  match keyword k with
  | some .var | some .list => .ok (s.pass, false)
  | some .ctxdef => do
      let name ← xml_getstr cl "nnca=name"
      .ok (s.new_context name, true)
  | some .condef | some .clean => .ok (s.pass, true)
  | some .trans => do
      let s ← count_trans s x cl
      .ok (s, true)
  | some .src => do
      let s ← s.source x
      .ok (s, true)
  | some .dst => do
      let name ← get_context_name cl
      .ok (s.new_context name, true)
  | some .stmt => do
      let _ ← xml_getstr cl "nnca=name"
      .ok (s.pass, false)
  | some .incl =>
      if xml_chk_struct cl "nnc=xev_string" then .ok (s.pass, true)
      else .error (.exit "xevtgen: include file name must be string")
  | some .mode =>
      if xml_chk_struct cl "nnc=xev_string" then .ok (s.pass, true)
      else .error (.exit "xevtgen: mode name must be string")
  | none => .error (.exit ("xevtgen: unknown line type " ++ printed k))

/-- The first walk. -/
def xevtgen_count_variables (s : Count) (xs : List Cell) : Run Count := walk count_directive s xs

end Counting

section Writing

/-- What the second walk has come to: the number of the next context, and the one that each
    directive has set. -/
structure Written where
  ctx_count : Nat
  log : List (Option Nat)

/-- In front of the first directive. -/
def Written.start : Written := ⟨0, []⟩

/-- A directive that sets a context of its own. -/
def Written.set (s : Written) : Written := ⟨s.ctx_count + 1, s.log ++ [some s.ctx_count]⟩

/-- A directive that sets none. -/
def Written.pass (s : Written) : Written := { s with log := s.log ++ [none] }

/-- A directive that sets a context, which is then taken back. -/
def Written.setBack (s : Written) : Written := { s with log := s.log ++ [some s.ctx_count] }

variable (num_contexts : Nat) (ctxlist : List CtxDef)

/-- A directive that hands on its context. -/
def own_context (s : Written) (cl : List Cell) : Run Written := do
  let _ ← set_context_string num_contexts ctxlist s.ctx_count cl
  .ok s.set

/-- Whether there is code in a clause that is there. -/
def codeIn (p : List Cell) : Run Bool :=
  if p.isEmpty then .ok true
  else do
    let name ← xml_getstr p "c"
    .ok (name == some "xevparse_code_exp".toList)

/-- Code is wanted in the source and in the destination of an expression. -/
def codeInBoth (src dst : List Cell) : Run Bool := do
  let a ← codeIn src
  if a then codeIn dst else .ok false

/-- What is written for a transformation, by what it is about. -/
def trans_about (s : Written) (x : Cell) (cl : List Cell) (t : Option Text) : Run Written :=
  let src := get_src cl
  let dst := get_dst cl
  match subject t with
  | some .exp =>
      if xml_chk_struct [x] "cn=xev_target" then
        if src.isEmpty = dst.isEmpty then
          .error (.exit "xevtgen: trans exp block must be either src or dst")
        else do
          let _ ← xml_get_cell [x] "cncc"
          .ok s.set
      else do
        let code ← codeInBoth src dst
        if code then .ok s.set
        else .error (.exit "xevtgen: trans exp needs code expression in src and dst")
  | some .term =>
      if src.isEmpty || dst.isEmpty then .error (.exit "xevtgen: trans term needs src and dst")
      else .ok s.set
  | some .clause =>
      if src.isEmpty && dst.isEmpty then .error (.exit "xevtgen: trans clause needs src or dst")
      else if dst.length < src.length then .ok s.pass
      else .ok s.set
  | some .stmt =>
      if src.isEmpty = dst.isEmpty then .error (.exit "xevtgen: trans stmt needs src xor dst")
      else do
        let _ ← xml_get_cell [x] "cnc"
        if src.isEmpty then .ok s.set
        else do
          let more ← behindSecond x
          .ok (if more then s.setBack else s.pass)
  | none => .error (.exit ("xevtgen: trans unknown type " ++ printed t))

/-- The second walk at a transformation. Its context is set first and taken back where there
    is only a source. -/
def write_trans (s : Written) (x : Cell) (cl : List Cell) : Run Written := do
  let t ← xml_getstr cl "nnna=name"
  let _ ← set_context_string num_contexts ctxlist s.ctx_count cl
  trans_about s x cl t

/-- The second walk at a directive. -/
def write_directive (s : Written) (x : Cell) : Run (Written × Bool) := do
  let cl ← xml_get_cell [x] "cc"
  if xml_chk_struct cl "nna=name" = false then .error (.exit "xevtgen: tgen without clause")
  else do
    let k ← xml_getstr cl "nna=name"
    match keyword k with
    | some .var | some .list => .ok (s.pass, false)
    | some .ctxdef | some .dst => do
        let s ← own_context num_contexts ctxlist s cl
        .ok (s, true)
    | some .condef | some .incl => .ok (s.pass, true)
    | some .trans => do
        let s ← write_trans num_contexts ctxlist s x cl
        .ok (s, true)
    | some .src => do
        let _ ← xml_get_cell [x] "cnc"
        let more ← behindSecond x
        if more then do
          let p ← xml_get_cell [x] "cnnn"
          let s ← own_context num_contexts ctxlist s p
          .ok (s, true)
        else .ok (s.pass, true)
    | some .stmt => do
        let _ ← xml_getstr cl "nnca=name"
        .ok (s.pass, false)
    | some .mode => do
        let _ ← xml_getstr cl "nnca=value"
        .ok (s.pass, true)
    | some .clean => do
        let o ← xml_get_cell cl "nn"
        let name := (o.head?.map fun c => getAttr c "name").join
        if (o.head?.map Cell.children).getD [] ≠ [] ∧ name ≠ some "true".toList ∧
            name ≠ some "false".toList then
          .error (.exit "xevtgen: unknown option for clean: choose true or false")
        else .ok (s.pass, true)
    | none => .error (.exit ("xevtgen: unknown line type " ++ printed k))

/-- The second walk. -/
def xevtgen_write_template (s : Written) (xs : List Cell) : Run Written :=
  walk (write_directive num_contexts ctxlist) s xs

end Writing

end XevXml.Tools.Tgen
