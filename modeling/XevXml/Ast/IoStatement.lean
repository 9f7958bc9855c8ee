import XevXml.Core.Table
import XevXml.Ast.Views

/-!
# Input and Output Statements

The I/O statements of Fortran. Each has a set of optional specifiers and some
have a list of items. The internal node writer of a statement puts down the
list and then, for every specifier that is present, an argument with the name
of the specifier. The reader looks the name of every argument up in the table
`g_iostmtAttrib` and stores the expression in the specifier the table gives.

Each kind of statement has its own list of names in the writer and its own
switch over the specifiers in the reader. Two of the lists do not fit. A close
statement is written with its `iomsg` specifier under the name `err`, and an
inquire statement with its `pending` specifier under the name `padding`, which
the table does not contain. The reader of inquire statements also demands a
variable for `iolength`, and its switch has no default branch.

## Main definitions

* `IostmtAttrib`, `g_iostmtAttrib`: The specifiers and the table of names.
* `IoKind`: The kinds of statements.
* `IoKind.cases`: The specifiers the reader of a kind knows.
* `IoKind.inode`: The names the writer of a kind uses.
* `IoStmt`: The statements.
* `writeIo`, `visitIo`: Writer and reader.
* `IoStmt.Kept`: The statements that come back unchanged.

## Theorems

* `readIo_toOption`: The reader follows the table of names.
* `io_survives_iff`: Which statements come back unchanged.
-/

namespace XevXml

variable {F : Type} [FloatStream F]

/-- The numeric label of a statement, written by `attribSgStatement`. -/
def attribSgStatement : Option CInt → Attrs
  | none => []
  | some l => [("label", l.print)]

/-- The numeric label of a statement, read by `checkStatement`. -/
def checkStatement (node : Attrs) : Option CInt :=
  (getString node "label").map (Numeral.Machine.read intFormat)

/-- The specifiers of I/O statements. -/
inductive IostmtAttrib
  | FMT | IOLENGTH | UNIT | IOSTAT | ERR | IOMSG | FILE | ACCESS | FORM | RECL | BLANK | EXIST
  | OPENED | NUMBER | NAMED | NAME | SEQUENTIAL | DIRECT | FORMATTED | UNFORMATTED | NEXTREC
  | POSITION | ACTION | READ | WRITE | READWRITE | DELIM | PAD | ASYNCHRONOUS | DECIMAL | STREAM
  | SIZE | PENDING | STATUS | ROUND | SIGN | ADVANCE | REC | END | EOR | NML
deriving DecidableEq, Repr

/-- The table of names. -/
def g_iostmtAttrib : List (String × IostmtAttrib) :=
  [("fmt", .FMT), ("iolength", .IOLENGTH), ("unit", .UNIT), ("iostat", .IOSTAT), ("err", .ERR),
    ("iomsg", .IOMSG), ("file", .FILE), ("access", .ACCESS), ("form", .FORM), ("recl", .RECL),
    ("blank", .BLANK), ("exist", .EXIST), ("opened", .OPENED), ("number", .NUMBER),
    ("named", .NAMED), ("name", .NAME), ("sequential", .SEQUENTIAL), ("direct", .DIRECT),
    ("formatted", .FORMATTED), ("unformatted", .UNFORMATTED), ("nextrec", .NEXTREC),
    ("position", .POSITION), ("action", .ACTION), ("read", .READ), ("write", .WRITE),
    ("readwrite", .READWRITE), ("delim", .DELIM), ("pad", .PAD), ("asynchronous", .ASYNCHRONOUS),
    ("decimal", .DECIMAL), ("stream", .STREAM), ("size", .SIZE), ("pending", .PENDING),
    ("status", .STATUS), ("round", .ROUND), ("sign", .SIGN), ("advance", .ADVANCE),
    ("rec", .REC), ("end", .END), ("eor", .EOR), ("nml", .NML)]

/-- The specifier with a given name. -/
def iostmtAttrib (name : Text) : Option IostmtAttrib := g_iostmtAttrib.lookup (String.ofList name)

/-- The kinds of I/O statements. -/
inductive IoKind
  | backspace | close | endfile | flush | inquire | open | print | read | rewind | wait | write
deriving DecidableEq, Repr

namespace IoKind

/-- The class name of a kind. -/
def cls : IoKind → String
  | backspace => "SgBackspaceStatement"
  | close => "SgCloseStatement"
  | endfile => "SgEndfileStatement"
  | flush => "SgFlushStatement"
  | inquire => "SgInquireStatement"
  | «open» => "SgOpenStatement"
  | print => "SgPrintStatement"
  | read => "SgReadStatement"
  | rewind => "SgRewindStatement"
  | wait => "SgWaitStatement"
  | write => "SgWriteStatement"

/-- All kinds. -/
def all : List IoKind :=
  [backspace, close, endfile, flush, inquire, «open», print, read, rewind, wait, write]

/-- The kind with a given class name. -/
def ofName (s : String) : Option IoKind := all.find? fun k => k.cls == s

/-- The kinds with a list of items. -/
def hasList : IoKind → Bool
  | inquire | print | read | write => true
  | _ => false

/-- The cases of the switch in the reader of a kind. -/
def cases : IoKind → List IostmtAttrib
  | close => [.UNIT, .IOSTAT, .ERR, .IOMSG, .STATUS]
  | inquire => [.IOLENGTH, .UNIT, .IOSTAT, .ERR, .IOMSG, .FILE, .ACCESS, .FORM, .RECL, .BLANK,
      .EXIST, .OPENED, .NUMBER, .NAMED, .NAME, .SEQUENTIAL, .DIRECT, .FORMATTED, .UNFORMATTED,
      .NEXTREC, .POSITION, .ACTION, .READ, .WRITE, .READWRITE, .DELIM, .PAD, .ASYNCHRONOUS,
      .DECIMAL, .STREAM, .SIZE, .PENDING]
  | «open» => [.UNIT, .IOSTAT, .ERR, .IOMSG, .FILE, .ACCESS, .FORM, .RECL, .BLANK, .POSITION,
      .ACTION, .DELIM, .PAD, .ASYNCHRONOUS, .STATUS, .ROUND, .SIGN]
  | print => [.FMT]
  | read => [.UNIT, .IOSTAT, .ERR, .IOMSG, .FMT, .REC, .END, .NML, .ADVANCE, .SIZE, .EOR,
      .ASYNCHRONOUS]
  | write => [.UNIT, .IOSTAT, .ERR, .IOMSG, .FMT, .REC, .ADVANCE, .NML, .ASYNCHRONOUS]
  | _ => [.UNIT, .IOSTAT, .ERR, .IOMSG]

/-- The kinds whose switch has a default branch that aborts. -/
def hasDefault (k : IoKind) : Bool := k ≠ inquire

/-- The start of the message about an unknown name. -/
def unknownName : IoKind → String
  | inquire => "unknown attribute \""
  | _ => "Unknown attribute \""

/-- The lines of the internal node writer of a kind: the name and the specifier
    whose expression is written under it. -/
def inode : IoKind → List (String × IostmtAttrib)
  | close => [("unit", .UNIT), ("iostat", .IOSTAT), ("err", .ERR), ("err", .IOMSG),
      ("status", .STATUS)]
  | inquire => [("iolength", .IOLENGTH), ("unit", .UNIT), ("iostat", .IOSTAT), ("err", .ERR),
      ("iomsg", .IOMSG), ("file", .FILE), ("access", .ACCESS), ("form", .FORM), ("recl", .RECL),
      ("blank", .BLANK), ("exist", .EXIST), ("opened", .OPENED), ("number", .NUMBER),
      ("named", .NAMED), ("name", .NAME), ("sequential", .SEQUENTIAL), ("direct", .DIRECT),
      ("formatted", .FORMATTED), ("unformatted", .UNFORMATTED), ("nextrec", .NEXTREC),
      ("position", .POSITION), ("action", .ACTION), ("read", .READ), ("write", .WRITE),
      ("readwrite", .READWRITE), ("delim", .DELIM), ("pad", .PAD),
      ("asynchronous", .ASYNCHRONOUS), ("decimal", .DECIMAL), ("stream", .STREAM),
      ("size", .SIZE), ("padding", .PENDING)]
  | «open» => [("unit", .UNIT), ("iostat", .IOSTAT), ("err", .ERR), ("file", .FILE),
      ("status", .STATUS), ("access", .ACCESS), ("form", .FORM), ("recl", .RECL),
      ("blank", .BLANK), ("position", .POSITION), ("action", .ACTION), ("delim", .DELIM),
      ("pad", .PAD), ("iomsg", .IOMSG), ("round", .ROUND), ("sign", .SIGN),
      ("asynchronous", .ASYNCHRONOUS)]
  | print => [("fmt", .FMT)]
  | read => [("unit", .UNIT), ("iostat", .IOSTAT), ("err", .ERR), ("iomsg", .IOMSG),
      ("fmt", .FMT), ("rec", .REC), ("end", .END), ("nml", .NML), ("advance", .ADVANCE),
      ("size", .SIZE), ("eor", .EOR), ("asynchronous", .ASYNCHRONOUS)]
  | write => [("unit", .UNIT), ("iostat", .IOSTAT), ("err", .ERR), ("iomsg", .IOMSG),
      ("fmt", .FMT), ("rec", .REC), ("advance", .ADVANCE), ("nml", .NML),
      ("asynchronous", .ASYNCHRONOUS)]
  | _ => [("unit", .UNIT), ("iostat", .IOSTAT), ("err", .ERR), ("iomsg", .IOMSG)]

theorem ofName_cls (k : IoKind) : ofName k.cls = some k := by
  cases k <;> decide

/-- The writer of a kind visits the specifiers that its reader knows. -/
theorem mem_inode_iff (k : IoKind) (a : IostmtAttrib) :
    a ∈ k.inode.map Prod.snd ↔ a ∈ k.cases := by
  have hall : ∀ l l' : List IostmtAttrib, l ⊆ l' ∧ l' ⊆ l → (a ∈ l ↔ a ∈ l') :=
    fun l l' h => ⟨fun ha => h.1 ha, fun ha => h.2 ha⟩
  cases k <;> exact hall _ _ (by decide)

end IoKind

/-- An I/O statement of kind `k`. Only the specifiers of its kind can be
    present, and only some kinds have a list of items. -/
@[ext]
structure IoStmt (F : Type) [FloatStream F] (k : IoKind) where
  label : Option CInt
  io_stmt_list : Option (Sg F .list)
  spec : IostmtAttrib → Option (Sg F .expr)
  specOfKind : ∀ a, a ∉ k.cases → spec a = none
  listOfKind : k.hasList = false → io_stmt_list = none

namespace IoStmt

variable {k : IoKind}

/-- The statement a reader starts with. -/
def new (k : IoKind) : IoStmt F k where
  label := none
  io_stmt_list := none
  spec _ := none
  specOfKind _ _ := rfl
  listOfKind _ := rfl

/-- Set a specifier. -/
def set (s : IoStmt F k) (a : IostmtAttrib) (ha : a ∈ k.cases) (e : Sg F .expr) : IoStmt F k :=
  { s with
    spec := Function.update s.spec a (some e)
    specOfKind := fun b hb => by
      have hne : b ≠ a := fun h => hb (h ▸ ha)
      rw [Function.update_of_ne hne]
      exact s.specOfKind b hb }

/-- Set the list of items. -/
def set_io_stmt_list (s : IoStmt F k) (h : k.hasList = true) (l : Sg F .list) : IoStmt F k :=
  { s with
    io_stmt_list := some l
    listOfKind := fun hk =>
      absurd hk (by rw [h]; simp only [Bool.true_eq_false, not_false_eq_true]) }

end IoStmt

/-- The argument in which a specifier is written, `TRAVERSE_IF_EXISTS`. -/
def traverseIfExists (fortran : Bool) (name : String) : Option (Sg F .expr) → Fragment
  | none => nothing
  | some x => write fortran (Sg.actualArgumentExpression name.toList false x)

/-- The arguments in which the specifiers are written. -/
def traverseAll (fortran : Bool) (spec : IostmtAttrib → Option (Sg F .expr)) :
    List (String × IostmtAttrib) → Fragment
  | [] => nothing
  | w :: ws => both (traverseIfExists fortran w.1 (spec w.2)) (traverseAll fortran spec ws)

/-- The list of items. -/
def writeList (fortran : Bool) : Option (Sg F .list) → Fragment
  | none => nothing
  | some l => write fortran l

/-- Writer of an I/O statement. -/
def writeIo (fortran : Bool) {k : IoKind} (s : IoStmt F k) : Except Fatal Xml := do
  let children ← both (writeList fortran s.io_stmt_list) (traverseAll fortran s.spec k.inode)
  return .elem k.cls (attribSgStatement s.label) children

/-- Whether an expression is a variable. -/
def isSgVarRefExp : Sg F .expr → Bool
  | .varRefExp _ _ _ => true
  | _ => false

/-- Reader of an argument. -/
def visitArg {k : IoKind} (ret : IoStmt F k) (name : Text) (exp : Sg F .expr) :
    Except Fatal (IoStmt F k) :=
  match iostmtAttrib name with
  | none => .error (.fatal (k.unknownName ++ String.ofList name ++ "\" "))
  | some flg =>
      if h : flg ∈ k.cases then
        if flg = .IOLENGTH ∧ isSgVarRefExp exp = false then
          .error (.missingNode k.cls "SgVarRefExp")
        else .ok (ret.set flg h exp)
      else if k.hasDefault then
        .error (.fatal ("Invalid attribute \"" ++ String.ofList name ++ "\" "))
      else .ok ret

/-- The loop body of a reader: the first list is the list of items, and
    arguments are specifiers. -/
def ioStep {k : IoKind} (ret : IoStmt F k) (astchild : Node F) : Except Fatal (IoStmt F k) :=
  match astchild with
  | .expr (.actualArgumentExpression name _ exp) => visitArg ret name exp
  | .expr (.ofList l) =>
      if h : k.hasList = true ∧ ret.io_stmt_list.isNone = true then .ok (ret.set_io_stmt_list h.1 l)
      else .ok ret
  | _ => .ok ret

/-- The loop of a reader over the element children. -/
def readIo {k : IoKind} (ret : IoStmt F k) : List Xml → Except Fatal (IoStmt F k)
  | [] => .ok ret
  | .elem name attrs children :: rest => do
      let astchild ← visit true (.elem name attrs children)
      let ret ← ioStep ret astchild
      readIo ret rest
  | .text _ :: rest => readIo ret rest
  | .comment _ :: rest => readIo ret rest

/-- Reader of I/O statements. -/
def visitIo : Xml → Except Fatal (Σ k, IoStmt F k)
  | .elem name attrs children =>
      match IoKind.ofName name with
      | none => .error (.fatal ("unknown AST node found: " ++ name))
      | some k => do
          let ret ← readIo (IoStmt.new k) children
          return ⟨k, { ret with label := checkStatement attrs }⟩
  | .text _ => .error (.fatal "unknown AST node found: #text")
  | .comment _ => .error (.fatal "unknown AST node found: #comment")

/-- The writer of I/O statements followed by the reader. -/
def roundTripIo (fortran : Bool) {k : IoKind} (s : IoStmt F k) : Except Fatal (Σ k, IoStmt F k) :=
  writeIo fortran s >>= visitIo

section Names

/-- All names but two lead to the specifier they are written for. -/
theorem name_of_inode (k : IoKind) : ∀ w ∈ k.inode, iostmtAttrib w.1.toList = some w.2 ∨
    (k = .close ∧ w = ("err", .IOMSG)) ∨ (k = .inquire ∧ w = ("padding", .PENDING)) := by
  cases k <;> decide +kernel

/-- A name of the writer leads to a specifier of the kind, if to any. -/
theorem known_of_inode {k : IoKind} {w : String × IostmtAttrib} (hw : w ∈ k.inode)
    {flg : IostmtAttrib} (h : iostmtAttrib w.1.toList = some flg) : flg ∈ k.cases := by
  rcases name_of_inode k w hw with hname | ⟨rfl, rfl⟩ | ⟨rfl, rfl⟩
  · obtain rfl := Option.some.inj (hname.symm.trans h)
    exact (k.mem_inode_iff _).mp (List.mem_map.mpr ⟨w, hw, rfl⟩)
  · have herr : iostmtAttrib "err".toList = some .ERR := by decide +kernel
    obtain rfl := Option.some.inj (herr.symm.trans h)
    decide
  · have hnone : iostmtAttrib "padding".toList = none := by decide +kernel
    exact absurd (hnone.symm.trans h) (by simp only [reduceCtorEq, not_false_eq_true])

/-- No name leads to the two specifiers whose names do not. -/
theorem own_name {k : IoKind} {w v : String × IostmtAttrib} (hw : w ∈ k.inode) (hv : v ∈ k.inode)
    (h : iostmtAttrib v.1.toList = some w.2) : iostmtAttrib w.1.toList = some w.2 := by
  have hclose : ∀ v ∈ IoKind.close.inode, iostmtAttrib v.1.toList ≠ some .IOMSG := by
    decide +kernel
  have hinquire : ∀ v ∈ IoKind.inquire.inode, iostmtAttrib v.1.toList ≠ some .PENDING := by
    decide +kernel
  rcases name_of_inode k w hw with hname | ⟨rfl, rfl⟩ | ⟨rfl, rfl⟩
  · exact hname
  · exact absurd h (hclose v hv)
  · exact absurd h (hinquire v hv)

end Names

section Reading

variable {k : IoKind}

/-- The table of names as the reader of a kind uses it. -/
def argTable (k : IoKind) (name : String) (exp : Sg F .expr) : Option IostmtAttrib :=
  (iostmtAttrib name.toList).bind fun flg =>
    if flg ∈ k.cases ∧ ¬ (flg = .IOLENGTH ∧ isSgVarRefExp exp = false) then some flg else none

theorem iostmtAttrib_of_argTable {name : String} {exp : Sg F .expr} {a : IostmtAttrib}
    (h : argTable k name exp = some a) : iostmtAttrib name.toList = some a := by
  obtain ⟨flg, hflg, hif⟩ := Option.bind_eq_some_iff.mp h
  split at hif
  · rw [hflg, hif]
  · exact absurd hif (by simp only [reduceCtorEq, not_false_eq_true])

/-- The node an argument is read as. -/
def argNode (p : String × Sg F .expr) : Node F :=
  .expr (.actualArgumentExpression p.1.toList false p.2)

/-- The reader visits the children and then works on what they delivered. -/
theorem readIo_toOption (ret : IoStmt F k) (xs : List Xml) :
    (readIo ret xs).toOption =
      (visitAll true xs).toOption.bind fun ns => (ns.foldlM ioStep ret).toOption := by
  induction xs generalizing ret with
  | nil => rfl
  | cons x xs ih =>
      cases x with
      | elem name attrs children =>
          simp only [readIo, visitAll, toOption_bind, ih, Option.bind_assoc, toOption_pure,
            Option.bind_some, List.foldlM_cons]
          refine Option.bind_congr fun n _ => ?_
          -- Whether the other children are visited before or after this one
          -- is looked at makes no difference to the outcome.
          cases (visitAll (F := F) true xs).toOption with
          | none => cases (ioStep ret n).toOption <;> rfl
          | some ns => rfl
      | text t => simpa only [readIo, visitAll] using ih ret
      | comment t => simpa only [readIo, visitAll] using ih ret

/-- One argument, if the reader of the kind knows its specifier. -/
theorem visitArg_eq (ret : IoStmt F k) (name : String) (exp : Sg F .expr)
    (hknown : ∀ flg, iostmtAttrib name.toList = some flg → flg ∈ k.cases) :
    (argTable k name exp = none ∧ (visitArg ret name.toList exp).toOption = none) ∨
      ∃ flg, ∃ h : flg ∈ k.cases, argTable k name exp = some flg ∧
        visitArg ret name.toList exp = .ok (ret.set flg h exp) := by
  unfold argTable visitArg
  cases hname : iostmtAttrib name.toList with
  | none => exact Or.inl ⟨rfl, rfl⟩
  | some flg =>
      have hflg := hknown flg hname
      by_cases hvar : flg = .IOLENGTH ∧ isSgVarRefExp exp = false
      · left
        simp [hvar, (hvar.1 ▸ hflg : IostmtAttrib.IOLENGTH ∈ k.cases)]
      · right
        exact ⟨flg, hflg, by simp [hflg, hvar], by simp [hflg, hvar]⟩

/-- The arguments of a statement are read through the table. -/
theorem foldlM_argNode (ret s : IoStmt F k) (l : List (String × Sg F .expr))
    (hknown : ∀ p ∈ l, ∀ flg, iostmtAttrib p.1.toList = some flg → flg ∈ k.cases) :
    ((l.map argNode).foldlM ioStep ret).toOption = some s ↔
      s.label = ret.label ∧ s.io_stmt_list = ret.io_stmt_list ∧
        Table.readBack (argTable k) ret.spec l = some s.spec := by
  induction l generalizing ret with
  | nil =>
      have hpure : ((pure ret : Except Fatal (IoStmt F k))).toOption = some ret := rfl
      simp only [List.map_nil, List.foldlM_nil, hpure, Table.readBack, Option.some.injEq,
        IoStmt.ext_iff]
      grind
  | cons p l ih =>
      have htail : ∀ q ∈ l, ∀ flg, iostmtAttrib q.1.toList = some flg → flg ∈ k.cases :=
        fun q hq => hknown q (List.mem_cons_of_mem _ hq)
      have hstep : ioStep ret (argNode p) = visitArg ret p.1.toList p.2 := rfl
      rw [List.map_cons, List.foldlM_cons, toOption_bind, hstep, Table.readBack]
      rcases visitArg_eq ret p.1 p.2 (hknown p List.mem_cons_self) with
        ⟨htable, hfail⟩ | ⟨flg, hflg, htable, hok⟩
      · simp [htable, hfail]
      · rw [htable, hok, toOption_ok, Option.bind_some, Option.bind_some, ih _ htail]
        rfl

/-- The arguments the specifiers are written in come back as arguments. -/
theorem reread_traverseAll (fortran : Bool) (spec : IostmtAttrib → Option (Sg F .expr))
    (ws : List (String × IostmtAttrib)) :
    reread true (traverseAll fortran spec ws) =
      attached (ws.all fun w => (spec w.2).all (readable fortran true))
        ((Table.written ws fun a => (spec a).map (normal fortran)).map argNode) := by
  induction ws with
  | nil => rfl
  | cons w ws ih =>
      rw [traverseAll, reread_both, ih]
      cases hw : spec w.2 with
      | none => 
          rw [Table.written_cons_none _ _ _ (by rw [hw]; rfl)]
          simp [traverseIfExists, hw]
      | some e =>
          rw [Table.written_cons_some _ _ _ (by rw [hw]; rfl)]
          simp [traverseIfExists, hw, reread_write, back_eq, readable, normal, argNode, toNodes]

/-- The list of items comes back as a list. -/
theorem reread_writeList (fortran : Bool) (l : Option (Sg F .list)) :
    reread true (writeList fortran l) =
      attached (l.all (readable fortran true))
        ((l.map (normal fortran)).toList.map fun l => Node.expr (.ofList l)) := by
  cases l with
  | none => rfl
  | some l => simp [writeList, reread_write, back_eq, toNodes]

/-- The reader takes the list that comes first for the list of items. -/
theorem foldlM_list (ret : IoStmt F k) (l : Option (Sg F .list)) (ns : List (Node F))
    (hlist : k.hasList = false → l = none) (hnone : ret.io_stmt_list = none) :
    ((l.toList.map fun l => Node.expr (.ofList l)) ++ ns).foldlM ioStep ret =
      ns.foldlM ioStep { ret with io_stmt_list := l, listOfKind := hlist } := by
  cases l with
  | none =>
      obtain ⟨label, list, spec, hspec, hk⟩ := ret
      obtain rfl : list = none := hnone
      rfl
  | some l =>
      have hk : k.hasList = true := by
        cases h : k.hasList with
        | false => exact absurd (hlist h) (by simp only [reduceCtorEq, not_false_eq_true])
        | true => rfl
      simp [ioStep, hk, hnone, IoStmt.set_io_stmt_list]
      rfl

end Reading

section RoundTrip

variable (fortran : Bool) {k : IoKind}

/-- The specifiers that are read, if their names lead to them. -/
def normalSpec (spec : IostmtAttrib → Option (Sg F .expr)) : IostmtAttrib → Option (Sg F .expr) :=
  fun a => (spec a).map (normal fortran)

/-- All expressions of a statement can be read. -/
def IoStmt.Readable (s : IoStmt F k) : Prop :=
  s.io_stmt_list.all (readable fortran true) = true ∧
    (k.inode.all fun w => (s.spec w.2).all (readable fortran true)) = true

/-- What the round trip of a statement delivers. -/
theorem roundTripIo_eq_iff (s s' : IoStmt F k) :
    roundTripIo fortran s = .ok ⟨k, s'⟩ ↔
      s.Readable fortran ∧ s'.label = s.label ∧
        s'.io_stmt_list = s.io_stmt_list.map (normal fortran) ∧
        Table.readBack (argTable k) (fun _ => none)
          (Table.written k.inode (normalSpec fortran s.spec)) = some s'.spec := by
  have hnodes : reread true (both (writeList fortran s.io_stmt_list)
      (traverseAll fortran s.spec k.inode)) =
      attached (s.io_stmt_list.all (readable fortran true) &&
          (k.inode.all fun w => (s.spec w.2).all (readable fortran true)))
        (((s.io_stmt_list.map (normal fortran)).toList.map fun l => Node.expr (.ofList l)) ++
          (Table.written k.inode (normalSpec fortran s.spec)).map argNode) := by
    rw [reread_both, reread_writeList, reread_traverseAll]
    simp only [Option.bind_eq_bind, Option.pure_def, attached_bind_some, attached_bind_attached]
    rfl
  have hround : (roundTripIo fortran s).toOption = (reread true
      (both (writeList fortran s.io_stmt_list) (traverseAll fortran s.spec k.inode))).bind
        fun ns => (ns.foldlM ioStep (IoStmt.new k)).toOption.map
          fun ret => ⟨k, { ret with label := s.label }⟩ := by
    have hlabel : checkStatement (attribSgStatement s.label) = s.label := by
      cases s.label with
      | none => rfl
      | some l => simp [checkStatement, attribSgStatement, getString, Numeral.Machine.read_print]
    unfold roundTripIo writeIo reread
    simp only [toOption_bind, toOption_pure, Option.bind_some, Option.bind_assoc, visitIo,
      IoKind.ofName_cls, readIo_toOption, Option.map_eq_bind, hlabel]
    rfl
  have hok : roundTripIo fortran s = .ok ⟨k, s'⟩ ↔
      (roundTripIo fortran s).toOption = some ⟨k, s'⟩ := by
    cases roundTripIo fortran s <;> simp
  have hlist : k.hasList = false → s.io_stmt_list.map (normal fortran) = none := fun h => by
    rw [s.listOfKind h, Option.map_none]
  have hknown : ∀ p ∈ Table.written k.inode (normalSpec fortran s.spec), ∀ flg,
      iostmtAttrib p.1.toList = some flg → flg ∈ k.cases := by
    intro p hp flg hflg
    obtain ⟨w, hw, hname, -⟩ := (Table.mem_written _ _).mp hp
    exact known_of_inode hw (hname ▸ hflg)
  rw [hok, hround, hnodes, IoStmt.Readable]
  -- An operand that cannot be read back stops the statement as a whole.
  cases hread : (s.io_stmt_list.all (readable fortran true) &&
      (k.inode.all fun w => (s.spec w.2).all (readable fortran true))) with
  | false =>
      refine iff_of_false (by simp [attached]) fun h => ?_
      rw [h.1.1, h.1.2] at hread
      exact absurd hread (by decide)
  | true =>
      rw [Bool.and_eq_true] at hread
      rw [attached_true, Option.bind_some, foldlM_list _ _ _ hlist rfl,
        Option.map_eq_some_iff]
      simp only [foldlM_argNode _ _ _ hknown, Sigma.mk.injEq, heq_eq_eq, true_and, hread, and_self]
      constructor
      · rintro ⟨ret, ⟨-, hret, htable⟩, rfl⟩
        exact ⟨rfl, hret, htable⟩
      · rintro ⟨hl, hret, htable⟩
        refine ⟨{ s' with label := none }, ⟨rfl, hret, htable⟩, ?_⟩
        exact IoStmt.ext hl.symm rfl rfl

/-- The statements that come back unchanged: all expressions do by themselves,
    the specifiers with a wrong name are absent, and the length of an inquire
    statement goes to a variable. -/
def IoStmt.Kept (s : IoStmt F k) : Prop :=
  (∀ l, s.io_stmt_list = some l → readable fortran true l = true ∧ XevXml.Kept fortran .full l) ∧
    (∀ a e, s.spec a = some e → readable fortran true e = true ∧ XevXml.Kept fortran .full e) ∧
    (k = .close → s.spec .IOMSG = none) ∧
    (k = .inquire → s.spec .PENDING = none ∧
      ∀ e, s.spec .IOLENGTH = some e → isSgVarRefExp e = true)

theorem isSgVarRefExp_normal (e : Sg F .expr) :
    isSgVarRefExp (normal fortran e) = isSgVarRefExp e := by
  cases e <;> rfl

/-- The names of a statement are right if the wrong ones are not used. -/
theorem faithful_iff (s : IoStmt F k) :
    Table.Faithful k.inode (argTable k) (normalSpec fortran s.spec) ↔
      (k = .close → s.spec .IOMSG = none) ∧
        (k = .inquire → s.spec .PENDING = none ∧
          ∀ e, s.spec .IOLENGTH = some e → isSgVarRefExp e = true) := by
  have hpresent : ∀ a e, s.spec a = some e →
      normalSpec fortran s.spec a = some (normal fortran e) := fun a e he => by
    rw [normalSpec, he, Option.map_some]
  constructor
  · intro h
    refine ⟨?_, ?_⟩
    · rintro rfl
      by_contra hmsg
      obtain ⟨e, he⟩ := Option.ne_none_iff_exists'.mp hmsg
      have hname := iostmtAttrib_of_argTable (h ("err", .IOMSG) (by decide) _ (hpresent _ _ he))
      exact absurd hname (by decide +kernel)
    · rintro rfl
      refine ⟨?_, fun e he => ?_⟩
      · by_contra hpend
        obtain ⟨e, he⟩ := Option.ne_none_iff_exists'.mp hpend
        have hname :=
          iostmtAttrib_of_argTable (h ("padding", .PENDING) (by decide) _ (hpresent _ _ he))
        exact absurd hname (by decide +kernel)
      · have hw := h ("iolength", .IOLENGTH) (by decide) _ (hpresent _ _ he)
        have hname : iostmtAttrib "iolength".toList = some .IOLENGTH := by decide +kernel
        rw [argTable, hname, Option.bind_some] at hw
        split at hw
        · rename_i hcase
          rw [isSgVarRefExp_normal] at hcase
          simpa using hcase.2
        · exact absurd hw (by simp only [reduceCtorEq, not_false_eq_true])
  · rintro ⟨hclose, hinquire⟩ w hw b hb
    have hcases := (k.mem_inode_iff w.2).mp (List.mem_map.mpr ⟨w, hw, rfl⟩)
    obtain ⟨e, he, rfl⟩ := Option.map_eq_some_iff.mp hb
    -- Two specifiers are written under a name that they are not read by.
    rcases name_of_inode k w hw with hname | ⟨rfl, rfl⟩ | ⟨rfl, rfl⟩
    · have hvar : ¬ (w.2 = .IOLENGTH ∧ isSgVarRefExp (normal fortran e) = false) := by
        rintro ⟨hlen, hno⟩
        have hkind : ∀ k : IoKind, .IOLENGTH ∈ k.cases → k = .inquire := by
          intro k
          cases k <;> decide
        have hvar := (hinquire (hkind k (hlen ▸ hcases))).2 e (hlen ▸ he)
        rw [isSgVarRefExp_normal, hvar] at hno
        exact absurd hno (by decide)
      rw [argTable, hname, Option.bind_some, if_pos ⟨hcases, hvar⟩]
    · rw [hclose rfl] at he
      exact absurd he (by simp only [reduceCtorEq, not_false_eq_true])
    · rw [(hinquire rfl).1] at he
      exact absurd he (by simp only [reduceCtorEq, not_false_eq_true])

/-- The record that is read has the specifiers of the statement exactly if the
    names are right and all expressions come back unchanged. -/
theorem readBack_spec_iff (s : IoStmt F k) :
    Table.readBack (argTable k) (fun _ => none)
        (Table.written k.inode (normalSpec fortran s.spec)) = some s.spec ↔
      Table.Faithful k.inode (argTable k) (normalSpec fortran s.spec) ∧
        ∀ a e, s.spec a = some e → XevXml.Kept fortran .full e := by
  have hfields : ∀ a, s.spec a = none ↔ normalSpec fortran s.spec a = none := fun a => by
    rw [normalSpec, Option.map_eq_none_iff]
  have hcover : ∀ a, normalSpec fortran s.spec a ≠ none → a ∈ k.inode.map Prod.snd := by
    intro a ha
    rw [k.mem_inode_iff]
    by_contra hout
    exact ha ((hfields a).mp (s.specOfKind a hout))
  have hown : ∀ w ∈ k.inode, ∀ v ∈ k.inode, ∀ (b b' : Sg F .expr) c,
      argTable k v.1 b' = some w.2 → argTable k w.1 b = some c → c = w.2 := by
    intro w hw v hv b b' c hvw hwc
    have hself := own_name hw hv (iostmtAttrib_of_argTable hvw)
    exact Option.some.inj ((iostmtAttrib_of_argTable hwc).symm.trans hself)
  have heq : normalSpec fortran s.spec = s.spec ↔
      ∀ a e, s.spec a = some e → XevXml.Kept fortran .full e := by
    rw [funext_iff]
    refine forall_congr' fun a => ?_
    unfold normalSpec
    cases hs : s.spec a with
    | none => simp
    | some e => simp [normal_eq_self_iff]
  rw [Table.readBack_written_iff hcover hown hfields, heq]

/-- A statement comes back with the same specifiers, the same expressions and
    the same list of items exactly if it is one of those described by `Kept`. -/
theorem io_survives_iff (fortran : Bool) {k : IoKind} (s : IoStmt F k) :
    roundTripIo fortran s = .ok ⟨k, s⟩ ↔ s.Kept fortran := by
  rw [roundTripIo_eq_iff, readBack_spec_iff, faithful_iff, IoStmt.Readable, IoStmt.Kept]
  have hlist : s.io_stmt_list.all (readable fortran true) = true ∧
      s.io_stmt_list = s.io_stmt_list.map (normal fortran) ↔
      ∀ l, s.io_stmt_list = some l → readable fortran true l = true ∧
        XevXml.Kept fortran .full l := by
    cases s.io_stmt_list with
    | none => simp
    | some l => simp [eq_comm (a := l), normal_eq_self_iff]
  have hspec : (k.inode.all fun w => (s.spec w.2).all (readable fortran true)) = true ↔
      ∀ a e, s.spec a = some e → readable fortran true e = true := by
    rw [List.all_eq_true]
    constructor
    · intro h a e he
      have ha : a ∈ k.inode.map Prod.snd := by
        rw [k.mem_inode_iff]
        by_contra hout
        rw [s.specOfKind a hout] at he
        exact absurd he (by simp only [reduceCtorEq, not_false_eq_true])
      obtain ⟨w, hw, rfl⟩ := List.mem_map.mp ha
      simpa [he] using h w hw
    · intro h w hw
      cases he : s.spec w.2 with
      | none => rfl
      | some e => exact h w.2 e he
  rw [← hlist, hspec]
  constructor
  · rintro ⟨⟨hl, hs⟩, -, heq, ⟨hclose, hinquire⟩, hkept⟩
    exact ⟨⟨hl, heq⟩, fun a e he => ⟨hs a e he, hkept a e he⟩, hclose, hinquire⟩
  · rintro ⟨⟨hl, heq⟩, hs, hclose, hinquire⟩
    exact ⟨⟨hl, fun a e he => (hs a e he).1⟩, rfl, heq, ⟨hclose, hinquire⟩,
      fun a e he => (hs a e he).2⟩

end RoundTrip

section Examples

/-- A close statement whose only specifier is the given one. -/
def closeWith (a : IostmtAttrib) (ha : a ∈ IoKind.close.cases) : IoStmt Int .close :=
  (IoStmt.new .close).set a ha (.varRefExp ['m'] false .noExpr)

/-- The statement `close(iomsg=m)` comes back as `close(err=m)`. -/
theorem close_iomsg_not_kept :
    roundTripIo true (closeWith .IOMSG (by decide)) =
        .ok ⟨.close, closeWith .ERR (by decide)⟩ ∧
      roundTripIo true (closeWith .IOMSG (by decide)) ≠
        .ok ⟨.close, closeWith .IOMSG (by decide)⟩ := by
  have hround : roundTripIo true (closeWith .IOMSG (by decide)) =
      .ok ⟨.close, closeWith .ERR (by decide)⟩ := by
    refine (roundTripIo_eq_iff true _ _).mpr ⟨⟨rfl, by decide⟩, rfl, rfl, ?_⟩
    have hwritten : Table.written IoKind.close.inode
        (normalSpec true (closeWith .IOMSG (by decide)).spec) =
          [("err", .varRefExp ['m'] false .noExpr)] := rfl
    have herr : argTable (F := Int) .close "err" (.varRefExp ['m'] false .noExpr) =
        some .ERR := by
      have hname : iostmtAttrib "err".toList = some .ERR := by decide +kernel
      rw [argTable, hname]
      rfl
    rw [hwritten, Table.readBack, herr, Option.bind_some, Table.readBack]
    rfl
  refine ⟨hround, fun h => ?_⟩
  have hspec := congrArg (fun s : Σ k, IoStmt Int k => s.2.spec .IOMSG)
    (Except.ok.inj (hround.symm.trans h))
  exact absurd hspec (by simp [closeWith, IoStmt.set, IoStmt.new])

end Examples

end XevXml
