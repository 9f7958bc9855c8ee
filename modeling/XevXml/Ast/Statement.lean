import XevXml.Ast.IoStatement

/-!
# Control Statements

The statements with a condition and a body: branches, loops, and the masked
assignments of Fortran. What they have in common is a head, which becomes the
attributes of the element, and a row of parts, which become its children. A
part may be missing. The reader shows the children to the slots of the row one
by one, each slot with a test of its own, and afterwards insists on some of the
slots.

The heads differ in their labels. A statement may have a name, which is a
string, and a numeric label behind its end; these are not the numeric label in
front of the statement, which every statement may have. The writer of a while
loop puts down the end label or the name, never both, and the reader takes the
name or the end label. The writer of a where statement puts down both, but its
reader does not look for the end label. Switches and while loops are read with
labels in Fortran only.

Statements of other classes are a parameter with a writer and a reader of its
own. Names and labels are identifiers, which need no escaping.

## Main definitions

* `OtherStmt`: The interface of the other statements.
* `Head`, `HeadCls`: Heads of statements and their classes.
* `St`: Statements, with their parts and sequences.
* `attribSgIfStmt` and its companions: The attributes of a head.
* `visitSgIfStmt` and its companions: The head that attributes are read as.
* `HeadCls.tests`: The tests for the parts of a class.
* `HeadCls.check`: The parts a class insists on.
* `writeSt`: The writer.
* `visitSt`, `visitSts`: The reader.
-/

namespace XevXml

variable {F : Type} [FloatStream F]

/-- Classes of statements with a head and a row of parts. -/
inductive HeadCls
  | exprStatement | ifStmt | whileStmt | fortranDo | switchStatement | whereStatement
  | elseWhereStatement
deriving DecidableEq, Repr

/-- The head of a statement: everything but its parts and its numeric label. -/
inductive Head
  | exprStatement
  | ifStmt (has_end_statement use_then_keyword : Bool)
      (end_numeric_label else_numeric_label : Option CInt) (string_label : Text)
  | whileStmt (has_end_statement : Bool) (end_numeric_label : Option CInt) (string_label : Text)
  | fortranDo (old_style has_end_statement : Bool) (end_numeric_label : Option CInt)
      (string_label : Text)
  | switchStatement (end_numeric_label : Option CInt) (string_label : Text)
  | whereStatement (has_end_statement : Bool) (string_label : Text)
      (end_numeric_label : Option CInt)
  | elseWhereStatement
deriving DecidableEq

namespace HeadCls

/-- The name of a class. -/
def name : HeadCls → String
  | exprStatement => "SgExprStatement"
  | ifStmt => "SgIfStmt"
  | whileStmt => "SgWhileStmt"
  | fortranDo => "SgFortranDo"
  | switchStatement => "SgSwitchStatement"
  | whereStatement => "SgWhereStatement"
  | elseWhereStatement => "SgElseWhereStatement"

/-- All classes. -/
def all : List HeadCls :=
  [exprStatement, ifStmt, whileStmt, fortranDo, switchStatement, whereStatement,
    elseWhereStatement]

/-- The class with a given name. -/
def ofName (s : String) : Option HeadCls := all.find? fun c => c.name == s

theorem ofName_name (c : HeadCls) : ofName c.name = some c := by
  cases c <;> decide

end HeadCls

/-- The class of a head. -/
def Head.cls : Head → HeadCls
  | exprStatement => .exprStatement
  | ifStmt .. => .ifStmt
  | whileStmt .. => .whileStmt
  | fortranDo .. => .fortranDo
  | switchStatement .. => .switchStatement
  | whereStatement .. => .whereStatement
  | elseWhereStatement => .elseWhereStatement

/-- The name of a block. -/
def basicBlockName : String := "SgBasicBlock"

/-- The names of classes whose elements are read here. -/
def known (name : String) : Bool :=
  (HeadCls.ofName name).isSome || name == basicBlockName || (Cls.ofName name).isSome

/-- Statements of other classes: the name of the element, its attributes and
    children, and the reader. -/
class OtherStmt (O : Type) where
  name : O → String
  write : Bool → O → Except Fatal (Attrs × List Xml)
  visit : Bool → String → Attrs → List Xml → Except Fatal O
  foreign : ∀ o, known (name o) = false

/-- The sorts of statement trees. -/
inductive StSrt
  | part | parts | row
deriving DecidableEq, Repr

/-- Statements, with their parts and sequences. A part of a statement may be
    an expression as well. -/
inductive St (F O : Type) [FloatStream F] : StSrt → Type
  | sg (n : Node F) : St F O .part
  | compound (label : Option CInt) (head : Head) (row : St F O .row) : St F O .part
  | basicBlock (label : Option CInt) (stmts : St F O .parts) : St F O .part
  | other (o : O) : St F O .part
  | nil : St F O .parts
  | cons (p : St F O .part) (ps : St F O .parts) : St F O .parts
  | noRow : St F O .row
  | absent (row : St F O .row) : St F O .row
  | present (p : St F O .part) (row : St F O .row) : St F O .row

variable {O : Type}

namespace St

/-- What the tests of the reader can tell apart. -/
inductive Kind
  | expr | exprStatement | basicBlock | elseWhereStatement | statement | none
deriving DecidableEq, Repr

/-- The kind of a part. -/
def kind : St F O .part → Kind
  | sg (.expr _) => .expr
  | sg _ => .none
  | compound _ .exprStatement _ => .exprStatement
  | compound _ .elseWhereStatement _ => .elseWhereStatement
  | compound _ _ _ => .statement
  | basicBlock _ _ => .basicBlock
  | other _ => .statement

/-- Whether a part is an expression. -/
def isSgExpression (p : St F O .part) : Bool := p.kind = .expr

/-- Whether a part is a statement. -/
def isSgStatement (p : St F O .part) : Bool := p.kind ≠ .expr ∧ p.kind ≠ .none

/-- Whether a part is an expression statement. -/
def isSgExprStatement (p : St F O .part) : Bool := p.kind = .exprStatement

/-- Whether a part is a block. -/
def isSgBasicBlock (p : St F O .part) : Bool := p.kind = .basicBlock

/-- Whether a part is the else part of a where statement. -/
def isSgElseWhereStatement (p : St F O .part) : Bool := p.kind = .elseWhereStatement

/-- The parts of a sequence. -/
def toList : {s : StSrt} → St F O s → List (St F O .part)
  | _, cons p ps => p :: toList ps
  | _, _ => []

/-- The slots of a row. -/
def slots : {s : StSrt} → St F O s → List (Option (St F O .part))
  | _, absent row => none :: slots row
  | _, present p row => some p :: slots row
  | _, _ => []

/-- The sequence of a list of parts. -/
def ofList : List (St F O .part) → St F O .parts
  | [] => nil
  | p :: ps => cons p (ofList ps)

/-- The row of a list of slots. -/
def ofSlots : List (Option (St F O .part)) → St F O .row
  | [] => noRow
  | none :: slots => absent (ofSlots slots)
  | some p :: slots => present p (ofSlots slots)

end St

section Attributes

/-- An optional numeric label. -/
def labelAttr (name : String) : Option CInt → Attrs
  | none => []
  | some l => [(name, l.print)]

/-- A name, unless it is empty. -/
def slabelAttr (s : Text) : Attrs := if 0 < s.length then [("slabel", s)] else []

/-- A numeric label that is read whenever the attribute is there. -/
def getLabel (node : Attrs) (name : String) : Option CInt :=
  (getString node name).map (Numeral.Machine.read intFormat)

/-- A numeric label that is read unless it is zero. -/
def getNonzeroLabel (node : Attrs) (name : String) : Option CInt :=
  (getLabel node name).filter fun l => decide (l.1 ≠ 0)

/-- A name. -/
def getSlabel (node : Attrs) : Text := (getString node "slabel").getD []

/-- Attributes of an if statement. -/
def attribSgIfStmt (has_end_statement use_then_keyword : Bool)
    (end_numeric_label else_numeric_label : Option CInt) (string_label : Text) : Attrs :=
  ("end", flagText has_end_statement) :: ("then", flagText use_then_keyword) ::
    (labelAttr "elabel" end_numeric_label ++ labelAttr "ellabel" else_numeric_label ++
      slabelAttr string_label)

/-- Attributes of a while loop. -/
def attribSgWhileStmt (fortran : Bool) (has_end_statement : Bool)
    (end_numeric_label : Option CInt) (string_label : Text) : Attrs :=
  if fortran then
    ("end", flagText has_end_statement) ::
      match end_numeric_label with
      | some l => [("elabel", l.print)]
      | none => [("slabel", string_label)]
  else []

/-- Attributes of a DO loop. -/
def attribSgFortranDo (old_style has_end_statement : Bool) (end_numeric_label : Option CInt)
    (string_label : Text) : Attrs :=
  ("style", flagText old_style) :: ("end", flagText has_end_statement) ::
    (labelAttr "elabel" end_numeric_label ++ slabelAttr string_label)

/-- Attributes of a switch. -/
def attribSgSwitchStatement (end_numeric_label : Option CInt) (string_label : Text) : Attrs :=
  labelAttr "elabel" end_numeric_label ++ slabelAttr string_label

/-- Attributes of a where statement. -/
def attribSgWhereStatement (has_end_statement : Bool) (string_label : Text)
    (end_numeric_label : Option CInt) : Attrs :=
  ("end", flagText has_end_statement) ::
    (slabelAttr string_label ++ labelAttr "elabel" end_numeric_label)

/-- Attributes of a head. -/
def Head.attrib (fortran : Bool) : Head → Attrs
  | exprStatement => []
  | ifStmt has_end_statement use_then_keyword end_numeric_label else_numeric_label string_label =>
      attribSgIfStmt has_end_statement use_then_keyword end_numeric_label else_numeric_label
        string_label
  | whileStmt has_end_statement end_numeric_label string_label =>
      attribSgWhileStmt fortran has_end_statement end_numeric_label string_label
  | fortranDo old_style has_end_statement end_numeric_label string_label =>
      attribSgFortranDo old_style has_end_statement end_numeric_label string_label
  | switchStatement end_numeric_label string_label =>
      attribSgSwitchStatement end_numeric_label string_label
  | whereStatement has_end_statement string_label end_numeric_label =>
      attribSgWhereStatement has_end_statement string_label end_numeric_label
  | elseWhereStatement => []

/-- The head of an if statement: both flags are set by default. -/
def visitSgIfStmt (node : Attrs) : Head :=
  let ukey := (getInt node "then").getD 1
  let estmt := (getInt node "end").getD 1
  .ifStmt (estmt ≠ 0) (ukey ≠ 0) (getLabel node "elabel") (getLabel node "ellabel")
    (getSlabel node)

/-- The head of a while loop. -/
def visitSgWhileStmt (fortran : Bool) (node : Attrs) : Head :=
  if fortran then
    let slabel := getSlabel node
    if 0 < slabel.length then .whileStmt (getFlag node "end") none slabel
    else .whileStmt (getFlag node "end") (getNonzeroLabel node "elabel") []
  else .whileStmt false none []

/-- The head of a DO loop. -/
def visitSgFortranDo (node : Attrs) : Head :=
  .fortranDo (getFlag node "style") (getFlag node "end") (getNonzeroLabel node "elabel")
    (getSlabel node)

/-- The head of a switch. -/
def visitSgSwitchStatement (fortran : Bool) (node : Attrs) : Head :=
  if fortran then .switchStatement (getLabel node "elabel") (getSlabel node)
  else .switchStatement none []

/-- The head of a where statement. -/
def visitSgWhereStatement (node : Attrs) : Head :=
  .whereStatement (getFlag node "end") (getSlabel node) none

/-- The head that attributes are read as. -/
def HeadCls.visit (fortran : Bool) (node : Attrs) : HeadCls → Head
  | exprStatement => .exprStatement
  | ifStmt => visitSgIfStmt node
  | whileStmt => visitSgWhileStmt fortran node
  | fortranDo => visitSgFortranDo node
  | switchStatement => visitSgSwitchStatement fortran node
  | whereStatement => visitSgWhereStatement node
  | elseWhereStatement => .elseWhereStatement

end Attributes

/-- The tests for the parts of a class, in the order of its slots. -/
def HeadCls.tests : HeadCls → List (St F O .part → Bool)
  | exprStatement => [St.isSgExpression]
  | ifStmt => [St.isSgExprStatement, St.isSgStatement, St.isSgStatement]
  | whileStmt => [St.isSgExprStatement, St.isSgStatement, St.isSgStatement]
  | fortranDo => [St.isSgExpression, St.isSgExpression, St.isSgExpression, St.isSgBasicBlock]
  | switchStatement => [St.isSgStatement, St.isSgStatement]
  | whereStatement => [St.isSgExpression, St.isSgBasicBlock, St.isSgElseWhereStatement]
  | elseWhereStatement => [St.isSgExpression, St.isSgBasicBlock, St.isSgElseWhereStatement]

/-- The parts a class insists on. -/
def HeadCls.check : HeadCls → List (Option (St F O .part)) → Except Fatal Unit
  | exprStatement, none :: _ => .error (.missingNode "SgExprStatement" "SgExpression")
  | ifStmt, none :: _ => .error (.missingNode "SgIfStmt" "SgExprStatement")
  | ifStmt, some _ :: none :: _ => .error (.missingNode "SgIfStmt" "SgStatement")
  | switchStatement, none :: _ => .error (.missingNodes "SgSwitchStatement" "2" "SgStatement")
  | switchStatement, some _ :: none :: _ =>
      .error (.missingNodes "SgSwitchStatement" "2" "SgStatement")
  | elseWhereStatement, _ :: none :: _ =>
      .error (.missingNode "SgDoElseWhileStmt" "SgBasicBlock")
  | elseWhereStatement, none :: some _ :: _ =>
      .error (.missingNode "SgDoElseWhileStmt" "SgExpression")
  | _, _ => .ok ()

/-- An element of a statement. -/
def stElement (name : String) (attrs : Attrs) (x : Fragment) : Fragment := do
  let children ← x
  return [.elem name attrs children]

/-- The writer on a node of an expression or a type. -/
def writeNode (fortran : Bool) : Node F → Fragment
  | .expr e => write fortran e
  | .type t => write fortran t
  | .functionParameterTypeList ts => element .functionParameterTypeList [] (write fortran ts)

section Statements

variable [OtherStmt O]

/-- The writer on statements. -/
def writeSt (fortran : Bool) : {s : StSrt} → St F O s → Fragment
  | _, .sg n => writeNode fortran n
  | _, .compound label head row =>
      stElement head.cls.name (head.attrib fortran ++ attribSgStatement label)
        (writeSt fortran row)
  | _, .basicBlock label stmts =>
      stElement basicBlockName (attribSgStatement label) (writeSt fortran stmts)
  | _, .other o => do
      let x ← OtherStmt.write fortran o
      return [.elem (OtherStmt.name o) x.1 x.2]
  | _, .nil => nothing
  | _, .cons p ps => both (writeSt fortran p) (writeSt fortran ps)
  | _, .noRow => nothing
  | _, .absent row => writeSt fortran row
  | _, .present p row => both (writeSt fortran p) (writeSt fortran row)

/-- What the reader of a class makes of its attributes and of the parts its
    children delivered. -/
def buildSt (fortran : Bool) (c : HeadCls) (node : Attrs) (kids : List (St F O .part)) :
    Except Fatal (St F O .part) := do
  let slots := Slots.chain c.tests kids
  c.check slots
  return .compound (checkStatement node) (c.visit fortran node) (.ofSlots slots)

mutual

/-- The reader on a statement or on a part of one. -/
def visitSt (fortran : Bool) : Xml → Except Fatal (St F O .part)
  | .elem name attrs children =>
      match HeadCls.ofName name with
      | some c => do
          let kids ← visitSts fortran children
          buildSt fortran c attrs kids
      | none =>
          if name = basicBlockName then do
            let kids ← visitSts fortran children
            return .basicBlock (checkStatement attrs) (.ofList (kids.filter St.isSgStatement))
          else if (Cls.ofName name).isSome then do
            let n ← visit true (.elem name attrs children)
            return .sg n
          else do
            let o ← OtherStmt.visit fortran name attrs children
            return .other o
  | .text _ => .error (.fatal "unknown AST node found: #text")
  | .comment _ => .error (.fatal "unknown AST node found: #comment")

/-- The reader on the element children of a statement. -/
def visitSts (fortran : Bool) : List Xml → Except Fatal (List (St F O .part))
  | [] => .ok []
  | .elem name attrs children :: rest => do
      let p ← visitSt fortran (.elem name attrs children)
      let ps ← visitSts fortran rest
      return p :: ps
  | .text _ :: rest => visitSts fortran rest
  | .comment _ :: rest => visitSts fortran rest

end

/-- The writer of statements followed by the reader. -/
def roundTripSt (fortran : Bool) (p : St F O .part) : Except Fatal (List (St F O .part)) :=
  writeSt fortran p >>= visitSts fortran

end Statements

end XevXml
