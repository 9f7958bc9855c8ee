import XevXml.Ast.Statement

/-!
# Data Statements

A group of a DATA statement: the objects that are initialised and the values
they get. A value is either a list of initialisers or a constant with a repeat
count, and its format says which. The writer visits the list, the repeat
expression and the constant, and a part that is absent leaves no trace in the
file. The reader has nothing but the order of the children to go by. The first
list is the list of initialisers, and only once it has been seen the next
expression is the repeat expression, and the one behind it the constant.

A value without a list of initialisers therefore loses the other two parts, or
finds one of them in the place of the list if it is a list itself. A constant
that stands behind a list comes back as a repeat expression.

## Main definitions

* `DataStatementValue`, `DataStatementObject`, `DataStatementGroup`: The parts.
* `writeDataStatementGroup`, `visitDataStatementGroup`: Writer and reader.
* `DataStatementValue.InOrder`: No part is missing in front of another one.
* `DataStatementGroup.Kept`: The groups that come back unchanged.

## Theorems

* `rebuilt_eq_self_iff`: A value keeps its parts in their roles if it is in order.
* `data_survives_iff`: Which groups come back unchanged.
-/

namespace XevXml

variable {F : Type} [FloatStream F]

/-- An object of a DATA statement. -/
structure DataStatementObject (F : Type) [FloatStream F] where
  variableReference_list : Sg F .list

/-- A value of a DATA statement. -/
@[ext]
structure DataStatementValue (F : Type) [FloatStream F] where
  data_initialization_format : CInt
  initializer_list : Option (Sg F .list)
  repeat_expression : Option (Sg F .expr)
  constant_expression : Option (Sg F .expr)

/-- A group of a DATA statement. -/
@[ext]
structure DataStatementGroup (F : Type) [FloatStream F] where
  object_list : List (DataStatementObject F)
  value_list : List (DataStatementValue F)

section Writer

variable (fortran : Bool)

/-- A part that may be absent. Nothing is written for a null pointer. -/
def writeExpr : Option (Sg F .expr) → Fragment
  | none => nothing
  | some e => write fortran e

/-- Writer of an object. -/
def writeDataStatementObject (obj : DataStatementObject F) : Fragment :=
  stElement "SgDataStatementObject" [] (write fortran obj.variableReference_list)

/-- Attributes of a value. -/
def attribSgDataStatementValue (n : DataStatementValue F) : Attrs :=
  [("fmt", n.data_initialization_format.print)]

/-- Writer of the parts of a value. -/
def inodeSgDataStatementValue (v : DataStatementValue F) : Fragment :=
  both (writeList fortran v.initializer_list)
    (both (writeExpr fortran v.repeat_expression) (writeExpr fortran v.constant_expression))

/-- Writer of a value. -/
def writeDataStatementValue (v : DataStatementValue F) : Fragment :=
  stElement "SgDataStatementValue" (attribSgDataStatementValue v)
    (inodeSgDataStatementValue fortran v)

/-- The elements of a list one after the other. -/
def writeEach {α : Type} (w : α → Fragment) : List α → Fragment
  | [] => nothing
  | x :: xs => both (w x) (writeEach w xs)

/-- Writer of the objects and values of a group. -/
def inodeSgDataStatementGroup (g : DataStatementGroup F) : Fragment :=
  both (writeEach (writeDataStatementObject fortran) g.object_list)
    (writeEach (writeDataStatementValue fortran) g.value_list)

end Writer

/-- The parts of a DATA statement and other nodes. -/
inductive DataNode (F : Type) [FloatStream F]
  | object (obj : DataStatementObject F)
  | value (val : DataStatementValue F)
  | other (n : Node F)

/-- The value before any of its children has been visited. -/
def DataStatementValue.new (format : CInt) : DataStatementValue F where
  data_initialization_format := format
  initializer_list := none
  repeat_expression := none
  constant_expression := none

/-- The loop body of the reader of a value, which assumes the order of the parts. -/
def DataStatementValue.step (ret : DataStatementValue F) (astchild : Node F) :
    DataStatementValue F :=
  if ret.initializer_list.isNone then
    { ret with initializer_list := astchild.isSgExprListExp }
  else if ret.repeat_expression.isNone then
    { ret with repeat_expression := astchild.isSgExpression }
  else if ret.constant_expression.isNone then
    { ret with constant_expression := astchild.isSgExpression }
  else ret

/-- Reader of a value. The format is zero if there is none. -/
def visitSgDataStatementValue (node : Attrs) (children : List Xml) :
    Except Fatal (DataStatementValue F) := do
  let kids ← visitAll true children
  let format := ((getString node "fmt").map (Numeral.Machine.read intFormat)).getD ⟨0, by decide⟩
  return kids.foldl DataStatementValue.step (DataStatementValue.new format)

/-- The object made of the children that have been visited: the first list is the list of
    its variables. -/
def buildDataStatementObject (kids : List (Node F)) : Except Fatal (DataStatementObject F) :=
  match Slots.first Node.isSgExprListExp kids with
  | none => .error (.missingNode "SgDataStatementObject" "SgExprListExp")
  | some lst => .ok ⟨lst⟩

/-- Reader of an object. -/
def visitSgDataStatementObject (children : List Xml) : Except Fatal (DataStatementObject F) := do
  let kids ← visitAll true children
  buildDataStatementObject kids

/-- The reader on a child of a group. -/
def visitDataNode : Xml → Except Fatal (DataNode F)
  | .elem name attrs children =>
      if name = "SgDataStatementObject" then do
        return .object (← visitSgDataStatementObject children)
      else if name = "SgDataStatementValue" then do
        return .value (← visitSgDataStatementValue attrs children)
      else do
        return .other (← visit true (.elem name attrs children))
  | .text _ => .error (.fatal "unknown AST node found: #text")
  | .comment _ => .error (.fatal "unknown AST node found: #comment")

/-- The reader on the element children of a group. -/
def visitDataNodes : List Xml → Except Fatal (List (DataNode F))
  | [] => .ok []
  | .elem name attrs children :: rest => do
      let n ← visitDataNode (.elem name attrs children)
      let ns ← visitDataNodes rest
      return n :: ns
  | .text _ :: rest => visitDataNodes rest
  | .comment _ :: rest => visitDataNodes rest

/-- The loop body of the reader of a group. -/
def DataStatementGroup.push (ret : DataStatementGroup F) : DataNode F → DataStatementGroup F
  | .object obj => { ret with object_list := ret.object_list ++ [obj] }
  | .value val => { ret with value_list := ret.value_list ++ [val] }
  | .other _ => ret

/-- Reader of a group. -/
def visitSgDataStatementGroup (children : List Xml) : Except Fatal (DataStatementGroup F) := do
  let kids ← visitDataNodes children
  return kids.foldl DataStatementGroup.push ⟨[], []⟩

/-- The writer of groups followed by the reader. -/
def roundTripData (fortran : Bool) (g : DataStatementGroup F) :
    Except Fatal (DataStatementGroup F) :=
  inodeSgDataStatementGroup fortran g >>= visitSgDataStatementGroup

section Values

variable (fortran : Bool)

/-- The value with the normal forms of its expressions. -/
def DataStatementValue.normal (v : DataStatementValue F) : DataStatementValue F where
  data_initialization_format := v.data_initialization_format
  initializer_list := v.initializer_list.map (XevXml.normal fortran)
  repeat_expression := v.repeat_expression.map (XevXml.normal fortran)
  constant_expression := v.constant_expression.map (XevXml.normal fortran)

/-- All expressions of a value can be read. -/
def DataStatementValue.readable (v : DataStatementValue F) : Bool :=
  v.initializer_list.all (XevXml.readable fortran true) &&
    (v.repeat_expression.all (XevXml.readable fortran true) &&
      v.constant_expression.all (XevXml.readable fortran true))

/-- The nodes a value stands for, in the order in which they are written. -/
def DataStatementValue.nodes (v : DataStatementValue F) : List (Node F) :=
  (v.initializer_list.toList.map fun l => Node.expr (.ofList l)) ++
    (v.repeat_expression.toList.map Node.expr ++ v.constant_expression.toList.map Node.expr)

/-- No part of a value is missing in front of another one. -/
def DataStatementValue.InOrder (v : DataStatementValue F) : Prop :=
  (v.initializer_list = none → v.repeat_expression = none) ∧
    (v.repeat_expression = none → v.constant_expression = none)

/-- The value that is read from the children of a written one. -/
def DataStatementValue.rebuilt (v : DataStatementValue F) : DataStatementValue F :=
  (v.normal fortran).nodes.foldl DataStatementValue.step
    (DataStatementValue.new v.data_initialization_format)

/-- A part that may be absent comes back if it can be read. -/
theorem reread_writeExpr (e : Option (Sg F .expr)) :
    reread true (writeExpr fortran e) =
      attached (e.all (XevXml.readable fortran true))
        ((e.map (XevXml.normal fortran)).toList.map Node.expr) := by
  cases e with
  | none => rfl
  | some e => simp [writeExpr, reread_write, back_eq, toNodes]

/-- The parts of a value come back one after the other. -/
theorem reread_inode (v : DataStatementValue F) :
    reread true (inodeSgDataStatementValue fortran v) =
      attached (v.readable fortran) (v.normal fortran).nodes := by
  unfold inodeSgDataStatementValue
  rw [reread_both, reread_both, reread_writeList, reread_writeExpr, reread_writeExpr]
  simp only [Option.bind_eq_bind, Option.pure_def, attached_bind_some, attached_bind_attached]
  rfl

/-- Whatever the children are, the reader fills the parts in their order. -/
theorem foldl_inOrder (ns : List (Node F)) (ret : DataStatementValue F) (h : ret.InOrder) :
    (ns.foldl DataStatementValue.step ret).InOrder := by
  induction ns generalizing ret with
  | nil => exact h
  | cons n ns ih =>
      refine ih _ ?_
      unfold DataStatementValue.step
      rcases ret with ⟨fmt, l, r, c⟩
      -- A part is filled only if the ones in front of it are there.
      cases l <;> cases r <;> cases c <;> simp_all [DataStatementValue.InOrder]

/-- The parts of a value in order are read into their own roles. -/
theorem foldl_nodes (w : DataStatementValue F) (h : w.InOrder) :
    w.nodes.foldl DataStatementValue.step
      (DataStatementValue.new w.data_initialization_format) = w := by
  rcases w with ⟨fmt, l, r, c⟩
  cases l <;> cases r <;> cases c <;>
    simp_all [DataStatementValue.nodes, DataStatementValue.step, DataStatementValue.new,
      DataStatementValue.InOrder, Node.isSgExpression, Node.isSgExprListExp]

theorem normal_inOrder_iff (v : DataStatementValue F) : (v.normal fortran).InOrder ↔ v.InOrder := by
  simp [DataStatementValue.InOrder, DataStatementValue.normal]

/-- A value is rebuilt as it was exactly if its expressions come back unchanged
    and it is in order. -/
theorem rebuilt_eq_self_iff (v : DataStatementValue F) :
    v.rebuilt fortran = v ↔ v.normal fortran = v ∧ v.InOrder := by
  constructor
  · intro h
    have horder : (v.rebuilt fortran).InOrder := by
      refine foldl_inOrder _ _ ?_
      exact ⟨fun _ => rfl, fun _ => rfl⟩
    rw [h] at horder
    have hnormal := foldl_nodes (v.normal fortran) ((normal_inOrder_iff fortran v).mpr horder)
    exact ⟨hnormal.symm.trans h, horder⟩
  · intro h
    have hnormal := foldl_nodes (v.normal fortran) ((normal_inOrder_iff fortran v).mpr h.2)
    exact hnormal.trans h.1

end Values

section Groups

variable (fortran : Bool)

/-- The object with the normal form of its list. -/
def DataStatementObject.normal (obj : DataStatementObject F) : DataStatementObject F :=
  ⟨XevXml.normal fortran obj.variableReference_list⟩

/-- The list of an object can be read. -/
def DataStatementObject.readable (obj : DataStatementObject F) : Bool :=
  XevXml.readable fortran true obj.variableReference_list

/-- The reader on the children of a group that have been written. -/
def rereadData (x : Fragment) : Option (List (DataNode F)) := (x >>= visitDataNodes).toOption

theorem visitDataNodes_append (a b : List Xml) :
    visitDataNodes (F := F) (a ++ b) = (do
      let m ← visitDataNodes a
      let n ← visitDataNodes b
      return m ++ n) := by
  induction a with
  | nil =>
      simp only [List.nil_append, visitDataNodes]
      cases visitDataNodes (F := F) b <;> rfl
  | cons x a ih =>
      cases x with
      | elem name attrs children =>
          simp only [List.cons_append, visitDataNodes, ih, bind_assoc, pure_bind]
      | text t => simpa only [List.cons_append, visitDataNodes] using ih
      | comment t => simpa only [List.cons_append, visitDataNodes] using ih

theorem rereadData_both (x y : Fragment) :
    rereadData (F := F) (both x y) = (do
      let a ← rereadData x
      let b ← rereadData y
      return a ++ b) :=
  toOption_both visitDataNodes_append x y

/-- Reading an element of a DATA statement is reading its children. -/
theorem rereadData_stElement {name : String} {attrs : Attrs}
    {f : List (Node F) → Except Fatal (DataNode F)} (x : Fragment)
    (hvisit : ∀ children, visitDataNode (.elem name attrs children) = visitAll true children
      >>= f) :
    rereadData (stElement name attrs x) =
      (reread true x).bind fun kids => (f kids).toOption.map ([·]) := by
  cases x with
  | error e => rfl
  | ok children =>
      have h : stElement name attrs (.ok children) = .ok [.elem name attrs children] := rfl
      have hok : (Except.ok [Xml.elem name attrs children] >>= visitDataNodes (F := F) :
        Except Fatal _) = visitDataNodes [.elem name attrs children] := rfl
      rw [rereadData, h, hok, reread_ok]
      simp only [visitDataNodes, hvisit, toOption_bind, toOption_ok, toOption_pure,
        Option.bind_some, Option.bind_assoc, Option.map_eq_bind]
      rfl

/-- An object comes back with its list. -/
theorem rereadData_object (obj : DataStatementObject F) :
    rereadData (writeDataStatementObject fortran obj) =
      attached (obj.readable fortran) [.object (obj.normal fortran)] := by
  unfold writeDataStatementObject
  rw [rereadData_stElement (f := fun kids => do
    return .object (← buildDataStatementObject kids))]
  · rw [reread_write, back_eq, attached_map]
    unfold DataStatementObject.readable
    cases XevXml.readable fortran true obj.variableReference_list with
    | false => rfl
    | true => rfl
  · intro children
    simp only [visitDataNode, visitSgDataStatementObject, if_true, bind_assoc]

/-- A value comes back as it is rebuilt. -/
theorem rereadData_value (v : DataStatementValue F) :
    rereadData (writeDataStatementValue fortran v) =
      attached (v.readable fortran) [.value (v.rebuilt fortran)] := by
  unfold writeDataStatementValue
  rw [rereadData_stElement (f := fun kids =>
    return .value (kids.foldl DataStatementValue.step
      (DataStatementValue.new v.data_initialization_format)))]
  · rw [reread_inode]
    simp only [toOption_pure, Option.map_some, attached_bind_some]
    rfl
  · intro children
    have hfmt : getString (attribSgDataStatementValue v) "fmt" =
        some v.data_initialization_format.print := rfl
    have hname : "SgDataStatementValue" ≠ "SgDataStatementObject" := by decide
    simp only [visitDataNode, visitSgDataStatementValue, if_neg hname, if_true, bind_assoc, hfmt,
      Option.map_some, Option.getD_some, Numeral.Machine.read_print, pure_bind]

/-- The elements of a list come back one after the other if each of them does. -/
theorem rereadData_each {α : Type} {w : α → Fragment} {readable : α → Bool}
    {node : α → DataNode F}
    (hw : ∀ x, rereadData (w x) = attached (readable x) [node x]) (xs : List α) :
    rereadData (writeEach w xs) = attached (xs.all readable) (xs.map node) := by
  induction xs with
  | nil => rfl
  | cons x xs ih =>
      rw [writeEach, rereadData_both, hw, ih]
      simp only [Option.bind_eq_bind, Option.pure_def, attached_bind_some, attached_bind_attached]
      rfl

/-- Objects are collected in their order. -/
theorem foldl_push_objects (os : List (DataStatementObject F)) (ret : DataStatementGroup F) :
    (os.map DataNode.object).foldl DataStatementGroup.push ret =
      { ret with object_list := ret.object_list ++ os } := by
  induction os generalizing ret with
  | nil => simp
  | cons o os ih => simp [ih, DataStatementGroup.push]

/-- Values are collected in their order. -/
theorem foldl_push_values (vs : List (DataStatementValue F)) (ret : DataStatementGroup F) :
    (vs.map DataNode.value).foldl DataStatementGroup.push ret =
      { ret with value_list := ret.value_list ++ vs } := by
  induction vs generalizing ret with
  | nil => simp
  | cons v vs ih => simp [ih, DataStatementGroup.push]

/-- All expressions of a group can be read. -/
def DataStatementGroup.readable (g : DataStatementGroup F) : Bool :=
  g.object_list.all (DataStatementObject.readable fortran) &&
    g.value_list.all (DataStatementValue.readable fortran)

/-- The group that is read from the children of a written one. -/
def DataStatementGroup.rebuilt (g : DataStatementGroup F) : DataStatementGroup F where
  object_list := g.object_list.map (DataStatementObject.normal fortran)
  value_list := g.value_list.map (DataStatementValue.rebuilt fortran)

/-- What the round trip of a group delivers. -/
theorem roundTripData_toOption (g : DataStatementGroup F) :
    (roundTripData fortran g).toOption = attached (g.readable fortran) (g.rebuilt fortran) := by
  have hkids : rereadData (inodeSgDataStatementGroup fortran g) =
      attached (g.readable fortran)
        ((g.object_list.map fun o => DataNode.object (o.normal fortran)) ++
          g.value_list.map fun v => DataNode.value (v.rebuilt fortran)) := by
    unfold inodeSgDataStatementGroup
    rw [rereadData_both, rereadData_each (rereadData_object fortran),
      rereadData_each (rereadData_value fortran)]
    simp only [Option.bind_eq_bind, Option.pure_def, attached_bind_some, attached_bind_attached]
    rfl
  have hround : (roundTripData fortran g).toOption =
      (rereadData (inodeSgDataStatementGroup fortran g)).map
        fun kids => kids.foldl DataStatementGroup.push ⟨[], []⟩ := by
    unfold roundTripData rereadData visitSgDataStatementGroup
    simp only [toOption_bind, toOption_pure, Option.map_eq_bind, Option.bind_assoc]
    rfl
  have hobjects : (g.object_list.map fun o => DataNode.object (o.normal fortran)) =
      (g.object_list.map (DataStatementObject.normal fortran)).map DataNode.object := by
    rw [List.map_map]
    rfl
  have hvalues : (g.value_list.map fun v => DataNode.value (v.rebuilt fortran)) =
      (g.value_list.map (DataStatementValue.rebuilt fortran)).map DataNode.value := by
    rw [List.map_map]
    rfl
  rw [hround, hkids, attached_map, List.foldl_append, hobjects, hvalues, foldl_push_objects,
    foldl_push_values]
  rfl

/-- An expression of a statement comes back unchanged. -/
def KeptPart {s : Srt} (n : Sg F s) : Prop :=
  XevXml.readable fortran true n = true ∧ XevXml.Kept fortran .full n

/-- The groups that come back unchanged: all expressions do by themselves, and no part of a
    value is missing in front of another one. -/
def DataStatementGroup.Kept (g : DataStatementGroup F) : Prop :=
  (∀ o ∈ g.object_list, KeptPart fortran o.variableReference_list) ∧
    ∀ v ∈ g.value_list,
      (∀ l, v.initializer_list = some l → KeptPart fortran l) ∧
      (∀ e, v.repeat_expression = some e → KeptPart fortran e) ∧
      (∀ e, v.constant_expression = some e → KeptPart fortran e) ∧ v.InOrder

theorem keptPart_iff {s : Srt} (n : Sg F s) :
    KeptPart fortran n ↔ XevXml.readable fortran true n = true ∧ XevXml.normal fortran n = n := by
  unfold KeptPart
  rw [normal_eq_self_iff]

/-- A part that may be absent is kept if the expression is. -/
theorem keptPart_option_iff {s : Srt} (e : Option (Sg F s)) :
    (∀ n, e = some n → KeptPart fortran n) ↔
      e.all (XevXml.readable fortran true) = true ∧ e.map (XevXml.normal fortran) = e := by
  cases e with
  | none => simp
  | some e => simp [keptPart_iff]

/-- A value is kept if it can be read and is rebuilt as it was. -/
theorem keptValue_iff (v : DataStatementValue F) :
    v.readable fortran = true ∧ v.rebuilt fortran = v ↔
      (∀ l, v.initializer_list = some l → KeptPart fortran l) ∧
      (∀ e, v.repeat_expression = some e → KeptPart fortran e) ∧
      (∀ e, v.constant_expression = some e → KeptPart fortran e) ∧ v.InOrder := by
  rw [rebuilt_eq_self_iff, keptPart_option_iff, keptPart_option_iff, keptPart_option_iff,
    DataStatementValue.ext_iff, DataStatementValue.readable, Bool.and_eq_true, Bool.and_eq_true]
  unfold DataStatementValue.normal
  tauto

/-- A list is mapped to itself exactly if its members are. -/
theorem map_eq_self_iff {α : Type} (f : α → α) (xs : List α) :
    xs.map f = xs ↔ ∀ x ∈ xs, f x = x := by
  have h := List.map_inj_left (l := xs) (f := f) (g := id)
  rwa [List.map_id] at h

/-- A group comes back with the same objects and the same values, and each expression in its
    own role, exactly if it is one of those described by `Kept`. -/
theorem data_survives_iff (g : DataStatementGroup F) :
    roundTripData fortran g = .ok g ↔ g.Kept fortran := by
  have hok : roundTripData fortran g = .ok g ↔ (roundTripData fortran g).toOption = some g := by
    cases roundTripData fortran g <;> simp
  have hattached : attached (g.readable fortran) (g.rebuilt fortran) = some g ↔
      g.readable fortran = true ∧ g.rebuilt fortran = g := by
    cases g.readable fortran <;> simp [attached]
  rw [hok, roundTripData_toOption, hattached, DataStatementGroup.ext_iff,
    DataStatementGroup.readable, Bool.and_eq_true, List.all_eq_true, List.all_eq_true]
  unfold DataStatementGroup.rebuilt DataStatementGroup.Kept
  rw [map_eq_self_iff, map_eq_self_iff]
  have hobject : ∀ o : DataStatementObject F,
      KeptPart fortran o.variableReference_list ↔
        o.readable fortran = true ∧ o.normal fortran = o := by
    intro o
    rw [keptPart_iff]
    unfold DataStatementObject.readable DataStatementObject.normal
    rw [DataStatementObject.mk.injEq]
  simp only [← keptValue_iff]
  simp only [hobject]
  constructor
  · intro h
    exact ⟨fun o ho => ⟨h.1.1 o ho, h.2.1 o ho⟩, fun v hv => ⟨h.1.2 v hv, h.2.2 v hv⟩⟩
  · intro h
    exact ⟨⟨fun o ho => (h.1 o ho).1, fun v hv => (h.2 v hv).1⟩,
      fun o ho => (h.1 o ho).2, fun v hv => (h.2 v hv).2⟩

end Groups

section Examples

/-- A group without objects whose only value is a constant with a repeat expression, `n*c`. -/
def repeatedConstant : DataStatementGroup Int where
  object_list := []
  value_list := [⟨⟨3, by decide⟩, none, some (.varRefExp ['n'] false .noExpr),
    some (.varRefExp ['c'] false .noExpr)⟩]

/-- Both expressions of the value are lost. -/
theorem repeatedConstant_not_kept : roundTripData true repeatedConstant ≠ .ok repeatedConstant := by
  intro h
  have hround := roundTripData_toOption true repeatedConstant
  rw [h, toOption_ok] at hround
  have hlost := congrArg (fun g => g.map fun g => g.value_list.map fun v =>
    v.repeat_expression.isSome) hround
  exact absurd hlost (by decide +kernel)

end Examples

end XevXml
