import XevXml.Tools.Vardec.Nested
import XevXml.Tools.Vardec.Modifiers

/-!
# Variable Declarations

A declaration of the front end has a complete type in each of its variables. `vardec` displays it
the way it is written: the modifiers, one type, and the variables without it. The type is taken
from the first variable. A template is chosen by what is in a variable, and if several fit it is
the last of them. `unvardec` gives the type to all variables, and puts an array around it where
there are dimensions.

So it matters which templates come together. An array with an initial value that is not an
aggregate is displayed without its dimensions, and the type of the first variable is then the
whole array. An array with a constructor and a pointer to an array with an initial value are
displayed by a template for variables without one. What is shared for a pointer to an array is a
pointer, and this is put into the array and not around it. And the first variable is looked for
among all children, so nothing may stand in front of it.

## Main definitions

* `vardec`, `unvardec`: The stylesheets on a declaration.
* `Variable`, `Declaration`: The declarations of the front end.
* `declared`: What is declared: a name, a type and an initial value.
* `GivesBack`: The same variables and modifiers come back.
* `Variable.Fits`, `Declaration.Fits`: The templates belong together.

## Theorems

* `vardecChild_variable`: The template that is chosen for a variable.
-/

namespace XevXml.Tools.Vardec

section Stylesheets

/-- The variable in the place of a declared one. -/
def variableRef (name : Text) : Xml :=
  .elem "SgVarRefExp" [("name", name), ("type", ['_'])] []

/-- The test for the first variable. Some other elements in front of it are not counted. -/
def isFirst (uncounted : String) (before : List Xml) : Bool :=
  (elements before).length - (named uncounted before).length == 0

/-- The type in front of the first variable. -/
def whenFirst (uncounted : String) (before types : List Xml) : List Xml :=
  if isFirst uncounted before then types else []

/-- The templates of `vardec` for a variable, the last one first. -/
def vardecName (before : List Xml) (attrs : Attrs) (cs : List Xml) : List Xml :=
  let ref := variableRef ((attrs.lookup "name").getD [])
  if named "SgArrayType" cs = [] ∧ path ["SgPointerType", "SgArrayType"] cs = [] ∧
      named "SgAssignInitializer" cs = [] ∧ named "SgConstructorInitializer" cs = [] then
    whenFirst "xev_pragma" before ((nth 1 cs).map displayed) ++ [ref]
  else if path ["SgPointerType", "SgArrayType"] cs ≠ [] then
    whenFirst "xev_pragma" before [.elem "SgPointerType" []
      (((path ["SgPointerType", "SgArrayType"] cs).flatMap fun x => nth 1 x.children).map
        displayed)] ++
    [.elem "SgPntrArrRefExp" []
      (ref :: (path ["SgPointerType", "SgArrayType", "SgExprListExp"] cs).map displayed)]
  else if named "SgArrayType" cs ≠ [] ∧ named "SgAssignInitializer" cs = [] then
    whenFirst "xev_pragma" before
      (((named "SgArrayType" cs).flatMap fun x => nth 1 x.children).map displayed) ++
    [.elem "SgPntrArrRefExp" []
      (ref :: (path ["SgArrayType", "SgExprListExp"] cs).map displayed)]
  else if named "SgConstructorInitializer" cs ≠ [] then
    whenFirst "xev_pragma" before ((nth 2 cs).map displayed) ++
    [.elem "SgAssignOp" [] (ref :: (named "SgConstructorInitializer" cs).map displayed)]
  else if named "SgAssignInitializer" cs ≠ [] ∧
      path ["SgAssignInitializer", "SgAggregateInitializer"] cs = [] then
    whenFirst "xev_pragma" before ((nth 2 cs).map displayed) ++
    [.elem "SgAssignOp" []
      (ref :: (elements ((named "SgAssignInitializer" cs).flatMap Xml.children)).map displayed)]
  else
    -- The name of the elements that are not counted is another one in this template.
    whenFirst "xev_pramga" before
      (((nth 2 cs).flatMap fun x => nth 1 x.children).map displayed) ++
    [.elem "SgAssignOp" []
      (.elem "SgPntrArrRefExp" []
          (ref :: (path ["SgArrayType", "SgExprListExp"] cs).map displayed) ::
        ((path ["SgAssignInitializer", "SgAggregateInitializer"] cs).flatMap fun x =>
          nth 1 x.children).map displayed)]

/-- What `vardec` makes of a child of a declaration. -/
def vardecChild (before : List Xml) : Xml → List Xml
  | .elem n attrs cs =>
      if n = "SgInitializedName" then vardecName before attrs cs
      else [displayed (.elem n attrs cs)]
  | _ => []

/-- The children of a declaration from left to right, but for those with a pragma in them. -/
def vardecChildren (before : List Xml) : List Xml → List Xml
  | [] => []
  | x :: xs =>
      (if named "xev_pragma" x.children = [] then vardecChild before x else []) ++
        vardecChildren (before ++ [x]) xs

/-- The children of the declaration that is displayed. The pragmas are in front of it once more. -/
def vardec (m : Modifiers) (cs : List Xml) : List Xml :=
  .elem "modifier_list" [] (modifierList m) :: vardecChildren [] cs

/-- A declared variable. -/
def initializedName (name : Text) (cs : List Xml) : Xml :=
  .elem "SgInitializedName" [("name", name)] cs

/-- An array of elements of the shared type, with the dimensions of a variable. -/
def arrayType (second dims : List Xml) : Xml :=
  .elem "SgArrayType" [("rank", Numeral.printNat (elements (dims.flatMap Xml.children)).length)]
    (second ++ dims ++ [.elem "SgNullExpression" [] []])

/-- The templates of `unvardec` for an assignment, the last one first. The second child of the
    declaration is put in as the type. -/
def unvardecAssign (second cs : List Xml) : Xml :=
  let type := second.map (rebuilt "" "SgVariableDeclaration")
  if (nth 1 cs).all (fun x => !x.hasName "SgPntrArrRefExp") ∧
      (nth 2 cs).all (fun x => !x.hasName "SgConstructorInitializer") then
    initializedName (valueOf "name" (named "SgVarRefExp" cs))
      (.elem "SgAssignInitializer" []
        ((nth 2 cs).map (rebuilt "SgVariableDeclaration" "SgAssignOp")) :: type)
  else if named "SgConstructorInitializer" cs ≠ [] then
    initializedName (valueOf "name" (named "SgVarRefExp" cs))
      ((named "SgConstructorInitializer" cs).map (rebuilt "SgVariableDeclaration" "SgAssignOp") ++
        type)
  else
    initializedName (valueOf "name" (path ["SgPntrArrRefExp", "SgVarRefExp"] cs))
      [.elem "SgAssignInitializer" []
          [.elem "SgAggregateInitializer" [] (nth 2 cs ++ [.elem "SgTypeDefault" [] []])],
        arrayType second (path ["SgPntrArrRefExp", "SgExprListExp"] cs)]

/-- What `unvardec` makes of a child of a declaration, with the second child, which is never a
    variable, and whether a pointer type stands in front of it. -/
def unvardecChild (second : List Xml) (pointer : Bool) : Xml → List Xml
  | .elem n attrs cs =>
      if n = "SgVarRefExp" then [initializedName ((attrs.lookup "name").getD []) second]
      else if n = "SgPntrArrRefExp" then
        let array := arrayType second (named "SgExprListExp" cs)
        [initializedName (valueOf "name" (named "SgVarRefExp" cs))
          [if pointer then .elem "SgPointerType" [] [array] else array]]
      else if n = "SgAssignOp" then [unvardecAssign second cs]
      else if n = "SgPragmaDeclaration" then
        [.elem n [("unparse", ['1'])] (rebuiltAll "SgVariableDeclaration" n cs)]
      else [rebuilt "" "SgVariableDeclaration" (.elem n attrs cs)]
  | _ => []

/-- The children of a declaration from left to right. -/
def unvardecFrom (second before : List Xml) : List Xml → List Xml
  | [] => []
  | x :: xs =>
      unvardecChild second (!(named "SgPointerType" before).isEmpty) x ++
        unvardecFrom second (before ++ [x]) xs

/-- The declaration that comes back. -/
def unvardec (declaration_modifier : Option Nat) (cs : List Xml) : Modifiers × List Xml :=
  (restoredModifiers declaration_modifier ((named "modifier_list" cs).flatMap Xml.children),
    unvardecFrom (nth 2 cs) ((elements cs).take 2) ((elements cs).drop 2))

end Stylesheets

section FrontEnd

/-- The elements among the variables of a declaration: comments, directives and pragmas. -/
def otherNames : List String := ["PreprocessingInfo", "SgPragmaDeclaration", "xev_pragma"]

/-- The initial values of variables. -/
def initializers : List String := ["SgAssignInitializer", "SgConstructorInitializer"]

/-- Elements that are not the type of a single value. -/
def notTypes : List String :=
  ["SgArrayType", "SgExprListExp", "SgInitializedName", "SgVarRefExp", "SgPntrArrRefExp",
    "SgAssignOp", "modifier_list"] ++ initializers ++ otherNames

/-- A type that is neither an array nor a pointer to one. -/
structure Base where
  name : String
  attrs : Attrs
  children : List Xml
  type : name ∉ notTypes
  notPointer : name = "SgPointerType" → named "SgArrayType" children = []
  arguments : keepsArgumentsAll "" name children = true

/-- The element of a type. -/
def Base.xml (b : Base) : Xml := .elem b.name b.attrs b.children

/-- The list of the dimensions of an array. -/
structure Dims where
  attrs : Attrs
  children : List Xml
  arguments : keepsArgumentsAll "" "SgExprListExp" children = true

/-- The element of a list of dimensions. -/
def Dims.xml (d : Dims) : Xml := .elem "SgExprListExp" d.attrs d.children

/-- The type of a variable. -/
inductive VarType
  | scalar (base : Base)
  | array (base : Base) (dims : Dims)
  | pointerToArray (base : Base) (dims : Dims)

/-- The element of an array type. -/
def arrayXml (b : Base) (d : Dims) : Xml :=
  .elem "SgArrayType" [("rank", Numeral.printNat (elements d.children).length)]
    [b.xml, d.xml, .elem "SgNullExpression" [] []]

/-- The element of the type of a variable. -/
def VarType.xml : VarType → Xml
  | scalar b => b.xml
  | array b d => arrayXml b d
  | pointerToArray b d => .elem "SgPointerType" [] [arrayXml b d]

/-- A value that is assigned, but for an aggregate. -/
structure Operand where
  name : String
  attrs : Attrs
  children : List Xml
  notAggregate : name ≠ "SgAggregateInitializer"

/-- The element of a value. -/
def Operand.xml (e : Operand) : Xml := .elem e.name e.attrs e.children

/-- The initial value of a variable. An aggregate is a list of values with more behind it. -/
inductive Initializer
  | expression (attrs : Attrs) (value : Operand)
  | aggregate (attrs aggregateAttrs listAttrs : Attrs) (values more : List Xml)
  | constructor (attrs : Attrs) (children : List Xml)

/-- The element of an initial value. -/
def Initializer.xml : Initializer → Xml
  | expression attrs e => .elem "SgAssignInitializer" attrs [e.xml]
  | aggregate attrs aggregateAttrs listAttrs values more =>
      .elem "SgAssignInitializer" attrs
        [.elem "SgAggregateInitializer" aggregateAttrs
          (.elem "SgExprListExp" listAttrs values :: more)]
  | constructor attrs children => .elem "SgConstructorInitializer" attrs children

/-- A declared variable. Only arrays have aggregates for initial values. -/
structure Variable where
  name : Text
  attrs : Attrs
  init : Option Initializer
  type : VarType
  wellTyped : ∀ b, type = .scalar b →
    ∀ attrs as ls vs more, init ≠ some (.aggregate attrs as ls vs more)

/-- The element of a variable. -/
def Variable.xml (v : Variable) : Xml :=
  .elem "SgInitializedName" (("name", v.name) :: v.attrs)
    (v.init.toList.map Initializer.xml ++ [v.type.xml])

/-- A comment, a directive or a pragma. -/
structure Other where
  name : String
  attrs : Attrs
  children : List Xml
  other : name ∈ otherNames
  plain : named "xev_pragma" children = []
  arguments : keepsArgumentsAll "" name children = true

/-- The element of a comment, a directive or a pragma. -/
def Other.xml (o : Other) : Xml := .elem o.name o.attrs o.children

/-- A child of a declaration. -/
inductive Child
  | declares (v : Variable)
  | other (o : Other)

/-- The element of a child. -/
def Child.xml : Child → Xml
  | declares v => v.xml
  | other o => o.xml

/-- A declaration of the front end. -/
structure Declaration where
  modifiers : Modifiers
  children : List Child

/-- The child nodes of a declaration. -/
def Declaration.nodes (d : Declaration) : List Xml := d.children.map Child.xml

/-- The variables among some children. -/
def variablesOf : List Child → List Variable
  | [] => []
  | .declares v :: ks => v :: variablesOf ks
  | .other _ :: ks => variablesOf ks

end FrontEnd

section Declared

/-- An initial value as the reader sees it. -/
inductive Initial
  | expression (value : Xml)
  | aggregate (values : Xml)
  | constructor (value : Xml)

/-- What is declared by an element: a name, a type and an initial value. -/
structure Declared where
  name : Option Text
  type : Option Xml
  init : Option Initial

/-- Whether an element is an initial value. -/
def isInitializer : Xml → Bool
  | .elem n _ _ => initializers.contains n
  | _ => false

/-- The initial value in an element. Of an aggregate only the list of values counts. -/
def initialOf : Xml → Option Initial
  | .elem n attrs cs =>
      if n = "SgConstructorInitializer" then some (.constructor (essence (.elem n attrs cs)))
      else match (elements cs).head? with
        | some (.elem m as ds) =>
            if m = "SgAggregateInitializer" then
              (elements ds).head?.map fun l => .aggregate (essence l)
            else some (.expression (essence (.elem m as ds)))
        | _ => none
  | _ => none

/-- What is declared by an element. -/
def declared (x : Xml) : Declared where
  name := x.attr "name"
  type := ((elements x.children).find? fun y => !isInitializer y).map essence
  init := ((elements x.children).find? isInitializer).bind initialOf

/-- What is declared by the variables among some nodes. -/
def declaredVariables (ns : List Xml) : List Declared := (named "SgInitializedName" ns).map declared

/-- The same variables and modifiers come back. -/
structure GivesBack (d : Declaration) : Prop where
  values : SameValues d.modifiers
    (unvardec d.modifiers.declaration_modifier (vardec d.modifiers d.nodes)).1
  declared : declaredVariables
    (unvardec d.modifiers.declaration_modifier (vardec d.modifiers d.nodes)).2 =
      declaredVariables d.nodes

/-- The type that is shared if a variable is the first one. -/
def Variable.shared (v : Variable) : Xml :=
  match v.type, v.init with
  | .scalar b, _ => b.xml
  | .array b d, some (.expression _ _) => arrayXml b d
  | .array b _, _ => b.xml
  | .pointerToArray b _, _ => .elem "SgPointerType" [] [b.xml]

/-- An initial value that is assigned has nothing to lose, and is not a constructor. -/
def Operand.Fits (e : Operand) : Prop :=
  e.name ≠ "SgConstructorInitializer" ∧ keepsReferences e.xml = true ∧
    keepsArguments "SgVariableDeclaration" "SgAssignOp" e.xml = true

/-- The templates for a variable belong together if the reader sees a type in the place of the
    one that is shared, with a pointer type in front of the variable or without. -/
def Variable.FitsAs (type : Xml) (pointer : Bool) (v : Variable) : Prop :=
  match v.type, v.init with
  | .scalar b, none => type = essence b.xml
  | .scalar b, some (.expression _ e) => type = essence b.xml ∧ e.Fits
  | .scalar b, some (.constructor attrs cs) => type = essence b.xml ∧
      keepsReferences (.elem "SgConstructorInitializer" attrs cs) = true ∧
      keepsArguments "SgVariableDeclaration" "SgAssignOp"
        (.elem "SgConstructorInitializer" attrs cs) = true
  | .scalar _, some (.aggregate _ _ _ _ _) => False
  | .array b d, none => pointer = false ∧ type = essence b.xml ∧ keepsReferences d.xml = true
  | .array b d, some (.expression _ e) => type = essence (arrayXml b d) ∧ e.Fits
  | .array b d, some (.aggregate _ _ listAttrs values _) =>
      (type = essence b.xml ∧ keepsReferences d.xml = true) ∧
        keepsReferences (.elem "SgExprListExp" listAttrs values) = true
  | .array _ _, some (.constructor _ _) => False
  | .pointerToArray b d, none =>
      pointer = true ∧ type = essence b.xml ∧ keepsReferences d.xml = true
  | .pointerToArray _ _, some _ => False

/-- The templates for a variable belong together if a type is shared. -/
def Variable.Fits (shared : Xml) (v : Variable) : Prop :=
  v.FitsAs (essence shared) (shared.hasName "SgPointerType")

/-- The templates for a declaration belong together: its first child is a variable, and the type
    that is shared has nothing to lose and fits all of them. -/
def Declaration.Fits (d : Declaration) : Prop :=
  variablesOf d.children = [] ∨ ∃ v ks, d.children = .declares v :: ks ∧
    keepsReferences v.shared = true ∧ ∀ w ∈ variablesOf d.children, w.Fits v.shared

end Declared

section Items

/-- What stands for a variable in the declaration that is displayed. -/
def Variable.item (v : Variable) : Xml :=
  match v.type, v.init with
  | .array _ d, some (.aggregate _ _ listAttrs values _) =>
      .elem "SgAssignOp" []
        [.elem "SgPntrArrRefExp" [] [variableRef v.name, displayed d.xml],
          displayed (.elem "SgExprListExp" listAttrs values)]
  | .pointerToArray _ d, _ => .elem "SgPntrArrRefExp" [] [variableRef v.name, displayed d.xml]
  | _, some (.expression _ e) => .elem "SgAssignOp" [] [variableRef v.name, displayed e.xml]
  | .array _ d, _ => .elem "SgPntrArrRefExp" [] [variableRef v.name, displayed d.xml]
  | .scalar _, some (.constructor attrs cs) =>
      .elem "SgAssignOp" []
        [variableRef v.name, displayed (.elem "SgConstructorInitializer" attrs cs)]
  | .scalar _, _ => variableRef v.name

/-- The elements that are not counted when the first variable is looked for. -/
def Variable.uncounted (v : Variable) : String :=
  match v.type, v.init with
  | .array _ _, some (.aggregate _ _ _ _ _) => "xev_pramga"
  | _, _ => "xev_pragma"

/-- The tests of the templates for something else fail for a type. -/
theorem hasName_base (b : Base) {name : String} (h : name ∈ notTypes) :
    b.xml.hasName name = false := by
  have hne : b.name ≠ name := fun hb => b.type (hb ▸ h)
  simp [Base.xml, hne]

@[simp]
theorem hasName_array_base (b : Base) : b.xml.hasName "SgArrayType" = false :=
  hasName_base b (by decide)

@[simp]
theorem hasName_list_base (b : Base) : b.xml.hasName "SgExprListExp" = false :=
  hasName_base b (by decide)

@[simp]
theorem hasName_assign_base (b : Base) : b.xml.hasName "SgAssignInitializer" = false :=
  hasName_base b (by decide)

@[simp]
theorem hasName_constructor_base (b : Base) : b.xml.hasName "SgConstructorInitializer" = false :=
  hasName_base b (by decide)

/-- A pointer type without an array in it is not taken for a pointer to an array. -/
theorem arrays_of_pointer_base (b : Base) :
    (if b.xml.hasName "SgPointerType" = true then [b.xml] else []).flatMap
      (fun n => named "SgArrayType" n.children) = [] := by
  split_ifs with h
  · simp [Base.xml, b.notPointer (by simpa [Base.xml] using h)]
  · rfl

@[simp]
theorem elements_base (b : Base) (ns : List Xml) : elements (b.xml :: ns) = b.xml :: elements ns :=
  rfl

@[simp]
theorem elements_dims (d : Dims) (ns : List Xml) : elements (d.xml :: ns) = d.xml :: elements ns :=
  rfl

@[simp]
theorem elements_operand (e : Operand) (ns : List Xml) :
    elements (e.xml :: ns) = e.xml :: elements ns := rfl

@[simp]
theorem hasName_dims (d : Dims) (name : String) :
    d.xml.hasName name = ("SgExprListExp" == name) := rfl

theorem path_single (name : String) (ns : List Xml) : path [name] ns = named name ns := rfl

/-- The template that is chosen for a variable. -/
theorem vardecChild_variable (before : List Xml) (v : Variable) :
    vardecChild before v.xml = whenFirst v.uncounted before [displayed v.shared] ++ [v.item] := by
  obtain ⟨name, attrs, init, type, hwell⟩ := v
  rcases type with b | ⟨b, d⟩ | ⟨b, d⟩
  · have hpath := arrays_of_pointer_base b
    rcases init with _ | ⟨as, e⟩ | ⟨as, bs, ls, vs, ms⟩ | ⟨as, cs⟩
    · simp [vardecChild, vardecName, Variable.xml, VarType.xml, hpath, Variable.shared,
        Variable.item, Variable.uncounted, nth, path_cons_cons, path_single]
    · have he : e.xml.hasName "SgAggregateInitializer" = false := by
        simp [Operand.xml, e.notAggregate]
      simp [vardecChild, vardecName, Variable.xml, VarType.xml, hpath, Variable.shared,
        Initializer.xml, Variable.item, Variable.uncounted, nth, path_cons_cons, path_single, he]
    · exact absurd rfl (hwell b rfl as bs ls vs ms)
    · simp [vardecChild, vardecName, Variable.xml, VarType.xml, hpath, Variable.shared,
        Initializer.xml, Variable.item, Variable.uncounted, nth, path_cons_cons, path_single]
  · rcases init with _ | ⟨as, e⟩ | ⟨as, bs, ls, vs, ms⟩ | ⟨as, cs⟩
    · simp [vardecChild, vardecName, Variable.xml, VarType.xml, Variable.shared, arrayXml,
        Variable.item, Variable.uncounted, nth, path_cons_cons, path_single]
    · have he : e.xml.hasName "SgAggregateInitializer" = false := by
        simp [Operand.xml, e.notAggregate]
      simp [vardecChild, vardecName, Variable.xml, VarType.xml, Variable.shared, arrayXml,
        Initializer.xml, Variable.item, Variable.uncounted, nth, path_cons_cons, path_single, he]
    · simp [vardecChild, vardecName, Variable.xml, VarType.xml, Variable.shared, arrayXml,
        Initializer.xml, Variable.item, Variable.uncounted, nth, path_cons_cons, path_single]
    · simp [vardecChild, vardecName, Variable.xml, VarType.xml, Variable.shared, arrayXml,
        Initializer.xml, Variable.item, Variable.uncounted, nth, path_cons_cons, path_single]
  · -- The template for pointers to arrays does not look at the initial value.
    rcases init with _ | ⟨as, e⟩ | ⟨as, bs, ls, vs, ms⟩ | ⟨as, cs⟩ <;>
      simp [vardecChild, vardecName, Variable.xml, VarType.xml, Variable.shared, arrayXml,
        Initializer.xml, Variable.item, Variable.uncounted, nth, path_cons_cons, path_single,
        displayedAll]

end Items

end XevXml.Tools.Vardec
