import XevXml.Tools.Vardec.Declaration

/-!
# Declarations That Come Back

What `unvardec` makes of a declaration that has been displayed. Each variable is rebuilt from what
stands for it and from the second child, which is put in the place of its type. So a variable
comes back exactly if its templates belong together for this child, and the child is the type of
the first variable if nothing stands in front of that.

The induction goes along the children. What is carried is that behind the first variable no other
one is taken for the first, and so no further type is displayed between them.

## Main definitions

* `Variable.back`: What is in a variable that comes back.
* `Passed`: No other variable is the first.

## Theorems

* `restored_iff`: When a variable comes back.
* `forall₂_declared`: What comes back of all variables.
* `declaredVariables_back`: The variables of a declaration that begins with one.
* `givesBack_iff`: When a declaration comes back.
-/

namespace XevXml.Tools.Vardec

section Restored

@[simp]
theorem isInitializer_elem (n : String) (attrs : Attrs) (cs : List Xml) :
    isInitializer (.elem n attrs cs) = initializers.contains n := rfl

theorem isInitializer_base (b : Base) : isInitializer b.xml = false := by
  have h : b.name ∉ initializers := fun hmem => b.type (by simp [notTypes, hmem])
  simpa [isInitializer, Base.xml] using h

theorem isInitializer_type (t : VarType) : isInitializer t.xml = false := by
  cases t with
  | scalar b => exact isInitializer_base b
  | array b d => rfl
  | pointerToArray b d => rfl

theorem displayed_list (attrs : Attrs) (cs : List Xml) :
    displayed (.elem "SgExprListExp" attrs cs) = .elem "SgExprListExp" attrs (displayedAll cs) := by
  rw [displayed, if_neg (by simp), if_neg (by simp), if_neg (by decide)]

theorem essence_displayed (x : Xml) :
    essence (displayed x) = essence x ↔ keepsReferences x = true :=
  essence_displayed_iff.1 x

/-- An array comes back with its dimensions if the type of its elements does. -/
theorem essence_arrayType_iff {s : Xml} (hs : s.isElem = true) (b : Base) (d : Dims) :
    essence (arrayType [s] [displayed d.xml]) = essence (arrayXml b d) ↔
      essence s = essence b.xml ∧ keepsReferences d.xml = true := by
  have hrank : (elements (displayed d.xml).children).length = (elements d.children).length := by
    rw [Dims.xml, displayed_list, Xml.children_elem, displayedAll_eq, elements_map isElem_displayed,
      List.length_map]
  have helem : (displayed d.xml).isElem = true := by rw [isElem_displayed]; rfl
  simp [arrayType, arrayXml, essence, essences_eq, hrank, elements_cons_of_isElem hs,
    elements_cons_of_isElem helem, ← essence_displayed]

theorem declared_xml (v : Variable) :
    declared v.xml = ⟨some v.name, some (essence v.type.xml),
      (v.init.map Initializer.xml).bind initialOf⟩ := by
  obtain ⟨name, attrs, init, type, hwell⟩ := v
  have htype := isInitializer_type type
  have helem : type.xml.isElem = true := by cases type <;> rfl
  rcases init with _ | ⟨as, e⟩ | ⟨as, bs, ls, vs, ms⟩ | ⟨as, cs⟩ <;>
    simp [declared, Variable.xml, Initializer.xml, elements_cons_of_isElem, htype, helem,
      initializers]

/-- An array, or a pointer to it if a pointer type stands in front of the variable. -/
def arrayOrPointer (pointer : Bool) (s : Xml) (d : Dims) : Xml :=
  if pointer then .elem "SgPointerType" [] [arrayType [s] [displayed d.xml]]
  else arrayType [s] [displayed d.xml]

/-- An initial value that comes back. One that is a constructor is not assigned any more. -/
def Operand.back (e : Operand) : Xml :=
  if e.name = "SgConstructorInitializer" then
    rebuilt "SgVariableDeclaration" "SgAssignOp" (displayed e.xml)
  else .elem "SgAssignInitializer" []
    [rebuilt "SgVariableDeclaration" "SgAssignOp" (displayed e.xml)]

/-- What is in a variable that comes back with the given type. -/
def Variable.back (s : Xml) (pointer : Bool) (v : Variable) : List Xml :=
  match v.type, v.init with
  | .array _ d, some (.aggregate _ _ listAttrs values _) =>
      [.elem "SgAssignInitializer" [] [.elem "SgAggregateInitializer" []
          [displayed (.elem "SgExprListExp" listAttrs values), .elem "SgTypeDefault" [] []]],
        arrayType [s] [displayed d.xml]]
  | .pointerToArray _ d, _ => [arrayOrPointer pointer s d]
  | _, some (.expression _ e) => [e.back, s]
  | .array _ d, _ => [arrayOrPointer pointer s d]
  | .scalar _, some (.constructor attrs cs) =>
      [rebuilt "SgVariableDeclaration" "SgAssignOp"
        (displayed (.elem "SgConstructorInitializer" attrs cs)), s]
  | .scalar _, _ => [s]

section Back

variable {s : Xml} (pointer : Bool)

/-- The template that is chosen for an assignment of an operand. -/
theorem unvardecChild_operand (hfix : rebuilt "" "SgVariableDeclaration" s = s) (name : Text)
    (e : Operand) :
    unvardecChild [s] pointer (.elem "SgAssignOp" [] [variableRef name, displayed e.xml]) =
      [initializedName name [e.back, s]] := by
  have helem : (displayed e.xml).isElem = true := by rw [isElem_displayed]; rfl
  have hname : (displayed e.xml).hasName "SgConstructorInitializer" =
      (e.name == "SgConstructorInitializer") := by rw [hasName_displayed]; rfl
  by_cases h : e.name = "SgConstructorInitializer"
  · simp [unvardecChild, unvardecAssign, variableRef, nth, elements_cons_of_isElem helem, hname, h,
      Operand.back, hfix, valueOf, attributes]
  · simp [unvardecChild, unvardecAssign, variableRef, nth, elements_cons_of_isElem helem, hname, h,
      Operand.back, hfix, valueOf, attributes]

/-- What comes back of a variable. -/
theorem unvardecChild_item (hfix : rebuilt "" "SgVariableDeclaration" s = s) (v : Variable) :
    unvardecChild [s] pointer v.item = [initializedName v.name (v.back s pointer)] := by
  obtain ⟨name, attrs, init, type, hwell⟩ := v
  have harray (d : Dims) :
      unvardecChild [s] pointer (.elem "SgPntrArrRefExp" [] [variableRef name, displayed d.xml]) =
        [initializedName name [arrayOrPointer pointer s d]] := by
    simp [unvardecChild, variableRef, valueOf, attributes, arrayOrPointer]
  rcases type with b | ⟨b, d⟩ | ⟨b, d⟩
  · rcases init with _ | ⟨as, e⟩ | ⟨as, bs, ls, vs, ms⟩ | ⟨as, cs⟩
    · simp [Variable.item, Variable.back, unvardecChild, variableRef]
    · exact unvardecChild_operand pointer hfix name e
    · exact absurd rfl (hwell b rfl as bs ls vs ms)
    · have helem : (displayed (.elem "SgConstructorInitializer" as cs)).isElem = true := by
        rw [isElem_displayed]; rfl
      simp [Variable.item, Variable.back, unvardecChild, unvardecAssign, variableRef, nth,
        elements_cons_of_isElem helem, hfix, valueOf, attributes]
  · rcases init with _ | ⟨as, e⟩ | ⟨as, bs, ls, vs, ms⟩ | ⟨as, cs⟩
    · exact harray d
    · exact unvardecChild_operand pointer hfix name e
    · simp [Variable.item, Variable.back, unvardecChild, unvardecAssign, variableRef, nth,
        displayed_list, path_cons_cons, path_single, valueOf, attributes]
    · exact harray d
  · rcases init with _ | ⟨as, e⟩ | ⟨as, bs, ls, vs, ms⟩ | ⟨as, cs⟩ <;> exact harray d

theorem hasName_rebuilt {above parent : String} (h : argumentPlace above parent = false)
    (name : String) (x : Xml) : (rebuilt above parent x).hasName name = x.hasName name := by
  cases x with
  | elem n attrs cs =>
      rw [rebuilt_copied (fun hc => by simp [h] at hc)]
      rfl
  | text t => rfl
  | comment t => rfl

theorem isInitializer_of_hasName {x : Xml} {name : String} (h : x.hasName name = true)
    (hmem : name ∈ initializers) : isInitializer x = true := by
  cases x with
  | elem n attrs cs =>
      obtain rfl : n = name := by simpa using h
      simpa using hmem
  | text t => exact absurd h (by simp [Xml.hasName])
  | comment t => exact absurd h (by simp [Xml.hasName])

theorem initialOf_constructor {x : Xml} (h : x.hasName "SgConstructorInitializer" = true) :
    initialOf x = some (.constructor (essence x)) := by
  cases x with
  | elem n attrs cs =>
      obtain rfl : n = "SgConstructorInitializer" := by simpa using h
      simp [initialOf]
  | text t => exact absurd h (by simp [Xml.hasName])
  | comment t => exact absurd h (by simp [Xml.hasName])

theorem initialOf_assign {x : Xml} (helem : x.isElem = true)
    (h : x.hasName "SgAggregateInitializer" = false) (attrs : Attrs) :
    initialOf (.elem "SgAssignInitializer" attrs [x]) = some (.expression (essence x)) := by
  cases x with
  | elem n as cs =>
      have hne : n ≠ "SgAggregateInitializer" := by simpa using h
      simp [initialOf, hne]
  | text t => exact absurd helem (by simp [Xml.isElem])
  | comment t => exact absurd helem (by simp [Xml.isElem])

/-- What is declared by a variable with an initial value in front of its type. -/
theorem declared_init {i s : Xml} (hi : isInitializer i = true) (hs : s.isElem = true)
    (hinit : isInitializer s = false) (name : Text) :
    declared (initializedName name [i, s]) = ⟨some name, some (essence s), initialOf i⟩ := by
  have helem : i.isElem = true := by
    cases i with
    | elem n attrs cs => rfl
    | text t => exact absurd hi (by simp [isInitializer])
    | comment t => exact absurd hi (by simp [isInitializer])
  simp [declared, initializedName, elements_cons_of_isElem helem, elements_cons_of_isElem hs, hi,
    hinit]

theorem declared_plain {s : Xml} (hs : s.isElem = true) (hinit : isInitializer s = false)
    (name : Text) : declared (initializedName name [s]) = ⟨some name, some (essence s), none⟩ := by
  simp [declared, initializedName, elements_cons_of_isElem hs, hinit]

/-- What comes back of an initial value that is assigned. -/
theorem initialOf_back_iff (e : Operand) (attrs : Attrs) :
    initialOf e.back = initialOf (.elem "SgAssignInitializer" attrs [e.xml]) ↔ e.Fits := by
  have hplace : argumentPlace "SgVariableDeclaration" "SgAssignOp" = false := by decide
  have helem : (rebuilt "SgVariableDeclaration" "SgAssignOp" (displayed e.xml)).isElem = true := by
    rw [isElem_rebuilt, isElem_displayed]; rfl
  have hname (name : String) :
      (rebuilt "SgVariableDeclaration" "SgAssignOp" (displayed e.xml)).hasName name =
        (e.name == name) := by
    rw [hasName_rebuilt hplace, hasName_displayed]; rfl
  have hagg : e.xml.hasName "SgAggregateInitializer" = false := by
    simp [Operand.xml, e.notAggregate]
  have hright : initialOf (.elem "SgAssignInitializer" attrs [e.xml]) =
      some (.expression (essence e.xml)) := initialOf_assign rfl hagg attrs
  rw [hright, Operand.Fits, Operand.back]
  split_ifs with h
  · -- A constructor is not an expression any more.
    rw [initialOf_constructor (by rw [hname, h]; rfl)]
    simp [h]
  · rw [initialOf_assign helem (by rw [hname]; exact hagg), Option.some.injEq,
      Initial.expression.injEq, essence_rebuilt_iff.1]
    exact ⟨fun hkept => ⟨h, hkept⟩, And.right⟩

/-- When an array or a pointer to an array comes back. -/
theorem essence_arrayOrPointer_iff {s : Xml} (hs : s.isElem = true) (pointer : Bool) (b : Base)
    (d : Dims) :
    (essence (arrayOrPointer pointer s d) = essence (arrayXml b d) ↔
      pointer = false ∧ essence s = essence b.xml ∧ keepsReferences d.xml = true) ∧
    (essence (arrayOrPointer pointer s d) = essence (VarType.pointerToArray b d).xml ↔
      pointer = true ∧ essence s = essence b.xml ∧ keepsReferences d.xml = true) := by
  rw [← essence_arrayType_iff hs]
  cases pointer with
  | false =>
      refine ⟨⟨fun h => ⟨rfl, h⟩, And.right⟩, ⟨fun h => ?_, fun h => absurd h.1 (by decide)⟩⟩
      simp only [arrayOrPointer, arrayType, VarType.xml, essence] at h
      injection h with hname
      exact absurd hname (by decide)
  | true =>
      constructor
      · refine ⟨fun h => ?_, fun h => absurd h.1 (by decide)⟩
        simp only [arrayOrPointer, arrayXml, essence] at h
        injection h with hname
        exact absurd hname (by decide)
      · have harray : (arrayType [s] [displayed d.xml]).isElem = true := rfl
        have hxml : (arrayXml b d).isElem = true := rfl
        rw [arrayOrPointer, if_pos rfl, VarType.xml, essence, essence,
          essences_cons_of_isElem harray, essences_cons_of_isElem hxml]
        refine ⟨fun h => ⟨rfl, ?_⟩, fun h => by rw [h.2]⟩
        injection h with _ _ hall
        injection hall

theorem initialOf_aggregate (attrs as ls : Attrs) (vs more : List Xml) :
    initialOf (.elem "SgAssignInitializer" attrs
      [.elem "SgAggregateInitializer" as (.elem "SgExprListExp" ls vs :: more)]) =
      some (.aggregate (essence (.elem "SgExprListExp" ls vs))) := by
  simp [initialOf]

/-- Every initial value is seen. -/
theorem initialOf_xml_ne_none (i : Initializer) : initialOf i.xml ≠ none := by
  rcases i with ⟨as, e⟩ | ⟨as, bs, ls, vs, ms⟩ | ⟨as, cs⟩
  · have hagg : e.xml.hasName "SgAggregateInitializer" = false := by
      simp [Operand.xml, e.notAggregate]
    rw [Initializer.xml, initialOf_assign rfl hagg]
    exact Option.some_ne_none _
  · rw [Initializer.xml, initialOf_aggregate]
    exact Option.some_ne_none _
  · rw [Initializer.xml, initialOf_constructor rfl]
    exact Option.some_ne_none _

/-- A variable comes back exactly if its templates belong together. -/
theorem restored_iff {s : Xml} (hs : s.isElem = true) (hinit : isInitializer s = false)
    (pointer : Bool) (v : Variable) :
    declared (initializedName v.name (v.back s pointer)) = declared v.xml ↔
      v.FitsAs (essence s) pointer := by
  obtain ⟨name, attrs, init, type, hwell⟩ := v
  rw [declared_xml]
  have hback (e : Operand) : isInitializer e.back = true := by
    rw [Operand.back]
    split_ifs with h
    · refine @isInitializer_of_hasName _ "SgConstructorInitializer" ?_ (by decide)
      rw [hasName_rebuilt (by decide), hasName_displayed, Operand.xml, Xml.hasName_elem, h]
      rfl
    · rfl
  have harray (d : Dims) : (arrayOrPointer pointer s d).isElem = true ∧
      isInitializer (arrayOrPointer pointer s d) = false := by
    cases pointer <;> exact ⟨rfl, rfl⟩
  -- Without its initial value a variable is not the same.
  have hlost (i : Initializer) (d : Dims) (t : Xml) :
      ¬ declared (initializedName name [arrayOrPointer pointer s d]) =
        ⟨some name, some (essence t), initialOf i.xml⟩ := by
    rw [declared_plain (harray d).1 (harray d).2, Declared.mk.injEq]
    exact fun h => initialOf_xml_ne_none i h.2.2.symm
  rcases type with b | ⟨b, d⟩ | ⟨b, d⟩
  · rcases init with _ | ⟨as, e⟩ | ⟨as, bs, ls, vs, ms⟩ | ⟨as, cs⟩
    · simp [Variable.back, Variable.FitsAs, declared_plain hs hinit, VarType.xml]
    · simp [Variable.back, Variable.FitsAs, declared_init (hback e) hs hinit, VarType.xml,
        Initializer.xml, initialOf_back_iff e as]
    · exact absurd rfl (hwell b rfl as bs ls vs ms)
    · have hname : (rebuilt "SgVariableDeclaration" "SgAssignOp"
          (displayed (.elem "SgConstructorInitializer" as cs))).hasName
            "SgConstructorInitializer" = true := by
        rw [hasName_rebuilt (by decide), hasName_displayed]; rfl
      have hi := isInitializer_of_hasName hname (by decide)
      have hright := initialOf_constructor (x := .elem "SgConstructorInitializer" as cs) rfl
      simp [Variable.back, Variable.FitsAs, declared_init hi hs hinit, VarType.xml,
        Initializer.xml, initialOf_constructor hname, hright, essence_rebuilt_iff.1]
  · rcases init with _ | ⟨as, e⟩ | ⟨as, bs, ls, vs, ms⟩ | ⟨as, cs⟩
    · simp [Variable.back, Variable.FitsAs, declared_plain (harray d).1 (harray d).2, VarType.xml,
        (essence_arrayOrPointer_iff hs pointer b d).1]
    · simp [Variable.back, Variable.FitsAs, declared_init (hback e) hs hinit, VarType.xml,
        Initializer.xml, initialOf_back_iff e as]
    · have hlist := displayed_list ls vs
      have hkept := essence_displayed (.elem "SgExprListExp" ls vs)
      rw [hlist] at hkept
      have hleft := initialOf_aggregate [] [] ls (displayedAll vs) [.elem "SgTypeDefault" [] []]
      simp only [Variable.back, Variable.FitsAs, VarType.xml, Initializer.xml, hlist,
        declared_init (i := .elem "SgAssignInitializer" [] _) rfl
          (show (arrayType [s] [displayed d.xml]).isElem = true from rfl) rfl,
        hleft, Option.map_some, Option.bind_some, initialOf_aggregate, Declared.mk.injEq,
        Option.some.injEq, Initial.aggregate.injEq, essence_arrayType_iff hs, hkept, true_and]
    · exact iff_of_false (hlost (.constructor as cs) d (arrayXml b d)) not_false
  · rcases init with _ | i
    · simp [Variable.back, Variable.FitsAs, declared_plain (harray d).1 (harray d).2,
        (essence_arrayOrPointer_iff hs pointer b d).2]
    · exact iff_of_false (hlost i d (VarType.pointerToArray b d).xml) not_false

end Back

end Restored

section Runs

/-- The elements in front of a child hold more than those that are not counted. -/
def Passed (before : List Xml) : Prop :=
  ∀ name ∈ ["xev_pragma", "xev_pramga"], isFirst name before = false

theorem named_length_le (name : String) (ns : List Xml) :
    (named name ns).length ≤ (elements ns).length := by
  rw [← named_elements]
  exact List.length_filter_le _ _

theorem isFirst_append {name : String} {before : List Xml} (h : isFirst name before = false)
    (after : List Xml) : isFirst name (before ++ after) = false := by
  have hle := named_length_le name after
  rw [isFirst, beq_eq_false_iff_ne] at h ⊢
  rw [elements_append, named_append_length, List.length_append]
  omega

theorem Passed.append {before : List Xml} (h : Passed before) (after : List Xml) :
    Passed (before ++ after) := fun name hname => isFirst_append (h name hname) after

theorem Passed.whenFirst {before : List Xml} (h : Passed before) (v : Variable) (types : List Xml) :
    whenFirst v.uncounted before types = [] := by
  have hmem : v.uncounted ∈ ["xev_pragma", "xev_pramga"] := by
    rw [Variable.uncounted]
    split <;> simp
  rw [Vardec.whenFirst, h _ hmem]
  rfl

/-- Behind a variable no other one is the first. -/
theorem passed_variable (v : Variable) : Passed [v.xml] := by
  intro name hname
  have hne : name ≠ "SgInitializedName" := by
    rintro rfl
    exact absurd hname (by decide)
  simp [isFirst, Variable.xml, Ne.symm hne]

theorem unvardecFrom_append (second before xs ys : List Xml) :
    unvardecFrom second before (xs ++ ys) =
      unvardecFrom second before xs ++ unvardecFrom second (before ++ xs) ys := by
  induction xs generalizing before with
  | nil => simp [unvardecFrom]
  | cons x xs ih => simp [unvardecFrom, ih]

theorem declaredVariables_append (xs ys : List Xml) :
    declaredVariables (xs ++ ys) = declaredVariables xs ++ declaredVariables ys := by
  rw [declaredVariables, named_append, List.map_append]
  rfl

/-- The elements that stand for a variable in the declaration that is displayed. -/
def itemNames : List String := ["SgVarRefExp", "SgPntrArrRefExp", "SgAssignOp"]

/-- What does not stand for a variable does not come back as one. -/
theorem declaredVariables_unvardecChild {x : Xml} (hitem : ∀ n ∈ itemNames, x.hasName n = false)
    (hname : x.hasName "SgInitializedName" = false) (second : List Xml) (pointer : Bool) :
    declaredVariables (unvardecChild second pointer x) = [] := by
  cases x with
  | elem n attrs cs =>
      have hplace : argumentPlace "" "SgVariableDeclaration" = false := by decide
      have hback := hasName_rebuilt hplace "SgInitializedName" (.elem n attrs cs)
      simp only [itemNames, List.forall_mem_cons, Xml.hasName_elem, beq_eq_false_iff_ne] at hitem
      obtain ⟨hvar, harr, hassign, -⟩ := hitem
      rw [unvardecChild, if_neg hvar, if_neg harr, if_neg hassign]
      split_ifs with hpragma
      · simp [declaredVariables, hpragma]
      · simp [declaredVariables, hback, hname]
  | text t => rfl
  | comment t => rfl

/-- A type does not stand for a variable. -/
theorem hasName_shared (v : Variable) {name : String} (h : name ∈ notTypes)
    (harray : name ≠ "SgArrayType") : (displayed v.shared).hasName name = false := by
  have hpointer : name ≠ "SgPointerType" := by
    rintro rfl
    exact absurd h (by decide)
  rw [hasName_displayed, Variable.shared]
  split
  · exact hasName_base _ h
  · simp [arrayXml, harray.symm]
  · exact hasName_base _ h
  · simp [hpointer.symm]

theorem hasName_other (o : Other) {name : String} (h : name ∉ otherNames) :
    (displayed o.xml).hasName name = false := by
  have hne : o.name ≠ name := fun ho => h (ho ▸ o.other)
  rw [hasName_displayed, Other.xml, Xml.hasName_elem, beq_eq_false_iff_ne]
  exact hne

theorem hasName_item (v : Variable) {name : String} (h : name ∉ itemNames) :
    v.item.hasName name = false := by
  simp only [itemNames, List.mem_cons, List.not_mem_nil, or_false, not_or] at h
  rw [Variable.item]
  split <;> simp [variableRef, Ne.symm h.1, Ne.symm h.2.1, Ne.symm h.2.2]

/-- No pragma is in a variable. -/
theorem pragmas_variable (v : Variable) : named "xev_pragma" v.xml.children = [] := by
  obtain ⟨name, attrs, init, type, hwell⟩ := v
  have htype : type.xml.hasName "xev_pragma" = false := by
    cases type with
    | scalar b => exact hasName_base b (by decide)
    | array b d => rfl
    | pointerToArray b d => rfl
  rcases init with _ | ⟨as, e⟩ | ⟨as, bs, ls, vs, ms⟩ | ⟨as, cs⟩ <;>
    simp [Variable.xml, Initializer.xml, htype]

theorem vardecChildren_variable (before : List Xml) (v : Variable) (xs : List Xml) :
    vardecChildren before (v.xml :: xs) =
      whenFirst v.uncounted before [displayed v.shared] ++ v.item ::
        vardecChildren (before ++ [v.xml]) xs := by
  rw [vardecChildren, if_pos (pragmas_variable v), vardecChild_variable, List.append_assoc]
  rfl

theorem vardecChildren_other (before : List Xml) (o : Other) (xs : List Xml) :
    vardecChildren before (o.xml :: xs) =
      displayed o.xml :: vardecChildren (before ++ [o.xml]) xs := by
  have hname : o.name ≠ "SgInitializedName" := by
    intro h
    have hother := o.other
    rw [h] at hother
    exact absurd hother (by decide)
  have hchild : vardecChild before o.xml = [displayed o.xml] := by
    rw [Other.xml, vardecChild, if_neg hname]
  have hplain : named "xev_pragma" o.xml.children = [] := o.plain
  rw [vardecChildren, if_pos hplain, hchild]
  rfl

/-- Whether a pointer type is among some elements. -/
def hasPointer (before : List Xml) : Bool := !(named "SgPointerType" before).isEmpty

theorem hasPointer_append_cons {x : Xml} (h : x.hasName "SgPointerType" = false)
    (before : List Xml) : hasPointer (before ++ [x]) = hasPointer before := by
  simp [hasPointer, named_append, h]

theorem declaredVariables_unvardecFrom_item {s : Xml}
    (hfix : rebuilt "" "SgVariableDeclaration" s = s) (before : List Xml) (v : Variable)
      (xs : List Xml) :
    declaredVariables (unvardecFrom [s] before (v.item :: xs)) =
      declared (initializedName v.name (v.back s (hasPointer before))) ::
        declaredVariables (unvardecFrom [s] (before ++ [v.item]) xs) := by
  rw [unvardecFrom, unvardecChild_item _ hfix, declaredVariables_append]
  rfl

/-- Every variable comes back with the second child in the place of its type. Behind the first
    variable there is no other pointer type. -/
theorem forall₂_declared {s : Xml} (hfix : rebuilt "" "SgVariableDeclaration" s = s)
    (ks : List Child) (before shown : List Xml) :
    List.Forall₂ (fun (v : Variable) d => ∃ pointer,
        d = declared (initializedName v.name (v.back s pointer)) ∧
          (Passed before → pointer = hasPointer shown))
      (variablesOf ks)
      (declaredVariables (unvardecFrom [s] shown (vardecChildren before (ks.map Child.xml)))) := by
  induction ks generalizing before shown with
  | nil => exact .nil
  | cons k ks ih =>
      cases k with
      | declares v =>
          rw [List.map_cons, Child.xml, vardecChildren_variable, unvardecFrom_append,
            declaredVariables_append, declaredVariables_unvardecFrom_item hfix, variablesOf]
          -- The type written before the first name declares nothing.
          have htype : declaredVariables
              (unvardecFrom [s] shown (whenFirst v.uncounted before [displayed v.shared])) =
                [] := by
            rw [whenFirst]
            split_ifs
            · rw [unvardecFrom, unvardecFrom, List.append_nil]
              refine declaredVariables_unvardecChild (fun n hn => hasName_shared v ?_ ?_)
                (hasName_shared v (by decide) (by decide)) _ _
              · exact List.mem_append_left _ (by
                  simp only [itemNames, List.mem_cons, List.not_mem_nil, or_false] at hn
                  rcases hn with rfl | rfl | rfl <;> decide)
              · rintro rfl
                exact absurd hn (by decide)
            · rfl
          rw [htype, List.nil_append]
          refine .cons ⟨_, rfl, fun h => ?_⟩ ?_
          · rw [h.whenFirst, List.append_nil]
          · refine (ih _ _).imp fun w d hd => ?_
            obtain ⟨pointer, hd, hpointer⟩ := hd
            refine ⟨pointer, hd, fun h => ?_⟩
            rw [hpointer (h.append _), h.whenFirst, List.append_nil,
              hasPointer_append_cons (hasName_item v (by decide))]
      | other o =>
          rw [List.map_cons, Child.xml, vardecChildren_other, unvardecFrom,
            declaredVariables_append, variablesOf,
            declaredVariables_unvardecChild (fun n hn => hasName_other o ?_)
              (hasName_other o (by decide)), List.nil_append]
          · refine (ih _ _).imp fun w d hd => ?_
            obtain ⟨pointer, hd, hpointer⟩ := hd
            refine ⟨pointer, hd, fun h => ?_⟩
            rw [hpointer (h.append _), hasPointer_append_cons (hasName_other o (by decide))]
          · simp only [itemNames, List.mem_cons, List.not_mem_nil, or_false] at hn
            rcases hn with rfl | rfl | rfl <;> decide

end Runs

section Main

/-- What is in the declaration that is displayed. -/
theorem mem_vardecChildren {ks : List Child} {before : List Xml} {x : Xml}
    (h : x ∈ vardecChildren before (ks.map Child.xml)) :
    x.isElem = true ∧ x.hasName "modifier_list" = false := by
  induction ks generalizing before with
  | nil => exact absurd h List.not_mem_nil
  | cons k ks ih =>
      cases k with
      | declares v =>
          rw [List.map_cons, Child.xml, vardecChildren_variable, List.mem_append,
            List.mem_cons] at h
          rcases h with h | rfl | h
          · have hx : x = displayed v.shared := by
              rw [whenFirst] at h
              split_ifs at h
              · exact List.mem_singleton.mp h
              · exact absurd h List.not_mem_nil
            have helem : v.shared.isElem = true := by
              rw [Variable.shared]
              split <;> rfl
            rw [hx, isElem_displayed]
            exact ⟨helem, hasName_shared v (by decide) (by decide)⟩
          · have helem : v.item.isElem = true := by
              rw [Variable.item]
              split <;> rfl
            exact ⟨helem, hasName_item v (by decide)⟩
          · exact ih h
      | other o =>
          rw [List.map_cons, Child.xml, vardecChildren_other, List.mem_cons] at h
          rcases h with rfl | h
          · rw [isElem_displayed]
            exact ⟨rfl, hasName_other o (by decide)⟩
          · exact ih h

/-- The modifiers that come back are read from the list that is displayed. -/
theorem unvardec_modifiers (d : Declaration) :
    (unvardec d.modifiers.declaration_modifier (vardec d.modifiers d.nodes)).1 =
      restoredModifiers d.modifiers.declaration_modifier (modifierList d.modifiers) := by
  have hnone : named "modifier_list" (vardecChildren [] d.nodes) = [] := by
    refine List.filter_eq_nil_iff.mpr fun x hx => ?_
    rw [(mem_vardecChildren hx).2]
    decide
  simp [unvardec, vardec, hnone]

theorem elements_vardec (d : Declaration) :
    elements (vardec d.modifiers d.nodes) = vardec d.modifiers d.nodes := by
  refine List.filter_eq_self.mpr fun x hx => ?_
  rcases List.mem_cons.mp hx with rfl | hx
  · rfl
  · exact (mem_vardecChildren hx).1

/-- The children that come back, if there are some that are displayed. -/
theorem unvardec_children {d : Declaration} {s : Xml} {xs : List Xml}
    (h : vardecChildren [] d.nodes = s :: xs) :
    (unvardec d.modifiers.declaration_modifier (vardec d.modifiers d.nodes)).2 =
      unvardecFrom [s] [.elem "modifier_list" [] (modifierList d.modifiers), s] xs := by
  rw [unvardec, nth, elements_vardec, vardec, h]
  rfl

theorem declaredVariables_nodes (ks : List Child) :
    declaredVariables (ks.map Child.xml) = (variablesOf ks).map fun v => declared v.xml := by
  induction ks with
  | nil => rfl
  | cons k ks ih =>
      cases k with
      | declares v =>
          have hname : v.xml.hasName "SgInitializedName" = true := rfl
          rw [variablesOf, List.map_cons, List.map_cons, ← ih, declaredVariables, Child.xml,
            named_cons, if_pos hname]
          rfl
      | other o =>
          have hname : o.xml.hasName "SgInitializedName" = false := by
            rw [← hasName_displayed]
            exact hasName_other o (by decide)
          rw [variablesOf, List.map_cons, ← ih, declaredVariables, Child.xml, named_cons, hname]
          rfl

theorem argumentPlace_eq {above : String} (h : above ≠ "SgFunctionCallExp")
    (h' : above ≠ "SgConstructorInitializer") (parent : String) :
    argumentPlace above parent = argumentPlace "" parent := by
  have hc : (above == "SgFunctionCallExp") = false := beq_eq_false_iff_ne.mpr h
  have hc' : (above == "SgConstructorInitializer") = false := beq_eq_false_iff_ne.mpr h'
  rw [argumentPlace, argumentPlace, hc, hc']
  rfl

/-- The way back changes nothing in the type that is shared. -/
theorem rebuilt_shared (v : Variable) :
    rebuilt "" "SgVariableDeclaration" (displayed v.shared) = displayed v.shared := by
  have hbase (b : Base) {above parent : String} (hparent : parent ∈
      ["SgVariableDeclaration", "SgArrayType", "SgPointerType"]) :
      keepsArguments above parent b.xml = true := by
    have hcall : parent ≠ "SgFunctionCallExp" := by rintro rfl; exact absurd hparent (by decide)
    have hcons : parent ≠ "SgConstructorInitializer" := by
      rintro rfl
      exact absurd hparent (by decide)
    have hlist : (parent == "SgExprListExp") = false := by
      rw [beq_eq_false_iff_ne]
      rintro rfl
      exact absurd hparent (by decide)
    rw [Base.xml, keepsArguments, keepsArgumentsAll_congr (argumentPlace_eq hcall hcons),
      b.arguments, argumentPlace, hlist, Bool.false_and, Bool.and_false]
    rfl
  have harray (b : Base) (d : Dims) :
      keepsArguments "" "SgVariableDeclaration" (arrayXml b d) = true := by
    have hdims : keepsArguments "SgVariableDeclaration" "SgArrayType" d.xml = true := by
      rw [Dims.xml, keepsArguments,
        keepsArgumentsAll_congr (argumentPlace_eq (by decide) (by decide)), d.arguments]
      rfl
    rw [arrayXml, keepsArguments, keepsArgumentsAll, keepsArgumentsAll, keepsArgumentsAll,
      hbase b (by decide), hdims]
    rfl
  refine rebuilt_displayed.1 v.shared "" "SgVariableDeclaration" ?_
  rw [Variable.shared]
  split
  · exact hbase _ (by decide)
  · exact harray _ _
  · exact hbase _ (by decide)
  · rw [keepsArguments, keepsArgumentsAll, hbase _ (by decide)]
    rfl

/-- A comment, a directive or a pragma is not changed on the way back. -/
theorem rebuilt_other (o : Other) :
    rebuilt "" "SgVariableDeclaration" (displayed o.xml) = displayed o.xml := by
  refine rebuilt_displayed.1 o.xml "" "SgVariableDeclaration" ?_
  rw [Other.xml, keepsArguments, keepsArgumentsAll_congr (argumentPlace_eq (by decide) (by decide)),
    o.arguments, argumentPlace, Bool.and_true, Bool.not_eq_true']
  have hplace : ("SgVariableDeclaration" == "SgExprListExp") = false := by decide
  rw [hplace, Bool.false_and, Bool.and_false]

/-- A variable fits the type it is the first one with only if the type has nothing to lose. -/
theorem Variable.FitsAs.keepsReferences {v : Variable} {pointer : Bool}
    (h : v.FitsAs (essence (displayed v.shared)) pointer) : keepsReferences v.shared = true := by
  rw [← essence_displayed]
  obtain ⟨name, attrs, init, type, hwell⟩ := v
  rcases type with b | ⟨b, d⟩ | ⟨b, d⟩
  · rcases init with _ | ⟨as, e⟩ | ⟨as, bs, ls, vs, ms⟩ | ⟨as, cs⟩
    · exact h
    · exact h.1
    · exact False.elim h
    · exact h.1
  · rcases init with _ | ⟨as, e⟩ | ⟨as, bs, ls, vs, ms⟩ | ⟨as, cs⟩
    · exact h.2.1
    · exact h.1
    · exact h.1.1
    · exact False.elim h
  · rcases init with _ | i
    · exact absurd h.2.1 (essence_displayed_pointer.1 b.xml)
    · exact False.elim h

theorem hasName_essence (name : String) (x : Xml) : (essence x).hasName name = x.hasName name := by
  cases x with
  | elem n attrs cs => rfl
  | text t => rfl
  | comment t => rfl

/-- Nothing fits what is not a type. -/
theorem not_fitsAs_other (o : Other) (pointer : Bool) (v : Variable) :
    ¬ v.FitsAs (essence (displayed o.xml)) pointer := by
  have hother {x : Xml} (hname : x.hasName o.name = false) :
      essence (displayed o.xml) ≠ essence x := by
    intro h
    have hleft : (essence (displayed o.xml)).hasName o.name = true := by
      rw [hasName_essence, hasName_displayed, Other.xml, Xml.hasName_elem, beq_self_eq_true]
    rw [h, hasName_essence, hname] at hleft
    exact absurd hleft (by decide)
  have hbase (b : Base) : essence (displayed o.xml) ≠ essence b.xml :=
    hother (hasName_base b (List.mem_append_right _ o.other))
  have harray (b : Base) (d : Dims) : essence (displayed o.xml) ≠ essence (arrayXml b d) := by
    refine hother ?_
    rw [arrayXml, Xml.hasName_elem, beq_eq_false_iff_ne]
    intro hname
    have hmem := o.other
    rw [← hname] at hmem
    exact absurd hmem (by decide)
  intro h
  obtain ⟨name, attrs, init, type, hwell⟩ := v
  rcases type with b | ⟨b, d⟩ | ⟨b, d⟩
  · rcases init with _ | ⟨as, e⟩ | ⟨as, bs, ls, vs, ms⟩ | ⟨as, cs⟩
    · exact hbase b h
    · exact hbase b h.1
    · exact h
    · exact hbase b h.1
  · rcases init with _ | ⟨as, e⟩ | ⟨as, bs, ls, vs, ms⟩ | ⟨as, cs⟩
    · exact hbase b h.2.1
    · exact harray b d h.1
    · exact hbase b h.1.1
    · exact h
  · rcases init with _ | i
    · exact hbase b h.2.1
    · exact h

theorem isInitializer_of_not {x : Xml} (h : ∀ n ∈ initializers, x.hasName n = false) :
    isInitializer x = false := by
  cases x with
  | elem n attrs cs =>
      have hne : n ∉ initializers := fun hmem => absurd (h n hmem) (by simp)
      simpa using hne
  | text t => rfl
  | comment t => rfl

theorem isElem_shared (v : Variable) : (displayed v.shared).isElem = true := by
  rw [isElem_displayed, Variable.shared]
  split <;> rfl

/-- In a declaration that begins with a variable its type comes back in all variables. -/
theorem declaredVariables_back {d : Declaration} {v : Variable} {ks : List Child}
    (hd : d.children = .declares v :: ks) :
    declaredVariables (unvardec d.modifiers.declaration_modifier (vardec d.modifiers d.nodes)).2 =
      (variablesOf d.children).map fun w => declared (initializedName w.name
        (w.back (displayed v.shared) (v.shared.hasName "SgPointerType"))) := by
  have hfix := rebuilt_shared v
  have hfirst : whenFirst v.uncounted [] [displayed v.shared] = [displayed v.shared] := rfl
  have hshown : vardecChildren [] d.nodes =
      displayed v.shared :: v.item :: vardecChildren [v.xml] (ks.map Child.xml) := by
    rw [Declaration.nodes, hd, List.map_cons, Child.xml, vardecChildren_variable, hfirst]
    rfl
  have hpointer : hasPointer [.elem "modifier_list" [] (modifierList d.modifiers),
      displayed v.shared] = v.shared.hasName "SgPointerType" := by
    rw [← hasName_displayed]
    cases hp : (displayed v.shared).hasName "SgPointerType" <;> simp [hasPointer, hp]
  rw [unvardec_children hshown, declaredVariables_unvardecFrom_item hfix, hpointer, hd,
    variablesOf, List.map_cons]
  congr 1
  have hrest := forall₂_declared hfix ks [v.xml]
    ([.elem "modifier_list" [] (modifierList d.modifiers), displayed v.shared] ++ [v.item])
  rw [← List.forall₂_eq_eq_eq, List.forall₂_map_right_iff]
  refine hrest.flip.imp fun w x hx => ?_
  obtain ⟨pointer, hw, hsame⟩ := hx
  rw [hw, hsame (passed_variable v), hasPointer_append_cons (hasName_item v (by decide)), hpointer]

/-- The variables of a declaration that begins with one. -/
theorem declared_iff_of_variable {d : Declaration} {v : Variable} {ks : List Child}
    (hd : d.children = .declares v :: ks) :
    declaredVariables (unvardec d.modifiers.declaration_modifier (vardec d.modifiers d.nodes)).2 =
        declaredVariables d.nodes ↔
      keepsReferences v.shared = true ∧ ∀ w ∈ variablesOf d.children, w.Fits v.shared := by
  have hinit : isInitializer (displayed v.shared) = false := by
    refine isInitializer_of_not fun n hn => hasName_shared v ?_ ?_
    · exact List.mem_append_left _ (List.mem_append_right _ hn)
    · rintro rfl
      exact absurd hn (by decide)
  have hiff (w : Variable) := restored_iff (isElem_shared v) hinit
    (v.shared.hasName "SgPointerType") w
  rw [declaredVariables_back hd, Declaration.nodes, declaredVariables_nodes, List.map_inj_left]
  simp only [hiff]
  constructor
  · intro h
    have hv : v ∈ variablesOf d.children := by
      rw [hd]
      exact List.mem_cons_self
    have hkeeps := (h v hv).keepsReferences
    rw [(essence_displayed v.shared).mpr hkeeps] at h
    exact ⟨hkeeps, h⟩
  · rintro ⟨hkeeps, h⟩
    rw [(essence_displayed v.shared).mpr hkeeps]
    exact h

/-- The variables of a declaration that begins with something else. -/
theorem declared_iff_of_other {d : Declaration} {o : Other} {ks : List Child}
    (hd : d.children = .other o :: ks) :
    declaredVariables (unvardec d.modifiers.declaration_modifier (vardec d.modifiers d.nodes)).2 =
        declaredVariables d.nodes ↔ variablesOf d.children = [] := by
  have hshown : vardecChildren [] d.nodes =
      displayed o.xml :: vardecChildren [o.xml] (ks.map Child.xml) := by
    rw [Declaration.nodes, hd, List.map_cons, Child.xml, vardecChildren_other]
    rfl
  have hback := forall₂_declared (rebuilt_other o) ks [o.xml]
    [.elem "modifier_list" [] (modifierList d.modifiers), displayed o.xml]
  rw [unvardec_children hshown, Declaration.nodes, declaredVariables_nodes, hd, variablesOf]
  constructor
  · intro h
    rw [h, List.forall₂_map_right_iff] at hback
    cases hvs : variablesOf ks with
    | nil => rfl
    | cons v vs =>
        rw [hvs] at hback
        cases hback with
        | cons hv _ =>
            obtain ⟨pointer, hv, -⟩ := hv
            have helem : (displayed o.xml).isElem = true := by
              rw [isElem_displayed]
              rfl
            have hinit : isInitializer (displayed o.xml) = false := by
              refine isInitializer_of_not fun n hn => hasName_other o fun hmem => ?_
              have hall : ∀ n ∈ initializers, n ∉ otherNames := by decide
              exact hall n hn hmem
            exact absurd ((restored_iff helem hinit pointer v).mp hv.symm)
              (not_fitsAs_other o pointer v)
  · intro h
    rw [h] at hback ⊢
    exact List.forall₂_nil_left_iff.mp hback

/-- A declaration comes back exactly if its bits have names that are looked for, and the templates
    for its variables belong together. -/
theorem givesBack_iff (d : Declaration) : GivesBack d ↔ d.modifiers.Known ∧ d.Fits := by
  have hvariables : declaredVariables
      (unvardec d.modifiers.declaration_modifier (vardec d.modifiers d.nodes)).2 =
        declaredVariables d.nodes ↔ d.Fits := by
    cases hd : d.children with
    | nil =>
        have hnone : d.nodes = [] := by rw [Declaration.nodes, hd, List.map_nil]
        rw [hnone]
        exact iff_of_true rfl (.inl (by rw [hd]; rfl))
    | cons k ks =>
        cases k with
        | declares v =>
            rw [declared_iff_of_variable hd, Declaration.Fits]
            constructor
            · exact fun h => .inr ⟨v, ks, hd, h⟩
            · rintro (hnone | ⟨w, ms, hw, h⟩)
              · rw [hd, variablesOf] at hnone
                exact absurd hnone (List.cons_ne_nil _ _)
              · rw [hd] at hw
                injection hw with hvw
                injection hvw with hvw
                rw [hvw]
                exact h
        | other o =>
            -- Where something else stands first, no variable comes back.
            rw [declared_iff_of_other hd, Declaration.Fits]
            refine ⟨.inl, ?_⟩
            rintro (hnone | ⟨w, ms, hw, -⟩)
            · exact hnone
            · rw [hd] at hw
              injection hw with hvw
              exact absurd hvw (by simp)
  rw [← sameValues_restored_iff, ← hvariables]
  constructor
  · intro h
    refine ⟨?_, h.declared⟩
    rw [← unvardec_modifiers]
    exact h.values
  · rintro ⟨hvalues, hdeclared⟩
    refine ⟨?_, hdeclared⟩
    rw [unvardec_modifiers]
    exact hvalues

/-- The type of a whole number. -/
def intType : Base where
  name := "SgTypeInt"
  attrs := []
  children := []
  type := by decide
  notPointer := by decide
  arguments := rfl

/-- One dimension with ten elements. -/
def tenElements : Dims where
  attrs := []
  children := [.elem "SgIntVal" [("value", "10".toList)] []]
  arguments := rfl

/-- A number and an array whose elements are all set to zero. -/
def mixedDeclaration : Declaration where
  modifiers := ⟨some 2, some 2, none, none, none, none, none⟩
  children := [
    .declares ⟨['a'], [], none, .scalar intType, by simp⟩,
    .declares ⟨['b'], [],
      some (.expression [] ⟨"SgIntVal", [("value", "0".toList)], [], by decide⟩),
      .array intType tenElements, by simp⟩]

/-- The array comes back without its dimensions. -/
theorem mixedDeclaration_not_givesBack : ¬ GivesBack mixedDeclaration := by
  intro h
  obtain ⟨-, hall⟩ := (declared_iff_of_variable rfl).mp h.declared
  have harray := hall _ (List.mem_cons_of_mem _ List.mem_cons_self)
  have hname : (essence intType.xml).hasName "SgArrayType" = false := by decide
  rw [show essence intType.xml = essence (arrayXml intType tenElements) from harray.1] at hname
  exact absurd hname (by decide)

end Main

end XevXml.Tools.Vardec
