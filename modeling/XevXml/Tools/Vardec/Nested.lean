import XevXml.Trans.Select

/-!
# Inside of a Declared Variable

A declaration is displayed by one stylesheet and brought back by another. Both rewrite the
variables that are declared, and both go through the types and initial values that are in them.
There they only touch a few attributes. A variable that is used is displayed with its name and a
type, whatever else it has. An operator is displayed with the attribute for its parentheses. On
the way back, an assignment among the arguments of a call is made an argument with a keyword.

Much of this does not matter to the reader. It takes the name of a variable and nothing else, and
it reads a missing attribute for parentheses as zero. Two trees are the same for it if their
essence is.

Statements and declarations do not stand inside of types and initial values, so the templates for
them are not here.

## Main definitions

* `displayed`: What `vardec` makes of an element inside of a declared variable.
* `rebuilt`: What `unvardec` makes of it.
* `essence`: What the reader sees of a tree.
* `keepsReferences`, `keepsArguments`: Trees that have nothing to lose.

## Theorems

* `essence_displayed_iff`: When a tree is the same when it has been displayed.
* `essence_rebuilt_iff`: When it is the same when it has been brought back.
-/

namespace XevXml.Tools.Vardec

section Templates

/-- The instruction `copy-of` for an attribute. -/
def copyAttribute (key : String) (attrs : Attrs) : Attrs :=
  match attrs.lookup key with
  | some v => [(key, v)]
  | none => []

/-- The operators that are displayed with an attribute for their parentheses. -/
def operators : List String :=
  ["SgAddOp", "SgAndOp", "SgConcatenationOp", "SgDivideOp", "SgEqualityOp", "SgExponentiationOp",
    "SgGreaterOrEqualOp", "SgGreaterThanOp", "SgLessOrEqualOp", "SgLessThanOp", "SgMultiplyOp",
    "SgNotEqualOp", "SgOrOp", "SgPointerAssignOp", "SgSubtractOp", "SgUserDefinedBinaryOp",
    "SgMinusOp", "SgNotOp", "SgUnaryAddOp", "SgUserDefinedUnaryOp"]

mutual

/-- What `vardec` makes of an element of a type or an initial value. -/
def displayed : Xml → Xml
  | .elem n attrs cs =>
      if n = "SgVarRefExp" ∧ attrs.lookup "type" = none then
        .elem n (copyAttribute "name" attrs ++ [("type", ['_'])]) []
      else if n = "SgVarRefExp" ∧ attrs.lookup "lvalue" ≠ none then
        .elem n (copyAttribute "name" attrs ++ copyAttribute "type" attrs) []
      else if n ∈ operators then
        .elem n (attrs ++ if attrs.lookup "paren" = none then [("paren", ['0'])] else [])
          (displayedElements cs)
      else .elem n attrs (displayedAll cs)
  | .text t => .text t
  | .comment t => .comment t

/-- The templates on all nodes of a list. -/
def displayedAll : List Xml → List Xml
  | [] => []
  | x :: xs => displayed x :: displayedAll xs

/-- The templates on the elements of a list. -/
def displayedElements : List Xml → List Xml
  | [] => []
  | x :: xs => if x.isElem = true then displayed x :: displayedElements xs else displayedElements xs

end

/-- Whether something below two elements is an argument of a call. -/
def argumentPlace (above parent : String) : Bool :=
  parent == "SgExprListExp" && (above == "SgFunctionCallExp" || above == "SgConstructorInitializer")

mutual

/-- What `unvardec` makes of an element of a type or an initial value, with the names of the two
    elements it is in. -/
def rebuilt (above parent : String) : Xml → Xml
  | .elem n attrs cs =>
      if n = "SgAssignOp" ∧ argumentPlace above parent = true then
        .elem "SgActualArgumentExpression" [("name", valueOf "name" (named "SgVarRefExp" cs))]
          (nth 2 cs)
      else .elem n attrs (rebuiltAll parent n cs)
  | .text t => .text t
  | .comment t => .comment t

/-- The templates on all nodes of a list. -/
def rebuiltAll (above parent : String) : List Xml → List Xml
  | [] => []
  | x :: xs => rebuilt above parent x :: rebuiltAll above parent xs

end

end Templates

section Essence

/-- The attributes of an expression that make a difference to the reader. -/
def essential (n : String) (attrs : Attrs) : Attrs :=
  attrs.filter fun p =>
    !(p.1 == "paren" && p.2 == ['0']) &&
      !(n == "SgVarRefExp" && (p.1 == "type" || p.1 == "lvalue"))

mutual

/-- What the reader sees of a tree. -/
def essence : Xml → Xml
  | .elem n attrs cs => .elem n (essential n attrs) (essences cs)
  | .text t => .text t
  | .comment t => .comment t

/-- The reader goes through elements only. -/
def essences : List Xml → List Xml
  | [] => []
  | x :: xs => if x.isElem = true then essence x :: essences xs else essences xs

end

mutual

/-- The variables whose attributes are not kept have nothing but their names. -/
def keepsReferences : Xml → Bool
  | .elem n attrs cs =>
      if n = "SgVarRefExp" ∧ (attrs.lookup "type" = none ∨ attrs.lookup "lvalue" ≠ none) then
        essential n attrs == copyAttribute "name" attrs && (elements cs).isEmpty
      else keepsReferencesAll cs
  | .text _ => true
  | .comment _ => true

/-- The same for all trees of a list. -/
def keepsReferencesAll : List Xml → Bool
  | [] => true
  | x :: xs => keepsReferences x && keepsReferencesAll xs

end

mutual

/-- No argument of a call is an assignment. -/
def keepsArguments (above parent : String) : Xml → Bool
  | .elem n _ cs =>
      !(n == "SgAssignOp" && argumentPlace above parent) && keepsArgumentsAll parent n cs
  | .text _ => true
  | .comment _ => true

/-- The same for all trees of a list. -/
def keepsArgumentsAll (above parent : String) : List Xml → Bool
  | [] => true
  | x :: xs => keepsArguments above parent x && keepsArgumentsAll above parent xs

end

@[simp]
theorem isElem_displayed (x : Xml) : (displayed x).isElem = x.isElem := by
  cases x with
  | elem n attrs cs =>
      rw [displayed]
      split_ifs <;> rfl
  | text t => rfl
  | comment t => rfl

@[simp]
theorem hasName_displayed (name : String) (x : Xml) :
    (displayed x).hasName name = x.hasName name := by
  cases x with
  | elem n attrs cs =>
      rw [displayed]
      split_ifs <;> rfl
  | text t => rfl
  | comment t => rfl

@[simp]
theorem isElem_rebuilt (above parent : String) (x : Xml) :
    (rebuilt above parent x).isElem = x.isElem := by
  cases x with
  | elem n attrs cs =>
      rw [rebuilt]
      split_ifs <;> rfl
  | text t => rfl
  | comment t => rfl

theorem essences_cons_of_isElem {x : Xml} (h : x.isElem = true) (xs : List Xml) :
    essences (x :: xs) = essence x :: essences xs := by
  rw [essences, if_pos h]

theorem essences_cons_of_not {x : Xml} (h : ¬ x.isElem = true) (xs : List Xml) :
    essences (x :: xs) = essences xs := by
  rw [essences, if_neg h]

theorem essences_eq (xs : List Xml) : essences xs = (elements xs).map essence := by
  induction xs with
  | nil => rfl
  | cons x xs ih =>
      by_cases hx : x.isElem = true
      · rw [essences_cons_of_isElem hx, elements_cons_of_isElem hx, List.map_cons, ih]
      · rw [essences_cons_of_not hx, ih, elements, elements, List.filter_cons_of_neg hx]

theorem displayedAll_eq (xs : List Xml) : displayedAll xs = xs.map displayed := by
  induction xs with
  | nil => rfl
  | cons x xs ih => rw [displayedAll, ih, List.map_cons]

theorem displayedElements_eq (xs : List Xml) :
    displayedElements xs = (elements xs).map displayed := by
  induction xs with
  | nil => rfl
  | cons x xs ih =>
      rw [displayedElements, ih]
      by_cases hx : x.isElem = true
      · rw [if_pos hx, elements_cons_of_isElem hx, List.map_cons]
      · rw [if_neg hx, elements, elements, List.filter_cons_of_neg hx]

theorem elements_map {f : Xml → Xml} (hf : ∀ x, (f x).isElem = x.isElem) (xs : List Xml) :
    elements (xs.map f) = (elements xs).map f := by
  rw [elements, elements, List.filter_map]
  congr 1
  exact List.filter_congr fun x _ => hf x

/-- The reader does not notice whether the nodes that are not elements have been copied. -/
theorem essences_displayedElements (xs : List Xml) :
    essences (displayedElements xs) = essences (displayedAll xs) := by
  rw [essences_eq, essences_eq, displayedElements_eq, displayedAll_eq,
    elements_map isElem_displayed, elements_map isElem_displayed, elements_elements]

end Essence

section Kept

theorem essential_copyName (attrs : Attrs) :
    essential "SgVarRefExp" (copyAttribute "name" attrs) = copyAttribute "name" attrs := by
  rw [copyAttribute]
  cases attrs.lookup "name" with
  | none => rfl
  | some v => simp [essential]

theorem essential_append (n : String) (a b : Attrs) :
    essential n (a ++ b) = essential n a ++ essential n b := List.filter_append ..

theorem essential_typed (v : Text) : essential "SgVarRefExp" [("type", v)] = [] := by
  simp [essential]

theorem essential_copyType (attrs : Attrs) :
    essential "SgVarRefExp" (copyAttribute "type" attrs) = [] := by
  rw [copyAttribute]
  cases attrs.lookup "type" with
  | none => rfl
  | some v => exact essential_typed v

/-- The attribute for parentheses that an operator is given is not noticed. -/
theorem essential_paren (n : String) (attrs : Attrs) :
    essential n (attrs ++ if attrs.lookup "paren" = none then [("paren", ['0'])] else []) =
      essential n attrs := by
  rw [essential_append]
  split_ifs
  · have hzero : essential n [("paren", ['0'])] = [] := by simp [essential]
    rw [hzero, List.append_nil]
  · exact List.append_nil _

theorem essences_eq_nil_iff (xs : List Xml) : essences xs = [] ↔ elements xs = [] := by
  rw [essences_eq, List.map_eq_nil_iff]

/-- A variable that is left with its name. -/
theorem essence_named_iff {attrs rest : Attrs} {cs : List Xml}
    (hrest : essential "SgVarRefExp" rest = []) :
    essence (.elem "SgVarRefExp" (copyAttribute "name" attrs ++ rest) []) =
        essence (.elem "SgVarRefExp" attrs cs) ↔
      (essential "SgVarRefExp" attrs == copyAttribute "name" attrs && (elements cs).isEmpty) =
        true := by
  have hnil : essences [] = [] := rfl
  rw [essence, essence, essential_append, essential_copyName, hrest, List.append_nil, hnil,
    Bool.and_eq_true, beq_iff_eq, List.isEmpty_iff, ← essences_eq_nil_iff]
  constructor
  · intro h
    injection h with _ hattrs hcs
    exact ⟨hattrs.symm, hcs.symm⟩
  · rintro ⟨hattrs, hcs⟩
    rw [hattrs, hcs]

theorem displayed_untyped {attrs : Attrs} (cs : List Xml) (h : attrs.lookup "type" = none) :
    displayed (.elem "SgVarRefExp" attrs cs) =
      .elem "SgVarRefExp" (copyAttribute "name" attrs ++ [("type", ['_'])]) [] := by
  rw [displayed, if_pos ⟨rfl, h⟩]

theorem displayed_assigned {attrs : Attrs} (cs : List Xml) (htype : attrs.lookup "type" ≠ none)
    (h : attrs.lookup "lvalue" ≠ none) :
    displayed (.elem "SgVarRefExp" attrs cs) =
      .elem "SgVarRefExp" (copyAttribute "name" attrs ++ copyAttribute "type" attrs) [] := by
  rw [displayed, if_neg (fun hc => htype hc.2), if_pos ⟨rfl, h⟩]

/-- An element that is not cut down to its name keeps its name and what the reader sees of its
    attributes. -/
theorem displayed_copied {n : String} {attrs : Attrs} (cs : List Xml)
    (h : ¬ (n = "SgVarRefExp" ∧ (attrs.lookup "type" = none ∨ attrs.lookup "lvalue" ≠ none))) :
    ∃ attrs' cs', displayed (.elem n attrs cs) = .elem n attrs' cs' ∧
      essential n attrs' = essential n attrs ∧
      (cs' = displayedElements cs ∨ cs' = displayedAll cs) := by
  rw [displayed, if_neg (fun hc => h ⟨hc.1, .inl hc.2⟩), if_neg (fun hc => h ⟨hc.1, .inr hc.2⟩)]
  by_cases hop : n ∈ operators
  · rw [if_pos hop]
    exact ⟨_, _, rfl, essential_paren n attrs, .inl rfl⟩
  · rw [if_neg hop]
    exact ⟨_, _, rfl, rfl, .inr rfl⟩

/-- Exactly the trees that have nothing to lose are displayed as they are. -/
theorem essence_displayed_iff :
    (∀ x, essence (displayed x) = essence x ↔ keepsReferences x = true) ∧
      ∀ xs, essences (displayedAll xs) = essences xs ↔ keepsReferencesAll xs = true := by
  refine Xml.induct ?elem ?text ?comment ?nil ?cons
  case elem =>
    intro n attrs cs ih
    by_cases hcut : n = "SgVarRefExp" ∧ (attrs.lookup "type" = none ∨ attrs.lookup "lvalue" ≠ none)
    · rw [keepsReferences, if_pos hcut]
      obtain ⟨rfl, hcut⟩ := hcut
      by_cases htype : attrs.lookup "type" = none
      · rw [displayed_untyped cs htype]
        exact essence_named_iff (essential_typed _)
      · rw [displayed_assigned cs htype (hcut.resolve_left htype)]
        exact essence_named_iff (essential_copyType attrs)
    · rw [keepsReferences, if_neg hcut, ← ih]
      obtain ⟨attrs', cs', heq, hattrs, hcs⟩ := displayed_copied cs hcut
      have hsame : essences cs' = essences (displayedAll cs) := by
        rcases hcs with rfl | rfl
        · exact essences_displayedElements cs
        · rfl
      rw [heq, essence, essence, hattrs, hsame]
      constructor
      · intro h
        injection h
      · intro h
        rw [h]
  case text =>
    intro t
    simp only [displayed, keepsReferences]
  case comment =>
    intro t
    simp only [displayed, keepsReferences]
  case nil => simp only [displayedAll, keepsReferencesAll]
  case cons =>
    intro x xs hx ih
    rw [displayedAll, keepsReferencesAll, Bool.and_eq_true, ← hx, ← ih]
    by_cases helem : x.isElem = true
    · rw [essences_cons_of_isElem (by rwa [isElem_displayed]), essences_cons_of_isElem helem,
        List.cons.injEq]
    · rw [essences_cons_of_not (by rwa [isElem_displayed]), essences_cons_of_not helem]
      refine ⟨fun h => ⟨?_, h⟩, And.right⟩
      cases x with
      | elem n attrs cs => exact absurd rfl helem
      | text t => rfl
      | comment t => rfl

theorem rebuilt_argument {above parent : String} (h : argumentPlace above parent = true)
    (attrs : Attrs) (cs : List Xml) :
    rebuilt above parent (.elem "SgAssignOp" attrs cs) =
      .elem "SgActualArgumentExpression" [("name", valueOf "name" (named "SgVarRefExp" cs))]
        (nth 2 cs) := by
  rw [rebuilt, if_pos ⟨rfl, h⟩]

theorem rebuilt_copied {above parent n : String}
    (h : ¬ (n = "SgAssignOp" ∧ argumentPlace above parent = true)) (attrs : Attrs) (cs : List Xml) :
    rebuilt above parent (.elem n attrs cs) = .elem n attrs (rebuiltAll parent n cs) := by
  rw [rebuilt, if_neg h]

theorem rebuiltAll_eq (above parent : String) (xs : List Xml) :
    rebuiltAll above parent xs = xs.map (rebuilt above parent) := by
  induction xs with
  | nil => rfl
  | cons x xs ih => rw [rebuiltAll, ih, List.map_cons]

theorem essences_rebuilt_displayedElements (above parent : String) (xs : List Xml) :
    essences (rebuiltAll above parent (displayedElements xs)) =
      essences (rebuiltAll above parent (displayedAll xs)) := by
  have helem (x : Xml) : ((rebuilt above parent ∘ displayed) x).isElem = x.isElem := by
    rw [Function.comp_apply, isElem_rebuilt, isElem_displayed]
  rw [essences_eq, essences_eq, displayedElements_eq, displayedAll_eq, rebuiltAll_eq,
    rebuiltAll_eq, List.map_map, List.map_map, elements_map helem, elements_map helem,
    elements_elements]

/-- Without an element there is no assignment. -/
theorem keepsArgumentsAll_of_elements_nil {above parent : String} {xs : List Xml}
    (h : elements xs = []) : keepsArgumentsAll above parent xs = true := by
  induction xs with
  | nil => rfl
  | cons x xs ih =>
      cases x with
      | elem n attrs cs => exact absurd h (List.cons_ne_nil _ _)
      | text t => rw [keepsArgumentsAll, keepsArguments, Bool.true_and, ih h]
      | comment t => rw [keepsArgumentsAll, keepsArguments, Bool.true_and, ih h]

/-- What has been displayed comes back as it was exactly if it has nothing to lose and there is no
    assignment in it that is taken for an argument. -/
theorem essence_rebuilt_iff :
    (∀ x, ∀ above parent, essence (rebuilt above parent (displayed x)) = essence x ↔
      keepsReferences x = true ∧ keepsArguments above parent x = true) ∧
    ∀ xs, ∀ above parent, essences (rebuiltAll above parent (displayedAll xs)) = essences xs ↔
      keepsReferencesAll xs = true ∧ keepsArgumentsAll above parent xs = true := by
  refine Xml.induct ?elem ?text ?comment ?nil ?cons
  case elem =>
    intro n attrs cs ih above parent
    rw [keepsArguments, Bool.and_eq_true, Bool.not_eq_true']
    by_cases hcut : n = "SgVarRefExp" ∧ (attrs.lookup "type" = none ∨ attrs.lookup "lvalue" ≠ none)
    · -- Nothing is in the way of a variable on the way back, and it has no arguments.
      have hback (attrs' : Attrs) : rebuilt above parent (.elem "SgVarRefExp" attrs' []) =
          .elem "SgVarRefExp" attrs' [] :=
        rebuilt_copied (fun hc => absurd hc.1 (by decide)) attrs' []
      have hkept := essence_displayed_iff.1 (.elem n attrs cs)
      have hcs : keepsReferences (.elem n attrs cs) = true →
          keepsArgumentsAll parent n cs = true := by
        rw [keepsReferences, if_pos hcut, Bool.and_eq_true, List.isEmpty_iff]
        exact fun h => keepsArgumentsAll_of_elements_nil h.2
      obtain ⟨rfl, hcut⟩ := hcut
      have hrebuilt : rebuilt above parent (displayed (.elem "SgVarRefExp" attrs cs)) =
          displayed (.elem "SgVarRefExp" attrs cs) := by
        by_cases htype : attrs.lookup "type" = none
        · rw [displayed_untyped cs htype, hback]
        · rw [displayed_assigned cs htype (hcut.resolve_left htype), hback]
      rw [hrebuilt, hkept]
      exact ⟨fun h => ⟨h, rfl, hcs h⟩, And.left⟩
    · obtain ⟨attrs', cs', heq, hattrs, hcs⟩ := displayed_copied cs hcut
      rw [heq]
      by_cases harg : n = "SgAssignOp" ∧ argumentPlace above parent = true
      · -- The name of the element is another one.
        obtain ⟨rfl, hplace⟩ := harg
        rw [rebuilt_argument hplace, hplace, essence, essence]
        constructor
        · intro h
          injection h with hname
          exact absurd hname (by decide)
        · rintro ⟨-, hbad, -⟩
          exact absurd hbad (by decide)
      · have hno : (n == "SgAssignOp" && argumentPlace above parent) = false := by
          rw [Bool.and_eq_false_iff, beq_eq_false_iff_ne, ← Bool.not_eq_true, ← not_and_or]
          exact harg
        have hsame : essences (rebuiltAll parent n cs') =
            essences (rebuiltAll parent n (displayedAll cs)) := by
          rcases hcs with rfl | rfl
          · exact essences_rebuilt_displayedElements parent n cs
          · rfl
        rw [rebuilt_copied harg, essence, essence, hattrs, hsame, keepsReferences, if_neg hcut, hno]
        constructor
        · intro h
          injection h with _ _ hall
          obtain ⟨hrefs, hargs⟩ := (ih parent n).mp hall
          exact ⟨hrefs, rfl, hargs⟩
        · rintro ⟨hrefs, -, hargs⟩
          rw [(ih parent n).mpr ⟨hrefs, hargs⟩]
  case text =>
    intro t above parent
    simp only [displayed, rebuilt, keepsReferences, keepsArguments, and_self]
  case comment =>
    intro t above parent
    simp only [displayed, rebuilt, keepsReferences, keepsArguments, and_self]
  case nil =>
    intro above parent
    simp only [displayedAll, rebuiltAll, keepsReferencesAll, keepsArgumentsAll, and_self]
  case cons =>
    intro x xs hx ih above parent
    rw [displayedAll, rebuiltAll, keepsReferencesAll, keepsArgumentsAll, Bool.and_eq_true,
      Bool.and_eq_true, and_and_and_comm, ← hx, ← ih]
    by_cases helem : x.isElem = true
    · rw [essences_cons_of_isElem (by rwa [isElem_rebuilt, isElem_displayed]),
        essences_cons_of_isElem helem, List.cons.injEq]
    · rw [essences_cons_of_not (by rwa [isElem_rebuilt, isElem_displayed]),
        essences_cons_of_not helem]
      refine ⟨fun h => ⟨?_, h⟩, And.right⟩
      cases x with
      | elem n attrs cs => exact absurd rfl helem
      | text t => rfl
      | comment t => rfl

/-- It only matters whether the outer element is a call. -/
theorem keepsArgumentsAll_congr {above above' : String}
    (h : ∀ parent, argumentPlace above parent = argumentPlace above' parent) (parent : String)
    (xs : List Xml) : keepsArgumentsAll above parent xs = keepsArgumentsAll above' parent xs := by
  induction xs with
  | nil => rfl
  | cons x xs ih =>
      rw [keepsArgumentsAll, keepsArgumentsAll, ih]
      cases x with
      | elem n attrs cs => rw [keepsArguments, keepsArguments, h]
      | text t => rfl
      | comment t => rfl

/-- Without an assignment among the arguments of a call the way back changes nothing. -/
theorem rebuilt_displayed :
    (∀ x, ∀ above parent, keepsArguments above parent x = true →
      rebuilt above parent (displayed x) = displayed x) ∧
    ∀ xs, ∀ above parent, keepsArgumentsAll above parent xs = true →
      ∀ x ∈ xs, rebuilt above parent (displayed x) = displayed x := by
  refine Xml.induct ?elem ?text ?comment ?nil ?cons
  case elem =>
    intro n attrs cs ih above parent h
    rw [keepsArguments, Bool.and_eq_true, Bool.not_eq_true', Bool.and_eq_false_iff,
      beq_eq_false_iff_ne] at h
    have harg : ¬ (n = "SgAssignOp" ∧ argumentPlace above parent = true) := by
      rintro ⟨rfl, hplace⟩
      rcases h.1 with hne | hno
      · exact hne rfl
      · rw [hplace] at hno
        exact absurd hno (by decide)
    -- A variable that is shown with its type has no arguments left.
    by_cases hcut : n = "SgVarRefExp" ∧ (attrs.lookup "type" = none ∨ attrs.lookup "lvalue" ≠ none)
    · obtain ⟨rfl, hcut⟩ := hcut
      by_cases htype : attrs.lookup "type" = none
      · rw [displayed_untyped cs htype, rebuilt_copied harg]
        rfl
      · rw [displayed_assigned cs htype (hcut.resolve_left htype), rebuilt_copied harg]
        rfl
    · obtain ⟨attrs', cs', heq, -, hcs⟩ := displayed_copied cs hcut
      have hall := ih parent n h.2
      have hsame : rebuiltAll parent n cs' = cs' := by
        rw [rebuiltAll_eq]
        rcases hcs with rfl | rfl
        · rw [displayedElements_eq, List.map_map]
          exact List.map_congr_left fun x hx => hall x (List.mem_of_mem_filter hx)
        · rw [displayedAll_eq, List.map_map]
          exact List.map_congr_left hall
      rw [heq, rebuilt_copied harg, hsame]
  case text =>
    intro t above parent _
    rfl
  case comment =>
    intro t above parent _
    rfl
  case nil =>
    intro above parent _ x hx
    exact absurd hx List.not_mem_nil
  case cons =>
    intro x xs hx ih above parent h y hy
    rw [keepsArgumentsAll, Bool.and_eq_true] at h
    rcases List.mem_cons.mp hy with rfl | hy
    · exact hx above parent h.1
    · exact ih above parent h.2 y hy

@[simp]
theorem displayed_pointer (attrs : Attrs) (cs : List Xml) :
    displayed (.elem "SgPointerType" attrs cs) = .elem "SgPointerType" attrs (displayedAll cs) := by
  rw [displayed, if_neg (by simp), if_neg (by simp), if_neg (by decide)]

/-- A pointer to a type is never displayed as the type. There would have to be a pointer in the
    pointer, and so on without an end. -/
theorem essence_displayed_pointer :
    (∀ x : Xml, essence (displayed (.elem "SgPointerType" [] [x])) ≠ essence x) ∧
      ∀ xs : List Xml, ∀ x ∈ xs,
        essence (displayed (.elem "SgPointerType" [] [x])) ≠ essence x := by
  have hpointer {x : Xml} (hx : x.isElem = true) :
      essence (displayed (.elem "SgPointerType" [] [x])) =
        .elem "SgPointerType" [] [essence (displayed x)] := by
    have helem : (displayed x).isElem = true := by rwa [isElem_displayed]
    rw [displayed_pointer, displayedAll, displayedAll, essence, essences_cons_of_isElem helem]
    rfl
  refine Xml.induct ?elem ?text ?comment ?nil ?cons
  case elem =>
    intro n attrs cs ih h
    rw [hpointer rfl, essence] at h
    injection h with hname hattrs hcs
    subst hname
    have hone : (elements cs).map essence =
        [essence (displayed (.elem "SgPointerType" attrs cs))] := by
      rw [← essences_eq, hcs]
    obtain ⟨c, hc, hce⟩ := List.map_eq_singleton_iff.mp hone
    have hmem : c ∈ elements cs := by rw [hc]; exact List.mem_singleton_self c
    have helem : c.isElem = true := (List.mem_filter.mp hmem).2
    have hinner : essences (displayedAll cs) = [essence (displayed c)] := by
      rw [essences_eq, displayedAll_eq, elements_map isElem_displayed, hc]
      rfl
    -- The pointer would have to stand around itself, one level further down.
    refine ih c (List.mem_filter.mp hmem).1 ?_
    rw [hpointer helem, ← hinner, hce, displayed_pointer, essence, hattrs]
  case text =>
    intro t h
    rw [displayed_pointer, essence, essence] at h
    exact Xml.noConfusion h
  case comment =>
    intro t h
    rw [displayed_pointer, essence, essence] at h
    exact Xml.noConfusion h
  case nil =>
    intro x hx
    exact absurd hx List.not_mem_nil
  case cons =>
    intro x xs hx ih y hy
    rcases List.mem_cons.mp hy with rfl | hy
    · exact hx
    · exact ih y hy

end Kept

end XevXml.Tools.Vardec
