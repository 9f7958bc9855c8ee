import XevXml.Trans.Select

/-!
# Found by Directive

The rules that look for a directive go through the document and copy it. An element that stands
directly behind the directive they hand over to the template of the user, and do not search it.
What the user does with the element may depend on everything around it.

A rule of its own is meant for loops that stand a number of elements behind the directive. It
tests the element it is applied to. For everything below, it goes on with the other rule, which
looks for elements of any name directly behind the directive.

The built-in templates copy texts and drop comments.

## Main definitions

* `Surroundings`: What is around a node.
* `xevFindDirective`, `xevFindNthDirective`: The rules.
* `xevInitHook`, `xevGoToHere`, `transformed`: The rules on a whole document.
* `atSites`: Something in the place of some elements, everything else as it was.
* `SameSites`: The same elements are found.

## Theorems

* `xevFindDirective_eq`: The first rule finds what stands behind the directive.
* `transformed_eq`: What is made of a document.
* `atSites_eq_iff`: Two searches do the same exactly if they find the same elements.
* `xevFindNthDirective_iff`: When the second rule finds the right loops.
-/

namespace XevXml

section Rules

/-- What is around a node: the siblings in front of it and behind it, and the element they are in
    with what is around that. -/
inductive Surroundings
  | top (before after : List Xml)
  | inside (name : String) (attrs : Attrs) (before after : List Xml) (above : Surroundings)

/-- The siblings in front of a node. -/
def Surroundings.before : Surroundings → List Xml
  | top before _ => before
  | inside _ _ before _ _ => before

/-- A template of the user. -/
abbrev Hook := Surroundings → Xml → List Xml

/-- The selection `preceding-sibling::*[n]`. -/
def precedingSibling : Nat → List Xml → List Xml
  | 0, _ => []
  | n + 1, before => ((elements before).reverse[n]?).toList

/-- The test `SgPragma/@pragma = $directiveName`. -/
def hasDirective (directiveName : Text) (ns : List Xml) : Bool :=
  (attributes "pragma" (ns.flatMap fun n => named "SgPragma" n.children)).contains directiveName

mutual

/-- The rule for elements directly behind the directive. -/
def xevFindDirective (directiveName : Text) (xevMoveHook : Hook) : Surroundings → Xml → List Xml
  | s, .elem name attrs cs =>
      if hasDirective directiveName (precedingSibling 1 s.before) = true then
        xevMoveHook s (.elem name attrs cs)
      else [.elem name attrs (xevFindDirectives directiveName xevMoveHook
        (fun before after => .inside name attrs before after s) [] cs)]
  | _, .text t => [.text t]
  | _, .comment _ => []

/-- The rule on the nodes it is applied to, with those in front of them. -/
def xevFindDirectives (directiveName : Text) (xevMoveHook : Hook)
    (around : List Xml → List Xml → Surroundings) (before : List Xml) : List Xml → List Xml
  | [] => []
  | x :: xs =>
      xevFindDirective directiveName xevMoveHook (around before xs) x ++
        xevFindDirectives directiveName xevMoveHook around (before ++ [x]) xs

end

/-- The rule for loops a number of elements behind the directive. -/
def xevFindNthDirective (directiveName : Text) (n : Nat) (xevMoveHook : Hook) :
    Surroundings → Xml → List Xml
  | s, .elem name attrs cs =>
      if name = "SgFortranDo" ∧ hasDirective directiveName (precedingSibling n s.before) = true then
        xevMoveHook s (.elem name attrs cs)
      else [.elem name attrs (xevFindDirectives directiveName xevMoveHook
        (fun before after => .inside name attrs before after s) [] cs)]
  | _, .text t => [.text t]
  | _, .comment _ => []

/-- The move that stays where it is. -/
def xevGoToHere (xevTransformationHook : Hook) : Hook := xevTransformationHook

/-- The first template of the user, which starts the search at the root element. -/
def xevInitHook (directiveName : Text) (xevTransformationHook : Hook) :
    Surroundings → Xml → List Xml
  | s, .elem name attrs cs =>
      xevFindDirective directiveName (xevGoToHere xevTransformationHook) s (.elem name attrs cs)
  | _, .text t => [.text t]
  | _, .comment _ => []

/-- The template for the document, on the nodes behind some others. -/
def transformedFrom (directiveName : Text) (xevTransformationHook : Hook) (before : List Xml) :
    List Xml → List Xml
  | [] => []
  | x :: xs =>
      xevInitHook directiveName xevTransformationHook (.top before xs) x ++
        transformedFrom directiveName xevTransformationHook (before ++ [x]) xs

/-- What the rules make of a document. -/
def transformed (directiveName : Text) (xevTransformationHook : Hook) (document : List Xml) :
    List Xml :=
  transformedFrom directiveName xevTransformationHook [] document

end Rules

section Sites

/-- Whether an element is meant. -/
abbrev Site := Surroundings → String → Bool

mutual

/-- The tree with something in the place of the elements that are meant, unless they are inside of
    others. Comments are replaced, and everything else is as it was. -/
def atSites (site : Site) (act : Hook) (comment : Text → List Xml) : Surroundings → Xml → List Xml
  | s, .elem name attrs cs =>
      if site s name = true then act s (.elem name attrs cs)
      else [.elem name attrs (allAtSites site act comment
        (fun before after => .inside name attrs before after s) [] cs)]
  | _, .text t => [.text t]
  | _, .comment t => comment t

/-- The same for a list of trees, with those in front of them. -/
def allAtSites (site : Site) (act : Hook) (comment : Text → List Xml)
    (around : List Xml → List Xml → Surroundings) (before : List Xml) : List Xml → List Xml
  | [] => []
  | x :: xs =>
      atSites site act comment (around before xs) x ++
        allAtSites site act comment around (before ++ [x]) xs

end

/-- A comment that is kept. -/
def keptComment (t : Text) : List Xml := [.comment t]

/-- A comment that is dropped. -/
def droppedComment (_ : Text) : List Xml := []

/-- The elements directly behind a directive. -/
def behindDirective (directiveName : Text) : Site := fun s _ =>
  hasDirective directiveName (precedingSibling 1 s.before)

/-- The loops a number of elements behind a directive. -/
def loopBehindDirective (directiveName : Text) (n : Nat) : Site := fun s name =>
  name == "SgFortranDo" && hasDirective directiveName (precedingSibling n s.before)

mutual

/-- Two searches find the same elements in a tree. -/
def SameSites (p q : Site) : Surroundings → Xml → Prop
  | s, .elem name attrs cs =>
      p s name = q s name ∧ (q s name = false → AllSameSites p q
        (fun before after => .inside name attrs before after s) [] cs)
  | _, .text _ => True
  | _, .comment _ => True

/-- The same for a list of trees, with those in front of them. -/
def AllSameSites (p q : Site) (around : List Xml → List Xml → Surroundings) (before : List Xml) :
    List Xml → Prop
  | [] => True
  | x :: xs =>
      SameSites p q (around before xs) x ∧ AllSameSites p q around (before ++ [x]) xs

end

end Sites

section Search

variable {directiveName : Text}

theorem xevFindDirective_eq_and (xevMoveHook : Hook) :
    (∀ x s, xevFindDirective directiveName xevMoveHook s x =
        atSites (behindDirective directiveName) xevMoveHook droppedComment s x) ∧
      ∀ xs around before, xevFindDirectives directiveName xevMoveHook around before xs =
        allAtSites (behindDirective directiveName) xevMoveHook droppedComment around before xs := by
  refine Xml.induct ?elem ?text ?comment ?nil ?cons
  case elem =>
    intro name attrs cs ih s
    rw [xevFindDirective, atSites, ih]
    rfl
  case text =>
    intro t s
    rw [xevFindDirective, atSites]
  case comment =>
    intro t s
    rw [xevFindDirective, atSites]
    rfl
  case nil =>
    intro around before
    rw [xevFindDirectives, allAtSites]
  case cons =>
    intro x xs hx ih around before
    rw [xevFindDirectives, allAtSites, hx, ih]

/-- The rule finds the elements directly behind the directive. -/
theorem xevFindDirective_eq (xevMoveHook : Hook) (s : Surroundings) (x : Xml) :
    xevFindDirective directiveName xevMoveHook s x =
      atSites (behindDirective directiveName) xevMoveHook droppedComment s x :=
  (xevFindDirective_eq_and xevMoveHook).1 x s

theorem transformedFrom_eq (xevTransformationHook : Hook) (before document : List Xml) :
    transformedFrom directiveName xevTransformationHook before document =
      allAtSites (behindDirective directiveName) xevTransformationHook droppedComment .top before
        document := by
  induction document generalizing before with
  | nil => rw [transformedFrom, allAtSites]
  | cons x xs ih =>
      have hinit : xevInitHook directiveName xevTransformationHook (.top before xs) x =
          atSites (behindDirective directiveName) xevTransformationHook droppedComment
            (.top before xs) x := by
        cases x with
        | elem name attrs cs => exact xevFindDirective_eq xevTransformationHook _ _
        | text t => rw [xevInitHook, atSites]
        | comment t =>
            rw [xevInitHook, atSites]
            rfl
      rw [transformedFrom, allAtSites, hinit, ih]

/-- What is made of a document is the document without the comments, and with the result of the
    template of the user in the place of the elements directly behind the directive that are not
    inside of others. -/
theorem transformed_eq (xevTransformationHook : Hook) (document : List Xml) :
    transformed directiveName xevTransformationHook document =
      allAtSites (behindDirective directiveName) xevTransformationHook droppedComment .top []
        document :=
  transformedFrom_eq xevTransformationHook [] document

/-- A document with nothing but a comment in its root element loses the comment. -/
theorem comment_not_kept :
    transformed "xev loop_tag".toList (fun _ x => [x]) [.elem "SgGlobal" [] [.comment ['c']]] ≠
      allAtSites (behindDirective "xev loop_tag".toList) (fun _ x => [x]) keptComment .top []
        [.elem "SgGlobal" [] [.comment ['c']]] := by
  intro h
  have hcount := congrArg (List.map fun x => x.children.length) h
  exact absurd hcount (by decide)

end Search

section Agreement

variable {p q : Site} {comment : Text → List Xml}

/-- Searches that find the same elements do the same. -/
theorem atSites_congr (act : Hook) :
    (∀ x s, SameSites p q s x → atSites p act comment s x = atSites q act comment s x) ∧
      ∀ xs around before, AllSameSites p q around before xs →
        allAtSites p act comment around before xs = allAtSites q act comment around before xs := by
  refine Xml.induct ?elem ?text ?comment ?nil ?cons
  case elem =>
    intro name attrs cs ih s h
    rw [SameSites] at h
    rw [atSites, atSites, h.1]
    by_cases hq : q s name = true
    · rw [if_pos hq, if_pos hq]
    · rw [if_neg hq, if_neg hq, ih _ _ (h.2 (Bool.not_eq_true _ ▸ hq))]
  case text =>
    intro t s _
    rw [atSites, atSites]
  case comment =>
    intro t s _
    rw [atSites, atSites]
  case nil =>
    intro around before _
    rw [allAtSites, allAtSites]
  case cons =>
    intro x xs hx ih around before h
    rw [AllSameSites] at h
    rw [allAtSites, allAtSites, hx _ h.1, ih _ _ h.2]

/-- A text in the place of everything that is found. -/
def markedHook : Hook := fun _ _ => [.text []]

theorem length_markedSites (p q : Site) (comment : Text → List Xml) (s : Surroundings) (x : Xml) :
    (atSites p markedHook comment s x).length = (atSites q markedHook comment s x).length := by
  have hone : ∀ (r : Site) name attrs cs,
      (atSites r markedHook comment s (.elem name attrs cs)).length = 1 := by
    intro r name attrs cs
    rw [atSites]
    split
    · rfl
    · rfl
  cases x with
  | elem name attrs cs => rw [hone, hone]
  | text t => rw [atSites, atSites]
  | comment t => rw [atSites, atSites]

/-- A mark in the place of what is found tells what is found. -/
theorem sameSites_of_marked :
    (∀ x s, atSites p markedHook comment s x = atSites q markedHook comment s x →
        SameSites p q s x) ∧
      ∀ xs around before, allAtSites p markedHook comment around before xs =
        allAtSites q markedHook comment around before xs → AllSameSites p q around before xs := by
  refine Xml.induct ?elem ?text ?comment ?nil ?cons
  case elem =>
    intro name attrs cs ih s h
    rw [atSites, atSites] at h
    rw [SameSites]
    cases hp : p s name with
    | true =>
        cases hq : q s name with
        | true => exact ⟨rfl, fun hno => nomatch hno⟩
        | false =>
            rw [hp, hq, if_pos rfl, if_neg Bool.false_ne_true] at h
            exact nomatch List.singleton_inj.mp h
    | false =>
        cases hq : q s name with
        | true =>
            rw [hp, hq, if_pos rfl, if_neg Bool.false_ne_true] at h
            exact nomatch List.singleton_inj.mp h
        | false =>
            rw [hp, hq, if_neg Bool.false_ne_true, if_neg Bool.false_ne_true, List.singleton_inj,
              Xml.elem.injEq] at h
            exact ⟨rfl, fun _ => ih _ _ h.2.2⟩
  case text =>
    intro t s _
    rw [SameSites]
    trivial
  case comment =>
    intro t s _
    rw [SameSites]
    trivial
  case nil =>
    intro around before _
    rw [AllSameSites]
    trivial
  case cons =>
    intro x xs hx ih around before h
    rw [allAtSites, allAtSites] at h
    rcases List.append_inj h (length_markedSites p q comment _ x) with ⟨hfirst, hrest⟩
    rw [AllSameSites]
    exact ⟨hx _ hfirst, ih _ _ hrest⟩

/-- Two searches do the same, whatever is put in the place of what they find, exactly if they find
    the same elements. -/
theorem atSites_eq_iff (s : Surroundings) (x : Xml) :
    (∀ act, atSites p act comment s x = atSites q act comment s x) ↔ SameSites p q s x :=
  ⟨fun h => sameSites_of_marked.1 x s (h markedHook), fun h act => (atSites_congr act).1 x s h⟩

end Agreement

section Nth

variable {directiveName : Text} {n : Nat}

/-- Either the element is a loop that is meant, or below it and outside of such loops, the elements
    directly behind the directive are the loops that are meant. -/
def FoundBelow (directiveName : Text) (n : Nat) : Surroundings → Xml → Prop
  | s, .elem name attrs cs =>
      loopBehindDirective directiveName n s name = true ∨
        AllSameSites (behindDirective directiveName) (loopBehindDirective directiveName n)
          (fun before after => .inside name attrs before after s) [] cs
  | _, .text _ => True
  | _, .comment _ => True

theorem xevFindNthDirective_elem (xevMoveHook : Hook) (s : Surroundings) (name : String)
    (attrs : Attrs) (cs : List Xml) :
    xevFindNthDirective directiveName n xevMoveHook s (.elem name attrs cs) =
      if loopBehindDirective directiveName n s name = true then
        xevMoveHook s (.elem name attrs cs)
      else [.elem name attrs (allAtSites (behindDirective directiveName) xevMoveHook droppedComment
        (fun before after => .inside name attrs before after s) [] cs)] := by
  rw [xevFindNthDirective, (xevFindDirective_eq_and xevMoveHook).2]
  simp only [loopBehindDirective, Bool.and_eq_true, beq_iff_eq]

/-- The rule hands over the loops that are meant and copies the rest, whatever the template of the
    user does, exactly if the elements directly behind the directive are these loops. -/
theorem xevFindNthDirective_iff (directiveName : Text) (n : Nat) (s : Surroundings) (x : Xml) :
    (∀ xevMoveHook, xevFindNthDirective directiveName n xevMoveHook s x =
        atSites (loopBehindDirective directiveName n) xevMoveHook droppedComment s x) ↔
      FoundBelow directiveName n s x := by
  cases x with
  | elem name attrs cs =>
      simp only [xevFindNthDirective_elem, atSites, FoundBelow]
      by_cases hfound : loopBehindDirective directiveName n s name = true
      · simp only [hfound, if_true, true_or, implies_true]
      · simp only [hfound, Bool.false_eq_true, if_false, false_or, List.singleton_inj,
          Xml.elem.injEq,
          true_and]
        constructor
        · intro h
          exact sameSites_of_marked.2 cs _ _ (h markedHook)
        · intro h xevMoveHook
          exact (atSites_congr xevMoveHook).2 cs _ _ h
  | text t => exact iff_of_true (fun _ => by rw [xevFindNthDirective, atSites]) trivial
  | comment t => exact iff_of_true (fun _ => by rw [xevFindNthDirective, atSites]; rfl) trivial

/-- A block with a directive, a statement and a loop. -/
def taggedBlock : Xml :=
  .elem "SgBasicBlock" []
    [.elem "SgPragmaDeclaration" [] [.elem "SgPragma" [("pragma", "xev loop_tag".toList)] []],
      .elem "SgExprStatement" [] [], .elem "SgFortranDo" [] []]

/-- The loop is the second element behind the directive, but the statement is found. -/
theorem taggedBlock_not_found :
    ¬ ∀ xevMoveHook, xevFindNthDirective "xev loop_tag".toList 2 xevMoveHook (.top [] [])
        taggedBlock =
      atSites (loopBehindDirective "xev loop_tag".toList 2) xevMoveHook droppedComment (.top [] [])
        taggedBlock := by
  intro h
  have hfound := congrArg (List.map fun x => x.children.map Xml.isElem) (h markedHook)
  exact absurd hfound (by decide)

end Nth

end XevXml
