import XevXml.Dom.Xml

/-!
# Selecting and Copying Nodes

The part of XPath and XSLT that the transformation rules are written in. A
rule sees the children of its context node as a list of nodes. An asterisk
selects the elements among them, a name the elements of that name, and a path
of names takes one step after the other; where a rule prints the value of a
selection, the first selected node counts, and where it compares the selection
with a string, any selected node does.

`copy-of` puts selected nodes into the output as they are. `apply-templates`
without a mode runs the identity templates of the library, which copy
everything but comments.

## Main definitions

* `elements`, `named`, `nth`, `path`: The selections `*`, `name`, `*[k]` and
  `name/name`.
* `attributes`, `valueOf`: The strings of a selection of attributes.
* `Xml.copied`, `copiedAll`: The identity templates.

## Theorems

* `copied_copied`: A copy of a copy is the copy.
* `elements_copiedAll`, `named_copiedAll`: Selections in a copy.
-/

namespace XevXml

namespace Xml

/-- Whether a node is an element. -/
def isElem : Xml → Bool
  | elem _ _ _ => true
  | _ => false

/-- Whether a node is an element of the given name. -/
def hasName (name : String) : Xml → Bool
  | elem n _ _ => n == name
  | _ => false

/-- Whether a node is a comment. -/
def isComment : Xml → Bool
  | comment _ => true
  | _ => false

/-- The child nodes of an element. -/
def children : Xml → List Xml
  | elem _ _ cs => cs
  | _ => []

/-- An attribute of an element. -/
def attr (key : String) : Xml → Option Text
  | elem _ attrs _ => attrs.lookup key
  | _ => none

@[simp]
theorem isElem_elem (n : String) (attrs : Attrs) (cs : List Xml) :
    (elem n attrs cs).isElem = true := rfl

@[simp]
theorem hasName_elem (name n : String) (attrs : Attrs) (cs : List Xml) :
    (elem n attrs cs).hasName name = (n == name) := rfl

@[simp]
theorem children_elem (n : String) (attrs : Attrs) (cs : List Xml) :
    (elem n attrs cs).children = cs := rfl

@[simp]
theorem attr_elem (key n : String) (attrs : Attrs) (cs : List Xml) :
    (elem n attrs cs).attr key = attrs.lookup key := rfl

end Xml

/-- The selection `*`. -/
def elements (ns : List Xml) : List Xml := ns.filter Xml.isElem

/-- The selection of the elements of a name. -/
def named (name : String) (ns : List Xml) : List Xml := ns.filter (Xml.hasName name)

/-- The selection `*[k]`, counted from one. -/
def nth (k : Nat) (ns : List Xml) : List Xml := ((elements ns)[k - 1]?).toList

/-- The selection along a path of names. -/
def path : List String → List Xml → List Xml
  | [], ns => ns
  | [name], ns => named name ns
  | name :: rest, ns => (named name ns).flatMap fun n => path rest n.children

/-- The selected attributes. -/
def attributes (key : String) (ns : List Xml) : List Text := ns.filterMap (Xml.attr key)

/-- The string `value-of` prints for a selection of attributes. -/
def valueOf (key : String) (ns : List Xml) : Text := (attributes key ns).head?.getD []

section Lists

@[simp]
theorem elements_nil : elements [] = [] := rfl

@[simp]
theorem elements_cons_elem (n : String) (attrs : Attrs) (cs ns : List Xml) :
    elements (.elem n attrs cs :: ns) = .elem n attrs cs :: elements ns := rfl

theorem elements_cons_of_isElem {x : Xml} (h : x.isElem = true) (ns : List Xml) :
    elements (x :: ns) = x :: elements ns := List.filter_cons_of_pos h

theorem elements_append (ns ms : List Xml) : elements (ns ++ ms) = elements ns ++ elements ms :=
  List.filter_append ..

theorem elements_elements (ns : List Xml) : elements (elements ns) = elements ns := by
  rw [elements, elements, List.filter_filter]
  simp only [Bool.and_self]

@[simp]
theorem named_nil (name : String) : named name [] = [] := rfl

@[simp]
theorem named_cons (name : String) (x : Xml) (ns : List Xml) :
    named name (x :: ns) = if x.hasName name = true then x :: named name ns else named name ns :=
  List.filter_cons

/-- Only elements have a name. -/
theorem named_elements (name : String) (ns : List Xml) :
    named name (elements ns) = named name ns := by
  rw [named, named, elements, List.filter_filter]
  refine List.filter_congr fun x _ => ?_
  cases x with
  | elem n attrs cs => simp
  | text t => rfl
  | comment t => rfl

/-- Selections along a path look at elements only. -/
theorem path_elements (name : String) (names : List String) (ns : List Xml) :
    path (name :: names) (elements ns) = path (name :: names) ns := by
  cases names with
  | nil => rw [path, path, named_elements]
  | cons next rest => rw [path, path, named_elements] <;> simp

theorem path_cons_cons (name next : String) (rest : List String) (ns : List Xml) :
    path (name :: next :: rest) ns =
      (named name ns).flatMap fun n => path (next :: rest) n.children := rfl

theorem named_append (name : String) (ns ms : List Xml) :
    named name (ns ++ ms) = named name ns ++ named name ms := List.filter_append ..

end Lists

section Copy

mutual

/-- What the identity templates make of an element. -/
def Xml.copied : Xml → Xml
  | .elem n attrs cs => .elem n attrs (copiedAll cs)
  | .text t => .text t
  | .comment t => .comment t

/-- What the identity templates make of the nodes they are applied to. -/
def copiedAll : List Xml → List Xml
  | [] => []
  | x :: rest => if x.isComment = true then copiedAll rest else x.copied :: copiedAll rest

end

@[simp]
theorem copiedAll_nil : copiedAll [] = [] := rfl

theorem copiedAll_cons (x : Xml) (rest : List Xml) :
    copiedAll (x :: rest) =
      if x.isComment = true then copiedAll rest else x.copied :: copiedAll rest := by
  rw [copiedAll]

theorem copiedAll_comment_cons {x : Xml} (h : x.isComment = true) (rest : List Xml) :
    copiedAll (x :: rest) = copiedAll rest := by
  rw [copiedAll_cons, if_pos h]

theorem copiedAll_cons_of_not {x : Xml} (h : ¬ x.isComment = true) (rest : List Xml) :
    copiedAll (x :: rest) = x.copied :: copiedAll rest := by
  rw [copiedAll_cons, if_neg h]

theorem copiedAll_elem_cons (n : String) (attrs : Attrs) (cs rest : List Xml) :
    copiedAll (.elem n attrs cs :: rest) = (Xml.elem n attrs cs).copied :: copiedAll rest :=
  copiedAll_cons_of_not (by simp [Xml.isComment]) rest

theorem copiedAll_append (ns ms : List Xml) :
    copiedAll (ns ++ ms) = copiedAll ns ++ copiedAll ms := by
  induction ns with
  | nil => rw [copiedAll_nil, List.nil_append, List.nil_append]
  | cons n ns ih =>
      rw [List.cons_append]
      by_cases hn : n.isComment = true
      · rw [copiedAll_comment_cons hn, copiedAll_comment_cons hn, ih]
      · rw [copiedAll_cons_of_not hn, copiedAll_cons_of_not hn, ih, List.cons_append]

theorem isComment_copied (x : Xml) : x.copied.isComment = x.isComment := by
  cases x <;> simp [Xml.copied, Xml.isComment]

/-- A property of all trees and of all lists of trees, by induction on both at
    once. -/
theorem Xml.induct {P : Xml → Prop} {Q : List Xml → Prop}
    (helem : ∀ n attrs cs, Q cs → P (.elem n attrs cs)) (htext : ∀ t, P (.text t))
    (hcomment : ∀ t, P (.comment t)) (hnil : Q []) (hcons : ∀ x xs, P x → Q xs → Q (x :: xs)) :
    (∀ x, P x) ∧ ∀ xs, Q xs :=
  ⟨fun x => @Xml.rec P Q helem htext hcomment hnil hcons x,
    fun xs => @Xml.rec_1 P Q helem htext hcomment hnil hcons xs⟩

theorem copied_copiedAll :
    (∀ x : Xml, x.copied.copied = x.copied) ∧ ∀ xs, copiedAll (copiedAll xs) = copiedAll xs := by
  refine Xml.induct ?elem ?text ?comment ?nil ?cons
  case elem =>
    intro n attrs cs ih
    simp only [Xml.copied, ih]
  case text =>
    intro t
    simp only [Xml.copied]
  case comment =>
    intro t
    simp only [Xml.copied]
  case nil => simp only [copiedAll]
  case cons =>
    intro x xs hx ih
    by_cases hcomment : x.isComment = true
    · rw [copiedAll_comment_cons hcomment, ih]
    · rw [copiedAll_cons_of_not hcomment,
        copiedAll_cons_of_not (by rwa [isComment_copied]), hx, ih]

theorem copied_copied (x : Xml) : x.copied.copied = x.copied := copied_copiedAll.1 x

theorem hasName_copied (name : String) (x : Xml) : x.copied.hasName name = x.hasName name := by
  cases x <;> simp [Xml.copied, Xml.hasName]

theorem isElem_copied (x : Xml) : x.copied.isElem = x.isElem := by
  cases x <;> simp [Xml.copied, Xml.isElem]

/-- A selection that does not look below the nodes, and selects no comment,
    selects the copies of what it selects. -/
theorem filter_copiedAll {p : Xml → Bool} (hcopy : ∀ x, p x.copied = p x)
    (hcomment : ∀ x, x.isComment = true → p x = false) (ns : List Xml) :
    (copiedAll ns).filter p = (ns.filter p).map Xml.copied := by
  induction ns with
  | nil => rw [copiedAll_nil, List.filter_nil, List.map_nil]
  | cons n ns ih =>
      by_cases hn : n.isComment = true
      · rw [copiedAll_comment_cons hn, ih, List.filter_cons_of_neg (by simp [hcomment n hn])]
      · rw [copiedAll_cons_of_not hn]
        by_cases hp : p n = true
        · rw [List.filter_cons_of_pos (by rwa [hcopy]), List.filter_cons_of_pos hp, ih,
            List.map_cons]
        · rw [List.filter_cons_of_neg (by rwa [hcopy]), List.filter_cons_of_neg hp, ih]

theorem isElem_of_isComment {x : Xml} (h : x.isComment = true) : x.isElem = false := by
  cases x with
  | elem n attrs cs => exact absurd h (by simp [Xml.isComment])
  | text t => rfl
  | comment t => rfl

theorem not_isComment_of_isElem {x : Xml} (h : x.isElem = true) : ¬ x.isComment = true := by
  intro hcomment
  rw [isElem_of_isComment hcomment] at h
  exact Bool.noConfusion h

theorem hasName_of_isComment {x : Xml} (h : x.isComment = true) (name : String) :
    x.hasName name = false := by
  cases x with
  | elem n attrs cs => exact absurd h (by simp [Xml.isComment])
  | text t => rfl
  | comment t => rfl

theorem elements_copiedAll (ns : List Xml) :
    elements (copiedAll ns) = (elements ns).map Xml.copied :=
  filter_copiedAll isElem_copied (fun _ h => isElem_of_isComment h) ns

theorem named_copiedAll (name : String) (ns : List Xml) :
    named name (copiedAll ns) = (named name ns).map Xml.copied :=
  filter_copiedAll (hasName_copied name) (fun _ h => hasName_of_isComment h name) ns

end Copy

end XevXml
