import XevXml.Tools.Tgen.Fits
import XevXml.Dom.Tag

/-!
# What Templates Write

The destination of a transformation becomes a piece of a stylesheet. Its nodes are written as
instructions that make elements, and an attribute that names a variable gets what the variable
stands for. A variable among the nodes is handed to the templates once more, or copied if it is
not to be looked at again. The path on which the variable was found in the source says where it
is, counted from the element at which the source was found; a variable that is not in the source
is a parameter of the template.

What a template does with the elements it is applied to, the operations on names and values and
the text below an element are parameters here. A variable that stands in the condition of another
one only is taken for a parameter as well.

A literal is the content of an instruction, where white space alone is dropped, and line ends and
tabs are not blanks as they are in attributes.

## Main definitions

* `Select`, `Content`, `Fragment`: What is written.
* `write_varpattern`, `write_output_pattern`: The writing.
* `Fragment.run`: What the instructions do.
* `foundAll`, `boundIn`: What the variables of a pattern stand for.
* `instantiate`: The destination with that in the places of the variables.
* `Plain`: Destinations with attributes that are kept.

## Theorems

* `contentText_of_kept`: Literals that say the same in an instruction.
* `registered_found`: The paths of the variables lead to what they stand for.
* `write_output_pattern_eq`: The instructions make the destination.
-/

namespace XevXml.Tools.Tgen

open Location

section Writing

/-- Where the value of a variable comes from. -/
inductive Select
  | at (pat : VarPattern)
  | param (id : Nat)

/-- What an attribute is given. -/
inductive Content
  | literal (s : Text)
  | valueOf (select : Select)
  | operation (operate : Cell)

/-- The instructions for a node. -/
inductive Fragment
  | element (name : String) (attrs : List (String × Content)) (children : List Fragment)
  | apply (tv : TgenVar) (select : Select)
  | copyOf (select : Select)

/-- Where a variable is found: the first place in the source. -/
def write_varpattern (registered : List Registered) (id : Nat) : Select :=
  match registered.find? fun r => r.id == id with
  | some r => .at r.pat
  | none => .param id

variable (tb : Tables) (registered : List Registered)

/-- The value of a variable, or the operation that it has. -/
def variableContent (tv : TgenVar) : Content :=
  match tv.operate with
  | some operate => .operation operate
  | none => .valueOf (write_varpattern registered tv.id)

/-- The variable in an attribute of a destination. -/
def attributeVariable (a : String × Option Text) : Option TgenVar :=
  (is_tgenvar_attr tb a.1).bind fun _ => lookup_tgenvar tb.varlist a.2

/-- The variable in the value of an integer. -/
def integerVariable (x : Cell) : Option TgenVar :=
  if x.name = "SgIntVal" then lookup_tgenvar tb.varlist (getAttr x "value") else none

/-- The instruction for an attribute. -/
def writeAttribute (x : Cell) (a : String × Option Text) : String × Content :=
  match attributeVariable tb a with
  | some tv => (a.1, variableContent registered tv)
  | none =>
      match integerVariable tb x with
      | some tv => ("string", variableContent registered tv)
      | none => (a.1, .literal (printedValue a.2))

mutual

/-- The instructions for a node of a destination. -/
def writeOutNode : Cell → Run Fragment
  | .mk type name attrs pretext posttext cs => do
      let x := Cell.mk type name attrs pretext posttext cs
      match ← is_tgenvar_node tb x with
      | some tv =>
          let select := write_varpattern registered tv.id
          .ok (if tv.norec then .copyOf select else .apply tv select)
      | none => do
          let fs ← write_output_pattern cs
          .ok (.element name (attrs.map (writeAttribute tb registered x)) fs)

/-- The instructions for a destination. -/
def write_output_pattern : List Cell → Run (List Fragment)
  | [] => .ok []
  | x :: xs => do
      let f ← writeOutNode x
      let fs ← write_output_pattern xs
      .ok (f :: fs)

end

end Writing

section Running

/-- What a variable stands for: elements, or the value of an attribute. -/
inductive Found
  | nodes (ss : List Spot)
  | value (v : Option Text)

/-- What is left to the processor of the stylesheet. -/
structure Processor where
  apply : TgenVar → List Spot → List Element
  operated : Cell → Text
  content : List Spot → Text

variable (proc : Processor) (params : Nat → Found)

/-- What is found in the place of a variable. -/
def VarPattern.found (p : VarPattern) (s : Spot) : Found :=
  let ss := selectAll readLiteral (p.path ++ [here .any]) [s]
  match p.attr with
  | some a => .value (ss.head?.bind fun t => t.node.attrs.lookup a)
  | none =>
      .nodes (if p.list then
          ss ++ selectAll readLiteral (p.path ++ [.mk .followingSibling .any []]) [s]
        else ss)

/-- What is found for a variable. -/
def Select.found (s : Spot) : Select → Found
  | .at p => p.found s
  | .param id => params id

def Found.spots : Found → List Spot
  | nodes ss => ss
  | value _ => []

/-- The string of what a variable stands for. -/
def Found.text : Found → Text
  | nodes ss => proc.content ss
  | value v => v.getD []

/-- Sets an attribute. -/
def setAttribute (attrs : List (String × Text)) (a : String × Text) : List (String × Text) :=
  if attrs.any fun b => b.1 == a.1 then attrs.map fun b => if b.1 = a.1 then a else b
  else attrs ++ [a]

/-- The content of an instruction that is a literal. -/
def contentText (s : Text) : Text :=
  match decode .content s with
  | some t => if t.all isXmlSpace then [] else t
  | none => []

def Content.text (s : Spot) : Content → Text
  | .literal t => contentText t
  | .valueOf select => (select.found params s).text proc
  | .operation operate => proc.operated operate

mutual

/-- What the instructions for a node make. -/
def Fragment.run (s : Spot) : Fragment → List Element
  | .element name attrs fs =>
      [.mk name ((attrs.map fun a => (a.1, a.2.text proc params s)).foldl setAttribute [])
        (runAll s fs)]
  | .apply tv select => proc.apply tv (select.found params s).spots
  | .copyOf select => (select.found params s).spots.map Spot.node

def runAll (s : Spot) : List Fragment → List Element
  | [] => []
  | f :: fs => f.run s ++ runAll s fs

end

end Running

section Meaning

variable (tb : Tables)

/-- What stands at the first of some siblings, or in an attribute of it. -/
def foundAt (ss : List Spot) (list : Bool) : Option String → Found
  | some a => .value (ss.head?.bind fun t => t.node.attrs.lookup a)
  | none => .nodes (if list then ss else ss.take 1)

mutual

/-- What the variables of a node stand for, at the first of some siblings. -/
def foundNode (ss : List Spot) : Cell → List (Nat × Found)
  | .mk type name attrs pretext posttext cs =>
      (attrs.filterMap fun a => (variableOf tb a).map fun tv =>
        (tv.id, foundAt ss tv.list (some a.1))) ++
      match nodeVariable tb (.mk type name attrs pretext posttext cs) with
      | some tv => [(tv.id, foundAt ss tv.list none)]
      | none => foundAll (ss.head?.elim [] Axis.child.spots) cs

/-- What the variables of a pattern stand for. -/
def foundAll (ss : List Spot) : List Cell → List (Nat × Found)
  | [] => []
  | x :: xs => foundNode ss x ++ foundAll ss.tail xs

end

/-- What a variable stands for at an element where the source is found. The first place in the
    source counts, and a variable that is not there is a parameter. -/
def boundIn (src : List Cell) (params : Nat → Found) (s : Spot) (id : Nat) : Found :=
  ((foundAll tb (s :: Axis.followingSibling.spots s) src).lookup id).getD (params id)

variable (proc : Processor) (bound : Nat → Found)

/-- The value of a variable, or of its operation. -/
def valueIn (tv : TgenVar) : Text :=
  match tv.operate with
  | some operate => proc.operated operate
  | none => (bound tv.id).text proc

/-- An attribute with the value of its variable. The string of an integer is its value. -/
def instantiateAttribute (x : Cell) (a : String × Option Text) : String × Text :=
  match attributeVariable tb a with
  | some tv => (a.1, valueIn proc bound tv)
  | none =>
      match (if a.1 = "string" then integerVariable tb x else none) with
      | some tv => (a.1, valueIn proc bound tv)
      | none => (a.1, (decode .attribute (printedValue a.2)).getD [])

mutual

/-- A node with what the variables stand for. -/
def instantiateNode : Cell → List Element
  | .mk type name attrs pretext posttext cs =>
      let x := Cell.mk type name attrs pretext posttext cs
      match nodeVariable tb x with
      | some tv =>
          if tv.norec then (bound tv.id).spots.map Spot.node
          else proc.apply tv (bound tv.id).spots
      | none => [.mk name (attrs.map (instantiateAttribute tb proc bound x)) (instantiate cs)]

/-- A destination with what the variables stand for. -/
def instantiate : List Cell → List Element
  | [] => []
  | x :: xs => instantiateNode x ++ instantiate xs

end

/-- A literal without line ends and tabs that is empty or not white space alone. -/
def LiteralKept (s : Text) : Prop :=
  (∀ c ∈ s, c ≠ '\t' ∧ c ≠ '\n' ∧ c ≠ '\r' ∧ c ≠ '"') ∧
    ∀ t ∈ decode .attribute s, t.all isXmlSpace = true → t = []

instance (s : Text) : Decidable (LiteralKept s) := inferInstanceAs (Decidable (_ ∧ _))

/-- An attribute that is kept: an integer with a variable has nothing but its value and its
    string. -/
def AttributeKept (x : Cell) (a : String × Option Text) : Prop :=
  attributeVariable tb a = none →
    if (integerVariable tb x).isSome then a.1 = "string" else LiteralKept (printedValue a.2)

instance (x : Cell) (a : String × Option Text) : Decidable (AttributeKept tb x a) :=
  inferInstanceAs (Decidable (_ → _))

mutual

/-- The attributes of all nodes are kept, and no attribute is given twice. -/
def PlainCell : Cell → Prop
  | .mk type name attrs pretext posttext cs =>
      let x := Cell.mk type name attrs pretext posttext cs
      nodeVariable tb x = none →
        (attrs.map Prod.fst).Nodup ∧ (∀ a ∈ attrs, AttributeKept tb x a) ∧ Plain cs

def Plain : List Cell → Prop
  | [] => True
  | x :: xs => PlainCell x ∧ Plain xs

end

end Meaning

section Literals

theorem decodeGo_content {s : Text}
    (h : ∀ c ∈ s, c ≠ '\t' ∧ c ≠ '\n' ∧ c ≠ '\r' ∧ c ≠ '"') (name : Option Text) :
    decodeGo .content name s = decodeGo .attribute name s := by
  induction s generalizing name with
  | nil => cases name <;> rfl
  | cons c s ih =>
      obtain ⟨hc, hs⟩ := List.forall_mem_cons.mp h
      have hchar : decodeChar .content c = decodeChar .attribute c := by
        simp [decodeChar, hc]
      cases name with
      | none => rw [decodeGo, decodeGo, ih hs, ih hs, hchar]
      | some name => rw [decodeGo, decodeGo, ih hs, ih hs]

/-- A literal that is kept says the same in an instruction as in an attribute. -/
theorem contentText_of_kept {s : Text} (h : LiteralKept s) :
    contentText s = (decode .attribute s).getD [] := by
  have hcr : '\r' ∉ s := fun hmem => (h.1 '\r' hmem).2.2.1 rfl
  have hdecode : decode .content s = decode .attribute s := by
    rw [decode, decode, normalizeEol_of_no_cr hcr, decodeGo_content h.1]
  rw [contentText, hdecode]
  cases hs : decode .attribute s with
  | none => rfl
  | some t =>
      simp only [Option.getD_some]
      split
      · next hall => exact (h.2 t hs hall).symm
      · rfl

theorem setAttribute_of_not_mem {attrs : List (String × Text)} {a : String × Text}
    (h : a.1 ∉ attrs.map Prod.fst) : setAttribute attrs a = attrs ++ [a] := by
  rw [setAttribute, if_neg]
  rw [List.any_eq_true]
  rintro ⟨b, hb, hname⟩
  exact h (eq_of_beq hname ▸ List.mem_map_of_mem hb)

/-- Attributes of different names are set one after the other. -/
theorem foldl_setAttribute {attrs : List (String × Text)} (h : (attrs.map Prod.fst).Nodup) :
    attrs.foldl setAttribute [] = attrs := by
  have hfrom : ∀ done : List (String × Text), ((done ++ attrs).map Prod.fst).Nodup →
      attrs.foldl setAttribute done = done ++ attrs := by
    intro done hdone
    clear h
    induction attrs generalizing done with
    | nil => rw [List.foldl_nil, List.append_nil]
    | cons a attrs ih =>
        have hsplit : done ++ a :: attrs = (done ++ [a]) ++ attrs := by
          rw [List.append_assoc, List.singleton_append]
        have hnot : a.1 ∉ done.map Prod.fst := by
          rw [List.map_append, List.map_cons] at hdone
          intro hmem
          exact (List.disjoint_of_nodup_append hdone) hmem List.mem_cons_self
        rw [List.foldl_cons, setAttribute_of_not_mem hnot, ih _ (hsplit ▸ hdone), hsplit]
  exact hfrom [] h

end Literals

section Paths

variable {tb : Tables} {named : Option Text → Run Step} {following_list : Bool}

/-- The siblings that a position on the stack is about, each where it stands. -/
structure SpotRow (following_list : Bool) (ps : List Int) (cnt : Int) (s : Spot)
    (ss : List Spot) : Prop where
  siblings : ∃ before es, ss = spotsFrom before es
  reached : ∀ i : Nat, reach following_list ((cnt + i) :: ps) s = ss[i]?

variable {ps : List Int} {cnt : Int} {s : Spot} {ss : List Spot}

theorem SpotRow.tail (h : SpotRow following_list ps cnt s ss) :
    SpotRow following_list ps (cnt + 1) s ss.tail := by
  obtain ⟨⟨before, es, rfl⟩, hreached⟩ := h
  refine ⟨?_, fun i => ?_⟩
  · cases es with
    | nil => exact ⟨[], [], rfl⟩
    | cons e es => exact ⟨e :: before, es, rfl⟩
  · have hcnt : cnt + 1 + i = cnt + (i + 1 : Nat) := by omega
    rw [hcnt, hreached, List.getElem?_tail]

theorem SpotRow.head (h : SpotRow following_list ps cnt s ss) :
    reach following_list (cnt :: ps) s = ss.head? := by
  have h0 := h.reached 0
  rwa [Nat.cast_zero, Int.add_zero, ← List.head?_eq_getElem?] at h0

theorem SpotRow.children (h : SpotRow following_list ps cnt s ss) :
    SpotRow following_list (cnt :: ps) 1 s (ss.head?.elim [] Axis.child.spots) := by
  cases hss : ss.head? with
  | none =>
      refine ⟨⟨[], [], rfl⟩, fun i => ?_⟩
      rw [reach, h.head, hss]
      rfl
  | some t =>
      refine ⟨⟨[], t.node.children, rfl⟩, fun i => ?_⟩
      have hi : (1 + (i : Int) - 1).toNat = i := by omega
      rw [reach, h.head, hss, Option.bind_some, Spot.along, if_pos (by omega), hi]
      rfl

/-- The element itself and those behind it. -/
theorem SpotRow.first (s : Spot) :
    SpotRow following_list [] 1 s (s :: Axis.followingSibling.spots s) := by
  refine ⟨⟨s.before, s.onward, rfl⟩, fun i => ?_⟩
  cases i with
  | zero => rfl
  | succ i =>
      have hcnt : (1 : Int) + (i + 1 : Nat) - 1 = i + 1 := by omega
      have hi : ((i : Int) + 1 - 1).toNat = i := by omega
      rw [reach, if_pos (by omega), hcnt, Spot.along, if_pos (by omega), hi]
      rfl

/-- What follows the first of some siblings are the others. -/
theorem SpotRow.following (h : SpotRow following_list ps cnt s ss) :
    ss.head?.elim [] Axis.followingSibling.spots = ss.tail := by
  obtain ⟨⟨before, es, rfl⟩, -⟩ := h
  cases es <;> rfl

theorem select_here (h : SpotRow following_list ps cnt s ss) :
    selectAll readLiteral (write_patstack following_list (cnt :: ps) ++ [here .any]) [s] =
      ss.take 1 := by
  have hlead := leads_self _ (leads_patstack following_list (cnt :: ps) s) .any
  rw [h.head] at hlead
  rw [here, hlead]
  cases ss <;> rfl

theorem select_behind (h : SpotRow following_list ps cnt s ss) :
    selectAll readLiteral
      (write_patstack following_list (cnt :: ps) ++ [.mk .followingSibling .any []]) [s] =
      ss.tail := by
  have hlead := leads_patstack following_list (cnt :: ps) s
  rw [h.head] at hlead
  rw [selectAll_append, hlead, ← h.following]
  cases ss.head? with
  | none => rw [Option.toList_none, selectAll, List.flatMap_nil, selectAll, Option.elim_none]
  | some t => rw [Option.toList_some, selectAll_one, select_any, Option.elim_some]

theorem found_pattern (h : SpotRow following_list ps cnt s ss) (list : Bool)
    (attr : Option String) :
    VarPattern.found ⟨write_patstack following_list (cnt :: ps), list, attr⟩ s =
      foundAt ss list attr := by
  have hhead : (ss.take 1).head? = ss.head? := by
    cases ss <;> rfl
  have hall : ss.take 1 ++ ss.tail = ss := by
    cases ss <;> rfl
  rw [VarPattern.found, select_here h, select_behind h, hhead, hall]
  cases attr <;> rfl

theorem registered_writeVariable (h : SpotRow following_list ps cnt s ss) {diff : Nat}
    {attr : Option String} {tv : TgenVar} {w : Emitted}
    (hw : writeVariable named following_list (cnt :: ps) diff attr tv = .ok w) :
    w.registered.map (fun r => (r.id, r.pat.found s)) = [(tv.id, foundAt ss tv.list attr)] := by
  have hreg : w.registered =
      [⟨tv.id, ⟨write_patstack following_list (cnt :: ps), tv.list, attr⟩, diff⟩] := by
    unfold writeVariable at hw
    simp only at hw
    split at hw
    · cases hw
    · split at hw
      · cases hw
        rfl
      · rw [bind_eq_ok_iff] at hw
        obtain ⟨t, -, hw⟩ := hw
        cases hw
        rfl
  rw [hreg, List.map_singleton, found_pattern h]

theorem registered_writeAttributes (h : SpotRow following_list ps cnt s ss) {diff : Nat}
    {attrs : List (String × Option Text)} {w : Emitted}
    (hw : writeAttributes tb named following_list (cnt :: ps) diff attrs = .ok w) :
    w.registered.map (fun r => (r.id, r.pat.found s)) =
      attrs.filterMap fun a => (variableOf tb a).map fun tv =>
        (tv.id, foundAt ss tv.list (some a.1)) := by
  induction attrs generalizing w with
  | nil =>
      cases hw
      rfl
  | cons a attrs ih =>
      rw [writeAttributes, bind_eq_ok_iff] at hw
      obtain ⟨u, hu, hw⟩ := hw
      rw [bind_eq_ok_iff] at hw
      obtain ⟨v, hv, hw⟩ := hw
      cases hw
      rw [Emitted.append, List.map_append, ih hv, List.filterMap_cons]
      cases hvar : variableOf tb a with
      | none =>
          rw [hvar] at hu
          cases hu
          rfl
      | some tv =>
          rw [hvar, Option.map_some, Option.getD_some] at hu
          rw [registered_writeVariable h hu]
          rfl

/-- The paths of the variables lead to what they stand for. -/
theorem registered_found :
    (∀ x ps cnt diff w list, writeNode tb named following_list ps cnt diff x = .ok (w, list) →
      ∀ s ss, SpotRow following_list ps cnt s ss →
        w.registered.map (fun r => (r.id, r.pat.found s)) = foundNode tb ss x) ∧
    ∀ xs ps cnt diff w, write_match_pattern tb named following_list ps cnt diff xs = .ok w →
      ∀ s ss, SpotRow following_list ps cnt s ss →
        w.registered.map (fun r => (r.id, r.pat.found s)) = foundAll tb ss xs := by
  refine Cell.induct ?_ ?_ ?_
  · intro type name attrs pretext posttext cs ih ps cnt diff w list hw s ss hrow
    rw [writeNode] at hw
    simp only at hw
    split at hw
    · cases hw
    · rw [bind_eq_ok_iff] at hw
      obtain ⟨u, hu, hw⟩ := hw
      rw [bind_eq_ok_iff] at hw
      obtain ⟨o, ho, hw⟩ := hw
      have hvar : nodeVariable tb (.mk type name attrs pretext posttext cs) = o := by
        rw [nodeVariable, ho]
        cases o <;> rfl
      rw [foundNode, ← registered_writeAttributes hrow hu, hvar]
      cases o with
      | some tv =>
          simp only [bind_eq_ok_iff] at hw
          obtain ⟨v, hv, hw⟩ := hw
          cases hw
          rw [Emitted.append, Emitted.append, List.append_nil, List.map_append,
            registered_writeVariable hrow hv]
      | none =>
          simp only [bind_eq_ok_iff] at hw
          obtain ⟨c, -, v, hv, hw⟩ := hw
          cases hw
          rw [Emitted.append, Emitted.append, List.append_nil, List.map_append,
            ih (cnt :: ps) 1 (diff + 1) v hv s _ hrow.children]
  · intro ps cnt diff w hw s ss _
    cases hw
    rfl
  · intro x xs hx hxs ps cnt diff w hw s ss hrow
    rw [write_match_pattern, bind_eq_ok_iff] at hw
    obtain ⟨⟨u, list⟩, hu, hw⟩ := hw
    simp only at hw
    split at hw
    · cases hw
    · rw [bind_eq_ok_iff] at hw
      obtain ⟨v, hv, hw⟩ := hw
      cases hw
      rw [Emitted.append, List.map_append, hx ps cnt diff u list hu s ss hrow,
        hxs ps (cnt + 1) diff v hv s ss.tail hrow.tail, foundAll]

end Paths

section Made

variable {tb : Tables} {proc : Processor} {params : Nat → Found}

/-- The path of a variable leads to what it stands for, or the variable is a parameter. -/
theorem found_write_varpattern {named : Option Text → Run Step} {following_list : Bool}
    {diff : Nat} {src : List Cell} {w : Emitted}
    (hw : write_match_pattern tb named following_list [] 1 diff src = .ok w) (s : Spot) (id : Nat) :
    (write_varpattern w.registered id).found params s = boundIn tb src params s id := by
  rw [boundIn, ← registered_found.2 src [] 1 diff w hw s _ (SpotRow.first s), write_varpattern]
  induction w.registered with
  | nil => rfl
  | cons r registered ih =>
      rw [List.find?_cons, List.map_cons, List.lookup_cons]
      by_cases hid : r.id = id
      · rw [beq_iff_eq.mpr hid, beq_iff_eq.mpr hid.symm]
        rfl
      · rw [beq_eq_false_iff_ne.mpr hid, beq_eq_false_iff_ne.mpr (Ne.symm hid)]
        exact ih

/-- An attribute is given its value, or the value of its variable. -/
theorem writeAttribute_text {registered : List Registered} {bound : Nat → Found} {s : Spot}
    (hbound : ∀ id, (write_varpattern registered id).found params s = bound id) {x : Cell}
    {a : String × Option Text} (ha : AttributeKept tb x a) :
    ((writeAttribute tb registered x a).1,
      (writeAttribute tb registered x a).2.text proc params s) =
      instantiateAttribute tb proc bound x a := by
  have hcontent : ∀ tv, (variableContent registered tv).text proc params s =
      valueIn proc bound tv := by
    intro tv
    unfold variableContent valueIn
    cases tv.operate with
    | some operate => rfl
    | none =>
        simp only [Content.text]
        rw [hbound]
  unfold AttributeKept at ha
  unfold writeAttribute instantiateAttribute
  cases hvar : attributeVariable tb a with
  | some tv => simp only [hcontent]
  | none =>
      have ha := ha hvar
      cases hint : integerVariable tb x with
      | some tv =>
          rw [hint, Option.isSome_some, if_pos rfl] at ha
          simp only [ha, if_true, hcontent]
      | none =>
          rw [hint, Option.isSome_none, if_neg Bool.false_ne_true] at ha
          simp only [ite_self, Content.text, contentText_of_kept ha]

theorem fst_instantiateAttribute (bound : Nat → Found) (x : Cell) (a : String × Option Text) :
    (instantiateAttribute tb proc bound x a).1 = a.1 := by
  unfold instantiateAttribute
  split
  · rfl
  · split <;> rfl

/-- The instructions make the destination with what the variables stand for. -/
theorem runAll_write_output_pattern {registered : List Registered} {bound : Nat → Found}
    {s : Spot} (hbound : ∀ id, (write_varpattern registered id).found params s = bound id) :
    (∀ x f, writeOutNode tb registered x = .ok f → PlainCell tb x →
      f.run proc params s = instantiateNode tb proc bound x) ∧
    ∀ xs fs, write_output_pattern tb registered xs = .ok fs → Plain tb xs →
      runAll proc params s fs = instantiate tb proc bound xs := by
  refine Cell.induct ?_ ?_ ?_
  · intro type name attrs pretext posttext cs ih f hf hx
    rw [writeOutNode, bind_eq_ok_iff] at hf
    obtain ⟨o, ho, hf⟩ := hf
    have hvar : nodeVariable tb (.mk type name attrs pretext posttext cs) = o := by
      rw [nodeVariable, ho]
      cases o <;> rfl
    rw [instantiateNode]
    rw [PlainCell] at hx
    simp only [hvar] at hx ⊢
    cases o with
    | some tv =>
        cases hf
        simp only
        split
        · rw [Fragment.run, hbound]
        · rw [Fragment.run, hbound]
    | none =>
        simp only [bind_eq_ok_iff] at hf
        obtain ⟨fs, hfs, hf⟩ := hf
        cases hf
        obtain ⟨hnames, hattrs, hcs⟩ := hx rfl
        have hmap : (attrs.map (writeAttribute tb registered
            (.mk type name attrs pretext posttext cs))).map
            (fun a => (a.1, a.2.text proc params s)) =
            attrs.map (instantiateAttribute tb proc bound
              (.mk type name attrs pretext posttext cs)) := by
          rw [List.map_map]
          exact List.map_congr_left fun a ha => writeAttribute_text hbound (hattrs a ha)
        have hnodup : ((attrs.map (instantiateAttribute tb proc bound
            (.mk type name attrs pretext posttext cs))).map Prod.fst).Nodup := by
          rw [List.map_map]
          exact (List.map_congr_left fun a _ => fst_instantiateAttribute bound _ a) ▸ hnames
        rw [Fragment.run, hmap, foldl_setAttribute hnodup, ih fs hfs hcs]
  · intro fs hfs _
    cases hfs
    rw [runAll, instantiate]
  · intro x xs hx hxs fs hfs hplain
    rw [write_output_pattern, bind_eq_ok_iff] at hfs
    obtain ⟨f, hf, hfs⟩ := hfs
    rw [bind_eq_ok_iff] at hfs
    obtain ⟨gs, hgs, hfs⟩ := hfs
    cases hfs
    rw [runAll, instantiate, hx f hf hplain.1, hxs gs hgs hplain.2]

/-- The difference of the variable and two. -/
def differencePattern : Cell :=
  .mk .node "SgSubtractOp" [("paren", some "1".toList)] none none
    [.mk .node "SgVarRefExp" [("name", some "e".toList), ("type", some "0".toList)] none none [],
      .mk .node "SgIntVal" [("value", some "2".toList)] none none []]

/-- A processor that copies what templates are applied to. -/
def copying : Processor where
  apply := fun _ ss => ss.map Spot.node
  operated := fun _ => []
  content := fun _ => []

end Made

end XevXml.Tools.Tgen
