import XevXml.Tools.Tgen.Pattern

/-!
# What Patterns Stand For

A pattern is a list of siblings, and it fits the elements of a document from some place on when
its nodes fit them one after the other. A variable fits any element, and a list fits those that
are left, if there are any. Any other node fits an element of the same name. The attributes of
both are the same apart from the ignored ones, and so are their values, unless an attribute has
the name of a variable. The children of the node fit those of the element, from the first one
on, and the number of those that are not ignored is the same, or not larger if the last child is
a list.

Nothing asks for the same element where a variable stands twice. An ignored element does not
count, but it has a position: a child that follows it in the document is one place further on
than in the pattern.

## Main definitions

* `Proper`, `ProperElements`: No attribute is given twice.
* `Met`: A condition is met.
* `SameAttributes`, `SameNumber`, `FitsNode`, `Fits`: Patterns and what they stand for.
* `Holds`: What a condition with a name says, down to some depth.
* `Row`: The siblings that a position on the stack is about.

## Theorems

* `leads_patstack`: Where the path on the stack leads.
* `nodeTests_iff`: The tests of a node.
* `write_match_pattern_iff`: The tests of a pattern.
-/

namespace XevXml.Tools.Tgen

open Location

section Distinct

mutual

/-- No element in the pattern has an attribute twice. -/
def ProperCell : Cell → Prop
  | .mk _ _ attrs _ _ cs => (attrs.map Prod.fst).Nodup ∧ Proper cs

def Proper : List Cell → Prop
  | [] => True
  | x :: xs => ProperCell x ∧ Proper xs

end

mutual

/-- Neither has an element of the document. -/
def ProperElement : Element → Prop
  | .mk _ attrs cs => (attrs.map Prod.fst).Nodup ∧ ProperElements cs

def ProperElements : List Element → Prop
  | [] => True
  | e :: es => ProperElement e ∧ ProperElements es

end

theorem ProperElements.of_mem {es : List Element} (h : ProperElements es) {e : Element}
    (he : e ∈ es) : ProperElement e := by
  induction es with
  | nil => cases he
  | cons d es ih =>
      rcases List.mem_cons.mp he with rfl | he
      · exact h.1
      · exact ih h.2 he

theorem ProperElements.drop {es : List Element} (h : ProperElements es) (i : Nat) :
    ProperElements (es.drop i) := by
  induction es generalizing i with
  | nil =>
      rw [List.drop_nil]
      trivial
  | cons e es ih =>
      cases i with
      | zero => exact h
      | succ i => exact ih h.2 i

/-- The elements from one of those in front on. -/
theorem ProperElements.back {before es : List Element}
    (h : ProperElements (before.reverse ++ es)) (c : Nat) :
    ProperElements ((before.take c).reverse ++ es) := by
  have hsplit : before.reverse ++ es =
      (before.drop c).reverse ++ ((before.take c).reverse ++ es) := by
    rw [← List.append_assoc, ← List.reverse_append, List.take_append_drop]
  rw [hsplit] at h
  have hdrop := h.drop (before.drop c).reverse.length
  rwa [List.drop_left] at hdrop

theorem ProperElements.tail {es : List Element} (h : ProperElements es) :
    ProperElements es.tail := by
  cases es with
  | nil => trivial
  | cons e es => exact h.2

end Distinct

variable (tb : Tables)

/-- How a literal is read: it stands in an attribute of the stylesheet. -/
def readLiteral (s : Text) : Option Text := decode .attribute s

section Conditions

variable (named : Option Text → List Element → Prop) (list : Bool)

mutual

/-- A condition is met by the first of the elements, or by one of them for a list. -/
def Met (es : List Element) : Cell → Prop
  | .mk type name attrs pretext posttext cs =>
      let condname := getAttr (.mk type name attrs pretext posttext cs) "name"
      match connective condname with
      | .or => AnyMet es cs
      | .and => AllMet es cs
      | .not => ¬ FirstMet es cs
      | .named => if list then ∃ i, named condname (es.drop i) else named condname es

def AnyMet (es : List Element) : List Cell → Prop
  | [] => False
  | c :: cs => Met es c ∨ AnyMet es cs

def AllMet (es : List Element) : List Cell → Prop
  | [] => True
  | c :: cs => Met es c ∧ AllMet es cs

def FirstMet (es : List Element) : List Cell → Prop
  | [] => False
  | c :: _ => Met es c

end

end Conditions

section Meaning

variable (named : Option Text → List Element → Prop)

/-- The condition of a variable, if it has one. -/
def VarMet (tv : TgenVar) (es : List Element) : Prop :=
  ∀ cond, tv.cond = some cond → Met named tv.list es cond

/-- The variable that a node stands for, where the tool does not stop. -/
def nodeVariable (x : Cell) : Option TgenVar := (is_tgenvar_node tb x).toOption.join

/-- Whether a node is a list of elements. -/
def isList (x : Cell) : Bool := (nodeVariable tb x).any fun tv => tv.list

/-- A value is the one that is tested, unless it is not tested. -/
def SameValue (x : Cell) (n : String) (v : Option Text) (w : Text) : Prop :=
  isOpen tb x (n, v) = true ∨ literalValue readLiteral .double (printedValue v) = some w

/-- The attributes that are not ignored are the same. -/
def SameAttributes (x : Cell) (e : Element) : Prop :=
  ∀ n, (!is_ignore_attr tb n) = true →
    Option.Rel (SameValue tb x n) (x.attrs.lookup n) (e.attrs.lookup n)

/-- The number of children that are not ignored is the same, or not larger in front of a list. -/
def SameNumber (cs : List Cell) (es : List Element) : Prop :=
  let n := (cs.takeWhile fun x => !isList tb x).countP fun x => !is_ignored_node tb x.name
  let m := es.countP fun e => !(ignoredNodes tb).contains e.name
  n ≤ m ∧ (cs.any (isList tb) = false → n = m)

mutual

/-- A node of a pattern fits the first of the elements, or all of them. -/
def FitsNode (es : List Element) : Cell → Prop
  | .mk type name attrs pretext posttext cs =>
      let x := Cell.mk type name attrs pretext posttext cs
      (∀ a ∈ attrs, ∀ tv, variableOf tb a = some tv → VarMet named tv es) ∧
        match nodeVariable tb x with
        | some tv => VarMet named tv es ∧ (tv.list = true ∨ es ≠ [])
        | none => ∃ e, es.head? = some e ∧ name = e.name ∧ SameAttributes tb x e ∧
            SameNumber tb cs e.children ∧ Fits e.children cs

/-- The nodes of a pattern fit the elements one after the other. -/
def Fits (es : List Element) : List Cell → Prop
  | [] => True
  | x :: xs => FitsNode es x ∧ Fits es.tail xs

end

/-- The elements that a condition looks at, each with those behind it. -/
def lookedAt : CondType → Element → List Element → List (List Element)
  | .contains, e, es => (e :: es) :: e.inside.map Spot.onward
  | .is, e, es => [e :: es]
  | .listwith, e, es => [e :: es]

/-- An element has an attribute for names or values, and its value is the one in the pattern. -/
def HasValue (type : VarType) (pattern : List Cell) (es : List Element) : Prop :=
  ∃ x varname vt e v, pattern.head? = some x ∧ get_namevalue tb x = .ok (some varname) ∧
    vt ∈ tb.vflist ∧ vt.type = type ∧ es.head? = some e ∧
    literalValue readLiteral .single varname = some v ∧
    (printed (getAttr vt.form "name"), v) ∈ e.attrs

/-- What a condition looks for. -/
def CondFits (cc : CondCell) (es : List Element) : Prop :=
  match cc.namevalue with
  | .pattern => Fits tb named es cc.pattern
  | .name => HasValue tb .name cc.pattern es
  | .value => HasValue tb .value cc.pattern es

/-- What a condition with a name says about the first of some elements, down to some depth. -/
def Holds : Nat → Option Text → List Element → Prop
  | 0, _, _ => False
  | _ + 1, _, [] => False
  | depth + 1, condname, e :: es => ∃ cc, lookup_condition tb.condlist condname = some cc ∧
      ∃ ds ∈ lookedAt cc.type e es, CondFits tb (Holds depth) cc ds

end Meaning

section Ignored

theorem mem_ignoredAttributes_iff (n : String) :
    n ∈ ignoredAttributes tb ↔ ∃ vf ∈ tb.vflist, vf.type = .ignore ∧
      vf.form.name = "attribute" ∧ getAttr vf.form "name" = some n.toList := by
  rw [ignoredAttributes, List.mem_map]
  constructor
  · rintro ⟨vf, hvf, rfl⟩
    rw [List.mem_filter, Bool.and_eq_true, beq_iff_eq, beq_iff_eq] at hvf
    obtain ⟨hmem, htype, hname⟩ := hvf
    obtain ⟨t, ht⟩ := Option.isSome_iff_exists.mp (tb.attributes_named vf hmem hname)
    refine ⟨vf, hmem, htype, hname, ?_⟩
    rw [ht, printed, Option.getD_some, String.toList_ofList]
  · rintro ⟨vf, hmem, htype, hname, hattr⟩
    refine ⟨vf, ?_, ?_⟩
    · rw [List.mem_filter, Bool.and_eq_true, beq_iff_eq, beq_iff_eq]
      exact ⟨hmem, htype, hname⟩
    · rw [hattr, printed, Option.getD_some, String.ofList_toList]

/-- An attribute is ignored if the configuration lists it there. -/
theorem contains_ignoredAttributes (n : String) :
    (ignoredAttributes tb).contains n = is_ignore_attr tb n := by
  rw [Bool.eq_iff_iff, List.contains_iff_mem, mem_ignoredAttributes_iff, is_ignore_attr,
    beq_iff_eq, Option.map_eq_some_iff]
  constructor
  · rintro ⟨vf, hmem, htype, hname, hattr⟩
    have hsome : (tb.vflist.find? fun vt =>
        vt.form.name == "attribute" && getAttr vt.form "name" == some n.toList).isSome = true :=
      List.find?_isSome.mpr ⟨vf, hmem, by rw [hname, hattr, beq_self_eq_true, beq_self_eq_true,
        Bool.and_self]⟩
    obtain ⟨vt, hvt⟩ := Option.isSome_iff_exists.mp hsome
    have hfound := List.find?_some hvt
    rw [Bool.and_eq_true, beq_iff_eq, beq_iff_eq] at hfound
    -- Both are listed with the same name, and no attribute is listed twice.
    have heq : vt = vf := List.inj_on_of_nodup_map tb.attributes_nodup
      (List.mem_filter.mpr ⟨List.mem_of_find?_eq_some hvt, beq_iff_eq.mpr hfound.1⟩)
      (List.mem_filter.mpr ⟨hmem, beq_iff_eq.mpr hname⟩) (hfound.2.trans hattr.symm)
    exact ⟨vt, hvt, heq ▸ htype⟩
  · rintro ⟨vt, hvt, htype⟩
    have hfound := List.find?_some hvt
    rw [Bool.and_eq_true, beq_iff_eq, beq_iff_eq] at hfound
    exact ⟨vt, List.mem_of_find?_eq_some hvt, htype, hfound.1, hfound.2⟩

theorem nodup_ignoredAttributes : (ignoredAttributes tb).Nodup := by
  rw [ignoredAttributes, List.nodup_map_iff_inj_on]
  · intro vf hvf vg hvg heq
    rw [List.mem_filter, Bool.and_eq_true, beq_iff_eq, beq_iff_eq] at hvf hvg
    obtain ⟨t, ht⟩ := Option.isSome_iff_exists.mp (tb.attributes_named vf hvf.1 hvf.2.2)
    obtain ⟨u, hu⟩ := Option.isSome_iff_exists.mp (tb.attributes_named vg hvg.1 hvg.2.2)
    rw [ht, hu, printed, printed, Option.getD_some, Option.getD_some, String.ofList_inj] at heq
    exact List.inj_on_of_nodup_map tb.attributes_nodup
      (List.mem_filter.mpr ⟨hvf.1, beq_iff_eq.mpr hvf.2.2⟩)
      (List.mem_filter.mpr ⟨hvg.1, beq_iff_eq.mpr hvg.2.2⟩) (by rw [ht, hu, heq])
  · have hattrs : (tb.vflist.filter fun vf => vf.form.name == "attribute").Nodup :=
      List.Nodup.of_map _ tb.attributes_nodup
    rw [← List.filter_filter]
    exact hattrs.filter _

theorem nodup_ignoredNodes : (ignoredNodes tb).Nodup := tb.nodes_nodup

end Ignored

section Nodes

variable {tb} {path : List Step} {s t : Spot}

theorem holds_attributeTest_iff (h : Leads readLiteral path s (some t)) (x : Cell)
    (a : String × Option Text) :
    (attributeTest tb path x a).holds readLiteral s = true ↔
      ∃ w, (a.1, w) ∈ t.node.attrs ∧ SameValue tb x a.1 a.2 w := by
  unfold attributeTest SameValue
  by_cases hopen : isOpen tb x a = true
  · rw [if_pos hopen, holds_attribute_iff h]
    constructor
    · rintro ⟨u, hu, hmem⟩
      cases hu
      obtain ⟨b, hb, hname⟩ := List.mem_map.mp hmem
      exact ⟨b.2, hname ▸ hb, Or.inl hopen⟩
    · rintro ⟨w, hw, -⟩
      exact ⟨t, rfl, List.mem_map_of_mem hw⟩
  · rw [if_neg hopen, holds_equals_iff h]
    constructor
    · rintro ⟨u, v, hu, hv, hmem⟩
      cases hu
      exact ⟨v, hmem, Or.inr hv⟩
    · rintro ⟨w, hw, hv⟩
      exact ⟨t, w, rfl, hv.resolve_left hopen, hw⟩

/-- The tests of the attributes and of their number. -/
theorem attributeTests_iff (h : Leads readLiteral path s (some t)) {x : Cell}
    (hx : (x.attrs.map Prod.fst).Nodup) (ht : (t.node.attrs.map Prod.fst).Nodup) :
    ((∀ a ∈ x.attrs.filter fun a => !is_ignore_attr tb a.1,
        (attributeTest tb path x a).holds readLiteral s = true) ∧
      (Test.counts path (.attributes .any)
        ((ignoredAttributes tb).map fun n => .attributes (.named n)) .equal
        (x.attrs.filter fun a => !is_ignore_attr tb a.1).length).holds readLiteral s = true) ↔
      SameAttributes tb x t.node := by
  unfold SameAttributes
  rw [← agree_iff hx ht (fun n => !is_ignore_attr tb n), holds_counts_iff h,
    countOf_attributes _ _ (nodup_ignoredAttributes tb), Comparison.holds, beq_iff_eq, Nat.cast_inj]
  simp only [contains_ignoredAttributes, holds_attributeTest_iff h]

theorem count_sibling_eq {c : Nat} {cs : List Cell} {k : Int}
    (h : count_sibling tb c cs = .ok k) :
    let n := c + (cs.takeWhile fun x => !isList tb x).countP fun x => !is_ignored_node tb x.name
    k = if cs.any (isList tb) = true then -1 - (n : Int) else n := by
  induction cs generalizing c with
  | nil =>
      cases h
      simp
  | cons x cs ih =>
      rw [count_sibling, bind_eq_ok_iff] at h
      obtain ⟨o, ho, h⟩ := h
      have hvar : isList tb x = o.any fun tv => tv.list := by
        rw [isList, nodeVariable, ho]
        cases o <;> rfl
      by_cases hlist : isList tb x = true
      · -- The list ends the count.
        cases o with
        | none =>
            rw [hvar] at hlist
            cases hlist
        | some tv =>
            rw [hvar, Option.any_some] at hlist
            simp only [hlist, if_true] at h
            cases h
            simp [hvar, hlist]
      · have hrest : count_sibling tb (if is_ignored_node tb x.name = true then c else c + 1) cs =
            .ok k := by
          cases o with
          | none => exact h
          | some tv =>
              rw [hvar, Option.any_some] at hlist
              simp only [hlist, Bool.false_eq_true, if_false] at h
              exact h
        have hk := ih hrest
        simp only [Bool.not_eq_true] at hlist
        simp only [List.takeWhile_cons, hlist, Bool.not_false, if_true, List.countP_cons,
          List.any_cons, Bool.false_or]
        rw [hk]
        cases is_ignored_node tb x.name with
        | true => simp
        | false =>
            simp only [Bool.false_eq_true, if_false, Bool.not_false, if_true]
            split <;> push_cast <;> omega

/-- The test of the number of children. -/
theorem holds_number_iff (h : Leads readLiteral path s (some t)) {cs : List Cell} {c : Int}
    (hc : count_sibling tb 0 cs = .ok c) :
    (Test.counts path (.children .any)
      ((ignoredNodes tb).map fun n => .children (.named n))
      (if c < 0 then .atLeast else .equal) (if c < 0 then -c - 1 else c).toNat).holds
        readLiteral s = true ↔ SameNumber tb cs t.node.children := by
  have hk := count_sibling_eq hc
  simp only [Nat.zero_add] at hk
  rw [holds_counts_iff h, countOf_children _ _ (nodup_ignoredNodes tb)]
  unfold SameNumber
  cases hlist : cs.any (isList tb) with
  | true =>
      rw [hlist, if_pos rfl] at hk
      rw [if_pos (by omega), if_pos (by omega), Comparison.holds, decide_eq_true_iff]
      constructor
      · intro hle
        exact ⟨by omega, nofun⟩
      · rintro ⟨hle, -⟩
        omega
  | false =>
      rw [hlist, if_neg Bool.false_ne_true] at hk
      rw [if_neg (by omega), if_neg (by omega), Comparison.holds, beq_iff_eq]
      constructor
      · intro heq
        exact ⟨by omega, fun _ => by omega⟩
      · rintro ⟨-, heq⟩
        have := heq rfl
        omega

/-- The element is there and has the right name. -/
theorem holds_here_iff {o : Option Spot} (h : Leads readLiteral path s o) (test : NameTest) :
    (Test.elements (path ++ [here test])).holds readLiteral s = true ↔
      ∃ t, o = some t ∧ test.accepts t.node.name = true := by
  rw [here, holds_elements_iff (leads_self _ h test)]
  cases o with
  | none => simp
  | some t => simp [Option.isSome_filter]

/-- The tests of a node, without those of its children. -/
theorem nodeTests_iff (h : Leads readLiteral path s (some t)) {x : Cell}
    (hx : (x.attrs.map Prod.fst).Nodup) (ht : (t.node.attrs.map Prod.fst).Nodup) {c : Int}
    (hc : count_sibling tb 0 x.children = .ok c) :
    allHold readLiteral (nodeTests tb path x c) s = true ↔
      x.name = t.node.name ∧ SameAttributes tb x t.node ∧
        SameNumber tb x.children t.node.children := by
  have hname : (∃ u, some t = some u ∧ (NameTest.named x.name).accepts u.node.name = true) ↔
      x.name = t.node.name := by
    simpa [NameTest.accepts] using eq_comm
  rw [nodeTests, List.cons_append, allHold_iff, List.forall_mem_cons, List.forall_mem_append,
    List.forall_mem_map, List.forall_mem_cons, List.forall_mem_singleton, holds_number_iff h hc,
    ← attributeTests_iff h hx ht, holds_here_iff h, hname]
  simp only [and_assoc]

/-- Where there is no element, the name is not found. -/
theorem not_nodeTests (h : Leads readLiteral path s none) (x : Cell) (c : Int) :
    ¬ allHold readLiteral (nodeTests tb path x c) s = true := by
  rw [nodeTests, List.cons_append, allHold_iff, List.forall_mem_cons, holds_here_iff h]
  rintro ⟨⟨u, hu, -⟩, -⟩
  cases hu

end Nodes

section Rows

variable (following_list : Bool)

/-- Where the path on the stack leads. -/
def reach : List Int → Spot → Option Spot
  | [], s => some s
  | [cnt], s =>
      if 1 < cnt then s.along .followingSibling (cnt - 1)
      else if cnt < 1 ∧ following_list = false then s.along .precedingSibling (1 - cnt)
      else some s
  | cnt :: below :: ps, s => (reach (below :: ps) s).bind fun t => t.along .child cnt

theorem leads_patstack (ps : List Int) (s : Spot) :
    Leads readLiteral (write_patstack following_list ps) s (reach following_list ps s) := by
  induction ps with
  | nil => exact leads_nil _ s
  | cons cnt ps ih =>
      cases ps with
      | nil =>
          have hone : ∀ axis k, Leads readLiteral [Axis.at axis k] s (s.along axis k) :=
            fun axis k => leads_at _ (leads_nil _ s) axis k
          rw [write_patstack, reach]
          split
          · exact hone _ _
          · split
            · exact hone _ _
            · exact leads_nil _ s
      | cons below ps => exact leads_at _ ih .child cnt

/-- The siblings from a position on, one after the other. -/
def Row (ps : List Int) (cnt : Int) (s : Spot) (es : List Element) : Prop :=
  ∀ i : Nat, (reach following_list ((cnt + i) :: ps) s).map Spot.onward = startingAt es i

variable {following_list} {ps : List Int} {cnt : Int} {s : Spot} {es : List Element}

theorem Row.tail (h : Row following_list ps cnt s es) :
    Row following_list ps (cnt + 1) s es.tail := by
  intro i
  rw [startingAt_tail, ← h (i + 1)]
  have hcnt : cnt + 1 + i = cnt + (i + 1 : Nat) := by omega
  rw [hcnt]

theorem Row.head (h : Row following_list ps cnt s es) :
    (reach following_list (cnt :: ps) s).map Spot.onward = startingAt es 0 := by
  have h0 := h 0
  rwa [Nat.cast_zero, Int.add_zero] at h0

theorem Row.children {t : Spot} (h : reach following_list (cnt :: ps) s = some t) :
    Row following_list (cnt :: ps) 1 s t.node.children := by
  intro i
  rw [reach, h, Option.bind_some, onward_child]

/-- The element itself and those behind it. -/
theorem Row.first (s : Spot) : Row following_list [] 1 s s.onward := by
  intro i
  cases i with
  | zero => rfl
  | succ i =>
      rw [reach, if_pos (by omega)]
      have hcnt : (1 : Int) + (i + 1 : Nat) - 1 = i + 1 := by omega
      rw [hcnt, onward_following]

/-- As many elements in front of it, the element itself and those behind it. -/
theorem Row.preceding (s : Spot) {c : Nat} (hc : c ≤ s.before.length) :
    Row false [] (1 - c) s ((s.before.take c).reverse ++ s.onward) := by
  intro i
  have hlen : (s.before.take c).reverse.length = c := by
    rw [List.length_reverse, List.length_take_of_le hc]
  by_cases hi : i < c
  · have hcnt : (1 : Int) - (1 - c + i) = (c - i - 1 : Nat) + 1 := by omega
    have hsub : c - i - 1 + 1 = c - i := by omega
    have hfront : (s.before.take c).reverse.drop i = (s.before.take (c - i)).reverse := by
      rw [List.drop_reverse, List.length_take_of_le hc, List.take_take, Nat.min_eq_left (by omega)]
    rw [reach, if_neg (by omega), if_pos ⟨by omega, rfl⟩, hcnt, onward_preceding _ _ (by omega),
      hsub, startingAt, if_pos (by rw [List.length_append, hlen]; omega),
      List.drop_append_of_le_length (by omega), hfront]
  · rw [startingAt_append _ _ _ (by omega), hlen]
    have hrow : Row false [] 1 s s.onward := Row.first s
    have hfirst := hrow (i - c)
    have hcnt : (1 : Int) + (i - c : Nat) = 1 - c + i := by omega
    rwa [hcnt] at hfirst

end Rows

section Conditions

variable (named : Option Text → Run Step) (means : Option Text → List Element → Prop)

/-- The step of a condition leads to something where the condition holds. -/
structure Agrees : Prop where
  nothing : ∀ n, ¬ means n []
  select : ∀ n step, named n = .ok step → ∀ t : Spot, ProperElements t.onward →
    (step.select readLiteral t ≠ [] ↔ means n t.onward)

variable {named means} {path : List Step} {s : Spot} {o : Option Spot} {es : List Element}

/-- The elements from an element on, and the element. -/
theorem onward_cases (hes : o.map Spot.onward = startingAt es 0) :
    (o = none ∧ es = []) ∨ ∃ t, o = some t ∧ es = t.onward := by
  cases o with
  | none =>
      cases es with
      | nil => exact Or.inl ⟨rfl, rfl⟩
      | cons e es => cases hes
  | some t =>
      cases es with
      | nil => cases hes
      | cons e es => exact Or.inr ⟨t, rfl, (Option.some.inj hes).symm⟩

/-- The condition holds further on. -/
theorem selectAll_following_iff (hag : Agrees named means) {n : Option Text} {step : Step}
    (hstep : named n = .ok step) {u : Spot} (hproper : ProperElements u.onward) :
    selectAll readLiteral [.mk .followingSibling .any [], step] [u] ≠ [] ↔
      ∃ i, means n (u.onward.drop (i + 1)) := by
  rw [selectAll, List.flatMap_singleton, select_any, selectAll, selectAll, ne_eq,
    List.flatMap_eq_nil_iff]
  have hselect : ∀ v ∈ Axis.followingSibling.spots u,
      (step.select readLiteral v ≠ [] ↔ means n v.onward) := by
    intro v hv
    obtain ⟨i, -, hi⟩ := onward_of_mem hv
    exact hag.select n step hstep v (hi ▸ hproper.2.drop i)
  have hsome := exists_onward_iff (u.node :: u.before) u.after (means n)
  constructor
  · intro hne
    rw [not_forall] at hne
    obtain ⟨v, hne⟩ := hne
    rw [Classical.not_imp] at hne
    obtain ⟨i, -, hi⟩ := hsome.mp ⟨v, hne.1, (hselect v hne.1).mp hne.2⟩
    exact ⟨i, hi⟩
  · rintro ⟨i, hi⟩ hall
    have hlt : i < u.after.length := by
      by_contra hge
      have hnil : u.onward.drop (i + 1) = [] := List.drop_of_length_le (by
        rw [Spot.onward, List.length_cons]
        omega)
      exact hag.nothing n (hnil ▸ hi)
    obtain ⟨v, hv, hn⟩ := hsome.mpr ⟨i, hlt, hi⟩
    exact (hselect v hv).mpr hn (hall v hv)

theorem writeNamed_iff (hag : Agrees named means) (h : Leads readLiteral path s o)
    (hes : o.map Spot.onward = startingAt es 0) (hproper : ProperElements es) (list : Bool)
    {n : Option Text} {t : Test} (ht : writeNamed named path list n = .ok t) :
    t.holds readLiteral s = true ↔ if list then ∃ i, means n (es.drop i) else means n es := by
  rw [writeNamed, bind_eq_ok_iff] at ht
  obtain ⟨step, hstep, ht⟩ := ht
  have hone : (Test.nonempty (path ++ [step])).holds readLiteral s = true ↔ means n es := by
    rw [holds_nonempty_iff h]
    rcases onward_cases hes with ⟨rfl, rfl⟩ | ⟨u, rfl, rfl⟩
    · exact ⟨nofun, fun hn => absurd hn (hag.nothing n)⟩
    · simp only [Option.some.injEq, exists_eq_left', selectAll_one]
      exact hag.select n step hstep u hproper
  cases list with
  | false =>
      cases ht
      exact hone
  | true =>
      cases ht
      have hrest : (Test.nonempty (path ++ [.mk .followingSibling .any [], step])).holds
          readLiteral s = true ↔ ∃ i, means n (es.drop (i + 1)) := by
        rw [holds_nonempty_iff h]
        rcases onward_cases hes with ⟨rfl, rfl⟩ | ⟨u, rfl, rfl⟩
        · refine ⟨nofun, ?_⟩
          rintro ⟨i, hn⟩
          rw [List.drop_nil] at hn
          exact absurd hn (hag.nothing n)
        · simp only [Option.some.injEq, exists_eq_left']
          exact selectAll_following_iff hag hstep hproper
      rw [Test.holds, Test.holds, anyHolds, anyHolds, anyHolds, Bool.or_false, Bool.or_eq_true,
        hone, hrest, if_pos rfl]
      constructor
      · rintro (hn | ⟨i, hn⟩)
        · exact ⟨0, hn⟩
        · exact ⟨i + 1, hn⟩
      · rintro ⟨i, hn⟩
        cases i with
        | zero => exact Or.inl hn
        | succ i => exact Or.inr ⟨i, hn⟩

/-- What is written for a condition says that it is met. -/
theorem write_match_condition_exp_iff (hag : Agrees named means)
    (h : Leads readLiteral path s o) (hes : o.map Spot.onward = startingAt es 0)
    (hproper : ProperElements es) (list : Bool) :
    (∀ cond t, write_match_condition_exp named path list cond = .ok t →
      (t.holds readLiteral s = true ↔ Met means list es cond)) ∧
    ∀ cs, (∀ ts, writeConditions named path list cs = .ok ts →
      (anyHolds readLiteral ts s = true ↔ AnyMet means list es cs) ∧
        (allHold readLiteral ts s = true ↔ AllMet means list es cs)) ∧
      ∀ t, writeFirst named path list cs = .ok t →
        (t.holds readLiteral s = true ↔ FirstMet means list es cs) := by
  refine Cell.induct ?_ ?_ ?_
  · intro type name attrs pretext posttext cs ih t ht
    rw [write_match_condition_exp] at ht
    rw [Met]
    cases hcon : connective (getAttr (.mk type name attrs pretext posttext cs) "name") with
    | or =>
        simp only [hcon, bind_eq_ok_iff] at ht ⊢
        obtain ⟨ts, hts, ht⟩ := ht
        cases ht
        rw [Test.holds, Test.holds]
        exact (ih.1 ts hts).1
    | and =>
        simp only [hcon, bind_eq_ok_iff] at ht ⊢
        obtain ⟨ts, hts, ht⟩ := ht
        cases ht
        rw [Test.holds, Test.holds]
        exact (ih.1 ts hts).2
    | not =>
        simp only [hcon, bind_eq_ok_iff] at ht ⊢
        obtain ⟨u, hu, ht⟩ := ht
        cases ht
        rw [Test.holds, Bool.not_eq_true', ← ih.2 u hu, Bool.not_eq_true]
    | named =>
        simp only [hcon] at ht ⊢
        exact writeNamed_iff hag h hes hproper list ht
  · refine ⟨fun ts hts => ?_, fun t ht => ?_⟩
    · cases hts
      exact ⟨by simp [anyHolds, AnyMet], by simp [allHold, AllMet]⟩
    · cases ht
  · intro c cs hc hcs
    refine ⟨fun ts hts => ?_, fun t ht => ?_⟩
    · rw [writeConditions, bind_eq_ok_iff] at hts
      obtain ⟨t, ht, hts⟩ := hts
      rw [bind_eq_ok_iff] at hts
      obtain ⟨us, hus, hts⟩ := hts
      cases hts
      obtain ⟨hany, hall⟩ := hcs.1 us hus
      rw [anyHolds, allHold, AnyMet, AllMet, Bool.or_eq_true, Bool.and_eq_true, hc t ht, hany,
        hall]
      exact ⟨Iff.rfl, Iff.rfl⟩
    · rw [writeFirst] at ht
      exact hc t ht

end Conditions

section Patterns

variable {tb} {named : Option Text → Run Step} {means : Option Text → List Element → Prop}
  {following_list : Bool}

theorem writeVariable_iff (hag : Agrees named means) {ps : List Int} {cnt : Int} {s : Spot}
    {es : List Element} (hrow : Row following_list ps cnt s es) (hproper : ProperElements es)
    {diff : Nat} {attr : Option String} {tv : TgenVar} {w : Emitted}
    (hw : writeVariable named following_list (cnt :: ps) diff attr tv = .ok w) :
    allHold readLiteral w.tests s = true ↔ VarMet means tv es := by
  unfold writeVariable at hw
  unfold VarMet
  cases hop : tv.operate.isSome with
  | true => simp [hop] at hw
  | false =>
      simp only [hop, Bool.false_eq_true, if_false] at hw
      cases hcond : tv.cond with
      | none =>
          simp only [hcond] at hw
          cases hw
          simp [allHold]
      | some cond =>
          simp only [hcond, bind_eq_ok_iff] at hw
          obtain ⟨t, ht, hw⟩ := hw
          cases hw
          rw [allHold_singleton_iff,
            (write_match_condition_exp_iff hag (leads_patstack following_list (cnt :: ps) s)
              hrow.head hproper tv.list).1 cond t ht]
          simp

theorem writeAttributes_iff (hag : Agrees named means) {ps : List Int} {cnt : Int} {s : Spot}
    {es : List Element} (hrow : Row following_list ps cnt s es) (hproper : ProperElements es)
    {diff : Nat} {attrs : List (String × Option Text)} {w : Emitted}
    (hw : writeAttributes tb named following_list (cnt :: ps) diff attrs = .ok w) :
    allHold readLiteral w.tests s = true ↔
      ∀ a ∈ attrs, ∀ tv, variableOf tb a = some tv → VarMet means tv es := by
  induction attrs generalizing w with
  | nil =>
      cases hw
      simp [Emitted.nothing, allHold]
  | cons a attrs ih =>
      rw [writeAttributes, bind_eq_ok_iff] at hw
      obtain ⟨u, hu, hw⟩ := hw
      rw [bind_eq_ok_iff] at hw
      obtain ⟨v, hv, hw⟩ := hw
      cases hw
      rw [Emitted.append, allHold_append_iff, ih hv, List.forall_mem_cons]
      refine and_congr_left fun _ => ?_
      cases hvar : variableOf tb a with
      | none =>
          rw [hvar] at hu
          cases hu
          simp [Emitted.nothing, allHold]
      | some tv =>
          rw [hvar, Option.map_some, Option.getD_some] at hu
          rw [writeVariable_iff hag hrow hproper hu]
          simp

/-- A variable that is no list is there. -/
theorem there_iff {ps : List Int} {s : Spot} {o : Option Spot} {es : List Element}
    (h : Leads readLiteral (write_patstack following_list ps) s o)
    (hes : o.map Spot.onward = startingAt es 0) (tv : TgenVar) :
    allHold readLiteral (if tv.list = true then [] else
      [Test.elements (write_patstack following_list ps ++ [here .any])]) s = true ↔
      tv.list = true ∨ es ≠ [] := by
  by_cases hlist : tv.list = true
  · simp [hlist, allHold]
  · rw [if_neg hlist, allHold_singleton_iff, holds_here_iff h, or_iff_right hlist]
    rcases onward_cases hes with ⟨rfl, rfl⟩ | ⟨t, rfl, rfl⟩
    · simp
    · simp [NameTest.accepts, Spot.onward]

/-- The tests of a pattern say that it fits from the position on. -/
theorem write_match_pattern_fits (hag : Agrees named means) :
    (∀ x ps cnt diff w list, writeNode tb named following_list ps cnt diff x = .ok (w, list) →
      ProperCell x → ∀ s es, Row following_list ps cnt s es → ProperElements es →
        (allHold readLiteral w.tests s = true ↔ FitsNode tb means es x)) ∧
    ∀ xs ps cnt diff w, write_match_pattern tb named following_list ps cnt diff xs = .ok w →
      Proper xs → ∀ s es, Row following_list ps cnt s es → ProperElements es →
        (allHold readLiteral w.tests s = true ↔ Fits tb means es xs) := by
  refine Cell.induct ?_ ?_ ?_
  · intro type name attrs pretext posttext cs ih ps cnt diff w list hw hx s es hrow hes
    rw [writeNode] at hw
    simp only at hw
    split at hw
    · cases hw
    · rw [bind_eq_ok_iff] at hw
      obtain ⟨u, hu, hw⟩ := hw
      rw [bind_eq_ok_iff] at hw
      obtain ⟨o, ho, hw⟩ := hw
      have hvar : nodeVariable tb (.mk type name attrs pretext posttext cs) = o := by
        rw [nodeVariable, ho]
        cases o <;> rfl
      have hlead := leads_patstack following_list (cnt :: ps) s
      rw [FitsNode]
      simp only [hvar]
      rw [← writeAttributes_iff hag hrow hes hu]
      cases o with
      | some tv =>
          simp only [bind_eq_ok_iff] at hw
          obtain ⟨v, hv, hw⟩ := hw
          cases hw
          rw [Emitted.append, Emitted.append, allHold_append_iff, allHold_append_iff, and_assoc,
            writeVariable_iff hag hrow hes hv, there_iff hlead hrow.head]
      | none =>
          simp only [bind_eq_ok_iff] at hw
          obtain ⟨c, hc, v, hv, hw⟩ := hw
          cases hw
          simp only [Emitted.append, allHold_append_iff, and_assoc]
          refine and_congr_right fun _ => ?_
          rcases onward_cases hrow.head with ⟨ho, rfl⟩ | ⟨t, ho, rfl⟩
          · rw [ho] at hlead
            refine ⟨fun hall => absurd hall.1 (not_nodeTests hlead _ c), ?_⟩
            rintro ⟨e, he, -⟩
            cases he
          · rw [ho] at hlead
            have ht : (t.node.attrs.map Prod.fst).Nodup ∧ ProperElements t.node.children := by
              obtain ⟨b, ⟨n, as, ds⟩, after⟩ := t
              exact hes.1
            rw [nodeTests_iff (x := .mk type name attrs pretext posttext cs) hlead hx.1 ht.1 hc,
              ih (cnt :: ps) 1 (diff + 1) v hv hx.2 s t.node.children (Row.children ho) ht.2]
            constructor
            · rintro ⟨⟨hname, hattrs, hnumber⟩, hcs⟩
              exact ⟨t.node, rfl, hname, hattrs, hnumber, hcs⟩
            · rintro ⟨e, he, hname, hattrs, hnumber, hcs⟩
              cases he
              exact ⟨⟨hname, hattrs, hnumber⟩, hcs⟩
  · intro ps cnt diff w hw _ s es _ _
    cases hw
    simp [Emitted.nothing, allHold, Fits]
  · intro x xs hx hxs ps cnt diff w hw hproper s es hrow hes
    rw [write_match_pattern, bind_eq_ok_iff] at hw
    obtain ⟨⟨u, list⟩, hu, hw⟩ := hw
    simp only at hw
    split at hw
    · cases hw
    · rw [bind_eq_ok_iff] at hw
      obtain ⟨v, hv, hw⟩ := hw
      cases hw
      rw [Emitted.append, allHold_append_iff, Fits,
        hx ps cnt diff u list hu hproper.1 s es hrow hes,
        hxs ps (cnt + 1) diff v hv hproper.2 s es.tail hrow.tail hes.tail]

end Patterns

section Depth

variable {tb} {following_list : Bool}

theorem namevalueTests_iff {type : VarType} {pattern : List Cell} {ts : List Test}
    (hts : namevalueTests tb type pattern = .ok ts) (s : Spot) :
    allHold readLiteral ts s = true ↔ HasValue tb type pattern s.onward := by
  unfold namevalueTests at hts
  unfold HasValue
  cases pattern with
  | nil => cases hts
  | cons x xs =>
      simp only [bind_eq_ok_iff] at hts
      obtain ⟨o, ho, hts⟩ := hts
      cases o with
      | none => cases hts
      | some varname =>
          cases hts
          rw [allHold_singleton_iff, Test.holds, anyHolds_iff]
          constructor
          · rintro ⟨u, hu, hholds⟩
            obtain ⟨vt, hvt, rfl⟩ := List.mem_map.mp hu
            obtain ⟨hmem, htype⟩ := List.mem_filter.mp hvt
            obtain ⟨t, v, ht, hv, hattr⟩ :=
              (holds_equals_iff (leads_nil readLiteral s) _ _ _).mp hholds
            cases ht
            exact ⟨x, varname, vt, s.node, v, rfl, ho, hmem, of_decide_eq_true htype, rfl, hv,
              hattr⟩
          · rintro ⟨y, name, vt, e, v, hy, hname, hmem, htype, he, hv, hattr⟩
            cases hy
            cases he
            rw [ho] at hname
            cases hname
            refine ⟨_, List.mem_map_of_mem (List.mem_filter.mpr ⟨hmem, decide_eq_true htype⟩), ?_⟩
            exact (holds_equals_iff (leads_nil readLiteral s) _ _ _).mpr ⟨s, v, rfl, hv, hattr⟩

/-- The elements that the step of a condition looks at. -/
def spotsAt : CondType → Spot → List Spot
  | .contains, s => Axis.descendantOrSelf.spots s
  | .is, s => [s]
  | .listwith, s => [s]

theorem onward_spotsAt (type : CondType) (s : Spot) :
    (spotsAt type s).map Spot.onward = lookedAt type s.node s.after := by
  cases type <;> rfl

theorem select_conditionStep (type : CondType) (ts : List Test) (s : Spot) :
    (conditionStep type ts).select readLiteral s =
      (spotsAt type s).filter fun t => allHold readLiteral ts t := by
  have hself : ((Axis.self.spots s).filter fun t => NameTest.any.accepts t.node.name) = [s] :=
    List.filter_eq_self.mpr fun _ _ => rfl
  cases type with
  | contains =>
      rw [conditionStep, Step.select, filterAll_tests]
      exact congrArg _ (List.filter_eq_self.mpr fun _ _ => rfl)
  | is => rw [conditionStep, Step.select, filterAll_tests, hself, spotsAt]
  | listwith =>
      -- One of both paths leads to the element itself.
      have hlist : (Test.either [.mk .followingSibling .any []] [here .any]).holds readLiteral s =
          true := by
        have hhere : selectAll readLiteral [here .any] [s] = [s] := by
          rw [selectAll_one, here, select_any, Axis.spots]
        rw [Test.holds, hhere]
        exact Bool.or_true _
      rw [conditionStep, Step.select, filterAll, filterAll_tests, hself, Pred.filter,
        List.filter_singleton, hlist, spotsAt]
      rfl

mutual

theorem proper_of_mem_inside (e : Element) (he : ProperElement e) :
    ∀ s ∈ e.inside, ProperElements s.onward := by
  obtain ⟨n, as, cs⟩ := e
  rw [Element.inside]
  exact proper_of_mem_spotsBelow [] cs he.2

theorem proper_of_mem_spotsBelow (before es : List Element) (hes : ProperElements es) :
    ∀ s ∈ spotsBelow before es, ProperElements s.onward := by
  match es with
  | [] => exact nofun
  | e :: es =>
      rw [spotsBelow]
      intro s hs
      rcases List.mem_cons.mp hs with rfl | hs
      · exact hes
      · rcases List.mem_append.mp hs with hs | hs
        · exact proper_of_mem_inside e hes.1 s hs
        · exact proper_of_mem_spotsBelow (e :: before) es hes.2 s hs

end

theorem conditionTests_iff {depth : Nat}
    (hag : Agrees (write_match_condition tb following_list depth) (Holds tb depth))
    {cc : CondCell} (hcc : Proper cc.pattern) {ts : List Test}
    (hts : conditionTests tb (write_match_pattern tb
      (write_match_condition tb following_list depth) following_list [] 1 1) cc = .ok ts)
    {s : Spot} (hs : ProperElements s.onward) :
    allHold readLiteral ts s = true ↔ CondFits tb (Holds tb depth) cc s.onward := by
  unfold conditionTests at hts
  unfold CondFits
  cases hnv : cc.namevalue with
  | pattern =>
      simp only [hnv, bind_eq_ok_iff] at hts ⊢
      obtain ⟨w, hw, hts⟩ := hts
      cases hts
      exact (write_match_pattern_fits hag).2 cc.pattern [] 1 1 w hw hcc s s.onward
        (Row.first s) hs
  | name =>
      simp only [hnv] at hts ⊢
      exact namevalueTests_iff hts s
  | value =>
      simp only [hnv] at hts ⊢
      exact namevalueTests_iff hts s

/-- What is written for a condition leads to something where it holds. -/
theorem agrees_holds (hconds : ∀ cc ∈ tb.condlist, Proper cc.pattern) (depth : Nat) :
    Agrees (write_match_condition tb following_list depth) (Holds tb depth) := by
  induction depth with
  | zero => exact ⟨fun _ => id, fun n step hstep => nomatch hstep⟩
  | succ depth ih =>
      refine ⟨fun _ => id, fun n step hstep t ht => ?_⟩
      rw [write_match_condition] at hstep
      cases hcc : lookup_condition tb.condlist n with
      | none =>
          rw [hcc] at hstep
          cases hstep
      | some cc =>
          rw [hcc] at hstep
          simp only [bind_eq_ok_iff] at hstep
          obtain ⟨ts, hts, hstep⟩ := hstep
          cases hstep
          have hpattern : Proper cc.pattern := hconds cc (List.mem_of_find?_eq_some hcc)
          have hproper : ∀ u ∈ spotsAt cc.type t, ProperElements u.onward := by
            intro u hu
            cases hc : cc.type with
            | contains =>
                rw [hc] at hu
                rcases List.mem_cons.mp hu with rfl | hu
                · exact ht
                · exact proper_of_mem_inside t.node ht.1 u hu
            | is =>
                rw [hc] at hu
                exact List.mem_singleton.mp hu ▸ ht
            | listwith =>
                rw [hc] at hu
                exact List.mem_singleton.mp hu ▸ ht
          have htests : ∀ u ∈ spotsAt cc.type t, (allHold readLiteral ts u = true ↔
              CondFits tb (Holds tb depth) cc u.onward) := fun u hu =>
            conditionTests_iff ih hpattern hts (hproper u hu)
          rw [select_conditionStep, Spot.onward, Holds]
          constructor
          · intro hne
            obtain ⟨u, hu⟩ := List.exists_mem_of_ne_nil _ hne
            obtain ⟨hmem, hall⟩ := List.mem_filter.mp hu
            exact ⟨cc, hcc, u.onward, onward_spotsAt cc.type t ▸ List.mem_map_of_mem hmem,
              (htests u hmem).mp hall⟩
          · rintro ⟨dc, hdc, ds, hds, hfits⟩
            rw [hcc] at hdc
            cases hdc
            rw [← onward_spotsAt] at hds
            obtain ⟨u, hmem, rfl⟩ := List.mem_map.mp hds
            exact List.ne_nil_of_mem (List.mem_filter.mpr ⟨hmem, (htests u hmem).mpr hfits⟩)

end Depth

section Matched

variable {tb}

/-- Where there is no element, a node that is no list is not found. -/
theorem not_writeNode {named : Option Text → Run Step} {following_list : Bool} {ps : List Int}
    {cnt : Int} {diff : Nat} {x : Cell} {w : Emitted}
    (hw : writeNode tb named following_list ps cnt diff x = .ok (w, false)) {s : Spot}
    (hs : reach following_list (cnt :: ps) s = none) : ¬ allHold readLiteral w.tests s = true := by
  obtain ⟨type, name, attrs, pretext, posttext, cs⟩ := x
  have hlead := leads_patstack following_list (cnt :: ps) s
  rw [hs] at hlead
  rw [writeNode] at hw
  simp only at hw
  split at hw
  · cases hw
  · rw [bind_eq_ok_iff] at hw
    obtain ⟨u, -, hw⟩ := hw
    rw [bind_eq_ok_iff] at hw
    obtain ⟨o, -, hw⟩ := hw
    cases o with
    | some tv =>
        simp only [bind_eq_ok_iff, Except.ok.injEq, Prod.mk.injEq] at hw
        obtain ⟨v, -, rfl, hlist⟩ := hw
        rw [Emitted.append, allHold_append_iff]
        rintro ⟨-, hthere⟩
        have hnil : (none : Option Spot).map Spot.onward = startingAt [] 0 := rfl
        rcases (there_iff hlead hnil tv).mp hthere with h | h
        · exact Bool.false_ne_true (hlist.symm.trans h)
        · exact h rfl
    | none =>
        simp only [bind_eq_ok_iff, Except.ok.injEq, Prod.mk.injEq] at hw
        obtain ⟨c, -, v, -, rfl, -⟩ := hw
        rw [Emitted.append, Emitted.append, allHold_append_iff, allHold_append_iff]
        rintro ⟨⟨-, hnode⟩, -⟩
        exact not_nodeTests hlead _ c hnode

/-- The tests from the `c`-th node on, where there are as many siblings in front. -/
theorem tests_iff_fits (hconds : ∀ cc ∈ tb.condlist, Proper cc.pattern) {xs : List Cell}
    (hxs : Proper xs) {depth diff c : Nat} {w : Emitted}
    (hw : write_match_pattern tb (write_match_condition tb false depth) false [] (1 - c) diff xs =
      .ok w) {s : Spot} (hs : ProperElements (s.before.reverse ++ s.onward))
    (hle : c ≤ s.before.length) :
    allHold readLiteral w.tests s = true ↔
      Fits tb (Holds tb depth) ((s.before.take c).reverse ++ s.onward) xs := by
  exact (write_match_pattern_fits (agrees_holds hconds depth)).2 xs [] (1 - c) diff w hw hxs s _
    (Row.preceding s hle) (hs.back c)

/-- Where there are not, the first node is not found. It is not the last one, so it is no list. -/
theorem not_tests {xs : List Cell} {depth diff c : Nat} (hc : c < xs.length) {w : Emitted}
    (hw : write_match_pattern tb (write_match_condition tb false depth) false [] (1 - c) diff xs =
      .ok w) {s : Spot} (hlt : s.before.length < c) : ¬ allHold readLiteral w.tests s = true := by
  intro hall
  cases xs with
  | nil => exact absurd hc (Nat.not_lt_zero c)
  | cons x xs =>
      rw [write_match_pattern, bind_eq_ok_iff] at hw
      obtain ⟨⟨u, list⟩, hu, hw⟩ := hw
      simp only at hw
      split at hw
      · cases hw
      · next hno =>
          rw [bind_eq_ok_iff] at hw
          obtain ⟨v, -, hw⟩ := hw
          cases hw
          rw [Emitted.append, allHold_append_iff] at hall
          have hne : xs ≠ [] := by
            rintro rfl
            rw [List.length_singleton] at hc
            omega
          have hlist : list = false := by
            rw [← Bool.not_eq_true]
            exact fun hl => hno ⟨hl, hne⟩
          rw [hlist] at hu
          have hnone : reach false [1 - (c : Int)] s = none := by
            rw [reach, if_neg (by omega), if_pos ⟨by omega, rfl⟩, Spot.along,
              if_pos (by omega), Axis.spots, spotsBack_getElem?,
              List.getElem?_eq_none (by omega)]
            rfl
          exact not_writeNode hu hnone hall.1

/-- A small configuration with one variable, which stands for expressions. -/
def smallTables : Tables where
  vflist :=
    [⟨.exp, .mk .node "SgVarRefExp" [("name", variable_name), ("type", any_value)] none none []⟩,
      ⟨.ignore, .mk .node "attribute" [("name", some "type".toList)] none none []⟩,
      ⟨.name, .mk .node "attribute" [("name", some "name".toList)] none none []⟩]
  varlist := [⟨"e".toList, .exp, false, false, 0, none, [], none, none, nofun⟩]
  condlist := []
  attributes_named := by decide +kernel
  attributes_nodup := by decide +kernel
  nodes_nodup := by decide +kernel

/-- The sum of the variable and one. -/
def sumPattern : Cell :=
  .mk .node "SgAddOp" [] none none
    [.mk .node "SgVarRefExp" [("name", some "e".toList), ("type", some "0".toList)] none none [],
      .mk .node "SgIntVal" [("value", some "1".toList)] none none []]

/-- The sum of a string and one. -/
def stringPlusOne : Element :=
  .mk "SgAddOp" [("type", "0".toList)]
    [.mk "SgStringVal" [] [], .mk "SgIntVal" [("value", "1".toList)] []]

end Matched

end XevXml.Tools.Tgen
