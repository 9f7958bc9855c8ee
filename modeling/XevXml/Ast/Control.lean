import XevXml.Ast.Statement

/-!
# Control Statements after the Round Trip

Which statements come back unchanged after they have been written and read.
The condition `KeptSt` is again read off the tree. A head keeps its labels and
flags if `Head.Kept` holds, a row of parts must fit the tests of its class, and
everything below must come back unchanged as well.

The proof compares what is read with what was written. The two may differ in
all details, but a part comes back as a part of the same kind, and the tests of
the reader look at nothing else.

## Main definitions

* `Head.Kept`: The heads that come back unchanged.
* `KeptSt`: The statements that come back unchanged.
* `items`: The parts of a tree of any sort.
* `Comes`: What the round trip delivers for a tree of any sort.

## Theorems

* `visit_attrib_eq_self_iff`: `Head.Kept` describes the heads that come back.
* `comes`: Every tree comes as `Comes` says.
* `statement_survives_iff`: Which statements come back unchanged.
-/

namespace XevXml

variable {F : Type} [FloatStream F] {O : Type}

/-- The heads that come back with their labels and flags. -/
def Head.Kept (fortran : Bool) : Head → Prop
  | exprStatement => True
  | ifStmt .. => True
  | whileStmt has_end_statement end_numeric_label string_label =>
      if fortran then
        (end_numeric_label = none ∨ string_label = []) ∧ ∀ l, end_numeric_label = some l → l.1 ≠ 0
      else has_end_statement = false ∧ end_numeric_label = none ∧ string_label = []
  | fortranDo _ _ end_numeric_label _ => ∀ l, end_numeric_label = some l → l.1 ≠ 0
  | switchStatement end_numeric_label string_label =>
      fortran = true ∨ (end_numeric_label = none ∧ string_label = [])
  | whereStatement _ _ end_numeric_label => end_numeric_label = none
  | elseWhereStatement => True

section Heads

theorem lookup_labelAttr (name key : String) (l : Option CInt) :
    (labelAttr name l).lookup key = if key = name then l.map Numeral.Machine.print else none := by
  by_cases h : key = name
  · cases l <;> simp [labelAttr, h]
  · have hkey : (key == name) = false := beq_eq_false_iff_ne.mpr h
    cases l <;> simp [labelAttr, List.lookup_cons, h, hkey]

theorem lookup_slabelAttr (key : String) (s : Text) :
    (slabelAttr s).lookup key = if key = "slabel" ∧ s ≠ [] then some s else none := by
  by_cases h : key = "slabel"
  · cases s <;> simp [slabelAttr, h]
  · have hkey : (key == "slabel") = false := beq_eq_false_iff_ne.mpr h
    cases s <;> simp [slabelAttr, List.lookup_cons, h, hkey]

theorem lookup_attribSgStatement (key : String) (label : Option CInt) :
    (attribSgStatement label).lookup key =
      if key = "label" then label.map Numeral.Machine.print else none := by
  by_cases h : key = "label"
  · cases label <;> simp [attribSgStatement, h]
  · have hkey : (key == "label") = false := beq_eq_false_iff_ne.mpr h
    cases label <;> simp [attribSgStatement, List.lookup_cons, h, hkey]

variable {node : Attrs} {name : String}

/-- A flag is read from its text, whatever the default is. -/
theorem getInt_flagText {b : Bool} (d : Int) (h : node.lookup name = some (flagText b)) :
    decide ((getInt node name).getD d ≠ 0) = b := by
  rw [getInt, h]
  cases b <;> rfl

theorem getLabel_print {l : Option CInt} (h : node.lookup name = l.map Numeral.Machine.print) :
    getLabel node name = l := by
  rw [getLabel, getString, h]
  cases l with
  | none => rfl
  | some l => rw [Option.map_some, Option.map_some, Numeral.Machine.read_print]

theorem getNonzeroLabel_eq_self_iff {l : Option CInt}
    (h : node.lookup name = l.map Numeral.Machine.print) :
    getNonzeroLabel node name = l ↔ ∀ x, l = some x → x.1 ≠ 0 := by
  rw [getNonzeroLabel, getLabel_print h]
  cases l <;> simp

theorem getSlabel_eq {s : Text} (h : node.lookup "slabel" = if s ≠ [] then some s else none) :
    getSlabel node = s := by
  rw [getSlabel, getString, h]
  cases s <;> rfl

/-- The attributes of a head do not hide the numeric label of the statement. -/
theorem checkStatement_attrib (fortran : Bool) (head : Head) (label : Option CInt) :
    checkStatement (head.attrib fortran ++ attribSgStatement label) = label := by
  have hlookup : (head.attrib fortran).lookup "label" = none := by
    cases head with
    | whileStmt has_end_statement end_numeric_label string_label =>
        cases fortran <;> cases end_numeric_label <;>
          simp [Head.attrib, attribSgWhileStmt, List.lookup_cons]
    | _ => simp [Head.attrib, attribSgIfStmt, attribSgFortranDo, attribSgSwitchStatement,
        attribSgWhereStatement, List.lookup_cons, List.lookup_append, lookup_labelAttr,
        lookup_slabelAttr]
  have hlabel : (head.attrib fortran ++ attribSgStatement label).lookup "label" =
      label.map Numeral.Machine.print := by
    rw [List.lookup_append, hlookup, Option.none_or, lookup_attribSgStatement, if_pos rfl]
  exact getLabel_print hlabel

theorem getFlag_flagText {b : Bool} (h : node.lookup name = some (flagText b)) :
    getFlag node name = b := getInt_flagText 0 h

variable (label : Option CInt)

/-- An if statement comes back with all its labels and flags. -/
theorem visitSgIfStmt_attrib (has_end_statement use_then_keyword : Bool)
    (end_numeric_label else_numeric_label : Option CInt) (string_label : Text) :
    visitSgIfStmt (attribSgIfStmt has_end_statement use_then_keyword end_numeric_label
        else_numeric_label string_label ++ attribSgStatement label) =
      .ifStmt has_end_statement use_then_keyword end_numeric_label else_numeric_label
        string_label := by
  rw [visitSgIfStmt, getInt_flagText 1 (b := has_end_statement),
    getInt_flagText 1 (b := use_then_keyword), getLabel_print (l := end_numeric_label),
    getLabel_print (l := else_numeric_label), getSlabel_eq (s := string_label)] <;>
    simp [attribSgIfStmt, List.lookup_cons, List.lookup_append, lookup_labelAttr,
      lookup_slabelAttr, lookup_attribSgStatement]

/-- A DO loop comes back without an end label of zero. -/
theorem visitSgFortranDo_attrib (old_style has_end_statement : Bool)
    (end_numeric_label : Option CInt) (string_label : Text) :
    visitSgFortranDo (attribSgFortranDo old_style has_end_statement end_numeric_label
        string_label ++ attribSgStatement label) =
      .fortranDo old_style has_end_statement end_numeric_label string_label ↔
      ∀ l, end_numeric_label = some l → l.1 ≠ 0 := by
  rw [visitSgFortranDo, getFlag_flagText (b := old_style),
    getFlag_flagText (b := has_end_statement), getSlabel_eq (s := string_label),
    Head.fortranDo.injEq, getNonzeroLabel_eq_self_iff]
  · simp
  all_goals
    simp [attribSgFortranDo, List.lookup_cons, List.lookup_append, lookup_labelAttr,
      lookup_slabelAttr, lookup_attribSgStatement]

/-- A switch comes back with its labels in Fortran. -/
theorem visitSgSwitchStatement_attrib (fortran : Bool) (end_numeric_label : Option CInt)
    (string_label : Text) :
    visitSgSwitchStatement fortran (attribSgSwitchStatement end_numeric_label string_label ++
        attribSgStatement label) = .switchStatement end_numeric_label string_label ↔
      fortran = true ∨ (end_numeric_label = none ∧ string_label = []) := by
  cases fortran with
  | false => simp [visitSgSwitchStatement, eq_comm]
  | true =>
      rw [visitSgSwitchStatement, if_pos rfl, getLabel_print (l := end_numeric_label),
        getSlabel_eq (s := string_label)]
      · simp
      all_goals
        simp [attribSgSwitchStatement, List.lookup_append, lookup_labelAttr,
          lookup_slabelAttr, lookup_attribSgStatement]

/-- A where statement comes back without its end label. -/
theorem visitSgWhereStatement_attrib (has_end_statement : Bool) (string_label : Text)
    (end_numeric_label : Option CInt) :
    visitSgWhereStatement (attribSgWhereStatement has_end_statement string_label
        end_numeric_label ++ attribSgStatement label) =
      .whereStatement has_end_statement string_label none := by
  rw [visitSgWhereStatement, getFlag_flagText (b := has_end_statement),
    getSlabel_eq (s := string_label)] <;>
    simp [attribSgWhereStatement, List.lookup_cons, List.lookup_append, lookup_labelAttr,
      lookup_slabelAttr, lookup_attribSgStatement]

/-- A while loop comes back in Fortran with either its end label or its name,
    and otherwise without any label or flag. -/
theorem visitSgWhileStmt_attrib (fortran has_end_statement : Bool)
    (end_numeric_label : Option CInt) (string_label : Text) :
    visitSgWhileStmt fortran (attribSgWhileStmt fortran has_end_statement end_numeric_label
        string_label ++ attribSgStatement label) =
      .whileStmt has_end_statement end_numeric_label string_label ↔
      (Head.whileStmt has_end_statement end_numeric_label string_label).Kept fortran := by
  cases fortran with
  | false => simp [visitSgWhileStmt, Head.Kept, eq_comm]
  | true =>
      have hend : getFlag (attribSgWhileStmt true has_end_statement end_numeric_label
          string_label ++ attribSgStatement label) "end" = has_end_statement :=
        getFlag_flagText (by simp [attribSgWhileStmt])
      simp only [visitSgWhileStmt, hend, if_true, Head.Kept]
      cases end_numeric_label with
      | none =>
          have hname : getSlabel (attribSgWhileStmt true has_end_statement none string_label ++
              attribSgStatement label) = string_label := by
            simp [getSlabel, getString, attribSgWhileStmt, List.lookup_cons]
          have hlabel : getNonzeroLabel (attribSgWhileStmt true has_end_statement none
              string_label ++ attribSgStatement label) "elabel" = none := by
            simp [getNonzeroLabel, getLabel, getString, attribSgWhileStmt, List.lookup_cons,
              lookup_attribSgStatement]
          rw [hname, hlabel]
          cases string_label <;> simp
      | some l =>
          have hname : getSlabel (attribSgWhileStmt true has_end_statement (some l) string_label ++
              attribSgStatement label) = [] := by
            simp [getSlabel, getString, attribSgWhileStmt, List.lookup_cons,
              lookup_attribSgStatement]
          have hlabel : getNonzeroLabel (attribSgWhileStmt true has_end_statement (some l)
              string_label ++ attribSgStatement label) "elabel" = some l ↔
                ∀ x, some l = some x → x.1 ≠ 0 :=
            getNonzeroLabel_eq_self_iff (by simp [attribSgWhileStmt, List.lookup_cons])
          rw [hname, if_neg (by simp), Head.whileStmt.injEq, hlabel]
          simp [eq_comm, and_comm]

/-- Which heads are read from their attributes. -/
theorem visit_attrib_eq_self_iff (fortran : Bool) (head : Head) :
    head.cls.visit fortran (head.attrib fortran ++ attribSgStatement label) = head ↔
      head.Kept fortran := by
  cases head with
  | exprStatement => exact iff_of_true rfl trivial
  | elseWhereStatement => exact iff_of_true rfl trivial
  | ifStmt has_end_statement use_then_keyword end_numeric_label else_numeric_label string_label =>
      exact iff_of_true (visitSgIfStmt_attrib label _ _ _ _ _) trivial
  | whileStmt has_end_statement end_numeric_label string_label =>
      exact visitSgWhileStmt_attrib label fortran _ _ _
  | fortranDo old_style has_end_statement end_numeric_label string_label =>
      exact visitSgFortranDo_attrib label _ _ _ _
  | switchStatement end_numeric_label string_label =>
      exact visitSgSwitchStatement_attrib label fortran _ _
  | whereStatement has_end_statement string_label end_numeric_label =>
      have hvisit := visitSgWhereStatement_attrib label has_end_statement string_label
        end_numeric_label
      simp only [Head.cls, HeadCls.visit, Head.attrib, hvisit, Head.whereStatement.injEq,
        true_and, Head.Kept]
      exact eq_comm

/-- The class of a head is read from the name of the element. -/
theorem cls_visit (fortran : Bool) (node : Attrs) (c : HeadCls) :
    (c.visit fortran node).cls = c := by
  cases c with
  | whileStmt =>
      simp only [HeadCls.visit, visitSgWhileStmt]
      split
      · split <;> rfl
      · rfl
  | switchStatement =>
      simp only [HeadCls.visit, visitSgSwitchStatement]
      split <;> rfl
  | _ => rfl

end Heads

section Documents

/-- Pieces of the document made of elements of expressions and types. -/
def OfSg (x : Fragment) : Prop :=
  ∀ xs, x = .ok xs → ∀ y ∈ xs, ∃ c : Cls, ∃ attrs children, y = .elem c.name attrs children

theorem ofSg_nothing : OfSg nothing := by
  rintro xs h y hy
  obtain rfl := Except.ok.inj h
  exact absurd hy List.not_mem_nil

theorem ofSg_error (e : Fatal) : OfSg (.error e) := fun xs h => absurd h (by simp)

theorem ofSg_element (c : Cls) (attrs : Attrs) (x : Fragment) : OfSg (element c attrs x) := by
  intro xs h y hy
  cases x with
  | error e => exact absurd h (by simp [element, bind, Except.bind])
  | ok children =>
      obtain rfl := Except.ok.inj h
      exact ⟨c, attrs, children, List.mem_singleton.mp hy⟩

theorem ofSg_both {x y : Fragment} (hx : OfSg x) (hy : OfSg y) : OfSg (both x y) := by
  intro xs h z hz
  cases x with
  | error e => exact absurd h (by simp [both, bind, Except.bind])
  | ok a =>
      cases y with
      | error e => exact absurd h (by simp [both, bind, Except.bind])
      | ok b =>
          obtain rfl := Except.ok.inj h
          rcases List.mem_append.mp hz with ha | hb
          · exact hx a rfl z ha
          · exact hy b rfl z hb

theorem ofSg_write (fortran : Bool) {s : Srt} (n : Sg F s) : OfSg (write fortran n) := by
  induction n with
  | noExpr | noVal | noList | nilExpr | nilType => exact ofSg_nothing
  | ofVal n ih | ofList n ih | anExpr n ih | aVal n ih | aList n ih => exact ih
  | consExpr m n ihm ihn | consType m n ihm ihn => exact ofSg_both ihm ihn
  | referenceType base ih => exact ofSg_error _
  | _ => exact ofSg_element _ _ _

theorem ofSg_writeNode (fortran : Bool) (n : Node F) : OfSg (writeNode fortran n) := by
  cases n with
  | expr e => exact ofSg_write fortran e
  | type t => exact ofSg_write fortran t
  | functionParameterTypeList ts => exact ofSg_element _ _ _

/-- The classes of statements, expressions and types have different names. -/
theorem headCls_of_cls (c : Cls) : HeadCls.ofName c.name = none ∧ c.name ≠ basicBlockName := by
  have hall : ∀ c ∈ Cls.all, HeadCls.ofName c.name = none ∧ c.name ≠ basicBlockName := by
    decide +kernel
  exact hall c (Cls.mem_all c)

variable [OtherStmt O] (fortran : Bool)

theorem visitSts_append (a b : List Xml) :
    visitSts (F := F) (O := O) fortran (a ++ b) = (do
      let m ← visitSts fortran a
      let n ← visitSts fortran b
      return m ++ n) := by
  induction a with
  | nil =>
      simp only [List.nil_append, visitSts]
      cases visitSts (F := F) (O := O) fortran b <;> rfl
  | cons x a ih =>
      cases x with
      | elem name attrs children =>
          simp only [List.cons_append, visitSts, ih, bind_assoc, pure_bind]
      | text t => simpa only [List.cons_append, visitSts] using ih
      | comment t => simpa only [List.cons_append, visitSts] using ih

/-- Elements of expressions and types are read by their own reader. -/
theorem visitSts_of_cls (xs : List Xml)
    (h : ∀ y ∈ xs, ∃ c : Cls, ∃ attrs children, y = .elem c.name attrs children) :
    visitSts (F := F) (O := O) fortran xs = (visitAll true xs).map (List.map St.sg) := by
  induction xs with
  | nil => rfl
  | cons x xs ih =>
      obtain ⟨c, attrs, children, rfl⟩ := h x List.mem_cons_self
      obtain ⟨hhead, hblock⟩ := headCls_of_cls c
      have hcls : (Cls.ofName c.name).isSome = true := by rw [Cls.ofName_name]; rfl
      have hvisit : visitSt (F := F) (O := O) fortran (.elem c.name attrs children) =
          (visit true (.elem c.name attrs children)).map St.sg := by
        rw [visitSt, hhead]
        simp only [if_neg hblock, if_pos hcls]
        cases visit (F := F) true (.elem c.name attrs children) <;> rfl
      rw [visitSts, visitAll, hvisit, ih fun y hy => h y (List.mem_cons_of_mem _ hy)]
      cases visit (F := F) true (.elem c.name attrs children) with
      | error e => rfl
      | ok n => cases visitAll (F := F) true xs <;> rfl

end Documents

section Parts

/-- The parts of a tree of any sort. -/
def items : {s : StSrt} → St F O s → List (Option (St F O .part))
  | .part, p => [some p]
  | .parts, ps => ps.toList.map some
  | .row, row => row.slots

/-- Parts of the same kind. -/
def SameKind (p q : St F O .part) : Prop := p.kind = q.kind

theorem ofSlots_slots : (row : St F O .row) → St.ofSlots row.slots = row
  | .noRow => rfl
  | .absent row => by rw [St.slots, St.ofSlots, ofSlots_slots row]
  | .present p row => by rw [St.slots, St.ofSlots, ofSlots_slots row]

theorem slots_ofSlots (l : List (Option (St F O .part))) : (St.ofSlots l).slots = l := by
  induction l with
  | nil => rfl
  | cons slot l ih => cases slot <;> rw [St.ofSlots, St.slots, ih]

theorem ofList_toList : (ps : St F O .parts) → St.ofList ps.toList = ps
  | .nil => rfl
  | .cons p ps => by rw [St.toList, St.ofList, ofList_toList ps]

theorem toList_ofList (l : List (St F O .part)) : (St.ofList l).toList = l := by
  induction l with
  | nil => rfl
  | cons p l ih => rw [St.ofList, St.toList, ih]

/-- The tests of the reader tell parts apart by their kinds only. -/
theorem tests_of_sameKind (c : HeadCls) {p q : St F O .part} (h : SameKind p q) :
    ∀ t ∈ c.tests, t p = t q := by
  unfold SameKind at h
  have hexpr : p.isSgExpression = q.isSgExpression := by simp only [St.isSgExpression, h]
  have hstmt : p.isSgStatement = q.isSgStatement := by simp only [St.isSgStatement, h]
  have hexprStmt : p.isSgExprStatement = q.isSgExprStatement := by
    simp only [St.isSgExprStatement, h]
  have hblock : p.isSgBasicBlock = q.isSgBasicBlock := by simp only [St.isSgBasicBlock, h]
  have helse : p.isSgElseWhereStatement = q.isSgElseWhereStatement := by
    simp only [St.isSgElseWhereStatement, h]
  cases c <;> simp [HeadCls.tests, *]

/-- The kind of a statement depends on the class of its head. -/
theorem kind_compound {head head' : Head} (h : head.cls = head'.cls) (label label' : Option CInt)
    (row row' : St F O .row) :
    (St.compound label head row).kind = (St.compound label' head' row').kind := by
  cases head <;> cases head' <;> first | rfl | exact absurd h (by simp [Head.cls])

theorem alike_of_sameKind (c : HeadCls) {b r : List (Option (St F O .part))}
    (h : List.Forall₂ (Option.Rel SameKind) b r) : Slots.Alike c.tests b r := by
  refine h.imp fun x y hxy => ?_
  cases hxy with
  | none => exact Option.Rel.none
  | some hkind => exact Option.Rel.some (tests_of_sameKind c hkind)

/-- Where every slot is filled, so is every slot of what was read. -/
theorem exists_of_rel_map_some {b : List (Option (St F O .part))} {l' : List (St F O .part)}
    (h : List.Forall₂ (Option.Rel SameKind) b (l'.map some)) :
    ∃ l, b = l.map some ∧ List.Forall₂ SameKind l l' := by
  induction l' generalizing b with
  | nil =>
      cases h
      exact ⟨[], rfl, .nil⟩
  | cons p l' ih =>
      cases h with
      | cons hx hb =>
          cases hx with
          | some hkind =>
              obtain ⟨l, rfl, hl⟩ := ih hb
              exact ⟨_ :: l, rfl, .cons hkind hl⟩

/-- Filtering what was read recovers the statements of a block exactly if all of
    them are statements and come back. -/
theorem filter_eq_toList_iff {l l' : List (St F O .part)} (h : List.Forall₂ SameKind l l') :
    l.filter St.isSgStatement = l' ↔ (∀ p ∈ l', p.isSgStatement = true) ∧ l = l' := by
  constructor
  · intro hfilter
    have hlen : (l.filter St.isSgStatement).length = l.length := by
      rw [hfilter, h.length_eq]
    have hl : l.filter St.isSgStatement = l :=
      List.filter_eq_self.mpr (List.length_filter_eq_length_iff.mp hlen)
    refine ⟨fun p hp => ?_, hl.symm.trans hfilter⟩
    rw [← hfilter] at hp
    exact (List.mem_filter.mp hp).2
  · rintro ⟨hall, rfl⟩
    exact List.filter_eq_self.mpr hall

end Parts

section Spec

variable [OtherStmt O] (fortran : Bool)

/-- What the reader makes of a piece of the document, without the message if it
    aborts. -/
def rereadSt (x : Fragment) : Option (List (St F O .part)) := (x >>= visitSts fortran).toOption

/-- The statements that come back unchanged. -/
def KeptSt : {s : StSrt} → St F O s → Prop
  | _, .sg (.expr e) => readable fortran true e = true ∧ Kept fortran .full e
  | _, .sg (.type t) => readable fortran true t = true ∧ Kept fortran .full t
  | _, .sg (.functionParameterTypeList ts) =>
      readable fortran true ts = true ∧ Kept fortran .full ts
  | _, .compound _ head row =>
      head.Kept fortran ∧ Slots.Fits head.cls.tests row.slots ∧
        head.cls.check row.slots = .ok () ∧ KeptSt row
  | _, .basicBlock _ stmts =>
      (∀ p ∈ stmts.toList, p.isSgStatement = true) ∧ KeptSt stmts
  | _, .other o =>
      (do
        let x ← OtherStmt.write fortran o
        OtherStmt.visit fortran (OtherStmt.name o) x.1 x.2) = .ok o
  | _, .nil => True
  | _, .cons p ps => KeptSt p ∧ KeptSt ps
  | _, .noRow => True
  | _, .absent row => KeptSt row
  | _, .present p row => KeptSt p ∧ KeptSt row

/-- What the round trip delivers for a tree: parts of the same kinds, and the
    same parts exactly if the tree is one that is kept. -/
def Comes {s : StSrt} (n : St F O s) : Prop :=
  (rereadSt (F := F) (O := O) fortran (writeSt fortran n) = none ∧ ¬ KeptSt fortran n) ∨
    ∃ b, rereadSt fortran (writeSt fortran n) = some b.reduceOption ∧
      List.Forall₂ (Option.Rel SameKind) b (items n) ∧ (b = items n ↔ KeptSt fortran n)

/-- Trees put together from others come as these do. -/
theorem comes_append {s t u : StSrt} {m : St F O s} {n : St F O t} {k : St F O u}
    (hwrite : writeSt fortran k = both (writeSt fortran m) (writeSt fortran n))
    (hitems : items k = items m ++ items n)
    (hkept : KeptSt fortran k ↔ KeptSt fortran m ∧ KeptSt fortran n)
    (hm : Comes fortran m) (hn : Comes fortran n) : Comes fortran k := by
  have hreread : rereadSt (F := F) (O := O) fortran (writeSt fortran k) = (do
      let a ← rereadSt fortran (writeSt fortran m)
      let b ← rereadSt fortran (writeSt fortran n)
      return a ++ b) := by
    rw [hwrite]
    exact toOption_both (visitSts_append fortran) _ _
  unfold Comes
  rw [hreread, hkept, hitems]
  rcases hm with ⟨hm, hkm⟩ | ⟨b, hm, hbm, hkm⟩
  · exact Or.inl ⟨by rw [hm]; rfl, fun h => hkm h.1⟩
  rcases hn with ⟨hn, hkn⟩ | ⟨c, hn, hcn, hkn⟩
  · exact Or.inl ⟨by rw [hm, hn]; rfl, fun h => hkn h.2⟩
  refine Or.inr ⟨b ++ c, ?_, List.rel_append hbm hcn, ?_⟩
  · rw [hm, hn, List.reduceOption_append]
    rfl
  · rw [← hkm, ← hkn]
    constructor
    · exact fun h => List.append_inj h hbm.length_eq
    · rintro ⟨rfl, rfl⟩
      rfl

/-- Reading an element with a head. -/
theorem rereadSt_head (c : HeadCls) (attrs : Attrs) (x : Fragment) :
    rereadSt (F := F) (O := O) fortran (stElement c.name attrs x) = (do
      let kids ← rereadSt fortran x
      let p ← (buildSt fortran c attrs kids).toOption
      return [p]) := by
  cases x with
  | error e => rfl
  | ok children =>
      have h : stElement c.name attrs (.ok children) = .ok [.elem c.name attrs children] := rfl
      have hok : ∀ xs, rereadSt (F := F) (O := O) fortran (.ok xs) =
          (visitSts fortran xs).toOption := fun _ => rfl
      rw [h, hok, hok]
      simp only [visitSts, visitSt, HeadCls.ofName_name, toOption_bind, toOption_ok, toOption_pure,
        Option.bind_some, Option.bind_assoc]
      rfl

/-- Reading a block. -/
theorem rereadSt_basicBlock (attrs : Attrs) (x : Fragment) :
    rereadSt (F := F) (O := O) fortran (stElement basicBlockName attrs x) =
      (rereadSt fortran x).map fun kids =>
        [.basicBlock (checkStatement attrs) (.ofList (kids.filter St.isSgStatement))] := by
  cases x with
  | error e => rfl
  | ok children =>
      have h : stElement basicBlockName attrs (.ok children) =
          .ok [.elem basicBlockName attrs children] := rfl
      have hok : ∀ xs, rereadSt (F := F) (O := O) fortran (.ok xs) =
          (visitSts fortran xs).toOption := fun _ => rfl
      have hname : HeadCls.ofName basicBlockName = none := by decide
      rw [h, hok, hok]
      simp only [visitSts, visitSt, hname, if_true, toOption_bind, toOption_ok, toOption_pure,
        Option.bind_some, Option.bind_assoc, Option.map_eq_bind]
      rfl

/-- Reading expressions and types. -/
theorem rereadSt_of_ofSg {x : Fragment} (h : OfSg x) :
    rereadSt (F := F) (O := O) fortran x = (reread true x).map (List.map St.sg) := by
  cases x with
  | error e => rfl
  | ok xs =>
      have hok : rereadSt (F := F) (O := O) fortran (.ok xs) =
          (visitSts fortran xs).toOption := rfl
      rw [hok, visitSts_of_cls fortran xs (h xs rfl), reread_ok]
      cases visitAll (F := F) true xs <;> rfl

theorem comes_sg (n : Node F) : Comes (O := O) fortran (.sg n) := by
  have hread : ∀ (a : Bool) (m : Node F) (k : Prop), reread true (writeNode fortran n) =
      attached a [m] → SameKind (St.sg (O := O) m) (St.sg n) → (m = n ↔ k) →
      (KeptSt fortran (St.sg (O := O) n) ↔ a = true ∧ k) → Comes fortran (St.sg (O := O) n) := by
    intro a m k hm hkind hmn hkept
    have hreread : rereadSt (F := F) (O := O) fortran (writeSt fortran (St.sg (O := O) n)) =
        attached a [.sg m] := by
      rw [writeSt, rereadSt_of_ofSg (O := O) fortran (ofSg_writeNode fortran n), hm, attached_map]
      rfl
    cases a with
    | false => exact Or.inl ⟨hreread, fun h => absurd (hkept.mp h).1 (by decide)⟩
    | true =>
        refine Or.inr ⟨[some (.sg m)], hreread, .cons (.some hkind) .nil, ?_⟩
        rw [hkept, ← hmn]
        simp [items]
  cases n with
  | expr e =>
      refine hread _ (.expr (normal fortran e)) _ ?_ rfl ?_ Iff.rfl
      · rw [writeNode, reread_write, back_eq, attached_map]
        rfl
      · rw [Node.expr.injEq, normal_eq_self_iff]
  | type t =>
      refine hread _ (.type (normal fortran t)) _ ?_ rfl ?_ Iff.rfl
      · rw [writeNode, reread_write, back_eq, attached_map]
        rfl
      · rw [Node.type.injEq, normal_eq_self_iff]
  | functionParameterTypeList ts =>
      refine hread _ (.functionParameterTypeList (normal fortran ts)) _ ?_ rfl ?_ Iff.rfl
      · rw [writeNode, reread_element true _ rfl rfl]
        simp only [Cls.childParent, reread_write, back_eq]
        cases readable fortran true ts <;> simp [build, deliver_params, attached]
      · rw [Node.functionParameterTypeList.injEq, normal_eq_self_iff]

/-- A statement with a head comes back with its parts if they fit. -/
theorem comes_compound (label : Option CInt) (head : Head) {row : St F O .row}
    (h : Comes fortran row) : Comes fortran (.compound label head row) := by
  have hreread := rereadSt_head (F := F) (O := O) fortran head.cls
    (head.attrib fortran ++ attribSgStatement label) (writeSt fortran row)
  unfold Comes
  rw [writeSt, hreread]
  rcases h with ⟨hnone, hrow⟩ | ⟨b, hsome, hkinds, hb⟩
  · exact Or.inl ⟨by rw [hnone]; rfl, fun hkept => hrow hkept.2.2.2⟩
  -- The parts find their slots again when none of them fits a slot before its own.
  have hchain : Slots.chain head.cls.tests b.reduceOption = row.slots ↔
      Slots.Fits head.cls.tests row.slots ∧ KeptSt fortran row := by
    rw [← hb]
    exact Slots.chain_reduceOption_eq_iff (List.Subset.refl _)
      (alike_of_sameKind head.cls hkinds)
  generalize hslots : Slots.chain head.cls.tests b.reduceOption = slots at hchain
  have hbuild : buildSt fortran head.cls (head.attrib fortran ++ attribSgStatement label)
      b.reduceOption = (do
        head.cls.check slots
        return .compound label (head.cls.visit fortran
          (head.attrib fortran ++ attribSgStatement label)) (.ofSlots slots)) := by
    rw [buildSt, hslots, checkStatement_attrib]
  rw [hsome]
  cases hcheck : head.cls.check slots with
  | error e =>
      refine Or.inl ⟨by simp [hbuild, hcheck, bind, Except.bind], fun hkept => ?_⟩
      rw [hchain.mpr ⟨hkept.2.1, hkept.2.2.2⟩, hkept.2.2.1] at hcheck
      exact absurd hcheck (by simp)
  | ok u =>
      refine Or.inr ⟨[some (.compound label (head.cls.visit fortran
        (head.attrib fortran ++ attribSgStatement label)) (.ofSlots slots))], ?_, ?_, ?_⟩
      · have hok : (buildSt fortran head.cls (head.attrib fortran ++ attribSgStatement label)
            b.reduceOption).toOption = some (.compound label (head.cls.visit fortran
              (head.attrib fortran ++ attribSgStatement label)) (.ofSlots slots)) := by
          rw [hbuild, hcheck]
          rfl
        rw [Option.bind_eq_bind, Option.bind_some, hok]
        rfl
      · exact .cons (.some (kind_compound (cls_visit fortran _ _) _ _ _ _)) .nil
      · have hrow : St.ofSlots slots = row ↔ slots = row.slots := by
          constructor
          · rintro rfl
            rw [slots_ofSlots]
          · rintro rfl
            rw [ofSlots_slots]
        have heq := visit_attrib_eq_self_iff label fortran head
        simp only [items, List.cons.injEq, Option.some.injEq, St.compound.injEq, true_and,
          and_true, hrow, hchain, heq, KeptSt]
        constructor
        · rintro ⟨hhead, hfits, hkept⟩
          exact ⟨hhead, hfits, by rw [← hchain.mpr ⟨hfits, hkept⟩, hcheck], hkept⟩
        · rintro ⟨hhead, hfits, -, hkept⟩
          exact ⟨hhead, hfits, hkept⟩

/-- A block comes back with its statements, and without all else. -/
theorem comes_basicBlock (label : Option CInt) {stmts : St F O .parts}
    (h : Comes fortran stmts) : Comes fortran (.basicBlock label stmts) := by
  have hlabel : checkStatement (attribSgStatement label) = label :=
    getLabel_print (by rw [lookup_attribSgStatement, if_pos rfl])
  have hreread := rereadSt_basicBlock (F := F) (O := O) fortran (attribSgStatement label)
    (writeSt fortran stmts)
  unfold Comes
  rw [writeSt, hreread, hlabel]
  rcases h with ⟨hnone, hstmts⟩ | ⟨b, hsome, hkinds, hb⟩
  · exact Or.inl ⟨by rw [hnone]; rfl, fun hkept => hstmts hkept.2⟩
  obtain ⟨l, rfl, hl⟩ := exists_of_rel_map_some hkinds
  have hl' : (l.map some).reduceOption = l := by
    simp [List.reduceOption, List.filterMap_map]
  rw [hsome, hl']
  refine Or.inr ⟨[some (.basicBlock label (.ofList (l.filter St.isSgStatement)))], rfl,
    .cons (.some rfl) .nil, ?_⟩
  have hstmts : ∀ l' : List (St F O .part), St.ofList l' = stmts ↔ l' = stmts.toList := by
    intro l'
    constructor
    · rintro rfl
      rw [toList_ofList]
    · rintro rfl
      rw [ofList_toList]
  have hkept : l = stmts.toList ↔ KeptSt fortran stmts := by
    rw [← hb, items]
    exact (List.map_injective_iff.mpr (Option.some_injective _)).eq_iff.symm
  simp only [items, List.cons.injEq, Option.some.injEq, St.basicBlock.injEq, true_and, and_true,
    hstmts, filter_eq_toList_iff hl, hkept, KeptSt]

theorem comes_other (o : O) : Comes (F := F) fortran (.other o) := by
  have hforeign := OtherStmt.foreign o
  simp only [known, Bool.or_eq_false_iff, Option.isSome_eq_false_iff, Option.isNone_iff_eq_none,
    beq_eq_false_iff_ne] at hforeign
  obtain ⟨⟨hhead, hblock⟩, hcls⟩ := hforeign
  have hreread : rereadSt (F := F) (O := O) fortran (writeSt fortran (St.other (F := F) o)) =
      (do
        let x ← OtherStmt.write fortran o
        OtherStmt.visit fortran (OtherStmt.name o) x.1 x.2).toOption.map fun o => [.other o] := by
    rw [writeSt]
    cases OtherStmt.write fortran o with
    | error e => rfl
    | ok x =>
        have hvisit : visitSt (F := F) (O := O) fortran (.elem (OtherStmt.name o) x.1 x.2) =
            (OtherStmt.visit fortran (OtherStmt.name o) x.1 x.2).map St.other := by
          rw [visitSt, hhead]
          simp only [if_neg hblock, hcls, Option.isSome_none, Bool.false_eq_true, if_false]
          cases OtherStmt.visit (O := O) fortran (OtherStmt.name o) x.1 x.2 <;> rfl
        have hok : rereadSt (F := F) (O := O) fortran (.ok [.elem (OtherStmt.name o) x.1 x.2]) =
            (visitSts fortran [.elem (OtherStmt.name o) x.1 x.2]).toOption := rfl
        change rereadSt (F := F) (O := O) fortran (.ok [.elem (OtherStmt.name o) x.1 x.2]) = _
        have hbind : (do
            let y ← (Except.ok x : Except Fatal (Attrs × List Xml))
            OtherStmt.visit (O := O) fortran (OtherStmt.name o) y.1 y.2) =
              OtherStmt.visit fortran (OtherStmt.name o) x.1 x.2 := rfl
        rw [hok, visitSts, hvisit, hbind]
        cases OtherStmt.visit (O := O) fortran (OtherStmt.name o) x.1 x.2 <;> rfl
  unfold Comes
  rw [hreread, KeptSt]
  cases hround : (do
      let x ← OtherStmt.write fortran o
      OtherStmt.visit (O := O) fortran (OtherStmt.name o) x.1 x.2 : Except Fatal O) with
  | error e => exact Or.inl ⟨rfl, by simp⟩
  | ok o' =>
      refine Or.inr ⟨[some (.other o')], rfl, .cons (.some rfl) .nil, ?_⟩
      simp [items]

/-- What the round trip delivers for a tree of any sort. -/
theorem comes (s : StSrt) (n : St F O s) : Comes fortran n := by
  induction n with
  | sg n => exact comes_sg fortran n
  | compound label head row ih => exact comes_compound fortran label head ih
  | basicBlock label stmts ih => exact comes_basicBlock fortran label ih
  | other o => exact comes_other fortran o
  | nil => exact Or.inr ⟨[], rfl, .nil, iff_of_true rfl trivial⟩
  | noRow => exact Or.inr ⟨[], rfl, .nil, iff_of_true rfl trivial⟩
  | cons p ps ihp ihps => exact comes_append fortran rfl rfl Iff.rfl ihp ihps
  | present p row ihp ihrow => exact comes_append fortran rfl rfl Iff.rfl ihp ihrow
  | absent row ih =>
      rcases ih with ⟨hnone, hkept⟩ | ⟨b, hsome, hkinds, hb⟩
      · exact Or.inl ⟨hnone, hkept⟩
      · refine Or.inr ⟨none :: b, hsome, .cons .none hkinds, ?_⟩
        simpa [items, St.slots, KeptSt] using hb

/-- A statement comes back with its labels, its flags, its condition and its
    bodies exactly if it is one of those described by `KeptSt`. -/
theorem statement_survives_iff (p : St F O .part) :
    roundTripSt fortran p = .ok [p] ↔ KeptSt fortran p := by
  have hround : roundTripSt fortran p = .ok [p] ↔
      rereadSt fortran (writeSt fortran p) = some [p] := by
    rw [rereadSt, ← roundTripSt]
    cases roundTripSt fortran p <;> simp
  rw [hround]
  rcases comes fortran .part p with ⟨hnone, hkept⟩ | ⟨b, hsome, hkinds, hb⟩
  · exact iff_of_false (by rw [hnone]; simp) hkept
  have hrel : List.Forall₂ (Option.Rel SameKind) b ([p].map some) := hkinds
  obtain ⟨l, rfl, hl⟩ := exists_of_rel_map_some hrel
  obtain ⟨q, rfl⟩ : ∃ q, l = [q] := List.length_eq_one_iff.mp hl.length_eq
  rw [hsome, ← hb]
  simp [items, List.reduceOption]

end Spec

section Examples

/-- The I/O statements are among the other statements. -/
instance : OtherStmt (Σ k, IoStmt F k) where
  name s := s.1.cls
  write fortran s := do
    let children ← both (writeList fortran s.2.io_stmt_list)
      (traverseAll fortran s.2.spec s.1.inode)
    return (attribSgStatement s.2.label, children)
  visit _ name attrs children := visitIo (.elem name attrs children)
  foreign s := by cases s.1 <;> decide

/-- A condition and an empty block, with slots left empty behind them. -/
def whileC (label : Option CInt) (string_label : Text) : St Int (Σ k, IoStmt Int k) .part :=
  .compound none (.whileStmt true label string_label)
    (.present (.compound none .exprStatement
        (.present (.sg (.expr (.varRefExp ['c'] false .noExpr))) .noRow))
      (.present (.basicBlock none .nil) (.absent .noRow)))

/-- The label ten. -/
def ten : CInt := ⟨10, by decide⟩

/-- A loop with a name and an end label comes back without the name. -/
theorem namedWhile_not_kept :
    roundTripSt true (whileC (some ten) ['l']) = .ok [whileC (some ten) []] ∧
      roundTripSt true (whileC (some ten) ['l']) ≠ .ok [whileC (some ten) ['l']] := by
  have hround : roundTripSt true (whileC (some ten) ['l']) = .ok [whileC (some ten) []] := by
    rfl
  refine ⟨hround, fun h => ?_⟩
  rw [hround] at h
  simp [whileC] at h

end Examples

end XevXml
