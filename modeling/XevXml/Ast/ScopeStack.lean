import Mathlib.Data.List.Basic

/-!
# The Stack of Scopes

The reader keeps a stack of scopes, in which names are looked up. Most visitors
leave it alone. The visitors of blocks, class definitions, loops, function
definitions, the global scope, IF and switch statements push the scope they
build, visit the children and pop it again.

The visitors of `SgDotExp` and `SgArrowExp` push a scope inside the loop over
the children. Once the left operand has been read and its type is a class, the
definition of the class is pushed, so that the member on the right is found in
it. It is popped when the next child has been visited, and again when the one
behind it has, for as long as no child was an expression. If something else
stands between the operands, a scope of an enclosing visit is popped.

An element is modelled by the name of its class, what the reader gets from the
syntax tree library when it visits the element, and the elements below it. No
element is visited twice, so whatever the library answers in a run can stand at
the element. The stack and every pop are recorded.

## Main definitions

* `Element`: The elements of a document.
* `Visitor`, `visitorOf`: What a visitor does with the stack and the children.
* `visit`: The reader, as far as the stack is concerned.
* `Event.Balanced`: A visit that returns with its stack, a pop of an own scope.
* `Element.Paired`: Nothing stands between operands where a class is pushed.

## Theorems

* `visitAll_spec`: The loop over the children.
* `visitOperands_spec`: The loop over the operands of a member access.
* `balanced_iff_paired`: The stack is balanced if the operands are paired.
-/

namespace XevXml

namespace ScopeStack

variable {S : Type}

/-- What the reader gets when it visits an element: the scope it builds, whether the node
    is an expression, and the definition of the class that is its type or the base of it. -/
structure Made (S : Type) where
  scope : S
  isSgExpression : Bool
  definition : Option S

/-- An element with the elements below it. -/
inductive Element (S : Type)
  | elem (name : String) (made : Made S) (children : List (Element S))

/-- The class of an element. -/
def Element.name : Element S → String
  | .elem name _ _ => name

/-- What the reader gets when it visits the element. -/
def Element.made : Element S → Made S
  | .elem _ made _ => made

/-- What a visitor does with the stack and the children. -/
inductive Visitor
  | memberAccess | scope | functionHead | leaf | plain
deriving DecidableEq, Repr

/-- The classes whose visitors push the left operand's class. -/
def memberAccesses : List String := ["SgDotExp", "SgArrowExp"]

/-- The classes whose visitors push what they build. -/
def scopes : List String :=
  ["SgBasicBlock", "SgClassDefinition", "SgFortranDo", "SgFunctionDefinition", "SgGlobal",
    "SgIfStmt", "SgSwitchStatement"]

/-- The classes whose visitors visit the body last. -/
def functionHeads : List String := ["SgFunctionDeclaration", "SgProcedureHeaderStatement"]

/-- The elements whose children are not visited. -/
def leaves : List String :=
  ["PreprocessingInfo", "SgAsteriskShapeExp", "SgBreakStmt", "SgColonShapeExp",
    "SgContainsStatement", "SgContinueStmt", "SgEnumType", "SgFortranIncludeLine",
    "SgGotoStatement", "SgLabelRefExp", "SgNameGroup", "SgNullExpression", "SgNullStatement",
    "SgPragma", "SgRenamePair", "SgTypeDefault", "SgTypeEllipse", "SgTypedefSeq",
    "SgTypedefType"]

/-- The visitor of a class. -/
def visitorOf (name : String) : Visitor :=
  if name ∈ memberAccesses then .memberAccess
  else if name ∈ scopes then .scope
  else if name ∈ functionHeads then .functionHead
  else if name ∈ leaves then .leaf
  else .plain

/-- The children a function header visits last. -/
def isBody (name : String) : Bool := name = "SgFunctionDefinition" ∨ name = "SgBasicBlock"

/-- What is recorded: a visit with the stack at its entry and at its return, and a pop with
    the stack at the entry of the visit that pops and the stack it finds. -/
inductive Event (S : Type)
  | returned (entry exit : List S)
  | popped (entry found : List S)

/-- `sb::popScopeStack`, which aborts if there is nothing on the stack. -/
def popScopeStack : List S → Option (List S)
  | [] => none
  | _ :: s => some s

/-- The local variables of the visitor of a member access. -/
structure Operands where
  lhs : Bool
  pushed : Bool
  rhs : Bool

/-- The loop body of the visitor of a member access, behind the visit of a child. -/
def operandStep (entry : List S) (vars : Operands) (astchild : Made S) (s : List S) :
    Option (Operands × List S × List (Event S)) :=
  if vars.lhs = false then
    if astchild.isSgExpression then
      match astchild.definition with
      | some defn => some ({ vars with lhs := true, pushed := true }, defn :: s, [])
      | none => some ({ vars with lhs := true }, s, [])
    else some (vars, s, [])
  else if vars.rhs = false then
    if vars.pushed then do
      let popped ← popScopeStack s
      return ({ vars with rhs := astchild.isSgExpression }, popped, [.popped entry s])
    else some ({ vars with rhs := astchild.isSgExpression }, s, [])
  else some (vars, s, [])

mutual

/-- The reader on an element, from a stack to a stack. -/
def visit : Element S → List S → Option (List S × List (Event S))
  | .elem name made children, entry =>
      match visitorOf name with
      | .memberAccess => do
          let (vars, s, log) ← visitOperands entry children ⟨false, false, false⟩ entry
          if vars.lhs && vars.rhs then return (s, log ++ [.returned entry s]) else none
      | .scope => do
          let (s, log) ← visitAll (fun _ => true) children (made.scope :: entry)
          let popped ← popScopeStack s
          return (popped, log ++ [.popped entry s, .returned entry popped])
      | .functionHead => do
          let (s, log) ← visitAll (fun n => !isBody n) children entry
          let (t, log') ← visitAll isBody children s
          return (t, log ++ (log' ++ [.returned entry t]))
      | .leaf => return (entry, [.returned entry entry])
      | .plain => do
          let (s, log) ← visitAll (fun _ => true) children entry
          return (s, log ++ [.returned entry s])

/-- The loop over the children whose names pass a test. -/
def visitAll (test : String → Bool) :
    List (Element S) → List S → Option (List S × List (Event S))
  | [], s => some (s, [])
  | c :: cs, s =>
      if test c.name then do
        let (t, log) ← visit c s
        let (u, log') ← visitAll test cs t
        return (u, log ++ log')
      else visitAll test cs s

/-- The loop over the operands of a member access. -/
def visitOperands (entry : List S) :
    List (Element S) → Operands → List S → Option (Operands × List S × List (Event S))
  | [], vars, s => some (vars, s, [])
  | c :: cs, vars, s => do
      let (t, log) ← visit c s
      let (vars', t', log') ← operandStep entry vars c.made t
      let (vars'', u, log'') ← visitOperands entry cs vars' t'
      return (vars'', u, log ++ (log' ++ log''))

end

/-- A visit returns with the stack it found, and what is popped was not there at its
    entry. -/
def Event.Balanced : Event S → Prop
  | .returned entry exit => exit = entry
  | .popped entry found => entry.length < found.length

/-- Every event of a record is balanced. -/
def Balanced (log : List (Event S)) : Prop := ∀ ev ∈ log, ev.Balanced

/-- Whether an expression stands right behind the left operand, if its class is pushed. -/
def operandsPaired (cs : List (Element S)) : Bool :=
  match cs.dropWhile fun c => !c.made.isSgExpression with
  | [] => true
  | lhs :: rest =>
      lhs.made.definition.isNone || (rest.head?.all fun c => c.made.isSgExpression)

mutual

/-- In every member access whose left operand has a class with a definition, the next
    element is the right operand. -/
def Element.Paired : Element S → Prop
  | .elem name _ children =>
      visitorOf name = .leaf ∨
        ((visitorOf name = .memberAccess → operandsPaired children = true) ∧ AllPaired children)

/-- The same for all elements of a list. -/
def AllPaired : List (Element S) → Prop
  | [] => True
  | c :: cs => c.Paired ∧ AllPaired cs

end

theorem balanced_append (a b : List (Event S)) : Balanced (a ++ b) ↔ Balanced a ∧ Balanced b := by
  unfold Balanced
  exact List.forall_mem_append

theorem balanced_cons (ev : Event S) (log : List (Event S)) :
    Balanced (ev :: log) ↔ ev.Balanced ∧ Balanced log := by
  unfold Balanced
  exact List.forall_mem_cons

theorem balanced_nil : Balanced ([] : List (Event S)) := by
  intro ev hev
  exact absurd hev List.not_mem_nil

theorem allPaired_iff (cs : List (Element S)) : AllPaired cs ↔ ∀ c ∈ cs, c.Paired := by
  induction cs with
  | nil => simp [AllPaired]
  | cons c cs ih => simp [AllPaired, ih]

/-- What is to be shown of an element: its record is balanced exactly if the operands below
    it are paired, and then it returns with the stack it found. -/
def Spec (e : Element S) : Prop :=
  ∀ s t log, visit e s = some (t, log) → (Balanced log ↔ e.Paired) ∧ (e.Paired → t = s)

/-- The loop over the children is balanced if the children are. -/
theorem visitAll_spec (test : String → Bool) (cs : List (Element S)) (hcs : ∀ c ∈ cs, Spec c)
    (s t : List S) (log : List (Event S)) (h : visitAll test cs s = some (t, log)) :
    (Balanced log ↔ ∀ c ∈ cs, test c.name → c.Paired) ∧
      ((∀ c ∈ cs, test c.name → c.Paired) → t = s) := by
  induction cs generalizing s log with
  | nil =>
      rw [visitAll, Option.some.injEq, Prod.mk.injEq] at h
      rw [← h.1, ← h.2]
      simp [balanced_nil]
  | cons c cs ih =>
      have htail : ∀ c ∈ cs, Spec c := fun c hc => hcs c (List.mem_cons_of_mem _ hc)
      rw [visitAll] at h
      by_cases htest : test c.name = true
      · rw [if_pos htest] at h
        rcases Option.bind_eq_some_iff.mp h with ⟨⟨u, log1⟩, hc, h⟩
        rcases Option.bind_eq_some_iff.mp h with ⟨⟨v, log2⟩, hrest, h⟩
        rcases Option.some.inj h with ⟨rfl, rfl⟩
        have hone := hcs c List.mem_cons_self s u log1 hc
        have hothers := ih htail u log2 hrest
        rw [balanced_append, hone.1, hothers.1, List.forall_mem_cons]
        refine ⟨?_, fun hp => ?_⟩
        · simp only [htest, forall_const]
        · exact (hothers.2 hp.2).trans (hone.2 (hp.1 htest))
      · rw [if_neg htest] at h
        have hothers := ih htail s log h
        rw [hothers.1, List.forall_mem_cons]
        refine ⟨?_, fun hp => hothers.2 hp.2⟩
        constructor
        · intro hp
          exact ⟨fun hc => absurd hc htest, hp⟩
        · intro hp
          exact hp.2

/-- A step of the loop over the operands: the child is visited, then the loop body runs. -/
theorem visitOperands_cons {entry : List S} {c : Element S} {cs : List (Element S)}
    {vars vars' : Operands} {s t : List S} {log : List (Event S)}
    (h : visitOperands entry (c :: cs) vars s = some (vars', t, log)) :
    ∃ u log1 vars1 u' log2 log3, visit c s = some (u, log1) ∧
      operandStep entry vars c.made u = some (vars1, u', log2) ∧
      visitOperands entry cs vars1 u' = some (vars', t, log3) ∧
      log = log1 ++ (log2 ++ log3) := by
  rw [visitOperands] at h
  rcases Option.bind_eq_some_iff.mp h with ⟨⟨u, log1⟩, hc, h⟩
  rcases Option.bind_eq_some_iff.mp h with ⟨⟨vars1, u', log2⟩, hstep, h⟩
  rcases Option.bind_eq_some_iff.mp h with ⟨⟨vars2, v, log3⟩, hrest, h⟩
  rcases Option.some.inj h with ⟨rfl, rfl, rfl⟩
  exact ⟨u, log1, vars1, u', log2, log3, hc, hstep, hrest, rfl⟩

/-- Where nothing is left to pop, the loop over the operands is the loop over the
    children. -/
theorem visitOperands_done (entry : List S) (cs : List (Element S)) (vars vars' : Operands)
    (s t : List S) (log : List (Event S)) (hlhs : vars.lhs = true)
    (hdone : vars.rhs = true ∨ vars.pushed = false)
    (h : visitOperands entry cs vars s = some (vars', t, log)) :
    visitAll (fun _ => true) cs s = some (t, log) := by
  induction cs generalizing vars s log with
  | nil =>
      rw [visitOperands] at h
      rcases Option.some.inj h with ⟨rfl, rfl, rfl⟩
      rw [visitAll]
  | cons c cs ih =>
      rcases visitOperands_cons h with ⟨u, log1, vars1, u', log2, log3, hc, hstep, hrest, rfl⟩
      have hkept : u' = u ∧ log2 = [] ∧ vars1.lhs = true ∧
          (vars1.rhs = true ∨ vars1.pushed = false) := by
        unfold operandStep at hstep
        rw [hlhs] at hstep
        rcases hdone with hrhs | hpushed
        · rw [hrhs] at hstep
          rcases Option.some.inj hstep with ⟨rfl, rfl, rfl⟩
          exact ⟨rfl, rfl, hlhs, .inl hrhs⟩
        · rw [hpushed] at hstep
          by_cases hrhs : vars.rhs = false
          · simp only [hrhs, Bool.true_eq_false, if_false, if_true, Bool.false_eq_true] at hstep
            rcases Option.some.inj hstep with ⟨rfl, rfl, rfl⟩
            exact ⟨rfl, rfl, rfl, .inr rfl⟩
          · simp only [hrhs, Bool.true_eq_false, if_false] at hstep
            rcases Option.some.inj hstep with ⟨rfl, rfl, rfl⟩
            exact ⟨rfl, rfl, hlhs, .inr hpushed⟩
      rcases hkept with ⟨rfl, rfl, hlhs', hdone'⟩
      rw [visitAll, if_pos rfl, hc]
      simp only [Option.bind_eq_bind, Option.bind_some, ih vars1 u' log3 hlhs' hdone' hrest]
      rfl

/-- The step behind a child of a member access whose right operand is still missing and
    whose class has been pushed: a scope is popped, whatever the child is. -/
theorem operandStep_pushed (entry : List S) (made : Made S) (d : S) (s : List S) :
    operandStep entry ⟨true, true, false⟩ made (d :: s) =
      some (⟨true, true, made.isSgExpression⟩, s, [.popped entry (d :: s)]) := rfl

/-- A stack that is too low stays unbalanced: the next pop is not an own one. -/
theorem visitOperands_low (entry : List S) (cs : List (Element S)) (hcs : ∀ c ∈ cs, Spec c)
    (vars : Operands) (s t : List S) (log : List (Event S)) (hlow : s.length ≤ entry.length)
    (hrhs : vars.rhs = true)
    (h : visitOperands entry cs ⟨true, true, false⟩ s = some (vars, t, log)) :
    ¬ Balanced log := by
  cases cs with
  | nil =>
      rw [visitOperands] at h
      rcases Option.some.inj h with ⟨rfl, rfl, rfl⟩
      exact absurd hrhs (by decide)
  | cons c cs =>
      rcases visitOperands_cons h with ⟨u, log1, vars1, u', log2, log3, hc, hstep, hrest, rfl⟩
      intro hbal
      rw [balanced_append, balanced_append] at hbal
      have hone := hcs c List.mem_cons_self s u log1 hc
      obtain rfl := hone.2 (hone.1.mp hbal.1)
      cases u with
      | nil => exact absurd hstep (by simp [operandStep, popScopeStack])
      | cons d u =>
          rw [operandStep_pushed] at hstep
          rcases Option.some.inj hstep with ⟨rfl, rfl, rfl⟩
          have hpop := hbal.2.1 _ List.mem_cons_self
          unfold Event.Balanced at hpop
          omega

/-- Behind the left operand, if its class has been pushed: the stack is balanced exactly if
    the next element is an expression. -/
theorem visitOperands_pushed (entry : List S) (cs : List (Element S)) (hcs : ∀ c ∈ cs, Spec c)
    (vars : Operands) (d : S) (t : List S) (log : List (Event S)) (hrhs : vars.rhs = true)
    (h : visitOperands entry cs ⟨true, true, false⟩ (d :: entry) = some (vars, t, log)) :
    (Balanced log ↔ (cs.head?.all fun c => c.made.isSgExpression) = true ∧ AllPaired cs) ∧
      ((cs.head?.all fun c => c.made.isSgExpression) = true → AllPaired cs → t = entry) := by
  cases cs with
  | nil =>
      rw [visitOperands] at h
      rcases Option.some.inj h with ⟨rfl, rfl, rfl⟩
      exact absurd hrhs (by decide)
  | cons c cs =>
      have htail : ∀ c ∈ cs, Spec c := fun c hc => hcs c (List.mem_cons_of_mem _ hc)
      rcases visitOperands_cons h with ⟨u, log1, vars1, u', log2, log3, hc, hstep, hrest, rfl⟩
      have hone := hcs c List.mem_cons_self _ u log1 hc
      rw [balanced_append, balanced_append, hone.1, AllPaired, List.head?_cons, Option.all_some]
      by_cases hpaired : c.Paired
      · -- The child leaves the class on top, and this pop is an own one.
        obtain rfl := hone.2 hpaired
        rw [operandStep_pushed] at hstep
        rcases Option.some.inj hstep with ⟨rfl, rfl, rfl⟩
        have hpop : Balanced [Event.popped entry (d :: entry)] := by
          rw [balanced_cons]
          exact ⟨Nat.lt_succ_self _, balanced_nil⟩
        cases hexpr : c.made.isSgExpression with
        | true =>
            rw [hexpr] at hrest
            have hall := visitOperands_done entry cs _ _ _ _ _ rfl (.inl rfl) hrest
            have hothers := visitAll_spec _ cs htail _ _ _ hall
            simp only [forall_const, ← allPaired_iff] at hothers
            rw [hothers.1]
            exact ⟨⟨fun hb => ⟨rfl, hb.1, hb.2.2⟩, fun hb => ⟨hb.2.1, hpop, hb.2.2⟩⟩,
              fun _ hb => hothers.2 hb.2⟩
        | false =>
            rw [hexpr] at hrest
            have hlow := visitOperands_low entry cs htail _ _ _ _ (Nat.le_refl _) hrhs hrest
            exact ⟨iff_of_false (fun hb => hlow hb.2.2) fun hb => absurd hb.1 (by decide),
              fun hb => absurd hb (by decide)⟩
      · exact ⟨iff_of_false (fun hb => hpaired hb.1) fun hb => hpaired hb.2.1,
          fun _ hb => absurd hb.1 hpaired⟩

/-- The loop over the operands of a member access. -/
theorem visitOperands_spec (entry : List S) (cs : List (Element S)) (hcs : ∀ c ∈ cs, Spec c)
    (vars : Operands) (t : List S) (log : List (Event S)) (hrhs : vars.rhs = true)
    (h : visitOperands entry cs ⟨false, false, false⟩ entry = some (vars, t, log)) :
    (Balanced log ↔ operandsPaired cs = true ∧ AllPaired cs) ∧
      (operandsPaired cs = true → AllPaired cs → t = entry) := by
  induction cs generalizing log with
  | nil =>
      rw [visitOperands] at h
      rcases Option.some.inj h with ⟨rfl, rfl, rfl⟩
      exact absurd hrhs (by decide)
  | cons c cs ih =>
      have htail : ∀ c ∈ cs, Spec c := fun c hc => hcs c (List.mem_cons_of_mem _ hc)
      rcases visitOperands_cons h with ⟨u, log1, vars1, u', log2, log3, hc, hstep, hrest, rfl⟩
      have hone := hcs c List.mem_cons_self _ u log1 hc
      rw [balanced_append, balanced_append, hone.1, AllPaired]
      by_cases hpaired : c.Paired
      · have hnil := balanced_nil (S := S)
        rw [hone.2 hpaired] at hstep
        cases hexpr : c.made.isSgExpression with
        | false =>
            -- Anything in front of the left operand is passed over.
            have hkept : operandStep entry ⟨false, false, false⟩ c.made entry =
                some (⟨false, false, false⟩, entry, []) := by
              simp [operandStep, hexpr]
            rw [hkept] at hstep
            rcases Option.some.inj hstep with ⟨rfl, rfl, rfl⟩
            have hothers := ih htail log3 hrest
            have hpair : operandsPaired (c :: cs) = operandsPaired cs := by
              simp [operandsPaired, hexpr]
            rw [hothers.1, hpair]
            tauto
        | true =>
            cases hdef : c.made.definition with
            | none =>
                have hkept : operandStep entry ⟨false, false, false⟩ c.made entry =
                    some (⟨true, false, false⟩, entry, []) := by
                  simp [operandStep, hexpr, hdef]
                rw [hkept] at hstep
                rcases Option.some.inj hstep with ⟨rfl, rfl, rfl⟩
                have hall := visitOperands_done entry cs _ _ _ _ _ rfl (.inr rfl) hrest
                have hothers := visitAll_spec _ cs htail _ _ _ hall
                simp only [forall_const, ← allPaired_iff] at hothers
                have hpair : operandsPaired (c :: cs) = true := by
                  simp [operandsPaired, hexpr, hdef]
                rw [hothers.1, hpair]
                tauto
            | some defn =>
                have hkept : operandStep entry ⟨false, false, false⟩ c.made entry =
                    some (⟨true, true, false⟩, defn :: entry, []) := by
                  simp [operandStep, hexpr, hdef]
                rw [hkept] at hstep
                rcases Option.some.inj hstep with ⟨rfl, rfl, rfl⟩
                have hothers := visitOperands_pushed entry cs htail _ _ _ _ hrhs hrest
                have hpair : operandsPaired (c :: cs) =
                    cs.head?.all fun c => c.made.isSgExpression := by
                  simp [operandsPaired, hexpr, hdef]
                rw [hothers.1, hpair]
                tauto
      · exact ⟨iff_of_false (fun hb => hpaired hb.1) fun hb => hpaired hb.2.1,
          fun _ hb => absurd hb.1 hpaired⟩

theorem returned_balanced_iff (entry exit : List S) :
    Balanced [Event.returned entry exit] ↔ exit = entry := by
  rw [balanced_cons]
  exact and_iff_left balanced_nil

/-- One element, if the elements below it are as they should be. -/
theorem spec_of_children (name : String) (made : Made S) (children : List (Element S))
    (hcs : ∀ c ∈ children, Spec c) : Spec (.elem name made children) := by
  intro entry t log h
  rw [visit] at h
  rw [Element.Paired]
  cases hkind : visitorOf name with
  | memberAccess =>
      rw [hkind] at h
      rcases Option.bind_eq_some_iff.mp h with ⟨⟨vars, s, log1⟩, hloop, h⟩
      by_cases hboth : (vars.lhs && vars.rhs) = true
      · simp only [hboth, if_true] at h
        rcases Option.some.inj h with ⟨rfl, rfl⟩
        rw [Bool.and_eq_true] at hboth
        have hloop := visitOperands_spec entry children hcs _ _ _ hboth.2 hloop
        rw [balanced_append, hloop.1, returned_balanced_iff]
        simp only [reduceCtorEq, false_or, forall_const]
        tauto
      · -- An operand is missing, so the reader gives up.
        simp only [hboth] at h
        exact absurd h (by simp)
  | scope =>
      rw [hkind] at h
      rcases Option.bind_eq_some_iff.mp h with ⟨⟨s, log1⟩, hloop, h⟩
      rcases Option.bind_eq_some_iff.mp h with ⟨popped, hpop, h⟩
      rcases Option.some.inj h with ⟨rfl, rfl⟩
      have hloop := visitAll_spec _ children hcs _ _ _ hloop
      simp only [forall_const, ← allPaired_iff] at hloop
      rw [balanced_append, hloop.1, balanced_cons, returned_balanced_iff]
      simp only [reduceCtorEq, false_or, false_implies, true_and]
      have hown : AllPaired children →
          (Event.popped entry s).Balanced ∧ t = entry := by
        intro hp
        rw [hloop.2 hp] at hpop ⊢
        exact ⟨Nat.lt_succ_self _, (Option.some.inj hpop).symm⟩
      exact ⟨⟨fun hb => hb.1, fun hp => ⟨hp, hown hp⟩⟩, fun hp => (hown hp).2⟩
  | functionHead =>
      rw [hkind] at h
      rcases Option.bind_eq_some_iff.mp h with ⟨⟨s, log1⟩, hhead, h⟩
      rcases Option.bind_eq_some_iff.mp h with ⟨⟨u, log2⟩, hbody, h⟩
      rcases Option.some.inj h with ⟨rfl, rfl⟩
      have hhead := visitAll_spec _ children hcs _ _ _ hhead
      have hbody := visitAll_spec _ children hcs _ _ _ hbody
      rw [balanced_append, balanced_append, hhead.1, hbody.1, returned_balanced_iff]
      simp only [reduceCtorEq, false_or, false_implies, true_and, allPaired_iff]
      -- Every child is visited in one of the two loops.
      have hall : (∀ c ∈ children, c.Paired) ↔
          (∀ c ∈ children, (!isBody c.name) = true → c.Paired) ∧
            ∀ c ∈ children, isBody c.name = true → c.Paired := by
        constructor
        · intro hp
          exact ⟨fun c hc _ => hp c hc, fun c hc _ => hp c hc⟩
        · intro hp c hc
          cases hname : isBody c.name with
          | true => exact hp.2 c hc hname
          | false => exact hp.1 c hc (by rw [hname]; rfl)
      have hsame : (∀ c ∈ children, c.Paired) → t = entry := by
        intro hp
        rw [hall] at hp
        exact (hbody.2 hp.2).trans (hhead.2 hp.1)
      refine ⟨⟨fun hb => hall.mpr ⟨hb.1, hb.2.1⟩, fun hp => ?_⟩, hsame⟩
      exact ⟨(hall.mp hp).1, (hall.mp hp).2, hsame hp⟩
  | leaf =>
      rw [hkind] at h
      rcases Option.some.inj h with ⟨rfl, rfl⟩
      rw [returned_balanced_iff]
      simp
  | plain =>
      rw [hkind] at h
      rcases Option.bind_eq_some_iff.mp h with ⟨⟨s, log1⟩, hloop, h⟩
      rcases Option.some.inj h with ⟨rfl, rfl⟩
      have hloop := visitAll_spec _ children hcs _ _ _ hloop
      simp only [forall_const, ← allPaired_iff] at hloop
      rw [balanced_append, hloop.1, returned_balanced_iff]
      simp only [reduceCtorEq, false_or, false_implies, true_and]
      tauto

mutual

theorem spec : (e : Element S) → Spec e
  | .elem name made children => spec_of_children name made children (spec_all children)

theorem spec_all : (cs : List (Element S)) → ∀ c ∈ cs, Spec c
  | [] => fun _ hc => absurd hc List.not_mem_nil
  | c :: cs => fun d hd => by
      rcases List.mem_cons.mp hd with hd | hd
      · rw [hd]
        exact spec c
      · exact spec_all cs d hd

end

section Examples

/-- An element without children that is read as an expression. -/
def operand (definition : Option Nat) : Element Nat :=
  .elem "SgVarRefExp" ⟨0, true, definition⟩ []

/-- A comment between the operands of `x.y`, where `x` has a class. -/
def parted : Element Nat :=
  .elem "SgDotExp" ⟨0, true, none⟩
    [operand (some 7), .elem "PreprocessingInfo" ⟨0, false, none⟩ [], operand none]

/-- The operands of `x.y` with nothing between them. -/
def member : Element Nat := .elem "SgDotExp" ⟨0, true, none⟩ [operand (some 7), operand none]

end Examples

end ScopeStack

end XevXml
