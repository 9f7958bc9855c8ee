import XevXml.Trans.Loop

/-!
# Control Flow

How statements are executed, as far as the rules for conditional loops are
concerned. Blocks, conditional statements, `DO WHILE` loops, loops without a
header, `CYCLE` and `EXIT` are interpreted; what any other statement does, and
whether it comes to an end, is a parameter, and so is the value of a condition.

An execution is recorded as the list of the conditions evaluated and of the
other statements executed, together with the way it ended. The number of
iterations of a loop is bounded; an execution that reaches the bound, like one
that is stuck in a statement, has not ended.

## Main definitions

* `Behaviour`: What the parameters are.
* `Outcome`, `Event`, `Result`: How an execution ended and what it did.
* `execStmt`, `execAll`: The interpreter.
* `whileRun`, `doRun`: The two kinds of loops.

## Theorems

* `Result.andThen_assoc`, `execAll_append`: Executions one after the other.
* `execAll_elements`: Only elements are executed.
-/

namespace XevXml

/-- The ways a statement can end: the next one follows, an iteration or a loop
    is ended, possibly by its name, or something else follows. -/
inductive Outcome
  | next
  | cycle (name : Text)
  | leave (name : Text)
  | away
  deriving DecidableEq

/-- What is observed of an execution. -/
inductive Event
  | test (condition : Xml)
  | stmt (statement : Xml)

/-- The conditions and the statements that are not interpreted. A statement
    without a result does not come to an end. -/
structure Behaviour (S : Type) where
  test : Xml → S → Bool × S
  other : Xml → S → Option (Outcome × S)

/-- An execution: the events, and how it ended. -/
abbrev Result (S : Type) := List Event × Option (Outcome × S)

section Interpreter

variable {S : Type}

/-- The execution of nothing. -/
def skip (s : S) : Result S := ([], some (.next, s))

/-- The execution of the block at a place, if there is one. -/
def blockAt (blocks : List (S → Result S)) (k : Nat) : S → Result S := blocks[k]?.getD skip

/-- A result with earlier events. -/
def Result.after (es : List Event) (r : Result S) : Result S := (es ++ r.1, r.2)

/-- An execution that goes on if the first one ended normally. -/
def Result.andThen (r : Result S) (f : S → Result S) : Result S :=
  match r.2 with
  | some (.next, s) => Result.after r.1 (f s)
  | _ => r

/-- A loop of the given name after one iteration. -/
def Result.iterate (name : Text) (r : Result S) (again : S → Result S) : Result S :=
  match r.2 with
  | some (.next, s) => Result.after r.1 (again s)
  | some (.cycle l, s) => if l = [] ∨ l = name then Result.after r.1 (again s) else r
  | some (.leave l, s) => if l = [] ∨ l = name then (r.1, some (.next, s)) else r
  | _ => r

/-- A conditional statement with a name may be left by it. -/
def Result.named (name : Text) (r : Result S) : Result S :=
  match r.2 with
  | some (.leave l, s) => if l = name ∧ l ≠ [] then (r.1, some (.next, s)) else r
  | _ => r

/-- At most `n` iterations of a loop that tests its condition first. -/
def whileRun (b : Behaviour S) (name : Text) (condition : Xml) (body : S → Result S) :
    Nat → S → Result S
  | 0, s => ([.test condition],
      if (b.test condition s).1 = true then none else some (.next, (b.test condition s).2))
  | n + 1, s =>
      if (b.test condition s).1 = true then
        Result.after [.test condition]
          ((body (b.test condition s).2).iterate name (whileRun b name condition body n))
      else ([.test condition], some (.next, (b.test condition s).2))

/-- At most `n` iterations of a loop without a header. -/
def doRun (name : Text) (body : S → Result S) : Nat → S → Result S
  | 0, _ => ([], none)
  | n + 1, s => (body s).iterate name (doRun name body n)

/-- The name of a statement or of the loop a jump is for. -/
def slabel (attrs : Attrs) : Text := (attrs.lookup "slabel").getD []

/-- Whether a loop has no header. -/
def hasNoHeader (cs : List Xml) : Bool :=
  match elements cs with
  | a :: b :: c :: _ =>
      a.hasName "SgNullExpression" && b.hasName "SgNullExpression" && c.hasName "SgNullExpression"
  | _ => false

mutual

/-- The execution of a statement, with at most `n` iterations of each loop. -/
def execStmt (b : Behaviour S) (n : Nat) : Xml → S → Result S
  | .elem name attrs cs, s =>
      if name = "SgBasicBlock" then execAll b n cs s
      else if name = "SgIfStmt" then
        match (named "SgExprStatement" cs).head? with
        | some c =>
            Result.named (slabel attrs) (Result.after [.test c]
              (if (b.test c s).1 = true then blockAt (execBlocks b n cs) 0 (b.test c s).2
              else blockAt (execBlocks b n cs) 1 (b.test c s).2))
        | none => ([.stmt (.elem name attrs cs)], b.other (.elem name attrs cs) s)
      else if name = "SgWhileStmt" then
        match (named "SgExprStatement" cs).head? with
        | some c => whileRun b (slabel attrs) c (blockAt (execBlocks b n cs) 0) n s
        | none => ([.stmt (.elem name attrs cs)], b.other (.elem name attrs cs) s)
      else if name = "SgFortranDo" ∧ hasNoHeader cs = true then
        doRun (slabel attrs) (blockAt (execBlocks b n cs) 0) n s
      else if name = "SgContinueStmt" then ([], some (.cycle (slabel attrs), s))
      else if name = "SgBreakStmt" then ([], some (.leave (slabel attrs), s))
      else if name = "PreprocessingInfo" then skip s
      else ([.stmt (.elem name attrs cs)], b.other (.elem name attrs cs) s)
  | .text _, s => skip s
  | .comment _, s => skip s

/-- The execution of statements one after the other. -/
def execAll (b : Behaviour S) (n : Nat) : List Xml → S → Result S
  | [], s => skip s
  | x :: xs, s => (execStmt b n x s).andThen (execAll b n xs)

/-- The executions of the blocks among the children of a statement. -/
def execBlocks (b : Behaviour S) (n : Nat) : List Xml → List (S → Result S)
  | [] => []
  | x :: xs =>
      if x.hasName "SgBasicBlock" = true then execStmt b n x :: execBlocks b n xs
      else execBlocks b n xs

end

end Interpreter

section Sequences

variable {S : Type} (b : Behaviour S) (n : Nat)

theorem Result.after_after (es fs : List Event) (r : Result S) :
    Result.after es (Result.after fs r) = Result.after (es ++ fs) r := by
  rw [Result.after, Result.after, Result.after, List.append_assoc]

theorem Result.after_andThen (es : List Event) (r : Result S) (f : S → Result S) :
    (Result.after es r).andThen f = Result.after es (r.andThen f) := by
  rcases r with ⟨fs, _ | ⟨_ | _ | _ | _, s⟩⟩ <;> simp [Result.andThen, Result.after]

theorem Result.andThen_skip (r : Result S) : r.andThen skip = r := by
  rcases r with ⟨fs, _ | ⟨_ | _ | _ | _, s⟩⟩ <;> simp [Result.andThen, Result.after, skip]

theorem Result.andThen_assoc (r : Result S) (f g : S → Result S) :
    (r.andThen f).andThen g = r.andThen fun s => (f s).andThen g := by
  rcases r with ⟨fs, _ | ⟨_ | _ | _ | _, s⟩⟩
  · rfl
  · exact Result.after_andThen fs (f s) g
  · rfl
  · rfl
  · rfl

/-- Statements in two parts. -/
theorem execAll_append (xs ys : List Xml) (s : S) :
    execAll b n (xs ++ ys) s = (execAll b n xs s).andThen (execAll b n ys) := by
  induction xs generalizing s with
  | nil => rfl
  | cons x xs ih =>
      have hrest : execAll b n (xs ++ ys) = fun s => (execAll b n xs s).andThen (execAll b n ys) :=
        funext ih
      rw [List.cons_append, execAll, execAll, hrest, Result.andThen_assoc]

theorem execAll_singleton (x : Xml) (s : S) : execAll b n [x] s = execStmt b n x s := by
  have hnil : execAll b n [] = skip := rfl
  rw [execAll, hnil, Result.andThen_skip]

/-- Only elements are executed. -/
theorem execAll_elements (xs : List Xml) : execAll b n (elements xs) = execAll b n xs := by
  induction xs with
  | nil => rfl
  | cons x xs ih =>
      funext s
      cases x with
      | elem name attrs cs => rw [elements_cons_elem, execAll, execAll, ih]
      | text t => exact congrFun ih s
      | comment t => exact congrFun ih s

theorem execStmt_block (attrs : Attrs) (cs : List Xml) :
    execStmt b n (.elem "SgBasicBlock" attrs cs) = execAll b n cs := by
  funext s
  rw [execStmt, if_pos rfl]

theorem execBlocks_cons_block (attrs : Attrs) (cs xs : List Xml) :
    execBlocks b n (.elem "SgBasicBlock" attrs cs :: xs) =
      execAll b n cs :: execBlocks b n xs := by
  rw [execBlocks, if_pos (by simp), execStmt_block]

theorem execBlocks_cons_basicBlock (cs xs : List Xml) :
    execBlocks b n (basicBlock cs :: xs) = execAll b n cs :: execBlocks b n xs :=
  execBlocks_cons_block b n [] cs xs

theorem execBlocks_cons_of_not {x : Xml} (h : x.hasName "SgBasicBlock" = false) (xs : List Xml) :
    execBlocks b n (x :: xs) = execBlocks b n xs := by
  rw [execBlocks, if_neg (by simp [h])]

theorem blockAt_zero (f : S → Result S) (fs : List (S → Result S)) :
    blockAt (f :: fs) 0 = f := rfl

theorem blockAt_one (f g : S → Result S) (fs : List (S → Result S)) :
    blockAt (f :: g :: fs) 1 = g := rfl

end Sequences

end XevXml
