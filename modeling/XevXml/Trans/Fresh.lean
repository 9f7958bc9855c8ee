import XevXml.Trans.Tile
import XevXml.Trans.Skewing

/-!
# Fresh Index Names

Strip mining, tiling and skewing name a new loop by appending a suffix to the
name of an old index. Nothing compares the new name with the names that are
already there. So it is new only as long as no variable happens to have that
name, and after a rule has been applied to a loop over an index there is one.

Trees that the rules produce from a program are reached by steps, and a step
records which rule was applied to a loop over which index. All variables of a
tree that is reached come from the program, from the parameters of the rules,
or from one of these records. Since the three suffixes end in different
letters, a name tells its record, and this is what makes a new one fresh.

## Main definitions

* `Rule`: Applications of the three rules.
* `variableNames`: The names of the variables in a tree.
* `Reachable`: The trees reached from a program.
* `Rule.FreshIndices`: New names that are fresh, and loops that are preserved.

## Theorems

* `Reachable.over`: Where the variables of a tree come from.
* `fresh_indices`: When the new names are fresh.
-/

namespace XevXml

section Rules

/-- The rules that introduce indices. -/
inductive Kind
  | stripMining
  | tile
  | skewing
  deriving DecidableEq

/-- What a rule appends to the name of an index. -/
def Kind.suffix : Kind → Text
  | stripMining => "_sm".toList
  | tile => "_tile".toList
  | skewing => "_sk".toList

theorem Kind.suffix_ne_nil (k : Kind) : k.suffix ≠ [] := by
  cases k <;> decide

/-- A new name tells the rule and the old name. -/
theorem Kind.append_suffix_inj {k k' : Kind} {o o' : Text} (h : o ++ k.suffix = o' ++ k'.suffix) :
    k = k' ∧ o = o' := by
  have hlast := congrArg List.getLast? h
  rw [List.getLast?_append_of_ne_nil _ k.suffix_ne_nil,
    List.getLast?_append_of_ne_nil _ k'.suffix_ne_nil] at hlast
  have hkind : k = k' := by
    revert hlast
    cases k <;> cases k' <;> decide
  rw [hkind] at h
  exact ⟨hkind, List.append_cancel_right h⟩

/-- Applications of the rules, with their parameters. -/
inductive Rule
  | stripMining (size : Nat)
  | tile (size1 size2 : Nat)
  | skewing (index : Text)

namespace Rule

/-- Which rule it is. -/
def kind : Rule → Kind
  | stripMining _ => .stripMining
  | tile _ _ => .tile
  | skewing _ => .skewing

/-- The loop that replaces a loop with the given children. -/
def apply : Rule → List Xml → Xml
  | stripMining size, cs => xevLoopStripMining size cs
  | tile size1 size2, cs => xevLoopTile size1 size2 cs
  | skewing index, cs => xevLoopSkewing index cs

/-- The indices whose names are extended. -/
def indices : Rule → List Xml → List Text
  | stripMining _, cs => [indexName cs]
  | tile _ _, cs =>
      [indexName cs,
        valueOf "name" (path ["SgBasicBlock", "SgFortranDo", "SgAssignOp", "SgVarRefExp"] cs)]
  | skewing _, cs => [indexName cs]

/-- The variables that are parameters of the rule. -/
def parameters : Rule → List Text
  | skewing index => [index]
  | _ => []

/-- The names of the new indices. -/
def newNames (r : Rule) (cs : List Xml) : List Text :=
  (r.indices cs).map fun o => o ++ r.kind.suffix

/-- The record of an application. -/
def record (r : Rule) (cs : List Xml) : List (Kind × Text) :=
  (r.indices cs).map fun o => (r.kind, o)

end Rule

end Rules

section Variables

mutual

/-- The names of the variables in a tree. -/
def variableNames : Xml → List Text
  | .elem name attrs cs =>
      (if name = "SgVarRefExp" then (attrs.lookup "name").toList else []) ++ variableNamesAll cs
  | .text _ => []
  | .comment _ => []

/-- The names of the variables in a list of trees. -/
def variableNamesAll : List Xml → List Text
  | [] => []
  | x :: xs => variableNames x ++ variableNamesAll xs

end

mutual

/-- Trees over some variables. No element of a program is called `old`, which
    the rule for the body would read. -/
def Over (S : Text → Prop) : Xml → Prop
  | .elem name attrs cs =>
      name ≠ "old" ∧ (name = "SgVarRefExp" → ∀ y, attrs.lookup "name" = some y → S y) ∧
        OverAll S cs
  | .text _ => True
  | .comment _ => True

/-- Lists of trees over some variables. -/
def OverAll (S : Text → Prop) : List Xml → Prop
  | [] => True
  | x :: xs => Over S x ∧ OverAll S xs

end

/-- Trees of programs. -/
def ProgramTree (x : Xml) : Prop := Over (fun _ => True) x

variable {S T : Text → Prop}

theorem overAll_iff {ns : List Xml} : OverAll S ns ↔ ∀ x ∈ ns, Over S x := by
  induction ns with
  | nil => simp [OverAll]
  | cons n ns ih => rw [OverAll, ih, List.forall_mem_cons]

/-- A tree is over the variables in it. -/
theorem over_iff :
    (∀ x, Over S x ↔ ProgramTree x ∧ ∀ y ∈ variableNames x, S y) ∧
      ∀ ns, OverAll S ns ↔ OverAll (fun _ => True) ns ∧ ∀ y ∈ variableNamesAll ns, S y := by
  refine Xml.induct ?elem ?text ?comment ?nil ?cons
  case elem =>
    intro name attrs cs ih
    rw [ProgramTree, Over, Over, variableNames, ih]
    by_cases hvar : name = "SgVarRefExp"
    · simp only [hvar, if_true, List.forall_mem_append, Option.mem_toList,
        forall_const]
      tauto
    · simp only [hvar, if_false, List.nil_append]
      tauto
  case text =>
    intro t
    simp [ProgramTree, Over, variableNames]
  case comment =>
    intro t
    simp [ProgramTree, Over, variableNames]
  case nil => simp [OverAll, variableNamesAll]
  case cons =>
    intro x xs hx ih
    rw [OverAll, OverAll, variableNamesAll, hx, ih, ProgramTree, List.forall_mem_append]
    tauto

theorem Over.mono {x : Xml} (h : Over S x) (hsub : ∀ y, S y → T y) : Over T x := by
  rcases over_iff.1 x |>.mp h with ⟨hx, hS⟩
  exact over_iff.1 x |>.mpr ⟨hx, fun y hy => hsub y (hS y hy)⟩

theorem OverAll.mono {ns : List Xml} (h : OverAll S ns) (hsub : ∀ y, S y → T y) :
    OverAll T ns := by
  rcases over_iff.2 ns |>.mp h with ⟨hns, hS⟩
  exact over_iff.2 ns |>.mpr ⟨hns, fun y hy => hsub y (hS y hy)⟩

theorem Over.children {x : Xml} (h : Over S x) : OverAll S x.children := by
  cases x with
  | elem name attrs cs => exact h.2.2
  | text t => trivial
  | comment t => trivial

theorem OverAll.append {ns ms : List Xml} (hns : OverAll S ns) (hms : OverAll S ms) :
    OverAll S (ns ++ ms) := by
  rw [overAll_iff] at hns hms ⊢
  intro x hx
  rcases List.mem_append.mp hx with hx | hx
  · exact hns x hx
  · exact hms x hx

theorem Over.one {x : Xml} (h : Over S x) : OverAll S [x] := ⟨h, trivial⟩

/-- What is selected among nodes is over their variables. -/
theorem OverAll.sub {ns ms : List Xml} (h : OverAll S ns) (hsub : ms ⊆ ns) : OverAll S ms :=
  overAll_iff.mpr fun x hx => overAll_iff.mp h x (hsub hx)

theorem OverAll.flatMap {ns : List Xml} {f : Xml → List Xml} (h : OverAll S ns)
    (hf : ∀ x, Over S x → OverAll S (f x)) : OverAll S (ns.flatMap f) := by
  refine overAll_iff.mpr fun y hy => ?_
  rcases List.mem_flatMap.mp hy with ⟨x, hx, hy⟩
  exact overAll_iff.mp (hf x (overAll_iff.mp h x hx)) y hy

theorem OverAll.named {ns : List Xml} (h : OverAll S ns) (name : String) :
    OverAll S (named name ns) := h.sub fun _ hx => (List.mem_filter.mp hx).1

theorem OverAll.nth {ns : List Xml} (h : OverAll S ns) (k : Nat) : OverAll S (nth k ns) := by
  refine h.sub fun x hx => ?_
  rw [XevXml.nth, Option.mem_toList] at hx
  exact (List.mem_filter.mp (List.mem_of_getElem? hx)).1

theorem OverAll.path {ns : List Xml} (h : OverAll S ns) (names : List String) :
    OverAll S (path names ns) := by
  induction names generalizing ns with
  | nil => exact h
  | cons name rest ih =>
      cases rest with
      | nil => exact h.named name
      | cons next rest => exact (h.named name).flatMap fun x hx => ih hx.children

theorem OverAll.secondOfAssign {ns : List Xml} (h : OverAll S ns) :
    OverAll S (secondOfAssign ns) :=
  (h.named _).flatMap fun _ hx => hx.children.nth 2

theorem over_copied :
    (∀ x, Over S x → Over S x.copied) ∧ ∀ ns, OverAll S ns → OverAll S (copiedAll ns) := by
  refine Xml.induct ?elem ?text ?comment ?nil ?cons
  case elem =>
    intro name attrs cs ih h
    rw [Xml.copied]
    exact ⟨h.1, h.2.1, ih h.2.2⟩
  case text =>
    intro t h
    trivial
  case comment =>
    intro t h
    trivial
  case nil =>
    intro h
    trivial
  case cons =>
    intro x xs hx ih h
    rw [copiedAll_cons]
    split
    · exact ih h.2
    · exact ⟨hx h.1, ih h.2⟩

/-- The name read from selected variables is one of theirs, or empty. -/
theorem valueOf_path {ns : List Xml} (h : OverAll S ns) (name : String) (names : List String) :
    S (valueOf "name" (path (name :: names ++ ["SgVarRefExp"]) ns)) ∨
      valueOf "name" (path (name :: names ++ ["SgVarRefExp"]) ns) = [] := by
  set vars := path (name :: names ++ ["SgVarRefExp"]) ns with hvars
  have hover : OverAll S vars := h.path _
  have hname : ∀ x ∈ vars, x.hasName "SgVarRefExp" = true := by
    rw [hvars]
    clear hvars hover vars h
    induction name :: names generalizing ns with
    | nil =>
        intro x hx
        exact (List.mem_filter.mp hx).2
    | cons first rest ih =>
        intro x hx
        have hpath : path (first :: rest ++ ["SgVarRefExp"]) ns =
            (XevXml.named first ns).flatMap fun n => path (rest ++ ["SgVarRefExp"]) n.children := by
          cases rest <;> rfl
        rw [hpath] at hx
        rcases List.mem_flatMap.mp hx with ⟨n, -, hx⟩
        exact ih x hx
  rw [valueOf]
  cases hhead : (attributes "name" vars).head? with
  | none => exact Or.inr rfl
  | some y =>
      refine Or.inl ?_
      rcases List.mem_filterMap.mp (List.mem_of_head? hhead) with ⟨x, hx, hattr⟩
      have hthis := overAll_iff.mp hover x hx
      cases x with
      | elem n attrs cs => exact hthis.2.1 (beq_iff_eq.mp (hname _ hx)) y hattr
      | text t => exact absurd hattr (by simp [Xml.attr])
      | comment t => exact absurd hattr (by simp [Xml.attr])

end Variables

section Applied

variable {S : Text → Prop}

theorem over_varRef {x : Text} (h : S x) : Over S (varRef x) := by
  refine ⟨by decide, fun _ y hy => ?_, trivial⟩
  rw [← Option.some.inj hy]
  exact h

theorem over_sizeVal (n : Nat) : Over S (sizeVal n) :=
  ⟨by decide, fun h => absurd h (by decide), trivial⟩

theorem over_nullExpression : Over S nullExpression :=
  ⟨by decide, fun h => absurd h (by decide), trivial⟩

/-- Elements the rules build are not variables. -/
theorem over_elem {name : String} (attrs : Attrs) {cs : List Xml} (hold : name ≠ "old")
    (hvar : name ≠ "SgVarRefExp") (h : OverAll S cs) : Over S (.elem name attrs cs) :=
  ⟨hold, fun heq => absurd heq hvar, h⟩

theorem over_stripLoop (size : Nat) {t : Text} {lowers uppers rest : List Xml} (ht : S t)
    (hlowers : OverAll S lowers) (huppers : OverAll S uppers) (hrest : OverAll S rest) :
    Over S (stripLoop t size lowers uppers rest) := by
  have hinit : Over S (.elem "SgAssignOp" [] (varRef t :: lowers)) :=
    over_elem _ (by decide) (by decide) ⟨over_varRef ht, hlowers⟩
  exact over_elem _ (by decide) (by decide)
    (((hinit.one.append huppers).append (over_sizeVal size).one).append hrest)

theorem over_pointLoop (size : Nat) {t : Text} {vars uppers rest : List Xml} (ht : S t)
    (hvars : OverAll S vars) (huppers : OverAll S uppers) (hrest : OverAll S rest) :
    Over S (pointLoop t size vars uppers rest) := by
  have hone : Over S oneVal := over_elem _ (by decide) (by decide) trivial
  have hsum : Over S (.elem "SgAddOp" [] [varRef t, sizeVal size]) :=
    over_elem _ (by decide) (by decide) ⟨over_varRef ht, over_sizeVal size, trivial⟩
  have hend : Over S (stripEnd t size) :=
    over_elem _ (by decide) (by decide) ⟨hsum, hone, trivial⟩
  have hfunction : Over S (.elem "SgFunctionRefExp" [("name", "min".toList), ("kind", ['1'])] []) :=
    over_elem _ (by decide) (by decide) trivial
  have hmin : Over S (minCall (uppers ++ [stripEnd t size])) :=
    over_elem _ (by decide) (by decide)
      ⟨hfunction, over_elem _ (by decide) (by decide) (huppers.append ⟨hend, trivial⟩), trivial⟩
  have hinit : Over S (.elem "SgAssignOp" [] (vars ++ [varRef t])) :=
    over_elem _ (by decide) (by decide) (hvars.append ⟨over_varRef ht, trivial⟩)
  exact over_elem _ (by decide) (by decide)
    (((hinit.one.append hmin.one).append over_nullExpression.one).append hrest)

theorem over_basicBlock {cs : List Xml} (h : OverAll S cs) : Over S (basicBlock cs) :=
  over_elem _ (by decide) (by decide) h

/-- Below a variable that stays nothing is replaced, since there is no `old`. -/
theorem over_skewReplace {index : Text} (hindex : S index) :
    (∀ x, Over S x → ∀ old, (old = [] ∨ S (skName (old.headD []))) →
      Over S (skewReplace index old x)) ∧
    ∀ ns, OverAll S ns → ∀ old, (old = [] ∨ S (skName (old.headD []))) →
      OverAll S (skewReplaceAll index old ns) := by
  refine Xml.induct ?elem ?text ?comment ?nil ?cons
  case elem =>
    intro name attrs cs ih h old hnew
    rw [skewReplace]
    by_cases hvar : name = "SgVarRefExp"
    · rw [if_pos hvar]
      split
      · rename_i hany
        rcases hnew with hnil | hnew
        · rw [hnil] at hany
          exact absurd hany (by simp)
        · exact over_elem _ (by decide) (by decide)
            ⟨over_varRef hnew, over_varRef hindex, trivial⟩
      · have hnone : named "old" cs = [] := by
          refine List.filter_eq_nil_iff.mpr fun x hx => ?_
          have hthis := overAll_iff.mp h.2.2 x hx
          cases x with
          | elem n attrs' cs' => simpa using hthis.1
          | text t => exact Bool.false_ne_true
          | comment t => exact Bool.false_ne_true
        rw [hnone]
        exact ⟨h.1, h.2.1, ih h.2.2 _ (Or.inl rfl)⟩
    · rw [if_neg hvar]
      exact ⟨h.1, h.2.1, ih h.2.2 old hnew⟩
  case text =>
    intro t h old hnew
    trivial
  case comment =>
    intro t h old hnew
    trivial
  case nil =>
    intro h old hnew
    trivial
  case cons =>
    intro x xs hx ih h old hnew
    rw [skewReplaceAll]
    split
    · exact ih h.2 old hnew
    · exact ⟨hx h.1 old hnew, ih h.2 old hnew⟩

/-- A new loop is over the variables of the old one, the new indices and the
    parameters. A name that is not found is empty. -/
theorem Rule.over_apply (r : Rule) {cs : List Xml} (h : OverAll S cs)
    (hnew : ∀ n ∈ r.newNames cs, S n) (hparams : ∀ y ∈ r.parameters, S y) (hempty : S []) :
    Over S (r.apply cs) := by
  have hupper := h.nth 2
  have hvars := h.path ["SgAssignOp", "SgVarRefExp"]
  -- Every name in the new tree is one of the old tree, a new one or a parameter.
  cases r with
  | stripMining size =>
      have hsm : S (smName (indexName cs)) := hnew _ List.mem_cons_self
      have hblock := over_copied.2 _ (h.named "SgBasicBlock")
      have hpoint := over_pointLoop size hsm hvars hupper hblock
      exact over_stripLoop size hsm h.secondOfAssign hupper
        ⟨over_basicBlock hpoint.one, h.named _⟩
  | tile size1 size2 =>
      have houter : S (tileName (indexName cs)) := hnew _ List.mem_cons_self
      have hinner := hnew _ (List.mem_cons_of_mem _ List.mem_cons_self)
      have hindex : S (valueOf "name"
          (path ["SgBasicBlock", "SgFortranDo", "SgAssignOp", "SgVarRefExp"] cs)) := by
        rcases valueOf_path h "SgBasicBlock" ["SgFortranDo", "SgAssignOp"] with hS | hnil
        · exact hS
        · exact hnil ▸ hempty
      have hnest := h.path ["SgBasicBlock", "SgFortranDo"]
      have hlowers := hnest.flatMap fun _ hx => hx.children.secondOfAssign
      have huppers := hnest.flatMap fun _ hx => hx.children.nth 2
      have hblock := over_copied.2 _ (hnest.flatMap fun _ hx => hx.children.named "SgBasicBlock")
      have hpoint2 := over_pointLoop size2 hinner (over_varRef hindex).one huppers
        hblock
      have hpoint1 := over_pointLoop size1 houter hvars hupper
        (over_basicBlock hpoint2.one).one
      have hstrip2 := over_stripLoop size2 hinner hlowers huppers
        (over_basicBlock hpoint1.one).one
      exact over_stripLoop size1 houter h.secondOfAssign hupper
        (over_basicBlock hstrip2.one).one
  | skewing index =>
      have hsk : S (skName (indexName cs)) := hnew _ List.mem_cons_self
      have hindex : S index := hparams _ List.mem_cons_self
      have hbound : ∀ {ns : List Xml}, OverAll S ns → Over S (skewBound index ns) := fun hns =>
        over_elem _ (by decide) (by decide) ⟨over_varRef hindex, hns⟩
      have hfirst : (attributes "name" (path ["SgAssignOp", "SgVarRefExp"] cs)).headD [] =
          indexName cs := by
        rw [indexName, valueOf, List.headD_eq_head?_getD]
      have hinit : Over S (.elem "SgAssignOp" []
          [varRef (skName (indexName cs)), skewBound index (secondOfAssign cs)]) :=
        over_elem _ (by decide) (by decide)
          ⟨over_varRef hsk, hbound h.secondOfAssign, trivial⟩
      have hheader : OverAll S [Xml.elem "SgAssignOp" []
          [varRef (skName (indexName cs)), skewBound index (secondOfAssign cs)],
          skewBound index (nth 2 cs), nullExpression] :=
        ⟨hinit, hbound hupper, over_nullExpression.one⟩
      refine over_elem _ (by decide) (by decide) (hheader.append ?_)
      exact (over_skewReplace hindex).2 _ (h.named _) _ (Or.inr (by rwa [hfirst]))

end Applied

section Values

variable {S : Text → Prop} {μ : Machine} {σ σ' : Env}

/-- Only the variables in a tree have a say in its value. -/
theorem operandValues_congr_of_over (h : ∀ y, S y → σ' y = σ y) :
    (∀ x, Over S x → operandValues μ σ' x = operandValues μ σ x) ∧
      ∀ ns, OverAll S ns → operandsValues μ σ' ns = operandsValues μ σ ns := by
  refine Xml.induct ?elem ?text ?comment ?nil ?cons
  case elem =>
    intro name attrs cs ih hover
    rw [operandValues, operandValues, ih hover.2.2]
    by_cases hvar : name = "SgVarRefExp"
    · cases hname : attrs.lookup "name" with
      | none => rfl
      | some y => simp only [h y (hover.2.1 hvar y hname)]
    · rw [if_neg hvar, if_neg hvar]
  case text =>
    intro t _
    rfl
  case comment =>
    intro t _
    rfl
  case nil =>
    intro _
    rfl
  case cons =>
    intro x xs hx ih hover
    rw [operandsValues, operandsValues, hx hover.1, ih hover.2]

theorem Over.exprAt {p : List Nat} {x e : Xml} (h : Over S x) (hp : exprAt p x = some e) :
    Over S e := by
  induction p generalizing x with
  | nil =>
      rw [XevXml.exprAt, Option.some.injEq] at hp
      rwa [← hp]
  | cons k p ih =>
      rw [XevXml.exprAt] at hp
      split at hp
      · exact absurd hp (by simp)
      · rcases Option.bind_eq_some_iff.mp hp with ⟨w, hw, he⟩
        exact ih (overAll_iff.mp h.children w
          (List.mem_filter.mp (List.mem_of_getElem? hw)).1) he

/-- An expression does not depend on a variable that is not in it. -/
theorem Over.eval_set {x : Xml} (h : Over S x) {n : Text} (hn : ¬ S n) (ρ : Env) (v : Int) :
    eval μ (ρ.set n v) x = eval μ ρ x := by
  have hsame : ∀ y, S y → ρ.set n v y = ρ y := by
    intro y hy
    refine Env.set_of_ne ρ v fun heq => hn ?_
    rwa [← heq]
  rw [eval, eval, (operandValues_congr_of_over hsame).1 x h]

/-- Nor on one more of them. -/
theorem Unaffected.cons {x : Xml} (hover : Over S x) {ρ : Env} {n : Text} {xs : List Text}
    (hn : ¬ S n) (h : Unaffected μ ρ xs x) : Unaffected μ ρ (n :: xs) x := by
  intro ρ' hρ'
  -- Without the change of `n` the environment differs in the other variables only.
  have hback : Env.Agree xs (fun y => if y = n then ρ n else ρ' y) ρ := by
    intro y hy
    by_cases heq : y = n
    · simp only [heq, if_true]
    · simp only [if_neg heq]
      exact hρ' y fun hmem => (List.mem_cons.mp hmem).elim heq hy
  rw [← h _ hback, eval, eval, (operandValues_congr_of_over fun y hy => ?_).1 x hover]
  have hne : y ≠ n := fun heq => hn (heq ▸ hy)
  exact (if_neg hne).symm

/-- A variable that does not occur. -/
theorem mentions_eq_false_of_over :
    (∀ x, Over S x → ∀ n, ¬ S n → mentions n x = false) ∧
      ∀ ns, OverAll S ns → ∀ n, ¬ S n → mentionsAny n ns = false := by
  refine Xml.induct ?elem ?text ?comment ?nil ?cons
  case elem =>
    intro name attrs cs ih hover n hn
    rw [mentions]
    split
    · rename_i hvar
      exact decide_eq_false fun hname => hn (hover.2.1 hvar n hname)
    · exact ih hover.2.2 n hn
  case text =>
    intro t _ n _
    rfl
  case comment =>
    intro t _ n _
    rfl
  case nil =>
    intro _ n _
    rfl
  case cons =>
    intro x xs hx ih hover n hn
    rw [mentionsAny, hx hover.1 n hn, ih hover.2 n hn, Bool.or_false]

end Values

section Reached

/-- The node at a position. -/
def nodeAt : List Nat → Xml → Option Xml
  | [], x => some x
  | k :: p, x => x.children[k]?.bind (nodeAt p)

/-- The children of the loop at a position. -/
def loopAt (p : List Nat) (x : Xml) : Option (List Xml) :=
  (nodeAt p x).bind fun y =>
    if y.hasName "SgFortranDo" = true then some y.children else none

/-- The tree in which the node at a position is another one. -/
def replaceAt (new : Xml) : List Nat → Xml → Xml
  | [], _ => new
  | k :: p, .elem name attrs cs => .elem name attrs (cs.modify k (replaceAt new p))
  | _ :: _, x => x

/-- The trees reached from a tree, with the records of the rules and their
    parameters. Between the rules the identity templates may copy the tree. -/
inductive Reachable (x : Xml) : List (Kind × Text) → List Text → Xml → Prop
  | start : Reachable x [] [] x
  | copy {made : List (Kind × Text)} {params : List Text} {y : Xml} :
      Reachable x made params y → Reachable x made params y.copied
  | step {made : List (Kind × Text)} {params : List Text} {y : Xml} (r : Rule) (p : List Nat)
      {cs : List Xml} : Reachable x made params y → loopAt p y = some cs →
      Reachable x (r.record cs ++ made) (r.parameters ++ params) (replaceAt (r.apply cs) p y)

variable {S : Text → Prop}

theorem Over.nodeAt {p : List Nat} {x y : Xml} (h : Over S x) (hp : nodeAt p x = some y) :
    Over S y := by
  induction p generalizing x with
  | nil =>
      rw [XevXml.nodeAt, Option.some.injEq] at hp
      rwa [← hp]
  | cons k p ih =>
      rw [XevXml.nodeAt] at hp
      rcases Option.bind_eq_some_iff.mp hp with ⟨w, hw, hy⟩
      exact ih (overAll_iff.mp h.children w (List.mem_of_getElem? hw)) hy

theorem Over.loopAt {p : List Nat} {x : Xml} {cs : List Xml} (h : Over S x)
    (hp : loopAt p x = some cs) : OverAll S cs := by
  rw [XevXml.loopAt] at hp
  rcases Option.bind_eq_some_iff.mp hp with ⟨y, hy, hcs⟩
  split at hcs
  · rw [← Option.some.inj hcs]
    exact (h.nodeAt hy).children
  · exact absurd hcs (by simp)

theorem Over.replaceAt {new : Xml} (hnew : Over S new) {p : List Nat} {x : Xml} (h : Over S x) :
    Over S (replaceAt new p x) := by
  induction p generalizing x with
  | nil => exact hnew
  | cons k p ih =>
      cases x with
      | text t => trivial
      | comment t => trivial
      | elem name attrs cs =>
          refine ⟨h.1, h.2.1, overAll_iff.mpr fun y hy => ?_⟩
          rcases List.mem_iff_getElem?.mp hy with ⟨i, hi⟩
          rw [List.getElem?_modify] at hi
          rcases Option.map_eq_some_iff.mp hi with ⟨z, hz, hzy⟩
          have hzover := overAll_iff.mp h.2.2 z (List.mem_of_getElem? hz)
          rw [← hzy]
          split
          · exact ih hzover
          · exact hzover

/-- Where a variable of a tree that is reached comes from. -/
def Known (x : Xml) (made : List (Kind × Text)) (params : List Text) (y : Text) : Prop :=
  y ∈ variableNames x ∨ y ∈ params ∨ (∃ r ∈ made, y = r.2 ++ r.1.suffix) ∨ y = []

/-- The variables of a tree that is reached come from the program, from the
    parameters, or from the records. -/
theorem Reachable.over {x y : Xml} {made : List (Kind × Text)} {params : List Text}
    (h : Reachable x made params y) (hx : ProgramTree x) : Over (Known x made params) y := by
  induction h with
  | start => exact over_iff.1 x |>.mpr ⟨hx, fun y hy => Or.inl hy⟩
  | copy h ih => exact over_copied.1 _ ih
  | @step made params y r p cs h hloop ih =>
      have hmore : ∀ z, Known x made params z →
          Known x (r.record cs ++ made) (r.parameters ++ params) z := by
        intro z hz
        rcases hz with hz | hz | ⟨k, hk, hz⟩ | hz
        · exact Or.inl hz
        · exact Or.inr (Or.inl (List.mem_append_right _ hz))
        · exact Or.inr (Or.inr (Or.inl ⟨k, List.mem_append_right _ hk, hz⟩))
        · exact Or.inr (Or.inr (Or.inr hz))
      refine Over.replaceAt (r.over_apply ((ih.loopAt hloop).mono hmore) ?_ ?_ ?_) (ih.mono hmore)
      · intro n hn
        rcases List.mem_map.mp hn with ⟨o, ho, hname⟩
        refine Or.inr (Or.inr (Or.inl ⟨(r.kind, o), List.mem_append_left _ ?_, hname.symm⟩))
        exact List.mem_map_of_mem ho
      · intro z hz
        exact Or.inr (Or.inl (List.mem_append_left _ hz))
      · exact Or.inr (Or.inr (Or.inr rfl))

end Reached

section FreshIndices

/-- What a new loop has to do, apart from its names: it preserves the iterations of every
    well-formed loop of stride one whose header does not depend on the indices, if a variable
    lower bound makes no difference. -/
def Rule.Preserves : Rule → List Xml → Prop
  | stripMining size, cs =>
      ∀ (μ : Machine) (ρ : Env) (L : DoLoop), cs = L.children → 0 < size →
        strideValue μ ρ L.stride.xml = 1 → Unaffected μ ρ [L.index] L.lower.xml →
        Unaffected μ ρ [L.index] L.upper.xml →
        (L.lower.isVar = false ∨ (L.values μ ρ).length ≤ size) →
        ((runs μ 1 ρ (xevLoopStripMining size cs)).map fun r => (r.1, r.2 L.index)) =
          (runs μ 0 ρ L.xml).map fun r => (r.1.copied, r.2 L.index)
  | tile size1 size2, cs =>
      ∀ (μ : Machine) (ρ : Env) (L M : DoLoop), cs = L.children → elements L.body = [M.xml] →
        0 < size1 → 0 < size2 → strideValue μ ρ L.stride.xml = 1 →
        strideValue μ ρ M.stride.xml = 1 → L.Fixed μ ρ [L.index, M.index] →
        M.Fixed μ ρ [L.index, M.index] →
        (L.lower.isVar = false ∨ (L.values μ ρ).length ≤ size1 ∨ M.values μ ρ = []) →
        ((runs μ 3 ρ (xevLoopTile size1 size2 cs)).map
            fun r => (r.1, r.2 L.index, r.2 M.index)).Perm
          ((runs μ 1 ρ L.xml).map fun r => (r.1.copied, r.2 L.index, r.2 M.index))
  | skewing index, cs =>
      ∀ (μ : Machine) (ρ : Env) (L : DoLoop) (assigned : List Text), cs = L.children →
        strideValue μ ρ L.stride.xml = 1 → index ∉ assigned → L.index ∉ assigned →
        assigned ⊆ variableNamesAll cs →
        (∀ a, L.lower.isVar = true → L.lower.attrs.lookup "name" = some a →
          a = L.index ∨ mentions a L.block = false ∨ L.values μ ρ = [] ∨
            ((L.values μ ρ).length = 1 ∧ a ∉ assigned)) →
        List.Forall₂ (SameIteration μ assigned L.index (skName L.index)) (runs μ 0 ρ L.xml)
          (runs μ 0 ρ (xevLoopSkewing index cs))

/-- The new names are fresh: they differ from each other and from every variable of the loop, no
    expression of the loop has another value because of them, and the iterations are preserved. -/
structure Rule.FreshIndices (r : Rule) (cs : List Xml) : Prop where
  distinct : (r.newNames cs).Nodup
  unused : ∀ n ∈ r.newNames cs, n ∉ r.parameters ++ variableNamesAll cs
  uncaptured : ∀ n ∈ r.newNames cs, ∀ x ∈ cs, ∀ p e, exprAt p x = some e →
    ∀ (μ : Machine) (ρ : Env) (v : Int), eval μ (ρ.set n v) e = eval μ ρ e
  preserved : r.Preserves cs

/-- No variable is in the way: the extended indices differ, and no variable of the loop has the
    name of one of them with the suffix. -/
def Rule.Unused (r : Rule) (cs : List Xml) : Prop :=
  (r.indices cs).Nodup ∧
    ∀ o ∈ r.indices cs, o ++ r.kind.suffix ∉ r.parameters ++ variableNamesAll cs

/-- No earlier step is in the way: neither the program nor a parameter has a variable of such a
    name, and the rule has not been applied to a loop over the same index. -/
def Rule.Unrecorded (r : Rule) (cs : List Xml) (x : Xml) (made : List (Kind × Text))
    (params : List Text) : Prop :=
  (r.indices cs).Nodup ∧ ∀ o ∈ r.indices cs, o ++ r.kind.suffix ∉ variableNames x ∧
    o ++ r.kind.suffix ∉ r.parameters ++ params ∧ (r.kind, o) ∉ made

variable {r : Rule} {cs : List Xml}

theorem Rule.nodup_newNames_iff : (r.newNames cs).Nodup ↔ (r.indices cs).Nodup :=
  List.nodup_map_iff fun _ _ h => List.append_cancel_right h

theorem Rule.not_mem_newNames (h : r.Unused cs) {n : Text} (hn : n ∈ r.newNames cs) :
    n ∉ r.parameters ∧ n ∉ variableNamesAll cs := by
  rcases List.mem_map.mp hn with ⟨o, ho, rfl⟩
  have hnot := h.2 o ho
  rw [List.mem_append, not_or] at hnot
  exact hnot

/-- The variables of the parts of a well-formed loop. -/
theorem DoLoop.over_parts {S : Text → Prop} {L : DoLoop} (h : OverAll S L.children) :
    S L.index ∧ Over S L.lower.xml ∧ Over S L.upper.xml ∧ Over S L.stride.xml ∧
      Over S L.block := by
  have hinit := h.1
  exact ⟨hinit.2.2.1.2.1 rfl L.index L.named, hinit.2.2.2.1, h.2.1, h.2.2.1, h.2.2.2.1⟩

/-- New names that do not occur make no difference to a header. -/
theorem DoLoop.Fixed.cons {μ : Machine} {ρ : Env} {S : Text → Prop} {L : DoLoop} {n : Text}
    {xs : List Text} (hL : OverAll S L.children) (hn : ¬ S n) (h : L.Fixed μ ρ xs) :
    L.Fixed μ ρ (n :: xs) := by
  rcases DoLoop.over_parts hL with ⟨-, hlower, hupper, hstride, -⟩
  exact ⟨h.lower.cons hlower hn, h.upper.cons hupper hn, h.stride.cons hstride hn⟩

/-- With unused names every rule preserves the iterations. -/
theorem Rule.preserves_of_unused (hcs : OverAll (fun _ => True) cs) (h : r.Unused cs) :
    r.Preserves cs := by
  have hover : OverAll (fun y => y ∈ variableNamesAll cs) cs :=
    over_iff.2 cs |>.mpr ⟨hcs, fun _ hy => hy⟩
  -- A header that does not use the new names has the same values inside the new loops.
  cases r with
  | stripMining size =>
      intro μ ρ L hL hsize hunit hlower hupper hstrips
      have hsm : smName L.index ∉ variableNamesAll cs := by
        refine (Rule.not_mem_newNames h ?_).2
        rw [hL, Rule.newNames, Rule.indices, indexName_children]
        exact List.mem_cons_self
      rw [hL] at hover hsm
      rcases DoLoop.over_parts hover with ⟨-, hlower', hupper', -, -⟩
      rw [hL, runs_stripMined_eq_iff μ ρ L size (hlower.cons hlower' hsm)
        (hupper.cons hupper' hsm), strips_eq_values_iff μ ρ L hsize hunit]
      exact hstrips
  | tile size1 size2 =>
      intro μ ρ L M hL hbody hsize1 hsize2 hunit1 hunit2 houter hinner hrows
      have hindices : Rule.indices (.tile size1 size2) cs = [L.index, M.index] := by
        rw [hL, Rule.indices, indexName_children, indexName_nest hbody]
      have hnew : ∀ o ∈ [L.index, M.index], tileName o ∉ variableNamesAll cs := by
        intro o ho
        refine (Rule.not_mem_newNames h ?_).2
        rw [Rule.newNames, hindices]
        exact List.mem_map_of_mem ho
      have hdistinct := h.1
      rw [hindices] at hdistinct
      have hne : L.index ≠ M.index := by simpa using hdistinct
      rw [hL] at hover
      rcases DoLoop.over_parts hover with ⟨hindex, -, -, -, hblock⟩
      have hM : M.xml ∈ L.body := by
        have hmem : M.xml ∈ elements L.body := by
          rw [hbody]
          exact List.mem_cons_self
        exact (List.mem_filter.mp hmem).1
      have hover' := (overAll_iff.mp hblock.children _ hM).children
      have hn1 := hnew L.index List.mem_cons_self
      have hn2 := hnew M.index (List.mem_cons_of_mem _ List.mem_cons_self)
      have hfresh : L.index ≠ tileName M.index := by
        intro heq
        rw [← heq, hL] at hn2
        exact hn2 hindex
      rw [hL] at hn1 hn2 ⊢
      exact runs_tiled_perm μ ρ hbody size1 size2 hsize1 hsize2 hunit1 hunit2 hne hfresh
        ((houter.cons hover hn2).cons hover hn1) ((hinner.cons hover' hn2).cons hover' hn1) hrows
  | skewing index =>
      intro μ ρ L assigned hL hunit hindex hown hassigned hlower
      have hmem : skName L.index ∈ Rule.newNames (.skewing index) cs := by
        rw [hL, Rule.newNames, Rule.indices, indexName_children]
        exact List.mem_cons_self
      rcases Rule.not_mem_newNames h hmem with ⟨hparam, hsk⟩
      have hne : index ≠ skName L.index := by
        intro heq
        rw [← heq] at hparam
        exact hparam List.mem_cons_self
      have hover' := hover
      rw [hL] at hover'
      rcases DoLoop.over_parts hover' with ⟨-, -, -, -, hblock⟩
      have hbody : mentions (skName L.index) L.block = false := by
        refine mentions_eq_false_of_over.1 _ hblock _ ?_
        rwa [← hL]
      rw [hL, forall₂_runs_skewed_iff assigned hunit]
      intro v hv
      exact sameIteration_skewed hunit hindex hown hne (fun hmem => hsk (hassigned hmem)) hbody
        hlower hv

/-- The names are fresh exactly if no variable is in the way. -/
theorem Rule.freshIndices_iff (hcs : OverAll (fun _ => True) cs) :
    r.FreshIndices cs ↔ r.Unused cs := by
  constructor
  · intro h
    refine ⟨Rule.nodup_newNames_iff.mp h.distinct, fun o ho => h.unused _ ?_⟩
    exact List.mem_map_of_mem ho
  · intro h
    refine ⟨Rule.nodup_newNames_iff.mpr h.1, ?_, ?_, Rule.preserves_of_unused hcs h⟩
    · intro n hn hmem
      rcases List.mem_append.mp hmem with hmem | hmem
      · exact (Rule.not_mem_newNames h hn).1 hmem
      · exact (Rule.not_mem_newNames h hn).2 hmem
    · intro n hn x hx p e hp μ ρ v
      have hover := overAll_iff.mp (over_iff.2 cs |>.mpr ⟨hcs, fun _ hy => hy⟩) x hx
      exact (hover.exprAt hp).eval_set (Rule.not_mem_newNames h hn).2 ρ v

end FreshIndices

section Examples

/-- The loop `do i = 1, 8`. -/
def loopToEight : DoLoop := DoLoop.plain ['i'] (Expr.int 1) (Expr.int 8) Expr.null []

/-- The children of the loop over one strip of `loopToEight`. -/
def stripOfEight : List Xml :=
  [.elem "SgAssignOp" [] [varRef ['i'], varRef "i_sm".toList],
    minCall [(Expr.int 8).xml, stripEnd "i_sm".toList 4], nullExpression, basicBlock []]

theorem programTree_loopToEight : ProgramTree loopToEight.xml := by
  simp [ProgramTree, Over, OverAll, DoLoop.xml, DoLoop.children, DoLoop.init, DoLoop.var,
    DoLoop.block, DoLoop.infoList, loopToEight, DoLoop.plain, Expr.xml, Expr.int, Expr.null]

theorem loopAt_stripMined :
    loopAt [3, 0] (xevLoopStripMining 4 loopToEight.children) = some stripOfEight := by
  rfl

end Examples

end XevXml
