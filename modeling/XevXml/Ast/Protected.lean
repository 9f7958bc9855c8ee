import XevXml.Dom.Xml

/-!
# The PROTECTED Statement

The reader of an attribute statement collects the names that stand below it.
For a PROTECTED statement it looks up each of them in turn, and in the
declaration that the name is found in it sets the flag of a variable.

There are two loops, over the names and over the variables of a declaration,
and both have a counter of the name `i`. Inside of the inner loop that counter
is meant, for the names as well. So the variable at a position is compared with
the name at the same position of the statement, whatever name the declaration
has been found for. The variable is marked if it stands where its name does.
If a declaration has more variables than the statement has names, the list of
names is read behind its end.

Looking up a name is not part of the reader. What it finds is either a variable
at its place in a declaration, or a variable whose parent is something else,
such as a parameter of a function. The flags are modelled by the list of the
variables that have it.

## Main definitions

* `Variable`, `Scope`: Variables, and where names are looked up.
* `markVariables`, `protectNames`: The inner and the outer loop.
* `visitProtectedStatement`: The reader of the statement.
* `Scope.Protects`: The variables that are named get the flag, and no others.
* `Scope.AtOwnPlaces`: The variables stand where their names do.

## Theorems

* `markVariables_isOk_iff`, `mem_markVariables`: The loop over a declaration.
* `protectNames_isOk_iff`, `mem_protectNames`: The loop over the names.
* `protects_iff`: Exactly the named variables get the flag if they are in place.
-/

namespace XevXml

namespace Protected

/-- A variable: the one at a position of a declaration, or one that is in none. -/
inductive Variable
  | declared (declaration position : Nat)
  | other (id : Nat)
deriving DecidableEq, Repr

/-- The declarations with the names of their variables, and the variable a name stands for.
    A variable that is found in a declaration is one of those the declaration has. -/
structure Scope where
  declarations : List (List Text)
  lookupVariableSymbol : Text → Option Variable
  declared : ∀ name d j, lookupVariableSymbol name = some (.declared d j) →
    ∃ vs, declarations[d]? = some vs ∧ j < vs.length

/-- The names of the variables of a declaration. -/
def Scope.get_variables (scope : Scope) (d : Nat) : List Text := scope.declarations[d]?.getD []

/-- Why the reader does not come to an end: it aborts, or it reads behind the end of a list. -/
inductive Stop
  | fatal (reason : Fatal)
  | outside
deriving DecidableEq, Repr

/-- What the reader computes unless it stops. -/
abbrev Run := Except Stop

/-- The loop over the variables of a declaration from position `i` on. The counter hides the
    one of the loop over the names. -/
def markVariables (slst : List Text) (d : Nat) :
    Nat → List Text → List Variable → Run (List Variable)
  | _, [], marks => .ok marks
  | i, v :: vs, marks =>
      match slst[i]? with
      | none => .error .outside
      | some name =>
          markVariables slst d (i + 1) vs (if v = name then marks ++ [.declared d i] else marks)

/-- The loop over the names. -/
def protectNames (scope : Scope) (slst : List Text) :
    List Text → List Variable → Run (List Variable)
  | [], marks => .ok marks
  | name :: names, marks =>
      match scope.lookupVariableSymbol name with
      | none => .error (.fatal (.fatal "the variable symbol not found"))
      | some (.other _) => protectNames scope slst names marks
      | some (.declared d _) =>
          match markVariables slst d 0 (scope.get_variables d) marks with
          | .error stop => .error stop
          | .ok marked => protectNames scope slst names marked

/-- The reader of a PROTECTED statement, whose children are strings and other nodes: the names
    of the statement, and the variables that have the flag behind it. -/
def visitProtectedStatement (scope : Scope) (children : List (Option Text))
    (marks : List Variable) : Run (List Text × List Variable) :=
  let slst := children.filterMap id
  match protectNames scope slst slst marks with
  | .error stop => .error stop
  | .ok marked => .ok (slst, marked)

/-- One of the names stands for the variable. -/
def Scope.Named (scope : Scope) (names : List Text) (x : Variable) : Prop :=
  ∃ name ∈ names, scope.lookupVariableSymbol name = some x

/-- The statement comes to an end, and whatever variables had the flag before, those behind it
    are the ones that had it and the ones that the statement names. -/
def Scope.Protects (scope : Scope) (children : List (Option Text)) : Prop :=
  ∀ marks, ∃ slst marked, visitProtectedStatement scope children marks = .ok (slst, marked) ∧
    ∀ x, x ∈ marked ↔ x ∈ marks ∨ scope.Named (children.filterMap id) x

/-- Every name stands for a variable in a declaration that has no more variables than there
    are names, and the variables of it that are named are those whose name stands in the
    statement at the position the variable has in the declaration. -/
def Scope.AtOwnPlaces (scope : Scope) (names : List Text) : Prop :=
  ∀ name ∈ names, ∃ d k, scope.lookupVariableSymbol name = some (.declared d k) ∧
    (scope.get_variables d).length ≤ names.length ∧
    ∀ j v, (scope.get_variables d)[j]? = some v →
      (names[j]? = some v ↔ scope.Named names (.declared d j))

variable (scope : Scope) (slst : List Text) (d : Nat)

/-- A declaration is read to its end if the names reach as far. -/
theorem markVariables_isOk_iff (vs : List Text) (i : Nat) (marks : List Variable)
    (hi : i ≤ slst.length) :
    (∃ marked, markVariables slst d i vs marks = .ok marked) ↔ i + vs.length ≤ slst.length := by
  induction vs generalizing i marks with
  | nil =>
      unfold markVariables
      constructor
      · intro _
        exact hi
      · intro _
        exact ⟨marks, rfl⟩
  | cons v vs ih =>
      unfold markVariables
      by_cases hlt : i < slst.length
      · rw [List.getElem?_eq_getElem hlt]
        simp only
        rw [ih (i + 1) _ hlt, List.length_cons]
        omega
      · rw [List.getElem?_eq_none (by omega)]
        simp only [reduceCtorEq, exists_false, false_iff, List.length_cons]
        omega

/-- What the loop over a declaration marks: the variables that have the name at their own
    position. -/
theorem mem_markVariables (vs : List Text) (i : Nat) (marks marked : List Variable)
    (h : markVariables slst d i vs marks = .ok marked) (x : Variable) :
    x ∈ marked ↔ x ∈ marks ∨
      ∃ j v, vs[j]? = some v ∧ slst[i + j]? = some v ∧ x = .declared d (i + j) := by
  induction vs generalizing i marks with
  | nil =>
      unfold markVariables at h
      cases h
      simp
  | cons v vs ih =>
      unfold markVariables at h
      cases hname : slst[i]? with
      | none =>
          rw [hname] at h
          exact nomatch h
      | some name =>
          rw [hname] at h
          rw [ih (i + 1) _ h]
          -- The variable in front of the rest is the one at position zero.
          have hsplit : (∃ j u, (v :: vs)[j]? = some u ∧ slst[i + j]? = some u ∧
                x = .declared d (i + j)) ↔
              (v = name ∧ x = .declared d i) ∨
                ∃ j u, vs[j]? = some u ∧ slst[i + 1 + j]? = some u ∧
                  x = .declared d (i + 1 + j) := by
            constructor
            · rintro ⟨j, u, hu, hs, hx⟩
              cases j with
              | zero =>
                  left
                  rw [Nat.add_zero, hname] at hs
                  simp only [List.getElem?_cons_zero, Option.some.injEq] at hu hs
                  exact ⟨hu.trans hs.symm, hx⟩
              | succ j =>
                  right
                  rw [show i + (j + 1) = i + 1 + j by omega] at hs hx
                  exact ⟨j, u, hu, hs, hx⟩
            · rintro (⟨hv, hx⟩ | ⟨j, u, hu, hs, hx⟩)
              · exact ⟨0, v, rfl, by rw [Nat.add_zero, hname, hv], hx⟩
              · rw [show i + 1 + j = i + (j + 1) by omega] at hs hx
                exact ⟨j + 1, u, hu, hs, hx⟩
          rw [hsplit]
          by_cases hv : v = name
          · rw [if_pos hv, List.mem_append, List.mem_singleton, or_assoc]
            simp only [hv, true_and]
          · rw [if_neg hv]
            simp only [hv, false_and, false_or]

/-- The statement is read to its end if every name stands for a variable and no declaration
    found on the way is longer than the list of names. -/
theorem protectNames_isOk_iff (names : List Text) (marks : List Variable) :
    (∃ marked, protectNames scope slst names marks = .ok marked) ↔
      ∀ name ∈ names, ∃ x, scope.lookupVariableSymbol name = some x ∧
        ∀ d k, x = .declared d k → (scope.get_variables d).length ≤ slst.length := by
  induction names generalizing marks with
  | nil =>
      unfold protectNames
      simp
  | cons name names ih =>
      rw [List.forall_mem_cons]
      unfold protectNames
      cases hx : scope.lookupVariableSymbol name with
      | none => simp
      | some x =>
          cases x with
          | other id =>
              simp only
              rw [ih]
              simp
          | declared d k =>
              -- The first name decides whether the others are looked up.
              have hfirst := markVariables_isOk_iff slst d (scope.get_variables d) 0 marks
                (Nat.zero_le _)
              rw [Nat.zero_add] at hfirst
              simp only
              cases hm : markVariables slst d 0 (scope.get_variables d) marks with
              | error stop =>
                  rw [hm] at hfirst
                  simp only [reduceCtorEq, exists_false, false_iff] at hfirst ⊢
                  rintro ⟨⟨x, hsome, hle⟩, -⟩
                  cases hsome
                  exact hfirst (hle d k rfl)
              | ok marked =>
                  rw [hm] at hfirst
                  have hle := hfirst.mp ⟨marked, rfl⟩
                  simp only
                  rw [ih]
                  constructor
                  · intro hrest
                    refine ⟨⟨_, rfl, ?_⟩, hrest⟩
                    intro e l heq
                    cases heq
                    exact hle
                  · exact fun hboth => hboth.2

/-- What the loop over the names marks: in each declaration found on the way the variables
    that have the name at their own position. -/
theorem mem_protectNames (names : List Text) (marks marked : List Variable)
    (h : protectNames scope slst names marks = .ok marked) (x : Variable) :
    x ∈ marked ↔ x ∈ marks ∨ ∃ name ∈ names, ∃ d k j v,
      scope.lookupVariableSymbol name = some (.declared d k) ∧
        (scope.get_variables d)[j]? = some v ∧ slst[j]? = some v ∧ x = .declared d j := by
  induction names generalizing marks with
  | nil =>
      unfold protectNames at h
      cases h
      simp
  | cons name names ih =>
      unfold protectNames at h
      rw [List.exists_mem_cons_iff]
      cases hx : scope.lookupVariableSymbol name with
      | none =>
          rw [hx] at h
          exact nomatch h
      | some y =>
          rw [hx] at h
          cases y with
          | other id =>
              rw [ih marks h]
              simp
          | declared d k =>
              simp only at h
              cases hm : markVariables slst d 0 (scope.get_variables d) marks with
              | error stop =>
                  rw [hm] at h
                  exact nomatch h
              | ok first =>
                  rw [hm] at h
                  rw [ih first h, mem_markVariables slst d _ 0 marks first hm]
                  simp only [Nat.zero_add, or_assoc]
                  -- The declaration of the first name is the one its symbol says.
                  have hfirst : (∃ e l j v, some (Variable.declared d k) = some (.declared e l) ∧
                        (scope.get_variables e)[j]? = some v ∧ slst[j]? = some v ∧
                          x = .declared e j) ↔
                      ∃ j v, (scope.get_variables d)[j]? = some v ∧ slst[j]? = some v ∧
                        x = .declared d j := by
                    constructor
                    · rintro ⟨e, l, j, v, heq, hrest⟩
                      cases heq
                      exact ⟨j, v, hrest⟩
                    · rintro ⟨j, v, hrest⟩
                      exact ⟨d, k, j, v, rfl, hrest⟩
                  rw [hfirst]

/-- The variable a name is found for is one that its declaration has. -/
theorem get_variables_of_lookup (name : Text) (d k : Nat)
    (h : scope.lookupVariableSymbol name = some (.declared d k)) :
    ∃ v, (scope.get_variables d)[k]? = some v := by
  rcases scope.declared name d k h with ⟨vs, hvs, hlt⟩
  refine ⟨vs[k], ?_⟩
  unfold Scope.get_variables
  rw [hvs, Option.getD_some, List.getElem?_eq_getElem hlt]

/-- The reader and the loop over the names. -/
theorem protects_iff_protectNames (children : List (Option Text)) :
    scope.Protects children ↔
      ∀ marks, ∃ marked,
        protectNames scope (children.filterMap id) (children.filterMap id) marks = .ok marked ∧
          ∀ x, x ∈ marked ↔ x ∈ marks ∨ scope.Named (children.filterMap id) x := by
  unfold Scope.Protects
  apply forall_congr'
  intro marks
  unfold visitProtectedStatement
  generalize children.filterMap id = names
  simp only
  cases protectNames scope names names marks with
  | error stop => simp
  | ok marked => simp

/-- A PROTECTED statement comes to an end and marks exactly the variables that it names if
    and only if each name stands for a variable of a declaration that is not longer than the
    list of names, and in those declarations the variables that are named are the ones whose
    name stands in the statement at their own position. -/
theorem protects_iff (children : List (Option Text)) :
    scope.Protects children ↔ scope.AtOwnPlaces (children.filterMap id) := by
  rw [protects_iff_protectNames]
  generalize children.filterMap id = names
  constructor
  · intro h name hname
    -- Nothing has the flag before, so what has it afterwards has been marked.
    rcases h [] with ⟨marked, hrun, hmarked⟩
    have hok := (protectNames_isOk_iff scope names names []).mp ⟨marked, hrun⟩
    have hmem := mem_protectNames scope names names [] marked hrun
    simp only [List.not_mem_nil, false_or] at hmarked hmem
    rcases hok name hname with ⟨x, hx, hle⟩
    -- The variable of the name is marked, so it is one of a declaration.
    rcases (hmem x).mp ((hmarked x).mpr ⟨name, hname, hx⟩) with
      ⟨other, hother, d, k, j, v, hlook, hv, hslst, hxd⟩
    refine ⟨d, j, by rw [hx, hxd], hle d j hxd, ?_⟩
    intro i u hu
    rw [← hmarked, hmem]
    constructor
    · intro hi
      exact ⟨name, hname, d, j, i, u, by rw [hx, hxd], hu, hi, rfl⟩
    · rintro ⟨_, _, e, _, i', u', _, hu', hi', heq⟩
      cases heq
      rw [hu] at hu'
      rw [hi', ← hu']
  · intro h marks
    have hok : ∃ marked, protectNames scope names names marks = .ok marked := by
      rw [protectNames_isOk_iff]
      intro name hname
      rcases h name hname with ⟨d, k, hx, hle, -⟩
      refine ⟨_, hx, ?_⟩
      intro e l heq
      cases heq
      exact hle
    rcases hok with ⟨marked, hrun⟩
    refine ⟨marked, hrun, ?_⟩
    intro x
    rw [mem_protectNames scope names names marks marked hrun]
    apply or_congr_right
    constructor
    · rintro ⟨name, hname, d, k, j, v, hlook, hv, hslst, hx⟩
      rcases h name hname with ⟨e, l, hx', -, hplace⟩
      rw [hlook] at hx'
      cases hx'
      rw [hx]
      exact (hplace j v hv).mp hslst
    · rintro ⟨name, hname, hx⟩
      rcases h name hname with ⟨d, k, hx', -, hplace⟩
      rw [hx'] at hx
      cases hx
      rcases get_variables_of_lookup scope name d k hx' with ⟨v, hv⟩
      exact ⟨name, hname, d, k, k, v, hx', hv, (hplace k v hv).mpr ⟨name, hname, hx'⟩, rfl⟩

section Examples

/-- The scope with the declaration of `a` and `b`. -/
def twoVariables : Scope where
  declarations := [["a".toList, "b".toList]]
  lookupVariableSymbol name :=
    if name = "a".toList then some (.declared 0 0)
    else if name = "b".toList then some (.declared 0 1)
    else none
  declared := by
    intro name d j h
    refine ⟨["a".toList, "b".toList], ?_⟩
    split_ifs at h
    · cases h
      exact ⟨rfl, Nat.zero_lt_two⟩
    · cases h
      exact ⟨rfl, Nat.one_lt_two⟩

/-- `PROTECTED :: b` behind the declaration of `a` and `b` reads a second name. -/
theorem secondVariable_not_protected : ¬ twoVariables.Protects [some "b".toList] := by
  intro h
  rcases h [] with ⟨slst, marked, hrun, -⟩
  exact nomatch hrun

/-- `PROTECTED :: b, a` marks neither of them. -/
example : visitProtectedStatement twoVariables [some "b".toList, some "a".toList] [] =
    .ok (["b".toList, "a".toList], []) := rfl

end Examples

end Protected

end XevXml
