import XevXml.Ast.Attributes

/-!
# Alternate Returns

A procedure of Fortran may have labels among its arguments, and a return statement in it
says at which of them the caller goes on. In the tree the return statement refers to the
argument; in the document there is a number, which counts the labels and passes over the
other arguments.

The writer counts from zero, before it compares, and leaves the loop at the argument it is
looking for. The reader counts from one, after it compares, and goes through all of the
arguments. For both the number of an argument is its place among the labels, so the reader
finds the argument whose number has been written. As there are no more labels than
arguments, no number of a label is larger than the reader allows.

How the symbol table finds the symbol of an argument is not part of the repository, so the
search is a parameter. The table holds a label symbol for every label, and the symbol knows
its argument.

## Main definitions

* `LabelSymbol`, `FoundSymbol`: The symbols of labels and of arguments.
* `attribSgLabelRefExp`: The number that stands for a label reference.
* `labelArg`: The reader's loop over the arguments.
* `visitSgReturnStmt`: What the reader makes of the expression of a return statement.
* `LabelSymbols`: The symbol table knows the labels among the arguments.

## Theorems

* `labelCounter_eq`, `labelArg_eq`: Both loops in terms of the list of labels.
* `alternateReturn_argument`: The argument that is written is the one that is read, and
  no number of a label is rejected.
-/

namespace XevXml.AlternateReturn

open Attributes

variable {A : Type}

/-- The symbol of a label. -/
structure LabelSymbol (A : Type) where
  labelType : Int
  numericLabelValue : Int
  fortranAlternateReturnParameter : Option A
deriving DecidableEq, Repr

/-- What a search of the symbol table finds. -/
inductive FoundSymbol (A : Type)
  | label (sym : LabelSymbol A)
  | other
deriving DecidableEq, Repr

/-- The arguments of the enclosing function: there may be no such function, or no
    declaration of it. -/
def enclosingArgs (fdef : Option (Option (List A))) : Except Fatal (List A) :=
  match fdef with
  | none => .error (.fatal "enclosing function definition not found")
  | some none => .error (.fatal "declaration of the enclosing function not found")
  | some (some args) => .ok args

/-- The expression of a return statement. -/
inductive ReturnExp (A : Type)
  | labelRef (sym : LabelSymbol A)
  | other
deriving DecidableEq, Repr

/-- The type and the number that are written for a label reference. The number is the one
    of the label itself, or for an alternate return the one of the argument. -/
def attribSgLabelRefExp [DecidableEq A] (alternativeReturnType : Int) (isSgTypeLabel : A → Bool)
    (fdef : Option (Option (List A))) (sym : LabelSymbol A) : Except Fatal (Int × Option Int) :=
  if sym.labelType ≠ alternativeReturnType then .ok (sym.labelType, some sym.numericLabelValue)
  else do
    let args ← enclosingArgs fdef
    match sym.fortranAlternateReturnParameter with
    | none => .error (.fatal "assertion failed: ini!=NULL")
    | some ini =>
        let counter := labelCounter 0 (args.map fun a => (isSgTypeLabel a, decide (ini = a)))
        .ok (sym.labelType, counter.map Nat.cast)

/-- The symbol of a label reference as it is read. -/
def visitSgLabelRefExp (type ino : Int) : LabelSymbol A := ⟨type, ino, none⟩

/-- The conversion of an `int` to a `size_t`. -/
def sizeOfInt (v : Int) : Nat := if v < 0 then (v + 2 ^ 64).toNat else v.toNat

/-- The reader's loop over the arguments, with the counter and the argument found so far. -/
def labelArg (isSgTypeLabel : A → Bool) (retval : Nat) : List A → Nat → Option A → Option A
  | [], _, aname => aname
  | a :: args, counter, aname =>
      if isSgTypeLabel a then
        labelArg isSgTypeLabel retval args (counter + 1)
          (if counter = retval then some a else aname)
      else labelArg isSgTypeLabel retval args counter aname

/-- What the reader makes of the expression of a return statement. In Fortran the number of
    a label reference is looked up among the labels in the arguments, and the reference is
    replaced by one to the symbol of that argument. -/
def visitSgReturnStmt (fortran : Bool) (isSgTypeLabel : A → Bool)
    (search : A → Option (FoundSymbol A)) (fdef : Option (Option (List A))) :
    Option (ReturnExp A) → Except Fatal (Option (ReturnExp A))
  | some (.labelRef exp) =>
      if fortran then do
        let retval := sizeOfInt exp.numericLabelValue
        let args ← enclosingArgs fdef
        if retval < 1 ∨ args.length < retval then
          .error (.fatal "invalid label for alternative return")
        else
          match labelArg isSgTypeLabel retval args 1 none with
          | none => .ok (some (.labelRef exp))
          | some aname =>
              match search aname with
              | none => .error (.fatal "symbol for alternative return not found")
              | some .other => .error (.fatal "label symbol for alternative return not found")
              | some (.label sym) => .ok (some (.labelRef sym))
      else .ok (some (.labelRef exp))
  | exp => .ok exp

/-- The symbol table has a label symbol for each label among the arguments, and the symbol
    knows its argument. -/
def LabelSymbols (isSgTypeLabel : A → Bool) (search : A → Option (FoundSymbol A))
    (args : List A) : Prop :=
  ∀ a ∈ args, isSgTypeLabel a = true →
    ∃ sym, search a = some (.label sym) ∧ sym.fortranAlternateReturnParameter = some a

section Loops

variable {isSgTypeLabel : A → Bool}

/-- The writer's number is the place among the labels. -/
theorem labelCounter_eq [DecidableEq A] (ini : A) (args : List A) (counter : Nat) :
    labelCounter counter (args.map fun a => (isSgTypeLabel a, decide (ini = a))) =
      ((args.filter isSgTypeLabel).idxOf? ini).map (· + counter + 1) := by
  induction args generalizing counter with
  | nil => rfl
  | cons a args ih =>
      rw [List.map_cons, labelCounter]
      by_cases hlabel : isSgTypeLabel a = true
      · rw [if_pos hlabel, List.filter_cons_of_pos hlabel, List.idxOf?_cons]
        by_cases hini : ini = a
        · subst hini
          simp
        · have hne : (a == ini) = false := by simp [Ne.symm hini]
          rw [decide_eq_false hini, if_neg (by simp), hne, ih]
          simp only [Option.map_map, Bool.false_eq_true, if_false]
          congr 1
          funext n
          simp only [Function.comp]
          omega
      · rw [if_neg hlabel, List.filter_cons_of_neg hlabel, ih]

/-- The reader's loop takes the label at the place that its number says. -/
theorem labelArg_eq (retval : Nat) (args : List A) (counter : Nat) (aname : Option A) :
    labelArg isSgTypeLabel retval args counter aname =
      if counter ≤ retval ∧ retval < counter + (args.filter isSgTypeLabel).length then
        (args.filter isSgTypeLabel)[retval - counter]?
      else aname := by
  induction args generalizing counter aname with
  | nil =>
      rw [labelArg, List.filter_nil, List.length_nil, if_neg (by omega)]
  | cons a args ih =>
      rw [labelArg]
      by_cases hlabel : isSgTypeLabel a = true
      · rw [if_pos hlabel, List.filter_cons_of_pos hlabel, ih, List.length_cons]
        by_cases heq : counter = retval
        · -- Here the argument is taken, and the rest of the loop leaves it alone.
          subst heq
          rw [if_neg (by omega), if_pos rfl, if_pos (by omega), Nat.sub_self,
            List.getElem?_cons_zero]
        · rw [if_neg heq]
          by_cases hin : counter + 1 ≤ retval ∧
              retval < counter + 1 + (args.filter isSgTypeLabel).length
          · have hplace : retval - counter = (retval - (counter + 1)) + 1 := by omega
            rw [if_pos hin, if_pos (by omega), hplace, List.getElem?_cons_succ]
          · rw [if_neg hin, if_neg (by omega)]
      · rw [if_neg hlabel, List.filter_cons_of_neg hlabel, ih]

end Loops

section RoundTrip

variable {isSgTypeLabel : A → Bool} {search : A → Option (FoundSymbol A)} {args : List A}

/-- A number of a label passes the check, and the label with this number is found. -/
theorem visitSgReturnStmt_label (hsearch : LabelSymbols isSgTypeLabel search args) {a : A}
    {i : Nat} (ha : (args.filter isSgTypeLabel)[i]? = some a) (type : Int) :
    ∃ sym, visitSgReturnStmt true isSgTypeLabel search (some (some args))
        (some (.labelRef (visitSgLabelRefExp type ((i + 1 : Nat) : Int)))) =
          .ok (some (.labelRef sym)) ∧
      sym.fortranAlternateReturnParameter = some a := by
  obtain ⟨hi, -⟩ := List.getElem?_eq_some_iff.mp ha
  have hmem : a ∈ args.filter isSgTypeLabel := List.mem_of_getElem? ha
  rw [List.mem_filter] at hmem
  obtain ⟨sym, hfound, hparam⟩ := hsearch a hmem.1 hmem.2
  -- There are no more labels than arguments.
  have hcount : (args.filter isSgTypeLabel).length ≤ args.length := List.length_filter_le _ _
  have hretval : sizeOfInt ((i + 1 : Nat) : Int) = i + 1 := by
    rw [sizeOfInt, if_neg (by omega), Int.toNat_natCast]
  have hvalid : ¬ (i + 1 < 1 ∨ args.length < i + 1) := by omega
  have harg : labelArg isSgTypeLabel (i + 1) args 1 none = some a := by
    rw [labelArg_eq, if_pos (by omega), Nat.add_sub_cancel, ha]
  have hargs : enclosingArgs (some (some args)) = .ok args := rfl
  refine ⟨sym, ?_, hparam⟩
  simp only [visitSgReturnStmt, visitSgLabelRefExp, hretval, hargs, if_neg hvalid, harg, hfound,
    if_true, bind, Except.bind]

/-- For every label among the arguments a number is written that is read as a reference to
    the same argument; as far as an `int` goes the number survives the document. Every
    number up to that of the last label is read as a reference to a label. -/
theorem alternateReturn_argument [DecidableEq A] (alternativeReturnType : Int)
    (hsearch : LabelSymbols isSgTypeLabel search args) :
    (∀ a ∈ args, isSgTypeLabel a = true → ∀ sym : LabelSymbol A,
      sym.labelType = alternativeReturnType → sym.fortranAlternateReturnParameter = some a →
      ∃ (n : Nat) (sym' : LabelSymbol A),
        attribSgLabelRefExp alternativeReturnType isSgTypeLabel (some (some args)) sym =
          .ok (sym.labelType, some (n : Int)) ∧
        ((n : Int) ≤ intFormat.hi →
          getInt [("nlabel", Numeral.printInt n)] "nlabel" = some (n : Int)) ∧
        visitSgReturnStmt true isSgTypeLabel search (some (some args))
          (some (.labelRef (visitSgLabelRefExp sym.labelType n))) = .ok (some (.labelRef sym')) ∧
        sym'.fortranAlternateReturnParameter = some a) ∧
    ∀ (n : Nat) (type : Int), 1 ≤ n → n ≤ (args.filter isSgTypeLabel).length →
      ∃ (a : A) (sym' : LabelSymbol A), (args.filter isSgTypeLabel)[n - 1]? = some a ∧
        visitSgReturnStmt true isSgTypeLabel search (some (some args))
          (some (.labelRef (visitSgLabelRefExp type n))) = .ok (some (.labelRef sym')) ∧
        sym'.fortranAlternateReturnParameter = some a := by
  constructor
  · intro a hmem hlabel sym htype hparam
    have hin : a ∈ args.filter isSgTypeLabel := List.mem_filter.mpr ⟨hmem, hlabel⟩
    obtain ⟨i, hplace⟩ := Option.isSome_iff_exists.mp (List.isSome_idxOf?.mpr hin)
    obtain ⟨hlt, heq, -⟩ := List.idxOf?_eq_some_iff.mp hplace
    have hget : (args.filter isSgTypeLabel)[i]? = some a := by
      rw [List.getElem?_eq_getElem hlt, heq]
    obtain ⟨sym', hread, hparam'⟩ := visitSgReturnStmt_label hsearch hget sym.labelType
    refine ⟨i + 1, sym', ?_, ?_, hread, hparam'⟩
    · have hcounter : labelCounter 0 (args.map fun b => (isSgTypeLabel b, decide (a = b))) = _ :=
        labelCounter_eq a args 0
      rw [hplace] at hcounter
      rw [attribSgLabelRefExp, if_neg (not_not_intro htype), hparam]
      simp only [enclosingArgs, bind, Except.bind, hcounter]
      rfl
    · intro hle
      have hrange : intFormat.InRange ((i + 1 : Nat) : Int) :=
        ⟨le_trans intFormat.lo_nonpos (Int.natCast_nonneg _), hle⟩
      exact congrArg some (Numeral.Format.extract_printInt hrange)
  · intro n type hpos hle
    have hlt : n - 1 < (args.filter isSgTypeLabel).length := by omega
    have hget := List.getElem?_eq_getElem hlt
    obtain ⟨sym, hread, hparam⟩ := visitSgReturnStmt_label hsearch hget type
    rw [Nat.sub_add_cancel hpos] at hread
    exact ⟨_, sym, hget, hread, hparam⟩

/-- The arguments `x, *, y, *` with the label symbols of the second and the fourth. -/
theorem alternateReturn_argument_mixed :
    (∀ a ∈ [0, 1, 2, 3], (a % 2 == 1) = true → ∀ sym : LabelSymbol Nat,
      sym.labelType = 3 → sym.fortranAlternateReturnParameter = some a →
      ∃ (n : Nat) (sym' : LabelSymbol Nat),
        attribSgLabelRefExp 3 (fun a => a % 2 == 1) (some (some [0, 1, 2, 3])) sym =
          .ok (sym.labelType, some (n : Int)) ∧
        ((n : Int) ≤ intFormat.hi →
          getInt [("nlabel", Numeral.printInt n)] "nlabel" = some (n : Int)) ∧
        visitSgReturnStmt true (fun a => a % 2 == 1) (fun a => some (.label ⟨3, 0, some a⟩))
          (some (some [0, 1, 2, 3])) (some (.labelRef (visitSgLabelRefExp sym.labelType n))) =
            .ok (some (.labelRef sym')) ∧
        sym'.fortranAlternateReturnParameter = some a) ∧
    ∀ (n : Nat) (type : Int), 1 ≤ n → n ≤ ([0, 1, 2, 3].filter fun a => a % 2 == 1).length →
      ∃ (a : Nat) (sym' : LabelSymbol Nat),
        ([0, 1, 2, 3].filter fun a => a % 2 == 1)[n - 1]? = some a ∧
        visitSgReturnStmt true (fun a => a % 2 == 1) (fun a => some (.label ⟨3, 0, some a⟩))
          (some (some [0, 1, 2, 3])) (some (.labelRef (visitSgLabelRefExp type n))) =
            .ok (some (.labelRef sym')) ∧
        sym'.fortranAlternateReturnParameter = some a :=
  alternateReturn_argument 3 fun a _ _ => ⟨⟨3, 0, some a⟩, rfl, rfl⟩

end RoundTrip

end XevXml.AlternateReturn
