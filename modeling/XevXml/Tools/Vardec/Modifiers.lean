import XevXml.Trans.Select
import Mathlib.Data.Nat.BitIndices

/-!
# The Modifiers of a Declaration

The front end writes the modifiers of a declaration as numbers. Those that belong to the type are
the bits of one number, the others have a number each. An attribute is left out if nothing is said.

`vardec` displays them in a list, every modifier by its name. It gets a bit out of the number with
two remainders. `unvardec` counts the names in the list, and adds up what they stand for. Two bits
are displayed by a name that is not looked for on the way back.

## Main definitions

* `Modifiers`: The attributes of a declaration.
* `modifierList`: The list that is displayed.
* `restoredModifiers`: The attributes that are read from it.
* `SameValues`: The same modifiers with the same values.
* `Modifiers.Known`: Every bit has a name that is looked for.

## Theorems

* `hasBit_iff`: The two remainders give a bit.
* `restored_type`: The bits that come back.
* `sameValues_restored_iff`: When the modifiers come back with their values.
-/

namespace XevXml.Tools.Vardec

/-- The attributes of a declaration. -/
structure Modifiers where
  declaration_modifier : Option Nat
  type_modifier : Option Nat
  cv_modifier : Option Nat
  access_modifier : Option Nat
  storage_modifier : Option Nat
  link : Option Text
  bind : Option Text
deriving DecidableEq, Repr

section Stylesheets

/-- The test of `vardec` for a bit. It fails if there is no number. -/
def hasBit (type_modifier : Option Nat) (bit : Nat) : Bool :=
  match type_modifier with
  | some w => w % (2 * bit) - w % bit == bit
  | none => false

/-- A modifier in the list. -/
def modifierVal (value : String) : Xml :=
  .elem "SgStringVal" [("value", value.toList), ("single", ['1'])] []

/-- The modifiers that are there, of some that are tested one after the other. -/
def shown (tests : List (Bool × String)) : List Xml :=
  tests.flatMap fun t => if t.1 then [modifierVal t.2] else []

/-- The modifier `bind` is displayed as a call. -/
def bindCall (m : Modifiers) : Xml :=
  .elem "SgFunctionCallExp" []
    [.elem "SgFunctionRefExp" [("name", "bind".toList)] [],
      .elem "SgExprListExp" []
        (.elem "SgVarRefExp" [("name", m.link.getD []), ("type", ['_'])] [] ::
          match m.bind with
          | some label =>
              [.elem "SgActualArgumentExpression" [("name", "name".toList)]
                [.elem "SgStringVal" [("value", label)] []]]
          | none => [])]

/-- The list of modifiers that is displayed. -/
def modifierList (m : Modifiers) : List Xml :=
  shown [(hasBit m.type_modifier 8, "allocatable"), (hasBit m.type_modifier 16, "asynchronous")] ++
    (if hasBit m.type_modifier 32 then [bindCall m] else []) ++
    shown [(hasBit m.type_modifier 64, "data"), (hasBit m.type_modifier 256, "intent(in)"),
      (hasBit m.type_modifier 512, "intent(out)"), (hasBit m.type_modifier 1024, "intent(inout)"),
      (hasBit m.type_modifier 2048, "intrinsic"), (hasBit m.type_modifier 4096, "optional"),
      (hasBit m.type_modifier 8192, "type_modifier8192"),
      (hasBit m.type_modifier 16384, "type_modifier16384"), (hasBit m.type_modifier 32768, "save"),
      (hasBit m.type_modifier 65536, "target"), (hasBit m.type_modifier 131072, "value"),
      (m.access_modifier == some 1, "private"), (m.access_modifier == some 3, "public"),
      (m.cv_modifier == some 2, "parameter"), (m.cv_modifier == some 3, "volatile"),
      (m.storage_modifier == some 2, "external")]

/-- How often a name is in a list of modifiers. -/
def countValue (value : String) (list : List Xml) : Nat :=
  (named "SgStringVal" list).countP fun x => x.attr "value" == some value.toList

/-- The attributes that `unvardec` reads from a list of modifiers. -/
def restoredModifiers (declaration_modifier : Option Nat) (list : List Xml) : Modifiers where
  declaration_modifier := declaration_modifier
  type_modifier := some (2 + countValue "allocatable" list * 8 +
    countValue "asynchronous" list * 16 + (named "SgFunctionCallExp" list).length * 32 +
    countValue "data" list * 64 + countValue "intent(in)" list * 256 +
    countValue "intent(out)" list * 512 + countValue "intent(inout)" list * 1024 +
    countValue "intrinsic" list * 2048 + countValue "optional" list * 4096 +
    countValue "save" list * 32768 + countValue "target" list * 65536 +
    countValue "value" list * 131072)
  cv_modifier := some (0 + countValue "parameter" list * 2 + countValue "volatile" list * 3)
  access_modifier := some (countValue "private" list * 1 + countValue "public" list * 3 +
    (if countValue "private" list + countValue "public" list = 0 then 1 else 0) * 4)
  storage_modifier := some (0 + countValue "external" list * 2)
  link :=
    if named "SgFunctionCallExp" list = [] then none
    else some (valueOf "name" (path ["SgFunctionCallExp", "SgExprListExp", "SgVarRefExp"] list))
  bind :=
    let labels := path ["SgFunctionCallExp", "SgExprListExp", "SgActualArgumentExpression"] list
    if named "SgFunctionCallExp" list = [] ∨ labels = [] then none
    else some (valueOf "value" (labels.flatMap fun x => named "SgStringVal" x.children))

end Stylesheets

section Values

/-- The number of the type modifiers. A declaration without one has the default. -/
def Modifiers.typeWord (m : Modifiers) : Nat := m.type_modifier.getD 2

/-- What a declaration is bound to: the linkage, and the label if there is one. -/
def Modifiers.binding (m : Modifiers) : Option (Text × Option Text) :=
  if hasBit m.type_modifier 32 then some (m.link.getD [], m.bind) else none

/-- A number that stands for a modifier with a name. -/
def withName (named : List Nat) (modifier : Option Nat) : Option Nat :=
  modifier.filter fun v => named.contains v

/-- The same modifiers with the same values, as far as they have names. -/
structure SameValues (m m' : Modifiers) : Prop where
  declaration : m'.declaration_modifier = m.declaration_modifier
  type : m'.typeWord = m.typeWord
  binding : m'.binding = m.binding
  cv : withName [2, 3] m'.cv_modifier = withName [2, 3] m.cv_modifier
  access : withName [1, 3] m'.access_modifier = withName [1, 3] m.access_modifier
  storage : withName [2] m'.storage_modifier = withName [2] m.storage_modifier

/-- The bits with a name that is looked for on the way back. -/
def knownBits : List Nat := [3, 4, 5, 6, 8, 9, 10, 11, 12, 15, 16, 17]

/-- The default bit is set, and every other bit has a name that is looked for. -/
def Modifiers.Known (m : Modifiers) : Prop :=
  m.typeWord.testBit 1 = true ∧ ∀ i, m.typeWord.testBit i = true → i = 1 ∨ i ∈ knownBits

end Values

section Bits

/-- The two remainders give a bit. -/
theorem hasBit_iff (w i : Nat) : hasBit (some w) (2 ^ i) = w.testBit i := by
  have hmod := Nat.mod_mul (x := w) (a := 2 ^ i) (b := 2)
  have hpos : 0 < 2 ^ i := Nat.two_pow_pos i
  rw [hasBit, Nat.testBit_eq_decide_div_mod_eq, Nat.mul_comm 2, hmod, Nat.add_sub_cancel_left,
    Bool.eq_iff_iff, beq_iff_eq, decide_eq_true_iff]
  rcases Nat.mod_two_eq_zero_or_one (w / 2 ^ i) with h | h
  · rw [h]
    omega
  · rw [h]
    omega

/-- A declaration without a number has the default, in which no bit with a name is set. -/
theorem hasBit_typeWord (m : Modifiers) {i : Nat} (h : i ≠ 1) :
    hasBit m.type_modifier (2 ^ i) = m.typeWord.testBit i := by
  cases hw : m.type_modifier with
  | some w =>
      rw [hasBit_iff, Modifiers.typeWord, hw]
      rfl
  | none =>
      have hword : m.typeWord = 2 ^ 1 := by
        rw [Modifiers.typeWord, hw]
        rfl
      rw [hasBit, hword, Nat.testBit_two_pow_of_ne (Ne.symm h)]

end Bits

section Counts

theorem named_append_length (name : String) (a b : List Xml) :
    (named name (a ++ b)).length = (named name a).length + (named name b).length := by
  rw [named_append, List.length_append]

theorem countValue_append (value : String) (a b : List Xml) :
    countValue value (a ++ b) = countValue value a + countValue value b := by
  rw [countValue, named_append, List.countP_append, countValue, countValue]

theorem countValue_modifierVal (value name : String) :
    countValue value [modifierVal name] = if name = value then 1 else 0 := by
  have hvalue : (some name.toList == some value.toList) = decide (name = value) := by
    rw [Bool.eq_iff_iff, beq_iff_eq, decide_eq_true_iff, Option.some.injEq, String.toList_inj]
  simp [countValue, modifierVal, List.countP_cons, hvalue]

theorem countValue_shown (value : String) (tests : List (Bool × String)) :
    countValue value (shown tests) = tests.countP fun t => t.1 && decide (t.2 = value) := by
  induction tests with
  | nil => rfl
  | cons t tests ih =>
      rw [shown, List.flatMap_cons, ← shown, countValue_append, ih, List.countP_cons, Nat.add_comm]
      congr 1
      cases t.1 with
      | false => rfl
      | true =>
          rw [if_pos rfl, countValue_modifierVal]
          simp

theorem countValue_bindCall (value : String) (m : Modifiers) (b : Bool) :
    countValue value (if b then [bindCall m] else []) = 0 := by
  cases b <;> simp [countValue, bindCall]

theorem calls_shown (tests : List (Bool × String)) :
    named "SgFunctionCallExp" (shown tests) = [] := by
  induction tests with
  | nil => rfl
  | cons t tests ih =>
      rw [shown, List.flatMap_cons, ← shown, named_append, ih, List.append_nil]
      cases t.1 <;> simp [modifierVal]

/-- The only call in the list is the one for `bind`. -/
theorem calls_modifierList (m : Modifiers) :
    named "SgFunctionCallExp" (modifierList m) =
      if hasBit m.type_modifier 32 then [bindCall m] else [] := by
  rw [modifierList, named_append, named_append, calls_shown, calls_shown, List.nil_append,
    List.append_nil]
  cases hasBit m.type_modifier 32 <;> simp [bindCall]

theorem countValue_modifierList (value : String) (m : Modifiers) :
    countValue value (modifierList m) =
      [(m.typeWord.testBit 3, "allocatable"), (m.typeWord.testBit 4, "asynchronous"),
        (m.typeWord.testBit 6, "data"), (m.typeWord.testBit 8, "intent(in)"),
        (m.typeWord.testBit 9, "intent(out)"), (m.typeWord.testBit 10, "intent(inout)"),
        (m.typeWord.testBit 11, "intrinsic"), (m.typeWord.testBit 12, "optional"),
        (m.typeWord.testBit 13, "type_modifier8192"),
        (m.typeWord.testBit 14, "type_modifier16384"), (m.typeWord.testBit 15, "save"),
        (m.typeWord.testBit 16, "target"), (m.typeWord.testBit 17, "value"),
        (m.access_modifier == some 1, "private"), (m.access_modifier == some 3, "public"),
        (m.cv_modifier == some 2, "parameter"), (m.cv_modifier == some 3, "volatile"),
        (m.storage_modifier == some 2, "external")].countP
          fun t => t.1 && decide (t.2 = value) := by
  have hbit {i : Nat} (h : i ≠ 1) := hasBit_typeWord m h
  rw [modifierList, countValue_append, countValue_append, countValue_bindCall, Nat.add_zero,
    countValue_shown, countValue_shown, ← List.countP_append,
    ← hbit (i := 3) (by decide), ← hbit (i := 4) (by decide), ← hbit (i := 6) (by decide),
    ← hbit (i := 8) (by decide), ← hbit (i := 9) (by decide), ← hbit (i := 10) (by decide),
    ← hbit (i := 11) (by decide), ← hbit (i := 12) (by decide), ← hbit (i := 13) (by decide),
    ← hbit (i := 14) (by decide), ← hbit (i := 15) (by decide), ← hbit (i := 16) (by decide),
    ← hbit (i := 17) (by decide)]
  rfl

theorem sum_map_filter {α : Type} (p : α → Bool) (f : α → Nat) (l : List α) :
    ((l.filter p).map f).sum = (l.map fun a => if p a then f a else 0).sum := by
  induction l with
  | nil => rfl
  | cons a l ih =>
      rw [List.filter_cons, List.map_cons, List.sum_cons, ← ih]
      split_ifs with h
      · rw [List.map_cons, List.sum_cons]
      · rw [Nat.zero_add]

/-- The bits that come back are the default bit and those with a name that is looked for. -/
theorem restored_type (declaration_modifier : Option Nat) (m : Modifiers) :
    (restoredModifiers declaration_modifier (modifierList m)).typeWord =
      ((1 :: knownBits.filter m.typeWord.testBit).map (2 ^ ·)).sum := by
  have hcalls : (named "SgFunctionCallExp" (modifierList m)).length =
      if m.typeWord.testBit 5 = true then 1 else 0 := by
    have hbit : hasBit m.type_modifier 32 = m.typeWord.testBit 5 :=
      hasBit_typeWord m (i := 5) (by decide)
    rw [calls_modifierList, hbit]
    cases m.typeWord.testBit 5 <;> rfl
  rw [Modifiers.typeWord, restoredModifiers, Option.getD_some, hcalls, List.map_cons,
    List.sum_cons, sum_map_filter]
  simp only [countValue_modifierList]
  simp [knownBits, List.countP_cons, Nat.add_assoc]

theorem sortedLT_known (m : Modifiers) :
    (1 :: knownBits.filter m.typeWord.testBit).SortedLT := by
  have hall : (1 :: knownBits).Pairwise (· < ·) := by decide
  refine List.sortedLT_iff_pairwise.mpr (hall.sublist ?_)
  exact List.Sublist.cons_cons 1 List.filter_sublist

/-- The word comes back exactly if every bit of it does. -/
theorem restored_type_eq_iff (declaration_modifier : Option Nat) (m : Modifiers) :
    (restoredModifiers declaration_modifier (modifierList m)).typeWord = m.typeWord ↔ m.Known := by
  have hsorted := sortedLT_known m
  have hmem (i : Nat) : i ∈ 1 :: knownBits.filter m.typeWord.testBit ↔
      i = 1 ∨ i ∈ knownBits ∧ m.typeWord.testBit i = true := by
    rw [List.mem_cons, List.mem_filter]
  rw [restored_type]
  constructor
  · intro h
    have hbits : m.typeWord.bitIndices = 1 :: knownBits.filter m.typeWord.testBit := by
      rw [← Nat.bitIndices_sum_map_two_pow hsorted, h]
    have hset (i : Nat) : m.typeWord.testBit i = true ↔
        i = 1 ∨ i ∈ knownBits ∧ m.typeWord.testBit i = true := by
      rw [← hmem, ← hbits, Nat.mem_bitIndices]
    exact ⟨(hset 1).mpr (.inl rfl), fun i hi => ((hset i).mp hi).imp_right And.left⟩
  · rintro ⟨hone, hknown⟩
    have hbits : 1 :: knownBits.filter m.typeWord.testBit = m.typeWord.bitIndices := by
      refine List.SortedLT.eq_of_mem_iff hsorted Nat.bitIndices_sorted fun i => ?_
      rw [hmem, Nat.mem_bitIndices]
      constructor
      · rintro (rfl | ⟨-, hi⟩)
        · exact hone
        · exact hi
      · exact fun hi => (hknown i hi).imp_right fun hmem => ⟨hmem, hi⟩
    rw [hbits, Nat.sum_map_two_pow_bitIndices]

/-- Whether a known bit is among those that come back. -/
theorem testBit_restored_type (declaration_modifier : Option Nat) (m : Modifiers) {i : Nat}
    (h : i ∈ knownBits) :
    (restoredModifiers declaration_modifier (modifierList m)).typeWord.testBit i =
      m.typeWord.testBit i := by
  have hone : i ≠ 1 := fun hi => absurd (hi ▸ h) (by decide)
  rw [Bool.eq_iff_iff, ← Nat.mem_bitIndices, restored_type,
    Nat.bitIndices_sum_map_two_pow (sortedLT_known m), List.mem_cons, List.mem_filter]
  exact ⟨fun hi => (hi.resolve_left hone).2, fun hi => .inr ⟨h, hi⟩⟩

/-- The call shows what the declaration is bound to. -/
theorem binding_restored (declaration_modifier : Option Nat) (m : Modifiers) :
    (restoredModifiers declaration_modifier (modifierList m)).binding = m.binding := by
  have hbit := hasBit_typeWord m (i := 5) (by decide)
  have hbit' := hasBit_typeWord (restoredModifiers declaration_modifier (modifierList m)) (i := 5)
    (by decide)
  rw [testBit_restored_type declaration_modifier m (by decide), ← hbit] at hbit'
  rw [Modifiers.binding, Modifiers.binding]
  change hasBit _ 32 = hasBit _ 32 at hbit'
  rw [hbit']
  by_cases h : hasBit m.type_modifier 32 = true
  · have hcalls : named "SgFunctionCallExp" (modifierList m) = [bindCall m] := by
      rw [calls_modifierList, if_pos h]
    rw [if_pos h, if_pos h, restoredModifiers]
    simp only [path_cons_cons, hcalls]
    cases hbind : m.bind <;> simp [bindCall, hbind, path, valueOf, attributes]
  · rw [if_neg h, if_neg h]

theorem cv_restored (declaration_modifier : Option Nat) (m : Modifiers) :
    withName [2, 3] (restoredModifiers declaration_modifier (modifierList m)).cv_modifier =
      withName [2, 3] m.cv_modifier := by
  rw [restoredModifiers]
  simp only [countValue_modifierList]
  rcases m.cv_modifier with _ | _ | _ | _ | _ | n <;> simp [withName, Option.filter]

theorem access_restored (declaration_modifier : Option Nat) (m : Modifiers) :
    withName [1, 3] (restoredModifiers declaration_modifier (modifierList m)).access_modifier =
      withName [1, 3] m.access_modifier := by
  rw [restoredModifiers]
  simp only [countValue_modifierList]
  rcases m.access_modifier with _ | _ | _ | _ | _ | n <;> simp [withName, Option.filter]

theorem storage_restored (declaration_modifier : Option Nat) (m : Modifiers) :
    withName [2] (restoredModifiers declaration_modifier (modifierList m)).storage_modifier =
      withName [2] m.storage_modifier := by
  rw [restoredModifiers]
  simp only [countValue_modifierList]
  rcases m.storage_modifier with _ | _ | _ | _ | n <;> simp [withName, Option.filter]

/-- The modifiers come back with their values exactly if every bit has a name that is looked
    for. -/
theorem sameValues_restored_iff (m : Modifiers) :
    SameValues m (restoredModifiers m.declaration_modifier (modifierList m)) ↔ m.Known := by
  rw [← restored_type_eq_iff m.declaration_modifier]
  refine ⟨fun h => h.type, fun h => ⟨rfl, h, ?_, ?_, ?_, ?_⟩⟩
  · exact binding_restored _ m
  · exact cv_restored _ m
  · exact access_restored _ m
  · exact storage_restored _ m

end Counts

end XevXml.Tools.Vardec
