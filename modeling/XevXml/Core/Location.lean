import XevXml.Core.Numeral

/-!
# Paths in Documents

The part of XPath that looks for elements. A document is a tree of elements, and an element is
seen among its siblings, with those in front of it and those behind it. A step leads from one
element to others along an axis, keeps those with the right name, and then those that pass the
conditions in its brackets, from left to right. A number in brackets is a position among those
that are left, counted from one in the direction of the axis.

A literal is written inside an attribute of a stylesheet, so it is read before it is compared.
How it is read is a parameter. What is counted here is selected by steps that lead to each
element only once.

## Main definitions

* `Element`, `Spot`: Elements, and elements among their siblings.
* `Axis.spots`: Where an axis leads.
* `Step`, `Pred`, `Test`: Steps, and the conditions in their brackets.
* `selectAll`, `Test.holds`: What is selected, and what is true.
* `pathText`, `Test.text`: How they are written.

## Theorems

* `spotsFrom_getElem?`: The siblings from a place on, one by one.
* `selectAll_append`: Paths are followed one step after the other.
* `selectAll_position`: A path that leads to one element at most.
-/

namespace XevXml.Location

/-- An element of a document. -/
inductive Element
  | mk (name : String) (attrs : List (String × List Char)) (children : List Element)

namespace Element

def name : Element → String
  | mk name _ _ => name

def attrs : Element → List (String × List Char)
  | mk _ attrs _ => attrs

def children : Element → List Element
  | mk _ _ children => children

end Element

/-- An element among its siblings. Those in front of it are listed from the nearest one on. -/
structure Spot where
  before : List Element
  node : Element
  after : List Element

/-- Siblings with those in front of them. -/
def spotsFrom (before : List Element) : List Element → List Spot
  | [] => []
  | x :: xs => ⟨before, x, xs⟩ :: spotsFrom (x :: before) xs

/-- Siblings, from the last one on, with those behind them. -/
def spotsBack (after : List Element) : List Element → List Spot
  | [] => []
  | x :: xs => ⟨xs, x, after⟩ :: spotsBack (x :: after) xs

mutual

/-- All elements below an element. -/
def Element.inside : Element → List Spot
  | .mk _ _ cs => spotsBelow [] cs

/-- Siblings and all elements below them. -/
def spotsBelow (before : List Element) : List Element → List Spot
  | [] => []
  | x :: xs => ⟨before, x, xs⟩ :: (x.inside ++ spotsBelow (x :: before) xs)

end

inductive Axis
  | self
  | child
  | followingSibling
  | precedingSibling
  | descendantOrSelf
deriving DecidableEq

/-- Where an axis leads. -/
def Axis.spots : Axis → Spot → List Spot
  | self, s => [s]
  | child, s => spotsFrom [] s.node.children
  | followingSibling, s => spotsFrom (s.node :: s.before) s.after
  | precedingSibling, s => spotsBack (s.node :: s.after) s.before
  | descendantOrSelf, s => s :: s.node.inside

/-- How an axis is written. -/
def Axis.text : Axis → List Char
  | self => "self::".toList
  | child => []
  | followingSibling => "following-sibling::".toList
  | precedingSibling => "preceding-sibling::".toList
  | descendantOrSelf => "descendant-or-self::".toList

inductive NameTest
  | any
  | named (name : String)
deriving DecidableEq

namespace NameTest

def accepts : NameTest → String → Bool
  | any, _ => true
  | named name, n => n == name

def text : NameTest → List Char
  | any => ['*']
  | named name => name.toList

end NameTest

/-- What is counted at the end of a path. -/
inductive Counted
  | attributes (test : NameTest)
  | children (test : NameTest)

namespace Counted

def number (x : Element) : Counted → Nat
  | attributes test => x.attrs.countP fun a => test.accepts a.1
  | children test => x.children.countP fun c => test.accepts c.name

def text : Counted → List Char
  | attributes test => '@' :: test.text
  | children test => test.text

end Counted

/-- How a count is compared. -/
inductive Comparison
  | equal
  | atLeast
deriving DecidableEq

namespace Comparison

def holds : Comparison → Int → Nat → Bool
  | equal, m, n => m == n
  | atLeast, m, n => n ≤ m

def text : Comparison → List Char
  | equal => ['=']
  | atLeast => ['>', '=']

end Comparison

/-- The quotes around a literal. A double quote is written as a reference. -/
inductive Quote
  | double
  | single
deriving DecidableEq

namespace Quote

def char : Quote → Char
  | double => '"'
  | single => '\''

def text : Quote → List Char
  | double => "&quot;".toList
  | single => ['\'']

end Quote

mutual

/-- A step of a path. -/
inductive Step
  | mk (axis : Axis) (test : NameTest) (preds : List Pred)

/-- What stands in the brackets of a step. -/
inductive Pred
  | position (k : Int)
  | test (t : Test)

/-- What is true or false at an element. -/
inductive Test
  | elements (p : List Step)
  | either (p q : List Step)
  | attribute (p : List Step) (name : String)
  | equals (p : List Step) (name : String) (quote : Quote) (literal : List Char)
  | counts (p : List Step) (first : Counted) (minus : List Counted) (rel : Comparison) (n : Nat)
  | nonempty (p : List Step)
  | disj (ts : List Test)
  | conj (ts : List Test)
  | paren (t : Test)
  | neg (t : Test)

end

section Meaning

variable (reads : List Char → Option (List Char))

/-- The element at a position. -/
def atPosition (k : Int) (ss : List Spot) : List Spot :=
  if 1 ≤ k then (ss[(k - 1).toNat]?).toList else []

/-- What a literal says, if it does not end at a quote inside it. -/
def literalValue (quote : Quote) (literal : List Char) : Option (List Char) :=
  (reads literal).filter fun v => !v.contains quote.char

/-- A count without others. -/
def countOf (x : Element) (first : Counted) (minus : List Counted) : Int :=
  minus.foldl (fun n c => n - c.number x) (first.number x)

mutual

/-- Where a step leads. -/
def Step.select : Step → Spot → List Spot
  | .mk axis test preds, s =>
      filterAll preds ((axis.spots s).filter fun t => test.accepts t.node.name)

/-- What passes all conditions, one after the other. -/
def filterAll : List Pred → List Spot → List Spot
  | [], ss => ss
  | p :: ps, ss => filterAll ps (p.filter ss)

/-- What passes a condition. -/
def Pred.filter : Pred → List Spot → List Spot
  | .position k, ss => atPosition k ss
  | .test t, ss => ss.filter fun s => t.holds s

/-- Where a path leads. -/
def selectAll : List Step → List Spot → List Spot
  | [], ss => ss
  | step :: p, ss => selectAll p (ss.flatMap fun s => step.select s)

/-- Whether a test is true. -/
def Test.holds : Test → Spot → Bool
  | .elements p, s => !(selectAll p [s]).isEmpty
  | .either p q, s => !(selectAll p [s]).isEmpty || !(selectAll q [s]).isEmpty
  | .attribute p name, s => (selectAll p [s]).any fun t => t.node.attrs.any fun a => a.1 == name
  | .equals p name quote literal, s =>
      (selectAll p [s]).any fun t => t.node.attrs.any fun a =>
        a.1 == name && literalValue reads quote literal == some a.2
  | .counts p first minus rel n, s =>
      rel.holds (((selectAll p [s]).map fun t => countOf t.node first minus).sum) n
  | .nonempty p, s => !(selectAll p [s]).isEmpty
  | .disj ts, s => anyHolds ts s
  | .conj ts, s => allHold ts s
  | .paren t, s => t.holds s
  | .neg t, s => !t.holds s

def anyHolds : List Test → Spot → Bool
  | [], _ => false
  | t :: ts, s => t.holds s || anyHolds ts s

def allHold : List Test → Spot → Bool
  | [], _ => true
  | t :: ts, s => t.holds s && allHold ts s

end

end Meaning

section Writing

mutual

/-- How a step is written. -/
def Step.text : Step → List Char
  | .mk axis test preds => axis.text ++ test.text ++ predsText preds

def predsText : List Pred → List Char
  | [] => []
  | p :: ps => '[' :: p.text ++ ']' :: predsText ps

def Pred.text : Pred → List Char
  | .position k => Numeral.printInt k
  | .test t => t.text

/-- A path with something behind it. -/
def prefixText : List Step → List Char
  | [] => []
  | step :: p => step.text ++ '/' :: prefixText p

/-- How a test is written. A path ends without the slash. -/
def Test.text : Test → List Char
  | .elements p => (prefixText p).dropLast
  | .either p q => (prefixText p).dropLast ++ '|' :: (prefixText q).dropLast
  | .attribute p name => prefixText p ++ '@' :: name.toList
  | .equals p name quote literal =>
      prefixText p ++ '@' :: name.toList ++ '=' :: quote.text ++ literal ++ quote.text
  | .counts p first minus rel n =>
      let counted := fun c : Counted => "count(".toList ++ prefixText p ++ c.text ++ [')']
      counted first ++ minus.flatMap (fun c => '-' :: counted c) ++ rel.text ++ Numeral.printNat n
  | .nonempty p => "count(".toList ++ (prefixText p).dropLast ++ ")>0".toList
  | .disj ts => joinText " or ".toList ts
  | .conj ts => joinText " and ".toList ts
  | .paren t => '(' :: t.text ++ [')']
  | .neg t => "not(".toList ++ t.text ++ [')']

/-- Tests with a word between them. -/
def joinText (word : List Char) : List Test → List Char
  | [] => []
  | t :: ts => t.text ++ (if ts.isEmpty then [] else word ++ joinText word ts)

end

end Writing

section Siblings

theorem spotsFrom_getElem? (before xs : List Element) (i : Nat) :
    (spotsFrom before xs)[i]? =
      xs[i]?.map fun x => ⟨(xs.take i).reverse ++ before, x, xs.drop (i + 1)⟩ := by
  induction xs generalizing before i with
  | nil => rfl
  | cons x xs ih =>
      cases i with
      | zero => rfl
      | succ i =>
          rw [spotsFrom, List.getElem?_cons_succ, List.getElem?_cons_succ, ih, List.take_succ_cons,
            List.reverse_cons, List.append_assoc, List.drop_succ_cons]
          rfl

theorem spotsBack_getElem? (after xs : List Element) (i : Nat) :
    (spotsBack after xs)[i]? =
      xs[i]?.map fun x => ⟨xs.drop (i + 1), x, (xs.take i).reverse ++ after⟩ := by
  induction xs generalizing after i with
  | nil => rfl
  | cons x xs ih =>
      cases i with
      | zero => rfl
      | succ i =>
          rw [spotsBack, List.getElem?_cons_succ, List.getElem?_cons_succ, ih, List.take_succ_cons,
            List.reverse_cons, List.append_assoc, List.drop_succ_cons]
          rfl

/-- Siblings keep their order. -/
theorem map_node_spotsFrom (before xs : List Element) :
    (spotsFrom before xs).map Spot.node = xs := by
  induction xs generalizing before with
  | nil => rfl
  | cons x xs ih => rw [spotsFrom, List.map_cons, ih]

end Siblings

section Paths

variable (reads : List Char → Option (List Char))

/-- Paths are followed one step after the other. -/
theorem selectAll_append (p q : List Step) (ss : List Spot) :
    selectAll reads (p ++ q) ss = selectAll reads q (selectAll reads p ss) := by
  induction p generalizing ss with
  | nil => rw [List.nil_append, selectAll]
  | cons step p ih => rw [List.cons_append, selectAll, selectAll, ih]

/-- The element at a position along an axis. -/
def Axis.at (axis : Axis) (k : Int) : Step := .mk axis .any [.position k]

theorem select_at (axis : Axis) (k : Int) (s : Spot) :
    (axis.at k).select reads s = atPosition k (axis.spots s) := by
  have hall : ((axis.spots s).filter fun t => NameTest.any.accepts t.node.name) = axis.spots s :=
    List.filter_eq_self.mpr fun _ _ => rfl
  rw [Axis.at, Step.select, hall, filterAll, Pred.filter, filterAll]

/-- One step from one element. -/
theorem selectAll_one (step : Step) (s : Spot) :
    selectAll reads [step] [s] = step.select reads s := by
  rw [selectAll, selectAll, List.flatMap_singleton]

theorem select_any (axis : Axis) (s : Spot) :
    (Step.mk axis .any []).select reads s = axis.spots s := by
  rw [Step.select, filterAll]
  exact List.filter_eq_self.mpr fun _ _ => rfl

theorem select_self (test : NameTest) (s : Spot) :
    (Step.mk .self test []).select reads s = if test.accepts s.node.name then [s] else [] := by
  rw [Step.select, filterAll, Axis.spots, List.filter_cons, List.filter_nil]

end Paths

section Tests

variable (reads : List Char → Option (List Char))

theorem allHold_iff (ts : List Test) (s : Spot) :
    allHold reads ts s = true ↔ ∀ t ∈ ts, t.holds reads s = true := by
  induction ts with
  | nil => simp [allHold]
  | cons t ts ih => rw [allHold, Bool.and_eq_true, ih, List.forall_mem_cons]

theorem anyHolds_iff (ts : List Test) (s : Spot) :
    anyHolds reads ts s = true ↔ ∃ t ∈ ts, t.holds reads s = true := by
  induction ts with
  | nil => simp [anyHolds]
  | cons t ts ih => rw [anyHolds, Bool.or_eq_true, ih, List.exists_mem_cons_iff]

theorem allHold_append_iff (ts us : List Test) (s : Spot) :
    allHold reads (ts ++ us) s = true ↔
      allHold reads ts s = true ∧ allHold reads us s = true := by
  rw [allHold_iff, allHold_iff, allHold_iff, List.forall_mem_append]

theorem allHold_singleton_iff (t : Test) (s : Spot) :
    allHold reads [t] s = true ↔ t.holds reads s = true := by
  rw [allHold_iff, List.forall_mem_singleton]

/-- Tests in brackets one behind the other are all true. -/
theorem filterAll_tests (ts : List Test) (ss : List Spot) :
    filterAll reads (ts.map .test) ss = ss.filter fun s => allHold reads ts s := by
  induction ts generalizing ss with
  | nil =>
      rw [List.map_nil, filterAll]
      exact (List.filter_eq_self.mpr fun _ _ => rfl).symm
  | cons t ts ih =>
      rw [List.map_cons, filterAll, ih, Pred.filter, List.filter_filter]
      refine List.filter_congr fun s _ => ?_
      rw [allHold, Bool.and_comm]

end Tests

section Onward

/-- An element and those behind it. -/
def Spot.onward (s : Spot) : List Element := s.node :: s.after

/-- The elements from one of them on, if it is there. -/
def startingAt (es : List Element) (i : Nat) : Option (List Element) :=
  if i < es.length then some (es.drop i) else none

theorem startingAt_tail (es : List Element) (i : Nat) :
    startingAt es.tail i = startingAt es (i + 1) := by
  cases es with
  | nil => rfl
  | cons e es =>
      by_cases hi : i < es.length
      · rw [startingAt, startingAt, List.tail_cons, if_pos hi, List.drop_succ_cons,
          if_pos (by rw [List.length_cons]; omega)]
      · rw [startingAt, startingAt, List.tail_cons, if_neg hi,
          if_neg (by rw [List.length_cons]; omega)]

theorem startingAt_append (ds es : List Element) (i : Nat) (h : ds.length ≤ i) :
    startingAt (ds ++ es) i = startingAt es (i - ds.length) := by
  have hdrop : (ds ++ es).drop i = es.drop (i - ds.length) := by
    rw [List.drop_append, List.drop_of_length_le h, List.nil_append]
  unfold startingAt
  rw [hdrop, List.length_append]
  by_cases hi : i < ds.length + es.length
  · rw [if_pos hi, if_pos (by omega)]
  · rw [if_neg hi, if_neg (by omega)]

theorem onward_spotsFrom (before es : List Element) (i : Nat) :
    (spotsFrom before es)[i]?.map Spot.onward = startingAt es i := by
  rw [spotsFrom_getElem?, Option.map_map, startingAt]
  by_cases hi : i < es.length
  · rw [if_pos hi, List.getElem?_eq_getElem hi, Option.map_some, List.drop_eq_getElem_cons hi]
    rfl
  · rw [if_neg hi, List.getElem?_eq_none (by omega)]
    rfl

theorem onward_spotsBack (after es : List Element) (i : Nat) (hi : i < es.length) :
    (spotsBack after es)[i]?.map Spot.onward = some ((es.take (i + 1)).reverse ++ after) := by
  rw [spotsBack_getElem?, Option.map_map, List.getElem?_eq_getElem hi, Option.map_some,
    List.take_succ_eq_append_getElem hi, List.reverse_append, List.reverse_singleton]
  rfl

/-- What is true of all siblings from one of them on. -/
theorem exists_onward_iff (before es : List Element) (P : List Element → Prop) :
    (∃ s ∈ spotsFrom before es, P s.onward) ↔ ∃ i, i < es.length ∧ P (es.drop i) := by
  induction es generalizing before with
  | nil => simp [spotsFrom]
  | cons e es ih =>
      rw [spotsFrom, List.exists_mem_cons_iff, ih]
      constructor
      · rintro (h | ⟨i, hi, h⟩)
        · exact ⟨0, Nat.succ_pos _, h⟩
        · exact ⟨i + 1, Nat.succ_lt_succ hi, h⟩
      · rintro ⟨i, hi, h⟩
        cases i with
        | zero => exact Or.inl h
        | succ i => exact Or.inr ⟨i, Nat.lt_of_succ_lt_succ hi, h⟩

theorem onward_of_mem {before es : List Element} {s : Spot} (h : s ∈ spotsFrom before es) :
    ∃ i, i < es.length ∧ es.drop i = s.onward :=
  (exists_onward_iff before es fun ds => ds = s.onward).mp ⟨s, h, rfl⟩

end Onward

section Single

variable (reads : List Char → Option (List Char))

/-- The element at a position along an axis. -/
def Spot.along (s : Spot) (axis : Axis) (k : Int) : Option Spot :=
  if 1 ≤ k then (axis.spots s)[(k - 1).toNat]? else none

/-- The path leads to one element at most. -/
def Leads (p : List Step) (s : Spot) (o : Option Spot) : Prop := selectAll reads p [s] = o.toList

theorem onward_child (s : Spot) (i : Nat) :
    (s.along .child (1 + i)).map Spot.onward = startingAt s.node.children i := by
  have hi : (1 + (i : Int) - 1).toNat = i := by omega
  rw [Spot.along, if_pos (by omega), hi]
  exact onward_spotsFrom [] s.node.children i

theorem onward_following (s : Spot) (i : Nat) :
    (s.along .followingSibling (i + 1)).map Spot.onward = startingAt s.onward (i + 1) := by
  rw [Spot.along, if_pos (by omega), Int.add_sub_cancel, Int.toNat_natCast, Spot.onward,
    ← startingAt_tail, List.tail_cons]
  exact onward_spotsFrom (s.node :: s.before) s.after i

theorem onward_preceding (s : Spot) (i : Nat) (hi : i < s.before.length) :
    (s.along .precedingSibling (i + 1)).map Spot.onward =
      some ((s.before.take (i + 1)).reverse ++ s.onward) := by
  rw [Spot.along, if_pos (by omega), Int.add_sub_cancel, Int.toNat_natCast]
  exact onward_spotsBack (s.node :: s.after) s.before i hi

theorem leads_nil (s : Spot) : Leads reads [] s (some s) := by
  rw [Leads, selectAll]
  rfl

theorem leads_at {p : List Step} {s : Spot} {o : Option Spot} (h : Leads reads p s o)
    (axis : Axis) (k : Int) :
    Leads reads (p ++ [axis.at k]) s (o.bind fun t => t.along axis k) := by
  rw [Leads, selectAll_append, h]
  cases o with
  | none => rfl
  | some t =>
      rw [Option.toList_some, selectAll_one, select_at, atPosition, Option.bind_some, Spot.along]
      split <;> rfl

theorem leads_self {p : List Step} {s : Spot} {o : Option Spot} (h : Leads reads p s o)
    (test : NameTest) :
    Leads reads (p ++ [.mk .self test []]) s (o.filter fun t => test.accepts t.node.name) := by
  rw [Leads, selectAll_append, h]
  cases o with
  | none => rfl
  | some t =>
      rw [Option.toList_some, selectAll_one, select_self, Option.filter_some]
      split <;> rfl

variable {reads} {p : List Step} {s : Spot} {o : Option Spot}

theorem holds_elements_iff (h : Leads reads p s o) :
    (Test.elements p).holds reads s = true ↔ o.isSome = true := by
  rw [Test.holds, h]
  cases o <;> simp

theorem holds_nonempty_iff (h : Leads reads p s o) (q : List Step) :
    (Test.nonempty (p ++ q)).holds reads s = true ↔
      ∃ t, o = some t ∧ selectAll reads q [t] ≠ [] := by
  rw [Test.holds, selectAll_append, h]
  cases o with
  | none =>
      have hnil : ∀ q : List Step, selectAll reads q [] = [] := by
        intro q
        induction q with
        | nil => rw [selectAll]
        | cons step q ih => rw [selectAll, List.flatMap_nil, ih]
      simp [hnil]
  | some t => simp

theorem holds_attribute_iff (h : Leads reads p s o) (name : String) :
    (Test.attribute p name).holds reads s = true ↔
      ∃ t, o = some t ∧ name ∈ t.node.attrs.map Prod.fst := by
  rw [Test.holds, h]
  cases o <;> simp

theorem holds_equals_iff (h : Leads reads p s o) (name : String) (quote : Quote)
    (literal : List Char) :
    (Test.equals p name quote literal).holds reads s = true ↔
      ∃ t v, o = some t ∧ literalValue reads quote literal = some v ∧ (name, v) ∈ t.node.attrs := by
  rw [Test.holds, h]
  cases o with
  | none => simp
  | some t =>
      rw [Option.toList_some, List.any_cons, List.any_nil, Bool.or_false, List.any_eq_true]
      constructor
      · rintro ⟨a, ha, heq⟩
        rw [Bool.and_eq_true, beq_iff_eq, beq_iff_eq] at heq
        obtain ⟨rfl, hv⟩ := heq
        exact ⟨t, a.2, rfl, hv, ha⟩
      · rintro ⟨t', v, ht, hv, hmem⟩
        cases ht
        exact ⟨(name, v), hmem, by simp [hv]⟩

theorem holds_counts_iff {t : Spot} (h : Leads reads p s (some t)) (first : Counted)
    (minus : List Counted) (rel : Comparison) (n : Nat) :
    (Test.counts p first minus rel n).holds reads s = rel.holds (countOf t.node first minus) n := by
  rw [Test.holds, h, Option.toList_some, List.map_singleton, List.sum_singleton]

end Single

section Counts

theorem countP_or {α : Type} (p q : α → Bool) (l : List α)
    (h : ∀ a ∈ l, p a = true → q a = false) :
    (l.countP fun a => p a || q a) = l.countP p + l.countP q := by
  induction l with
  | nil => rfl
  | cons a l ih =>
      have ih := ih fun b hb => h b (List.mem_cons_of_mem a hb)
      rw [List.countP_cons, List.countP_cons, List.countP_cons, ih]
      cases hp : p a with
      | false => simp; omega
      | true => rw [h a List.mem_cons_self hp]; simp; omega

/-- What is counted for one name after the other is counted for all of them. -/
theorem foldl_minus {α : Type} (f : α → String) (l : List α) (names : List String)
    (h : names.Nodup) (m : Int) :
    names.foldl (fun k n => k - ((l.countP fun a => f a == n : Nat) : Int)) m =
      m - ((l.countP fun a => names.contains (f a) : Nat) : Int) := by
  induction names generalizing m with
  | nil => simp
  | cons n names ih =>
      obtain ⟨hn, hnames⟩ := List.nodup_cons.mp h
      have hor : (l.countP fun a => (n :: names).contains (f a)) =
          (l.countP fun a => f a == n) + l.countP fun a => names.contains (f a) := by
        rw [← countP_or]
        · refine List.countP_congr fun a _ => ?_
          rw [List.contains_cons]
        · intro a _ ha
          rw [eq_of_beq ha]
          exact Bool.eq_false_iff.mpr fun hc => hn (List.contains_iff_mem.mp hc)
      rw [List.foldl_cons, ih hnames, hor]
      omega

theorem length_minus {α : Type} (f : α → String) (l : List α) (names : List String) :
    (l.length : Int) - ((l.countP fun a => names.contains (f a) : Nat) : Int) =
      ((l.countP fun a => !names.contains (f a) : Nat) : Int) := by
  have hlen := List.length_eq_countP_add_countP (fun a => names.contains (f a)) (l := l)
  have hnot : (l.countP fun a => decide ¬names.contains (f a) = true) =
      l.countP fun a => !names.contains (f a) := by
    refine List.countP_congr fun a _ => ?_
    simp
  omega

/-- The attributes without some of them. -/
theorem countOf_attributes (x : Element) (names : List String) (h : names.Nodup) :
    countOf x (.attributes .any) (names.map fun n => .attributes (.named n)) =
      ((x.attrs.countP fun a => !names.contains a.1 : Nat) : Int) := by
  have hall : Counted.number x (.attributes .any) = x.attrs.length :=
    List.countP_eq_length.mpr fun _ _ => rfl
  rw [countOf, List.foldl_map, hall, ← length_minus fun a : String × List Char => a.1,
    ← foldl_minus _ _ _ h]
  rfl

/-- The children without some of them. -/
theorem countOf_children (x : Element) (names : List String) (h : names.Nodup) :
    countOf x (.children .any) (names.map fun n => .children (.named n)) =
      ((x.children.countP fun c => !names.contains c.name : Nat) : Int) := by
  have hall : Counted.number x (.children .any) = x.children.length :=
    List.countP_eq_length.mpr fun _ _ => rfl
  rw [countOf, List.foldl_map, hall, ← length_minus Element.name, ← foldl_minus _ _ _ h]
  rfl

end Counts

section Agreement

variable {β γ : Type}

theorem lookup_eq_some_iff_mem {l : List (String × β)} (h : (l.map Prod.fst).Nodup) (n : String)
    (v : β) : l.lookup n = some v ↔ (n, v) ∈ l := by
  induction l with
  | nil => simp
  | cons a l ih =>
      rw [List.map_cons, List.nodup_cons] at h
      rw [List.lookup_cons, List.mem_cons]
      by_cases hn : n = a.1
      · rw [hn, beq_self_eq_true]
        constructor
        · intro hv
          exact Or.inl (Prod.ext rfl (Option.some.inj hv).symm)
        · rintro (hv | hv)
          · rw [← hv]
          · exact absurd (List.mem_map_of_mem hv) h.1
      · rw [beq_eq_false_iff_ne.mpr hn]
        exact (ih h.2).trans ⟨Or.inr, fun hv => hv.resolve_left fun he => hn (congrArg Prod.fst he)⟩

theorem lookup_isSome_iff_mem (l : List (String × β)) (n : String) :
    (l.lookup n).isSome = true ↔ n ∈ l.map Prod.fst := by
  rw [List.lookup_isSome_iff, List.mem_map]
  refine exists_congr fun a => and_congr_right fun _ => ?_
  rw [beq_iff_eq, eq_comm]

/-- Two lists with keys agree on some of the keys if the entries of one of them are in the other
    and there are as many. -/
theorem agree_iff {l : List (String × β)} {m : List (String × γ)} (hl : (l.map Prod.fst).Nodup)
    (hm : (m.map Prod.fst).Nodup) (keep : String → Bool) (rel : String → β → γ → Prop) :
    ((∀ a ∈ l.filter fun a => keep a.1, ∃ w, (a.1, w) ∈ m ∧ rel a.1 a.2 w) ∧
        (m.countP fun b => keep b.1) = (l.filter fun a => keep a.1).length) ↔
      ∀ n, keep n = true → Option.Rel (rel n) (l.lookup n) (m.lookup n) := by
  have hkeys : ∀ {δ : Type} (k : List (String × δ)) (n : String),
      n ∈ (k.filter fun a => keep a.1).map Prod.fst ↔ keep n = true ∧ n ∈ k.map Prod.fst := by
    intro δ k n
    simp only [List.mem_map, List.mem_filter]
    constructor
    · rintro ⟨a, ⟨ha, hk⟩, rfl⟩
      exact ⟨hk, a, ha, rfl⟩
    · rintro ⟨hk, a, ha, rfl⟩
      exact ⟨a, ⟨ha, hk⟩, rfl⟩
  have hnodup : ∀ {δ : Type} {k : List (String × δ)}, (k.map Prod.fst).Nodup →
      ((k.filter fun a => keep a.1).map Prod.fst).Nodup := fun hk =>
    (List.filter_sublist.map Prod.fst).nodup hk
  constructor
  · rintro ⟨hin, hcount⟩ n hn
    -- The keys that are kept in one list are among those of the other, and there are as many.
    have hsub : (l.filter fun a => keep a.1).map Prod.fst ⊆
        (m.filter fun b => keep b.1).map Prod.fst := by
      intro k hk
      obtain ⟨a, ha, rfl⟩ := List.mem_map.mp hk
      obtain ⟨w, hw, -⟩ := hin a ha
      exact (hkeys m a.1).mpr ⟨(List.mem_filter.mp ha).2, List.mem_map_of_mem hw⟩
    have hperm := (List.subperm_of_subset (hnodup hl) hsub).perm_of_length_le (by
      rw [List.length_map, List.length_map, ← hcount, List.countP_eq_length_filter])
    cases hv : l.lookup n with
    | some v =>
        have hmem := (lookup_eq_some_iff_mem hl n v).mp hv
        obtain ⟨w, hw, hrel⟩ := hin (n, v) (List.mem_filter.mpr ⟨hmem, hn⟩)
        rw [(lookup_eq_some_iff_mem hm n w).mpr hw]
        exact Option.Rel.some hrel
    | none =>
        cases hw : m.lookup n with
        | none => exact Option.Rel.none
        | some w =>
            have hmem := (hkeys m n).mpr
              ⟨hn, List.mem_map_of_mem ((lookup_eq_some_iff_mem hm n w).mp hw)⟩
            obtain ⟨a, ha, rfl⟩ := List.mem_map.mp (hperm.symm.subset hmem)
            have hsome := (lookup_eq_some_iff_mem hl a.1 a.2).mpr (List.mem_filter.mp ha).1
            rw [hv] at hsome
            cases hsome
  · intro h
    have hin : ∀ a ∈ l.filter fun a => keep a.1, ∃ w, (a.1, w) ∈ m ∧ rel a.1 a.2 w := by
      intro a ha
      obtain ⟨hmem, hk⟩ := List.mem_filter.mp ha
      have hrel := h a.1 hk
      rw [(lookup_eq_some_iff_mem hl a.1 a.2).mpr hmem] at hrel
      cases hw : m.lookup a.1 with
      | none =>
          rw [hw] at hrel
          cases hrel
      | some w =>
          rw [hw] at hrel
          cases hrel with
          | some hrel => exact ⟨w, (lookup_eq_some_iff_mem hm a.1 w).mp hw, hrel⟩
    refine ⟨hin, ?_⟩
    have hperm : ((m.filter fun b => keep b.1).map Prod.fst).Perm
        ((l.filter fun a => keep a.1).map Prod.fst) := by
      refine (List.perm_ext_iff_of_nodup (hnodup hm) (hnodup hl)).mpr fun n => ?_
      rw [hkeys, hkeys]
      refine and_congr_right fun hk => ?_
      rw [← lookup_isSome_iff_mem, ← lookup_isSome_iff_mem]
      have hrel := h n hk
      generalize l.lookup n = v, m.lookup n = w at hrel
      cases hrel <;> rfl
    have hlen := hperm.length_eq
    rw [List.length_map, List.length_map] at hlen
    rw [List.countP_eq_length_filter, hlen]

end Agreement

end XevXml.Location
