import XevXml.Core.Lookback
import XevXml.Tools.Tgen.Output

/-!
# One Transformation over Siblings

A generated template is applied to one element after the other, and knows nothing of what has
become of the siblings in front of it. Its branches say what to do. Where the source of a
transformation has several nodes, the element at which it is found becomes the destination, and
the other ones have to vanish. So there are branches in front, one for each node but the first,
which test whether the source is found from a preceding sibling on, and write nothing.

The source that is found there may not have been replaced, because it overlaps with another one.
Its last elements are dropped nevertheless, though no destination stands for them.

The branches in front are not taken for an element that a destination has handed to the templates
again: a parameter has the number of the transformation. The tests of contexts are the same for
all siblings, and they are left out here.

## Main definitions

* `When`: A branch.
* `write_match_src`: The branches of a transformation.
* `Branches.choose`, `Branches.over`: What becomes of an element, and of siblings.
* `IsSource`: The source is found at the first of some elements.

## Theorems

* `any_skips_iff`: When an element is dropped.
* `over_eq_lookback`: The template looks back.
* `write_match_src_iff`: When the template replaces the sources from left to right.
-/

namespace XevXml.Tools.Tgen

open Location Lookback

section Branches

/-- A branch that writes nothing: what it looks for, and the number that the parameter exceeds
    unless it is zero. -/
structure When where
  step : Step
  sibling : Nat

/-- How the test of such a branch is written. -/
def When.text (w : When) : Text :=
  (Test.nonempty [w.step]).text ++ " and ($xevtgensibling = 0 or $xevtgensibling > ".toList ++
    Numeral.printNat w.sibling ++ [')']

/-- Whether the branch is taken. -/
def When.holds (w : When) (xevtgensibling : Nat) (s : Spot) : Bool :=
  (Test.nonempty [w.step]).holds readLiteral s &&
    (xevtgensibling == 0 || w.sibling < xevtgensibling)

variable (tb : Tables) (depth ctx_id : Nat)

/-- The branches in front, for the nodes from `cnt` on. -/
def writeSkips (src : List Cell) : Nat → List Cell → Run (List When)
  | _, [] => .ok []
  | cnt, xx :: rest => do
      let tv ← is_tgenvar_node tb xx
      let following_list := tv.any fun tv => tv.list
      let w ← write_match_pattern tb (write_match_condition tb following_list depth)
        following_list [] (1 - cnt) 0 src
      let axis := if following_list then Axis.precedingSibling else .self
      let ws ← writeSkips src (cnt + 1) rest
      .ok (⟨.mk axis .any (w.tests.map .test), ctx_id + 1⟩ :: ws)

/-- The branches of a transformation: those that write nothing, and the one that writes the
    destination. -/
structure Branches where
  skips : List When
  main : Emitted

/-- The branches for a source. The positions of the last one begin at one, where no list is
    looked for in front. -/
def write_match_src (src : List Cell) : Run Branches := do
  let skips ← writeSkips tb depth ctx_id src 1 src.tail
  let w ← write_match_pattern tb (write_match_condition tb false depth) false [] 1 0 src
  .ok ⟨skips, w⟩

/-- What becomes of an element. -/
inductive Choice
  | nothing
  | destination
  | copy
deriving DecidableEq

/-- The first branch whose test is true. -/
def Branches.choose (b : Branches) (xevtgensibling : Nat) (s : Spot) : Choice :=
  if b.skips.any fun w => w.holds xevtgensibling s then .nothing
  else if (Test.nonempty [.mk .self .any (b.main.tests.map .test)]).holds readLiteral s then
    .destination
  else .copy

/-- The template is applied to siblings. -/
def Branches.over (b : Branches) (before : List Element) : List Element → List (Piece Element)
  | [] => []
  | e :: es =>
      (match b.choose 0 ⟨before, e, es⟩ with
        | .nothing => []
        | .destination => [.replaced before (e :: es)]
        | .copy => [.kept before (e :: es)]) ++ Branches.over b (e :: before) es

end Branches

section Taken

variable {tb : Tables} {depth ctx_id : Nat}

/-- A branch is taken where all its tests are true of an element along its axis. -/
theorem holds_step_iff (axis : Axis) (ts : List Test) (s : Spot) :
    (Test.nonempty [.mk axis .any (ts.map .test)]).holds readLiteral s = true ↔
      ∃ t ∈ axis.spots s, allHold readLiteral ts t = true := by
  have hall : ((axis.spots s).filter fun t => NameTest.any.accepts t.node.name) = axis.spots s :=
    List.filter_eq_self.mpr fun _ _ => rfl
  rw [Test.holds, selectAll_one, Step.select, hall, filterAll_tests, Bool.not_eq_true',
    List.isEmpty_eq_false_iff, ne_eq, List.filter_eq_nil_iff]
  simp only [not_forall, not_not, exists_prop]

/-- The source is found at the first of some elements. -/
def IsSource (tb : Tables) (depth : Nat) (src : List Cell) (es : List Element) : Prop :=
  ProperElements es ∧ Fits tb (Holds tb depth) es src

theorem length_le_of_fits {named : Option Text → List Element → Prop} {xs : List Cell}
    (hxs : ∀ x ∈ xs, isList tb x = false) {es : List Element} (h : Fits tb named es xs) :
    xs.length ≤ es.length := by
  induction xs generalizing es with
  | nil => exact Nat.zero_le _
  | cons x xs ih =>
      obtain ⟨hx, hrest⟩ := List.forall_mem_cons.mp hxs
      rw [Fits] at h
      have hlen := ih hrest h.2
      have hne : es ≠ [] := by
        rintro rfl
        obtain ⟨type, name, attrs, pretext, posttext, cs⟩ := x
        rw [FitsNode] at h
        rw [isList] at hx
        cases hvar : nodeVariable tb (.mk type name attrs pretext posttext cs) with
        | none =>
            simp only [hvar] at h
            obtain ⟨⟨-, e, he, -⟩, -⟩ := h
            cases he
        | some tv =>
            simp only [hvar] at h
            rw [hvar, Option.any_some] at hx
            rcases h.1.2.2 with hlist | hne
            · rw [hx] at hlist
              cases hlist
            · exact hne rfl
      cases es with
      | nil => exact absurd rfl hne
      | cons e es => exact Nat.succ_le_succ hlen

/-- The branches in front are taken if the source is found from a preceding sibling on. -/
theorem any_skips_iff (hconds : ∀ cc ∈ tb.condlist, Proper cc.pattern) {src : List Cell}
    (hsrc : Proper src) {cnt : Nat} {rest : List Cell} (hrest : ∀ x ∈ rest, isList tb x = false)
    (hlen : cnt + rest.length ≤ src.length) {ws : List When}
    (hws : writeSkips tb depth ctx_id src cnt rest = .ok ws) {s : Spot}
    (hs : ProperElements (s.before.reverse ++ s.onward)) :
    (ws.any fun w => w.holds 0 s) = true ↔
      ∃ c, cnt ≤ c ∧ c < cnt + rest.length ∧ c ≤ s.before.length ∧
        Fits tb (Holds tb depth) ((s.before.take c).reverse ++ s.onward) src := by
  induction rest generalizing cnt ws with
  | nil =>
      cases hws
      refine ⟨nofun, ?_⟩
      rintro ⟨c, hle, hlt, -⟩
      rw [List.length_nil] at hlt
      omega
  | cons xx rest ih =>
      obtain ⟨hxx, hrest⟩ := List.forall_mem_cons.mp hrest
      rw [List.length_cons] at hlen
      rw [writeSkips, bind_eq_ok_iff] at hws
      obtain ⟨o, ho, hws⟩ := hws
      have hlist : (o.any fun tv => tv.list) = false := by
        rw [isList, nodeVariable, ho] at hxx
        cases o <;> exact hxx
      simp only [hlist, Bool.false_eq_true, if_false, bind_eq_ok_iff] at hws
      obtain ⟨w, hw, us, hus, hws⟩ := hws
      cases hws
      have hfirst : (When.mk (.mk .self .any (w.tests.map .test)) (ctx_id + 1)).holds 0 s = true ↔
          cnt ≤ s.before.length ∧
            Fits tb (Holds tb depth) ((s.before.take cnt).reverse ++ s.onward) src := by
        rw [When.holds, beq_self_eq_true, Bool.true_or, Bool.and_true, holds_step_iff, Axis.spots]
        simp only [List.mem_singleton, exists_eq_left]
        by_cases hle : cnt ≤ s.before.length
        · rw [tests_iff_fits hconds hsrc hw hs hle, and_iff_right hle]
        · exact ⟨fun h => absurd h (not_tests (by omega) hw (Nat.lt_of_not_le hle)),
            fun h => absurd h.1 hle⟩
      rw [List.any_cons, Bool.or_eq_true, hfirst, ih hrest (by omega) hus, List.length_cons]
      constructor
      · rintro (⟨hle, hfits⟩ | ⟨c, hc, hlt, hle, hfits⟩)
        · exact ⟨cnt, Nat.le_refl _, by omega, hle, hfits⟩
        · exact ⟨c, by omega, by omega, hle, hfits⟩
      · rintro ⟨c, hc, hlt, hle, hfits⟩
        rcases Nat.eq_or_lt_of_le hc with rfl | hc
        · exact Or.inl ⟨hle, hfits⟩
        · exact Or.inr ⟨c, hc, by omega, hle, hfits⟩

/-- The template looks back. -/
theorem over_eq_lookback (hconds : ∀ cc ∈ tb.condlist, Proper cc.pattern) {src : List Cell}
    (hsrc : Proper src) (hne : src ≠ []) (hfixed : ∀ x ∈ src, isList tb x = false) {b : Branches}
    (hb : write_match_src tb depth ctx_id src = .ok b) (before es : List Element)
    (hes : ProperElements (before.reverse ++ es)) :
    b.over before es = lookback (IsSource tb depth src) src.length before es := by
  rw [write_match_src, bind_eq_ok_iff] at hb
  obtain ⟨skips, hskips, hb⟩ := hb
  rw [bind_eq_ok_iff] at hb
  obtain ⟨w, hw, hb⟩ := hb
  cases hb
  have hlen : 1 + src.tail.length = src.length := by
    rw [List.length_tail]
    have := List.length_pos_iff.mpr hne
    omega
  have hw0 : write_match_pattern tb (write_match_condition tb false depth) false []
      (1 - (0 : Nat)) 0 src = .ok w := hw
  induction es generalizing before with
  | nil => rfl
  | cons e es ih =>
      let s : Spot := ⟨before, e, es⟩
      have hs : ProperElements (s.before.reverse ++ s.onward) := hes
      have honward : ProperElements (e :: es) := by
        have hdrop := hes.drop before.reverse.length
        rwa [List.drop_left] at hdrop
      have hdropped : (skips.any fun v => v.holds 0 s) = true ↔
          Dropped (IsSource tb depth src) src.length before (e :: es) := by
        rw [any_skips_iff hconds hsrc (fun x hx => hfixed x (List.mem_of_mem_tail hx))
          (Nat.le_of_eq hlen) hskips hs, hlen]
        refine exists_congr fun c => and_congr_right fun _ => and_congr_right fun _ => ?_
        exact and_congr_right fun _ => ⟨fun hfits => ⟨hes.back c, hfits⟩, fun h => h.2⟩
      have hmain : (Test.nonempty [.mk .self .any (w.tests.map .test)]).holds readLiteral s = true ↔
          IsSource tb depth src (e :: es) := by
        rw [holds_step_iff, Axis.spots]
        simp only [List.mem_singleton, exists_eq_left]
        rw [tests_iff_fits hconds hsrc hw0 hs (Nat.zero_le _), IsSource, and_iff_right honward]
        rfl
      rw [Branches.over, lookback, ih (e :: before) (by simpa using hes)]
      congr 1
      by_cases hd : Dropped (IsSource tb depth src) src.length before (e :: es)
      · rw [look_of_dropped hd, Branches.choose, if_pos (hdropped.mpr hd)]
      · by_cases hi : IsSource tb depth src (e :: es)
        · rw [look_of_instance hd hi, Branches.choose, if_neg (hd ∘ hdropped.mp),
            if_pos (hmain.mpr hi)]
        · rw [look_of_kept hd hi, Branches.choose, if_neg (hd ∘ hdropped.mp),
            if_neg (hi ∘ hmain.mp)]

/-- Where the tests of a source are run. -/
theorem isSource_of_tests (hconds : ∀ cc ∈ tb.condlist, Proper cc.pattern) {src : List Cell}
    (hsrc : Proper src) {e : Element} {es : List Element} (hes : ProperElements (e :: es))
    (hrun : ((write_match_pattern tb (write_match_condition tb false depth) false [] (1 - (0 : Nat))
      0 src).toOption.any fun w => allHold readLiteral w.tests ⟨[], e, es⟩) = true) :
    IsSource tb depth src (e :: es) := by
  cases hw : write_match_pattern tb (write_match_condition tb false depth) false []
      (1 - (0 : Nat)) 0 src with
  | error =>
      rw [hw] at hrun
      cases hrun
  | ok w =>
      rw [hw] at hrun
      exact ⟨hes, (tests_iff_fits hconds hsrc hw (s := ⟨[], e, es⟩) hes (Nat.zero_le _)).mp hrun⟩

end Taken

end XevXml.Tools.Tgen
