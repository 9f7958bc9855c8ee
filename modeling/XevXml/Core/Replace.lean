import Mathlib.Data.List.Infix

/-!
# Search and Replace on Lists

The search-and-replace loop every string library has: look for a pattern,
overwrite the occurrence with a replacement, and look again behind the text
just written. The loop is modelled as it runs, as a machine whose state is the
current text and the position the last search returned, and the replacement
is then characterised once and for all by a structural function that walks
the text from left to right.

Two things about a list of such passes matter to a program that escapes text
with them. When every pattern is a single character and no later pattern
occurs in an earlier replacement, the passes do not see one another and the
whole list acts on each character by itself. When every replacement is
shorter than its pattern, the passes leave a text alone exactly if none of
the patterns occurs in it: each pass can only shorten the text, so an
unchanged text has gone through every pass without a match.

## Main definitions

* `find`: The first position at which a pattern occurs.
* `findFrom`: The first occurrence at or behind a position.
* `replaceStep`: One turn of the loop.
* `replaceLoop`: A number of turns of the loop.
* `replace`: The loop run until it stops.
* `substitute`: The replacement by one walk from left to right.
* `replaceAll`: Several passes, one after the other.
* `escapeChar`: What a list of single-character passes does to a character.

## Theorems

* `replaceLoop_halts`: The loop stops, at the substituted text.
* `replace_eq_substitute`: The loop computes the substitution.
* `substitute_singleton`: A single-character pass acts on each character.
* `replaceAll_singletons`: So does a list of them, when they do not interfere.
* `replaceAll_eq_self_iff`: Shortening passes leave a text alone exactly if
  no pattern occurs in it.
-/

namespace Replace

-- Quantifiers over the characters of a list look like quantifiers over all
-- characters, and there is an instance for these that tries every character.
instance (priority := high) decidableForallMem (α : Type) (l : List α) (p : α → Prop)
    [DecidablePred p] :
    Decidable (∀ c ∈ l, p c) := List.decidableBAll p l

variable {α : Type} [DecidableEq α]

/-- The first position at which `pat` occurs in a list. -/
def find (pat : List α) : List α → Option Nat
  | [] => if pat.isPrefixOf [] then some 0 else none
  | c :: s => if pat.isPrefixOf (c :: s) then some 0 else (find pat s).map (· + 1)

/-- The first position, at or behind `pos`, at which `pat` occurs in `s`. -/
def findFrom (pat s : List α) (pos : Nat) : Option Nat :=
  (find pat (s.drop pos)).map (· + pos)

/-- One turn of the loop. The state is the text and the position of the last
    match; with no match the loop has stopped. -/
def replaceStep (pat rep : List α) : List α × Option Nat → List α × Option Nat
  | (s, none) => (s, none)
  | (s, some pos) =>
      let s' := s.take pos ++ rep ++ s.drop (pos + pat.length)
      (s', findFrom pat s' (pos + rep.length))

/-- The loop after `n` turns. -/
def replaceLoop (pat rep : List α) : Nat → List α × Option Nat → List α × Option Nat
  | 0, st => st
  | n + 1, st => replaceLoop pat rep n (replaceStep pat rep st)

/-- The loop run until it stops: a pattern of at least one character cannot
    match more often than the text has characters. -/
def replace (pat rep s : List α) : List α :=
  (replaceLoop pat rep (s.length + 1) (s, findFrom pat s 0)).1

/-- The walk from left to right, with a number of characters still to skip
    because they belong to an occurrence already replaced. -/
def substituteSkip (pat rep : List α) : Nat → List α → List α
  | _, [] => []
  | k + 1, _ :: s => substituteSkip pat rep k s
  | 0, c :: s =>
      if pat.isPrefixOf (c :: s) then rep ++ substituteSkip pat rep (pat.length - 1) s
      else c :: substituteSkip pat rep 0 s

/-- Every occurrence of `pat` replaced, leftmost first. -/
def substitute (pat rep s : List α) : List α := substituteSkip pat rep 0 s

/-- Several passes, one after the other. -/
def replaceAll (passes : List (List α × List α)) (s : List α) : List α :=
  passes.foldl (fun t p => replace p.1 p.2 t) s

/-- What a list of single-character passes makes of one character. -/
def escapeChar : List (α × List α) → α → List α
  | [], c => [c]
  | (k, rep) :: passes, c => if c = k then rep else escapeChar passes c

section Find

theorem find_eq_none {pat s : List α} (h : find pat s = none) : ¬ pat <:+: s := by
  induction s with
  | nil =>
      intro hin
      have hpat : pat = [] := List.infix_nil.mp hin
      simp [find, hpat] at h
  | cons c s ih =>
      intro hin
      unfold find at h
      split at h
      · exact absurd h (by simp only [reduceCtorEq, not_false_eq_true])
      · rename_i hpre
        have hs : find pat s = none := by simpa using h
        rcases List.infix_cons_iff.mp hin with hp | hi
        · exact hpre (List.isPrefixOf_iff_prefix.mpr hp)
        · exact ih hs hi

/-- A match splits the text around an occurrence of the pattern. -/
theorem find_eq_some {pat s : List α} {i : Nat} (h : find pat s = some i) :
    ∃ post, i ≤ s.length ∧ s = s.take i ++ pat ++ post := by
  induction s generalizing i with
  | nil =>
      unfold find at h
      split at h
      · rename_i hpre
        have hp : pat = [] := List.prefix_nil.mp (List.isPrefixOf_iff_prefix.mp hpre)
        exact ⟨[], by simp_all⟩
      · exact absurd h (by simp only [reduceCtorEq, not_false_eq_true])
  | cons c s ih =>
      unfold find at h
      split at h
      · rename_i hpre
        obtain ⟨post, hpost⟩ := List.isPrefixOf_iff_prefix.mp hpre
        have hi : i = 0 := (Option.some.inj h).symm
        subst hi
        exact ⟨post, Nat.zero_le _, by simp [hpost]⟩
      · obtain ⟨j, hj, rfl⟩ := Option.map_eq_some_iff.mp h
        obtain ⟨post, hle, hs⟩ := ih hj
        refine ⟨post, by simp only [List.length_cons]; omega, ?_⟩
        simpa using hs

theorem findFrom_append (pat done rest : List α) :
    findFrom pat (done ++ rest) done.length = (find pat rest).map (· + done.length) := by
  unfold findFrom
  rw [List.drop_left]

end Find

section Substitute

theorem substituteSkip_drop (pat rep : List α) (k : Nat) (s : List α) :
    substituteSkip pat rep k s = substitute pat rep (s.drop k) := by
  induction s generalizing k with
  | nil => cases k <;> simp [substitute, substituteSkip]
  | cons c s ih =>
      cases k with
      | zero => rfl
      | succ k => simpa [substituteSkip] using ih k

@[simp]
theorem substitute_nil (pat rep : List α) : substitute pat rep [] = [] := rfl

theorem substitute_cons_of_no_match {pat : List α} (rep : List α) {c : α} {s : List α}
    (h : ¬ pat <+: c :: s) : substitute pat rep (c :: s) = c :: substitute pat rep s := by
  have hb : pat.isPrefixOf (c :: s) = false := by
    rw [Bool.eq_false_iff]
    exact fun hp => h (List.isPrefixOf_iff_prefix.mp hp)
  simp [substitute, substituteSkip, hb]

theorem substitute_pattern_append {pat : List α} (rep : List α) (hne : pat ≠ [])
    (post : List α) : substitute pat rep (pat ++ post) = rep ++ substitute pat rep post := by
  obtain ⟨c, p, rfl⟩ := List.exists_cons_of_ne_nil hne
  have hb : (c :: p).isPrefixOf (c :: (p ++ post)) = true :=
    List.isPrefixOf_iff_prefix.mpr ⟨post, rfl⟩
  have hdrop : (p ++ post).drop p.length = post := List.drop_left
  rw [List.cons_append, substitute, substituteSkip, if_pos hb, substituteSkip_drop]
  simp only [List.length_cons, Nat.add_sub_cancel, hdrop]

/-- Up to the first match the walk copies, and there it replaces. -/
theorem substitute_of_find {pat s : List α} (rep : List α) {i : Nat} {post : List α}
    (hne : pat ≠ []) (h : find pat s = some i) (hs : s = s.take i ++ pat ++ post) :
    substitute pat rep s = s.take i ++ rep ++ substitute pat rep post := by
  induction s generalizing i with
  | nil =>
      have hpat : pat = [] ∧ post = [] := by simpa using hs
      exact absurd hpat.1 hne
  | cons c s ih =>
      unfold find at h
      split at h
      · have hi : i = 0 := (Option.some.inj h).symm
        subst hi
        have hs' : c :: s = pat ++ post := by simpa using hs
        rw [hs', substitute_pattern_append rep hne]
        simp
      · rename_i hpre
        obtain ⟨j, hj, rfl⟩ := Option.map_eq_some_iff.mp h
        have hs' : s = s.take j ++ pat ++ post := by simpa using hs
        have hnp : ¬ pat <+: c :: s := fun hp => hpre (List.isPrefixOf_iff_prefix.mpr hp)
        rw [substitute_cons_of_no_match rep hnp, ih hj hs']
        simp

theorem substitute_of_no_occurrence {pat s : List α} (rep : List α) (h : ¬ pat <:+: s) :
    substitute pat rep s = s := by
  induction s with
  | nil => rfl
  | cons c s ih =>
      have hpre : ¬ pat <+: c :: s := fun hp => h hp.isInfix
      have htail : ¬ pat <:+: s := fun hi => h (List.infix_cons hi)
      rw [substitute_cons_of_no_match rep hpre, ih htail]

theorem infix_iff_exists_find {pat s : List α} (h : pat <:+: s) : ∃ i, find pat s = some i := by
  cases hf : find pat s with
  | none => exact absurd h (find_eq_none hf)
  | some i => exact ⟨i, rfl⟩

/-- Replacing by something no longer never lengthens the text. -/
theorem length_substitute_le {pat rep : List α} (hlen : rep.length ≤ pat.length)
    (hne : pat ≠ []) (s : List α) : (substitute pat rep s).length ≤ s.length := by
  generalize hn : s.length = n
  induction n using Nat.strong_induction_on generalizing s with
  | _ n ih =>
      have hpos : 0 < pat.length := List.length_pos_of_ne_nil hne
      cases hf : find pat s with
      | none => rw [substitute_of_no_occurrence rep (find_eq_none hf)]; omega
      | some i =>
          obtain ⟨post, hle, hs⟩ := find_eq_some hf
          have hl : s.length = i + pat.length + post.length := by
            have := congrArg List.length hs
            simp only [List.length_append, List.length_take] at this
            omega
          have hpost := ih post.length (by omega) post rfl
          rw [substitute_of_find rep hne hf hs]
          simp only [List.length_append, List.length_take]
          omega

/-- Replacing by something shorter shortens a text with an occurrence. -/
theorem length_substitute_lt {pat rep s : List α} (hlen : rep.length < pat.length)
    (h : pat <:+: s) : (substitute pat rep s).length < s.length := by
  have hne : pat ≠ [] := List.ne_nil_of_length_pos (by omega)
  obtain ⟨i, hf⟩ := infix_iff_exists_find h
  obtain ⟨post, hle, hs⟩ := find_eq_some hf
  have hpost := length_substitute_le hlen.le hne post
  have hl := congrArg List.length hs
  rw [substitute_of_find rep hne hf hs]
  simp only [List.length_append, List.length_take] at hl ⊢
  omega

theorem substitute_singleton (k : α) (rep s : List α) :
    substitute [k] rep s = s.flatMap fun c => if c = k then rep else [c] := by
  induction s with
  | nil => rfl
  | cons c s ih =>
      by_cases hc : c = k
      · subst hc
        have happ := @substitute_pattern_append α _ [c] rep (by simp) s
        simp only [List.singleton_append] at happ
        rw [happ, ih]
        simp
      · have hnp : ¬ [k] <+: c :: s := by
          intro hp
          exact hc (List.cons_prefix_cons.mp hp).1.symm
        rw [substitute_cons_of_no_match rep hnp, ih]
        simp [hc]

end Substitute

section Loop

theorem replaceLoop_stopped (pat rep s : List α) (n : Nat) :
    replaceLoop pat rep n (s, none) = (s, none) := by
  induction n with
  | zero => rfl
  | succ n ih => exact ih

/-- With `done` behind the loop and `rest` ahead of it, the loop stops at the
    substituted `rest`. -/
theorem replaceLoop_halts {pat : List α} (rep : List α) (hne : pat ≠ []) :
    ∀ (n : Nat) (done rest : List α), rest.length < n →
      replaceLoop pat rep n (done ++ rest, findFrom pat (done ++ rest) done.length) =
        (done ++ substitute pat rep rest, none) := by
  intro n
  induction n with
  | zero => intro done rest hn; exact absurd hn (Nat.not_lt_zero _)
  | succ n ih =>
      intro done rest hn
      rw [findFrom_append]
      cases hf : find pat rest with
      | none =>
          rw [substitute_of_no_occurrence rep (find_eq_none hf)]
          exact replaceLoop_stopped pat rep _ _
      | some i =>
          obtain ⟨post, hle, hs⟩ := find_eq_some hf
          have hpos : 0 < pat.length := List.length_pos_of_ne_nil hne
          have hlen : rest.length = i + pat.length + post.length := by
            have := congrArg List.length hs
            simp only [List.length_append, List.length_take] at this
            omega
          -- The turn writes `rep` over the match and looks behind it.
          have htake : (done ++ rest).take (i + done.length) = done ++ rest.take i := by
            rw [Nat.add_comm, List.take_length_add_append]
          have hdrop : (done ++ rest).drop (i + done.length + pat.length) = post := by
            have hd : rest.drop (i + pat.length) = post := by
              have hi : (rest.take i ++ pat).length = i + pat.length := by
                simp only [List.length_append, List.length_take]
                omega
              calc rest.drop (i + pat.length)
                  = (rest.take i ++ pat ++ post).drop (i + pat.length) := by rw [← hs]
                _ = post := by rw [← hi, List.drop_left]
            rw [show i + done.length + pat.length = done.length + (i + pat.length) by omega,
              List.drop_length_add_append, hd]
          have hstep : replaceStep pat rep (done ++ rest, some (i + done.length)) =
              ((done ++ rest.take i ++ rep) ++ post,
                findFrom pat ((done ++ rest.take i ++ rep) ++ post)
                  (done ++ rest.take i ++ rep).length) := by
            have hl : i + done.length + rep.length = (done ++ rest.take i ++ rep).length := by
              simp only [List.length_append, List.length_take]
              omega
            simp only [replaceStep, htake, hdrop, hl]
          simp only [Option.map_some, replaceLoop, hstep]
          rw [ih _ post (by omega), substitute_of_find rep hne hf hs]
          simp only [List.append_assoc]

theorem replace_eq_substitute {pat : List α} (rep : List α) (hne : pat ≠ []) (s : List α) :
    replace pat rep s = substitute pat rep s := by
  have h := replaceLoop_halts rep hne (s.length + 1) [] s (Nat.lt_succ_self _)
  unfold replace
  simp only [List.nil_append, List.length_nil] at h
  rw [h]

end Loop

section Passes

@[simp]
theorem replaceAll_nil (s : List α) : replaceAll [] s = s := rfl

@[simp]
theorem replaceAll_cons (p : List α × List α) (passes : List (List α × List α)) (s : List α) :
    replaceAll (p :: passes) s = replaceAll passes (replace p.1 p.2 s) := rfl

theorem escapeChar_of_not_key {passes : List (α × List α)} {c : α}
    (h : ∀ p ∈ passes, c ≠ p.1) : escapeChar passes c = [c] := by
  induction passes with
  | nil => rfl
  | cons p passes ih =>
      have hc : c ≠ p.1 := h p (List.mem_cons_self)
      have hrest : ∀ q ∈ passes, c ≠ q.1 := fun q hq => h q (List.mem_cons_of_mem _ hq)
      rw [escapeChar, if_neg hc, ih hrest]

theorem flatMap_escapeChar_of_not_key {passes : List (α × List α)} {s : List α}
    (h : ∀ c ∈ s, ∀ p ∈ passes, c ≠ p.1) : s.flatMap (escapeChar passes) = s := by
  induction s with
  | nil => rfl
  | cons c s ih =>
      rw [List.flatMap_cons, escapeChar_of_not_key (h c List.mem_cons_self),
        ih fun d hd => h d (List.mem_cons_of_mem _ hd)]
      rfl

/-- Single-character passes act on each character by itself when no later
    pattern occurs in an earlier replacement. -/
theorem replaceAll_singletons {passes : List (α × List α)}
    (h : passes.Pairwise fun p q => ∀ c ∈ p.2, c ≠ q.1) (s : List α) :
    replaceAll (passes.map fun p => ([p.1], p.2)) s = s.flatMap (escapeChar passes) := by
  induction passes generalizing s with
  | nil => simp [escapeChar]
  | cons p passes ih =>
      obtain ⟨k, rep⟩ := p
      obtain ⟨hhead, htail⟩ := List.pairwise_cons.mp h
      have hrep : rep.flatMap (escapeChar passes) = rep :=
        flatMap_escapeChar_of_not_key fun c hc q hq => hhead q hq c hc
      rw [List.map_cons, replaceAll_cons, replace_eq_substitute _ (List.cons_ne_nil _ _),
        substitute_singleton, ih htail, List.flatMap_assoc]
      congr 1
      funext c
      by_cases hc : c = k
      · simp [escapeChar, hc, hrep]
      · simp [escapeChar, hc]

/-- Passes that shorten what they match never lengthen the text. -/
theorem length_replaceAll_le {passes : List (List α × List α)}
    (hlen : ∀ p ∈ passes, p.2.length < p.1.length) (s : List α) :
    (replaceAll passes s).length ≤ s.length := by
  induction passes generalizing s with
  | nil => exact le_refl _
  | cons p passes ih =>
      have hp := hlen p List.mem_cons_self
      have hne : p.1 ≠ [] := List.ne_nil_of_length_pos (by omega)
      have hrest := ih (fun q hq => hlen q (List.mem_cons_of_mem _ hq)) (replace p.1 p.2 s)
      have hstep := length_substitute_le hp.le hne s
      rw [replaceAll_cons]
      rw [replace_eq_substitute _ hne] at hrest ⊢
      omega

theorem replaceAll_eq_self_iff {passes : List (List α × List α)}
    (hlen : ∀ p ∈ passes, p.2.length < p.1.length) (s : List α) :
    replaceAll passes s = s ↔ ∀ p ∈ passes, ¬ p.1 <:+: s := by
  induction passes with
  | nil => simp
  | cons p passes ih =>
      have hp := hlen p List.mem_cons_self
      have hne : p.1 ≠ [] := List.ne_nil_of_length_pos (by omega)
      have hrest : ∀ q ∈ passes, q.2.length < q.1.length :=
        fun q hq => hlen q (List.mem_cons_of_mem _ hq)
      rw [replaceAll_cons, replace_eq_substitute _ hne, List.forall_mem_cons]
      by_cases hin : p.1 <:+: s
      · -- A match shortens the text, and no later pass makes up for it.
        have hlt := length_substitute_lt hp hin
        have hle := length_replaceAll_le hrest (substitute p.1 p.2 s)
        have hneq : replaceAll passes (substitute p.1 p.2 s) ≠ s := by
          intro heq
          rw [heq] at hle
          omega
        exact iff_of_false hneq fun hall => hall.1 hin
      · rw [substitute_of_no_occurrence _ hin, ih hrest]
        exact ⟨fun hall => ⟨hin, hall⟩, fun hall => hall.2⟩

end Passes

end Replace
