import XevXml.Core.Replace

/-!
# Escaping by a Table

A table that gives some characters a reference each escapes a text character
by character: `Replace.escapeChar` says what it makes of one of them. Reading
such a text back is one walk from left to right that puts the character in
the place of every reference it meets.

That the walk undoes the escaping needs two things of the table. No reference
may be the beginning of another one, so the walk cannot take one for another,
and every reference must begin with a character that has a reference itself,
so a character without one is never taken for the beginning of a reference.

## Main definitions

* `unescapeSkip`: The walk, with a number of characters still to skip.
* `unescape`: Every reference replaced by its character, leftmost first.
* `PrefixFree`: No reference is the beginning of another one.
* `Guarded`: Every reference begins with a character that is escaped.

## Theorems

* `unescape_flatMap_escapeChar`: The walk undoes the escaping.
* `reference_of_mem_flatMap_escapeChar`: A character that stands only at the
  beginning of references begins one wherever it occurs.
* `not_mem_flatMap_escapeChar`: An escaped character no reference contains
  does not occur.
-/

namespace Replace

variable {α : Type} [DecidableEq α]

/-- The walk from left to right, with a number of characters still to skip
    because they belong to a reference already read. -/
def unescapeSkip (table : List (α × List α)) : Nat → List α → List α
  | _, [] => []
  | k + 1, _ :: s => unescapeSkip table k s
  | 0, c :: s =>
      match table.find? fun p => p.2.isPrefixOf (c :: s) with
      | some p => p.1 :: unescapeSkip table (p.2.length - 1) s
      | none => c :: unescapeSkip table 0 s

/-- Every reference replaced by the character it stands for. -/
def unescape (table : List (α × List α)) (s : List α) : List α := unescapeSkip table 0 s

/-- No reference is the beginning of the reference of another entry. -/
def PrefixFree (table : List (α × List α)) : Prop :=
  ∀ p ∈ table, ∀ q ∈ table, p.2 <+: q.2 → p = q

instance (table : List (α × List α)) : Decidable (PrefixFree table) :=
  inferInstanceAs (Decidable (∀ p ∈ table, ∀ q ∈ table, p.2 <+: q.2 → p = q))

/-- Every reference begins with a character that is escaped. -/
def Guarded (table : List (α × List α)) : Prop :=
  ∀ p ∈ table, ∃ q ∈ table, p.2.head? = some q.1

instance (table : List (α × List α)) : Decidable (Guarded table) :=
  inferInstanceAs (Decidable (∀ p ∈ table, ∃ q ∈ table, p.2.head? = some q.1))

section Table

/-- A character is written as the reference of its entry, or as it is if there
    is no entry for it. -/
theorem escapeChar_cases (table : List (α × List α)) (c : α) :
    (∃ r, (c, r) ∈ table ∧ escapeChar table c = r) ∨
      (∀ p ∈ table, c ≠ p.1) ∧ escapeChar table c = [c] := by
  induction table with
  | nil => exact Or.inr ⟨by simp, rfl⟩
  | cons p table ih =>
      obtain ⟨k, rep⟩ := p
      by_cases hc : c = k
      · subst hc
        exact Or.inl ⟨rep, List.mem_cons_self, by simp [escapeChar]⟩
      · have hstep : escapeChar ((k, rep) :: table) c = escapeChar table c := by
          simp [escapeChar, hc]
        rcases ih with ⟨r, hr, heq⟩ | ⟨hkey, heq⟩
        · exact Or.inl ⟨r, List.mem_cons_of_mem _ hr, by rw [hstep, heq]⟩
        · exact Or.inr ⟨List.forall_mem_cons.mpr ⟨hc, hkey⟩, by rw [hstep, heq]⟩

theorem unescapeSkip_drop (table : List (α × List α)) (k : Nat) (s : List α) :
    unescapeSkip table k s = unescape table (s.drop k) := by
  induction s generalizing k with
  | nil => cases k <;> simp [unescape, unescapeSkip]
  | cons c s ih =>
      cases k with
      | zero => rfl
      | succ k => simpa [unescapeSkip] using ih k

/-- In front of a text, the first entry whose reference fits is the one whose
    reference stands there. -/
theorem find_reference {table : List (α × List α)} (hfree : PrefixFree table)
    {p : α × List α} (hp : p ∈ table) (s : List α) :
    table.find? (fun q => q.2.isPrefixOf (p.2 ++ s)) = some p := by
  have hsome : (table.find? fun q => q.2.isPrefixOf (p.2 ++ s)).isSome = true := by
    rw [List.find?_isSome]
    exact ⟨p, hp, List.isPrefixOf_iff_prefix.mpr (List.prefix_append _ _)⟩
  obtain ⟨q, hq⟩ := Option.isSome_iff_exists.mp hsome
  have hmem : q ∈ table := List.mem_of_find?_eq_some hq
  have hfit : q.2.isPrefixOf (p.2 ++ s) = true := by simpa using List.find?_some hq
  have hpre : q.2 <+: p.2 ++ s := List.isPrefixOf_iff_prefix.mp hfit
  -- Of two references in front of the same text one is the beginning of the other.
  rcases List.prefix_or_prefix_of_prefix hpre (List.prefix_append p.2 s) with hqp | hpq
  · rw [hq, hfree q hmem p hp hqp]
  · rw [hq, hfree p hp q hmem hpq]

theorem unescape_reference_append {table : List (α × List α)} (hfree : PrefixFree table)
    (hguard : Guarded table) {p : α × List α} (hp : p ∈ table) (s : List α) :
    unescape table (p.2 ++ s) = p.1 :: unescape table s := by
  obtain ⟨q, -, hhead⟩ := hguard p hp
  obtain ⟨t, ht⟩ : ∃ t, p.2 = q.1 :: t := by
    cases hr : p.2 with
    | nil => rw [hr] at hhead; exact absurd hhead (by simp)
    | cons c t =>
        rw [hr, List.head?_cons] at hhead
        exact ⟨t, by rw [Option.some.inj hhead]⟩
  have hfind := find_reference hfree hp s
  rw [ht, List.cons_append] at hfind
  rw [ht, List.cons_append, unescape, unescapeSkip, hfind]
  simp only [ht, List.length_cons, Nat.add_sub_cancel, unescapeSkip_drop, List.drop_left]

theorem unescape_cons_of_not_key {table : List (α × List α)} (hguard : Guarded table) {c : α}
    (hc : ∀ p ∈ table, c ≠ p.1) (s : List α) :
    unescape table (c :: s) = c :: unescape table s := by
  have hnone : table.find? (fun p => p.2.isPrefixOf (c :: s)) = none := by
    rw [List.find?_eq_none]
    intro p hp hpre
    obtain ⟨q, hq, hhead⟩ := hguard p hp
    obtain ⟨post, hpost⟩ := List.isPrefixOf_iff_prefix.mp hpre
    cases hr : p.2 with
    | nil => rw [hr] at hhead; exact absurd hhead (by simp)
    | cons d t =>
        rw [hr, List.head?_cons] at hhead
        rw [hr, List.cons_append] at hpost
        exact hc q hq ((List.cons.inj hpost).1.symm.trans (Option.some.inj hhead))
  rw [unescape, unescapeSkip, hnone]
  rfl

/-- One walk undoes the escaping of any text. -/
theorem unescape_flatMap_escapeChar {table : List (α × List α)} (hfree : PrefixFree table)
    (hguard : Guarded table) (s : List α) :
    unescape table (s.flatMap (escapeChar table)) = s := by
  induction s with
  | nil => rfl
  | cons c s ih =>
      rw [List.flatMap_cons]
      rcases escapeChar_cases table c with ⟨r, hr, heq⟩ | ⟨hkey, heq⟩
      · rw [heq, unescape_reference_append hfree hguard hr, ih]
      · rw [heq, List.singleton_append, unescape_cons_of_not_key hguard hkey, ih]

end Table

section Occurrence

/-- A character that is escaped, and occurs in a reference only as its first
    character, begins a reference wherever it occurs in an escaped text. -/
theorem reference_of_mem_flatMap_escapeChar {table : List (α × List α)} {a : α}
    (hkey : ∃ p ∈ table, p.1 = a) (honly : ∀ p ∈ table, a ∉ p.2.tail) {s u v : List α}
    (h : s.flatMap (escapeChar table) = u ++ a :: v) :
    ∃ p ∈ table, p.2 <+: a :: v := by
  induction s generalizing u with
  | nil => exact absurd h (by simp)
  | cons c s ih =>
      rw [List.flatMap_cons, List.append_eq_append_iff] at h
      rcases h with ⟨w, -, hw⟩ | ⟨w, hw, hrest⟩
      · exact ih hw
      · cases w with
        | nil => exact ih (u := []) hrest.symm
        | cons d w =>
            obtain ⟨rfl, hv⟩ := List.cons.inj hrest
            rcases escapeChar_cases table c with ⟨r, hr, heq⟩ | ⟨hnone, heq⟩
            · -- The occurrence is inside of a reference, so it is its first character.
              rw [heq] at hw
              cases u with
              | nil => exact ⟨(c, r), hr, by rw [hv, hw]; exact List.prefix_append (_ :: w) _⟩
              | cons e u =>
                  refine absurd ?_ (honly (c, r) hr)
                  rw [hw]
                  simp
            · obtain ⟨p, hp, hpa⟩ := hkey
              have hmem : a ∈ escapeChar table c := by rw [hw]; simp
              rw [heq, List.mem_singleton] at hmem
              exact absurd (hmem.symm.trans hpa.symm) (hnone p hp)

theorem not_mem_flatMap_escapeChar {table : List (α × List α)} {a : α}
    (hkey : ∃ p ∈ table, p.1 = a) (hno : ∀ p ∈ table, a ∉ p.2) (s : List α) :
    a ∉ s.flatMap (escapeChar table) := by
  intro hmem
  obtain ⟨c, -, hc⟩ := List.mem_flatMap.mp hmem
  rcases escapeChar_cases table c with ⟨r, hr, heq⟩ | ⟨hnone, heq⟩
  · exact hno (c, r) hr (heq ▸ hc)
  · obtain ⟨p, hp, hpa⟩ := hkey
    rw [heq, List.mem_singleton] at hc
    exact hnone p hp (hc.symm.trans hpa.symm)

end Occurrence

end Replace
