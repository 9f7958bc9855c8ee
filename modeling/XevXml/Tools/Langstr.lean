import XevXml.Dom.Entity
import Mathlib.Data.List.Basic

/-!
# Strings in Three Languages

The tools keep a string without its quotes and write it in the way of Fortran or
of XML when it leaves them. In Fortran a quote inside a string is doubled. In XML
five characters become references.

A string that lacks its closing quote is `none`: the functions of the tools read
on behind its end.

## Main definitions

* `strG2F`, `strF2G`: Writing and reading a Fortran string.
* `endstrF`: Where a Fortran string ends.
* `strchrF`: Where a character stands outside Fortran strings.
* `strG2X`, `strX2G`: Writing and reading an XML string.

## Theorems

* `strF2G_strG2F`, `strX2G_strG2X`: What is written is read back.
* `endstrF_strG2F`: A written Fortran string ends where it should.
-/

namespace XevXml.Tools

section Fortran

/-- The inside of a Fortran string. -/
def doubled (initc : Char) (s : Text) : Text :=
  s.flatMap fun c => if c = initc then [initc, initc] else [c]

/-- A string as Fortran writes it. -/
def strG2F (s : Text) (initc : Char) : Text := initc :: doubled initc s ++ [initc]

/-- Reads the inside of a Fortran string up to the closing quote. -/
def undoubled (initc : Char) : Text → Option Text
  | [] => none
  | [c] => if c = initc then some [] else none
  | c :: d :: s =>
      if c = initc then
        if d = initc then (undoubled initc s).map (initc :: ·) else some []
      else (undoubled initc (d :: s)).map (c :: ·)

/-- The string that a Fortran string denotes. -/
def strF2G : Text → Option Text
  | [] => none
  | c :: s => undoubled c s

/-- Divides a text behind the closing quote. -/
def closing (initc : Char) : Text → Option (Text × Text)
  | [] => none
  | [c] => if c = initc then some ([c], []) else none
  | c :: d :: s =>
      if c = initc then
        if d = initc then (closing initc s).map fun (s1, s2) => (c :: d :: s1, s2)
        else some ([c], d :: s)
      else (closing initc (d :: s)).map fun (s1, s2) => (c :: s1, s2)

/-- Divides a text behind the Fortran string it starts with. -/
def endstrF : Text → Option (Text × Text)
  | [] => none
  | c :: s => (closing c s).map fun (s1, s2) => (c :: s1, s2)

/-- Looks for a character outside strings, in as many steps as allowed. -/
def strchrFrom (c : Char) : Nat → Text → Option Text
  | 0, _ => none
  | _ + 1, [] => none
  | fuel + 1, d :: s =>
      if d = c then some (d :: s)
      else if d = '\'' ∨ d = '"' then
        match endstrF (d :: s) with
        | none => none
        | some (_, rest) => strchrFrom c fuel rest
      else strchrFrom c fuel s

/-- The rest of a text from a character on that stands outside strings. Every step
    shortens the text. -/
def strchrF (s : Text) (c : Char) : Option Text := strchrFrom c (s.length + 1) s

variable {initc : Char}

@[simp]
theorem doubled_nil : doubled initc [] = [] := rfl

theorem doubled_cons_self (s : Text) :
    doubled initc (initc :: s) = initc :: initc :: doubled initc s := by
  rw [doubled, List.flatMap_cons, if_pos rfl]
  rfl

theorem doubled_cons_ne {c : Char} (h : c ≠ initc) (s : Text) :
    doubled initc (c :: s) = c :: doubled initc s := by
  rw [doubled, List.flatMap_cons, if_neg h]
  rfl

/-- The first character behind a written string is not its quote. -/
def NoQuoteAhead (initc : Char) (rest : Text) : Prop := rest.head? ≠ some initc

theorem undoubled_step {c : Char} (h : c ≠ initc) (s : Text) (hs : s ≠ []) :
    undoubled initc (c :: s) = (undoubled initc s).map (c :: ·) := by
  cases s with
  | nil => exact absurd rfl hs
  | cons d s => rw [undoubled, if_neg h]

theorem undoubled_doubled (s : Text) : undoubled initc (doubled initc s ++ [initc]) = some s := by
  induction s with
  | nil => rw [doubled_nil, List.nil_append, undoubled, if_pos rfl]
  | cons c s ih =>
      by_cases h : c = initc
      · rw [h, doubled_cons_self, List.cons_append, List.cons_append, undoubled, if_pos rfl,
          if_pos rfl, ih, Option.map_some]
      · rw [doubled_cons_ne h, List.cons_append, undoubled_step h _ (by simp), ih, Option.map_some]

/-- A written Fortran string denotes the string it was written for. -/
theorem strF2G_strG2F (s : Text) : strF2G (strG2F s initc) = some s := undoubled_doubled s

theorem closing_step {c : Char} (h : c ≠ initc) (s : Text) (hs : s ≠ []) :
    closing initc (c :: s) = (closing initc s).map fun (s1, s2) => (c :: s1, s2) := by
  cases s with
  | nil => exact absurd rfl hs
  | cons d s => rw [closing, if_neg h]

theorem closing_doubled (s rest : Text) (h : NoQuoteAhead initc rest) :
    closing initc (doubled initc s ++ initc :: rest) = some (doubled initc s ++ [initc], rest) := by
  induction s with
  | nil =>
      cases rest with
      | nil => rw [doubled_nil, List.nil_append, closing, if_pos rfl]
      | cons d rest =>
          have hd : d ≠ initc := fun he => h (by rw [he, List.head?_cons])
          rw [doubled_nil, List.nil_append, closing, if_pos rfl, if_neg hd]
          rfl
  | cons c s ih =>
      by_cases hc : c = initc
      · rw [hc, doubled_cons_self, List.cons_append, List.cons_append, closing, if_pos rfl,
          if_pos rfl, ih, Option.map_some]
        rfl
      · rw [doubled_cons_ne hc, List.cons_append, closing_step hc _ (by simp), ih, Option.map_some]
        rfl

/-- The characters of a string stand in front of its last quote. -/
theorem mem_of_undoubled {t s : Text} (h : undoubled initc t = some s) :
    ∀ x ∈ s, x ∈ t.dropLast := by
  fun_induction undoubled initc t generalizing s with
  | case1 => cases h
  | case2 =>
      cases h
      exact fun x hx => absurd hx List.not_mem_nil
  | case3 => cases h
  | case4 t ih =>
      rcases Option.map_eq_some_iff.mp h with ⟨s', hs', rfl⟩
      intro x hx
      rw [List.dropLast_cons_of_ne_nil (List.cons_ne_nil _ _)]
      rcases List.mem_cons.mp hx with rfl | hx
      · exact List.mem_cons_self
      · have hmem := ih hs' x hx
        cases t with
        | nil => cases hmem
        | cons d t =>
            rw [List.dropLast_cons_of_ne_nil (List.cons_ne_nil _ _)]
            exact List.mem_cons_of_mem _ (List.mem_cons_of_mem _ hmem)
  | case5 =>
      cases h
      exact fun x hx => absurd hx List.not_mem_nil
  | case6 c d t hc ih =>
      rcases Option.map_eq_some_iff.mp h with ⟨s', hs', rfl⟩
      intro x hx
      rw [List.dropLast_cons_of_ne_nil (List.cons_ne_nil _ _)]
      rcases List.mem_cons.mp hx with rfl | hx
      · exact List.mem_cons_self
      · exact List.mem_cons_of_mem _ (ih hs' x hx)

/-- A text is divided, and nothing of it is lost. -/
theorem closing_append {s a b : Text} (h : closing initc s = some (a, b)) : a ++ b = s := by
  fun_induction closing initc s generalizing a b with
  | case1 => cases h
  | case2 => cases h; rfl
  | case3 => cases h
  | case4 s ih =>
      rcases Option.map_eq_some_iff.mp h with ⟨⟨x, y⟩, hxy, heq⟩
      cases heq
      rw [List.cons_append, List.cons_append, ih hxy]
  | case5 => cases h; rfl
  | case6 c d s hc ih =>
      rcases Option.map_eq_some_iff.mp h with ⟨⟨x, y⟩, hxy, heq⟩
      cases heq
      rw [List.cons_append, ih hxy]

theorem endstrF_append {s a b : Text} (h : endstrF s = some (a, b)) : a ++ b = s := by
  cases s with
  | nil => cases h
  | cons c s =>
      rcases Option.map_eq_some_iff.mp h with ⟨⟨x, y⟩, hxy, heq⟩
      cases heq
      rw [List.cons_append, closing_append hxy]

/-- A written Fortran string ends at its last quote. -/
theorem endstrF_strG2F (s rest : Text) (h : NoQuoteAhead initc rest) :
    endstrF (strG2F s initc ++ rest) = some (strG2F s initc, rest) := by
  have hs : strG2F s initc ++ rest = initc :: (doubled initc s ++ initc :: rest) := by
    rw [strG2F, List.cons_append, List.cons_append, List.append_assoc]
    rfl
  rw [hs, endstrF, closing_doubled s rest h, Option.map_some]
  rfl

theorem strchrFrom_append (c : Char) (t rest : Text) (fuel : Nat) (hfuel : t.length < fuel)
    (ht : ∀ d ∈ t, d ≠ c ∧ d ≠ '\'' ∧ d ≠ '"') :
    strchrFrom c fuel (t ++ c :: rest) = some (c :: rest) := by
  induction t generalizing fuel with
  | nil =>
      rcases Nat.exists_eq_add_of_le' (by omega : 1 ≤ fuel) with ⟨k, rfl⟩
      rw [List.nil_append, strchrFrom, if_pos rfl]
  | cons d t ih =>
      rw [List.length_cons] at hfuel
      rw [List.forall_mem_cons] at ht
      rcases Nat.exists_eq_add_of_le' (by omega : 1 ≤ fuel) with ⟨k, rfl⟩
      have hquote : ¬ (d = '\'' ∨ d = '"') := fun h => h.elim ht.1.2.1 ht.1.2.2
      rw [List.cons_append, strchrFrom, if_neg ht.1.1, if_neg hquote]
      exact ih k (by omega) ht.2

/-- The first of the characters that are looked for is found when no quote is in
    front of it. -/
theorem strchrF_append (c : Char) (t rest : Text) (ht : ∀ d ∈ t, d ≠ c ∧ d ≠ '\'' ∧ d ≠ '"') :
    strchrF (t ++ c :: rest) c = some (c :: rest) := by
  refine strchrFrom_append c t rest _ ?_ ht
  rw [List.length_append]
  omega

end Fortran

section Xml

/-- A character of an XML string. -/
def escapeX : Char → Text
  | '<' => ['&', 'l', 't', ';']
  | '>' => ['&', 'g', 't', ';']
  | '&' => ['&', 'a', 'm', 'p', ';']
  | '"' => ['&', 'q', 'u', 'o', 't', ';']
  | '\'' => ['&', 'a', 'p', 'o', 's', ';']
  | c => [c]

/-- The inside of an XML string. -/
def escaped (s : Text) : Text := s.flatMap escapeX

/-- A string as XML writes it. -/
def strG2X (s : Text) (initc : Char) : Text := initc :: escaped s ++ [initc]

/-- Reads the inside of an XML string up to the closing quote. A `&` that starts none of
    the five references is not counted and copied all the same, so the length is not the
    one that has been counted, and the assertion on it fails. -/
def unescaped (initc : Char) : Text → Option Text
  | [] => none
  | '&' :: 'l' :: 't' :: ';' :: s => (unescaped initc s).map ('<' :: ·)
  | '&' :: 'g' :: 't' :: ';' :: s => (unescaped initc s).map ('>' :: ·)
  | '&' :: 'a' :: 'm' :: 'p' :: ';' :: s => (unescaped initc s).map ('&' :: ·)
  | '&' :: 'q' :: 'u' :: 'o' :: 't' :: ';' :: s => (unescaped initc s).map ('"' :: ·)
  | '&' :: 'a' :: 'p' :: 'o' :: 's' :: ';' :: s => (unescaped initc s).map ('\'' :: ·)
  | c :: s =>
      if c = '&' then none
      else if c = initc then some [] else (unescaped initc s).map (c :: ·)

/-- The string that an XML string denotes. -/
def strX2G : Text → Option Text
  | [] => none
  | c :: s => unescaped c s

theorem escaped_cons (c : Char) (s : Text) : escaped (c :: s) = escapeX c ++ escaped s :=
  List.flatMap_cons

/-- The characters that have a reference. -/
theorem escapeX_cases (c : Char) :
    (c = '<' ∨ c = '>' ∨ c = '&' ∨ c = '"' ∨ c = '\'') ∨ (escapeX c = [c] ∧ c ≠ '<' ∧ c ≠ '>' ∧
      c ≠ '&' ∧ c ≠ '"' ∧ c ≠ '\'') := by
  unfold escapeX
  split <;> simp_all

theorem unescaped_escapeX (c : Char) (s : Text) :
    unescaped '"' (escapeX c ++ s) = (unescaped '"' s).map (c :: ·) := by
  rcases escapeX_cases c with h | ⟨h, hne⟩
  · rcases h with rfl | rfl | rfl | rfl | rfl <;> rfl
  · rw [h, List.singleton_append, unescaped, if_neg hne.2.2.1, if_neg hne.2.2.2.1]
    all_goals
      intros
      exact absurd (by assumption) hne.2.2.1

theorem unescaped_escaped (s : Text) : unescaped '"' (escaped s ++ ['"']) = some s := by
  induction s with
  | nil => rfl
  | cons c s ih => rw [escaped_cons, List.append_assoc, unescaped_escapeX, ih, Option.map_some]

/-- A written XML string denotes the string it was written for. -/
theorem strX2G_strG2X (s : Text) : strX2G (strG2X s '"') = some s := unescaped_escaped s

/-- No character of markup is left inside an XML string. -/
theorem not_markup_of_mem_escaped {c : Char} {s : Text} (h : c ∈ escaped s) :
    c ≠ '<' ∧ c ≠ '>' ∧ c ≠ '"' := by
  rw [escaped, List.mem_flatMap] at h
  rcases h with ⟨d, _, hd⟩
  rcases escapeX_cases d with he | ⟨he, hne⟩
  · rcases he with rfl | rfl | rfl | rfl | rfl <;>
      simp only [escapeX, List.mem_cons, List.not_mem_nil, or_false] at hd <;>
      rcases hd with rfl | rfl | rfl | rfl | rfl | rfl <;> decide
  · rw [he, List.mem_singleton] at hd
    rw [hd]
    exact ⟨hne.1, hne.2.1, hne.2.2.2.1⟩

end Xml

end XevXml.Tools
