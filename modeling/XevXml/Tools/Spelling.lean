import XevXml.Tools.XmlText

/-!
# Documents as Others Write Them

The files that the tools read come from other programs as well. Their texts may hold any
character but `<`, with the references the tools know, their values may stand in either
quote, and blanks may stand between the parts of a tag. Comments and declarations stand
between the elements.

A part of such a document is taken together with the text in front of it, in the way it
is spelled. `Part.cell` is what it says: the cell that should be read for it. A comment
and a declaration are cells with a text of their own.

## Main definitions

* `Chars`, `Value`: Texts and values with what is read for them.
* `Spelled`, `Tag`: Attributes and tags.
* `Part`: The parts of a document.
* `Part.text`, `Part.cell`: How a part is written and what it says.

## Theorems

* `copybufxml_append`: Two texts are read as one.
* `loadAttrs_spelled`: The attributes of a tag are read however they are spelled.
-/

namespace XevXml.Tools

section Chars

/-- The references that the tools know, without the `&` in front of them. -/
def references : List (Text × Char) :=
  [(['l', 't', ';'], '<'), (['g', 't', ';'], '>'), (['a', 'm', 'p', ';'], '&'),
    (['q', 'u', 'o', 't', ';'], '"'), (['a', 'p', 'o', 's', ';'], '\'')]

theorem unescaped_reference {p : Text × Char} (hp : p ∈ references) (initc : Char) (s : Text) :
    unescaped initc ('&' :: (p.1 ++ s)) = (unescaped initc s).map (p.2 :: ·) := by
  simp only [references, List.mem_cons, List.not_mem_nil, or_false] at hp
  rcases hp with rfl | rfl | rfl | rfl | rfl
  · rfl
  · rfl
  · rfl
  · rfl
  · rfl

/-- A `&` is read only as the start of a reference. -/
theorem reference_of_unescaped {initc : Char} {t s : Text}
    (h : unescaped initc ('&' :: t) = some s) :
    ∃ p ∈ references, ∃ u, t = p.1 ++ u := by
  unfold unescaped at h
  split at h
  · cases ‹_ = _›
  · next u heq => cases heq; exact ⟨(['l', 't', ';'], '<'), by decide, u, rfl⟩
  · next u heq => cases heq; exact ⟨(['g', 't', ';'], '>'), by decide, u, rfl⟩
  · next u heq => cases heq; exact ⟨(['a', 'm', 'p', ';'], '&'), by decide, u, rfl⟩
  · next u heq => cases heq; exact ⟨(['q', 'u', 'o', 't', ';'], '"'), by decide, u, rfl⟩
  · next u heq => cases heq; exact ⟨(['a', 'p', 'o', 's', ';'], '\''), by decide, u, rfl⟩
  · next heq =>
      cases heq
      rw [if_pos rfl] at h
      cases h

theorem unescaped_char {initc c : Char} (hamp : c ≠ '&') (hquote : c ≠ initc) (s : Text) :
    unescaped initc (c :: s) = (unescaped initc s).map (c :: ·) := by
  rw [unescaped, if_neg hamp, if_neg hquote]
  all_goals
    intros
    exact absurd (by assumption) hamp

/-- A text that is read up to its end is read in front of any other. -/
theorem unescaped_append (x y s : Text) (hquote : '"' ∉ x)
    (h : unescaped '"' (x ++ ['"']) = some s) :
    unescaped '"' (x ++ y) = (unescaped '"' y).map (s ++ ·) := by
  induction hn : x.length using Nat.strong_induction_on generalizing x s with
  | _ n ih =>
    cases x with
    | nil =>
        cases h
        simp
    | cons c x =>
        rw [List.mem_cons, not_or] at hquote
        rw [List.length_cons] at hn
        rw [List.cons_append] at h ⊢
        by_cases hamp : c = '&'
        · rw [hamp] at h ⊢
          rcases reference_of_unescaped h with ⟨p, hp, u, hu⟩
          -- The reference ends in front of the quote.
          have hmark : '"' ∉ p.1 := by
            simp only [references, List.mem_cons, List.not_mem_nil, or_false] at hp
            rcases hp with rfl | rfl | rfl | rfl | rfl <;> decide
          have hsplit : ∃ v, x = p.1 ++ v := by
            rcases List.append_eq_append_iff.mp hu with ⟨a, ha, hb⟩ | ⟨a, ha, _⟩
            · cases a with
              | nil => exact ⟨[], by rw [ha]; simp⟩
              | cons d a =>
                  rw [List.cons_append, List.cons.injEq] at hb
                  refine absurd ?_ hmark
                  rw [ha, ← hb.1]
                  simp
            · exact ⟨a, ha⟩
          rcases hsplit with ⟨v, rfl⟩
          rw [List.append_assoc, unescaped_reference hp] at h ⊢
          rcases Option.map_eq_some_iff.mp h with ⟨s', hs', rfl⟩
          have hv : v.length < n := by
            rw [List.length_append] at hn
            omega
          rw [ih v.length hv v s' (fun hmem => hquote.2 (List.mem_append_right _ hmem)) hs' rfl,
            Option.map_map]
          rfl
        · have hne : c ≠ '"' := Ne.symm hquote.1
          rw [unescaped_char hamp hne] at h ⊢
          rcases Option.map_eq_some_iff.mp h with ⟨s', hs', rfl⟩
          rw [ih x.length (by omega) x s' hquote.2 hs' rfl, Option.map_map]
          rfl

/-- The text of the buffer as `copybufxml` hands it on. -/
def quoted (strbuf : Text) : Text :=
  strbuf.flatMap (fun c => if c = '"' then "&quot;".toList else [c])

theorem quote_notMem_quoted (s : Text) : '"' ∉ quoted s := by
  intro h
  rcases List.mem_flatMap.mp h with ⟨c, _, hc⟩
  by_cases hq : c = '"'
  · rw [if_pos hq] at hc
    revert hc
    decide
  · rw [if_neg hq, List.mem_singleton] at hc
    exact hq hc.symm

theorem copybufxml_eq_ok_iff (strbuf s : Text) :
    copybufxml strbuf = .ok s ↔ unescaped '"' (quoted strbuf ++ ['"']) = some s := by
  have hread : strX2G ('"' :: quoted strbuf ++ ['"']) =
    unescaped '"' (quoted strbuf ++ ['"']) := rfl
  rw [← hread, quoted]
  unfold copybufxml
  dsimp only
  split
  · next h => rw [h, Except.ok.injEq, Option.some.injEq]
  · next h => rw [h]; simp

/-- Two texts are read as one. -/
theorem copybufxml_append {a b s t : Text} (ha : copybufxml a = .ok s) (hb : copybufxml b = .ok t) :
    copybufxml (a ++ b) = .ok (s ++ t) := by
  rw [copybufxml_eq_ok_iff] at ha hb ⊢
  have hsplit : quoted (a ++ b) = quoted a ++ quoted b := List.flatMap_append
  rw [hsplit, List.append_assoc, unescaped_append _ _ s (quote_notMem_quoted a) ha, hb]
  rfl

/-- A text between the tags, with what is read for it. -/
structure Chars where
  raw : Text
  value : Text
  plain : '<' ∉ raw
  reads : copybufxml raw = .ok value

/-- No text. -/
def Chars.empty : Chars := ⟨[], [], List.not_mem_nil, rfl⟩

/-- A text behind another. -/
def Chars.append (a b : Chars) : Chars :=
  ⟨a.raw ++ b.raw, a.value ++ b.value,
    fun h => (List.mem_append.mp h).elim a.plain b.plain, copybufxml_append a.reads b.reads⟩

theorem Chars.loaduntil (a : Chars) (rest : Text) (hlen : a.raw.length < STRBUFSIZE) :
    loaduntil ['<'] ⟨a.raw ++ '<' :: rest, false, []⟩ = .ok (some '<', ⟨rest, false, a.raw⟩) := by
  refine loaduntil_append ['<'] a.raw rest '<' (by decide) (fun d hd hmem => ?_) hlen
  rw [List.mem_singleton.mp hmem] at hd
  exact a.plain hd

end Chars

section Tags

/-- A value in its quotes, with what is read for it. -/
structure Value where
  quote : Char
  raw : Text
  value : Text
  isQuote : quote = '"' ∨ quote = '\''
  closed : quote ∉ raw
  reads : copybufxml raw = .ok value

/-- So many blanks. -/
def blanks (n : Nat) : Text := List.replicate n ' '

/-- An attribute with the blanks in front of it and around its equals sign. One blank in
    front of it is always there. -/
structure Spelled where
  before : Nat
  name : String
  wellFormed : WellFormedName name
  left : Nat
  right : Nat
  value : Value

def Spelled.text (a : Spelled) : Text :=
  ' ' :: (blanks a.before ++ (a.name.toList ++ (blanks a.left ++ '=' :: (blanks a.right ++
    a.value.quote :: (a.value.raw ++ [a.value.quote])))))

/-- A tag with the blanks in front of its end. -/
structure Tag where
  name : String
  wellFormed : WellFormedName name
  attrs : List Spelled
  tail : Nat

/-- What stands behind the name of a tag. -/
def Tag.inside (tag : Tag) : Text := tag.attrs.flatMap Spelled.text ++ blanks tag.tail

/-- The attributes that are read for a tag. -/
def Tag.values (tag : Tag) : List (String × Option Text) :=
  tag.attrs.map fun a => (a.name, some a.value.value)

/-- The parts of a tag fit the buffer. -/
def Tag.Fits (tag : Tag) : Prop :=
  tag.name.toList.length < STRBUFSIZE ∧ ∀ a ∈ tag.attrs,
    a.name.toList.length < STRBUFSIZE ∧ a.value.raw.length < STRBUFSIZE

/-- A value is read in either quote. -/
theorem loadxmlstring_spelled (v : Value) (n : Nat) (rest strbuf : Text)
    (hlen : v.raw.length < STRBUFSIZE) :
    loadxmlstring ⟨blanks n ++ v.quote :: (v.raw ++ v.quote :: rest), false, strbuf⟩ =
      .ok (v.value, ⟨rest, false, []⟩) := by
  have hne : ¬ ((v.quote == ' ') = true) := by
    rcases v.isQuote with h | h
    · rw [h]; decide
    · rw [h]; decide
  have hdrop : (blanks n ++ v.quote :: (v.raw ++ v.quote :: rest)).dropWhile (· == ' ') =
      v.quote :: (v.raw ++ v.quote :: rest) := by
    induction n with
    | zero =>
        rw [blanks, List.replicate_zero, List.nil_append]
        exact List.dropWhile_cons_of_neg hne
    | succ n ih =>
        rw [blanks, List.replicate_succ, List.cons_append, List.dropWhile_cons_of_pos (by decide)]
        exact ih
  have hq : ¬ (v.quote ≠ '"' ∧ v.quote ≠ '\'') := by
    intro h
    rcases v.isQuote with hv | hv
    · exact h.1 hv
    · exact h.2 hv
  have hvalue := loadValue_append v.quote v.raw rest [] v.closed hlen
  rw [List.nil_append] at hvalue
  unfold loadxmlstring
  dsimp only
  rw [hdrop]
  simp only [if_neg hq, hvalue, bind, Except.bind, v.reads]

/-- Blanks in a tag are skipped. -/
theorem loadAttrs_blanks (n fuel : Nat) (rest strbuf : Text) (acc : List (String × Option Text))
    (hlen : strbuf.length < STRBUFSIZE) :
    loadAttrs (fuel + n) ⟨blanks n ++ rest, false, strbuf⟩ acc =
      loadAttrs fuel ⟨rest, false, strbuf⟩ acc := by
  induction n with
  | zero => rfl
  | succ n ih =>
      have hload : loaduntil [' ', '=', '/', '>'] ⟨' ' :: (blanks n ++ rest), false, strbuf⟩ =
          .ok (some ' ', ⟨blanks n ++ rest, false, strbuf⟩) := by
        have h := loadFrom_append [' ', '=', '/', '>'] [] (blanks n ++ rest) strbuf ' ' (by decide)
          (fun d hd => absurd hd List.not_mem_nil) (by rw [List.append_nil]; exact hlen)
        rw [List.append_nil] at h
        exact h
      have htext : blanks (n + 1) ++ rest = ' ' :: (blanks n ++ rest) := rfl
      rw [← Nat.add_assoc, loadAttrs, htext, hload, ← ih]
      simp [bind, Except.bind]

/-- An attribute is read behind the blank in front of it. -/
theorem loadAttrs_spelled_step (a : Spelled) (fuel : Nat) (rest : Text)
    (acc : List (String × Option Text)) (hname : a.name.toList.length < STRBUFSIZE)
    (hvalue : a.value.raw.length < STRBUFSIZE) :
    loadAttrs (fuel + 1 + a.left + a.before + 1) ⟨a.text ++ rest, false, []⟩ acc =
      loadAttrs fuel ⟨rest, false, []⟩ (acc ++ [(a.name, some a.value.value)]) := by
  have hchars := a.wellFormed.2.1
  -- The name stays in the buffer up to the equals sign.
  have hequals : ∀ n, loadAttrs (fuel + 1 + n) ⟨blanks n ++ '=' :: (blanks a.right ++
      a.value.quote :: (a.value.raw ++ a.value.quote :: rest)), false, a.name.toList⟩ acc =
        loadAttrs fuel ⟨rest, false, []⟩ (acc ++ [(a.name, some a.value.value)]) := by
    intro n
    have h := loadFrom_append [' ', '=', '/', '>'] [] (blanks a.right ++
      a.value.quote :: (a.value.raw ++ a.value.quote :: rest)) a.name.toList '=' (by decide)
      (fun d hd => absurd hd List.not_mem_nil) (by rw [List.append_nil]; exact hname)
    rw [List.append_nil, List.nil_append] at h
    rw [loadAttrs_blanks n (fuel + 1) _ a.name.toList acc hname, loadAttrs, loaduntil,
      if_neg Bool.false_ne_true, h]
    simp [bind, Except.bind, loadxmlstring_spelled a.value a.right rest _ hvalue]
  have htext : a.text ++ rest = blanks (a.before + 1) ++ (a.name.toList ++ (blanks a.left ++
      '=' :: (blanks a.right ++ a.value.quote :: (a.value.raw ++ a.value.quote :: rest)))) := by
    simp [Spelled.text, blanks, List.replicate_succ]
  rw [htext, Nat.add_assoc (fuel + 1 + a.left), loadAttrs_blanks _ _ _ [] acc (by decide)]
  cases hleft : a.left with
  | zero =>
      have h := loadFrom_append [' ', '=', '/', '>'] a.name.toList (blanks a.right ++
        a.value.quote :: (a.value.raw ++ a.value.quote :: rest)) [] '=' (by decide) hchars hname
      rw [Nat.add_zero, ← hequals 0, loadAttrs, loadAttrs]
      have h0 := loadFrom_append [' ', '=', '/', '>'] [] (blanks a.right ++
        a.value.quote :: (a.value.raw ++ a.value.quote :: rest)) a.name.toList '=' (by decide)
        (fun d hd => absurd hd List.not_mem_nil) (by rw [List.append_nil]; exact hname)
      rw [List.append_nil, List.nil_append] at h0
      simp only [blanks, List.replicate_zero, List.nil_append, loaduntil, Bool.false_eq_true,
        if_false] at h h0 ⊢
      rw [h, h0]
  | succ n =>
      have h := loadFrom_append [' ', '=', '/', '>'] a.name.toList
        (blanks n ++ '=' :: (blanks a.right ++
        a.value.quote :: (a.value.raw ++ a.value.quote :: rest))) [] ' ' (by decide) hchars hname
      have htail : blanks (n + 1) ++ '=' :: (blanks a.right ++ a.value.quote ::
          (a.value.raw ++ a.value.quote :: rest)) = ' ' :: (blanks n ++ '=' :: (blanks a.right ++
            a.value.quote :: (a.value.raw ++ a.value.quote :: rest))) := rfl
      rw [← hequals n, htail, ← Nat.add_assoc, loadAttrs, loaduntil, if_neg Bool.false_ne_true, h]
      simp [bind, Except.bind]

theorem length_spelled (a : Spelled) : a.left + a.before + 2 ≤ a.text.length := by
  simp only [Spelled.text, blanks, List.length_cons, List.length_append, List.length_replicate]
  omega

/-- The attributes of a tag are read however they are spelled. -/
theorem loadAttrs_spelled (tag : Tag) (fuel : Nat) (e : Char) (rest : Text)
    (he : e = '/' ∨ e = '>') (hfits : tag.Fits) (hfuel : tag.inside.length < fuel) :
    loadAttrs fuel ⟨tag.inside ++ e :: rest, false, []⟩ [] =
      .ok (e, tag.values, ⟨rest, false, []⟩) := by
  rcases tag with ⟨name, wellFormed, attrs, tail⟩
  have hall : ∀ (as : List Spelled) (fuel : Nat) (acc : List (String × Option Text)),
      (∀ a ∈ as, a.name.toList.length < STRBUFSIZE ∧ a.value.raw.length < STRBUFSIZE) →
        (as.flatMap Spelled.text ++ blanks tail).length < fuel →
          loadAttrs fuel ⟨(as.flatMap Spelled.text ++ blanks tail) ++ e :: rest, false, []⟩ acc =
            .ok (e, acc ++ as.map (fun a => (a.name, some a.value.value)), ⟨rest, false, []⟩) := by
    intro as
    induction as with
    | nil =>
        intro fuel acc _ hfuel
        rw [List.flatMap_nil, List.nil_append] at hfuel ⊢
        have hlen : (blanks tail).length = tail := List.length_replicate
        rcases Nat.exists_eq_add_of_lt hfuel with ⟨k, hk⟩
        have hsum : fuel = k + 1 + tail := by omega
        have hmem : e ∈ [' ', '=', '/', '>'] := by rcases he with rfl | rfl <;> decide
        have hne : e ≠ '=' := by rcases he with rfl | rfl <;> decide
        rw [hsum, loadAttrs_blanks _ _ _ [] acc (by decide), loadAttrs, loaduntil_here _ rest
          e hmem]
        simp only [bind, Except.bind, if_neg hne, if_pos he, List.map_nil, List.append_nil]
    | cons a as ih =>
        intro fuel acc has hfuel
        rw [List.forall_mem_cons] at has
        rw [List.flatMap_cons, List.append_assoc, List.length_append] at hfuel
        have hlen := length_spelled a
        have hsum : fuel = (fuel - (a.left + a.before + 2)) + 1 + a.left + a.before + 1 := by omega
        have hnext := ih (fuel - (a.left + a.before + 2))
          (acc ++ [(a.name, some a.value.value)]) has.2
          (by omega)
        have htext : ((a :: as).flatMap Spelled.text ++ blanks tail) ++ e :: rest =
            a.text ++ ((as.flatMap Spelled.text ++ blanks tail) ++ e :: rest) := by
          rw [List.flatMap_cons, List.append_assoc, List.append_assoc, List.append_assoc]
        rw [htext, hsum, loadAttrs_spelled_step a _ _ acc has.1.1 has.1.2, hnext, List.map_cons,
          List.append_assoc, List.singleton_append]
  exact hall attrs fuel [] hfits.2 hfuel

/-- Behind the name of a tag stands nothing or a blank. -/
theorem inside_cases (tag : Tag) : tag.inside = [] ∨ ∃ more, tag.inside = ' ' :: more := by
  rcases tag with ⟨name, wellFormed, attrs, tail⟩
  cases attrs with
  | nil =>
      cases tail with
      | zero => exact Or.inl rfl
      | succ n => exact Or.inr ⟨blanks n, rfl⟩
  | cons a attrs =>
      rw [Tag.inside, List.flatMap_cons, Spelled.text, List.cons_append, List.cons_append]
      exact Or.inr ⟨_, rfl⟩

/-- A tag is read with the text in front of it. -/
theorem get_xml_spelled (pre : Chars) (tag : Tag) (fuel : Nat) (e : Char) (rest : Text)
    (he : e = '/' ∨ e = '>') (hpre : pre.raw.length < STRBUFSIZE) (hfits : tag.Fits)
    (hfuel : tag.inside.length ≤ fuel) :
    get_xml (fuel + 1) ⟨pre.raw ++ '<' :: (tag.name.toList ++ (tag.inside ++ e :: rest)),
      false, []⟩ =
      afterTag fuel tag.name tag.values pre.value e ⟨rest, false, []⟩ := by
  have hname := tag.wellFormed
  have hchars : ∀ d ∈ tag.name.toList, d ∉ [' ', '/', '>'] := by
    intro d hd hmem
    have hnot := hname.2.1 d hd
    simp only [List.mem_cons, List.not_mem_nil, or_false, not_or] at hnot hmem
    rcases hmem with h | h | h
    · exact hnot.1 h
    · exact hnot.2.2.1 h
    · exact hnot.2.2.2 h
  have hdash : tag.name.toList ≠ ['!', '-', '-'] := by
    intro h
    exact hname.2.2 (by rw [h]; exact List.mem_cons_self)
  have hmark : tag.name.toList.head? ≠ some '?' := by
    intro h
    exact hname.2.2 (by rw [h]; exact List.mem_cons_of_mem _ List.mem_cons_self)
  have hload := loadAttrs_spelled tag (fuel + 1) e rest he hfits (by omega)
  rw [get_xml, pre.loaduntil _ hpre]
  simp only [bind, Except.bind, reduceCtorEq, if_false, pre.reads, Reader.cleared]
  rcases inside_cases tag with hnil | ⟨more, hmore⟩
  · have hmem : e ∈ [' ', '/', '>'] := by rcases he with rfl | rfl <;> decide
    have hattrs : tag.values = [] := by
      rcases tag with ⟨name, wellFormed, attrs, tail⟩
      cases attrs with
      | nil => rfl
      | cons a attrs =>
          rw [Tag.inside, List.flatMap_cons, Spelled.text, List.cons_append,
            List.cons_append] at hnil
          cases hnil
    rw [hnil, List.nil_append, loaduntil_append _ tag.name.toList _ e hmem hchars hfits.1, hattrs]
    rcases he with rfl | rfl
    · simp only [hname.1, and_false, if_false, hmark, hdash, if_true, String.ofList_toList,
        afterTag]
      rfl
    · simp only [hname.1, and_false, if_false, hmark, hdash, String.ofList_toList, afterTag]
      rfl
  · -- The blank ends the name, and the attributes are read behind it.
    have hblank := loadAttrs_blanks 1 fuel (more ++ e :: rest) [] [] (by decide)
    have htext : blanks 1 ++ (more ++ e :: rest) = tag.inside ++ e :: rest := by
      rw [hmore]
      rfl
    rw [htext, hload] at hblank
    rw [hmore, List.cons_append, loaduntil_append _ tag.name.toList _ ' ' (by decide) hchars
      hfits.1]
    simp only [hname.1, and_false, if_false, hmark, hdash, String.ofList_toList, if_true, ← hblank,
      (by decide : ¬ ' ' = '/')]
    rcases he with rfl | rfl
    · rfl
    · rfl

/-- A tag that closes an element is a cell with the text in front of it. -/
theorem get_xml_closing (post : Chars) (fuel : Nat) (name : String) (n : Nat) (rest : Text)
    (hname : WellFormedName name) (hpost : post.raw.length < STRBUFSIZE)
    (hlen : (name.toList ++ blanks n).length < STRBUFSIZE) :
    get_xml (fuel + 1)
        ⟨post.raw ++ '<' :: '/' :: ((name.toList ++ blanks n) ++ '>' :: rest), false, []⟩ =
      .ok (some (.mk .close (String.ofList (name.toList ++ blanks n)) [] (some post.value) none []),
        ⟨rest, false, []⟩) := by
  have hchars : ∀ d ∈ name.toList ++ blanks n, d ∉ ['>'] := by
    intro d hd hmem
    rw [List.mem_singleton.mp hmem] at hd
    rcases List.mem_append.mp hd with h | h
    · exact hname.2.1 '>' h (by decide)
    · exact absurd (List.eq_of_mem_replicate h) (by decide)
  rw [get_xml, post.loaduntil _ hpost]
  simp only [bind, Except.bind, reduceCtorEq, if_false, post.reads, Reader.cleared]
  rw [loaduntil_here _ _ '/' (by decide)]
  simp only [and_self, if_true]
  rw [loaduntil_append _ _ _ '>' (by decide) hchars hlen]

end Tags

section Parts

/-- A comment's text never holds two dashes in a row. -/
structure Comment where
  content : Text
  noDashes : ¬ ['-', '-'] <:+: content

/-- A declaration's text never holds its own end. -/
structure Declaration where
  content : Text
  noEnd : ¬ ['?', '>'] <:+: content

/-- The parts of a document, each with the text in front of it. The number of an element
    is that of the blanks in its closing tag. -/
inductive Part
  | single (pre : Chars) (tag : Tag)
  | element (pre : Chars) (tag : Tag) (children : List Part) (post : Chars) (closing : Nat)
  | comment (pre : Chars) (c : Comment)
  | dec (pre : Chars) (d : Declaration)

/-- Induction on parts and lists of parts. -/
theorem Part.induct {P : Part → Prop} {Q : List Part → Prop}
    (hsingle : ∀ pre tag, P (single pre tag))
    (helement : ∀ pre tag cs post closing, Q cs → P (element pre tag cs post closing))
    (hcomment : ∀ pre c, P (comment pre c)) (hdec : ∀ pre d, P (dec pre d))
    (hnil : Q []) (hcons : ∀ x xs, P x → Q xs → Q (x :: xs)) : (∀ x, P x) ∧ ∀ xs, Q xs := by
  have hpart : ∀ x, P x := fun x => Part.rec (motive_1 := P) (motive_2 := Q) hsingle helement
    hcomment hdec hnil (fun x xs hx hxs => hcons x xs hx hxs) x
  refine ⟨hpart, fun xs => ?_⟩
  induction xs with
  | nil => exact hnil
  | cons x xs ih => exact hcons x xs (hpart x) ih

mutual

/-- All parts in a part. -/
def Part.parts : Part → List Part
  | .single pre tag => [.single pre tag]
  | .element pre tag cs post closing => .element pre tag cs post closing :: partsAll cs
  | .comment pre c => [.comment pre c]
  | .dec pre d => [.dec pre d]

/-- All parts in a list of parts. -/
def partsAll : List Part → List Part
  | [] => []
  | x :: xs => x.parts ++ partsAll xs

end

mutual

/-- How a part is written. -/
def Part.text : Part → Text
  | .single pre tag => pre.raw ++ '<' :: (tag.name.toList ++ (tag.inside ++ ['/', '>']))
  | .element pre tag cs post closing =>
      pre.raw ++ '<' :: (tag.name.toList ++ (tag.inside ++ '>' :: (textAll cs ++ (post.raw ++
        '<' :: '/' :: ((tag.name.toList ++ blanks closing) ++ ['>'])))))
  | .comment pre c => pre.raw ++ '<' :: '!' :: '-' :: '-' :: (c.content ++ ['-', '-', '>'])
  | .dec pre d => pre.raw ++ '<' :: '?' :: (d.content ++ ['?', '>'])

/-- How a list of parts is written. -/
def textAll : List Part → Text
  | [] => []
  | x :: xs => x.text ++ textAll xs

end

/-- A text without the characters that end a tag. -/
def unbracketed (s : Text) : Text := s.filter (· ≠ '>')

/-- What a cell for a comment holds: the text from `!` to the last dash, without the
    character behind the first dashes and without those that end a tag. -/
def commentName (c : Text) : Text := ['!', '-', '-'] ++ unbracketed (c.drop 1) ++ ['-', '-']

mutual

/-- What a part says. -/
def Part.cell : Part → Cell
  | .single pre tag => .mk .node tag.name tag.values (some pre.value) none []
  | .element pre tag cs post _ =>
      .mk .node tag.name tag.values (some pre.value) (some post.value) (cellAll cs)
  | .comment pre c => .mk .comm (String.ofList (commentName c.content)) [] (some pre.value) none []
  | .dec pre d =>
      .mk .dec (String.ofList ('?' :: (d.content ++ ['?']))) [] (some pre.value) none []

/-- What a list of parts says. -/
def cellAll : List Part → List Cell
  | [] => []
  | x :: xs => x.cell :: cellAll xs

end

/-- The texts of a part fit the buffer, except those of a comment and a declaration. -/
def Part.Fits : Part → Prop
  | .single pre tag => pre.raw.length < STRBUFSIZE ∧ tag.Fits
  | .element pre tag _ post closing =>
      pre.raw.length < STRBUFSIZE ∧ tag.Fits ∧ post.raw.length < STRBUFSIZE ∧
        (tag.name.toList ++ blanks closing).length < STRBUFSIZE
  | .comment pre _ => pre.raw.length < STRBUFSIZE
  | .dec pre _ => pre.raw.length < STRBUFSIZE

end Parts

end XevXml.Tools
