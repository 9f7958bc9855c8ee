import XevXml.Core.Buffer
import XevXml.Tools.Continu.Line

/-!
# Fortran Strings in Memory

The functions that write and read a Fortran string go over it twice. The first time
they count, and from what they have counted they compute the number of cells that the
result needs; the second time they fill the cells, and at the end they assert that the
string they have written is as long as they thought. A doubled quote is counted on its
own in both directions, so the number of cells is the one that is filled, and the
functions do what the short definitions of the same names say.

A search outside of strings jumps over whole strings. As a string ends at the first
quote that no second one follows, what the search has passed over is a row of single
characters and of strings as they are written, and what it finds is behind it.

## Main definitions

* `Buffered.strG2F`, `Buffered.strF2G`: Both passes of the functions, with their
  assertions.
* `Buffered.endstrF`: The place of the closing quote.
* `Skipped`: What a search outside of strings passes over.

## Theorems

* `Buffered.strG2F_eq`, `Buffered.strF2G_eq`: The passes agree, and the assertions hold.
* `Buffered.endstrF_eq`: The closing quote is the last character of the string.
* `strchrF_iff`: What the search finds.
* `fortranCodec`: Writing, reading, the end of a string and the search together.
-/

namespace XevXml.Tools

/-- A step that has no result has left the memory it may use. -/
def orBound {β : Type} : Option β → Run β
  | some b => .ok b
  | none => .error .bound

/-- The string in a buffer, with the assertion on its length. -/
def checked {α : Type} [DecidableEq α] (nul : α) (t : Buffer α) : Run (List α) :=
  let s := cstring nul t.cells
  if s.length = t.size - 1 then .ok s else .error .assertion

namespace Buffered

/-- The first pass of `strG2F`: the position of the end and the number of quotes. -/
def sizeG2F (initc : Char) : Text → Nat → Nat → Nat × Nat
  | [], l, c => (l, c)
  | d :: s, l, c => if d = initc then sizeG2F initc s (l + 1) (c + 1) else sizeG2F initc s (l + 1) c

/-- The second pass of `strG2F`. -/
def fillG2F (initc : Char) : Text → Nat → Buffer Char → Option (Buffer Char)
  | [], c, t => do
      let t ← t.write c [initc]
      t.write (c + 1) ['\x00']
  | d :: s, c, t =>
      if d = initc then do
        let t ← t.write c [initc]
        let t ← t.write (c + 1) [initc]
        fillG2F initc s (c + 2) t
      else do
        let t ← t.write c [d]
        fillG2F initc s (c + 1) t

/-- A string as Fortran writes it. -/
def strG2F (s : Text) (initc : Char) : Run Text := do
  let (l, c) := sizeG2F initc s 0 0
  let len := l + 3 + c
  let t ← orBound ((Buffer.alloc len).write 0 [initc])
  let t ← orBound (fillG2F initc s 1 t)
  checked '\x00' t

/-- The first pass of `strF2G`: the position of the closing quote and the number of
    doubled quotes in front of it. Without a closing quote it reads on behind the end. -/
def sizeF2G (initc : Char) : Text → Nat → Nat → Option (Nat × Nat)
  | [], _, _ => none
  | [d], l, c => if d = initc then some (l, c) else none
  | d :: e :: s, l, c =>
      if d = initc then
        if e = initc then sizeF2G initc s (l + 2) (c + 1) else some (l, c)
      else sizeF2G initc (e :: s) (l + 1) c

/-- The second pass of `strF2G`. -/
def fillF2G (initc : Char) : Text → Nat → Buffer Char → Option (Buffer Char)
  | [], _, _ => none
  | [d], c, t => if d = initc then t.write c ['\x00'] else none
  | d :: e :: s, c, t =>
      if d = initc then
        if e = initc then do
          let t ← t.write c [initc]
          fillF2G initc s (c + 1) t
        else t.write c ['\x00']
      else do
        let t ← t.write c [d]
        fillF2G initc (e :: s) (c + 1) t

/-- The string that a Fortran string denotes. -/
def strF2G : Text → Run Text
  | [] => .error (.exit "strF2G: Fortran string must start with \" or '\n")
  | initc :: s =>
      if initc ≠ '"' ∧ initc ≠ '\'' then
        .error (.exit "strF2G: Fortran string must start with \" or '\n")
      else do
        let (l, c) ← orBound (sizeF2G initc s 1 0)
        let len := l - c
        let t ← orBound (fillF2G initc s 0 (Buffer.alloc len))
        checked '\x00' t

/-- Goes on to the closing quote from a position behind the opening one. -/
def endFrom (c : Char) : Text → Nat → Option Nat
  | [], _ => none
  | [d], t => if d = c then some t else none
  | d :: e :: s, t =>
      if d = c then
        if e = c then endFrom c s (t + 2) else some t
      else endFrom c (e :: s) (t + 1)

/-- The position of the closing quote of the string that a text starts with. -/
def endstrF : Text → Option Nat
  | [] => none
  | c :: s => endFrom c s 1

end Buffered

/-- What a search for a character passes over in front of a text: characters that are
    no quotes, and whole strings. -/
inductive Skipped (c : Char) (t : Text) : Text → Prop
  | nil : Skipped c t []
  | char {d : Char} {p : Text} : isQuote d = false → d ≠ c → Skipped c t p → Skipped c t (d :: p)
  | string {q : Char} {u p : Text} : isQuote q = true → q ≠ c → NoQuoteAhead q (p ++ t) →
      Skipped c t p → Skipped c t (strG2F u q ++ p)

section Writing

variable {initc : Char}

theorem checked_append {α : Type} [DecidableEq α] {nul : α} {s : List α} (hs : nul ∉ s)
    {size : Nat} (hsize : size = s.length + 1) (rest : List α) :
    checked nul ⟨size, s ++ nul :: rest⟩ = .ok s := by
  have hstring : cstring nul (s ++ nul :: rest) = s := cstring_append hs rest
  have hlen : s.length = size - 1 := by omega
  rw [checked, hstring, if_pos hlen]

/-- The assertion fails if there is a terminator in what has been written in front of the
    last cell. -/
theorem checked_of_mem {α : Type} [DecidableEq α] {nul : α} {s : List α} (hs : nul ∈ s)
    {size : Nat} (hsize : size = s.length + 1) (rest : List α) :
    checked nul ⟨size, s ++ rest⟩ = .error .assertion := by
  have hlen := length_cstring_lt hs rest
  have hne : ¬ (cstring nul (s ++ rest)).length = size - 1 := by omega
  rw [checked, if_neg hne]

theorem Buffered.sizeG2F_spec (initc : Char) (s : Text) (l c : Nat) :
    (sizeG2F initc s l c).1 + (sizeG2F initc s l c).2 = l + c + (doubled initc s).length := by
  induction s generalizing l c with
  | nil => rfl
  | cons d s ih =>
      rw [sizeG2F]
      by_cases hd : d = initc
      · rw [if_pos hd, ih, hd, doubled_cons_self, List.length_cons, List.length_cons]
        omega
      · rw [if_neg hd, ih, doubled_cons_ne hd, List.length_cons]
        omega

theorem Buffered.fillG2F_spec (initc : Char) (s : Text) {c : Nat} {t : Buffer Char}
    (hpos : t.cells.length = c) (hfit : c + (doubled initc s).length + 2 ≤ t.size) :
    fillG2F initc s c t = some (t.append (doubled initc s ++ [initc, '\x00'])) := by
  induction s generalizing c t with
  | nil =>
      rw [doubled_nil, List.length_nil] at hfit
      obtain ⟨hquote, hlen⟩ := Buffer.write_one initc hpos (by omega)
      have hnul := (Buffer.write_one '\x00' hlen (show c + 1 + 1 ≤ t.size by omega)).1
      rw [fillG2F, hquote]
      exact hnul.trans (by rw [Buffer.append_append]; rfl)
  | cons d s ih =>
      rw [fillG2F]
      by_cases hd : d = initc
      · -- A quote is written twice.
        rw [hd, doubled_cons_self, List.length_cons, List.length_cons] at hfit
        obtain ⟨hfirst, hlen⟩ := Buffer.write_one initc hpos (by omega)
        obtain ⟨hsecond, hlen⟩ := Buffer.write_one initc hlen (show c + 1 + 1 ≤ t.size by omega)
        have hrest := ih hlen (show c + 2 + _ + 2 ≤ t.size by omega)
        rw [Buffer.append_append] at hsecond hrest
        subst hd
        rw [if_pos rfl, hfirst, Option.bind_eq_bind, Option.bind_some, hsecond,
          Option.bind_some, doubled_cons_self]
        exact hrest.trans (by rw [Buffer.append_append]; rfl)
      · rw [doubled_cons_ne hd, List.length_cons] at hfit
        obtain ⟨hone, hlen⟩ := Buffer.write_one d hpos (by omega)
        have hrest := ih hlen (show c + 1 + _ + 2 ≤ t.size by omega)
        simp only [if_neg hd, doubled_cons_ne hd, Option.bind_eq_bind, Option.bind_some, hone,
          hrest, Buffer.append_append]
        rfl

theorem not_mem_doubled {x : Char} (hx : x ≠ initc) {s : Text} (hs : x ∉ s) :
    x ∉ doubled initc s := by
  rw [doubled, List.mem_flatMap]
  rintro ⟨d, hd, hmem⟩
  split at hmem
  · simp only [List.mem_cons, List.not_mem_nil, or_false, or_self] at hmem
    exact hx hmem
  · rw [List.mem_singleton] at hmem
    exact hs (hmem ▸ hd)

/-- The cells that have been counted are the ones that are written, so the assertion
    holds. -/
theorem Buffered.strG2F_eq {s : Text} (hs : '\x00' ∉ s) (hinitc : '\x00' ≠ initc) :
    Buffered.strG2F s initc = .ok (Tools.strG2F s initc) := by
  have hsize := sizeG2F_spec initc s 0 0
  generalize hlc : sizeG2F initc s 0 0 = lc at hsize
  obtain ⟨l, c⟩ := lc
  simp only [Nat.zero_add] at hsize
  have hfirst : (Buffer.alloc (l + 3 + c)).write 0 [initc] =
      some ((Buffer.alloc (l + 3 + c)).append [initc]) :=
    Buffer.write_end rfl (by rw [Buffer.size_alloc, List.length_singleton]; omega)
  have hfill := fillG2F_spec initc s (t := (Buffer.alloc (l + 3 + c)).append [initc])
    (c := 1) rfl (by rw [Buffer.size_append, Buffer.size_alloc]; omega)
  have hnul : '\x00' ∉ Tools.strG2F s initc := by
    rw [Tools.strG2F, List.cons_append, List.mem_cons, List.mem_append, List.mem_singleton]
    exact fun h => h.elim hinitc fun h => h.elim (not_mem_doubled hinitc hs) hinitc
  have hcheck : checked '\x00' (((Buffer.alloc (l + 3 + c)).append [initc]).append
      (doubled initc s ++ [initc, '\x00'])) = .ok (Tools.strG2F s initc) := by
    have hcells : ((Buffer.alloc (l + 3 + c)).append [initc]).append
        (doubled initc s ++ [initc, '\x00']) = ⟨l + 3 + c, Tools.strG2F s initc ++ ['\x00']⟩ := by
      simp [Buffer.append, Buffer.alloc, Tools.strG2F]
    rw [hcells]
    refine checked_append hnul ?_ []
    simp only [Tools.strG2F, List.cons_append, List.length_cons, List.length_append,
      List.length_nil]
    omega
  rw [Buffered.strG2F, hlc]
  simp only [hfirst, orBound]
  exact (congrArg (fun o => (orBound o).bind (checked '\x00')) hfill).trans hcheck

end Writing

section Reading

variable {initc : Char}

theorem Buffered.sizeF2G_none {t : Text} (h : undoubled initc t = none) (l c : Nat) :
    sizeF2G initc t l c = none := by
  fun_induction undoubled initc t generalizing l c with
  | case1 => rfl
  | case2 => cases h
  | case3 c hc => rw [sizeF2G, if_neg hc]
  | case4 s ih => rw [sizeF2G, if_pos rfl, if_pos rfl, ih (Option.map_eq_none_iff.mp h)]
  | case5 => cases h
  | case6 c d s hc ih => rw [sizeF2G, if_neg hc, ih (Option.map_eq_none_iff.mp h)]

/-- The position of the closing quote is the number of characters of the string, with
    the quotes counted twice that are doubled. -/
theorem Buffered.sizeF2G_some {t u : Text} (h : undoubled initc t = some u) (l c : Nat) :
    ∃ l' c', sizeF2G initc t l c = some (l', c') ∧ l' + c = l + c' + u.length := by
  fun_induction undoubled initc t generalizing l c u with
  | case1 => cases h
  | case2 =>
      cases h
      exact ⟨l, c, by rw [sizeF2G, if_pos rfl], rfl⟩
  | case3 => cases h
  | case4 s ih =>
      rcases Option.map_eq_some_iff.mp h with ⟨v, hv, rfl⟩
      rcases ih hv (l + 2) (c + 1) with ⟨l', c', hsize, hsum⟩
      refine ⟨l', c', by rw [sizeF2G, if_pos rfl, if_pos rfl, hsize], ?_⟩
      rw [List.length_cons]
      omega
  | case5 d s hd =>
      cases h
      exact ⟨l, c, by rw [sizeF2G, if_pos rfl, if_neg hd], rfl⟩
  | case6 d e s hd ih =>
      rcases Option.map_eq_some_iff.mp h with ⟨v, hv, rfl⟩
      rcases ih hv (l + 1) c with ⟨l', c', hsize, hsum⟩
      refine ⟨l', c', by rw [sizeF2G, if_neg hd, hsize], ?_⟩
      rw [List.length_cons]
      omega

theorem Buffered.fillF2G_spec {s u : Text} (h : undoubled initc s = some u) {c : Nat}
    {t : Buffer Char} (hpos : t.cells.length = c) (hfit : c + u.length + 1 ≤ t.size) :
    fillF2G initc s c t = some (t.append (u ++ ['\x00'])) := by
  fun_induction undoubled initc s generalizing c t u with
  | case1 => cases h
  | case2 =>
      cases h
      rw [fillF2G, if_pos rfl, (Buffer.write_one _ hpos (by rw [List.length_nil] at hfit; omega)).1]
      rfl
  | case3 => cases h
  | case4 s ih =>
      rcases Option.map_eq_some_iff.mp h with ⟨v, hv, rfl⟩
      rw [List.length_cons] at hfit
      rcases Buffer.write_one initc hpos (by omega) with ⟨hwrite, hlen⟩
      have hrest := ih hv hlen (by rw [Buffer.size_append]; omega)
      simp only [fillF2G, if_true, hwrite, Option.bind_eq_bind, Option.bind_some, hrest,
        Buffer.append_append]
      rfl
  | case5 d s hd =>
      cases h
      rw [fillF2G, if_pos rfl, if_neg hd,
        (Buffer.write_one _ hpos (by rw [List.length_nil] at hfit; omega)).1]
      rfl
  | case6 d e s hd ih =>
      rcases Option.map_eq_some_iff.mp h with ⟨v, hv, rfl⟩
      rw [List.length_cons] at hfit
      rcases Buffer.write_one d hpos (by omega) with ⟨hwrite, hlen⟩
      have hrest := ih hv hlen (by rw [Buffer.size_append]; omega)
      simp only [fillF2G, if_neg hd, hwrite, Option.bind_eq_bind, Option.bind_some, hrest,
        Buffer.append_append]
      rfl

/-- A Fortran string that is closed is read, and its assertion holds; of one that is not
    closed the first pass does not find the end. -/
theorem Buffered.strF2G_eq {s : Text} (hs : '\x00' ∉ s) (hquote : isQuote initc = true) :
    Buffered.strF2G (initc :: s) = orBound (Tools.strF2G (initc :: s)) := by
  have hstart : ¬ (initc ≠ '"' ∧ initc ≠ '\'') := by
    rintro ⟨hdouble, hsingle⟩
    simp [isQuote, hdouble, hsingle] at hquote
  rw [Buffered.strF2G, if_neg hstart, Tools.strF2G]
  cases hu : undoubled initc s with
  | none =>
      rw [sizeF2G_none hu]
      rfl
  | some u =>
      rcases sizeF2G_some hu 1 0 with ⟨l, c, hsize, hsum⟩
      have hfill := fillF2G_spec hu (t := Buffer.alloc (l - c)) (c := 0) rfl
        (by rw [Buffer.size_alloc]; omega)
      have hnul : '\x00' ∉ u := fun h => hs (List.mem_of_mem_dropLast (mem_of_undoubled hu _ h))
      have hcells : l - c = u.length + 1 := by omega
      have hcheck : checked '\x00' ((Buffer.alloc (l - c)).append (u ++ ['\x00'])) = .ok u :=
        checked_append hnul hcells []
      rw [hsize]
      exact (congrArg (fun o => (orBound o).bind (checked '\x00')) hfill).trans hcheck

/-- The closing quote is the last character of the string. -/
theorem Buffered.endFrom_eq (c : Char) (s : Text) (pos : Nat) :
    endFrom c s pos = (closing c s).map fun p => pos + p.1.length - 1 := by
  fun_induction closing c s generalizing pos with
  | case1 => rfl
  | case2 => rw [endFrom, if_pos rfl]; rfl
  | case3 d hd => rw [endFrom, if_neg hd]; rfl
  | case4 s ih =>
      rw [endFrom, if_pos rfl, if_pos rfl, ih, Option.map_map]
      congr 1
      funext p
      simp only [Function.comp, List.length_cons]
      omega
  | case5 e s he => rw [endFrom, if_pos rfl, if_neg he]; rfl
  | case6 d e s hd ih =>
      rw [endFrom, if_neg hd, ih, Option.map_map]
      congr 1
      funext p
      simp only [Function.comp, List.length_cons]
      omega

theorem Buffered.endstrF_eq (s : Text) :
    Buffered.endstrF s = (Tools.endstrF s).map fun p => p.1.length - 1 := by
  cases s with
  | nil => rfl
  | cons c s =>
      rw [Buffered.endstrF, Tools.endstrF, endFrom_eq, Option.map_map]
      congr 1
      funext p
      simp only [Function.comp, List.length_cons]
      omega

end Reading

section Search

/-- What stands in front of a text up to a closing quote is a string as it is written,
    and no quote follows it. -/
theorem closing_strG2F {q : Char} {s a b : Text} (h : closing q s = some (a, b)) :
    ∃ u, q :: a = strG2F u q ∧ NoQuoteAhead q b := by
  fun_induction closing q s generalizing a b with
  | case1 => cases h
  | case2 =>
      cases h
      exact ⟨[], rfl, fun hb => absurd hb (by simp)⟩
  | case3 => cases h
  | case4 s ih =>
      rcases Option.map_eq_some_iff.mp h with ⟨⟨x, y⟩, hxy, heq⟩
      cases heq
      rcases ih hxy with ⟨u, hu, hahead⟩
      refine ⟨q :: u, ?_, hahead⟩
      rw [strG2F, List.cons_append, List.cons.injEq] at hu
      rw [strG2F, doubled_cons_self, List.cons_append, List.cons_append, List.cons_append, ← hu.2]
  | case5 d s hd =>
      cases h
      exact ⟨[], rfl, fun hb => hd (Option.some.inj hb)⟩
  | case6 c d s hc ih =>
      rcases Option.map_eq_some_iff.mp h with ⟨⟨x, y⟩, hxy, heq⟩
      cases heq
      rcases ih hxy with ⟨u, hu, hahead⟩
      refine ⟨c :: u, ?_, hahead⟩
      rw [strG2F, List.cons_append, List.cons.injEq] at hu
      rw [strG2F, doubled_cons_ne hc, List.cons_append, List.cons_append, ← hu.2]

theorem skipped_of_strchrFrom {c : Char} (fuel : Nat) {s t : Text}
    (h : strchrFrom c fuel s = some t) : ∃ p r, t = c :: r ∧ s = p ++ t ∧ Skipped c t p := by
  induction fuel generalizing s with
  | zero => cases h
  | succ fuel ih =>
      cases s with
      | nil => cases h
      | cons d s =>
          rw [strchrFrom] at h
          by_cases hd : d = c
          · rw [if_pos hd, Option.some.injEq] at h
            exact ⟨[], s, by rw [← h, hd], h, .nil⟩
          rw [if_neg hd] at h
          by_cases hq : d = '\'' ∨ d = '"'
          · have hquote : isQuote d = true := by
              rcases hq with rfl | rfl <;> rfl
            rw [if_pos hq] at h
            cases hend : endstrF (d :: s) with
            | none => rw [hend] at h; cases h
            | some ab =>
                obtain ⟨a, b⟩ := ab
                rw [hend] at h
                rcases ih h with ⟨p, r, ht, hb, hp⟩
                have hsplit := endstrF_append hend
                rw [endstrF] at hend
                rcases Option.map_eq_some_iff.mp hend with ⟨⟨x, y⟩, hxy, heq⟩
                cases heq
                rcases closing_strG2F hxy with ⟨u, hu, hahead⟩
                refine ⟨strG2F u d ++ p, r, ht, ?_, .string hquote hd (hb ▸ hahead) hp⟩
                rw [← hsplit, hu, hb, List.append_assoc]
          · rw [if_neg hq] at h
            rcases ih h with ⟨p, r, ht, hs, hp⟩
            have hplain : isQuote d = false := by
              rw [not_or] at hq
              simp [isQuote, hq.1, hq.2]
            exact ⟨d :: p, r, ht, by rw [hs, List.cons_append], .char hplain hd hp⟩

theorem strchrFrom_string {c q : Char} {s a b : Text} (hq : q ≠ c) (hquote : isQuote q = true)
    (hend : endstrF (q :: s) = some (a, b)) (fuel : Nat) :
    strchrFrom c (fuel + 1) (q :: s) = strchrFrom c fuel b := by
  have hcase : q = '\'' ∨ q = '"' := by simpa [isQuote] using hquote
  rw [strchrFrom, if_neg hq, if_pos hcase, hend]

theorem strchrFrom_of_skipped {c : Char} {r p : Text} (h : Skipped c (c :: r) p) (fuel : Nat)
    (hfuel : (p ++ c :: r).length < fuel) :
    strchrFrom c fuel (p ++ c :: r) = some (c :: r) := by
  induction h generalizing fuel with
  | nil =>
      rcases Nat.exists_eq_add_of_le' (Nat.one_le_of_lt hfuel) with ⟨k, rfl⟩
      rw [List.nil_append, strchrFrom, if_pos rfl]
  | char hplain hd hp ih =>
      rename_i d p
      rcases Nat.exists_eq_add_of_le' (Nat.one_le_of_lt hfuel) with ⟨k, rfl⟩
      have hq : ¬ (d = '\'' ∨ d = '"') := by
        rintro (rfl | rfl) <;> exact absurd hplain (by decide)
      rw [List.cons_append, List.length_cons] at hfuel
      rw [List.cons_append, strchrFrom, if_neg hd, if_neg hq]
      exact ih k (by omega)
  | string hquote hq hahead hp ih =>
      rename_i q u p
      rcases Nat.exists_eq_add_of_le' (Nat.one_le_of_lt hfuel) with ⟨k, rfl⟩
      have hend := endstrF_strG2F u (p ++ c :: r) hahead
      rw [List.append_assoc] at hfuel ⊢
      rw [List.length_append, strG2F, List.cons_append, List.length_cons] at hfuel
      exact (strchrFrom_string hq hquote hend k).trans (ih k (by omega))

/-- A search finds the first place of a character that only single characters without
    quotes and whole strings are in front of. -/
theorem strchrF_iff (s : Text) (c : Char) (t : Text) :
    strchrF s c = some t ↔ ∃ p r, t = c :: r ∧ s = p ++ t ∧ Skipped c t p := by
  constructor
  · exact skipped_of_strchrFrom _
  · rintro ⟨p, r, rfl, rfl, hp⟩
    exact strchrFrom_of_skipped hp _ (Nat.lt_succ_self _)

end Search

/-- Both functions return, so their assertions hold, and a string is what it was before
    it was written and read. In front of any text the end of a written string is its last
    character, and a search finds characters outside of strings only. -/
theorem fortranCodec {initc : Char} (hquote : isQuote initc = true) {s : Text} (hs : '\x00' ∉ s) :
    ∃ g, Buffered.strG2F s initc = .ok g ∧ Buffered.strF2G g = .ok s ∧
      (g.head? = some initc ∧ g.getLast? = some initc) ∧
      (∀ r : Text, NoQuoteAhead initc r → Buffered.endstrF (g ++ r) = some (g.length - 1)) ∧
      ∀ (u : Text) (c : Char) (t : Text), strchrF u c = some t ↔
        ∃ p r, t = c :: r ∧ u = p ++ t ∧ Skipped c t p := by
  have hinitc : '\x00' ≠ initc := by
    rintro rfl
    exact absurd hquote (by decide)
  have hnul : '\x00' ∉ doubled initc s ++ [initc] := by
    rw [List.mem_append, List.mem_singleton]
    exact fun h => h.elim (not_mem_doubled hinitc hs) hinitc
  refine ⟨strG2F s initc, Buffered.strG2F_eq hs hinitc, ?_, ⟨rfl, ?_⟩, ?_, strchrF_iff⟩
  · have hread := Buffered.strF2G_eq hnul hquote
    exact hread.trans (by rw [← List.cons_append, ← strG2F, strF2G_strG2F]; rfl)
  · rw [strG2F, List.getLast?_append]
    rfl
  · intro r hr
    rw [Buffered.endstrF_eq, endstrF_strG2F s r hr]
    rfl

theorem fortranCodec_doubled :
    ∃ g, Buffered.strG2F ['\'', 'a', '"', '\''] '\'' = .ok g ∧
      Buffered.strF2G g = .ok ['\'', 'a', '"', '\''] ∧
      (g.head? = some '\'' ∧ g.getLast? = some '\'') ∧
      (∀ r : Text, NoQuoteAhead '\'' r → Buffered.endstrF (g ++ r) = some (g.length - 1)) ∧
      ∀ (u : Text) (c : Char) (t : Text), strchrF u c = some t ↔
        ∃ p r, t = c :: r ∧ u = p ++ t ∧ Skipped c t p :=
  fortranCodec (by decide) (by decide)

end XevXml.Tools
