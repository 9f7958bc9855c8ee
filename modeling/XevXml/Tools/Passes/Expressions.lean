import XevXml.Tools.Passes.Placeholders

/-!
# Expressions in the Tree of a Directive

The parser puts the expressions it takes below placeholders. A term is written with numbers in
their places, and the expressions are put aside in the order in which they stand. The terms
the parser makes are good: what is written for them has as many placeholders as there are
expressions, and no directive of the front end is among them unless it is in an expression.

## Main definitions

* `Cell.codes`: The expressions below placeholders.
* `Free`: There is no directive of the front end.
* `Marks`: A text with placeholders.
* `Good`: A term that the parser may have made.

## Theorems

* `count_exp_marks`: The placeholders of a text are counted.
* `clause_text_good`: What is written for arguments.
* `good_leaf`, `good_code`, `good_func`, `good_paired`: The terms that the parser makes.
-/

namespace XevXml.Tools.Passes

open Quoting

section Codes

mutual

/-- The expressions below the placeholders of a cell. -/
def Cell.codes : Cell → List (List Cell)
  | .mk _ name _ _ _ cs => if name = "xevparse_code_exp" then [cs] else codesAll cs

def codesAll : List Cell → List (List Cell)
  | [] => []
  | x :: xs => Cell.codes x ++ codesAll xs

end

/-- There is no directive of the front end among cells and below them. -/
def Free (xs : List Cell) : Prop := ∀ y ∈ cellsAll xs, y.name ≠ "SgPragmaDeclaration"

/-- A text with placeholders. -/
def Marks (t : Text) (n : Nat) : Prop :=
  ∃ fs, Spans t fs ∧ fs.length = n ∧ ∀ f ∈ fs, '`' ∉ f

/-- A term that is written as it is, with its expressions put aside in order. -/
structure Good (x : Cell) : Prop where
  free : (∀ e ∈ Cell.codes x, Free e) → Free [x]
  written : ∀ s, ∃ t, x.termText s = .ok (some t, s.add (Cell.codes x)) ∧
    Marks t (Cell.codes x).length

theorem free_cons_iff (x : Cell) (xs : List Cell) :
    Free (x :: xs) ↔ x.name ≠ "SgPragmaDeclaration" ∧ Free x.children ∧ Free xs := by
  have hcells : cellsAll (x :: xs) = x.cells ++ cellsAll xs := rfl
  constructor
  · intro h
    refine ⟨h x ?_, fun y hy => h y ?_, fun y hy => h y ?_⟩
    · rw [hcells, List.mem_append]
      exact Or.inl ((mem_cells_iff x x).mpr (Or.inl rfl))
    · rw [hcells, List.mem_append]
      exact Or.inl ((mem_cells_iff x y).mpr (Or.inr hy))
    · rw [hcells, List.mem_append]
      exact Or.inr hy
  · rintro ⟨hx, hcs, hxs⟩ y hy
    rw [hcells, List.mem_append, mem_cells_iff] at hy
    rcases hy with (rfl | hy) | hy
    · exact hx
    · exact hcs y hy
    · exact hxs y hy

theorem free_nil : Free [] := fun _ h => absurd h List.not_mem_nil

theorem Marks.append {s t : Text} {m n : Nat} (hs : Marks s m) (ht : Marks t n) :
    Marks (s ++ t) (m + n) := by
  obtain ⟨es, hes, rfl, hes'⟩ := hs
  obtain ⟨fs, hfs, rfl, hfs'⟩ := ht
  refine ⟨es ++ fs, hes.append hfs, List.length_append, fun f hf => ?_⟩
  exact (List.mem_append.mp hf).elim (hes' f) (hfs' f)

theorem marks_of_calm {t : Text} (h : Calm t) : Marks t 0 :=
  ⟨[], .calm h, rfl, fun _ h => absurd h List.not_mem_nil⟩

/-- A character between terms. -/
theorem Marks.cons {c : Char} {t : Text} {n : Nat} (hc : isQuote c = false ∧ c ≠ '`' ∧ c ≠ '!')
    (ht : Marks t n) : Marks (c :: t) n := by
  obtain ⟨fs, hfs, hn, hfs'⟩ := ht
  exact ⟨fs, hfs.cons hc, hn, hfs'⟩

/-- The placeholders of a text are counted. -/
theorem count_exp_marks {t : Text} {n : Nat} (h : Marks t n) : count_exp t = .ok n := by
  obtain ⟨fs, hfs, rfl, hfs'⟩ := h
  have hcount := count_exp_spans hfs hfs' []
  rw [List.append_nil] at hcount
  rw [hcount]
  exact congrArg Except.ok (Nat.zero_add _)

end Codes

section Terms

theorem calm_strG2F {q : Char} (hq : isQuote q = true) (s : Text) : Calm (strG2F s q) := by
  have hend : endstrF (strG2F s q ++ []) = some (strG2F s q, []) :=
    endstrF_strG2F s [] (by simp [NoQuoteAhead])
  rw [List.append_nil] at hend
  exact (calm_of_endstrF hq hend).2

theorem good_leaf {name : String} {depth : Nat} {attrs : List (String × Option Text)} {t : Text}
    (hname : name ≠ "xevparse_code_exp") (hfree : name ≠ "SgPragmaDeclaration")
    (htext : ∀ s, (leaf name depth attrs).termText s = .ok (some t, s)) (ht : Calm t) :
    Good (leaf name depth attrs) ∧ Cell.codes (leaf name depth attrs) = [] := by
  have hcodes : Cell.codes (leaf name depth attrs) = [] := by
    rw [leaf, Cell.codes, if_neg hname, codesAll]
  refine ⟨⟨fun _ => ?_, fun s => ⟨t, ?_, ?_⟩⟩, hcodes⟩
  · exact (free_cons_iff _ _).mpr ⟨hfree, free_nil, free_nil⟩
  · rw [hcodes, CodeList.add_nil]
    exact htext s
  · rw [hcodes]
    exact marks_of_calm ht

theorem good_code (depth : Nat) (ex : List Cell) :
    Good (branch "xevparse_code_exp" depth [] ex) ∧
      Cell.codes (branch "xevparse_code_exp" depth [] ex) = [ex] := by
  have hcodes : Cell.codes (branch "xevparse_code_exp" depth [] ex) = [ex] := by
    rw [branch, Cell.codes, if_pos rfl]
  refine ⟨⟨fun h => ?_, fun s => ⟨codeMark s.num_ex, ?_, ?_⟩⟩, hcodes⟩
  · rw [hcodes] at h
    exact (free_cons_iff _ _).mpr
      ⟨show "xevparse_code_exp" ≠ _ by decide, h ex (List.mem_singleton_self ex), free_nil⟩
  · rw [hcodes]
    rfl
  · rw [hcodes]
    refine ⟨[Numeral.printNat s.num_ex], .code (clear_of_plain fun c hc => ?_), rfl, ?_⟩
    · have hcalm := nameChar_of_isDigit (Numeral.isDigit_of_mem_printNat hc)
      refine ⟨?_, ne_of_nameChar hcalm (by decide)⟩
      rw [Bool.eq_false_iff, Ne, isQuote_iff]
      rintro (rfl | rfl) <;> exact absurd hcalm (by decide)
    · exact fun f hf => (List.mem_singleton.mp hf) ▸ backquote_notMem_printNat s.num_ex

/-- What is written for arguments. -/
theorem clause_text_good {xs : List Cell} (h : ∀ x ∈ xs, Good x) (nocomma : Bool) (c : Nat)
    (s : CodeList) : ∃ t, clause_text nocomma c xs s = .ok (t, s.add (codesAll xs)) ∧
      Marks t (codesAll xs).length := by
  induction xs generalizing c s with
  | nil =>
      refine ⟨[], ?_, marks_of_calm (calm_of_plain fun _ h => absurd h List.not_mem_nil)⟩
      rw [clause_text, codesAll, CodeList.add_nil]
  | cons x xs ih =>
      obtain ⟨hx, hxs⟩ := List.forall_mem_cons.mp h
      obtain ⟨t, htext, hmarks⟩ := hx.written s
      obtain ⟨u, hrest, hmarks'⟩ := ih hxs (c + 1) (s.add (Cell.codes x))
      have hsep : Marks (if c + 1 ≠ 1 ∧ nocomma = false then [',', ' '] else []) 0 := by
        refine marks_of_calm (calm_of_plain fun d hd => ?_)
        split at hd
        · simp only [List.mem_cons, List.not_mem_nil, or_false] at hd
          rcases hd with rfl | rfl <;> decide
        · exact absurd hd List.not_mem_nil
      refine ⟨(if c + 1 ≠ 1 ∧ nocomma = false then [',', ' '] else []) ++ t ++ u, ?_, ?_⟩
      · rw [clause_text, htext, ok_bind]
        dsimp only
        rw [hrest, ok_bind, codesAll, ← CodeList.add_add]
      · rw [codesAll, List.length_append, ← Nat.zero_add (Cell.codes x).length]
        exact (hsep.append hmarks).append hmarks'

theorem free_of_good {xs : List Cell} (h : ∀ x ∈ xs, Good x)
    (hfree : ∀ e ∈ codesAll xs, Free e) : Free xs := by
  induction xs with
  | nil => exact free_nil
  | cons x xs ih =>
      obtain ⟨hx, hxs⟩ := List.forall_mem_cons.mp h
      rw [codesAll] at hfree
      have hone := (free_cons_iff x []).mp
        (hx.free fun e he => hfree e (List.mem_append_left _ he))
      have hrest := ih hxs fun e he => hfree e (List.mem_append_right _ he)
      exact (free_cons_iff x xs).mpr ⟨hone.1, hone.2.1, hrest⟩

theorem good_func {name : Text} (hname : Calm name) (depth : Nat)
    {xs : List Cell} (h : ∀ x ∈ xs, Good x) :
    Good (branch "xev_func_call" depth [("name", some name)] xs) ∧
      Cell.codes (branch "xev_func_call" depth [("name", some name)] xs) = codesAll xs := by
  have hcodes : Cell.codes (branch "xev_func_call" depth [("name", some name)] xs) =
      codesAll xs := by
    rw [branch, Cell.codes, if_neg (by decide)]
  refine ⟨⟨fun hfree => ?_, fun s => ?_⟩, hcodes⟩
  · rw [hcodes] at hfree
    exact (free_cons_iff _ _).mpr
      ⟨show "xev_func_call" ≠ _ by decide, free_of_good h hfree, free_nil⟩
  · obtain ⟨t, htext, hmarks⟩ := clause_text_good h false 0 s
    rw [hcodes]
    refine ⟨name ++ '(' :: t ++ [')'], ?_, ?_⟩
    · have hterm : (branch "xev_func_call" depth [("name", some name)] xs).termText s =
          (clause_text false 0 xs s >>= fun r =>
            .ok (some (name ++ '(' :: r.1 ++ [')']), r.2)) := rfl
      rw [hterm, htext]
      rfl
    · have hclose : Marks [')'] 0 := marks_of_calm (calm_of_plain (by decide))
      have hopen : Marks ('(' :: t) (codesAll xs).length := hmarks.cons (by decide)
      have hall := ((marks_of_calm hname).append hopen).append hclose
      rw [Nat.zero_add, Nat.add_zero] at hall
      exact hall

/-- A term, or the pair of it and the term in front of it. -/
theorem good_paired (depth : Nat) {fst : Option Cell} {tx : Cell} (hfst : ∀ y ∈ fst, Good y)
    (htx : Good tx) : Good (paired depth fst tx) ∧
      Cell.codes (paired depth fst tx) = codesAll fst.toList ++ Cell.codes tx := by
  cases fst with
  | none => exact ⟨htx, rfl⟩
  | some f =>
      have hf : Good f := hfst f rfl
      have hlist : codesAll [f, tx] = Cell.codes f ++ Cell.codes tx := by
        rw [codesAll, codesAll, codesAll, List.append_nil]
      have hcodes : Cell.codes (branch "xev_pair" depth [] [f, tx]) =
          Cell.codes f ++ Cell.codes tx := by
        rw [branch, Cell.codes, if_neg (by decide), hlist]
      have hpair : Good (branch "xev_pair" depth [] [f, tx]) := by
        refine ⟨fun hfree => ?_, fun s => ?_⟩
        · have hboth : ∀ y ∈ [f, tx], Good y := by
            simp only [List.mem_cons, List.not_mem_nil, or_false, forall_eq_or_imp, forall_eq]
            exact ⟨hf, htx⟩
          rw [hcodes] at hfree
          refine (free_cons_iff _ _).mpr
            ⟨show "xev_pair" ≠ _ by decide, free_of_good hboth fun e he => hfree e ?_, free_nil⟩
          rw [← hlist]
          exact he
        · obtain ⟨t1, htext1, hmarks1⟩ := hf.written s
          have hone : ∀ y ∈ [tx], Good y := fun y hy => (List.mem_singleton.mp hy) ▸ htx
          obtain ⟨t2, htext2, hmarks2⟩ := clause_text_good hone true 0 (s.add (Cell.codes f))
          rw [codesAll, codesAll, List.append_nil] at htext2 hmarks2
          rw [hcodes]
          refine ⟨t1 ++ ':' :: t2, ?_, ?_⟩
          · have hterm : (branch "xev_pair" depth [] [f, tx]).termText s =
                (pairText [f, tx] s >>= fun r => .ok (some r.1, r.2)) := rfl
            rw [hterm, pairText, htext1, ok_bind]
            dsimp only
            rw [htext2, ← CodeList.add_add]
            rfl
          · rw [List.length_append]
            exact hmarks1.append (hmarks2.cons (by decide))
      refine ⟨hpair, hcodes.trans ?_⟩
      rw [Option.toList_some, codesAll, codesAll, List.append_nil]

end Terms

end XevXml.Tools.Passes
