import XevXml.Core.Trim
import XevXml.Tools.Continu.Line

/-!
# Long Lines Broken

`distribute` breaks the lines that are too long for their form. A line of 72 or 132
columns is the first one, and every further one starts with the text that identifies
a directive: the first five columns in fixed form, the first word in free form. What
stands behind the code, a comment or the end of the line, stays with the last piece.

The same is done with statements. There the first five columns are the label, and the
first word is part of the statement, and both do not belong on a continuation line.

## Main definitions

* `distributeLine`, `distribute`: The lines written for a line, and for a file.
* `joinFixed`, `joinFree`: The statement that initial line and continuation lines have
  in Fortran.

## Theorems

* `continued_join`: The pieces of a text put together.
* `distribute_statement_iff`: The statements that survive.
-/

namespace XevXml.Tools

open Quoting

section Break

/-- The lines behind the first one: pieces of `k` characters between a lead and a
    trail, while more than a limit remains of the `n` that count. -/
def continued (lead trail : Text) (k limit : Nat) : Nat → Nat → Text → List Text
  | 0, _, p => [lead ++ p]
  | fuel + 1, n, p =>
      if limit < n then
        (lead ++ p.take k ++ trail ++ ['\n']) :: continued lead trail k limit fuel (n - k)
          (p.drop k)
      else [lead ++ p]

/-- How many characters of a line count: those up to the `!` of a comment, or up to the
    end of the line. -/
def extent (code comment : Text) : Nat :=
  if comment = [] then (code.rdropWhile lineEnd).length else code.length + 1

/-- The column where the code of a statement starts, behind the label field or the
    indentation. -/
def codeStart (form : Form) (line : Text) : Nat :=
  match form with
  | .fixed => 6
  | .free => line.length - (line.dropWhile blank).length

/-- The first word of a line. -/
def firstWord (line : Text) : Text := (line.dropWhile blank).takeWhile fun c => !blank c

/-- The lines written for a line. -/
def distributeLine (form : Form) (scope : Scope) (line : Text) : Run (List Text) :=
  match form with
  | .fixed =>
      if inScope .fixed scope line then
        -- the search starts from the seventh column, whatever the line before has left there
        if line.length < 6 then .error .undefined
        else
          match scan (line.drop 6) with
          | .error _ => .error (.exit "xevutil_continu: unfinished string")
          | .ok (code, comment) =>
              let dirname := line.take 5
              let n := extent (line.take 6 ++ code) comment
              if 72 < n then
                .ok ((line.take 72 ++ ['\n']) ::
                  continued (dirname ++ ['&']) [] 66 66 n (n - 72) (line.drop 72))
              else .ok [line]
      else .ok [line]
  | .free =>
      let dirname := firstWord line
      -- the array for the first word has a hundred places
      if 100 ≤ dirname.length then .error .undefined
      else if inScope .free scope line then
        let start := codeStart .free line + if isDir .free line then 2 else 0
        match scan (line.drop start) with
        | .error _ => .error (.exit "xevtuil_continu: unfinished string")
        | .ok (code, comment) =>
            let n := extent (line.take start ++ code) comment
            if 132 < n then
              .ok ((line.take 131 ++ ['&', '\n']) ::
                continued (dirname ++ [' ', '&']) ['&'] (129 - dirname.length)
                  (130 - dirname.length) n (n - 131) (line.drop 131))
            else .ok [line]
      else .ok [line]

/-- The lines written for a file. -/
def distribute (form : Form) (scope : Scope) (lines : List Text) : Run (List Text) := do
  let written ← lines.mapM (distributeLine form scope)
  .ok written.flatten

end Break

section Join

/-- A line without the character that ends it. -/
def chop (l : Text) : Text := if l.getLast? = some '\n' then l.dropLast else l

/-- The columns of a line in fixed form. -/
def columns (l : Text) : Text := (chop l).take 72

/-- Whether a line continues a statement in fixed form: there is no label, and the sixth
    column is marked. -/
def isContinuation (l : Text) : Bool :=
  (l.take 5).all (· == ' ') && (l.drop 5).head?.any fun c => c != ' ' && c != '0'

/-- The statement of an initial line and its continuation lines in fixed form. -/
def joinFixed : List Text → Option Text
  | [] => none
  | l :: ls =>
      if ls.all isContinuation then some (columns l ++ ls.flatMap fun l => (columns l).drop 6)
      else none

/-- The blanks of Fortran. -/
def white (c : Char) : Bool := c == ' ' || c == '\t' || lineEnd c

/-- What stands in front of the `&` that a line ends with. -/
def beforeAmp (l : Text) : Option Text :=
  let t := l.rdropWhile white
  if t.getLast? = some '&' then some t.dropLast else none

/-- What stands behind the `&` that a line starts with, or all of it. -/
def afterAmp (l : Text) : Text :=
  match l.dropWhile white with
  | [] => l
  | c :: s => if c = '&' then s else l

/-- The statement that starts with a text and goes on in continuation lines. -/
def joinFrom (s : Text) : List Text → Option Text
  | [] => some s
  | l :: ls => (beforeAmp s).bind fun t => (joinFrom (afterAmp l) ls).map (t ++ ·)

/-- The statement of an initial line and its continuation lines in free form. -/
def joinFree : List Text → Option Text
  | [] => none
  | l :: ls => joinFrom l ls

/-- A line in fixed form without its comment and its end. -/
def statement (l : Text) : Option Text :=
  match scan (l.drop 6) with
  | .error _ => none
  | .ok (code, _) => some ((l.take 6 ++ code).rdropWhile lineEnd)

end Join

section Fixed

theorem chop_eq_take (l : Text) : ∃ m, chop l = l.take m ∧ l.length ≤ m + 1 ∧ m ≤ l.length := by
  unfold chop
  by_cases h : l.getLast? = some '\n'
  · rw [if_pos h]
    exact ⟨l.length - 1, List.dropLast_eq_take, by omega, by omega⟩
  · rw [if_neg h]
    exact ⟨l.length, (List.take_length).symm, by omega, by omega⟩

theorem chop_append_newline (l : Text) : chop (l ++ ['\n']) = l := by
  rw [chop, List.getLast?_concat, if_pos rfl, List.dropLast_concat]

/-- The end of a line is that of its last part. -/
theorem chop_append (l m : Text) (h : m ≠ []) : chop (l ++ m) = l ++ chop m := by
  unfold chop
  rw [List.getLast?_append_of_ne_nil l h]
  by_cases hm : m.getLast? = some '\n'
  · rw [if_pos hm, if_pos hm, List.dropLast_append_of_ne_nil h]
  · rw [if_neg hm, if_neg hm]

/-- The rest of a line behind what counts of it is its end. -/
theorem lineEnd_of_drop {p : Char → Bool} {s : Text} {m : Nat}
    (h : (s.rdropWhile p).length ≤ m) : ∀ c ∈ s.drop m, p c = true := by
  intro c hc
  rw [← (List.rdropWhile_append_rtakeWhile : s.rdropWhile p ++ s.rtakeWhile p = s),
    List.drop_append, List.drop_of_length_le h,
    List.nil_append] at hc
  exact List.mem_rtakeWhile_imp (List.mem_of_mem_drop hc)

theorem lineEnd_not_quote {c : Char} (h : lineEnd c = true) : isQuote c = false := by
  rw [lineEnd, Bool.or_eq_true, beq_iff_eq, beq_iff_eq] at h
  rcases h with rfl | rfl
  · decide
  · decide

theorem statement_of_scan {line code comment : Text}
    (h : scan (line.drop 6) = .ok (code, comment)) :
    statement line = some ((line.take 6 ++ code).rdropWhile lineEnd) := by
  rw [statement, h]

/-- All that counts of a line is in the columns up to its extent. -/
theorem statement_take {line code comment : Text} {m : Nat} (hline : 6 < line.length)
    (hscan : scan (line.drop 6) = .ok (code, comment))
    (hm : extent (line.take 6 ++ code) comment ≤ m) (h6 : 6 ≤ m) :
    statement (line.take m) = statement line := by
  have hfound := scan_spec (line.drop 6)
  rw [hscan] at hfound
  rcases hfound with ⟨hdrop, hopen, hbare, hrest⟩
  have hsplit : line = line.take 6 ++ (code ++ comment) := by
    rw [← hdrop, List.take_append_drop]
  have htake : (line.take m).take 6 = line.take 6 := by
    rw [List.take_take, Nat.min_eq_left h6]
  have hlen : (line.take 6).length = 6 := by
    rw [List.length_take]
    omega
  cases comment with
  | cons d comment =>
      rw [List.head?_cons, Option.some.injEq] at hrest
      rcases hrest with hrest | rfl
      · cases hrest
      -- the mark of the comment is still there
      rw [extent, if_neg (List.cons_ne_nil _ _), List.length_append, hlen] at hm
      have hcode : (line.take m).drop 6 = code ++ '!' :: comment.take
        (m - 6 - code.length - 1) := by
        rw [List.drop_take, hdrop, List.take_append, List.take_of_length_le (by omega)]
        have hsucc : m - 6 - code.length = (m - 6 - code.length - 1) + 1 := by omega
        rw [hsucc, List.take_succ_cons]
        rfl
      have hscan' := scan_comment (comment.take (m - 6 - code.length - 1)) hopen hbare
      rw [← hcode] at hscan'
      rw [statement_of_scan hscan, statement_of_scan hscan', htake]
  | nil =>
      rw [extent, if_pos rfl] at hm
      rw [List.append_nil] at hdrop hsplit
      rw [← hsplit] at hm
      have hend := lineEnd_of_drop hm
      have hcode : code = (line.take m).drop 6 ++ line.drop m := by
        rw [← hdrop, List.drop_take]
        conv_lhs => rw [← List.take_append_drop (m - 6) (line.drop 6), List.drop_drop]
        rw [Nat.add_sub_of_le h6]
      have hopen' : openAfter isQuote none ((line.take m).drop 6) = none := by
        rw [hcode] at hopen
        refine openAfter_of_append ?_ (fun c hc => lineEnd_not_quote (hend c hc)) hopen
        intro d hd
        refine isQuote_of_openAfter ?_ hd
        intro e he
        cases he
      have hbare' : bare isQuote '!' none ((line.take m).drop 6) = true := by
        rw [hcode, bare_append, Bool.and_eq_true] at hbare
        exact hbare.1
      have hscan' := found_closed (scan_spec ((line.take m).drop 6)) hopen' hbare'
      have hwhole : line.take 6 ++ (line.take m).drop 6 = line.take m := by
        rw [← htake, List.take_append_drop]
      have hsame := Trim.rdropWhile_append_of_forall (line.take m) hend
      rw [List.take_append_drop] at hsame
      rw [statement_of_scan hscan, statement_of_scan hscan', htake, hwhole, ← hsplit, hsame]

/-- No column that counts is the end of the line. -/
theorem extent_le_chop {line code comment : Text}
    (hscan : scan (line.drop 6) = .ok (code, comment)) :
    extent (line.take 6 ++ code) comment ≤ (chop line).length := by
  have hfound := scan_spec (line.drop 6)
  rw [hscan] at hfound
  rcases hfound with ⟨hdrop, _, _, hrest⟩
  have hsplit : line = line.take 6 ++ (code ++ comment) := by
    rw [← hdrop, List.take_append_drop]
  -- The extent takes in the mark of a comment; without one it is the code up to its end.
  cases comment with
  | cons d comment =>
      rw [List.head?_cons, Option.some.injEq] at hrest
      rcases hrest with hrest | rfl
      · cases hrest
      rw [extent, if_neg (List.cons_ne_nil _ _)]
      have hlen : (chop line).length =
        (line.take 6 ++ code).length + (chop ('!' :: comment)).length := by
        conv_lhs => rw [hsplit, ← List.append_assoc, chop_append _ _ (List.cons_ne_nil _ _)]
        rw [List.length_append]
      have hchop : 1 ≤ (chop ('!' :: comment)).length := by
        cases comment with
        | nil => exact Nat.le_refl 1
        | cons c comment =>
            rcases chop_eq_take ('!' :: c :: comment) with ⟨m, hm, hle, hle'⟩
            rw [hm, List.length_take]
            simp only [List.length_cons] at *
            omega
      omega
  | nil =>
      rw [List.append_nil] at hsplit
      rw [extent, if_pos rfl, ← hsplit, chop]
      by_cases h : line.getLast? = some '\n'
      · rw [if_pos h]
        have hne : line ≠ [] := by
          intro hnil
          rw [hnil] at h
          cases h
        have hlast : line = line.dropLast ++ ['\n'] := by
          rw [List.getLast?_eq_some_getLast hne, Option.some.injEq] at h
          rw [← h, List.dropLast_append_getLast]
        conv_lhs => rw [hlast, List.rdropWhile_concat_pos _ _ _ (by decide)]
        exact (List.rdropWhile_prefix _ _).length_le
      · rw [if_neg h]
        exact (List.rdropWhile_prefix _ _).length_le

theorem chop_drop {s : Text} {k : Nat} (h : k < s.length) : chop (s.drop k) = (chop s).drop k := by
  have hne : s.drop k ≠ [] := by
    rw [ne_eq, List.drop_eq_nil_iff]
    omega
  rcases chop_eq_take (s.drop k) with ⟨m, hm, _, _⟩
  conv_rhs => rw [← List.take_append_drop k s, chop_append _ _ hne]
  rw [List.drop_append, List.drop_of_length_le (List.length_take_le k s), List.length_take,
    Nat.min_eq_left (Nat.le_of_lt h), Nat.sub_self, List.drop_zero, List.nil_append]

/-- The continuation lines of a statement in fixed form, behind their lead. -/
theorem columns_lead {lead s : Text} (hlead : lead.length = 6) (hend : lead.getLast? ≠ some '\n') :
    (columns (lead ++ s)).drop 6 = (chop s).take 66 := by
  have hchop : chop (lead ++ s) = lead ++ chop s := by
    cases s with
    | nil => rw [List.append_nil, chop, if_neg hend, chop, if_neg (by simp), List.append_nil]
    | cons c s => exact chop_append _ _ (List.cons_ne_nil _ _)
  rw [columns, hchop, List.take_append, List.take_of_length_le (by omega), hlead,
    List.drop_append, List.drop_of_length_le (by omega), hlead]
  rfl

/-- The pieces of a text in fixed form put together: all that counts is there again. -/
theorem continued_join {lead p : Text} {n fuel : Nat} (hlead : lead.length = 6)
    (hend : lead.getLast? ≠ some '\n') (hn : n ≤ (chop p).length) (hfuel : n ≤ fuel) :
    ∃ m, n ≤ m ∧
      ((continued lead [] 66 66 fuel n p).flatMap fun l => (columns l).drop 6) = p.take m := by
  have hlast : ∀ (n : Nat) (p : Text), n ≤ (chop p).length → n ≤ 66 →
      ∃ m, n ≤ m ∧ ([lead ++ p].flatMap fun l => (columns l).drop 6) = p.take m := by
    intro n p hn hle
    rcases chop_eq_take p with ⟨m, hm, _, hm'⟩
    refine ⟨min 66 m, ?_, ?_⟩
    · rw [hm, List.length_take] at hn
      omega
    · rw [List.flatMap_singleton, columns_lead hlead hend, hm, List.take_take]
  induction fuel generalizing n p with
  | zero =>
      rw [continued]
      exact hlast n p hn (by omega)
  | succ fuel ih =>
      rw [continued]
      by_cases hlt : 66 < n
      · rw [if_pos hlt]
        have hlen : (chop p).length ≤ p.length := by
          rcases chop_eq_take p with ⟨m, hm, _, _⟩
          rw [hm, List.length_take]
          omega
        have hdrop := chop_drop (s := p) (k := 66) (by omega)
        have hn' : n - 66 ≤ (chop (p.drop 66)).length := by
          rw [hdrop, List.length_drop]
          omega
        rcases ih hn' (by omega) with ⟨m, hm, hjoin⟩
        refine ⟨66 + m, by omega, ?_⟩
        rw [List.flatMap_cons, hjoin, List.append_nil, List.append_assoc,
          columns_lead hlead hend, chop_append_newline, List.take_take, Nat.min_self, List.take_add]
      · rw [if_neg hlt]
        exact hlast n p hn (by omega)

/-- Every line behind the first one has the lead. -/
theorem continued_lead {lead trail : Text} {k limit : Nat} {fuel n : Nat} {p l : Text}
    (h : l ∈ continued lead trail k limit fuel n p) : ∃ s, l = lead ++ s := by
  induction fuel generalizing n p with
  | zero => exact ⟨p, List.mem_singleton.mp h⟩
  | succ fuel ih =>
      rw [continued] at h
      by_cases hlt : limit < n
      · rw [if_pos hlt, List.mem_cons] at h
        rcases h with rfl | h
        · exact ⟨_, by rw [List.append_assoc, List.append_assoc]⟩
        · exact ih h
      · rw [if_neg hlt] at h
        exact ⟨p, List.mem_singleton.mp h⟩

theorem continued_ne_nil (lead trail : Text) (k limit fuel n : Nat) (p : Text) :
    continued lead trail k limit fuel n p ≠ [] := by
  cases fuel with
  | zero => exact List.cons_ne_nil _ _
  | succ fuel =>
      rw [continued]
      by_cases hlt : limit < n
      · rw [if_pos hlt]
        exact List.cons_ne_nil _ _
      · rw [if_neg hlt]
        exact List.cons_ne_nil _ _

end Fixed

section Statements

/-- A statement that stands on a line, divided into the code behind the label field or the
    indentation and the comment. -/
structure IsStatement (form : Form) (line code comment : Text) : Prop where
  isComm : isComm form line = false
  start : codeStart form line < line.length
  scan : scan (line.drop (codeStart form line)) = .ok (code, comment)

/-- The lines that are written for a statement have that statement in Fortran. -/
def Survives (form : Form) (scope : Scope) (line : Text) : Prop :=
  match form with
  | .fixed =>
      ∃ out joined, distributeLine .fixed scope line = .ok out ∧ joinFixed out = some joined ∧
        statement joined = statement line
  | .free => ∃ out, distributeLine .free scope line = .ok out ∧ joinFree out = some line

/-- The line is not broken, or what is repeated on the continuation lines is blank. In free
    form it never is, and the first word has to fit into its array. -/
def FitsColumns (form : Form) (line code comment : Text) : Prop :=
  match form with
  | .fixed => extent (line.take 6 ++ code) comment ≤ 72 ∨ ∀ c ∈ line.take 5, c = ' '
  | .free =>
      (firstWord line).length < 100 ∧
        extent (line.take (codeStart .free line) ++ code) comment ≤ 132

theorem isDir_of_not_comm {form : Form} {line : Text} (h : isComm form line = false) :
    isDir form line = false := by
  cases form with
  | fixed =>
      rw [isComm, Bool.or_eq_false_iff] at h
      cases line with
      | nil => rfl
      | cons c line =>
          cases line with
          | nil => rfl
          | cons d line =>
              rw [isDir]
              by_cases hc : c = '!'
              · rw [hc, List.dropWhile_cons_of_neg (by decide)] at h
                cases h.2
              · have hc' : (c == '!') = false := beq_eq_false_iff_ne.mpr hc
                have hh := h.1
                rw [List.head?_cons, Option.any_some] at hh
                simp only [Bool.or_eq_false_iff] at hh
                simp [hc', hh]
  | free =>
      rw [isComm] at h
      rw [isDir]
      cases hp : line.dropWhile blank with
      | nil => rfl
      | cons c p =>
          rw [hp, startsComment] at h
          cases p with
          | nil => rfl
          | cons d p => rw [startsDir, h, Bool.false_and]

theorem inScope_of_not_comm {form : Form} {scope : Scope} {line : Text}
    (h : isComm form line = false) (hscope : scope.forts = true) :
    inScope form scope line = true := by
  rw [inScope, h, hscope]
  exact Bool.or_true _

theorem isContinuation_lead {label : Text} (hlabel : label.length = 5) (s : Text) :
    isContinuation (label ++ ['&'] ++ s) = label.all (· == ' ') := by
  rw [isContinuation, List.append_assoc, List.take_append_of_le_length (by omega),
    List.take_of_length_le (by omega), List.drop_append, List.drop_of_length_le (by omega), hlabel]
  exact Bool.and_true _

/-- In fixed form a statement survives unless its label is repeated. -/
theorem survives_fixed_iff {scope : Scope} {line code comment : Text} (hscope : scope.forts = true)
    (h : IsStatement .fixed line code comment) :
    Survives .fixed scope line ↔ FitsColumns .fixed line code comment := by
  have hlen : 6 < line.length := h.start
  have hscan : scan (line.drop 6) = .ok (code, comment) := h.scan
  have hin := inScope_of_not_comm h.isComm hscope
  have hchop := extent_le_chop hscan
  have hlabel : (line.take 5).length = 5 := by
    rw [List.length_take]
    omega
  rcases chop_eq_take line with ⟨m, hm, hm1, hm2⟩
  rw [hm, List.length_take] at hchop
  rw [Survives, FitsColumns, distributeLine]
  simp only [hin, if_true, if_neg (Nat.not_lt.mpr (Nat.le_of_lt hlen)), hscan]
  -- A line that fits is written as it stands; of a longer one every piece carries the label.
  by_cases hlt : 72 < extent (line.take 6 ++ code) comment
  · rw [if_pos hlt]
    have hall : (continued (line.take 5 ++ ['&']) [] 66 66
        (extent (line.take 6 ++ code) comment) (extent (line.take 6 ++ code) comment - 72)
        (line.drop 72)).all isContinuation = (line.take 5).all (· == ' ') := by
      have hone : ∀ l ∈ continued (line.take 5 ++ ['&']) [] 66 66
          (extent (line.take 6 ++ code) comment) (extent (line.take 6 ++ code) comment - 72)
          (line.drop 72), isContinuation l = (line.take 5).all (· == ' ') := by
        intro l hl
        rcases continued_lead hl with ⟨s, rfl⟩
        exact isContinuation_lead hlabel s
      have hne := continued_ne_nil (line.take 5 ++ ['&']) [] 66 66
        (extent (line.take 6 ++ code) comment) (extent (line.take 6 ++ code) comment - 72)
        (line.drop 72)
      cases hcase : (line.take 5).all (· == ' ') with
      | true =>
          rw [List.all_eq_true]
          intro l hl
          rw [hone l hl, hcase]
      | false =>
          rw [List.all_eq_false]
          rcases List.exists_mem_of_ne_nil _ hne with ⟨l, hl⟩
          refine ⟨l, hl, ?_⟩
          rw [hone l hl, hcase]
          decide
    constructor
    · intro hs
      rcases hs with ⟨out, joined, hout, hjoin, _⟩
      rw [Except.ok.injEq] at hout
      subst hout
      rw [joinFixed, hall] at hjoin
      -- Pieces with a label are no continuations.
      by_cases hblank : (line.take 5).all (· == ' ') = true
      · refine Or.inr fun c hc => ?_
        exact eq_of_beq (List.all_eq_true.mp hblank c hc)
      · rw [if_neg hblank] at hjoin
        cases hjoin
    · intro hf
      have hblank : (line.take 5).all (· == ' ') = true := by
        rcases hf with hf | hf
        · omega
        · exact List.all_eq_true.mpr fun c hc => beq_iff_eq.mpr (hf c hc)
      have hdrop := chop_drop (s := line) (k := 72) (by omega)
      have hcount : extent (line.take 6 ++ code) comment - 72 ≤ (chop (line.drop 72)).length := by
        rw [hdrop, List.length_drop, hm, List.length_take]
        omega
      have hlead : (line.take 5 ++ ['&']).length = 6 := by
        rw [List.length_append, hlabel, List.length_singleton]
      have hend : (line.take 5 ++ ['&']).getLast? ≠ some '\n' := by
        rw [List.getLast?_concat]
        decide
      have hfuel : extent (line.take 6 ++ code) comment - 72 ≤ extent (line.take 6 ++ code)
        comment :=
        Nat.sub_le _ _
      rcases continued_join hlead hend hcount hfuel with ⟨k, hk, hjoin⟩
      refine ⟨_, line.take (72 + k), rfl, ?_, ?_⟩
      · rw [joinFixed, hall, if_pos hblank, hjoin, columns, chop_append_newline, List.take_take,
          Nat.min_self, List.take_add]
      · exact statement_take hlen hscan (by omega) (by omega)
  · rw [if_neg hlt]
    refine ⟨fun _ => Or.inl (by omega), fun _ => ?_⟩
    have hjoin : joinFixed [line] = some (columns line) := by
      rw [joinFixed, List.all_nil, if_pos rfl, List.flatMap_nil, List.append_nil]
    refine ⟨[line], columns line, rfl, hjoin, ?_⟩
    rw [columns, hm, List.take_take]
    exact statement_take hlen hscan (by omega) (by omega)

/-- A blank of Fortran is not larger than a blank. -/
theorem not_white_of_not_blank {c : Char} (h : blank c = false) : white c = false := by
  by_contra hw
  rw [Bool.not_eq_false, white, lineEnd] at hw
  simp only [Bool.or_eq_true, beq_iff_eq] at hw
  rcases hw with (rfl | rfl) | (rfl | rfl)
  · exact absurd h (by decide)
  · exact absurd h (by decide)
  · exact absurd h (by decide)
  · exact absurd h (by decide)

theorem beforeAmp_append (s : Text) : beforeAmp (s ++ ['&', '\n']) = some s := by
  have hend : (s ++ ['&', '\n']).rdropWhile white = s ++ ['&'] := by
    have hsplit : s ++ ['&', '\n'] = (s ++ ['&']) ++ ['\n'] := by
      rw [List.append_assoc]
      rfl
    rw [hsplit, List.rdropWhile_concat_pos _ _ _ (by decide),
      List.rdropWhile_concat_neg _ _ _ (by decide)]
  rw [beforeAmp, hend]
  simp only [List.getLast?_concat, if_true, List.dropLast_concat]

/-- The word that is repeated stays in the statement. -/
theorem afterAmp_word {c : Char} {w : Text} (hc : blank c = false) (s : Text) :
    ∃ t, t ≠ [] ∧ afterAmp (c :: w ++ [' ', '&'] ++ s) = t ++ s := by
  rw [afterAmp, List.cons_append, List.cons_append,
    List.dropWhile_cons_of_neg (by rw [not_white_of_not_blank hc]; decide)]
  by_cases hamp : c = '&'
  · simp only [if_pos hamp]
    exact ⟨w ++ [' ', '&'], by simp, rfl⟩
  · simp only [if_neg hamp]
    exact ⟨c :: w ++ [' ', '&'], List.cons_ne_nil _ _, rfl⟩

/-- A statement that is broken in free form is longer than it was. -/
theorem length_lt_of_joinFrom {c : Char} {w : Text} (hc : blank c = false) {k limit : Nat}
    (fuel : Nat) {n : Nat} {a p t : Text}
    (h : joinFrom (a ++ ['&', '\n'])
      (continued (c :: w ++ [' ', '&']) ['&'] k limit fuel n p) = some t) :
    a.length + p.length < t.length := by
  have hlast : ∀ a p t : Text, joinFrom (a ++ ['&', '\n']) [c :: w ++ [' ', '&'] ++ p] = some t →
      a.length + p.length < t.length := by
    intro a p t h
    rcases afterAmp_word (w := w) hc p with ⟨b, hb, hafter⟩
    rw [joinFrom, beforeAmp_append, hafter, joinFrom] at h
    have heq : t = a ++ (b ++ p) := (Option.some.inj h).symm
    have hpos := List.length_pos_of_ne_nil hb
    rw [heq, List.length_append, List.length_append]
    omega
  induction fuel generalizing n a p t with
  | zero => exact hlast a p t h
  | succ fuel ih =>
      rw [continued] at h
      by_cases hlt : limit < n
      · rw [if_pos hlt, joinFrom, beforeAmp_append] at h
        have hline : c :: w ++ [' ', '&'] ++ p.take k ++ ['&'] ++ ['\n'] =
            c :: w ++ [' ', '&'] ++ (p.take k ++ ['&', '\n']) := by
          rw [List.append_assoc, List.append_assoc]
          rfl
        rcases afterAmp_word (w := w) hc (p.take k ++ ['&', '\n']) with ⟨b, hb, hafter⟩
        rw [hline, hafter, ← List.append_assoc, Option.bind_some] at h
        rcases Option.map_eq_some_iff.mp h with ⟨t', ht', rfl⟩
        have hlen := ih ht'
        have hsum := congrArg List.length (List.take_append_drop k p)
        have hpos := List.length_pos_of_ne_nil hb
        rw [List.length_append] at hlen hsum ⊢
        omega
      · rw [if_neg hlt] at h
        exact hlast a p t h

/-- In free form it survives if it is not broken. -/
theorem survives_free_iff {scope : Scope} {line code comment : Text} (hscope : scope.forts = true)
    (h : IsStatement .free line code comment) :
    Survives .free scope line ↔ FitsColumns .free line code comment := by
  have hscan := h.scan
  have hin := inScope_of_not_comm h.isComm hscope
  rw [Survives, FitsColumns, distributeLine]
  by_cases hword : 100 ≤ (firstWord line).length
  · simp only [if_pos hword]
    refine ⟨fun hs => ?_, fun hf => by omega⟩
    rcases hs with ⟨out, hout, _⟩
    cases hout
  simp only [if_neg hword, hin, if_true, isDir_of_not_comm h.isComm, Bool.false_eq_true, if_false,
    Nat.add_zero, hscan]
  by_cases hlt : 132 < extent (line.take (codeStart .free line) ++ code) comment
  · rw [if_pos hlt]
    refine ⟨fun hs => ?_, fun hf => by omega⟩
    rcases hs with ⟨out, hout, hjoin⟩
    rw [Except.ok.injEq] at hout
    subst hout
    have hp : ∃ c w, firstWord line = c :: w ∧ blank c = false := by
      have hcomm : startsComment (line.dropWhile blank) = false := h.isComm
      cases hp : line.dropWhile blank with
      | nil =>
          rw [hp] at hcomm
          cases hcomm
      | cons c p =>
          have hc := List.head?_dropWhile_not blank line
          rw [hp, List.head?_cons] at hc
          refine ⟨c, p.takeWhile fun c => !blank c, ?_, hc⟩
          rw [firstWord, hp, List.takeWhile_cons_of_pos (by rw [hc]; rfl)]
    rcases hp with ⟨c, w, hw, hc⟩
    rw [hw, joinFree] at hjoin
    -- What is joined again is longer than the line it came from.
    have hlen := length_lt_of_joinFrom hc _ hjoin
    have hsum := congrArg List.length (List.take_append_drop 131 line)
    rw [List.length_append] at hsum
    omega
  · rw [if_neg hlt]
    refine ⟨fun _ => ⟨by omega, by omega⟩, fun _ => ⟨[line], rfl, rfl⟩⟩

/-- The statements that survive. -/
theorem distribute_statement_iff (form : Form) (scope : Scope) (line code comment : Text)
    (hscope : scope.forts = true) (h : IsStatement form line code comment) :
    Survives form scope line ↔ FitsColumns form line code comment := by
  cases form with
  | fixed => exact survives_fixed_iff hscope h
  | free => exact survives_free_iff hscope h

/-- A statement of 76 columns without a label. -/
def longSum : Text := List.replicate 6 ' ' ++ List.replicate 70 '1'

theorem longSum_survives : Survives .fixed .fort longSum := by
  have hstatement : IsStatement .fixed longSum (List.replicate 70 '1') [] :=
    ⟨by decide, by decide, rfl⟩
  refine (distribute_statement_iff .fixed .fort longSum _ [] rfl hstatement).mpr (Or.inr ?_)
  decide

/-- A statement of 76 columns with a label, and one of 134 columns in free form. -/
def labelledSum : Text := "   10 ".toList ++ List.replicate 70 '1'

def wideSum : Text := "x = ".toList ++ List.replicate 130 '1'

/-- They get a second label and a second `x` in the middle. -/
theorem labelledSum_not_survives :
    (IsStatement .fixed labelledSum (List.replicate 70 '1') [] ∧
      ¬ Survives .fixed .fort labelledSum) ∧
    IsStatement .free wideSum wideSum [] ∧ ¬ Survives .free .fort wideSum := by
  have hfixed : IsStatement .fixed labelledSum (List.replicate 70 '1') [] :=
    ⟨by decide, by decide, rfl⟩
  have hfree : IsStatement .free wideSum wideSum [] := by
    refine ⟨by decide, by decide, ?_⟩
    exact found_closed (scan_spec _) (by decide +kernel) (by decide +kernel)
  refine ⟨⟨hfixed, fun h => ?_⟩, hfree, fun h => ?_⟩
  · rcases (survives_fixed_iff rfl hfixed).mp h with hf | hf
    · exact absurd hf (by decide)
    · exact absurd hf (by decide)
  · exact absurd ((survives_free_iff rfl hfree).mp h).2 (by decide +kernel)

end Statements

end XevXml.Tools
