import XevXml.Tools.Pragma
import XevXml.Tools.Continu.Distribute
import Mathlib.Data.List.DropRight

/-!
# The Pass before the Front End

`preparse_f` goes through a Fortran file line by line. Directives of the user become
directives of the tools: a string directive becomes an argument in quotes, and an extended
one gets its new name behind `!$xev`. The pieces of code in a directive are written once
more below it, as calls that the front end can read. Everything else stays as it is.

A line is read into a buffer. A line that is longer than the buffer is read in pieces, and
what stands behind the last line end of the file is read and then dropped, since the end of
the file has been met. Texts hold no character zero, and the buffer is what the rewriting of
a line may run over.

## Main definitions

* `NameCell`: A directive of the configuration.
* `fgetsLines`: The lines of a file as they are read.
* `preparse_line`, `preparse_f`: What is written for a line and for a file.

## Theorems

* `fgetsLines_lines`: Lines that fit the buffer are read one by one.
-/

namespace XevXml.Tools.Passes

section Configuration

/-- What is done with a directive: nothing, it becomes a string, or it gets a new name. -/
inductive Kind
  | plain
  | string
  | extend (rename : Text)
deriving DecidableEq

/-- A directive of the configuration. Its name is the first word of a line, or the
    beginning of it. -/
structure NameCell where
  head : Bool
  pragma_name : Text
  kind : Kind
deriving DecidableEq

def NameCell.matchesName (c : NameCell) (name : Text) : Bool :=
  if c.head then c.pragma_name.isPrefixOf name else c.pragma_name == name

/-- The first entry that a name fits. -/
def xevparse_matching_pragma (namelist : List NameCell) (name : Text) : Option NameCell :=
  namelist.find? fun c => c.matchesName name

/-- The first entry that the first word of a line fits. -/
def xevparse_pragma_line (namelist : List NameCell) (line : Text) : Option NameCell :=
  xevparse_matching_pragma namelist (firstWord line)

/-- The name that the first word of a text was given for, and the length of the word. -/
def xevparse_pragma_rename (namelist : List NameCell) (line : Text) : Option (Text × Nat) :=
  let name := line.takeWhile fun c => !blank c
  (namelist.find? fun c => c.kind == .extend name).map fun c => (c.pragma_name, name.length)

end Configuration

section Lines

/-- The lines of a file as they are read, with their ends, and what is read last without
    one. The buffer holds `line`, and one character ends the string in it. -/
def fgetsLines : Text → Text → List Text × Text
  | line, [] => ([], line)
  | line, c :: f =>
      if c = '\n' ∨ line.length + 2 = XEV_LINE_SIZE then
        let r := fgetsLines [] f
        ((line ++ [c]) :: r.1, r.2)
      else fgetsLines (line ++ [c]) f

/-- A file with lines that fit the buffer, and what stands behind the last line end. -/
structure Source where
  lines : List Text
  last : Text
  short : ∀ l ∈ last :: lines, l.length + 1 < XEV_LINE_SIZE
  plain : ∀ l ∈ last :: lines, '\n' ∉ l

/-- A line with its end. -/
def ended (l : Text) : Text := l ++ ['\n']

def Source.text (src : Source) : Text := src.lines.flatMap ended ++ src.last

theorem fgetsLines_line (l line f : Text) (hplain : '\n' ∉ l)
    (hshort : line.length + l.length + 1 < XEV_LINE_SIZE) :
    fgetsLines line (ended l ++ f) =
      ((line ++ ended l) :: (fgetsLines [] f).1, (fgetsLines [] f).2) := by
  induction l generalizing line with
  | nil =>
      rw [ended, List.nil_append, List.singleton_append, fgetsLines, if_pos (Or.inl rfl)]
  | cons c l ih =>
      rw [List.mem_cons, not_or] at hplain
      rw [List.length_cons] at hshort
      have hcut : ¬ (c = '\n' ∨ line.length + 2 = XEV_LINE_SIZE) := by
        intro h
        rcases h with h | h
        · exact hplain.1 h.symm
        · omega
      have hnext := ih (line ++ [c]) hplain.2 (by
        rw [List.length_append, List.length_singleton]
        omega)
      have htext : ended (c :: l) ++ f = c :: (ended l ++ f) := rfl
      have hline : line ++ [c] ++ ended l = line ++ ended (c :: l) := by
        rw [List.append_assoc]
        rfl
      rw [htext, fgetsLines, if_neg hcut, hnext, hline]

theorem fgetsLines_last (l line : Text) (hplain : '\n' ∉ l)
    (hshort : line.length + l.length + 1 < XEV_LINE_SIZE) :
    fgetsLines line l = ([], line ++ l) := by
  induction l generalizing line with
  | nil => rw [fgetsLines, List.append_nil]
  | cons c l ih =>
      rw [List.mem_cons, not_or] at hplain
      rw [List.length_cons] at hshort
      have hcut : ¬ (c = '\n' ∨ line.length + 2 = XEV_LINE_SIZE) := by
        intro h
        rcases h with h | h
        · exact hplain.1 h.symm
        · omega
      have hnext := ih (line ++ [c]) hplain.2 (by
        rw [List.length_append, List.length_singleton]
        omega)
      rw [fgetsLines, if_neg hcut, hnext, List.append_assoc, List.singleton_append]

/-- Lines that fit the buffer are read one by one. -/
theorem fgetsLines_lines (src : Source) :
    fgetsLines [] src.text = (src.lines.map ended, src.last) := by
  rcases src with ⟨lines, last, short, plain⟩
  rw [Source.text]
  induction lines with
  | nil =>
      have h := fgetsLines_last last [] (plain last List.mem_cons_self) (by
        rw [List.length_nil, Nat.zero_add]
        exact short last List.mem_cons_self)
      rw [List.nil_append] at h
      exact h
  | cons l lines ih =>
      have hsub : ∀ k ∈ last :: lines, k ∈ last :: l :: lines := by
        intro k hk
        rcases List.mem_cons.mp hk with h | h
        · rw [h]
          exact List.mem_cons_self
        · exact List.mem_cons_of_mem _ (List.mem_cons_of_mem _ h)
      have hl : l ∈ last :: l :: lines := List.mem_cons_of_mem _ List.mem_cons_self
      have hrest := ih (fun k hk => short k (hsub k hk)) (fun k hk => plain k (hsub k hk))
      have hline := fgetsLines_line l [] (lines.flatMap ended ++ last) (plain l hl) (by
        rw [List.length_nil, Nat.zero_add]
        exact short l hl)
      dsimp only at hrest ⊢
      rw [List.flatMap_cons, List.append_assoc, hline, hrest]
      rfl

end Lines

section Rewriting

/-- A string directive becomes an argument. What is blank at its end stays outside. -/
def string_line (line : Text) : Run Text :=
  if XEV_LINE_SIZE ≤ line.length + 23 then .error .undefined
  else
    let code := line.rdropWhile blank
    .ok ("!$xev string_pragma(\"".toList ++ code ++ ['"', ')'] ++ line.drop code.length)

/-- An extended directive gets its new name. The character behind the old name becomes a
    blank, and a longer name becomes blanks in front. -/
def extend_line (rename line : Text) : Run Text :=
  let lead := line.takeWhile blank
  let word := firstWord line
  let n := 6 + rename.length
  match line.drop (lead.length + word.length) with
  | [] => .error .undefined
  | _ :: rest =>
      if XEV_LINE_SIZE ≤ line.length + (n - word.length) then .error .undefined
      else
        .ok (lead ++ List.replicate (word.length - n) ' ' ++ "!$xev ".toList ++ rename ++
          ' ' :: rest)

/-- What a line becomes. -/
def rewriteLine (namelist : List NameCell) (line : Text) : Run Text :=
  if (skipBlanks line).head? = some '!' then
    match (xevparse_pragma_line namelist line).map NameCell.kind with
    | some .string => string_line line
    | some (.extend rename) => extend_line rename line
    | _ => .ok line
  else .ok line

/-- Writes a call for every piece of code in a text that is a part of `line`. -/
def extractFrom (line : Text) : Nat → Text → Run Text
  | 0, _ => .error .bound
  | fuel + 1, s =>
      match strchrF s '`' with
      | none => .ok []
      | some p =>
          match strchrF p.tail '`' with
          | none => .error (.exit ("unknown line: " ++ String.ofList line))
          | some q => do
              let e := p.tail.take (p.tail.length - q.length)
              let calls ← extractFrom line fuel q.tail
              .ok ("       call xevparse_extract_exp(".toList ++ e ++ [')', '\n'] ++ calls)

/-- Writes a call for every piece of code in a line. Every call takes characters of it. -/
def extract_exp (line : Text) : Run Text := extractFrom line (line.length + 1) line

/-- What is written for a line. -/
def preparse_line (namelist : List NameCell) (line : Text) : Run Text := do
  let line ← rewriteLine namelist line
  if (skipBlanks line).head? = some '!' ∧ (xevparse_pragma_line namelist line).isSome then
    let calls ← extract_exp line
    .ok (line ++ calls)
  else .ok line

/-- What is written for lines, one behind the other. -/
def preparse_lines (namelist : List NameCell) : List Text → Run Text
  | [] => .ok []
  | line :: lines => do
      let t ← preparse_line namelist line
      let ts ← preparse_lines namelist lines
      .ok (t ++ ts)

/-- The line in front of the file. -/
def prologue (source : Text) : Text :=
  "!$xev xevparse info source('".toList ++ source ++ "') version('1.1.1.1') begin\n".toList

/-- The subroutine behind the file. -/
def epilogue : Text :=
  "\n       subroutine xevparse_dummy\n       end subroutine xevparse_dummy\n".toList

/-- The file that the front end reads. -/
def preparse_f (namelist : List NameCell) (source f : Text) : Run Text := do
  let body ← preparse_lines namelist (fgetsLines [] f).1
  .ok (prologue source ++ body ++ epilogue)

end Rewriting

end XevXml.Tools.Passes
