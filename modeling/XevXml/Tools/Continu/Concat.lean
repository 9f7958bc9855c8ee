import XevXml.Tools.Continu.Distribute

/-!
# Broken Lines Joined

`concat` goes through the lines of a file and collects a line and its continuation
lines in a buffer, which is written when the next line comes that does not continue
it. Lines that are not worked on wait until then, and so do comments that stand where
a line is broken.

Whether a line is continued is found out from what it ends with: a `&` in free form,
and in fixed form a string that is not closed, since there the sign of a continuation
stands in the sixth column of the line that continues. The position up to which the
buffer counts is kept from line to line. In fixed form it is moved back over the end
of the line and over a comment before the next piece is put there.

## Main definitions

* `Joining`: What is kept from line to line.
* `concatFree`, `concatFixed`: What is done with a line.
* `concat`: The file that is written.
-/

namespace XevXml.Tools

/-- What is kept from line to line: the text written so far, the buffer and the position
    in it, the lines and the comment that wait, whether the line before is continued and
    was a directive, whether the buffer holds one line only, and the quote that is open. -/
structure Joining where
  written : Text
  line1 : Text
  qq : Nat
  cls : Text
  prep : Option Text
  precon : Bool
  predir : Bool
  first : Bool
  schar : Option Char

namespace Joining

/-- Before the first line. -/
def start : Joining where
  written := []
  line1 := []
  qq := 0
  cls := []
  prep := none
  precon := false
  predir := false
  first := true
  schar := none

def put_cl (s : Joining) (line : Text) : Joining := { s with cls := s.cls ++ line }

def put_prep (s : Joining) (line : Text) : Run Joining :=
  match s.prep with
  | some _ => .error .assertion
  | none => .ok { s with prep := some line }

/-- Writes what has been collected. -/
def flush (s : Joining) : Joining :=
  { s with
    written := s.written ++ s.prep.getD [] ++ (if s.qq = 0 then [] else s.line1) ++ s.cls
    line1 := []
    qq := 0
    cls := []
    prep := none }

/-- Puts a text into the buffer, of which `n` characters count. -/
def strcpy (s : Joining) (text : Text) (n : Nat) : Joining :=
  { s with line1 := s.line1.take s.qq ++ text, qq := s.qq + n }

end Joining

section Free

/-- How many characters the word has that a text starts with; it ends at a `&`. -/
def wordLength (s : Text) : Nat := (s.takeWhile fun c => !blank c && c ≠ '&').length

/-- How many blanks a text starts with. -/
def blankLength (s : Text) : Nat := (s.takeWhile blank).length

/-- Where the piece of a string starts that a line continues, counted from the
    character in front of it. That character is missing where a statement goes on without
    a `&`. -/
def stringStart (dir : Bool) (line : Text) : Run Nat :=
  let p := codeStart .free line
  let q := p + if dir then wordLength (line.drop p) else 0
  let q := q + blankLength (line.drop q)
  if (line.drop q).head? = some '&' then .ok q
  else if dir then .ok p
  else .error .undefined

/-- What ends a line: the position of the `&` if it is continued, and the comment. -/
structure LineEnd where
  amp : Option Nat
  comminline : Option Text
  schar : Option Char

/-- The position of the `&` behind a text without the characters that are dropped from
    its end. -/
def ampAt (dropped : Char → Bool) (s : Text) : Option Nat :=
  let t := s.rdropWhile dropped
  if t.getLast? = some '&' then some (t.length - 1) else none

/-- The characters that are passed between the end of the code and the `&`. -/
def passed (c : Char) : Bool := c == '!' || blank c

/-- Finds out what ends a line from the search for the end of its code. -/
def lineEndFree (schar : Option Char) (inString : Bool) (line : Text) :
    Except Char (Text × Text) → Run LineEnd
  | .error c =>
      match ampAt blank line with
      | none =>
          .error (.exit ("xevutil_continu: unterminated and uncontinued string in fortran free " ++
            "format:\n " ++ String.ofList line))
      | some q => .ok ⟨some q, none, some c⟩
  | .ok (code, rest) =>
      .ok ⟨ampAt passed (line.take (line.length - rest.length)),
        if rest = [] then none else some rest,
        if inString || code.any isQuote then none else schar⟩

/-- Where the text starts that is copied: behind the `&` or in front of the first text of
    a directive that continues, and otherwise at the beginning of the line. -/
def copyStart (cont dir : Bool) (line : Text) (p : Nat) : Nat :=
  let p := p + wordLength (line.drop p)
  let p := p + blankLength (line.drop p)
  if cont then
    if (line.drop p).head? = some '&' then p + 1
    else if dir then p - 1
    else 0
  else 0

/-- The text that is copied. The line ends at the `&`, unless the text starts behind it. -/
def copied (amp : Option Nat) (line : Text) (p : Nat) : Text :=
  match amp with
  | some q => if p ≤ q then (line.take q).drop p else line.drop p
  | none => line.drop p

/-- Puts a line into the buffer when its end is known. -/
def putFree (s : Joining) (cont dir : Bool) (line : Text) (p : Nat) (l : LineEnd) :
    Run Joining := do
  let s := if cont then s else s.flush
  let s ← match l.amp, l.comminline with
    | some _, some comment => if cont then .ok (s.put_cl comment) else s.put_prep comment
    | _, _ => .ok s
  let text := copied l.amp line (copyStart cont dir line p)
  let s := s.strcpy text text.length
  .ok { s with
    precon := l.amp.isSome
    predir := if l.amp.isSome then dir else s.predir
    first := !cont
    schar := l.schar }

/-- What is done with a line in free form. -/
def concatFree (scope : Scope) (s : Joining) (line : Text) : Run Joining :=
  let dir := isDir .free line
  let inString := s.precon && s.schar.isSome
  let interleaved : Run Joining :=
    .error (.exit "xevutil_continu: fortran and directive continuation interleave found: unsolved")
  if inScope .free scope line = false then .ok { s.put_cl line with first := true }
  else if inString && s.predir != dir then interleaved
  else do
    let p ← if inString then stringStart dir line else .ok (codeStart .free line)
    let text :=
      if inString then line.drop (p + 1)
      else line.drop (codeStart .free line + if dir then 2 else 0)
    let l ← lineEndFree s.schar inString line (scanAfter (if inString then s.schar else none) text)
    if s.precon && s.predir != dir then interleaved
    else putFree s s.precon dir line p l

end Free

section Fixed

/-- A name of a directive: it is the first word of a line, or the beginning of it. -/
structure PragmaName where
  head : Bool
  pragma_name : Text

/-- Whether the first word of a line is one of the names. -/
def xevparse_pragma_line (namelist : List PragmaName) (line : Text) : Bool :=
  namelist.any fun c =>
    if c.head then c.pragma_name.isPrefixOf (firstWord line) else c.pragma_name == firstWord line

/-- The position from which the buffer is written on: back over the end of a line and over
    the marks of a comment. -/
def retreat (line1 : Text) : Nat → Nat
  | 0 => 1
  | qq + 1 =>
      if (line1.drop (qq + 1)).head?.all (fun c => lineEnd c || c == '!') then retreat line1 qq
      else qq + 2

/-- Whether a line is one of the directives that continue nothing. -/
def nocon (namelist : List PragmaName) (line : Text) : Bool :=
  line.head? == some '!' && xevparse_pragma_line namelist line

/-- Whether a line continues the one before in fixed form. -/
def continues (scope : Scope) (namelist : List PragmaName) (line : Text) : Bool :=
  let marked := (line.drop 5).head?.any fun c => !blank c
  if !isDir .fixed line && scope.forts && "     ".toList.isPrefixOf line && marked then true
  else isDir .fixed line && scope.dirs && marked && !nocon namelist line

/-- Puts a line into the buffer; the first `q` of its characters count. -/
def putFixed (s : Joining) (cont : Bool) (line : Text) (q : Nat) : Run Joining :=
  if cont then
    -- the buffer is empty, and what stands behind it is not known
    if s.line1 = [] then .error .undefined
    else do
      let s := { s with qq := retreat s.line1 s.qq }
      let rest := s.line1.drop s.qq
      let s ← if rest.head? = some '!' then
          if s.first then s.put_prep rest else .ok (s.put_cl rest)
        else .ok s
      .ok { s.strcpy (line.drop 6) (q - 6) with first := false }
  else .ok { s.flush.strcpy line q with first := true }

/-- Puts a line into the buffer after the search for the end of its code. -/
def finishFixed (s : Joining) (cont : Bool) (line : Text) :
    Except Char (Text × Text) → Run Joining
  | .error c => do
      let s ← putFixed s cont line (line.rdropWhile lineEnd).length
      .ok { s with precon := true, predir := isDir .fixed line, schar := some c }
  | .ok (code, rest) => do
      let s ← putFixed s cont line (line.length - rest.length)
      .ok { s with precon := false, schar := ((code.filter isQuote).getLast?).or s.schar }

/-- What is done with a line in fixed form. -/
def concatFixed (scope : Scope) (namelist : List PragmaName) (s : Joining) (line : Text) :
    Run Joining :=
  if inScope .fixed scope line = false then .ok (s.put_cl line)
  else if s.precon then
    if line.length < 6 || (line.drop 5).head? == some ' ' then
      .error (.exit ("xevutil_continu: unterminated and uncontinued string constant in fixed " ++
        "fortran format:\n " ++ String.ofList line))
    else
      match s.schar with
      | none => .error .undefined
      | some c =>
          -- the quote takes the place of the mark in the sixth column
          let line := line.set 5 c
          match endstrF (line.drop 5) with
          | none =>
              let stripped := line.rdropWhile lineEnd
              let qq := retreat s.line1 s.qq
              -- the position stays on the last character
              .ok { s with
                line1 := s.line1.take qq ++ stripped.drop 6, qq := qq + stripped.length - 7 }
          | some (_, rest) => finishFixed s true line (scan rest)
  else if line.length < 6 then .error .undefined
  else finishFixed s (continues scope namelist line) line (scan (line.drop 6))

end Fixed

/-- The file that is written. -/
def concat (form : Form) (scope : Scope) (namelist : List PragmaName) (lines : List Text) :
    Run Text := do
  let s ← lines.foldlM (match form with
    | .fixed => concatFixed scope namelist
    | .free => concatFree scope) Joining.start
  .ok s.flush.written

end XevXml.Tools
