import XevXml.Tools.Passes.Before

/-!
# The Pass behind the Back End

`postunparse_f` goes through what the back end has written. A line that is no directive is
written without its end, which waits for the next line, since a comment may belong there. A
directive of the tools becomes what the user wrote: the text of a string directive is taken
out of its quotes, an extended directive gets its old name, and in other directives of the
configuration the calls that follow are put back as pieces of code.

A directive whose code has to be put back is waiting while the next line is read. Where the
file ends before that line, the buffer still holds what it held.

## Main definitions

* `Passing`: What is kept from line to line.
* `scanPragma`: The text of a directive up to the next piece of code.
* `callExp`: The piece of code in a call.
* `postunparse_line`, `postunparse_f`: What is done with a line and with a file.
-/

namespace XevXml.Tools.Passes

section Directives

/-- The text of a Fortran string. What the tools do with one that lacks its closing quote
    is not known. -/
def readString (t : Text) : Run Text :=
  if t.head? = some '"' ∨ t.head? = some '\'' then
    match strF2G t with
    | some s => .ok s
    | none => .error .undefined
  else .error (.exit "strF2G: Fortran string must start with \" or '")

/-- The text of a string directive: up to its last quote, which becomes the end of the
    string in the buffer, and from behind its first one on. -/
def stringText (line : Text) : Run Text :=
  let front := line.rdropWhile fun c => c != '\''
  if front = [] then .error .assertion
  else if 28 ≤ front.length then .ok ((front.take (front.length - 1)).drop 27)
  else if line.length < 27 then .error .undefined
  else .ok (line.drop 27)

/-- The name of a directive, if it stands directly behind its mark. -/
def get_pragma_name (line : Text) : Option Text :=
  match line.drop 8 with
  | [] => none
  | c :: rest =>
      if blank c then none else some ('!' :: '$' :: c :: rest.takeWhile fun c => !blank c)

/-- The entry for a directive. A name that is missing must not be looked for. -/
def matchingPragma (namelist : List NameCell) (name : Option Text) : Run (Option NameCell) :=
  match name with
  | some name => .ok (xevparse_matching_pragma namelist name)
  | none => if namelist.any NameCell.head then .error .undefined else .ok none

/-- The text of a directive as it is copied, up to the end or behind the next piece of
    code. -/
def scanPragmaFrom : Nat → Text → Run (Text × Option Text)
  | 0, _ => .error .bound
  | _ + 1, [] => .ok ([], none)
  | fuel + 1, c :: s =>
      if c = '"' ∨ c = '\'' then
        match endstrF (c :: s) with
        | none => .error .undefined
        | some (s1, rest) => do
            let (t, more) ← scanPragmaFrom fuel rest
            .ok (s1 ++ t, more)
      else if c = '`' then
        match s.dropWhile (· != '`') with
        | [] => .error .assertion
        | _ :: rest => .ok ([], some rest)
      else do
        let (t, more) ← scanPragmaFrom fuel s
        .ok (c :: t, more)

/-- Every step of the scan takes characters. -/
def scanPragma (s : Text) : Run (Text × Option Text) := scanPragmaFrom (s.length + 1) s

/-- The piece of code in a call, between backquotes. -/
def callExp (body : Text) : Run Text :=
  let line := skipBlanks body
  if "CALL xevparse_extract_exp".toList.isPrefixOf line then
    match line.dropWhile (· != '(') with
    | [] => .error .undefined
    | _ :: q =>
        -- up to the last closing parenthesis of the line
        let front := line.rdropWhile (· != ')')
        let e := q.take (q.length - (line.length - front.length) - 1)
        .ok ('`' :: (if front = [] then [] else e) ++ ['`'])
  else .error .assertion

end Directives

section Pass

/-- What is kept from line to line: the text written so far, whether a line end waits, the
    rest of a directive that waits for a call, and what the buffer holds. -/
structure Passing where
  written : Text
  unbreak : Bool
  pending : Option Text
  buffer : Text

/-- Before the first line. -/
def Passing.start : Passing where
  written := []
  unbreak := false
  pending := none
  buffer := []

/-- The text with the line end that waits. -/
def Passing.broken (s : Passing) : Text := s.written ++ if s.unbreak then ['\n'] else []

/-- After a text that ends its own line. -/
def Passing.wrote (s : Passing) (t : Text) : Passing :=
  { s with written := t, unbreak := false, pending := none }

/-- Goes on with a directive from `rest` on. -/
def Passing.resume (s : Passing) (written rest : Text) : Run Passing := do
  let (t, more) ← scanPragma rest
  .ok { s with written := written ++ t, unbreak := false, pending := more }

/-- What a line that is no directive leaves: the position of its last character that is no
    control character is looked for, and nothing is written where that is the first one. -/
def keptText (body : Text) : Text :=
  let kept := body.rdropWhile fun c => c.toNat < 32 || 128 ≤ c.toNat
  if kept.length ≤ 1 then [] else kept

/-- What is done with a directive that belongs to none of the special kinds. -/
def postunparse_pragma (namelist : List NameCell) (s : Passing) (line : Text) : Run Passing :=
  let rename :=
    if "!pragma xev ".toList.isPrefixOf line then xevparse_pragma_rename namelist (line.drop 12)
    else none
  match rename with
  | some (orgname, clen) => .ok (s.wrote (s.broken ++ orgname ++ line.drop (12 + clen)))
  | none => do
      let c ← matchingPragma namelist (get_pragma_name line)
      match c with
      | none => .ok (s.wrote (s.broken ++ line))
      | some _ => s.resume s.broken ('!' :: '$' :: line.drop 8)

/-- What is done with a line. -/
def postunparse_line (namelist : List NameCell) (s : Passing) (body : Text) : Run Passing :=
  let s := { s with buffer := body }
  match s.pending with
  | some rest => do
      let e ← callExp body
      s.resume (s.written ++ e) rest
  | none =>
      let line := skipBlanks body
      if "!pragma xevparse comment(".toList.isPrefixOf line then do
        let s1 ← readString (line.drop 25)
        .ok (s.wrote (s.broken ++ s1 ++ ['\n']))
      else if "!pragma xevparse ecomment(".toList.isPrefixOf line then do
        -- stands behind what the line before has left
        let s1 ← readString (line.drop 26)
        .ok (s.wrote (s.written ++ s1 ++ ['\n']))
      else if "!pragma xev string_pragma".toList.isPrefixOf line then do
        let t ← stringText line
        .ok (s.wrote (s.broken ++ t ++ ['\n']))
      else if "!pragma ".toList.isPrefixOf line then postunparse_pragma namelist s line
      else .ok { s with written := s.broken ++ keptText body, unbreak := true }

/-- What is done with lines, one after the other. -/
def postunparse_lines (namelist : List NameCell) (s : Passing) (lines : List Text) : Run Passing :=
  lines.foldlM (postunparse_line namelist) s

/-- Puts back the pieces of code that a directive still waits for, all from one line. -/
def drainFrom (line : Text) : Nat → Text → Text → Run Text
  | 0, _, _ => .error .bound
  | fuel + 1, written, rest => do
      let e ← callExp line
      let (t, more) ← scanPragma rest
      match more with
      | none => .ok (written ++ e ++ t)
      | some rest => drainFrom line fuel (written ++ e ++ t) rest

/-- What is written at the end of the file, where `last` has been read without a line end.
    It is used if a directive waits for a line, and dropped otherwise. -/
def Passing.finish (s : Passing) (last : Text) : Run Text :=
  match s.pending with
  | none => .ok s.broken
  | some rest =>
      let line := if last = [] then s.buffer else last
      drainFrom line (rest.length + 1) s.written rest

/-- The file that the user gets. -/
def postunparse_f (namelist : List NameCell) (f : Text) : Run Text := do
  let (lines, last) := fgetsLines [] f
  let s ← postunparse_lines namelist Passing.start lines
  s.finish last

end Pass

end XevXml.Tools.Passes
