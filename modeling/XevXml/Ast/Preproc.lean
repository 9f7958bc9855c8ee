import XevXml.Core.Numeral
import XevXml.Core.Replace
import XevXml.Dom.Entity
import Mathlib.Data.List.DropRight

/-!
# Continued Directives

A directive in a Fortran program is a comment that begins with a sentinel, and it may be
continued on the lines behind it. In free form a line that goes on ends with an ampersand, and
the next line has one behind its sentinel. In fixed form the next line has a mark in its sixth
column. The writer collects the lines of a directive with a recursion over the lines attached
to a node, which goes on in other nodes when the lines of one are used up, and flags the lines
it has taken so that they are not written once more.

The recursion stops at an ordinary comment, looks for the mark at a fixed place of the line
even if the sentinel is behind it, and does not look at the first character of a text when it
looks for a comment or the last visible character, which is right for the sentinel but not for
what is behind a mark. If there is no visible character it reads in front of the text.

## Main definitions

* `Node`: The nodes of a tree with the lines attached to them.
* `findContinuedDirective`: The text of a directive.
* `writeFortranPragma`: The directives of a node.
* `Directive`: The lines of a directive in a list of lines.
* `Joined`: The directive is found completely and once.
* `Joinable`: The lines follow each other in the form the recursion expects.

## Theorems

* `lastVisibleCharPos_cons`: What the search for the last visible character finds.
* `cut_legible`, `legible_or_of_cut`: When a line is cut as it is read.
* `cut_first`: The first line of a directive is cut as it is read.
-/

namespace XevXml.Preproc

open Numeral (isSpace)

section Lines

/-- The sentinel of a directive. -/
def xevPragmaPrefix : Text := ['!', '$', 'x', 'e', 'v']

/-- The sentinel in fixed form with an asterisk. -/
def xevPragmaPrefixA : Text := ['*', '$', 'x', 'e', 'v']

/-- The sentinel in fixed form with a letter. -/
def xevPragmaPrefixC : Text := ['c', '$', 'x', 'e', 'v']

/-- The position of the sentinel in a line, if the line is a directive. -/
def directivePos (isFixed : Bool) (line : Text) : Option Nat :=
  let str := line.map Char.toLower
  if isFixed then
    if xevPragmaPrefix.isPrefixOf str || xevPragmaPrefixA.isPrefixOf str ||
        xevPragmaPrefixC.isPrefixOf str then some 0
    else none
  else Replace.find xevPragmaPrefix str

/-- The rest of a string from a position on, which must not be behind its end. -/
def substr (pos : Nat) (str : Text) : Option Text :=
  if pos ≤ str.length then some (str.drop pos) else none

/-- The loop over the characters from position `i` on, with the last visible one so far: the
    last visible one, what is kept of the string, and the comment. -/
def lastVisibleFrom : Nat → Option Nat → Text → Option Nat × Text × Text
  | _, pos, [] => (pos, [], [])
  | i, pos, c :: str =>
      if c = '!' then (pos, [], c :: str ++ ['\n'])
      else
        let rest := lastVisibleFrom (i + 1) (if isSpace c then pos else some i) str
        (rest.1, c :: rest.2.1, rest.2.2)

/-- The last visible character of a string in front of a comment, what is in front of the
    comment, and the comment. The first character is ignored because it could be `!`. -/
def lastVisibleCharPos : Text → Option Nat × Text × Text
  | [] => (none, [], [])
  | c :: str =>
      let rest := lastVisibleFrom 1 none str
      (rest.1, c :: rest.2.1, rest.2.2)

/-- Whether a line has the mark of a continued line in its sixth column. -/
def isMarked (isFixed : Bool) (str : Text) : Bool :=
  match str[5]? with
  | none => false
  | some c => if isFixed then !isSpace c else c = '&'

/-- What becomes of a line: the search ends, goes on behind the line, or takes its text. -/
inductive Front
  | stop
  | skip
  | text (ret : Text)
deriving DecidableEq, Repr

/-- The first part of the function. There is no result if a position is behind the end. -/
def front (isFixed cont : Bool) (line : Text) : Option Front :=
  match directivePos isFixed line with
  | none => some .stop
  | some dirpos =>
      if cont = false then some (.text (line.drop dirpos))
      else if isMarked isFixed line then (substr 6 (line.drop dirpos)).map .text
      -- in fixed form this is not a continued line, in free form it is passed over
      else some (if isFixed then .stop else .skip)

/-- Whether the next line is looked for, the text without its comment and the ampersand at its
    end, and the comment. There is no result if there is no visible character. -/
def cut (isFixed : Bool) (ret : Text) : Option (Bool × Text × Text) :=
  match lastVisibleCharPos ret with
  | (last, ret, cmt) =>
      if isFixed then some (true, ret, cmt)
      else
        match last with
        -- the position is unsigned and is never less than zero
        | none => none
        | some last =>
            if ret[last]? = some '&' then some (true, ret.take last, cmt)
            else some (false, ret, cmt)

end Lines

section Search

/-- Where a line is attached. -/
inductive RelativePosition
  | before
  | after
  | inside
deriving DecidableEq, Repr

/-- A line attached to a node. -/
structure PreprocessingInfo where
  string : Text
  relativePosition : RelativePosition
deriving DecidableEq, Repr

/-- A successor of a node: a located node with its lines and successors, or none. -/
inductive Node
  | other
  | located (info : List PreprocessingInfo) (successors : List Node)

/-- The place of a line: the way to its node, the last step first, and its index. -/
abbrev Place := List Nat × Nat

/-- What a search changes: the comments, and the lines that are flagged. -/
structure Search where
  cmtBefore : Text
  cmtAfter : Text
  transformation : List Place
deriving DecidableEq, Repr

/-- The comment of a line. -/
def Search.comment (cont : Bool) (cmt : Text) (s : Search) : Search :=
  if cont then { s with cmtAfter := s.cmtAfter ++ cmt }
  else { s with cmtBefore := s.cmtBefore ++ cmt }

/-- A line that is flagged if it continues another one. -/
def Search.flag (cont : Bool) (p : Place) (s : Search) : Search :=
  if cont then { s with transformation := s.transformation ++ [p] } else s

/-- The last part of the function: the continued line, in the lines that follow and then
    elsewhere. -/
def goOn (isFixed : Bool) (elsewhere next : Search → Option (Text × Search)) (more : Bool)
    (ret : Text) (s : Search) : Option (Text × Search) :=
  if more = false then some (ret, s)
  else
    (next s).bind fun (contdir, s) =>
      if isFixed = false ∧ contdir ≠ [] then some (ret ++ contdir, s)
      else (elsewhere s).map fun (found, s) => (ret ++ contdir ++ found, s)

/-- The search in the lines of a node from an index on, with the search elsewhere. -/
def findLines (isFixed : Bool) (path : List Nat)
    (elsewhere : Search → Option (Text × Search)) :
    Bool → Nat → List PreprocessingInfo → Search → Option (Text × Search)
  | _, _, [], s => some ([], s)
  | cont, index, ppi :: info, s =>
      if (path, index) ∈ s.transformation then some ([], s)
      else
        (front isFixed cont ppi.string).bind fun
          | .stop => some ([], s)
          | .skip => findLines isFixed path elsewhere true (index + 1) info s
          | .text ret =>
              (cut isFixed ret).bind fun (more, ret, cmt) =>
                goOn isFixed elsewhere (findLines isFixed path elsewhere true (index + 1) info)
                  more ret ((s.flag cont (path, index)).comment cont cmt)

mutual

/-- The search in a node from its first line on, for a directive in front of it. -/
def findBefore (isFixed : Bool) (path : List Nat) : Node → Search → Option (Text × Search)
  | .other, s => some ([], s)
  | .located info successors, s =>
      findLines isFixed path (fun s => findSuccessors isFixed path 0 successors s) true 0 info s

/-- The search in the successors of a node from one of them on. -/
def findSuccessors (isFixed : Bool) (path : List Nat) (ii : Nat) :
    List Node → Search → Option (Text × Search)
  | [], s => some ([], s)
  | loc :: successors, s =>
      (findBefore isFixed (ii :: path) loc s).bind fun (cont2, s) =>
        if cont2 ≠ [] then some (cont2, s)
        else findSuccessors isFixed path (ii + 1) successors s

end

/-- Where the continued line is looked for if it is not among the lines that follow. For a
    directive behind a statement this is the same statement: the next statement is computed but
    not used. -/
def elsewhere (isFixed : Bool) (pos : RelativePosition) (path : List Nat)
    (info : List PreprocessingInfo) (successors : List Node) (s : Search) :
    Option (Text × Search) :=
  match pos with
  | .after => findBefore isFixed path (.located info successors) s
  | .before => findSuccessors isFixed path 0 successors s
  | .inside => some ([], s)

/-- The text of the directive in the line at an index of a statement. -/
def findContinuedDirective (isFixed : Bool) (pos : RelativePosition) (path : List Nat)
    (info : List PreprocessingInfo) (successors : List Node) (cont : Bool) (index : Nat)
    (s : Search) : Option (Text × Search) :=
  findLines isFixed path (elsewhere isFixed pos path info successors) cont index
    (info.drop index) s

/-- A directive as it is written. -/
structure Pragma where
  pragma : Text
  cmtBefore : Text
  cmtAfter : Text
deriving DecidableEq, Repr

/-- What is written for the line at an index, and the lines that are flagged. -/
def writePragmaAt (isFixed : Bool) (pos : RelativePosition) (path : List Nat)
    (info : List PreprocessingInfo) (successors : List Node) (index : Nat)
    (flagged : List Place) : Option (List Pragma × List Place) :=
  match info[index]? with
  | none => some ([], flagged)
  | some ppi =>
      if ppi.relativePosition = pos ∧ (directivePos isFixed ppi.string).isSome then
        (findContinuedDirective isFixed pos path info successors false index
          ⟨[], [], flagged⟩).bind fun (str, s) =>
            if str = [] then some ([], s.transformation)
            else
              -- directives start with `!$`
              (substr 2 str).map fun pragma =>
                ([⟨xmlStr2Entity pragma, xmlStr2Entity s.cmtBefore, xmlStr2Entity s.cmtAfter⟩],
                  s.transformation)
      else some ([], flagged)

/-- The loop over the lines from an index on. -/
def writePragmasFrom (isFixed : Bool) (pos : RelativePosition) (path : List Nat)
    (info : List PreprocessingInfo) (successors : List Node) :
    Nat → Nat → List Place → Option (List Pragma × List Place)
  | 0, _, flagged => some ([], flagged)
  | n + 1, index, flagged =>
      (writePragmaAt isFixed pos path info successors index flagged).bind fun (ps, flagged) =>
        (writePragmasFrom isFixed pos path info successors n (index + 1) flagged).map
          fun (qs, flagged) => (ps ++ qs, flagged)

/-- The directives at a position of a node. -/
def writeFortranPragma (isFixed : Bool) (pos : RelativePosition) (path : List Nat)
    (info : List PreprocessingInfo) (successors : List Node) (flagged : List Place) :
    Option (List Pragma × List Place) :=
  writePragmasFrom isFixed pos path info successors info.length 0 flagged

end Search

section Directives

/-- What a line says: its text without the ampersand at its end, the comment, and whether the
    ampersand is there. -/
structure Reading where
  text : Text
  comment : Text
  continued : Bool
deriving DecidableEq, Repr

/-- The comment at the end of a text, with the end of the line. -/
def inlineComment (t : Text) : Text :=
  match t.dropWhile fun c => c ≠ '!' with
  | [] => []
  | c => c ++ ['\n']

/-- What a line says whose head has no comment. -/
def read (isFixed : Bool) (head rest : Text) : Reading :=
  let code := head ++ rest.takeWhile fun c => c ≠ '!'
  let seen := code.rdropWhile isSpace
  let continued := !isFixed && seen.getLast? == some '&'
  { text := if continued then seen.dropLast else code
    comment := inlineComment rest
    continued := continued }

/-- Whether a line is a directive. -/
def isDirective (isFixed : Bool) (ppi : PreprocessingInfo) : Bool :=
  (directivePos isFixed ppi.string).isSome

/-- The sentinel of a directive, as it is written. -/
def sentinel (isFixed : Bool) (line : Text) : Text :=
  (line.drop ((directivePos isFixed line).getD 0)).take 5

/-- What is behind the sentinel of a directive. -/
def behindSentinel (isFixed : Bool) (line : Text) : Text :=
  line.drop ((directivePos isFixed line).getD 0 + 5)

/-- What is behind the mark of a line that continues another one. -/
def behindMark (isFixed : Bool) (line : Text) : Text := (behindSentinel isFixed line).drop 1

/-- What the first line of a directive says. -/
def readFirst (isFixed : Bool) (ppi : PreprocessingInfo) : Reading :=
  read isFixed (sentinel isFixed ppi.string) (behindSentinel isFixed ppi.string)

/-- What a line says that continues another one. -/
def readNext (isFixed : Bool) (ppi : PreprocessingInfo) : Reading :=
  read isFixed [] (behindMark isFixed ppi.string)

/-- Whether a line continues another one: it is a directive with a mark behind its sentinel. -/
def isContinuation (isFixed : Bool) (ppi : PreprocessingInfo) : Bool :=
  isDirective isFixed ppi &&
    match (behindSentinel isFixed ppi.string).head? with
    | none => false
    | some c => if isFixed then !isSpace c else c = '&'

/-- A line that continues a directive, with the ordinary comments in front of it. -/
structure Segment where
  comments : List PreprocessingInfo
  line : PreprocessingInfo
deriving DecidableEq, Repr

/-- The lines of a segment. -/
def Segment.info (g : Segment) : List PreprocessingInfo := g.comments ++ [g.line]

/-- Segments continue what has been read so far. -/
def Continues (isFixed : Bool) : Reading → List Segment → Prop
  | r, [] => r.continued = false
  | r, g :: segments =>
      (isFixed = false → r.continued = true) ∧
        (∀ c ∈ g.comments, isDirective isFixed c = false) ∧
        isContinuation isFixed g.line = true ∧
        Continues isFixed (readNext isFixed g.line) segments

/-- The places of the continued lines, the first segment of which begins at an index. -/
def places (path : List Nat) : Nat → List Segment → List Place
  | _, [] => []
  | index, g :: segments =>
      (path, index + g.comments.length) ::
        places path (index + g.comments.length + 1) segments

/-- A directive among the lines attached to a statement, of which no line has been flagged. -/
structure Directive (isFixed : Bool) (path : List Nat) (s : Search) where
  front : List PreprocessingInfo
  first : PreprocessingInfo
  segments : List Segment
  rest : List PreprocessingInfo
  directive : isDirective isFixed first = true
  continues : Continues isFixed (readFirst isFixed first) segments
  /-- In fixed form the next line tells whether a line is continued. -/
  ends : isFixed = true → ∀ ppi, rest.find? (isDirective isFixed) = some ppi →
    isContinuation isFixed ppi = false
  unflagged : ∀ p ∈ (path, front.length) :: places path (front.length + 1) segments,
    p ∉ s.transformation

variable {isFixed : Bool} {path : List Nat} {s : Search}

/-- All lines of the statement. -/
def Directive.info (d : Directive isFixed path s) : List PreprocessingInfo :=
  d.front ++ d.first :: (d.segments.flatMap Segment.info ++ d.rest)

/-- The places of the lines that continue the directive. -/
def Directive.places (d : Directive isFixed path s) : List Place :=
  Preproc.places path (d.front.length + 1) d.segments

/-- The texts of the lines in their order. -/
def Directive.text (d : Directive isFixed path s) : Text :=
  (readFirst isFixed d.first).text ++ d.segments.flatMap fun g => (readNext isFixed g.line).text

/-- The state with the comments of the lines, and with the lines that are used up. -/
def Directive.found (d : Directive isFixed path s) : Search where
  cmtBefore := s.cmtBefore ++ (readFirst isFixed d.first).comment
  cmtAfter := s.cmtAfter ++ d.segments.flatMap fun g => (readNext isFixed g.line).comment
  transformation := s.transformation ++ d.places

/-- The directive is found completely, and its lines are not written once more. -/
structure Joined (d : Directive isFixed path s) (pos : RelativePosition)
    (successors : List Node) : Prop where
  found : findContinuedDirective isFixed pos path d.info successors false d.front.length s =
    some (d.text, d.found)
  once : ∀ p ∈ d.places, ∀ pos',
    writePragmaAt isFixed pos' path d.info successors p.2 d.found.transformation =
      some ([], d.found.transformation)

/-- Whether a search takes a line. -/
def takes (isFixed : Bool) (flagged : List Place) (p : Place) (ppi : PreprocessingInfo) : Prop :=
  p ∉ flagged ∧ isDirective isFixed ppi = true ∧ isMarked isFixed ppi.string = true

/-- A search elsewhere takes no line. -/
def NothingElsewhere (isFixed : Bool) (pos : RelativePosition) (path : List Nat)
    (info : List PreprocessingInfo) (successors : List Node) (flagged : List Place) : Prop :=
  match pos with
  | .after => ∀ ppi, info.head? = some ppi → ¬ takes isFixed flagged (path, 0) ppi
  | .before => ∀ ii info successors' ppi, successors[ii]? = some (.located info successors') →
      info.head? = some ppi → ¬ takes isFixed flagged (ii :: path, 0) ppi
  | .inside => True

/-- A text behind a mark in which the last visible character is found: it does not begin with a
    comment, and in free form something is visible behind its first character. -/
def Legible (isFixed : Bool) (t : Text) : Prop :=
  t.head? ≠ some '!' ∧
    (isFixed = false → ∃ c ∈ (t.drop 1).takeWhile fun c => c ≠ '!', isSpace c = false)

/-- The lines follow each other, their marks are where they are looked for, their texts are
    legible, and in fixed form nothing is found elsewhere. -/
structure Joinable (d : Directive isFixed path s) (pos : RelativePosition)
    (successors : List Node) : Prop where
  adjacent : ∀ g ∈ d.segments, g.comments = []
  marked : ∀ g ∈ d.segments, isMarked isFixed g.line.string = true
  legible : ∀ g ∈ d.segments, Legible isFixed (behindMark isFixed g.line.string)
  settled : isFixed = true →
    NothingElsewhere isFixed pos path d.info successors s.transformation

end Directives

section Visible

/-- What is visible of a text begins where the text does, or nothing behind its beginning is. -/
theorem rdropWhile_cons (c : Char) (t : Text) :
    (c :: t).rdropWhile isSpace =
      if t.rdropWhile isSpace = [] then [c].rdropWhile isSpace else c :: t.rdropWhile isSpace := by
  induction t using List.reverseRecOn with
  | nil => rw [List.rdropWhile_nil, if_pos rfl]
  | append_singleton t x ih =>
      rw [← List.cons_append]
      by_cases hx : isSpace x = true
      · rw [List.rdropWhile_concat_pos _ _ _ hx, List.rdropWhile_concat_pos _ _ _ hx, ih]
      · rw [List.rdropWhile_concat_neg _ _ _ hx, List.rdropWhile_concat_neg _ _ _ hx,
          if_neg (List.append_ne_nil_of_right_ne_nil _ (List.cons_ne_nil _ _)), List.cons_append]

theorem inlineComment_cons (c : Char) (t : Text) :
    inlineComment (c :: t) = if c = '!' then c :: t ++ ['\n'] else inlineComment t := by
  by_cases hc : c = '!'
  · subst hc
    rw [if_pos rfl]
    rfl
  · rw [if_neg hc, inlineComment, inlineComment, List.dropWhile_cons_of_pos (by simpa using hc)]

/-- The loop finds the last visible character in front of a comment. -/
theorem lastVisibleFrom_eq (i : Nat) (pos : Option Nat) (t : Text) :
    lastVisibleFrom i pos t =
      (if (t.takeWhile fun c => c ≠ '!').rdropWhile isSpace = [] then pos
        else some (i + ((t.takeWhile fun c => c ≠ '!').rdropWhile isSpace).length - 1),
        t.takeWhile fun c => c ≠ '!', inlineComment t) := by
  induction t generalizing i pos with
  | nil => rfl
  | cons c t ih =>
      rw [lastVisibleFrom, inlineComment_cons]
      by_cases hc : c = '!'
      · rw [if_pos hc, if_pos hc, List.takeWhile_cons_of_neg (by simpa using hc)]
        rfl
      · rw [if_neg hc, if_neg hc, List.takeWhile_cons_of_pos (by simpa using hc),
          rdropWhile_cons, ih]
        by_cases ht : (t.takeWhile fun c => c ≠ '!').rdropWhile isSpace = []
        · -- The position is that of the first character, or the one found before.
          simp only [ht, if_true]
          by_cases hs : isSpace c = true
          · rw [if_pos hs, List.rdropWhile_singleton, if_pos hs, if_pos rfl]
          · rw [if_neg hs, List.rdropWhile_singleton, if_neg hs, if_neg (List.cons_ne_nil _ _)]
            rfl
        · have hlen : 0 < ((t.takeWhile fun c => c ≠ '!').rdropWhile isSpace).length :=
            List.length_pos_of_ne_nil ht
          simp only [ht, if_false, List.cons_ne_nil, List.length_cons]
          congr 2
          omega

/-- The text behind the first character in front of a comment, up to the last visible
    character. -/
def seenBehind (t : Text) : Text := (t.takeWhile fun c => c ≠ '!').rdropWhile isSpace

theorem lastVisibleCharPos_cons (c : Char) (t : Text) :
    lastVisibleCharPos (c :: t) =
      (if seenBehind t = [] then none else some (seenBehind t).length,
        c :: t.takeWhile fun c => c ≠ '!', inlineComment t) := by
  rw [lastVisibleCharPos, lastVisibleFrom_eq, seenBehind, Nat.add_comm 1, Nat.add_sub_cancel]

/-- The text up to a visible character is in front of the comment. -/
theorem seenBehind_append (t : Text) :
    ∃ spaces, (t.takeWhile fun c => c ≠ '!') = seenBehind t ++ spaces :=
  ⟨_, List.rdropWhile_append_rtakeWhile.symm⟩

theorem cut_fixed_nil : cut true [] = some (true, [], []) := rfl

theorem cut_fixed_cons (c : Char) (t : Text) :
    cut true (c :: t) = some (true, c :: t.takeWhile fun c => c ≠ '!', inlineComment t) := by
  rw [cut, lastVisibleCharPos_cons]
  rfl

theorem cut_free_cons (c : Char) (t : Text) :
    cut false (c :: t) =
      if seenBehind t = [] then none
      else if (seenBehind t).getLast? = some '&' then
        some (true, c :: (seenBehind t).dropLast, inlineComment t)
      else some (false, c :: t.takeWhile fun c => c ≠ '!', inlineComment t) := by
  rw [cut, lastVisibleCharPos_cons]
  by_cases hseen : seenBehind t = []
  · simp only [hseen, if_true]
    rfl
  · rcases seenBehind_append t with ⟨spaces, hsplit⟩
    rcases Nat.exists_eq_succ_of_ne_zero (List.length_pos_of_ne_nil hseen).ne' with ⟨n, hn⟩
    have hlast : (c :: t.takeWhile fun c => c ≠ '!')[(seenBehind t).length]? =
        (seenBehind t).getLast? := by
      rw [hsplit, List.getLast?_eq_getElem?, hn, List.getElem?_cons_succ,
        List.getElem?_append_left (by omega), Nat.succ_sub_one]
    have htake : (c :: t.takeWhile fun c => c ≠ '!').take (seenBehind t).length =
        c :: (seenBehind t).dropLast := by
      rw [hsplit, hn, List.take_succ_cons, List.take_append_of_le_length (by omega),
        List.dropLast_eq_take, hn, Nat.succ_sub_one]
    simp only [hseen, if_false, Bool.false_eq_true, hlast, htake]

/-- A text is cut as it is read if its first characters are neither a comment nor, in free form,
    all that is visible. -/
theorem cut_read {isFixed : Bool} (c : Char) {w u : Text} (hw : ∀ x ∈ w, x ≠ '!')
    (hseen : isFixed = false → seenBehind (w ++ u) ≠ []) :
    cut isFixed (c :: (w ++ u)) =
      some (isFixed || (read isFixed (c :: w) u).continued, (read isFixed (c :: w) u).text,
        (read isFixed (c :: w) u).comment) := by
  have hcode : ((w ++ u).takeWhile fun c => c ≠ '!') = w ++ u.takeWhile fun c => c ≠ '!' :=
    List.takeWhile_append_of_pos fun x hx => by simpa using hw x hx
  have hcmt : inlineComment (w ++ u) = inlineComment u := by
    unfold inlineComment
    rw [List.dropWhile_append_of_pos fun x hx => by simpa using hw x hx]
  cases isFixed with
  | true =>
      rw [cut_fixed_cons, hcode, hcmt]
      rfl
  | false =>
      have hne := hseen rfl
      have hread : (c :: (w ++ u.takeWhile fun c => c ≠ '!')).rdropWhile isSpace =
          c :: seenBehind (w ++ u) := by
        rw [← hcode, rdropWhile_cons]
        exact if_neg hne
      have hlast : (c :: seenBehind (w ++ u)).getLast? = (seenBehind (w ++ u)).getLast? := by
        rcases List.exists_cons_of_ne_nil hne with ⟨x, xs, hxs⟩
        rw [hxs, List.getLast?_cons_cons]
      have hdrop : (c :: seenBehind (w ++ u)).dropLast = c :: (seenBehind (w ++ u)).dropLast :=
        List.dropLast_cons_of_ne_nil hne
      rw [cut_free_cons, if_neg hne, read]
      simp only [List.cons_append, hread, hlast, hdrop, hcmt, hcode, Bool.not_false, Bool.true_and,
        Bool.false_or, beq_iff_eq]
      by_cases hamp : (seenBehind (w ++ u)).getLast? = some '&'
      · simp only [hamp, if_true, beq_self_eq_true]
      · simp only [hamp, if_false, beq_eq_false_iff_ne.mpr hamp]

theorem seenBehind_ne_nil_iff (t : Text) :
    seenBehind t ≠ [] ↔ ∃ c ∈ t.takeWhile fun c => c ≠ '!', isSpace c = false := by
  rw [seenBehind, ne_eq, List.rdropWhile_eq_nil_iff]
  simp only [not_forall, Bool.not_eq_true, exists_prop]

/-- A legible text behind a mark is cut as it is read. -/
theorem cut_legible {isFixed : Bool} {t : Text} (h : Legible isFixed t) :
    cut isFixed t =
      some (isFixed || (read isFixed [] t).continued, (read isFixed [] t).text,
        (read isFixed [] t).comment) := by
  cases t with
  | nil =>
      cases isFixed with
      | true => rfl
      | false =>
          rcases h.2 rfl with ⟨c, hc, -⟩
          exact absurd hc List.not_mem_nil
  | cons c u =>
      have hc : c ≠ '!' := fun hc => h.1 (congrArg some hc)
      have hread : read isFixed [] (c :: u) = read isFixed [c] u := by
        rw [read, read, inlineComment_cons, if_neg hc,
          List.takeWhile_cons_of_pos (by simpa using hc)]
        rfl
      rw [hread]
      exact cut_read c (List.forall_mem_nil _) fun hfree =>
        (seenBehind_ne_nil_iff u).mpr (h.2 hfree)

/-- The first character is kept. -/
theorem ne_nil_of_cut {isFixed more : Bool} {c : Char} {u ret cmt : Text}
    (h : cut isFixed (c :: u) = some (more, ret, cmt)) : ret ≠ [] := by
  cases isFixed with
  | true =>
      rw [cut_fixed_cons, Option.some.injEq, Prod.mk.injEq, Prod.mk.injEq] at h
      rw [← h.2.1]
      exact List.cons_ne_nil _ _
  | false =>
      rw [cut_free_cons] at h
      split at h
      · exact nomatch h
      · split at h <;>
        · rw [Option.some.injEq, Prod.mk.injEq, Prod.mk.injEq] at h
          rw [← h.2.1]
          exact List.cons_ne_nil _ _

theorem text_ne_nil_of_legible {t : Text} (h : Legible false t) : (read false [] t).text ≠ [] := by
  have hcut := cut_legible h
  cases t with
  | nil =>
      rcases h.2 rfl with ⟨c, hc, -⟩
      exact absurd hc List.not_mem_nil
  | cons c u => exact ne_nil_of_cut hcut

/-- If there is a result, the text is legible or a comment is taken for a text. -/
theorem legible_or_of_cut {isFixed more : Bool} {t ret cmt : Text}
    (h : cut isFixed t = some (more, ret, cmt)) :
    Legible isFixed t ∨
      ret ≠ [] ∧ (read isFixed [] t).text = [] ∧ (read isFixed [] t).continued = false := by
  cases t with
  | nil =>
      cases isFixed with
      | true => exact Or.inl ⟨by simp, by simp⟩
      | false => exact absurd h (by simp [cut, lastVisibleCharPos])
  | cons c u =>
      by_cases hc : c = '!'
      · subst hc
        refine Or.inr ⟨ne_nil_of_cut h, ?_⟩
        cases isFixed <;> exact ⟨rfl, rfl⟩
      · refine Or.inl ⟨fun h => hc (Option.some.inj h), fun hfree => ?_⟩
        subst hfree
        rw [List.drop_one, List.tail_cons, ← seenBehind_ne_nil_iff]
        intro hseen
        rw [cut_free_cons, if_pos hseen] at h
        exact nomatch h

/-- In fixed form the next line is always looked for. -/
theorem more_of_cut_fixed {more : Bool} {t ret cmt : Text}
    (h : cut true t = some (more, ret, cmt)) :
    more = true := by
  cases t with
  | nil =>
      rw [cut_fixed_nil, Option.some.injEq, Prod.mk.injEq] at h
      exact h.1.symm
  | cons c u =>
      rw [cut_fixed_cons, Option.some.injEq, Prod.mk.injEq] at h
      exact h.1.symm

end Visible

section Sentinels

/-- A letter that becomes part of a sentinel is neither a blank nor the mark of a comment. -/
theorem visible_of_toLower {c : Char} (h : c.toLower ∈ ['$', 'x', 'e', 'v']) :
    c ≠ '!' ∧ isSpace c = false := by
  constructor
  · intro hc
    subst hc
    exact absurd h (by decide)
  · by_contra hs
    rw [Bool.not_eq_false] at hs
    unfold isSpace at hs
    simp only [Bool.or_eq_true, decide_eq_true_eq] at hs
    rcases hs with ((((hc | hc) | hc) | hc) | hc) | hc <;> subst hc <;> exact absurd h (by decide)

/-- The sentinels differ in their first characters only. -/
theorem sentinel_of_isPrefix {x : Char} {line : Text}
    (h : ([x, '$', 'x', 'e', 'v'] : Text) <+: line.map Char.toLower) :
    ∃ c w, line = c :: w ++ line.drop 5 ∧ w.length = 4 ∧
      ∀ y ∈ w, y ≠ '!' ∧ isSpace y = false := by
  have hlen : 5 ≤ line.length := by
    have hle := h.length_le
    rw [List.length_map] at hle
    exact hle
  rcases line with _ | ⟨c, w⟩
  · exact absurd hlen (by decide)
  · refine ⟨c, w.take 4, ?_, ?_, fun y hy => visible_of_toLower ?_⟩
    · rw [List.drop_succ_cons, List.cons_append, List.take_append_drop]
    · rw [List.length_take]
      rw [List.length_cons] at hlen
      omega
    · rw [List.map_cons, List.cons_prefix_cons] at h
      have htake : (w.take 4).map Char.toLower = ['$', 'x', 'e', 'v'] := by
        rw [List.map_take, List.prefix_iff_eq_take.mp h.2]
        rfl
      rw [← htake]
      exact List.mem_map_of_mem hy

/-- The sentinel of a directive has five characters, of which only the first may be the mark of
    a comment. -/
theorem sentinel_of_directivePos {isFixed : Bool} {line : Text} {d : Nat}
    (h : directivePos isFixed line = some d) :
    ∃ c w, line.drop d = c :: w ++ line.drop (d + 5) ∧ w.length = 4 ∧
      ∀ y ∈ w, y ≠ '!' ∧ isSpace y = false := by
  cases isFixed with
  | true =>
      rw [directivePos, if_pos rfl] at h
      split at h
      · rename_i hpre
        rw [Option.some.injEq] at h
        rw [← h, List.drop_zero, Nat.zero_add]
        simp only [Bool.or_eq_true, List.isPrefixOf_iff_prefix] at hpre
        rcases hpre with (hpre | hpre) | hpre
        · exact sentinel_of_isPrefix hpre
        · exact sentinel_of_isPrefix hpre
        · exact sentinel_of_isPrefix hpre
      · exact nomatch h
  | false =>
      rcases Replace.find_eq_some h with ⟨post, hle, hsplit⟩
      have hpre : xevPragmaPrefix <+: (line.drop d).map Char.toLower := by
        rw [List.map_drop, hsplit, List.append_assoc, List.drop_append_of_le_length, List.drop_take,
          Nat.sub_self, List.take_zero, List.nil_append]
        · exact List.prefix_append _ _
        · rw [List.length_take]
          omega
      rcases sentinel_of_isPrefix hpre with ⟨c, w, hline, hrest⟩
      rw [List.drop_drop] at hline
      exact ⟨c, w, hline, hrest⟩

/-- The first line of a directive is cut as it is read. -/
theorem cut_first {isFixed : Bool} {line : Text} {d : Nat}
    (h : directivePos isFixed line = some d) :
    cut isFixed (line.drop d) =
      some (isFixed || (read isFixed (sentinel isFixed line)
        (behindSentinel isFixed line)).continued,
        (read isFixed (sentinel isFixed line) (behindSentinel isFixed line)).text,
        (read isFixed (sentinel isFixed line) (behindSentinel isFixed line)).comment) := by
  rcases sentinel_of_directivePos h with ⟨c, w, hline, hlen, hw⟩
  have hbehind : behindSentinel isFixed line = line.drop (d + 5) := by
    rw [behindSentinel, h, Option.getD_some]
  have hsent : sentinel isFixed line = c :: w := by
    rw [sentinel, h, Option.getD_some, hline]
    exact List.take_left' (by rw [List.length_cons, hlen])
  rw [hsent, hbehind, hline, List.cons_append]
  refine cut_read c (fun x hx => (hw x hx).1) fun _ => ?_
  -- The second character of a sentinel is visible.
  rw [seenBehind_ne_nil_iff]
  rcases w with _ | ⟨x, w⟩
  · exact absurd hlen (by decide)
  · refine ⟨x, ?_, (hw x List.mem_cons_self).2⟩
    rw [List.cons_append, List.takeWhile_cons_of_pos
      (by simpa using (hw x List.mem_cons_self).1)]
    exact List.mem_cons_self

/-- A line that continues another one has a text behind its mark. -/
theorem front_continuation {isFixed : Bool} {ppi : PreprocessingInfo}
    (h : isContinuation isFixed ppi = true) (hmark : isMarked isFixed ppi.string = true) :
    front isFixed true ppi.string = some (.text (behindMark isFixed ppi.string)) := by
  rw [isContinuation, isDirective, Bool.and_eq_true, Option.isSome_iff_exists] at h
  rcases h with ⟨⟨d, hd⟩, hhead⟩
  have hlen : 6 ≤ (ppi.string.drop d).length := by
    rw [behindSentinel, hd, Option.getD_some] at hhead
    by_contra hlt
    have hnil : ppi.string.drop (d + 5) = [] := by
      rw [List.drop_eq_nil_iff]
      rw [List.length_drop] at hlt
      omega
    rw [hnil] at hhead
    exact Bool.noConfusion hhead
  rw [front, hd]
  simp only [Bool.true_eq_false, if_false, hmark, if_true, substr, hlen]
  rw [behindMark, behindSentinel, hd, List.drop_drop, List.drop_drop]
  rfl

theorem front_of_not_directive {isFixed cont : Bool} {ppi : PreprocessingInfo}
    (h : isDirective isFixed ppi = false) : front isFixed cont ppi.string = some .stop := by
  rw [isDirective, Option.isSome_eq_false_iff, Option.isNone_iff_eq_none] at h
  rw [front, h]

/-- A line that does not end the search is a directive. -/
theorem isDirective_of_front {isFixed cont : Bool} {ppi : PreprocessingInfo} {f : Front}
    (h : front isFixed cont ppi.string = some f) (hf : f ≠ .stop) :
    isDirective isFixed ppi = true := by
  by_contra hdir
  rw [front_of_not_directive (Bool.not_eq_true _ ▸ hdir), Option.some.injEq] at h
  exact hf h.symm

/-- A line whose text continues another one is marked. -/
theorem isMarked_of_front {isFixed : Bool} {line ret : Text}
    (h : front isFixed true line = some (.text ret)) : isMarked isFixed line = true := by
  by_contra hmark
  rw [front] at h
  split at h
  · exact absurd h (by simp)
  · simp only [Bool.true_eq_false, if_false, hmark] at h
    cases isFixed <;> exact absurd h (by simp)

/-- In fixed form the search ends at a line without a mark. -/
theorem front_of_not_continuation {ppi : PreprocessingInfo}
    (h : isContinuation true ppi = false) : front true true ppi.string = some .stop := by
  rw [front]
  split
  · rfl
  · rename_i d hd
    have hzero : d = 0 := by
      rw [directivePos, if_pos rfl] at hd
      split at hd
      · exact (Option.some.inj hd).symm
      · exact nomatch hd
    have hmark : isMarked true ppi.string = false := by
      rw [isContinuation, isDirective, hd, Option.isSome_some, Bool.true_and, behindSentinel, hd,
        Option.getD_some, hzero, Nat.zero_add, List.head?_drop] at h
      exact h
    rw [hmark]
    rfl

end Sentinels

end XevXml.Preproc
