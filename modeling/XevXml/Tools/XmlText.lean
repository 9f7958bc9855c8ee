import XevXml.Tools.Cell
import XevXml.Tools.Langstr

/-!
# The XML Files of the Tools

The tools read and write XML with functions of their own. `fprint_xml` writes a
forest with nothing added, every text with the five references of XML.
`read_xml` goes through the characters of a file once. It collects names, texts
and values in one buffer, which is emptied whenever its content is copied, and it
stops when the buffer is full.

What is read back is the forest that was written, with the absent texts and values
now empty, and without the white space in elements that have no children: those
are written as one tag. `readBack` says so.

## Main definitions

* `fprint_xml`: The text of a forest.
* `Reader`: The rest of the file and the buffer.
* `loaduntil`: Fills the buffer up to one of some characters.
* `get_xml`: Reads one cell, with everything below it.
* `read_xml`: Reads a forest.
* `readBack`: A cell as it is read back.
* `Fits`: Forests whose names and texts fit the buffer.

## Theorems

* `loaduntil_append`: The buffer gets everything up to the next delimiter.
* `get_xml_fprint_xml`: What is written for one cell is read back.
* `read_xml_fprint_xml`: What is written for a forest is read back.
-/

namespace XevXml.Tools

section Write

/-- A text in a file. -/
def textX (s : Option Text) : Text := escaped (s.getD [])

/-- An attribute in a file. -/
def attrX (a : String × Option Text) : Text :=
  ' ' :: a.1.toList ++ '=' :: strG2X (a.2.getD []) '"'

mutual

/-- The text of a cell. -/
def Cell.fprint : Cell → Text
  | .mk type name attrs pretext posttext cs =>
      textX pretext ++
        match type with
        | .comm | .dec => '<' :: name.toList ++ ['>']
        | .node | .close =>
            (if type = .close then "CLOSING:".toList else []) ++ '<' :: name.toList ++
              attrs.flatMap attrX ++
              if cs ≠ [] ∨ all_spaces posttext = false then
                '>' :: fprint_xml cs ++ textX posttext ++ '<' :: '/' :: name.toList ++ ['>']
              else ['/', '>']

/-- The text of a forest. -/
def fprint_xml : List Cell → Text
  | [] => []
  | x :: xs => x.fprint ++ fprint_xml xs

end

end Write

section Read

/-- The size of the buffer. -/
def STRBUFSIZE : Nat := 1048576

/-- What is left of the file, whether its end has been met, and what the buffer
    holds. -/
structure Reader where
  rest : Text
  eof : Bool
  strbuf : Text

/-- The reader with an empty buffer. -/
def Reader.cleared (r : Reader) : Reader := { r with strbuf := [] }

/-- Fills the buffer up to one of the characters `s`, which is read as well. The
    mark of the end of the file gets into the buffer. Nothing may stand behind a full
    buffer, not even the character that ends a string. -/
def loadFrom (s : List Char) : Text → Text → Run (Option Char × Reader)
  | [], strbuf =>
      if STRBUFSIZE ≤ strbuf.length then
        .error (.exit ("too long xml data: " ++ String.ofList (strbuf.take 100)))
      else .ok (none, ⟨[], true, strbuf ++ ['\xff']⟩)
  | c :: rest, strbuf =>
      if c ∈ s then
        if STRBUFSIZE ≤ strbuf.length then .error .undefined
        else .ok (some c, ⟨rest, false, strbuf⟩)
      else if STRBUFSIZE ≤ strbuf.length then
        .error (.exit ("too long xml data: " ++ String.ofList (strbuf.take 100)))
      else loadFrom s rest (strbuf ++ [c])

/-- Reads up to one of the characters `s`, unless the file has ended. -/
def loaduntil (s : List Char) (r : Reader) : Run (Option Char × Reader) :=
  if r.eof then .ok (none, r) else loadFrom s r.rest r.strbuf

/-- The text in the buffer, without its references. A quote becomes a reference
    first, since the text is read as a string. -/
def copybufxml (strbuf : Text) : Run Text :=
  let t := '"' :: strbuf.flatMap (fun c => if c = '"' then "&quot;".toList else [c]) ++ ['"']
  match strX2G t with
  | some s => .ok s
  | none => .error .assertion

/-- Reads a value up to its closing quote. -/
def loadValue (inichar : Char) : Text → Text → Run (Text × Text)
  | [], _ => .error (.exit "error at reading attribute text (end of file)")
  | c :: rest, strbuf =>
      if c = inichar then
        if STRBUFSIZE ≤ strbuf.length then .error .undefined else .ok (strbuf, rest)
      else if STRBUFSIZE ≤ strbuf.length then .error .assertion
      else loadValue inichar rest (strbuf ++ [c])

/-- Reads the value of an attribute. -/
def loadxmlstring (r : Reader) : Run (Text × Reader) :=
  match r.rest.dropWhile (· == ' ') with
  | [] => .error (.exit "error at reading attribute text (start with \xff)")
  | c :: rest =>
      if c ≠ '"' ∧ c ≠ '\'' then
        .error (.exit ("error at reading attribute text (start with " ++ String.ofList [c] ++ ")"))
      else do
        let (strbuf, rest) ← loadValue c rest []
        let value ← copybufxml strbuf
        .ok (value, ⟨rest, false, []⟩)

/-- Reads the attributes of a tag, up to the character that ends them. -/
def loadAttrs : Nat → Reader → List (String × Option Text) →
    Run (Char × List (String × Option Text) × Reader)
  | 0, _, _ => .error .bound
  | fuel + 1, r, attrs => do
      let (c, r) ← loaduntil [' ', '=', '/', '>'] r
      match c with
      | none => .error (.exit "error within attribute")
      | some c =>
          if c = '=' then do
            let (value, r') ← loadxmlstring r
            loadAttrs fuel r' (attrs ++ [(String.ofList r.strbuf, some value)])
          else if c = '/' ∨ c = '>' then .ok (c, attrs, r)
          else loadAttrs fuel r attrs

/-- Reads a comment up to the character `>` that ends it. The two dashes are
    looked for one character too early. -/
def loadComment : Nat → Reader → Run Reader
  | 0, _ => .error .bound
  | fuel + 1, r => do
      let (c, r) ← loaduntil ['>'] r
      if c = none then
        .error (.exit ("error at XML comment: " ++ String.ofList (r.strbuf.take 20)))
      else if 3 ≤ r.strbuf.length ∧ (r.strbuf.reverse.drop 1).take 2 = ['-', '-'] then .ok r
      else loadComment fuel r

mutual

/-- Reads a cell, starting with the text in front of it. -/
def get_xml : Nat → Reader → Run (Option Cell × Reader)
  | 0, _ => .error .bound
  | fuel + 1, r => do
      let (c, r) ← loaduntil ['<'] r
      if c = none then .ok (none, r)
      else
        let pretext ← copybufxml r.strbuf
        let (c, r) ← loaduntil [' ', '/', '>'] r.cleared
        if c = some '/' ∧ r.strbuf = [] then
          -- a closing tag
          let (_, r) ← loaduntil ['>'] r
          .ok (some (.mk .close (String.ofList r.strbuf) [] (some pretext) none []), r.cleared)
        else
          match c with
          | none => .error (.exit "unstructured XML")
          | some c =>
              if r.strbuf.head? = some '?' then
                if STRBUFSIZE ≤ r.strbuf.length then .error .assertion
                else
                  let (c, r) ← loaduntil ['>'] { r with strbuf := r.strbuf ++ [c] }
                  if c = none then
                    .error (.exit ("error at XML dec: " ++ String.ofList (r.strbuf.take 20)))
                  else
                    .ok (some (.mk .dec (String.ofList r.strbuf) [] (some pretext) none []),
                      r.cleared)
              else if r.strbuf = ['!', '-', '-'] then
                let r ← loadComment fuel r
                .ok (some (.mk .comm (String.ofList r.strbuf) [] (some pretext) none []), r.cleared)
              else
                let name := String.ofList r.strbuf
                if c = '/' then
                  let (_, r) ← loaduntil ['>'] r.cleared
                  .ok (some (.mk .node name [] (some pretext) none []), r)
                else
                  let (c, attrs, r) ←
                    if c = ' ' then loadAttrs fuel r.cleared [] else .ok ('>', [], r.cleared)
                  if c = '/' then
                    let (_, r) ← loaduntil ['>'] r
                    .ok (some (.mk .node name attrs (some pretext) none []), r)
                  else
                    let (cs, posttext, r) ← get_children fuel r
                    .ok (some (.mk .node name attrs (some pretext) posttext cs), r)

/-- Reads the children of a cell, with the text behind them. -/
def get_children : Nat → Reader → Run (List Cell × Option Text × Reader)
  | 0, _ => .error .bound
  | fuel + 1, r => do
      let (y, r) ← get_xml fuel r
      match y with
      | none => .ok ([], none, r)
      | some y =>
          if y.type = .close then .ok ([], y.pretext, r)
          else
            let (ys, posttext, r) ← get_children fuel r
            .ok (y :: ys, posttext, r)

end

/-- Reads cells until the end of the file. -/
def get_forest : Nat → Reader → Run (List Cell)
  | 0, _ => .error .bound
  | fuel + 1, r =>
      if r.eof then .ok []
      else do
        let (y, r) ← get_xml fuel r
        match y with
        | none => .ok []
        | some y => do
            let ys ← get_forest fuel r
            .ok (y :: ys)

/-- The forest in a file. Every cell has a character of its own, which bounds the
    steps. -/
def read_xml (f : Text) : Run (List Cell) := get_forest (2 * f.length + 2) ⟨f, false, []⟩

end Read

section Buffer

theorem loadFrom_append (s : List Char) (t rest strbuf : Text) (c : Char) (hc : c ∈ s)
    (ht : ∀ d ∈ t, d ∉ s) (hlen : (strbuf ++ t).length < STRBUFSIZE) :
    loadFrom s (t ++ c :: rest) strbuf = .ok (some c, ⟨rest, false, strbuf ++ t⟩) := by
  induction t generalizing strbuf with
  | nil =>
      rw [List.append_nil] at hlen ⊢
      rw [List.nil_append, loadFrom, if_pos hc, if_neg (Nat.not_le.mpr hlen)]
  | cons d t ih =>
      rw [List.forall_mem_cons] at ht
      have hsplit : strbuf ++ d :: t = (strbuf ++ [d]) ++ t := by
        rw [List.append_assoc, List.singleton_append]
      have hshort : ¬ STRBUFSIZE ≤ strbuf.length := by
        rw [List.length_append] at hlen
        omega
      rw [List.cons_append, loadFrom, if_neg ht.1, if_neg hshort, hsplit]
      exact ih (strbuf ++ [d]) ht.2 (hsplit ▸ hlen)

/-- The buffer gets everything up to the next delimiter. -/
theorem loaduntil_append (s : List Char) (t rest : Text) (c : Char) (hc : c ∈ s)
    (ht : ∀ d ∈ t, d ∉ s) (hlen : t.length < STRBUFSIZE) :
    loaduntil s ⟨t ++ c :: rest, false, []⟩ = .ok (some c, ⟨rest, false, t⟩) :=
  loadFrom_append s t rest [] c hc ht hlen

theorem loaduntil_here (s : List Char) (rest : Text) (c : Char) (hc : c ∈ s) :
    loaduntil s ⟨c :: rest, false, []⟩ = .ok (some c, ⟨rest, false, []⟩) :=
  loaduntil_append s [] rest c hc (fun d hd => absurd hd List.not_mem_nil) (by decide)

theorem loadValue_append (q : Char) (t rest strbuf : Text) (ht : q ∉ t)
    (hlen : (strbuf ++ t).length < STRBUFSIZE) :
    loadValue q (t ++ q :: rest) strbuf = .ok (strbuf ++ t, rest) := by
  induction t generalizing strbuf with
  | nil =>
      rw [List.append_nil] at hlen ⊢
      rw [List.nil_append, loadValue, if_pos rfl, if_neg (Nat.not_le.mpr hlen)]
  | cons d t ih =>
      rw [List.mem_cons, not_or] at ht
      have hsplit : strbuf ++ d :: t = (strbuf ++ [d]) ++ t := by
        rw [List.append_assoc, List.singleton_append]
      have hshort : ¬ STRBUFSIZE ≤ strbuf.length := by
        rw [List.length_append] at hlen
        omega
      rw [List.cons_append, loadValue, if_neg (fun h => ht.1 h.symm), if_neg hshort, hsplit]
      exact ih (strbuf ++ [d]) ht.2 (hsplit ▸ hlen)

/-- A text that was written is copied as it was. -/
theorem copybufxml_escaped (s : Text) : copybufxml (escaped s) = .ok s := by
  have hq : (escaped s).flatMap (fun c => if c = '"' then "&quot;".toList else [c]) = escaped
    s := by
    have h : ∀ c ∈ escaped s, (fun c => if c = '"' then "&quot;".toList else [c]) c = [c] := by
      intro c hc
      exact if_neg (not_markup_of_mem_escaped hc).2.2
    rw [List.flatMap_congr h, List.flatMap_singleton']
  unfold copybufxml
  dsimp only
  rw [hq]
  have hs := strX2G_strG2X s
  rw [strG2X] at hs
  rw [hs]

theorem loadxmlstring_strG2X (s rest : Text) (strbuf : Text)
    (hlen : (escaped s).length < STRBUFSIZE) :
    loadxmlstring ⟨strG2X s '"' ++ rest, false, strbuf⟩ = .ok (s, ⟨rest, false, []⟩) := by
  have hs : strG2X s '"' ++ rest = '"' :: (escaped s ++ '"' :: rest) := by
    rw [strG2X, List.cons_append, List.cons_append, List.append_assoc, List.singleton_append]
  have hvalue := loadValue_append '"' (escaped s) rest []
    (fun h => (not_markup_of_mem_escaped h).2.2 rfl) hlen
  rw [List.nil_append] at hvalue
  unfold loadxmlstring
  dsimp only
  rw [hs, List.dropWhile_cons_of_neg (by decide)]
  simp only [ne_eq, not_true_eq_false, false_and, if_false, hvalue, bind, Except.bind,
    copybufxml_escaped]

end Buffer

section Names

/-- The names that end neither a tag nor themselves. -/
def WellFormedName (name : String) : Prop :=
  name.toList ≠ [] ∧ (∀ c ∈ name.toList, c ∉ [' ', '=', '/', '>']) ∧
    name.toList.head? ∉ [some '!', some '?']

/-- An element whose names are well formed. -/
def WellFormedElement (x : Cell) : Prop :=
  x.type = .node ∧ WellFormedName x.name ∧ ∀ a ∈ x.attrs, WellFormedName a.1

/-- A cell that is written as one tag. -/
def OneTag (x : Cell) : Prop := x.children = [] ∧ all_spaces x.posttext = true

/-- Every name and every text of a cell that is written fits the buffer. -/
def Fits (x : Cell) : Prop :=
  x.name.toList.length < STRBUFSIZE ∧ (textX x.pretext).length < STRBUFSIZE ∧
    (OneTag x ∨ (textX x.posttext).length < STRBUFSIZE) ∧
    ∀ a ∈ x.attrs, a.1.toList.length < STRBUFSIZE ∧ (textX a.2).length < STRBUFSIZE

end Names

section Back

/-- An attribute as it is read back. -/
def attrBack (a : String × Option Text) : String × Option Text := (a.1, some (a.2.getD []))

mutual

/-- A cell as it is read back. Absent texts and values are empty, and an element
    without children loses the white space in it. -/
def Cell.readBack : Cell → Cell
  | .mk _ name attrs pretext posttext cs =>
      .mk .node name (attrs.map attrBack) (some (pretext.getD []))
        (if cs = [] ∧ all_spaces posttext = true then none else some (posttext.getD []))
        (readBackAll cs)

/-- A forest as it is read back. -/
def readBackAll : List Cell → List Cell
  | [] => []
  | x :: xs => x.readBack :: readBackAll xs

end

end Back

section Tag

theorem loadAttrs_step (fuel : Nat) (a : String × Option Text) (acc : List (String × Option Text))
    (rest : Text) (hname : WellFormedName a.1) (hlen : a.1.toList.length < STRBUFSIZE)
    (hvalue : (textX a.2).length < STRBUFSIZE) :
    loadAttrs (fuel + 1) ⟨a.1.toList ++ '=' :: strG2X (a.2.getD []) '"' ++ rest, false, []⟩ acc =
      loadAttrs fuel ⟨rest, false, []⟩ (acc ++ [attrBack a]) := by
  rw [loadAttrs, List.append_assoc, List.cons_append,
    loaduntil_append _ a.1.toList _ '=' (by decide) (fun d hd => hname.2.1 d hd) hlen]
  simp only [bind, Except.bind, if_true, loadxmlstring_strG2X _ rest _ hvalue, String.ofList_toList]
  rfl

/-- The attributes that were written are read up to the end of the tag. -/
theorem loadAttrs_attrX (fuel : Nat) (attrs acc : List (String × Option Text)) (e : Char)
    (rest : Text) (he : e = '/' ∨ e = '>') (hname : ∀ a ∈ attrs, WellFormedName a.1)
    (hlen : ∀ a ∈ attrs, a.1.toList.length < STRBUFSIZE ∧ (textX a.2).length < STRBUFSIZE)
    (hfuel : 2 * attrs.length + 1 ≤ fuel) :
    loadAttrs fuel ⟨attrs.flatMap attrX ++ e :: rest, false, []⟩ acc =
      .ok (e, acc ++ attrs.map attrBack, ⟨rest, false, []⟩) := by
  induction attrs generalizing acc fuel with
  | nil =>
      rcases Nat.exists_eq_add_of_lt hfuel with ⟨k, rfl⟩
      have hmem : e ∈ [' ', '=', '/', '>'] := by rcases he with rfl | rfl <;> decide
      have hne : e ≠ '=' := by rcases he with rfl | rfl <;> decide
      rw [loadAttrs, List.flatMap_nil, List.nil_append, loaduntil_here _ rest e hmem]
      simp only [bind, Except.bind, if_neg hne, if_pos he, List.map_nil, List.append_nil]
  | cons a attrs ih =>
      rw [List.forall_mem_cons] at hname hlen
      rw [List.length_cons] at hfuel
      rcases Nat.exists_eq_add_of_le hfuel with ⟨k, rfl⟩
      have hk : 2 * (attrs.length + 1) + 1 + k = 2 * attrs.length + 1 + k + 1 + 1 := by omega
      have htext : (a :: attrs).flatMap attrX ++ e :: rest =
          ' ' :: (a.1.toList ++ '=' :: strG2X (a.2.getD []) '"' ++
            (attrs.flatMap attrX ++ e :: rest)) := by
        simp only [List.flatMap_cons, attrX, List.append_assoc, List.cons_append]
      -- The blank before the name is a step of its own.
      rw [hk, loadAttrs, htext, loaduntil_here _ _ ' ' (by decide)]
      simp only [bind, Except.bind]
      rw [if_neg (by decide), if_neg (by decide),
        loadAttrs_step _ a acc _ hname.1 hlen.1.1 hlen.1.2,
        ih _ _ hname.2 hlen.2 (by omega), List.map_cons, List.append_assoc, List.singleton_append]

/-- What follows a tag: nothing for one that ends with a slash, and the children
    otherwise. -/
def afterTag (fuel : Nat) (name : String) (attrs : List (String × Option Text)) (pretext : Text)
    (e : Char) (r : Reader) : Run (Option Cell × Reader) :=
  if e = '/' then do
    let (_, r) ← loaduntil ['>'] r
    .ok (some (.mk .node name attrs (some pretext) none []), r)
  else do
    let (cs, posttext, r) ← get_children fuel r
    .ok (some (.mk .node name attrs (some pretext) posttext cs), r)

theorem get_xml_tag (fuel : Nat) (name : String) (attrs : List (String × Option Text))
    (pretext : Option Text) (e : Char) (rest : Text) (he : e = '/' ∨ e = '>')
    (hname : WellFormedName name) (hattrs : ∀ a ∈ attrs, WellFormedName a.1)
    (hpre : (textX pretext).length < STRBUFSIZE) (hlen : name.toList.length < STRBUFSIZE)
    (halen : ∀ a ∈ attrs, a.1.toList.length < STRBUFSIZE ∧ (textX a.2).length < STRBUFSIZE)
    (hfuel : 2 * attrs.length + 1 ≤ fuel) :
    get_xml (fuel + 1)
        ⟨textX pretext ++ '<' :: (name.toList ++ (attrs.flatMap attrX ++ e :: rest)), false, []⟩ =
      afterTag fuel name (attrs.map attrBack) (pretext.getD []) e ⟨rest, false, []⟩ := by
  have hpreText : ∀ d ∈ textX pretext, d ∉ ['<'] := by
    intro d hd
    rw [List.mem_singleton]
    exact (not_markup_of_mem_escaped hd).1
  have hchars : ∀ d ∈ name.toList, d ∉ [' ', '/', '>'] := by
    intro d hd hmem
    have := hname.2.1 d hd
    simp only [List.mem_cons, List.not_mem_nil, or_false, not_or] at this hmem
    rcases hmem with h | h | h
    · exact this.1 h
    · exact this.2.2.1 h
    · exact this.2.2.2 h
  have hdash : name.toList ≠ ['!', '-', '-'] := by
    intro h
    exact hname.2.2 (by rw [h]; exact List.mem_cons_self)
  have hmark : name.toList.head? ≠ some '?' := by
    intro h
    exact hname.2.2 (by rw [h]; exact List.mem_cons_of_mem _ List.mem_cons_self)
  have hcopy : copybufxml (textX pretext) = .ok (pretext.getD []) := copybufxml_escaped _
  rw [get_xml, loaduntil_append _ (textX pretext) _ '<' (by decide) hpreText hpre]
  simp only [bind, Except.bind, reduceCtorEq, if_false, hcopy, Reader.cleared]
  -- Without attributes the name ends at the end of the tag, else at a space.
  cases attrs with
  | nil =>
      have hmem : e ∈ [' ', '/', '>'] := by rcases he with rfl | rfl <;> decide
      rw [List.flatMap_nil, List.nil_append, loaduntil_append _ name.toList _ e hmem hchars hlen]
      rcases he with rfl | rfl
      · simp only [hname.1, and_false, if_false, hmark, hdash, if_true, String.ofList_toList,
          afterTag, List.map_nil]
        rfl
      · simp only [hname.1, and_false, if_false, hmark, hdash, String.ofList_toList, afterTag,
          List.map_nil]
        rfl
  | cons a attrs =>
      rw [List.forall_mem_cons] at hattrs halen
      rw [List.length_cons] at hfuel
      rcases Nat.exists_eq_add_of_le' (by omega : 1 ≤ fuel) with ⟨k, rfl⟩
      have htext : (a :: attrs).flatMap attrX ++ e :: rest =
          ' ' :: (a.1.toList ++ '=' :: strG2X (a.2.getD []) '"' ++
            (attrs.flatMap attrX ++ e :: rest)) := by
        simp only [List.flatMap_cons, attrX, List.append_assoc, List.cons_append]
      have hread := loadAttrs_step k a [] (attrs.flatMap attrX ++ e :: rest) hattrs.1 halen.1.1
        halen.1.2
      rw [loadAttrs_attrX k attrs _ e rest he hattrs.2 halen.2 (by omega)] at hread
      rw [htext, loaduntil_append _ name.toList _ ' ' (by decide) hchars hlen]
      simp only [hname.1, and_false, if_false, hmark, hdash, String.ofList_toList, if_true, hread,
        (by decide : ¬ ' ' = '/'), List.nil_append, List.singleton_append]
      rcases he with rfl | rfl
      · rfl
      · rfl

/-- A closing tag is a cell with the text in front of it. -/
theorem get_xml_close (fuel : Nat) (name : String) (posttext : Option Text) (rest : Text)
    (hname : WellFormedName name) (hpost : (textX posttext).length < STRBUFSIZE)
    (hlen : name.toList.length < STRBUFSIZE) :
    get_xml (fuel + 1) ⟨textX posttext ++ '<' :: '/' :: (name.toList ++ '>' :: rest), false, []⟩ =
      .ok (some (.mk .close name [] (some (posttext.getD [])) none []), ⟨rest, false, []⟩) := by
  have hpostText : ∀ d ∈ textX posttext, d ∉ ['<'] := by
    intro d hd
    rw [List.mem_singleton]
    exact (not_markup_of_mem_escaped hd).1
  have hchars : ∀ d ∈ name.toList, d ∉ ['>'] := by
    intro d hd hmem
    rw [List.mem_singleton] at hmem
    exact hname.2.1 d hd (by rw [hmem]; decide)
  have hcopy : copybufxml (textX posttext) = .ok (posttext.getD []) := copybufxml_escaped _
  rw [get_xml, loaduntil_append _ (textX posttext) _ '<' (by decide) hpostText hpost]
  simp only [bind, Except.bind, reduceCtorEq, if_false, hcopy, Reader.cleared]
  rw [loaduntil_here _ _ '/' (by decide)]
  simp only [and_self, if_true]
  rw [loaduntil_append _ name.toList _ '>' (by decide) hchars hlen]
  simp only [String.ofList_toList]

end Tag

section Steps

mutual

/-- The steps that reading a cell takes. -/
def Cell.steps : Cell → Nat
  | .mk _ _ attrs _ _ cs => 2 * attrs.length + 2 + stepsAll cs

/-- The steps that reading the children of a cell takes. -/
def stepsAll : List Cell → Nat
  | [] => 2
  | x :: xs => x.steps + 1 + stepsAll xs

end

/-- The text of an element, up to the character that ends its tag. -/
theorem fprint_node (name : String) (attrs : List (String × Option Text))
    (pretext posttext : Option Text) (cs : List Cell) :
    (Cell.mk .node name attrs pretext posttext cs).fprint =
      textX pretext ++ '<' :: (name.toList ++ (attrs.flatMap attrX ++
        if cs = [] ∧ all_spaces posttext = true then ['/', '>']
        else '>' :: (fprint_xml cs ++
          (textX posttext ++ '<' :: '/' :: (name.toList ++ ['>']))))) := by
  rw [Cell.fprint]
  by_cases h : cs = [] ∧ all_spaces posttext = true
  · have hn : ¬ (cs ≠ [] ∨ all_spaces posttext = false) := by
      intro hor
      rcases hor with hc | hs
      · exact hc h.1
      · rw [h.2] at hs
        cases hs
    simp only [if_pos h, if_neg hn, reduceCtorEq, if_false, List.nil_append, List.append_assoc,
      List.cons_append]
  · have hp : cs ≠ [] ∨ all_spaces posttext = false := by
      by_cases hc : cs = []
      · right
        cases hs : all_spaces posttext with
        | false => rfl
        | true => exact absurd ⟨hc, hs⟩ h
      · exact Or.inl hc
    simp only [if_neg h, if_pos hp, reduceCtorEq, if_false, List.nil_append, List.append_assoc,
      List.cons_append]

theorem length_flatMap_attrX (attrs : List (String × Option Text)) :
    attrs.length ≤ (attrs.flatMap attrX).length := by
  induction attrs with
  | nil => exact Nat.le_refl 0
  | cons a attrs ih =>
      simp only [List.flatMap_cons, List.length_append, List.length_cons, attrX]
      omega

/-- Every element has characters of its own in the file. -/
theorem steps_le_length :
    (∀ x : Cell, (∀ y ∈ x.cells, WellFormedElement y) → x.steps + 1 ≤ 2 * x.fprint.length) ∧
    ∀ xs : List Cell, (∀ y ∈ cellsAll xs, WellFormedElement y) →
      stepsAll xs ≤ 2 * (fprint_xml xs).length + 2 := by
  apply Cell.induct
  case hmk =>
    intro type name attrs pretext posttext cs ih h
    simp only [mem_cells_iff, forall_eq_or_imp, Cell.children] at h
    have htype : type = .node := h.1.1
    have hcs := ih h.2
    have hattrs := length_flatMap_attrX attrs
    have hname : 0 < name.toList.length := List.length_pos_of_ne_nil h.1.2.1.1
    rw [htype, fprint_node, Cell.steps]
    by_cases hone : cs = [] ∧ all_spaces posttext = true
    · simp only [if_pos hone, List.length_append, List.length_cons, List.length_nil]
      rw [hone.1, stepsAll]
      omega
    · simp only [if_neg hone, List.length_append, List.length_cons, List.length_nil]
      omega
  case hnil =>
    intro _
    exact Nat.le_refl 2
  case hcons =>
    intro x xs ihx ihxs h
    simp only [cellsAll, List.mem_append, or_imp, forall_and] at h
    have h1 := ihx h.1
    have h2 := ihxs h.2
    rw [stepsAll, fprint_xml, List.length_append]
    omega

end Steps

section RoundTrip

/-- The text of an element is read as one tag, or as a tag with what stands up to the tag
    that closes it. -/
theorem get_xml_node {name : String} {attrs : List (String × Option Text)}
    {pretext posttext : Option Text} {cs : List Cell}
    (h : WellFormedElement (.mk .node name attrs pretext posttext cs))
    (hfits : Fits (.mk .node name attrs pretext posttext cs)) {fuel : Nat}
    (hfuel : 2 * attrs.length + 1 ≤ fuel) (rest : Text) :
    get_xml (fuel + 1) ⟨(Cell.mk .node name attrs pretext posttext cs).fprint ++ rest, false, []⟩ =
      if cs = [] ∧ all_spaces posttext = true then
        .ok (some (.mk .node name (attrs.map attrBack) (some (pretext.getD [])) none []),
          ⟨rest, false, []⟩)
      else
        get_children fuel ⟨fprint_xml cs ++
            (textX posttext ++ '<' :: '/' :: (name.toList ++ '>' :: rest)), false, []⟩ >>=
          fun p => .ok (some (.mk .node name (attrs.map attrBack) (some (pretext.getD []))
            p.2.1 p.1),
            p.2.2) := by
  rcases h with ⟨_, hname, hattrs⟩
  rcases hfits with ⟨hlen, hpre, _, halen⟩
  rw [fprint_node]
  by_cases hone : cs = [] ∧ all_spaces posttext = true
  · have htag := get_xml_tag fuel name attrs pretext '/' ('>' :: rest) (Or.inl rfl) hname
      hattrs hpre
      hlen halen hfuel
    simp only [if_pos hone, List.append_assoc, List.cons_append, List.nil_append]
    rw [htag, afterTag, if_pos rfl, loaduntil_here _ _ '>' (by decide)]
    rfl
  · have htag := get_xml_tag fuel name attrs pretext '>' (fprint_xml cs ++
      (textX posttext ++ '<' :: '/' :: (name.toList ++ '>' :: rest))) (Or.inr rfl) hname hattrs
      hpre hlen halen hfuel
    simp only [if_neg hone, List.append_assoc, List.cons_append, List.nil_append]
    rw [htag, afterTag, if_neg (by decide)]

/-- What is written for one cell is read back, and so are children up to the tag
    that closes their parent. -/
theorem get_xml_fprint_xml :
    (∀ x : Cell, (∀ y ∈ x.cells, WellFormedElement y ∧ Fits y) → ∀ fuel rest, x.steps ≤ fuel →
      get_xml fuel ⟨x.fprint ++ rest, false, []⟩ = .ok (some x.readBack, ⟨rest, false, []⟩)) ∧
    ∀ xs : List Cell, (∀ y ∈ cellsAll xs, WellFormedElement y ∧ Fits y) →
      ∀ (fuel : Nat) (name : String) (posttext : Option Text) (rest : Text),
        WellFormedName name → name.toList.length < STRBUFSIZE →
        (textX posttext).length < STRBUFSIZE → stepsAll xs ≤ fuel →
        get_children fuel ⟨fprint_xml xs ++
            (textX posttext ++ '<' :: '/' :: (name.toList ++ '>' :: rest)), false, []⟩ =
          .ok (readBackAll xs, some (posttext.getD []), ⟨rest, false, []⟩) := by
  -- The steps of a cell are enough fuel for it and for the loop over its children.
  apply Cell.induct
  case hmk =>
    intro type name attrs pretext posttext cs ih h fuel rest hfuel
    simp only [mem_cells_iff, forall_eq_or_imp, Cell.children] at h
    rcases h with ⟨⟨hwf, hfits⟩, hcs⟩
    have htype : type = .node := hwf.1
    subst htype
    rw [Cell.steps] at hfuel
    rcases Nat.exists_eq_add_of_le' (by omega : 1 ≤ fuel) with ⟨k, rfl⟩
    rw [get_xml_node hwf hfits (by omega), Cell.readBack]
    by_cases hone : cs = [] ∧ all_spaces posttext = true
    · rw [if_pos hone, if_pos hone, hone.1]
      rfl
    · have hbody := ih hcs k name posttext rest hwf.2.1 hfits.1 (hfits.2.2.1.resolve_left hone)
        (by omega)
      rw [if_neg hone, if_neg hone, hbody]
      rfl
  case hnil =>
    intro _ fuel name posttext rest hname hlen hpost hfuel
    rw [stepsAll] at hfuel
    rcases Nat.exists_eq_add_of_le' hfuel with ⟨k, rfl⟩
    rw [fprint_xml, List.nil_append, get_children, get_xml_close k name posttext rest hname
      hpost hlen]
    rfl
  case hcons =>
    intro x xs ihx ihxs h fuel name posttext rest hname hlen hpost hfuel
    simp only [cellsAll, List.mem_append, or_imp, forall_and] at h
    rw [stepsAll] at hfuel
    rcases Nat.exists_eq_add_of_le' (by omega : 1 ≤ fuel) with ⟨k, rfl⟩
    have hx := ihx (fun y hy => ⟨h.1.1 y hy, h.2.1 y hy⟩) k (fprint_xml xs ++
      (textX posttext ++ '<' :: '/' :: (name.toList ++ '>' :: rest))) (by omega)
    have hxs := ihxs (fun y hy => ⟨h.1.2 y hy, h.2.2 y hy⟩) k name posttext rest hname hlen hpost
      (by omega)
    have hnode : x.readBack.type = .node := by
      cases x with
      | mk type name attrs pretext posttext cs => rw [Cell.readBack]; rfl
    rw [fprint_xml, List.append_assoc, get_children, hx]
    simp only [bind, Except.bind, hnode, reduceCtorEq, if_false, hxs]
    rw [readBackAll]

theorem get_forest_fprint_xml (xs : List Cell)
    (h : ∀ y ∈ cellsAll xs, WellFormedElement y ∧ Fits y) (fuel : Nat)
      (hfuel : stepsAll xs ≤ fuel) :
    get_forest fuel ⟨fprint_xml xs, false, []⟩ = .ok (readBackAll xs) := by
  induction xs generalizing fuel with
  | nil =>
      rw [stepsAll] at hfuel
      rcases Nat.exists_eq_add_of_le' hfuel with ⟨k, rfl⟩
      rfl
  | cons x xs ih =>
      simp only [cellsAll, List.mem_append, or_imp, forall_and] at h
      rw [stepsAll] at hfuel
      rcases Nat.exists_eq_add_of_le' (by omega : 1 ≤ fuel) with ⟨k, rfl⟩
      have hx := get_xml_fprint_xml.1 x (fun y hy => ⟨h.1.1 y hy, h.2.1 y hy⟩) k (fprint_xml xs)
        (by omega)
      have hxs := ih (fun y hy => ⟨h.1.2 y hy, h.2.2 y hy⟩) k (by omega)
      rw [fprint_xml, get_forest]
      simp only [Bool.false_eq_true, if_false, bind, Except.bind, hx, hxs]
      rw [readBackAll]

/-- What is written for a forest is read back when its names and texts fit the
    buffer. -/
theorem read_xml_fprint_xml (xs : List Cell) (h : ∀ x ∈ cellsAll xs, WellFormedElement x)
    (hfits : ∀ x ∈ cellsAll xs, Fits x) : read_xml (fprint_xml xs) = .ok (readBackAll xs) :=
  get_forest_fprint_xml xs (fun y hy => ⟨h y hy, hfits y hy⟩) _ (steps_le_length.2 xs h)

/-- An element with a quoted value and a text in it. -/
theorem read_xml_element :
    read_xml (fprint_xml [.mk .node "a" [("b", some ['"'])] none (some ['<']) []]) =
      .ok [.mk .node "a" [("b", some ['"'])] (some []) (some ['<']) []] := by
  refine read_xml_fprint_xml _ ?_ ?_
  · intro x hx
    simp only [cellsAll, Cell.cells, List.append_nil, List.mem_singleton] at hx
    rw [hx]
    refine ⟨rfl, ⟨by decide, by decide, by decide⟩, ?_⟩
    intro a ha
    rw [List.mem_singleton.mp ha]
    exact ⟨by decide, by decide, by decide⟩
  · intro x hx
    simp only [cellsAll, Cell.cells, List.append_nil, List.mem_singleton] at hx
    rw [hx]
    refine ⟨by decide, by decide, Or.inr (by decide), ?_⟩
    intro a ha
    rw [List.mem_singleton.mp ha]
    exact ⟨by decide, by decide⟩

end RoundTrip

section TooLong

theorem loadFrom_too_long (s : List Char) (t rest strbuf : Text) (ht : ∀ d ∈ t, d ∉ s)
    (hlen : STRBUFSIZE < (strbuf ++ t).length) (hbuf : strbuf.length ≤ STRBUFSIZE) :
    ∃ message, loadFrom s (t ++ rest) strbuf = .error (.exit message) := by
  induction t generalizing strbuf with
  | nil =>
      rw [List.append_nil] at hlen
      omega
  | cons d t ih =>
      rw [List.forall_mem_cons] at ht
      rw [List.cons_append, loadFrom, if_neg ht.1]
      by_cases hfull : STRBUFSIZE ≤ strbuf.length
      · rw [if_pos hfull]
        exact ⟨_, rfl⟩
      · rw [if_neg hfull]
        refine ih (strbuf ++ [d]) ht.2 ?_ ?_
        · rw [List.append_assoc, List.singleton_append]
          exact hlen
        · rw [List.length_append, List.length_singleton]
          omega

/-- A forest whose first text does not fit the buffer is not read back. -/
theorem read_xml_too_long (name : String) (attrs : List (String × Option Text))
    (pretext posttext : Option Text) (cs xs : List Cell)
    (h : STRBUFSIZE < (textX pretext).length) :
    ∃ message, read_xml (fprint_xml (.mk .node name attrs pretext posttext cs :: xs)) =
      .error (.exit message) := by
  have hpreText : ∀ d ∈ textX pretext, d ∉ ['<'] := by
    intro d hd
    rw [List.mem_singleton]
    exact (not_markup_of_mem_escaped hd).1
  rw [fprint_xml, fprint_node, List.append_assoc]
  generalize hrest : _ ++ fprint_xml xs = rest
  rcases loadFrom_too_long ['<'] (textX pretext) rest [] hpreText h (by decide) with ⟨message, hm⟩
  refine ⟨message, ?_⟩
  rw [read_xml, get_forest, get_xml]
  simp only [Bool.false_eq_true, if_false, loaduntil, hm, bind, Except.bind]

/-- One element with a text that is one character longer than the buffer. -/
def longText : Cell :=
  .mk .node "a" [] (some (List.replicate (STRBUFSIZE + 1) 'a')) none []

/-- The element with the long text is written and not read back. -/
theorem longText_not_read :
    (∀ x ∈ cellsAll [longText], WellFormedElement x) ∧
      read_xml (fprint_xml [longText]) ≠ .ok (readBackAll [longText]) := by
  constructor
  · intro x hx
    simp only [longText, cellsAll, Cell.cells, List.append_nil, List.mem_singleton] at hx
    rw [hx]
    exact ⟨rfl, ⟨by decide, by decide, by decide⟩, fun a ha => absurd ha List.not_mem_nil⟩
  · have hlen : ∀ n, (escaped (List.replicate n 'a')).length = n := by
      intro n
      induction n with
      | zero => rfl
      | succ n ih =>
          rw [List.replicate_succ, escaped_cons, List.length_append, ih]
          exact Nat.add_comm 1 n
    have hlong : STRBUFSIZE < (textX (some (List.replicate (STRBUFSIZE + 1) 'a'))).length := by
      rw [textX, Option.getD_some, hlen]
      exact Nat.lt_succ_self STRBUFSIZE
    rcases read_xml_too_long "a" [] _ none [] [] hlong with ⟨message, hm⟩
    rw [longText, hm]
    intro h
    cases h

end TooLong

end XevXml.Tools
