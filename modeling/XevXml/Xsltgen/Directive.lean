import XevXml.Xsltgen.Generate

/-!
# Directives Carried Out

What the branch of a directive makes of a statement. The texts of the directive stand in front
of it and behind it, or in its place, with the white space of the stylesheet around them. A text
without any character is no text, so a statement cannot be replaced by nothing. Rules are applied
one after the other. The first one is applied to the statement, and each of the others to all
that the one before has made, node by node.

The rules are in other stylesheets and are a parameter here. The modes in which they are called
are made of the names of the rules and of numbers, and nothing stands between both. So the modes
of two uses can be the same, if the name of a rule ends with a digit. Where there are no
templates for texts and comments in the other stylesheets, texts are copied and comments are lost.

## Main definitions

* `conditionHolds`: When a branch is taken.
* `chosen`: The directive that is carried out.
* `chain`, `carriedOut`: What becomes of a statement.
* `transform`: What becomes of a program.
* `Separate`: No mode is used twice.

## Theorems

* `applies_call`: A mode leads to its rule.
* `runs_steps`: A chain of rules.
* `runs_directive`, `branching_directives`: The branches of a target.
-/

namespace XevXml.Xsltgen

open Stylesheet Fuel

section Meaning

/-- The pragma of an element for pragmas. -/
def pragmaOf : Item → Option Text
  | .element name attrs _ => if name = "SgPragma".toList then attrs.lookup "pragma".toList else none
  | _ => none

def isElement : Item → Bool
  | .element _ _ _ => true
  | _ => false

/-- The pragmas in the element in front of a statement. -/
def pragmasBefore (before : List Item) : List Text :=
  ((before.find? isElement).map Item.content).elim [] fun ns => ns.filterMap pragmaOf

/-- Whether a branch is taken. -/
def conditionHolds : Condition → Focus → Bool
  | none, _ => true
  | some name, p => (pragmasBefore p.before).contains name

/-- Whether a directive is there. -/
def isThere (p : Focus) (i : Entry) : Bool := conditionHolds (conditionOf i.1) p

/-- The directives for a class of statements, in the order in which they are looked for. -/
def candidates (root : List Entry) (name : Text) : List Entry :=
  (root.filter fun i => GetTarget i.2 = name) ++ root.filter fun i => GetTarget i.2 = "*".toList

/-- The directive that is carried out for a statement. -/
def chosen (root : List Entry) (p : Focus) (name : Text) : Option Entry :=
  (candidates root name).find? (isThere p)

variable (imported : Applied (List Item))

/-- What a rule makes of a node. -/
def ruleAt (rule : Entry) (q : Focus) : List Item :=
  match q.node with
  | .element _ _ _ => imported (some rule.1) ((writeParams rule.2.entries).getD []) q
  | .text s => [.text s]
  | .comment _ => []

/-- Rules are applied one after the other, each to all that the one before has made. -/
def chain : List Focus → List Entry → List Item
  | ps, [] => ps.map Focus.node
  | ps, [rule] => ps.flatMap (ruleAt imported rule)
  | ps, rule :: rules => chain (foci (merged (ps.flatMap (ruleAt imported rule)))) rules

/-- A text and the end of its line. -/
def lineText (s : Text) : Text := if s.length > 0 then s ++ ['\n'] else []

/-- What becomes of a statement, where `copied` is what would become of it otherwise. -/
def carriedOut (dir : List Entry) (p : Focus) (copied : List Item) : List Item :=
  let g := gather dir
  if g.str_replace.length > 0 then
    literal ('\n' :: lineText g.str_before ++ lineText g.str_replace ++ lineText g.str_after ++
      "      ".toList)
  else
    literal ('\n' :: lineText g.str_before ++ "        ".toList) ++
      (if g.rules.length = 0 then copied else chain imported [p] g.rules) ++
      literal ('\n' :: lineText g.str_after ++ "      ".toList)

/-- What becomes of a statement with a directive, or with none. -/
def outcome (p : Focus) (copied : List Item) : Option Entry → List Item
  | some i => carriedOut imported i.2.entries p copied
  | none => copied

variable (root : List Entry)

mutual

/-- What becomes of a node of the program. -/
def transform (before after : List Item) : Item → List Item
  | .element name attrs children =>
      let p : Focus := ⟨before, .element name attrs children, after⟩
      outcome imported p [.element name attrs (merged (transformAll [] children))]
        (chosen root p name)
  | .text s => [.text s]
  | .comment _ => []

def transformAll (before : List Item) : List Item → List Item
  | [] => []
  | n :: ns => transform before ns n ++ transformAll (n :: before) ns

end

/-- Where there is no template, texts are kept and comments are not. -/
structure BuiltIn : Prop where
  text : ∀ mode params p s, p.node = .text s → imported mode params p = [.text s]
  comment : ∀ mode params p s, p.node = .comment s → imported mode params p = []

end Meaning

section Modes

/-- The modes of the uses are different, and none of them is the name of a rule. -/
structure Separate (uses : List Entry) : Prop where
  modes : ∀ {i j : Nat} {r s : Entry}, uses[i]? = some r → uses[j]? = some s →
    callMode r i = callMode s j → i = j
  rules : ∀ {i j : Nat} {r s : Entry}, uses[i]? = some r → uses[j]? = some s → callMode r i ≠ s.1

/-- The templates with a mode are those of the uses. -/
structure Calls (ts : List (Template Condition)) (uses : List Entry) : Prop where
  called : ∀ {i r}, uses[i]? = some r → ∃ params, callTemplate r i params ∈ ts
  only : ∀ {t m}, t ∈ ts → t.mode = some m → ∃ i r params, uses[i]? = some r ∧
    writeParams r.2.entries = some params ∧ t = callTemplate r i params

variable {imported : Applied (List Item)} {ts : List (Template Condition)} {uses : List Entry}

/-- The stylesheet and what it runs with. -/
def processor (ts : List (Template Condition)) (imported : Applied (List Item)) :
    Processor Condition := ⟨ts, conditionHolds, imported⟩

/-- The mode of a use leads to its rule. -/
theorem applies_call (hb : BuiltIn imported) (hcalls : Calls ts uses) (hsep : Separate uses)
    {i : Nat} {r : Entry} (hr : uses[i]? = some r) (params : Params) (q : Focus) :
    Applies (processor ts imported) q (some (callMode r i)) params (ruleAt imported r q) := by
  obtain ⟨before, node, after⟩ := q
  cases node with
  | text s =>
      have hrule : ruleAt imported r ⟨before, .text s, after⟩ =
          imported (some (callMode r i)) params ⟨before, .text s, after⟩ :=
        (hb.text _ _ _ s rfl).symm
      exact hrule ▸ applies_imported (find_text s)
  | comment s =>
      have hrule : ruleAt imported r ⟨before, .comment s, after⟩ =
          imported (some (callMode r i)) params ⟨before, .comment s, after⟩ :=
        (hb.comment _ _ _ s rfl).symm
      exact hrule ▸ applies_imported (find_comment s)
  | element name attrs children =>
      obtain ⟨given, hcall⟩ := hcalls.called hr
      have hnamed : ∀ t ∈ ts, t.mode = some (callMode r i) → t.name ≠ some name := by
        intro t ht hmode hname
        obtain ⟨j, s, ps, -, -, rfl⟩ := hcalls.only ht hmode
        cases hname
      have hfound : ∃ t ∈ ts, t.name = none ∧ t.mode = some (callMode r i) ∧
          find ts (some (callMode r i)) (.element name attrs children) = some t :=
        find_any hnamed ⟨_, hcall, rfl, rfl⟩
      obtain ⟨t, ht, -, hmode, hfind⟩ := hfound
      -- The template is the one of this use, as there is no other one with the mode.
      obtain ⟨j, s, ps, hs, hps, rfl⟩ := hcalls.only ht hmode
      have hij : i = j := (hsep.modes hs hr (Option.some.inj hmode)).symm
      subst hij
      rw [hr] at hs
      cases hs
      have hrule : ∀ u ∈ ts, u.mode ≠ some r.1 := by
        intro u hu hm
        obtain ⟨k, s, qs, hs, -, rfl⟩ := hcalls.only hu hm
        exact hsep.rules hs hr (Option.some.inj hm)
      have himported : Applies (processor ts imported) ⟨before, .element name attrs children, after⟩
          (some r.1) ps (ruleAt imported r ⟨before, .element name attrs children, after⟩) := by
        rw [ruleAt, hps]
        exact applies_imported (find_none hrule _)
      exact applies_template hfind
        (runs_between (makes_applyWith himported) (by decide) (by decide))

end Modes

section Steps

variable {imported : Applied (List Item)} {ts : List (Template Condition)} {uses : List Entry}
  {p : Focus}

/-- The rules of a chain, where `k` of them have been applied. -/
theorem runs_steps (hb : BuiltIn imported) (hcalls : Calls ts uses) (hsep : Separate uses)
    (tail : List (List Char)) {rules : List Entry} (hne : rules ≠ []) {pre post : List Entry}
    (huses : uses = pre ++ rules ++ post) {k : Nat} {ps : List Focus} {env : Variables}
    (hselect : ∀ {i : Nat} {r : Entry}, uses[i]? = some r →
      Selects (processor ts imported) p env (some (callMode r i)) (stepSelect k)
        (ps.flatMap (ruleAt imported r))) (pending : Text) :
    Runs (processor ts imported) p pending env
      (writeSteps k pre.length rules ++ tail.map .chars)
      (literal (pending ++ "        ".toList) ++ chain imported ps rules ++
        literal ('\n' :: tail.flatten)) := by
  induction rules generalizing pre k ps env pending with
  | nil => exact absurd rfl hne
  | cons r rules ih =>
      have hr : uses[pre.length]? = some r := by
        rw [huses, List.append_assoc, List.getElem?_append_right (Nat.le_refl _), Nat.sub_self]
        rfl
      have hfirst := hselect hr
      cases rules with
      | nil =>
          exact runs_chars (makes_apply hfirst _ _ _ (runs_end (['\n'] :: tail)))
      | cons r' rules =>
          -- What the rule makes is in a variable, and the next rule is applied to that.
          let ns := ps.flatMap (ruleAt imported r)
          have hbody : Runs (processor ts imported) p [] env [.chars "\n        ".toList,
              .apply (stepSelect k) (some (callMode r pre.length)), .chars "\n        ".toList]
              ns := runs_between (makes_apply hfirst) (by decide) (by decide)
          have hsplit : uses = (pre ++ [r]) ++ (r' :: rules) ++ post := by simp [huses]
          have hnext : ∀ {i : Nat} {s : Entry}, uses[i]? = some s →
              Selects (processor ts imported) p ((stepName k, merged ns) :: env)
                (some (callMode s i)) (stepSelect (k + 1))
                ((foci (merged ns)).flatMap (ruleAt imported s)) := fun hs =>
            selects_fragment (by simp) fun q _ => applies_call hb hcalls hsep hs [] q
          have hrest := ih (List.cons_ne_nil _ _) hsplit hnext ['\n']
          rw [literal_of_space (by decide), List.nil_append, List.length_append] at hrest
          have hchain : chain imported ps (r :: r' :: rules) =
            chain imported (foci (merged ns)) (r' :: rules) := rfl
          rw [hchain, List.append_assoc]
          exact runs_chars (runs_variable hbody (runs_chars hrest))

theorem exists_line (s : Text) : ∃ ss : List Text, line s = ss.map .chars ∧
    ss.flatten = lineText s := by
  unfold line lineText
  split
  · exact ⟨[s ++ ['\n']], rfl, List.append_nil _⟩
  · exact ⟨[], rfl, rfl⟩

/-- The uses of rules in a directive. -/
def usesOf (dir : List Entry) : List Entry :=
  if (gather dir).str_replace.length > 0 then [] else (gather dir).rules

theorem writeApplyTemplates_uses (dir caller : List Entry) :
    (WriteApplyTemplates dir caller).2 = caller ++ usesOf dir := by
  unfold WriteApplyTemplates usesOf
  simp only
  split
  · rw [List.append_nil]
  · rfl

variable {name : Text} {attrs : List (Text × Text)} {children below : List Item}
  {before after : List Item}

/-- The lines that copy an element. -/
theorem makes_copyLine (hbelow : Selects (processor ts imported)
    ⟨before, .element name attrs children, after⟩ [] none .content below) {s t u : Text}
    (hs : s.all isSpace = true) (ht : t.all isSpace = true) (hu : u.all isSpace = true) :
    Makes (processor ts imported) ⟨before, .element name attrs children, after⟩ []
      (.copy [.chars s, .copyAttributes, .chars t, .apply .content none, .chars u])
      [.element name attrs (merged below)] := by
  have happly := makes_apply hbelow t [.chars u] _ (runs_end [u])
  rw [List.nil_append, List.flatten_singleton, literal_of_space ht, literal_of_space hu,
    List.nil_append, List.append_nil] at happly
  have hrun := makes_copyAttributes s _ _ (runs_chars happly)
  rw [literal_of_space hs, List.nil_append, List.nil_append] at hrun
  exact makes_copy (runs_chars hrun)

/-- A directive is carried out. -/
theorem runs_directive (hb : BuiltIn imported) (hcalls : Calls ts uses) (hsep : Separate uses)
    {dir pre post : List Entry} (huses : uses = pre ++ usesOf dir ++ post)
    (hbelow : Selects (processor ts imported) ⟨before, .element name attrs children, after⟩ []
      none .content below) :
    Runs (processor ts imported) ⟨before, .element name attrs children, after⟩ [] []
      (.chars ['\n'] :: (WriteApplyTemplates dir pre).1 ++ [.chars "      ".toList])
      (carriedOut imported dir ⟨before, .element name attrs children, after⟩
        [.element name attrs (merged below)]) := by
  obtain ⟨bs, hbs, hbefore⟩ := exists_line (gather dir).str_before
  obtain ⟨rs, hrs, hreplace⟩ := exists_line (gather dir).str_replace
  obtain ⟨as, has, hafter⟩ := exists_line (gather dir).str_after
  unfold WriteApplyTemplates carriedOut
  simp only [hbs, hrs, has]
  by_cases hreplaced : (gather dir).str_replace.length > 0
  · -- All of it is character data.
    have hrun : Runs (processor ts imported) ⟨before, .element name attrs children, after⟩ [] []
        (((['\n'] :: bs ++ rs ++ as ++ ["      ".toList]) : List Text).map .chars) _ := runs_end _
    simpa [hreplaced, ← hbefore, ← hreplace, ← hafter] using hrun
  · have hnone : usesOf dir = (gather dir).rules := if_neg hreplaced
    rw [hnone] at huses
    simp only [hreplaced, if_false, not_false_eq_true, true_and]
    by_cases hrules : (gather dir).rules.length = 0
    · have hcopy : Makes (processor ts imported) ⟨before, .element name attrs children, after⟩ [] _
          _ := makes_copyLine hbelow (s := "\n          ".toList) (t := "\n          ".toList)
            (u := "\n        ".toList) (by decide) (by decide) (by decide)
      have hrest := hcopy ([] ++ (['\n'] :: bs).flatten ++ "        ".toList) _ _
        (runs_end (['\n'] :: as ++ ["      ".toList]))
      have hrun := runs_texts (['\n'] :: bs) (runs_chars hrest)
      rw [List.length_eq_zero_iff] at hrules
      simpa [hrules, writeSteps, copyLines, ← hbefore, ← hafter] using hrun
    · have hselect : ∀ {i : Nat} {r : Entry}, uses[i]? = some r →
          Selects (processor ts imported) ⟨before, .element name attrs children, after⟩ []
            (some (callMode r i)) (stepSelect 0) ([⟨before, .element name attrs children,
              after⟩].flatMap (ruleAt imported r)) := by
        intro i r hr
        rw [List.flatMap_singleton]
        exact selects_here (applies_call hb hcalls hsep hr [] _)
      have hsteps := runs_steps hb hcalls hsep (as ++ ["      ".toList])
        (fun hnil => hrules (by rw [hnil]; rfl)) huses hselect ([] ++ (['\n'] :: bs).flatten)
      have hrun := runs_texts (['\n'] :: bs) hsteps
      simpa [hrules, ← hbefore, ← hafter] using hrun

theorem writeBranches_uses (caller dirs : List Entry) (hobj : ∀ i ∈ dirs, i.2.isObject = true) :
    (writeBranches caller dirs).2 = caller ++ dirs.flatMap fun i => usesOf i.2.entries := by
  induction dirs generalizing caller with
  | nil => exact (List.append_nil _).symm
  | cons i dirs ih =>
      obtain ⟨hi, hdirs⟩ := List.forall_mem_cons.mp hobj
      obtain ⟨name, v⟩ := i
      cases v with
      | object dir =>
          have hrest := ih (WriteApplyTemplates dir caller).2 hdirs
          rw [writeBranches, hrest, writeApplyTemplates_uses, List.flatMap_cons,
            List.append_assoc]
          rfl
      | _ => cases hi

/-- The first directive that is there is carried out. -/
theorem branching_directives (hb : BuiltIn imported) (hcalls : Calls ts uses)
    (hsep : Separate uses) {dirs pre post : List Entry} (hobj : ∀ i ∈ dirs, i.2.isObject = true)
    (huses : uses = pre ++ (dirs.flatMap fun i => usesOf i.2.entries) ++ post)
    (hbelow : Selects (processor ts imported) ⟨before, .element name attrs children, after⟩ []
      none .content below) :
    Branching (processor ts imported) ⟨before, .element name attrs children, after⟩ []
      (writeBranches pre dirs).1
      (outcome imported ⟨before, .element name attrs children, after⟩
        [.element name attrs (merged below)]
        (dirs.find? (isThere ⟨before, .element name attrs children, after⟩))) := by
  induction dirs generalizing pre with
  | nil =>
      have hcopy := makes_copyLine hbelow (s := "\n          ".toList)
        (t := "\n          ".toList) (u := "\n        ".toList) (by decide) (by decide)
        (by decide)
      have hrun := hcopy "\n        ".toList _ _ (runs_end [['\n'], "      ".toList])
      rw [literal_of_space (by decide), literal_of_space (by decide)] at hrun
      exact runs_chars (runs_chars hrun)
  | cons i dirs ih =>
      obtain ⟨hi, hdirs⟩ := List.forall_mem_cons.mp hobj
      obtain ⟨n, v⟩ := i
      cases v with
      | object dir =>
          rw [List.flatMap_cons] at huses
          have hhere : uses = pre ++ usesOf dir ++
              ((dirs.flatMap fun i => usesOf i.2.entries) ++ post) := by
            rw [huses]
            simp [Json.entries]
          rw [writeBranches]
          cases hthere : isThere ⟨before, .element name attrs children, after⟩
              (n, .object dir) with
          | true =>
              rw [List.find?_cons_of_pos hthere]
              exact branching_when hthere (runs_directive hb hcalls hsep hhere hbelow)
          | false =>
              rw [List.find?_cons_of_neg (by rw [hthere]; exact Bool.false_ne_true)]
              refine branching_else hthere ?_
              rw [writeApplyTemplates_uses]
              refine ih hdirs ?_
              rw [hhere]
              simp
      | _ => cases hi

end Steps

end XevXml.Xsltgen
