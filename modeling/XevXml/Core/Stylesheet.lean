import XevXml.Core.Fuel

/-!
# Templates

The part of XSLT that walks through a document. A stylesheet is a list of templates, and a
template is for elements of one name or of any name, in one mode or in none. Among those that
accept an element the ones with a name come first, and the last one is taken. Where there is
none, templates of other stylesheets are taken, which are a parameter here.

The body of a template is character data and instructions. What becomes of an element is the
text and what the instructions make, one after the other. Character data between two
instructions is one text, and it is dropped if it is white space only. A variable is a tree of
its own. Templates are not applied to the root of the tree, for which there are none, but to what
is below it.

Templates call each other without an end in sight, so they are run with a bound.

## Main definitions

* `Item`, `Focus`: Documents.
* `Instr`, `Branches`, `Template`: Stylesheets.
* `find`: The template for an element.
* `runBody`, `applyAt`: Running them.
* `Applies`, `Runs`: What they end with.

## Theorems

* `find_named`, `find_any`, `find_none`: Which template is taken.
* `applies_template`, `applies_imported`: Applying templates.
* `makes_apply`, `makes_copy`, `makes_choose`, `runs_variable`: One rule for each instruction.
* `runs_between`: Instructions with white space around them.
-/

namespace XevXml.Stylesheet

open Fuel

section Documents

/-- The nodes of a document. -/
inductive Item
  | element (name : List Char) (attrs : List (List Char × List Char)) (children : List Item)
  | text (s : List Char)
  | comment (s : List Char)

/-- A node among its siblings. Those in front of it are listed from the nearest one on. -/
structure Focus where
  before : List Item
  node : Item
  after : List Item

def fociFrom (before : List Item) : List Item → List Focus
  | [] => []
  | n :: ns => ⟨before, n, ns⟩ :: fociFrom (n :: before) ns

/-- Siblings, each among the others. -/
def foci (ns : List Item) : List Focus := fociFrom [] ns

/-- What is below a node. -/
def Item.content : Item → List Item
  | .element _ _ children => children
  | _ => []

/-- Texts next to each other are one. -/
def merged : List Item → List Item
  | [] => []
  | .text s :: ns =>
      match merged ns with
      | .text t :: rest => .text (s ++ t) :: rest
      | rest => .text s :: rest
  | n :: ns => n :: merged ns

/-- White space. -/
def isSpace (c : Char) : Bool := c == ' ' || c == '\t' || c == '\n' || c == '\r'

/-- Character data of a stylesheet. -/
def literal (s : List Char) : List Item := if s.all isSpace then [] else [.text s]

end Documents

section Sheets

/-- What templates are applied to: the node itself, what is below it, or what is in a variable. -/
inductive Select
  | here
  | content
  | fragment (name : List Char)
deriving DecidableEq

/-- The value of a parameter. -/
inductive Given
  | string (s : List Char)
  | expression (s : List Char)
deriving DecidableEq

mutual

/-- The body of a template, over some type of tests. -/
inductive Instr (T : Type)
  | chars (s : List Char)
  | copy (body : List (Instr T))
  | copyAttributes
  | apply (select : Select) (mode : Option (List Char))
  | applyWith (mode : List Char) (params : List (List Char × Given))
  | variable (name : List Char) (body : List (Instr T))
  | choose (branches : Branches T)

inductive Branches (T : Type)
  | when (test : T) (body : List (Instr T)) (rest : Branches T)
  | otherwise (body : List (Instr T))

end

/-- A template, for elements of one name or of any name. -/
structure Template (T : Type) where
  name : Option (List Char)
  mode : Option (List Char)
  body : List (Instr T)

/-- The templates of a stylesheet have no parameters, so one that is given to them is lost. -/
abbrev Params := List (List Char × Given)

/-- Applying templates in some mode. -/
abbrev Applied (α : Type) := Option (List Char) → Params → Focus → α

variable {T : Type}

/-- Whether a template is for a node. -/
def Template.accepts (t : Template T) (mode : Option (List Char)) : Item → Bool
  | .element name _ _ => t.mode == mode && t.name.all fun n => n == name
  | _ => false

/-- The template for a node. -/
def find (ts : List (Template T)) (mode : Option (List Char)) (n : Item) : Option (Template T) :=
  (ts.filter fun t => t.name.isSome && t.accepts mode n).getLast?.or
    (ts.filter fun t => t.accepts mode n).getLast?

end Sheets

section Running

/-- Why templates give no result. -/
inductive Failure
  | unbounded
  | unknown (name : List Char)
deriving DecidableEq

abbrev Made := Except Failure (List Item)

/-- One place after the other. -/
def collect (f : Focus → Made) : List Focus → Made
  | [] => .ok []
  | p :: ps => do
      let ns ← f p
      let rest ← collect f ps
      .ok (ns ++ rest)

/-- The variables and what is in them. -/
abbrev Variables := List (List Char × List Item)

variable {T : Type} (holds : T → Focus → Bool) (again : Applied Made) (p : Focus)

/-- Templates are applied to what has been selected. -/
def runSelect (env : Variables) (mode : Option (List Char)) : Select → Made
  | .here => again mode [] p
  | .content => collect (again mode []) (foci p.node.content)
  | .fragment name =>
      match env.lookup name with
      | some ns => collect (again mode []) (foci ns)
      | none => .error (.unknown name)

def isCopyAttributes : Instr T → Bool
  | .copyAttributes => true
  | _ => false

/-- A copy of a node, with other nodes below it. -/
def Item.copied (attributes : Bool) (children : List Item) : Item → Item
  | .element name attrs _ => .element name (if attributes then attrs else []) (merged children)
  | n => n

mutual

/-- Runs the body of a template. Character data is collected until an instruction ends it. -/
def runBody (pending : List Char) (env : Variables) : List (Instr T) → Made
  | [] => .ok (literal pending)
  | .chars s :: is => runBody (pending ++ s) env is
  | .copy body :: is => do
      let ns ← runBody [] env body
      let rest ← runBody [] env is
      .ok (literal pending ++ p.node.copied (body.any isCopyAttributes) ns :: rest)
  | .copyAttributes :: is => do
      let rest ← runBody [] env is
      .ok (literal pending ++ rest)
  | .apply select mode :: is => do
      let ns ← runSelect again p env mode select
      let rest ← runBody [] env is
      .ok (literal pending ++ ns ++ rest)
  | .applyWith mode params :: is => do
      let ns ← again (some mode) params p
      let rest ← runBody [] env is
      .ok (literal pending ++ ns ++ rest)
  | .variable name body :: is => do
      let ns ← runBody [] env body
      let rest ← runBody [] ((name, merged ns) :: env) is
      .ok (literal pending ++ rest)
  | .choose branches :: is => do
      let ns ← runBranches env branches
      let rest ← runBody [] env is
      .ok (literal pending ++ ns ++ rest)

def runBranches (env : Variables) : Branches T → Made
  | .when test body rest =>
      if holds test p then runBody [] env body else runBranches env rest
  | .otherwise body => runBody [] env body

end

/-- What runs a stylesheet: the templates, what tests say, and what other stylesheets do. -/
structure Processor (T : Type) where
  templates : List (Template T)
  holds : T → Focus → Bool
  imported : Applied (List Item)

/-- Applies templates to a node. -/
def applyAt (P : Processor T) : Nat → Applied Made
  | 0, _, _, _ => .error .unbounded
  | fuel + 1, mode, params, p =>
      match find P.templates mode p.node with
      | some t => runBody P.holds (applyAt P fuel) p [] [] t.body
      | none => .ok (P.imported mode params p)

end Running

section Found

variable {T : Type} {ts : List (Template T)} {mode : Option (List Char)} {name : List Char}
  {attrs : List (List Char × List Char)} {children : List Item}

/-- A list that has a member has a last one. -/
theorem exists_getLast? {α : Type} {l : List α} {a : α} (ha : a ∈ l) :
    ∃ b, l.getLast? = some b :=
  Option.isSome_iff_exists.mp (List.getLast?_isSome.mpr (List.ne_nil_of_mem ha))

theorem accepts_element (t : Template T) : t.accepts mode (.element name attrs children) = true ↔
    t.mode = mode ∧ (t.name = none ∨ t.name = some name) := by
  rw [Template.accepts, Bool.and_eq_true, beq_iff_eq]
  refine and_congr_right fun _ => ?_
  cases t.name with
  | none => simp
  | some n => simp

/-- A template for elements of the name is taken if there is one. -/
theorem find_named (h : ∃ t ∈ ts, t.name = some name ∧ t.mode = mode) :
    ∃ t ∈ ts, t.name = some name ∧ t.mode = mode ∧
      find ts mode (.element name attrs children) = some t := by
  obtain ⟨t, ht, hname, hmode⟩ := h
  have hmem : t ∈ ts.filter fun u => u.name.isSome &&
      u.accepts mode (.element name attrs children) := by
    rw [List.mem_filter, Bool.and_eq_true, accepts_element, hname]
    exact ⟨ht, rfl, hmode, Or.inr rfl⟩
  obtain ⟨u, hu⟩ := exists_getLast? hmem
  obtain ⟨hin, hacc⟩ := List.mem_filter.mp (List.mem_of_getLast? hu)
  rw [Bool.and_eq_true, accepts_element] at hacc
  obtain ⟨hsome, hm, hn⟩ := hacc
  refine ⟨u, hin, hn.resolve_left fun hnone => ?_, hm, by rw [find, hu, Option.some_or]⟩
  rw [hnone] at hsome
  cases hsome

/-- If there is none, a template for all elements is taken. -/
theorem find_any (hnone : ∀ u ∈ ts, u.mode = mode → u.name ≠ some name)
    (h : ∃ t ∈ ts, t.name = none ∧ t.mode = mode) :
    ∃ t ∈ ts, t.name = none ∧ t.mode = mode ∧
      find ts mode (.element name attrs children) = some t := by
  obtain ⟨t, ht, hname, hmode⟩ := h
  have hnamed : (ts.filter fun u => u.name.isSome &&
      u.accepts mode (.element name attrs children)) = [] := by
    refine List.filter_eq_nil_iff.mpr fun u hmem hu => ?_
    rw [Bool.and_eq_true, accepts_element] at hu
    obtain ⟨hsome, hm, hn⟩ := hu
    rcases hn with hn | hn
    · rw [hn] at hsome
      cases hsome
    · exact hnone u hmem hm hn
  have hmem : t ∈ ts.filter fun u => u.accepts mode (.element name attrs children) :=
    List.mem_filter.mpr ⟨ht, (accepts_element t).mpr ⟨hmode, Or.inl hname⟩⟩
  obtain ⟨u, hu⟩ := exists_getLast? hmem
  obtain ⟨hin, hacc⟩ := List.mem_filter.mp (List.mem_of_getLast? hu)
  obtain ⟨hm, hn⟩ := (accepts_element u).mp hacc
  refine ⟨u, hin, hn.resolve_right (hnone u hin hm), hm, ?_⟩
  rw [find, hnamed, hu]
  rfl

/-- There is no template in a mode of another stylesheet. -/
theorem find_none (h : ∀ u ∈ ts, u.mode ≠ mode) (n : Item) : find ts mode n = none := by
  have hno : ∀ u ∈ ts, u.accepts mode n = false := by
    intro u hu
    cases n with
    | text s => rfl
    | comment s => rfl
    | element name attrs children =>
        rw [← Bool.not_eq_true, accepts_element]
        exact fun hm => h u hu hm.1
  have hany : (ts.filter fun u => u.accepts mode n) = [] :=
    List.filter_eq_nil_iff.mpr fun u hu => Bool.not_eq_true _ ▸ hno u hu
  have hnamed : (ts.filter fun u => u.name.isSome && u.accepts mode n) = [] := by
    refine List.filter_eq_nil_iff.mpr fun u hu => ?_
    rw [hno u hu, Bool.and_false]
    exact Bool.false_ne_true
  rw [find, hnamed, hany]
  rfl

/-- Nor for a text. -/
theorem find_text (s : List Char) : find ts mode (.text s) = none := by
  simp [find, Template.accepts]

/-- Nor for a comment. -/
theorem find_comment (s : List Char) : find ts mode (.comment s) = none := by
  simp [find, Template.accepts]

end Found

section Rules

variable {T : Type} (P : Processor T) (p : Focus) (pending : List Char) (env : Variables)

/-- Applying templates to a node ends with some nodes. -/
def Applies (mode : Option (List Char)) (params : Params) (ns : List Item) : Prop :=
  Computes (fun fuel => applyAt P fuel mode params p) ns

/-- Applying them to what is selected does. -/
def Selects (mode : Option (List Char)) (select : Select) (ns : List Item) : Prop :=
  Computes (fun fuel => runSelect (applyAt P fuel) p env mode select) ns

/-- Running a body does. -/
def Runs (is : List (Instr T)) (ns : List Item) : Prop :=
  Computes (fun fuel => runBody P.holds (applyAt P fuel) p pending env is) ns

/-- Running branches does. -/
def Branching (branches : Branches T) (ns : List Item) : Prop :=
  Computes (fun fuel => runBranches P.holds (applyAt P fuel) p env branches) ns

variable {P p pending env} {mode : Option (List Char)} {params : Params} {ns rest : List Item}
  {is : List (Instr T)}

theorem applies_template {t : Template T} (hfind : find P.templates mode p.node = some t)
    (hbody : Runs P p [] [] t.body ns) : Applies P p mode params ns := by
  refine computes_succ (fun fuel => ?_) hbody
  rw [applyAt, hfind]

theorem applies_imported (hfind : find P.templates mode p.node = none) :
    Applies P p mode params (P.imported mode params p) := by
  refine computes_succ (fun fuel => ?_) (computes_ok _)
  rw [applyAt, hfind]

theorem selects_here (h : Applies P p mode [] ns) : Selects P p env mode .here ns := h

/-- Templates are applied to one node after the other. -/
theorem computes_collect {g : Focus → List Item} {ps : List Focus}
    (h : ∀ q ∈ ps, Applies P q mode [] (g q)) :
    Computes (fun fuel => collect (applyAt P fuel mode []) ps) (ps.flatMap g) := by
  induction ps with
  | nil => exact computes_ok []
  | cons q ps ih =>
      obtain ⟨hq, hps⟩ := List.forall_mem_cons.mp h
      exact computes_bind hq (computes_bind (ih hps) (computes_ok _))

theorem selects_content {g : Focus → List Item}
    (h : ∀ q ∈ foci p.node.content, Applies P q mode [] (g q)) :
    Selects P p env mode .content ((foci p.node.content).flatMap g) := computes_collect h

theorem selects_fragment {name : List Char} (hname : env.lookup name = some ns)
    {g : Focus → List Item} (h : ∀ q ∈ foci ns, Applies P q mode [] (g q)) :
    Selects P p env mode (.fragment name) ((foci ns).flatMap g) := by
  unfold Selects
  simp only [runSelect, hname]
  exact computes_collect h

/-- White space is dropped. -/
theorem literal_of_space {s : List Char} (h : s.all isSpace = true) : literal s = [] := if_pos h

/-- Character data is collected. -/
theorem runs_chars {s : List Char} (h : Runs P p (pending ++ s) env is ns) :
    Runs P p pending env (.chars s :: is) ns := h

/-- Character data in front of other instructions. -/
theorem runs_texts (ss : List (List Char)) (h : Runs P p (pending ++ ss.flatten) env is ns) :
    Runs P p pending env (ss.map .chars ++ is) ns := by
  induction ss generalizing pending with
  | nil =>
      rw [List.flatten_nil, List.append_nil] at h
      exact h
  | cons s ss ih =>
      rw [List.flatten_cons, ← List.append_assoc] at h
      exact ih h

/-- Character data up to the end of a body. -/
theorem runs_end (ss : List (List Char)) :
    Runs P p pending env (ss.map .chars) (literal (pending ++ ss.flatten)) := by
  have hrun : Runs P p pending env (ss.map .chars ++ []) (literal (pending ++ ss.flatten)) :=
    runs_texts ss (computes_ok _)
  rwa [List.append_nil] at hrun

/-- An instruction makes some nodes, whatever stands in front of it and behind it. -/
def Makes (P : Processor T) (p : Focus) (env : Variables) (i : Instr T) (ns : List Item) : Prop :=
  ∀ (pending : List Char) (is : List (Instr T)) (rest : List Item), Runs P p [] env is rest →
    Runs P p pending env (i :: is) (literal pending ++ ns ++ rest)

theorem makes_apply {select : Select} (hns : Selects P p env mode select ns) :
    Makes P p env (.apply select mode) ns :=
  fun _ _ _ hrest => computes_bind hns (computes_bind hrest (computes_ok _))

theorem makes_applyWith {m : List Char} {given : Params} (hns : Applies P p (some m) given ns) :
    Makes P p env (.applyWith m given) ns :=
  fun _ _ _ hrest => computes_bind hns (computes_bind hrest (computes_ok _))

theorem makes_choose {branches : Branches T} (hns : Branching P p env branches ns) :
    Makes P p env (.choose branches) ns :=
  fun _ _ _ hrest => computes_bind hns (computes_bind hrest (computes_ok _))

theorem makes_copyAttributes : Makes P p env .copyAttributes [] := by
  intro pending is rest hrest
  rw [List.append_nil]
  exact computes_bind hrest (computes_ok _)

theorem makes_copy {body : List (Instr T)} (hns : Runs P p [] env body ns) :
    Makes P p env (.copy body) [p.node.copied (body.any isCopyAttributes) ns] := by
  intro pending is rest hrest
  rw [List.append_assoc]
  exact computes_bind hns (computes_bind hrest (computes_ok _))

/-- A variable is there for the instructions behind it. -/
theorem runs_variable {name : List Char} {body : List (Instr T)} (hns : Runs P p [] env body ns)
    (hrest : Runs P p [] ((name, merged ns) :: env) is rest) :
    Runs P p pending env (.variable name body :: is) (literal pending ++ rest) :=
  computes_bind hns (computes_bind hrest (computes_ok _))

/-- An instruction with white space around it. -/
theorem runs_between {i : Instr T} (hi : Makes P p env i ns) {s t : List Char}
    (hs : s.all isSpace = true) (ht : t.all isSpace = true) :
    Runs P p [] env [.chars s, i, .chars t] ns := by
  have hrun := hi s [.chars t] _ (runs_end [t])
  rw [List.nil_append, List.flatten_singleton, literal_of_space hs, literal_of_space ht,
    List.nil_append, List.append_nil] at hrun
  exact runs_chars hrun

variable {test : T} {branches : Branches T}

theorem branching_when (ht : P.holds test p = true) (hns : Runs P p [] env is ns) :
    Branching P p env (.when test is branches) ns := by
  unfold Branching
  simp only [runBranches, ht, if_true]
  exact hns

theorem branching_else (ht : P.holds test p = false) (hns : Branching P p env branches ns) :
    Branching P p env (.when test is branches) ns := by
  unfold Branching
  simp only [runBranches, ht, Bool.false_eq_true, if_false]
  exact hns

end Rules

end XevXml.Stylesheet
