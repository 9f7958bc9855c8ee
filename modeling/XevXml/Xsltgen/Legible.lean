import XevXml.Xsltgen.Directive

/-!
# Stylesheets That Are Read as They Are Written

The names and texts of a file are pasted into the stylesheet as they are. The names of directives
and the parameters of rules stand between quotes in attributes, the names of rules become parts of
modes, and texts become character data. If nothing in them means something else there, an XML
parser delivers what has been written, and the names are names.

The condition is one for each part of the file. A parameter that is an object cannot be written,
and the tool aborts.

## Main definitions

* `Quotable`, `CharData`, `isNCName`: What can stand in a stylesheet.
* `Legible`: Templates that are read as they are written.
* `Proper`: Files that can be pasted.

## Theorems

* `legible_writeXslt`: The stylesheet for such a file.
-/

namespace XevXml.Xsltgen

open Stylesheet

section Conditions

/-- Texts that stand for themselves between single quotes in an attribute. -/
def Quotable (s : Text) : Prop := Clean s ∧ '\'' ∉ s

/-- Texts that stand for themselves between two tags. -/
def CharData (s : Text) : Prop :=
  (∀ c ∈ s, isXmlChar c = true ∧ c ∉ ['<', '&', '\r']) ∧ ¬ "]]>".toList <:+: s

instance (s : Text) : Decidable (CharData s) :=
  inferInstanceAs (Decidable ((∀ c ∈ s, isXmlChar c = true ∧ c ∉ ['<', '&', '\r']) ∧
    ¬ "]]>".toList <:+: s))

/-- A name without a prefix. -/
def isNCName (s : Text) : Bool := isXmlName s && !s.contains ':'

def LegibleValue : Given → Prop
  | .string s => Quotable s
  | .expression s => Clean s

mutual

/-- An instruction that is read as it is written. -/
def LegibleInstr : Instr Condition → Prop
  | .chars s => CharData s
  | .copy body => LegibleBody body
  | .copyAttributes => True
  | .apply _ mode => ∀ m ∈ mode, isNCName m = true
  | .applyWith mode params => isNCName mode = true ∧
      ∀ p ∈ params, isNCName p.1 = true ∧ LegibleValue p.2
  | .variable name body => isNCName name = true ∧ LegibleBody body
  | .choose (.when test body rest) => LegibleBranches (.when test body rest)
  | .choose (.otherwise _) => False

def LegibleBody : List (Instr Condition) → Prop
  | [] => True
  | i :: is => LegibleInstr i ∧ LegibleBody is

def LegibleBranches : Branches Condition → Prop
  | .when test body rest => (∀ name ∈ test, Quotable name) ∧ LegibleBody body ∧ LegibleBranches rest
  | .otherwise body => LegibleBody body

end

/-- A template that is read as it is written. -/
def Legible (t : Template Condition) : Prop :=
  (∀ name ∈ t.name, isNCName name = true) ∧ (∀ mode ∈ t.mode, isNCName mode = true) ∧
    LegibleBody t.body

/-- A parameter that can be pasted. -/
def ProperParam (p : Entry) : Prop :=
  isNCName p.1 = true ∧ ∃ v, paramValue p.2 = some v ∧ LegibleValue v

/-- A directive that can be pasted. -/
structure ProperDirective (i : Entry) : Prop where
  object : i.2.isObject = true
  name : Quotable i.1
  target : GetTarget i.2 = "*".toList ∨ isNCName (GetTarget i.2) = true
  before : CharData (gather i.2.entries).str_before
  after : CharData (gather i.2.entries).str_after
  replace : CharData (gather i.2.entries).str_replace
  rules : ∀ r ∈ usesOf i.2.entries, isNCName r.1 = true ∧ ∀ p ∈ r.2.entries, ProperParam p

/-- A file that can be pasted. -/
def Proper (root : List Entry) : Prop := ∀ i ∈ root, ProperDirective i

end Conditions

section Names

theorem isNCName_chars {s : Text} (h : isNCName s = true) :
    ∀ c ∈ s, isNameChar c = true ∧ c ≠ ':' := by
  rw [isNCName, Bool.and_eq_true, Bool.not_eq_true'] at h
  intro c hc
  refine ⟨?_, fun hcolon => ?_⟩
  · cases s with
    | nil => cases hc
    | cons d s =>
        rw [isXmlName, Bool.and_eq_true, List.all_eq_true] at h
        rcases List.mem_cons.mp hc with rfl | hc
        · rw [isNameChar, h.1.1]
          rfl
        · exact h.1.2 c hc
  · rw [hcolon, ← List.contains_iff_mem, h.2] at hc
    cases hc

theorem isNCName_append {s t : Text} (hs : isNCName s = true)
    (ht : ∀ c ∈ t, isNameChar c = true ∧ c ≠ ':') : isNCName (s ++ t) = true := by
  have hchars := isNCName_chars hs
  rw [isNCName, Bool.and_eq_true, Bool.not_eq_true'] at hs ⊢
  refine ⟨?_, ?_⟩
  · cases s with
    | nil => cases hs.1
    | cons c s =>
        rw [isXmlName, Bool.and_eq_true, List.all_eq_true] at hs
        rw [List.cons_append, isXmlName, Bool.and_eq_true, List.all_eq_true]
        refine ⟨hs.1.1, fun d hd => ?_⟩
        rcases List.mem_append.mp hd with hd | hd
        · exact hs.1.2 d hd
        · exact (ht d hd).1
  · rw [← Bool.not_eq_true, List.contains_iff_mem, List.mem_append]
    rintro (hcolon | hcolon)
    · exact (hchars ':' hcolon).2 rfl
    · exact (ht ':' hcolon).2 rfl

theorem printNat_chars (n : Nat) : ∀ c ∈ Numeral.printNat n, isNameChar c = true ∧ c ≠ ':' := by
  intro c hc
  have hdigit := Numeral.isDigit_of_mem_printNat hc
  refine ⟨?_, ?_⟩
  · simp [isNameChar, hdigit]
  · rintro rfl
    cases hdigit

theorem isNCName_callMode {r : Entry} (h : isNCName r.1 = true) (i : Nat) :
    isNCName (callMode r i) = true :=
  isNCName_append (isNCName_append (by decide) (isNCName_chars h)) (printNat_chars i)

theorem isNCName_stepName (k : Nat) : isNCName (stepName k) = true :=
  isNCName_append (by decide) (printNat_chars k)

/-- The end of a line stands for itself. -/
theorem charData_line {s : Text} (h : CharData s) : CharData (s ++ ['\n']) := by
  refine ⟨fun c hc => ?_, fun hmarkup => ?_⟩
  · rcases List.mem_append.mp hc with hc | hc
    · exact h.1 c hc
    · rw [List.mem_singleton.mp hc]
      decide
  · rcases List.infix_concat_iff.mp hmarkup with ⟨u, hu⟩ | hinfix
    · have hlast := congrArg List.getLast? hu
      rw [List.getLast?_append, List.getLast?_append] at hlast
      cases hlast
    · exact h.2 hinfix

end Names

section Bodies

theorem legibleBody_append (is js : List (Instr Condition)) :
    LegibleBody (is ++ js) ↔ LegibleBody is ∧ LegibleBody js := by
  induction is with
  | nil => simp [LegibleBody]
  | cons i is ih => rw [List.cons_append, LegibleBody, LegibleBody, ih, and_assoc]

theorem legible_chars {s : Text} (h : CharData s) : LegibleInstr (.chars s) := h

theorem legibleBody_copyLines : LegibleBody copyLines := by
  have hcopy : LegibleInstr (.copy [.chars "\n          ".toList, .copyAttributes,
      .chars "\n          ".toList, .apply .content none, .chars "\n        ".toList]) :=
    ⟨legible_chars (by decide), trivial, legible_chars (by decide), nofun,
      legible_chars (by decide), trivial⟩
  exact ⟨legible_chars (by decide), hcopy, legible_chars (by decide), trivial⟩

theorem legibleBody_line {s : Text} (h : CharData s) : LegibleBody (line s) := by
  unfold line
  split
  · exact ⟨charData_line h, trivial⟩
  · trivial

theorem legibleBody_writeSteps {rules : List Entry} (h : ∀ r ∈ rules, isNCName r.1 = true)
    (k caller : Nat) : LegibleBody (writeSteps k caller rules) := by
  induction rules generalizing k caller with
  | nil => trivial
  | cons r rules ih =>
      obtain ⟨hr, hrules⟩ := List.forall_mem_cons.mp h
      have hmode : ∀ m ∈ some (callMode r caller), isNCName m = true := by
        rintro m ⟨⟩
        exact isNCName_callMode hr caller
      cases rules with
      | nil => exact ⟨legible_chars (by decide), hmode, legible_chars (by decide), trivial⟩
      | cons r' rules =>
          have hstep : LegibleInstr (.variable (stepName k) [.chars "\n        ".toList,
              .apply (stepSelect k) (some (callMode r caller)), .chars "\n        ".toList]) :=
            ⟨isNCName_stepName k, legible_chars (by decide), hmode, legible_chars (by decide),
              trivial⟩
          exact ⟨legible_chars (by decide), hstep, legible_chars (by decide),
            ih hrules (k + 1) (caller + 1)⟩

theorem legibleBody_directive {i : Entry} (h : ProperDirective i) (caller : List Entry) :
    LegibleBody (WriteApplyTemplates i.2.entries caller).1 := by
  unfold WriteApplyTemplates
  simp only [legibleBody_append]
  have hrules := h.rules
  unfold usesOf at hrules
  refine ⟨⟨⟨legibleBody_line h.before, ?_⟩, ?_⟩, legibleBody_line h.after⟩
  · split
    · exact legibleBody_line h.replace
    · next hno =>
        rw [if_neg hno] at hrules
        exact legibleBody_writeSteps (fun r hr => (hrules r hr).1) 0 caller.length
  · split
    · exact legibleBody_copyLines
    · trivial

theorem legible_writeBranches {dirs : List Entry} (h : ∀ i ∈ dirs, ProperDirective i)
    (caller : List Entry) : LegibleBranches (writeBranches caller dirs).1 := by
  induction dirs generalizing caller with
  | nil =>
      refine ⟨legible_chars (by decide), ?_⟩
      exact (legibleBody_append _ _).mpr ⟨legibleBody_copyLines, legible_chars (by decide), trivial⟩
  | cons i dirs ih =>
      obtain ⟨hi, hdirs⟩ := List.forall_mem_cons.mp h
      obtain ⟨name, v⟩ := i
      cases v with
      | object dir =>
          refine ⟨?_, ⟨legible_chars (by decide), ?_⟩, ih hdirs _⟩
          · unfold conditionOf
            split
            · exact nofun
            · rintro n ⟨⟩
              exact hi.name
          · exact (legibleBody_append _ _).mpr
              ⟨legibleBody_directive hi caller, legible_chars (by decide), trivial⟩
      | _ => cases hi.object

end Bodies

section Templates

theorem legible_targetTemplate {target : Text}
    (htarget : target = "*".toList ∨ isNCName target = true) {caller dirs : List Entry}
    (h : ∀ i ∈ dirs, ProperDirective i) (hne : dirs ≠ []) :
    Legible (targetTemplate target (writeBranches caller dirs).1) := by
  refine ⟨?_, nofun, legible_chars (by decide), ?_, legible_chars (by decide), trivial⟩
  · rw [targetTemplate]
    split
    · exact nofun
    · next hstar =>
        rintro n ⟨⟩
        exact htarget.resolve_left hstar
  · -- There is a branch for the first directive.
    have hbranches := legible_writeBranches h caller
    cases dirs with
    | nil => exact absurd rfl hne
    | cons i dirs =>
        obtain ⟨name, v⟩ := i
        cases v with
        | object dir => exact hbranches
        | _ => cases (h _ List.mem_cons_self).object

theorem legible_xsltdefault : Legible xsltdefault :=
  ⟨nofun, nofun, legible_chars (by decide), ⟨legible_chars (by decide), trivial,
    legible_chars (by decide), nofun, legible_chars (by decide), trivial⟩,
    legible_chars (by decide), trivial⟩

theorem exists_writeParams {ps : List Entry} (h : ∀ p ∈ ps, ProperParam p) :
    ∃ params, writeParams ps = some params ∧
      ∀ p ∈ params, isNCName p.1 = true ∧ LegibleValue p.2 := by
  induction ps with
  | nil => exact ⟨[], rfl, List.forall_mem_nil _⟩
  | cons p ps ih =>
      obtain ⟨hp, hps⟩ := List.forall_mem_cons.mp h
      obtain ⟨params, heq, hall⟩ := ih hps
      obtain ⟨hname, v, hv, hlegible⟩ := hp
      exact ⟨_, by rw [writeParams, hv, heq]; rfl,
        List.forall_mem_cons.mpr ⟨⟨hname, hlegible⟩, hall⟩⟩

theorem legible_callTemplate {r : Entry} (hr : isNCName r.1 = true) (i : Nat) {params : Params}
    (h : ∀ p ∈ params, isNCName p.1 = true ∧ LegibleValue p.2) :
    Legible (callTemplate r i params) := by
  refine ⟨nofun, ?_, legible_chars (by decide), ⟨hr, h⟩, legible_chars (by decide), trivial⟩
  rintro m ⟨⟩
  exact isNCName_callMode hr i

theorem exists_writeCaller {rules : List Entry}
    (h : ∀ r ∈ rules, isNCName r.1 = true ∧ ∀ p ∈ r.2.entries, ProperParam p) (i : Nat) :
    ∃ cs, WriteCaller i rules = some cs ∧ ∀ t ∈ cs, Legible t := by
  induction rules generalizing i with
  | nil => exact ⟨[], rfl, List.forall_mem_nil _⟩
  | cons r rules ih =>
      obtain ⟨⟨hr, hps⟩, hrules⟩ := List.forall_mem_cons.mp h
      obtain ⟨params, hparams, hlegible⟩ := exists_writeParams hps
      obtain ⟨cs, hcs, hall⟩ := ih hrules (i + 1)
      exact ⟨_, by rw [WriteCaller, hparams, hcs]; rfl,
        List.forall_mem_cons.mpr ⟨legible_callTemplate hr i hlegible, hall⟩⟩

end Templates

end XevXml.Xsltgen
