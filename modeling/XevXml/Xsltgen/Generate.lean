import XevXml.Core.Stylesheet
import XevXml.Dom.Tag

/-!
# Generating Stylesheets

A file of directives is a JSON object. Its keys are the names of directives, and each of them is
given the class of statements it is for, rules that are applied one after the other, and texts
that are inserted or that take the place of the statement. `xsltgen` makes a stylesheet of it,
with a template for each class. The branches of a template look for the directives among the
pragmas in front of a statement.

Every use of a rule has a mode of its own, in which a template calls the rule with its
parameters. The number of the use is part of the name of the mode.

The pairs of an object are listed in the order in which the tool goes through them, and a number
is what the JSON library prints for it. The tool writes the stylesheet as a text; here the text
is that of its templates, whose names, tests and character data are as they are written.

## Main definitions

* `Json`, `Entry`: The file.
* `Gathered`: What a directive does.
* `WriteApplyTemplates`, `WriteCaller`, `WriteXslt`: The tool.
* `Sheet.text`: What it prints.
-/

namespace XevXml.Xsltgen

open Stylesheet

section Files

/-- A value of a file. -/
inductive Json
  | null
  | bool (b : Bool)
  | number (printed : Text)
  | string (s : Text)
  | array (values : List Json)
  | object (entries : List (Text × Json))

/-- A key and its value. -/
abbrev Entry := Text × Json

def Json.to_str : Json → Text
  | null => "null".toList
  | bool b => if b then "true".toList else "false".toList
  | number printed => printed
  | string s => s
  | array _ => "array".toList
  | object _ => "object".toList

/-- The pairs of an object. -/
def Json.entries : Json → List Entry
  | object entries => entries
  | _ => []

def Json.isObject : Json → Bool
  | object _ => true
  | _ => false

/-- The characters up to the one that ends a string of C. -/
def c_str (s : Text) : Text := s.takeWhile (· != '\x00')

/-- The class of statements that a directive is for. -/
def GetTarget (directive : Json) : Text :=
  directive.entries.foldl (fun target i => if i.1 = "target".toList then i.2.to_str else target)
    "*".toList

/-- What a directive does. -/
structure Gathered where
  rules : List Entry
  str_before : Text
  str_after : Text
  str_replace : Text

/-- One pair of a directive. -/
def Gathered.add (g : Gathered) (i : Entry) : Gathered :=
  match i.2 with
  | .object _ => { g with rules := g.rules ++ [i] }
  | .array arr =>
      if i.1 = "rules".toList then { g with rules := g.rules ++ arr.flatMap Json.entries } else g
  | .string s =>
      if i.1 = "insert-before".toList then { g with str_before := c_str s }
      else if i.1 = "insert-after".toList then { g with str_after := c_str s }
      else if i.1 = "replace".toList then { g with str_replace := c_str s }
      else g
  | _ => g

/-- All pairs of a directive. -/
def gather (dir : List Entry) : Gathered := dir.foldl Gathered.add ⟨[], [], [], []⟩

end Files

section Writing

/-- A directive in front of a statement, or none where the name of the directive is a star. -/
abbrev Condition := Option Text

/-- The lines of a stylesheet that copy an element. -/
def copyLines : List (Instr Condition) :=
  [.chars "        ".toList,
    .copy [.chars "\n          ".toList, .copyAttributes, .chars "\n          ".toList,
      .apply .content none, .chars "\n        ".toList],
    .chars ['\n']]

/-- A text and the end of its line, if there is one. -/
def line (s : Text) : List (Instr Condition) := if s.length > 0 then [.chars (s ++ ['\n'])] else []

/-- The variable for what the `k`-th rule makes. -/
def stepName (k : Nat) : Text := "step".toList ++ Numeral.printNat k

/-- The mode of the `i`-th use of a rule. -/
def callMode (rule : Entry) (i : Nat) : Text := "call_".toList ++ rule.1 ++ Numeral.printNat i

/-- What the `k`-th rule is applied to. -/
def stepSelect : Nat → Select
  | 0 => .here
  | k + 1 => .fragment (stepName k)

/-- The rules from the `k`-th one on, where some uses have been counted. -/
def writeSteps (k caller : Nat) : List Entry → List (Instr Condition)
  | [] => []
  | [rule] => [.chars "        ".toList, .apply (stepSelect k) (some (callMode rule caller)),
      .chars ['\n']]
  | rule :: rules =>
      .chars "        ".toList ::
        .variable (stepName k) [.chars "\n        ".toList,
          .apply (stepSelect k) (some (callMode rule caller)), .chars "\n        ".toList] ::
        .chars ['\n'] :: writeSteps (k + 1) (caller + 1) rules

/-- What is written for a directive, and the uses of rules behind those that there are. -/
def WriteApplyTemplates (dir : List Entry) (caller : List Entry) :
    List (Instr Condition) × List Entry :=
  let g := gather dir
  let replaced := g.str_replace.length > 0
  (line g.str_before ++
      (if replaced then line g.str_replace else writeSteps 0 caller.length g.rules) ++
      (if ¬ replaced ∧ g.rules.length = 0 then copyLines else []) ++
      line g.str_after,
    if replaced then caller else caller ++ g.rules)

/-- What is written for a value. An object is an error. -/
def paramValue : Json → Option Given
  | .object _ => none
  | .string s => some (.string s)
  | v => some (.expression v.to_str)

/-- The parameters of a use. -/
def writeParams : List Entry → Option Params
  | [] => some []
  | p :: rest => do
      let v ← paramValue p.2
      let params ← writeParams rest
      some ((p.1, v) :: params)

/-- The template for the `i`-th use of a rule. -/
def callTemplate (rule : Entry) (i : Nat) (params : Params) : Template Condition :=
  ⟨none, some (callMode rule i),
    [.chars "\n    ".toList, .applyWith rule.1 params, .chars "\n  ".toList]⟩

/-- The templates for the uses from the `i`-th one on. -/
def WriteCaller : Nat → List Entry → Option (List (Template Condition))
  | _, [] => some []
  | i, rule :: rest => do
      let params ← writeParams rule.2.entries
      let ts ← WriteCaller (i + 1) rest
      some (callTemplate rule i params :: ts)

/-- The directives of each target, with the targets in the order of a map. -/
abbrev Targets := List (Text × List Entry)

/-- Makes room for a target. -/
def insertTarget (target : Text) : Targets → Targets
  | [] => [(target, [])]
  | (t, dirs) :: rest =>
      if target < t then (target, []) :: (t, dirs) :: rest
      else (t, dirs) :: insertTarget target rest

/-- Adds a directive to those of its target. -/
def addTarget (target : Text) (i : Entry) (targets : Targets) : Targets :=
  (if targets.any fun j => j.1 = target then targets else insertTarget target targets).map
    fun j => if j.1 = target then (j.1, j.2 ++ [i]) else j

/-- All directives by their targets. -/
def targetsOf (root : List Entry) : Targets :=
  root.foldl (fun targets i => addTarget (GetTarget i.2) i targets) []

/-- The test of a directive. -/
def conditionOf (name : Text) : Condition := if name = "*".toList then none else some name

/-- The branches of a target. -/
def writeBranches (caller : List Entry) : List Entry → Branches Condition × List Entry
  | [] => (.otherwise (.chars ['\n'] :: copyLines ++ [.chars "      ".toList]), caller)
  | k :: rest =>
      match k.2 with
      | .object dir =>
          let (body, uses) := WriteApplyTemplates dir caller
          let (branches, all) := writeBranches uses rest
          (.when (conditionOf k.1) (.chars ['\n'] :: body ++ [.chars "      ".toList]) branches,
            all)
      | _ => writeBranches caller rest

/-- The template of a target. -/
def targetTemplate (target : Text) (branches : Branches Condition) : Template Condition :=
  ⟨if target = "*".toList then none else some target, none,
    [.chars "\n    ".toList, .choose branches, .chars "\n  ".toList]⟩

/-- The templates of all targets. -/
def writeTargets (caller : List Entry) : Targets → List (Template Condition) × List Entry
  | [] => ([], caller)
  | (target, dirs) :: rest =>
      let (branches, uses) := writeBranches caller dirs
      let (ts, all) := writeTargets uses rest
      (targetTemplate target branches :: ts, all)

/-- The template for elements where no directive is for all classes. -/
def xsltdefault : Template Condition :=
  ⟨none, none, [.chars "    ".toList,
    .copy [.chars "\n      ".toList, .copyAttributes, .chars "\n      ".toList,
      .apply .content none, .chars "\n    ".toList],
    .chars "\n  ".toList]⟩

/-- Directives for all classes are for every target. -/
def withAny (targets : Targets) : Targets :=
  let wild := (targets.lookup "*".toList).getD []
  targets.map fun j => if j.1 = "*".toList then j else (j.1, j.2 ++ wild)

/-- The templates of a stylesheet: whether there are directives for all classes, those of the
    targets, and those of the uses. -/
structure Sheet where
  any : Bool
  targets : List (Template Condition)
  callers : List (Template Condition)

def Sheet.templates (s : Sheet) : List (Template Condition) :=
  (if s.any then [] else [xsltdefault]) ++ s.targets ++ s.callers

/-- The targets that templates are written for, each with its own directives and those for all
    classes. -/
def writtenTargets (root : List Entry) : Targets :=
  if root.any fun i => GetTarget i.2 = "*".toList then withAny (targetsOf root) else targetsOf root

/-- The templates of the targets and the uses of rules in them. -/
def writeRoot (root : List Entry) : List (Template Condition) × List Entry :=
  writeTargets [] (writtenTargets root)

def WriteXslt (root : List Entry) : Option Sheet :=
  (WriteCaller 0 (writeRoot root).2).map fun callers =>
    ⟨root.any fun i => GetTarget i.2 = "*".toList, (writeRoot root).1, callers⟩

end Writing

section Printing

def selectText : Select → Text
  | .here => ".".toList
  | .content => "node()".toList
  | .fragment name => "exslt:node-set($".toList ++ name ++ [')']

def valueText : Given → Text
  | .string s => ['\''] ++ s ++ ['\'']
  | .expression s => s

def paramText (p : Text × Given) : Text :=
  "        <xsl:with-param name=\"".toList ++ p.1 ++ "\" select=\"".toList ++ valueText p.2 ++
    "\" />\n".toList

def conditionText : Condition → Text
  | none => "true()".toList
  | some name => "preceding-sibling::*[1]/SgPragma/@pragma = '".toList ++ name ++ ['\'']

mutual

def instrText : Instr Condition → Text
  | .chars s => s
  | .copy body => "<xsl:copy>".toList ++ bodyText body ++ "</xsl:copy>".toList
  | .copyAttributes => "<xsl:copy-of select=\"@*\" />".toList
  | .apply _ none => "<xsl:apply-templates />".toList
  | .apply select (some mode) => "<xsl:apply-templates mode=\"".toList ++ mode ++
      "\" select=\"".toList ++ selectText select ++ "\" />".toList
  | .applyWith mode params => "<xsl:apply-templates select=\".\" mode=\"".toList ++ mode ++
      "\">\n".toList ++ params.flatMap paramText ++ "    </xsl:apply-templates>".toList
  | .variable name body => "<xsl:variable name=\"".toList ++ name ++ "\">".toList ++
      bodyText body ++ "</xsl:variable>".toList
  | .choose branches => "<xsl:choose>\n".toList ++ branchesText branches ++
      "    </xsl:choose>".toList

def bodyText : List (Instr Condition) → Text
  | [] => []
  | i :: is => instrText i ++ bodyText is

def branchesText : Branches Condition → Text
  | .when test body rest => "      <xsl:when test=\"".toList ++ conditionText test ++
      "\">".toList ++ bodyText body ++ "</xsl:when>\n".toList ++ branchesText rest
  | .otherwise body => "      <xsl:otherwise>".toList ++ bodyText body ++
      "</xsl:otherwise>\n".toList

end

def templateText (t : Template Condition) : Text :=
  "  <xsl:template match=\"".toList ++ t.name.getD "*".toList ++ ['"'] ++
    (t.mode.elim [] fun mode => " mode=\"".toList ++ mode ++ ['"']) ++ ['>'] ++ bodyText t.body ++
    "</xsl:template>\n".toList

def xsltheader : Text :=
  ("<?xml version=\"1.0\" encoding=\"UTF-8\"?>\n" ++ "  <xsl:stylesheet version=\"1.0\"\n" ++
    "    xmlns:xsl=\"http://www.w3.org/1999/XSL/Transform\"" ++
    " xmlns:exslt=\"http://exslt.org/common\">\n" ++ "  <xsl:import href=\"libCHiLL.xsl\" />\n" ++
    "  <xsl:output method=\"xml\" encoding=\"UTF-8\" />\n" ++
    "  <xsl:template match=\"/\" \n>    <xsl:apply-templates/>\n  </xsl:template\n>").toList

/-- The template for all elements is printed with its tags closed on lines of their own. -/
def defaultText : Text :=
  "  <xsl:template match=\"*\" \n>".toList ++ bodyText xsltdefault.body ++
    "</xsl:template\n>".toList

/-- What the tool prints. -/
def Sheet.text (s : Sheet) : Text :=
  xsltheader ++ (if s.any then [] else defaultText) ++ s.targets.flatMap templateText ++
    s.callers.flatMap templateText ++ "\n</xsl:stylesheet>\n".toList

end Printing

end XevXml.Xsltgen
