import XevXml.Core.Location
import XevXml.Tools.Tgen.Context
import XevXml.Tools.Tgen.Varformat

/-!
# Patterns of Templates

The source of a transformation is a list of siblings with variables in it. `write_match_pattern`
writes one test after the other for it. Every test leads from the first sibling to the element
that it is about with a path of positions, which is kept on a stack: the position of a sibling,
and in front of it the position in the parent, and so on. A variable is tested by its condition
alone, unless it has to be there at all. Any other node is tested by its name, its attributes
and the numbers of its attributes and of its children, and then its children are tested.

The attributes and elements that the configuration ignores are left out of both numbers, but
the positions are those of all elements.

A condition is looked up by its name, and has a pattern of its own, in which there can be
variables with conditions. Nothing stops a condition from being used in itself, so there is a
bound on how deep they are. What the variables of conditions are bound to is left out, and the
condition `same`, which the tool warns of, is left out too.

## Main definitions

* `TgenVar`, `CondCell`, `Tables`: Variables, conditions, and what the tool knows.
* `new_tgenvar`, `lookup_tgenvar`: The list of variables.
* `is_tgenvar_node`, `is_tgenvar_attr`, `is_ignore_attr`, `is_ignored_node`: What a node is.
* `write_patstack`, `count_sibling`: The path of a node, and the number of siblings.
* `write_match_pattern`: The tests of a pattern.
* `write_match_condition`: The step of a condition.
-/

namespace XevXml.Tools.Tgen

open Location

section Variables

/-- A variable that a directive has declared. -/
structure TgenVar where
  name : Text
  type : VarType
  list : Bool
  norec : Bool
  id : Nat
  callmode : Option Text
  callparam : List Cell
  cond : Option Cell
  operate : Option Cell
  single : list = true → type ≠ .name ∧ type ≠ .value

/-- The variable with a name. The list has the last one first. -/
def lookup_tgenvar (varlist : List TgenVar) (name : Option Text) : Option TgenVar :=
  varlist.find? fun tv => some tv.name == name

/-- What a directive gives for a variable. -/
structure Declared where
  type : Option VarType
  list : Bool
  norec : Bool
  callmode : Option Text
  callparam : List Cell
  cond : Option Cell
  operate : Option Cell

/-- Declares a variable. An alias has the number, the condition and the operation of the
    variable that it is an alias of. -/
def new_tgenvar (varlist : List TgenVar) (var_cnt : Nat) (name : Text) (d : Declared)
    (original : Option Text) : Run (List TgenVar × Nat) :=
  match d.type with
  | none => .error (.exit ("xevtgen: variable " ++ String.ofList name ++ " type unspecified"))
  | some type =>
      if h : d.list = true ∧ (type = .name ∨ type = .value) then
        .error (.exit ("xevtgen: name or value variable " ++ String.ofList name ++
          " cannot be a list"))
      else if d.operate.isSome ∧ type ≠ .name ∧ type ≠ .value then
        .error (.exit ("xevtgen: operation on non-name non-value variable " ++ String.ofList name))
      else
        have single : d.list = true → type ≠ .name ∧ type ≠ .value := fun hl =>
          not_or.mp fun ht => h ⟨hl, ht⟩
        match original with
        | none =>
            .ok (⟨name, type, d.list, d.norec, var_cnt, d.callmode, d.callparam, d.cond, d.operate,
              single⟩ :: varlist, var_cnt + 1)
        | some original =>
            if d.cond.isSome ∨ d.operate.isSome then
              .error (.exit ("xevtgen: alias " ++ String.ofList name ++
                " cannot have condition/operate"))
            else
              match lookup_tgenvar varlist (some original) with
              | none =>
                  .error (.exit ("xevtgen: alias of undefined variable " ++ String.ofList original))
              | some t =>
                  if t.type = type ∧ t.list = d.list ∧ t.operate = none then
                    .ok (⟨name, type, d.list, d.norec, t.id, d.callmode, d.callparam, t.cond,
                      t.operate, single⟩ :: varlist, var_cnt)
                  else .error (.exit ("xevtgen: alias " ++ String.ofList name ++ " type mismatch"))

/-- What is looked for by a condition. -/
inductive CondType
  | contains
  | is
  | listwith
deriving DecidableEq

/-- A condition has a pattern, or a name or a value in one. -/
inductive NameValue
  | pattern
  | name
  | value
deriving DecidableEq

/-- A condition that a directive has defined. -/
structure CondCell where
  name : Option Text
  type : CondType
  namevalue : NameValue
  pattern : List Cell

/-- The condition with a name. The list has the last one first. -/
def lookup_condition (condlist : List CondCell) (name : Option Text) : Option CondCell :=
  condlist.find? fun cc => cc.name == name

/-- What the tool knows: the configuration, the variables and the conditions. The configuration
    lists no attribute and no ignored element twice. -/
structure Tables where
  vflist : List VarForm
  varlist : List TgenVar
  condlist : List CondCell
  attributes_named : ∀ vf ∈ vflist, vf.form.name = "attribute" →
    (getAttr vf.form "name").isSome = true
  attributes_nodup : ((vflist.filter fun vf => vf.form.name == "attribute").map fun vf =>
    getAttr vf.form "name").Nodup
  nodes_nodup : ((vflist.filter fun vf => vf.type == .ignore && vf.form.name != "attribute").map
    fun vf => vf.form.name).Nodup

end Variables

variable (tb : Tables)

section Kinds

/-- The variable that a node stands for. -/
def is_tgenvar_node (x : Cell) : Run (Option TgenVar) :=
  match check_varformat tb.vflist x with
  | none => .ok none
  | some (ftype, name) =>
      match lookup_tgenvar tb.varlist (some name) with
      | none => .ok none
      | some tv =>
          if tv.type = .name ∨ tv.type = .value then .ok none
          else if tv.type = ftype then .ok (some tv)
          else .error (.exit ("xevtgen: variable " ++ String.ofList name ++ " type mismatch"))

/-- Whether an attribute can hold the name of a variable, and of what kind. -/
def is_tgenvar_attr (name : String) : Option VarType :=
  (tb.vflist.find? fun vt => getAttr vt.form "name" == some name.toList).bind fun vt =>
    if vt.type = .name ∨ vt.type = .value then some vt.type else none

/-- Whether an attribute is ignored. -/
def is_ignore_attr (name : String) : Bool :=
  ((tb.vflist.find? fun vt =>
    vt.form.name == "attribute" && getAttr vt.form "name" == some name.toList).map fun vt =>
      vt.type) == some .ignore

/-- Whether an element is ignored. -/
def is_ignored_node (name : String) : Bool :=
  tb.vflist.any fun vt => vt.form.name == name && vt.type == .ignore

/-- The number of siblings, and `-1 - c` if the variable behind `c` of them is a list. -/
def count_sibling (c : Nat) : List Cell → Run Int
  | [] => .ok c
  | x :: xs => do
      match ← is_tgenvar_node tb x with
      | some tv =>
          if tv.list then .ok (-1 - c)
          else count_sibling (if is_ignored_node tb x.name then c else c + 1) xs
      | none => count_sibling (if is_ignored_node tb x.name then c else c + 1) xs

end Kinds

section Paths

/-- The path to the node on top of the stack. -/
def write_patstack (following_list : Bool) : List Int → List Step
  | [] => []
  | [cnt] =>
      if 1 < cnt then [Axis.followingSibling.at (cnt - 1)]
      else if cnt < 1 ∧ following_list = false then [Axis.precedingSibling.at (1 - cnt)]
      else []
  | cnt :: below :: ps => write_patstack following_list (below :: ps) ++ [Axis.child.at cnt]

/-- The element that a path has led to, if it has the right name. -/
def here (test : NameTest) : Step := .mk .self test []

end Paths

section Conditions

variable (named : Option Text → Run Step) (path : List Step) (list : Bool)

/-- What is written for a condition that has a name. For a list, one of its elements meets it. -/
def writeNamed (condname : Option Text) : Run Test := do
  let step ← named condname
  if list then
    .ok (.paren (.disj [.nonempty (path ++ [step]),
      .nonempty (path ++ [.mk .followingSibling .any [], step])]))
  else .ok (.nonempty (path ++ [step]))

/-- What joins the children of a condition. -/
inductive Connective
  | or
  | and
  | not
  | named

def connective (condname : Option Text) : Connective :=
  if condname = some "or".toList then .or
  else if condname = some "and".toList then .and
  else if condname = some "not".toList then .not
  else .named

mutual

/-- What is written for a condition. -/
def write_match_condition_exp : Cell → Run Test
  | .mk type name attrs pretext posttext cs =>
      let condname := getAttr (.mk type name attrs pretext posttext cs) "name"
      match connective condname with
      | .or => do
          let ts ← writeConditions cs
          .ok (.paren (.disj ts))
      | .and => do
          let ts ← writeConditions cs
          .ok (.paren (.conj ts))
      | .not => do
          let t ← writeFirst cs
          .ok (.neg t)
      | .named => writeNamed named path list condname

/-- What is written for all of them. -/
def writeConditions : List Cell → Run (List Test)
  | [] => .ok []
  | c :: cs => do
      let t ← write_match_condition_exp c
      let ts ← writeConditions cs
      .ok (t :: ts)

/-- What is written for the first one. -/
def writeFirst : List Cell → Run Test
  | [] => .error (.exit "xml_getstr(a=name): null xml")
  | c :: _ => write_match_condition_exp c

end

end Conditions

section Patterns

/-- Where the tool finds what a variable stands for: at the end of a path, with all that follow
    if it is a list, or in an attribute. -/
structure VarPattern where
  path : List Step
  list : Bool
  attr : Option String

/-- The place of a variable, and how deep it is. -/
structure Registered where
  id : Nat
  pat : VarPattern
  diff : Nat

/-- What has been written for a pattern. -/
structure Emitted where
  tests : List Test
  registered : List Registered

/-- What is written one behind the other. -/
def Emitted.append (w v : Emitted) : Emitted :=
  ⟨w.tests ++ v.tests, w.registered ++ v.registered⟩

def Emitted.nothing : Emitted := ⟨[], []⟩

variable (named : Option Text → Run Step) (following_list : Bool)

/-- A variable that is found in a pattern. It is tested if it has a condition. -/
def writeVariable (patstack : List Int) (diff : Nat) (attr : Option String) (tv : TgenVar) :
    Run Emitted :=
  let path := write_patstack following_list patstack
  if tv.operate.isSome then
    .error (.exit ("xevtgen: variable " ++ String.ofList tv.name ++
      " in source should not have operation"))
  else
    match tv.cond with
    | none => .ok ⟨[], [⟨tv.id, ⟨path, tv.list, attr⟩, diff⟩]⟩
    | some cond => do
        let t ← write_match_condition_exp named path tv.list cond
        .ok ⟨[t], [⟨tv.id, ⟨path, tv.list, attr⟩, diff⟩]⟩

/-- The variable in an attribute. -/
def variableOf (a : String × Option Text) : Option TgenVar :=
  (is_tgenvar_attr tb a.1).bind fun ftype =>
    (lookup_tgenvar tb.varlist a.2).filter fun tv => tv.type = ftype

/-- The variables in attributes. -/
def writeAttributes (patstack : List Int) (diff : Nat) :
    List (String × Option Text) → Run Emitted
  | [] => .ok .nothing
  | a :: attrs => do
      let w ← ((variableOf tb a).map fun tv =>
        writeVariable named following_list patstack diff (some a.1) tv).getD (.ok .nothing)
      let v ← writeAttributes patstack diff attrs
      .ok (w.append v)

/-- Whether the value of an attribute is not tested. -/
def isOpen (x : Cell) (a : String × Option Text) : Bool :=
  (a.1 == "string" && x.name == "SgIntVal" &&
    (lookup_tgenvar tb.varlist (getAttr x "value")).isSome) ||
  ((is_tgenvar_attr tb a.1).isSome && (lookup_tgenvar tb.varlist a.2).isSome)

/-- A value as it is printed. -/
def printedValue (value : Option Text) : Text := value.getD "(null)".toList

/-- The test of an attribute. -/
def attributeTest (path : List Step) (x : Cell) (a : String × Option Text) : Test :=
  if isOpen tb x a then .attribute path a.1 else .equals path a.1 .double (printedValue a.2)

/-- The attributes that the configuration ignores. -/
def ignoredAttributes : List String :=
  (tb.vflist.filter fun vf => vf.type == .ignore && vf.form.name == "attribute").map fun vf =>
    printed (getAttr vf.form "name")

/-- The elements that it ignores. -/
def ignoredNodes : List String :=
  (tb.vflist.filter fun vf => vf.type == .ignore && vf.form.name != "attribute").map fun vf =>
    vf.form.name

/-- The tests of a node that is no variable, without those of its children. -/
def nodeTests (path : List Step) (x : Cell) (c : Int) : List Test :=
  let attrs := x.attrs.filter fun a => !is_ignore_attr tb a.1
  .elements (path ++ [here (.named x.name)]) :: attrs.map (attributeTest tb path x) ++
    [.counts path (.attributes .any)
        ((ignoredAttributes tb).map fun n => .attributes (.named n)) .equal attrs.length,
      .counts path (.children .any) ((ignoredNodes tb).map fun n => .children (.named n))
        (if c < 0 then .atLeast else .equal) (if c < 0 then -c - 1 else c).toNat]

mutual

/-- The tests of a node, and whether it is a list. -/
def writeNode (patstack : List Int) (cnt : Int) (diff : Nat) : Cell → Run (Emitted × Bool)
  | .mk type name attrs pretext posttext cs => do
      let x := Cell.mk type name attrs pretext posttext cs
      let path := write_patstack following_list (cnt :: patstack)
      if type ≠ .node then .error (.exit "xevtgen: nodetype not implemented")
      else
        let w ← writeAttributes tb named following_list (cnt :: patstack) diff attrs
        match ← is_tgenvar_node tb x with
        | some tv => do
            let v ← writeVariable named following_list (cnt :: patstack) diff none tv
            let there := if tv.list then [] else [Test.elements (path ++ [here .any])]
            .ok ((w.append v).append ⟨there, []⟩, tv.list)
        | none => do
            let c ← count_sibling tb 0 cs
            let v ← write_match_pattern (cnt :: patstack) 1 (diff + 1) cs
            .ok ((w.append ⟨nodeTests tb path x c, []⟩).append v, false)

/-- The tests of a pattern. -/
def write_match_pattern (patstack : List Int) (cnt : Int) (diff : Nat) : List Cell → Run Emitted
  | [] => .ok .nothing
  | x :: xs => do
      let (w, list) ← writeNode patstack cnt diff x
      if list ∧ xs ≠ [] then .error (.exit "xevtgen: list variable should be the last element")
      else
        let v ← write_match_pattern patstack (cnt + 1) diff xs
        .ok (w.append v)

end

end Patterns

section Condition

/-- The name or the value in a pattern. -/
def get_namevalue (x : Cell) : Run (Option Text) :=
  x.attrs.foldlM (fun varname a =>
    if (is_tgenvar_attr tb a.1).isSome then
      if varname.isSome then .error (.exit "xevtgen: ambiguous name/value") else .ok a.2
    else .ok varname) none

/-- The tests for a name or a value: an attribute for it has that value. -/
def namevalueTests (type : VarType) (pattern : List Cell) : Run (List Test) :=
  match pattern with
  | [] => .error .undefined
  | x :: _ => do
      match ← get_namevalue tb x with
      | none => .error (.exit "xevtgen: cond name not specified")
      | some varname =>
          .ok [.disj ((tb.vflist.filter fun vt => vt.type = type).map fun vt =>
            .equals [] (printed (getAttr vt.form "name")) .single varname)]

/-- What stands in the brackets behind the step of a condition. -/
def conditionTests (write : List Cell → Run Emitted) (cc : CondCell) : Run (List Test) :=
  match cc.namevalue with
  | .pattern => do
      let w ← write cc.pattern
      .ok w.tests
  | .name => namevalueTests tb .name cc.pattern
  | .value => namevalueTests tb .value cc.pattern

/-- The step of a condition. -/
def conditionStep : CondType → List Test → Step
  | .contains, ts => .mk .descendantOrSelf .any (ts.map .test)
  | .is, ts => .mk .self .any (ts.map .test)
  | .listwith, ts =>
      .mk .self .any (.test (.either [.mk .followingSibling .any []] [here .any]) ::
        ts.map .test)

/-- What is written for a condition, down to some depth. -/
def write_match_condition (following_list : Bool) : Nat → Option Text → Run Step
  | 0, _ => .error .bound
  | depth + 1, condname =>
      match lookup_condition tb.condlist condname with
      | none => .error (.exit ("xevtgen: condition " ++ printed condname ++ " is not defined"))
      | some cc => do
          let ts ← conditionTests tb (write_match_pattern tb
            (write_match_condition following_list depth) following_list [] 1 1) cc
          .ok (conditionStep cc.type ts)

end Condition

end XevXml.Tools.Tgen
