import XevXml.Tools.Pragma
import XevXml.Core.XPath

/-!
# The Flags of Contexts

A generated template carries a string with one character for every context, which is `t`
where the context holds and `f` where it does not. A directive that sets its context, and
clears those that it cancels, is a string of the same length with an `x` for every context
that stays as it is. What the template hands on is written as an expression of XPath from
that string.

## Main definitions

* `set_context_string`: What a directive does to the contexts.
* `write_context_param`: The parameters that are handed on.
* `write_context_test`: The test of contexts, behind a test that stands there already.
-/

namespace XevXml.Tools.Tgen

/-- The value of an attribute, if there is one. -/
def getAttr (x : Cell) (name : String) : Option Text := (x.attrs.lookup name).join

/-- A context that has been defined. -/
structure CtxDef where
  id : Nat
  name : Option Text
deriving DecidableEq

/-- The last definition of a context with a name. The list has the last one first. -/
def lookup_context (ctxlist : List CtxDef) (name : Option Text) : Option CtxDef :=
  ctxlist.find? fun ct => ct.name == name

/-- A name as it is printed. -/
def printed (name : Option Text) : String := String.ofList (name.getD "(null)".toList)

section Setting

/-- Clears the contexts that are named. -/
def cancel (num_contexts : Nat) (ctxlist : List CtxDef) (ctx_s : Text) (l : List Cell) : Run Text :=
  l.foldlM (fun ctx_s x =>
    match lookup_context ctxlist (getAttr x "name") with
    | none => .error (.exit ("xevtgen: canceling unknown context " ++ printed (getAttr x "name")))
    | some ct =>
        if ct.id < num_contexts then .ok (ctx_s.set ct.id 'f') else .error .assertion) ctx_s

/-- What a directive with a context does. `cl` are its clauses. -/
def set_context_string (num_contexts : Nat) (ctxlist : List CtxDef) (ctx_id : Nat)
    (cl : List Cell) :
    Run Text :=
  if ctx_id < num_contexts then
    cl.foldlM (fun ctx_s x =>
      if getAttr x "name" = some "cancel".toList then cancel num_contexts ctxlist ctx_s x.children
      else .ok ctx_s) ((List.replicate num_contexts 'x').set ctx_id 't')
  else .error .assertion

end Setting

section Param

/-- A part of the string of contexts. -/
def contextPart (start length : Nat) : Text :=
  "substring($xevtgencontext, ".toList ++ Numeral.printNat start ++ [',', ' '] ++
    Numeral.printNat length ++ [')']

/-- A character in quotes. -/
def quotedChar (c : Char) : Text := ['\'', c, '\'']

/-- What is written for the contexts from `i` on, where `prev` has been written last. -/
def writeFlags (num_contexts i : Nat) (prev : Option Nat) : Text → Text
  | [] =>
      if num_contexts > 1 then
        if prev.map (· + 1) = some num_contexts then [')']
        else [',', ' '] ++ contextPart ((prev.map (· + 2)).getD 1) num_contexts ++ [')']
      else []
  | c :: ctx_s =>
      if c ≠ 'x' then
        let t :=
          if num_contexts = 1 then quotedChar c
          else
            match prev with
            | none =>
                if i = 0 then "concat(".toList ++ quotedChar c
                else "concat(".toList ++ contextPart 1 i ++ [',', ' '] ++ quotedChar c
            | some prev =>
                if prev + 1 = i then [',', ' '] ++ quotedChar 't'
                else [',', ' '] ++ contextPart (prev + 2) i ++ [',', ' '] ++ quotedChar c
        t ++ writeFlags num_contexts (i + 1) (some i) ctx_s
      else writeFlags num_contexts (i + 1) prev ctx_s

/-- A parameter with its value. -/
def withParam (name select : Text) : Text :=
  "          <xsl:with-param name=\"".toList ++ name ++ "\" select=\"".toList ++ select ++
    "\"/>\n".toList

/-- The parameters that are handed on: the contexts, and behind how many of them the siblings
    have been looked at. -/
def write_context_param (num_contexts : Nat) (ctx_s : Option Text) (dif : Nat) : Run Text :=
  let context :=
    match ctx_s with
    | none => "$xevtgencontext".toList
    | some ctx_s => writeFlags num_contexts 0 none ctx_s
  let line := withParam "xevtgencontext".toList context
  match ctx_s with
  | some ctx_s =>
      if dif = 0 then
        let ctx_id := ctx_s.idxOf 't'
        if ctx_id < ctx_s.length then
          .ok (line ++ withParam "xevtgensibling".toList (Numeral.printNat (ctx_id + 1)))
        else .error .assertion
      else .ok (line ++ withParam "xevtgensibling".toList ['0'])
  | none => .ok (line ++ withParam "xevtgensibling".toList ['0'])

end Param

section Test

/-- How a test is joined to the ones in front of it. -/
def joint (stat : Bool) : Text := if stat then " or ".toList else " and ".toList

mutual

/-- The test of one context, or of several that a word joins. -/
def Cell.contextTest (ctxlist : List CtxDef) (stat : Bool) : Cell → Run Text
  | .mk type name attrs pretext posttext cs =>
      let ctx := Cell.mk type name attrs pretext posttext cs
      if getAttr ctx "name" = some "and".toList then do
        let t ← write_context_test ctxlist false cs
        .ok (joint stat ++ "(boolean(1)".toList ++ t ++ [')'])
      else if getAttr ctx "name" = some "or".toList then do
        let t ← write_context_test ctxlist true cs
        .ok (joint stat ++ "(boolean(0)".toList ++ t ++ [')'])
      else if getAttr ctx "name" = some "not".toList then do
        let t ← write_context_test ctxlist false cs
        .ok (joint stat ++ "not(boolean(1)".toList ++ t ++ [')'])
      else
        match lookup_context ctxlist (getAttr ctx "name") with
        | none => .error (.exit ("context " ++ printed (getAttr ctx "name") ++ " is not defined"))
        | some ct => .ok (joint stat ++ contextPart (ct.id + 1) 1 ++ " = 't'".toList)

/-- The test of contexts, one behind the other. `stat` says that they are joined with `or`. -/
def write_context_test (ctxlist : List CtxDef) (stat : Bool) : List Cell → Run Text
  | [] => .ok []
  | ctx :: rest => do
      let t ← Cell.contextTest ctxlist stat ctx
      let ts ← write_context_test ctxlist stat rest
      .ok (t ++ ts)

end

end Test

end XevXml.Tools.Tgen
