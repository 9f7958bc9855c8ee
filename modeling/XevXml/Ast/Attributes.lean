import XevXml.Ast.Carriers
import XevXml.Ast.Mangled
import XevXml.Dom.Tag

/-!
# Attribute Writers

Every class of nodes has a function that writes the attributes of its element. Each function
puts down the text of its attributes by itself: numbers, strings between quotes, strings that
are escaped first, and names, for which the stream operator of the syntax tree puts down the
quotes. Assembly code, operand constraints, pragmas, string constants and the spelling of
literals are escaped. Nothing else is.

A string that is not escaped is delivered by the parser exactly if it is clean, so the whole tag
is delivered exactly if all such strings of the node are. Types are written in their mangled
form, which is clean if their names are.

The classes whose writer only calls the one for all statements, declarations, expressions or
types are one member here.

## Main definitions

* `Value`, `Slot`: The value of an attribute, and an attribute that may be there.
* `attribSgStatement` and its companions: The attributes of a node.
* `SgNode`: The nodes.
* `Delivered`: The parser delivers the strings of the node.
* `Value.Transportable`: A string can be delivered the way it is written.

## Theorems

* `clean_getMangledTypes_iff`: When the mangled form of a type is clean.
* `body_decodes_iff`: When a value is decoded to its string.
* `attributes_delivered_iff`: When the attributes of a node are delivered.
-/

namespace XevXml.Attributes

section Values

/-- The value of an attribute: a number, the text of a number that is not an integer, a string as
    it is, an escaped string, a name, or a type. -/
inductive Value (D E : Type)
  | number (n : Int)
  | printed (t : Text) (plain : Plain t)
  | string (s : Text)
  | entity (s : Text)
  | name (s : Text)
  | mangled (t : SgType D E)

/-- An attribute that may be there, and the white space behind it. -/
structure Slot (D E : Type) where
  name : String
  value : Option (Value D E)
  space : Text

variable {D E : Type}

/-- The string of a value. -/
def Value.wanted : Value D E → Text
  | .number n => Numeral.printInt n
  | .printed t _ => t
  | .string s => s
  | .entity s => s
  | .name s => s
  | .mangled t => getMangledTypes t

/-- What is written for a value between the quotes. -/
def Value.body : Value D E → Text
  | .entity s => xmlStr2Entity s
  | v => v.wanted

/-- What is written for a value. The quotes of a name come from the stream operator of names. -/
def Value.quoted (insertName : Text → Text) : Value D E → Text
  | .name s => insertName s
  | v => '"' :: (v.body ++ ['"'])

/-- What is written for an attribute. -/
def Slot.text (insertName : Text → Text) (a : Slot D E) : Text :=
  match a.value with
  | none => []
  | some v => ' ' :: a.name.toList ++ '=' :: v.quoted insertName ++ a.space

/-- A flag as a number. -/
def flagValue (b : Bool) : Value D E := .number (if b then 1 else 0)

/-- The number one if a flag is set. -/
def ifSet (b : Bool) : Option (Value D E) := if b then some (.number 1) else none

/-- A string if it is not empty. -/
def ifNonempty (s : Text) : Option (Value D E) :=
  if 0 < s.length then some (.string s) else none

/-- A number if it is not zero. -/
def ifNonzero (n : Int) : Option (Value D E) := if n ≠ 0 then some (.number n) else none

/-- A number if it is above a bound. -/
def ifAbove (bound : Int) (n : Int) : Option (Value D E) :=
  if bound < n then some (.number n) else none

/-- The number whose bits are the entries of a vector, the lowest one first. -/
def ofBits : List Bool → Nat
  | [] => 0
  | b :: vec => (if b then 1 else 0) + 2 * ofBits vec

end Values

section Statements

variable {D E : Type}

/-- What is written of every statement. -/
structure SgStatement where
  numericLabel : Option Int

/-- Attributes of all statements. -/
def attribSgStatement (n : SgStatement) : List (Slot D E) :=
  [⟨"label", n.numericLabel.map .number, [' ']⟩]

/-- What is written of every declaration. Modifiers that have their default are missing. -/
structure SgDeclarationStatement extends SgStatement where
  modifierVector : List Bool
  typeModifierVector : List Bool
  constVolatileModifier : Option Int
  gnuAttributeAlignment : Int
  inModule : Bool
  accessModifier : Int
  storageModifier : Option Int
  threadLocalStorage : Bool
  gnuAttributeVisability : Option Int
  bindingLabel : Text
  linkage : Text

/-- Attributes of all declarations. -/
def attribSgDeclarationStatement (fortran : Bool) (n : SgDeclarationStatement) :
    List (Slot D E) :=
  attribSgStatement n.toSgStatement ++
    [⟨"declaration_modifier", ifAbove 1 (ofBits n.modifierVector), [' ']⟩,
      ⟨"type_modifier", ifAbove 2 (ofBits n.typeModifierVector), [' ']⟩,
      ⟨"cv_modifier", n.constVolatileModifier.map .number, [' ']⟩,
      ⟨"alignment", ifAbove (-1) n.gnuAttributeAlignment, [' ']⟩,
      ⟨"access_modifier",
        if fortran && n.inModule then some (.number n.accessModifier) else none, [' ']⟩,
      ⟨"storage_modifier", n.storageModifier.map .number, [' ']⟩,
      ⟨"thread_local", ifSet n.threadLocalStorage, [' ']⟩,
      ⟨"visibility", n.gnuAttributeVisability.map .number, [' ']⟩,
      ⟨"bind", if fortran then ifNonempty n.bindingLabel else none, [' ', '\n']⟩,
      ⟨"link", if fortran then ifNonempty n.linkage else none, [' ', '\n']⟩]

/-- Exit and cycle statements. -/
structure SgBreakStmt extends SgStatement where
  doStringLabel : Text

def attribSgBreakStmt (n : SgBreakStmt) : List (Slot D E) :=
  [⟨"slabel", ifNonempty n.doStringLabel, []⟩] ++ attribSgStatement n.toSgStatement

def attribSgContinueStmt (n : SgBreakStmt) : List (Slot D E) :=
  [⟨"slabel", ifNonempty n.doStringLabel, []⟩] ++ attribSgStatement n.toSgStatement

/-- The options of a case construct. -/
structure SgCaseOptionStmt extends SgStatement where
  caseConstructName : Text

def attribSgCaseOptionStmt (n : SgCaseOptionStmt) : List (Slot D E) :=
  [⟨"construct", ifNonempty n.caseConstructName, [' ']⟩] ++ attribSgStatement n.toSgStatement

def attribSgDefaultOptionStmt (n : SgCaseOptionStmt) : List (Slot D E) :=
  [⟨"construct", ifNonempty n.caseConstructName, [' ']⟩] ++ attribSgStatement n.toSgStatement

structure SgClassDefinition extends SgStatement where
  isSequence : Bool
  isPrivate : Bool
  isAbstract : Bool

/-- The attributes are required for Fortran only. -/
def attribSgClassDefinition (fortran : Bool) (n : SgClassDefinition) : List (Slot D E) :=
  [⟨"sequence", if fortran then some (flagValue n.isSequence) else none, [' ']⟩,
    ⟨"private", if fortran then some (flagValue n.isPrivate) else none, [' ']⟩,
    ⟨"abstract", if fortran then some (flagValue n.isAbstract) else none, [' ']⟩] ++
    attribSgStatement n.toSgStatement

structure SgFortranDo extends SgStatement where
  oldStyle : Bool
  hasEndStatement : Bool
  endNumericLabel : Option Int
  stringLabel : Text

def attribSgFortranDo (n : SgFortranDo) : List (Slot D E) :=
  [⟨"style", some (flagValue n.oldStyle), [' ']⟩,
    ⟨"end", some (flagValue n.hasEndStatement), [' ']⟩,
    ⟨"elabel", n.endNumericLabel.map .number, [' ']⟩,
    ⟨"slabel", ifNonempty n.stringLabel, [' ']⟩] ++ attribSgStatement n.toSgStatement

structure SgGotoStatement extends SgStatement where
  label : Option Text
  labelExpression : Option Int

def attribSgGotoStatement (n : SgGotoStatement) : List (Slot D E) :=
  [⟨"slabel", n.label.map .name, []⟩, ⟨"nlabel", n.labelExpression.map .number, [' ']⟩] ++
    attribSgStatement n.toSgStatement

structure SgIfStmt extends SgStatement where
  hasEndStatement : Bool
  useThenKeyword : Bool
  endNumericLabel : Option Int
  elseNumericLabel : Option Int
  stringLabel : Text

def attribSgIfStmt (n : SgIfStmt) : List (Slot D E) :=
  [⟨"end", some (flagValue n.hasEndStatement), [' ']⟩,
    ⟨"then", some (flagValue n.useThenKeyword), [' ']⟩,
    ⟨"elabel", n.endNumericLabel.map .number, [' ']⟩,
    ⟨"ellabel", n.elseNumericLabel.map .number, [' ']⟩,
    ⟨"slabel", ifNonempty n.stringLabel, [' ']⟩] ++ attribSgStatement n.toSgStatement

structure SgLabelStatement where
  numericLabel : Option Text
  label : Text

/-- The attributes of all statements are not written for a label. -/
def attribSgLabelStatement (n : SgLabelStatement) : List (Slot D E) :=
  [⟨"nlabel", n.numericLabel.map .name, [' ']⟩,
    ⟨"slabel", if n.numericLabel.isSome then none else some (.name n.label), [' ']⟩]

structure SgStopOrPauseStatement extends SgStatement where
  stopOrPause : Int

def attribSgStopOrPauseStatement (n : SgStopOrPauseStatement) : List (Slot D E) :=
  [⟨"type", some (.number n.stopOrPause), [' ']⟩] ++ attribSgStatement n.toSgStatement

structure SgSwitchStatement extends SgStatement where
  endNumericLabel : Option Int
  stringLabel : Text

def attribSgSwitchStatement (n : SgSwitchStatement) : List (Slot D E) :=
  [⟨"elabel", n.endNumericLabel.map .number, [' ']⟩,
    ⟨"slabel", ifNonempty n.stringLabel, [' ']⟩] ++ attribSgStatement n.toSgStatement

structure SgWhereStatement extends SgStatement where
  hasEndStatement : Bool
  stringLabel : Text
  endNumericLabel : Option Int

def attribSgWhereStatement (n : SgWhereStatement) : List (Slot D E) :=
  [⟨"end", some (flagValue n.hasEndStatement), [' ']⟩,
    ⟨"slabel", ifNonempty n.stringLabel, [' ']⟩,
    ⟨"elabel", n.endNumericLabel.map .number, [' ']⟩] ++ attribSgStatement n.toSgStatement

/-- The name of a loop is written if there is no label at its end, even if there is no name. -/
def attribSgWhileStmt (fortran : Bool) (n : SgWhereStatement) : List (Slot D E) :=
  [⟨"end", if fortran then some (flagValue n.hasEndStatement) else none, [' ']⟩,
    ⟨"elabel", if fortran then n.endNumericLabel.map .number else none, [' ']⟩,
    ⟨"slabel", if fortran && n.endNumericLabel.isNone then some (.string n.stringLabel) else none,
      [' ']⟩] ++ attribSgStatement n.toSgStatement

end Statements

section Declarations

variable {D E : Type}

/-- The names of registers are numbers. -/
def attribSgAsmStmt (fortran : Bool) (n : AsmStmt) (d : SgDeclarationStatement) :
    List (Slot D E) :=
  [⟨"code", some (.entity n.assemblyCode), []⟩,
    ⟨"gnu", some (flagValue n.useGnuExtendedFormat), []⟩,
    ⟨"regs", if 0 < n.clobberRegisterList.length then
      some (.printed (commaList n.clobberRegisterList) (plain_commaList _)) else none, []⟩] ++
    attribSgDeclarationStatement fortran d

structure SgAttributeSpecificationStatement extends SgDeclarationStatement where
  attributeKind : Int
  intent : Int

def attribSgAttributeSpecificationStatement (fortran : Bool)
    (n : SgAttributeSpecificationStatement) : List (Slot D E) :=
  [⟨"kind", some (.number n.attributeKind), [' ']⟩, ⟨"intent", ifNonzero n.intent, [' ']⟩] ++
    attribSgDeclarationStatement fortran n.toSgDeclarationStatement

structure SgClassDeclaration extends SgDeclarationStatement where
  isAutonomousDeclaration : Bool
  isUnNamed : Bool
  name : Text
  classType : Int

def attribSgClassDeclaration (fortran : Bool) (n : SgClassDeclaration) : List (Slot D E) :=
  [⟨"autonomous", if n.isAutonomousDeclaration then none else some (.number 0), [' ']⟩,
    ⟨"unnamed", ifSet n.isUnNamed, [' ']⟩, ⟨"name", some (.name n.name), [' ']⟩,
    ⟨"type", some (.number n.classType), [' ']⟩] ++
    attribSgDeclarationStatement fortran n.toSgDeclarationStatement

def attribSgDerivedTypeStatement (fortran : Bool) (n : SgClassDeclaration) : List (Slot D E) :=
  attribSgClassDeclaration fortran n

def attribSgModuleStatement (fortran : Bool) (n : SgClassDeclaration) : List (Slot D E) :=
  attribSgClassDeclaration fortran n

structure SgEnumDeclaration extends SgDeclarationStatement where
  isUnNamed : Bool
  name : Text

def attribSgEnumDeclaration (fortran : Bool) (n : SgEnumDeclaration) : List (Slot D E) :=
  [⟨"unnamed", ifSet n.isUnNamed, [' ']⟩, ⟨"name", some (.name n.name), [' ']⟩] ++
    attribSgDeclarationStatement fortran n.toSgDeclarationStatement

structure SgFortranIncludeLine extends SgStatement where
  filename : Text

def attribSgFortranIncludeLine (n : SgFortranIncludeLine) : List (Slot D E) :=
  [⟨"filename", some (.string n.filename), [' ']⟩] ++ attribSgStatement n.toSgStatement

/-- Functions. An attribute of the compiler that is unspecified is missing. -/
structure SgFunctionDeclaration extends SgDeclarationStatement where
  name : Text
  definition : Bool
  namedInEndStatement : Bool
  oldStyleDefinition : Bool
  functionModifierVector : List Bool
  asmName : Text
  prototypeIsWithoutParameters : Bool
  gnuRegparmAttribute : Int
  gnuExtensionVisability : Option Int
  gnuAttributeNamedAlias : Text

def attribSgFunctionDeclaration (fortran : Bool) (n : SgFunctionDeclaration) : List (Slot D E) :=
  [⟨"name", some (.name n.name), [' ']⟩, ⟨"definition", ifSet n.definition, [' ']⟩,
    ⟨"end_name", if fortran then some (flagValue n.namedInEndStatement) else none, [' ']⟩,
    ⟨"old", if fortran then none else ifSet n.oldStyleDefinition, [' ']⟩,
    ⟨"function_modifier", ifAbove 2 (ofBits n.functionModifierVector), []⟩,
    ⟨"asm_name", ifNonempty n.asmName, []⟩,
    ⟨"no_params", ifSet n.prototypeIsWithoutParameters, []⟩,
    ⟨"regparm", ifAbove 0 n.gnuRegparmAttribute, []⟩,
    ⟨"gnu_visibility", n.gnuExtensionVisability.map .number, [' ']⟩,
    ⟨"gnu_alias", ifNonempty n.gnuAttributeNamedAlias, []⟩] ++
    attribSgDeclarationStatement fortran n.toSgDeclarationStatement

structure SgEntryStatement extends SgFunctionDeclaration where
  resultName : Option Text

def attribSgEntryStatement (fortran : Bool) (n : SgEntryStatement) : List (Slot D E) :=
  [⟨"result", n.resultName.map .name, [' ']⟩] ++
    attribSgFunctionDeclaration fortran n.toSgFunctionDeclaration

structure SgProcedureHeaderStatement extends SgFunctionDeclaration where
  subprogramKind : Int
  resultName : Text
  isPure : Bool
  isElemental : Bool
  isRecursive : Bool

/-- The name of the result is written as a string if it is not the name of the function. -/
def attribSgProcedureHeaderStatement (fortran : Bool) (n : SgProcedureHeaderStatement) :
    List (Slot D E) :=
  [⟨"kind", some (.number n.subprogramKind), [' ']⟩,
    ⟨"result", if n.resultName ≠ n.name then some (.string n.resultName) else none, [' ']⟩,
    ⟨"pure", ifSet n.isPure, []⟩, ⟨"elemental", ifSet n.isElemental, []⟩,
    ⟨"recursive", ifSet n.isRecursive, []⟩] ++
    attribSgFunctionDeclaration fortran n.toSgFunctionDeclaration

structure SgProgramHeaderStatement extends SgFunctionDeclaration where
  endNumericLabel : Option Int

def attribSgProgramHeaderStatement (fortran : Bool) (n : SgProgramHeaderStatement) :
    List (Slot D E) :=
  [⟨"elabel", n.endNumericLabel.map .number, [' ']⟩] ++
    attribSgFunctionDeclaration fortran n.toSgFunctionDeclaration

structure SgInterfaceStatement extends SgStatement where
  name : Text
  genericSpec : Int

def attribSgInterfaceStatement (n : SgInterfaceStatement) : List (Slot D E) :=
  [⟨"name", some (.name n.name), [' ']⟩, ⟨"type", some (.number n.genericSpec), [' ']⟩] ++
    attribSgStatement n.toSgStatement

structure SgTypedefDeclaration extends SgDeclarationStatement where
  name : Text
  isAssociatedWithDeclarationList : Bool

def attribSgTypedefDeclaration (fortran : Bool) (n : SgTypedefDeclaration) : List (Slot D E) :=
  [⟨"name", some (.name n.name), [' ']⟩,
    ⟨"list", ifSet n.isAssociatedWithDeclarationList, [' ']⟩] ++
    attribSgDeclarationStatement fortran n.toSgDeclarationStatement

structure SgUseStatement extends SgStatement where
  name : Text
  onlyOption : Bool

def attribSgUseStatement (n : SgUseStatement) : List (Slot D E) :=
  [⟨"name", some (.name n.name), [' ']⟩, ⟨"only", some (flagValue n.onlyOption), []⟩] ++
    attribSgStatement n.toSgStatement

structure SgVariableDeclaration extends SgDeclarationStatement where
  gnuExtensionVisability : Option Int
  gnuExtensionDeclarationAttribute : Option Int
  gnuExtensionSection : Text
  gnuExtensionAlias : Text

def attribSgVariableDeclaration (fortran : Bool) (n : SgVariableDeclaration) : List (Slot D E) :=
  [⟨"gnu_visibility", n.gnuExtensionVisability.map .number, [' ']⟩,
    ⟨"gnu_declaration", n.gnuExtensionDeclarationAttribute.map .number, [' ']⟩,
    ⟨"gnu_section", ifNonempty n.gnuExtensionSection, [' ']⟩,
    ⟨"gnu_alias", ifNonempty n.gnuExtensionAlias, [' ']⟩] ++
    attribSgDeclarationStatement fortran n.toSgDeclarationStatement

end Declarations

section Expressions

variable {D E : Type}

/-- What is written of every expression. Whether a cast is explicit is known of initializers
    only. -/
structure SgExpression (D E : Type) where
  type : Option (SgType D E)
  needParen : Bool
  isExplicitCast : Option Bool

/-- Attributes of all expressions. The default type is not written. -/
def attribSgExpression (n : SgExpression D E) : List (Slot D E) :=
  [⟨"type", n.type.bind fun t => if t.isDefault = true then none else some (.mangled t), []⟩,
    ⟨"paren", ifSet n.needParen, []⟩, ⟨"cast", n.isExplicitCast.map flagValue, []⟩]

structure SgActualArgumentExpression (D E : Type) extends SgExpression D E where
  argumentName : Text

def attribSgActualArgumentExpression (n : SgActualArgumentExpression D E) : List (Slot D E) :=
  [⟨"name", some (.name n.argumentName), [' ']⟩] ++ attribSgExpression n.toSgExpression

structure SgAggregateInitializer (D E : Type) extends SgExpression D E where
  needExplicitBraces : Bool

def attribSgAggregateInitializer (n : SgAggregateInitializer D E) : List (Slot D E) :=
  [⟨"need_brace", ifSet n.needExplicitBraces, [' ']⟩] ++ attribSgExpression n.toSgExpression

structure SgAsmOp (D E : Type) extends SgExpression D E where
  constraint : Int
  constraintString : Text
  modifiers : Int
  name : Text
  recordRawAsmOperandDescriptions : Bool
  isOutputOperand : Bool

def attribSgAsmOp (n : SgAsmOp D E) : List (Slot D E) :=
  [⟨"constraint", ifNonzero n.constraint, []⟩,
    ⟨"constraint_string",
      if 0 < n.constraintString.length then some (.entity n.constraintString) else none, []⟩,
    ⟨"modifiers", ifNonzero n.modifiers, []⟩, ⟨"name", ifNonempty n.name, []⟩,
    ⟨"record", ifSet n.recordRawAsmOperandDescriptions, []⟩,
    ⟨"output", ifSet n.isOutputOperand, []⟩] ++ attribSgExpression n.toSgExpression

structure SgCastExp (D E : Type) extends SgExpression D E where
  castType : Int
  isCompilerGenerated : Bool

def attribSgCastExp (n : SgCastExp D E) : List (Slot D E) :=
  [⟨"ctype", some (.number n.castType), [' ']⟩, ⟨"implicit", ifSet n.isCompilerGenerated, [' ']⟩] ++
    attribSgExpression n.toSgExpression

/-- Expressions with a name that is written as a string. -/
structure SgNamedExp (D E : Type) extends SgExpression D E where
  name : Text

def attribSgCompoundLiteralExp (n : SgNamedExp D E) : List (Slot D E) :=
  [⟨"symbol", some (.string n.name), [' ']⟩] ++ attribSgExpression n.toSgExpression

def attribSgUserDefinedBinaryOp (n : SgNamedExp D E) : List (Slot D E) :=
  [⟨"name", some (.string n.name), [' ']⟩] ++ attribSgExpression n.toSgExpression

def attribSgUserDefinedUnaryOp (n : SgNamedExp D E) : List (Slot D E) :=
  [⟨"name", some (.string n.name), [' ']⟩] ++ attribSgExpression n.toSgExpression

def attribSgVarRefExp (n : SgNamedExp D E) : List (Slot D E) :=
  [⟨"name", some (.name n.name), []⟩] ++ attribSgExpression n.toSgExpression

structure SgConstructorInitializer (D E : Type) extends SgExpression D E where
  needName : Bool
  needQualifier : Bool
  needParenthesisAfterName : Bool
  associatedClassUnknown : Bool

def attribSgConstructorInitializer (n : SgConstructorInitializer D E) : List (Slot D E) :=
  [⟨"name", some (flagValue n.needName), [' ']⟩, ⟨"qual", some (flagValue n.needQualifier), [' ']⟩,
    ⟨"paren_after_name", some (flagValue n.needParenthesisAfterName), [' ']⟩,
    ⟨"unknown", some (flagValue n.associatedClassUnknown), [' ']⟩] ++
    attribSgExpression n.toSgExpression

/-- A function, with the kind of the procedure unless it is a function subprogram. -/
structure SgFunctionRefExp (D E : Type) extends SgExpression D E where
  name : Text
  subprogramKind : Option Int

def attribSgFunctionRefExp (n : SgFunctionRefExp D E) : List (Slot D E) :=
  [⟨"name", some (.name n.name), []⟩, ⟨"kind", n.subprogramKind.map .number, []⟩] ++
    attribSgExpression n.toSgExpression

/-- The value of a label: a number, or the arguments of the function for an alternate return, each
    with whether it is a label and whether it is the one that is meant. -/
inductive LabelValue
  | numeric (v : Int)
  | alternativeReturn (args : List (Bool × Bool))

/-- The number of the label that is meant among those in the arguments. -/
def labelCounter (counter : Nat) : List (Bool × Bool) → Option Nat
  | [] => none
  | (isLabel, isMeant) :: args =>
      if isLabel then
        if isMeant then some (counter + 1) else labelCounter (counter + 1) args
      else labelCounter counter args

structure SgLabelRefExp (D E : Type) extends SgExpression D E where
  labelType : Int
  label : LabelValue

def attribSgLabelRefExp (n : SgLabelRefExp D E) : List (Slot D E) :=
  [⟨"ltype", some (.number n.labelType), [' ']⟩,
    ⟨"nlabel",
      match n.label with
      | .numeric v => some (.number v)
      | .alternativeReturn args => (labelCounter 0 args).map fun k => .number k, [' ']⟩] ++
    attribSgExpression n.toSgExpression

structure SgUnaryOp (D E : Type) extends SgExpression D E where
  mode : Int

/-- Attributes of the operators that may stand on either side of their operand. -/
def attribSgUnaryOp (n : SgUnaryOp D E) : List (Slot D E) :=
  [⟨"mode", some (.number n.mode), [' ']⟩] ++ attribSgExpression n.toSgExpression

def attribSgEnumVal (value : Int) (name enum : Text) : List (Slot D E) :=
  [⟨"value", some (.number value), [' ']⟩, ⟨"name", some (.name name), [' ']⟩,
    ⟨"enum", some (.name enum), [' ']⟩]

def attribSgStringVal (n : StringVal) : List (Slot D E) :=
  [⟨"value", some (.entity n.value), [' ']⟩, ⟨"single", ifSet n.usesSingleQuotes, [' ']⟩,
    ⟨"wchar", ifSet n.wcharString, [' ']⟩, ⟨"string16", ifSet n.is16bitString, [' ']⟩,
    ⟨"string32", ifSet n.is32bitString, [' ']⟩]

/-- Attributes of a numeric literal: its spelling, or else its printed value. -/
def attribSgVal {V : Type} (io : StreamType V) (n : NumVal V) : List (Slot D E) :=
  let unparsedString := io.tostring n.value
  [⟨"value",
    if 0 < n.valueString.length ∧ n.valueString ≠ unparsedString then some (.entity n.valueString)
    else some (.printed unparsedString (io.plain n.value)), [' ']⟩]

/-- Attributes of a logical or character constant. -/
def attribSgIntegralVal (value : Int) : List (Slot D E) :=
  [⟨"value", some (.number value), [' ']⟩]

end Expressions

section Support

variable {D E : Type}

def attribSgDataStatementValue (dataInitializationFormat : Int) : List (Slot D E) :=
  [⟨"fmt", some (.number dataInitializationFormat), [' ']⟩]

/-- An item of a format: whether its data uses single and double quotes, if it is a string. -/
structure SgFormatItem where
  data : Option (Bool × Bool)
  formatItemList : Bool
  repeatSpecification : Int

def attribSgFormatItem (n : SgFormatItem) : List (Slot D E) :=
  [⟨"single", ifSet (n.data.any Prod.fst), [' ']⟩, ⟨"double", ifSet (n.data.any Prod.snd), [' ']⟩,
    ⟨"list", ifSet n.formatItemList, [' ']⟩, ⟨"repeat", ifNonzero n.repeatSpecification, [' ']⟩]

/-- The names of a group, with commas between them. -/
def joinNames (names : List Text) : Text := List.intercalate [','] names

structure SgNameGroup where
  groupName : Text
  nameList : List Text

def attribSgNameGroup (n : SgNameGroup) : List (Slot D E) :=
  [⟨"group", some (.string n.groupName), [' ']⟩,
    ⟨"names", if 0 < n.nameList.length then some (.string (joinNames n.nameList)) else none,
      [' ']⟩]

def attribSgPragma (pragma : Text) : List (Slot D E) := [⟨"pragma", some (.entity pragma), [' ']⟩]

/-- The version of the program and of the format. -/
def xevxmlVersion : Text := ['1', '.', '1', '.', '1']

structure SgSourceFile where
  sourceFileNameWithoutPath : Text
  outputLanguage : Int
  outputFormat : Int

def attribSgSourceFile (n : SgSourceFile) : List (Slot D E) :=
  [⟨"file", some (.string n.sourceFileNameWithoutPath), []⟩,
    ⟨"lang", some (.number n.outputLanguage), []⟩, ⟨"ofmt", some (.number n.outputFormat), []⟩,
    ⟨"version", some (.string xevxmlVersion), []⟩, ⟨"format", some (.string xevxmlVersion), []⟩]

def attribSgCommonBlockObject (blockName : Text) : List (Slot D E) :=
  [⟨"name", some (.string blockName), [' ']⟩]

/-- A declared name. The previous declaration is written for a pointer of the vendor extension. -/
structure SgInitializedName where
  name : Text
  prevDeclItem : Option Text
  storageModifier : Option Int
  hasArrayTypeWithEmptyBracketSyntax : Bool
  gnuAttributeAlignment : Int
  gnuAttributeModifierVector : List Bool

def attribSgInitializedName (n : SgInitializedName) : List (Slot D E) :=
  [⟨"name", some (.name n.name), [' ']⟩, ⟨"prev", n.prevDeclItem.map .name, [' ']⟩,
    ⟨"storage_modifier", n.storageModifier.map .number, [' ']⟩,
    ⟨"empty_bracket", ifSet n.hasArrayTypeWithEmptyBracketSyntax, [' ']⟩,
    ⟨"alignment", ifAbove (-1) n.gnuAttributeAlignment, [' ']⟩,
    ⟨"gnu_attrib", ifNonzero (ofBits n.gnuAttributeModifierVector), [' ']⟩]

/-- The name of the function of an interface, if it is used. -/
def attribSgInterfaceBody (functionName : Option Text) : List (Slot D E) :=
  [⟨"name", functionName.map .name, [' ']⟩]

def attribSgRenamePair (localName useName : Text) : List (Slot D E) :=
  [⟨"lname", some (.name localName), []⟩, ⟨"uname", some (.name useName), []⟩]

def attribSgArrayType (rank : Int) : List (Slot D E) := [⟨"rank", some (.number rank), [' ']⟩]

structure SgClassType where
  name : Text
  classType : Int
  isUnNamed : Bool

def attribSgClassType (n : SgClassType) : List (Slot D E) :=
  [⟨"name", some (.name n.name), [' ']⟩, ⟨"type", some (.number n.classType), [' ']⟩,
    ⟨"unnamed", ifSet n.isUnNamed, [' ']⟩]

def attribSgEnumType (name : Text) : List (Slot D E) := [⟨"name", some (.name name), [' ']⟩]

def attribSgTypedefType (name : Text) : List (Slot D E) := [⟨"name", some (.name name), [' ']⟩]

def attribSgTypeLabel (name : Text) : List (Slot D E) := [⟨"name", some (.name name), [' ']⟩]

def attribSgModifierType (modifierVector : List Bool) (constVolatileModifier : Option Int) :
    List (Slot D E) :=
  [⟨"modifier", some (.number (ofBits modifierVector)), [' ']⟩,
    ⟨"cv_modifier", constVolatileModifier.map .number, [' ']⟩]

def attribSgTypeString (lengthExpression : Bool) : List (Slot D E) :=
  [⟨"len", ifSet lengthExpression, [' ']⟩]

end Support

section Nodes

/-- The nodes, with what is written of them. -/
inductive SgNode (D E : Type) : Type 1
  | statement (n : SgStatement)
  | breakStmt (n : SgBreakStmt)
  | continueStmt (n : SgBreakStmt)
  | caseOptionStmt (n : SgCaseOptionStmt)
  | defaultOptionStmt (n : SgCaseOptionStmt)
  | classDefinition (n : SgClassDefinition)
  | fortranDo (n : SgFortranDo)
  | gotoStatement (n : SgGotoStatement)
  | ifStmt (n : SgIfStmt)
  | labelStatement (n : SgLabelStatement)
  | stopOrPauseStatement (n : SgStopOrPauseStatement)
  | switchStatement (n : SgSwitchStatement)
  | whereStatement (n : SgWhereStatement)
  | whileStmt (n : SgWhereStatement)
  | declaration (n : SgDeclarationStatement)
  | asmStmt (n : AsmStmt) (d : SgDeclarationStatement)
  | attributeSpecificationStatement (n : SgAttributeSpecificationStatement)
  | classDeclaration (n : SgClassDeclaration)
  | derivedTypeStatement (n : SgClassDeclaration)
  | moduleStatement (n : SgClassDeclaration)
  | enumDeclaration (n : SgEnumDeclaration)
  | fortranIncludeLine (n : SgFortranIncludeLine)
  | functionDeclaration (n : SgFunctionDeclaration)
  | entryStatement (n : SgEntryStatement)
  | procedureHeaderStatement (n : SgProcedureHeaderStatement)
  | programHeaderStatement (n : SgProgramHeaderStatement)
  | interfaceStatement (n : SgInterfaceStatement)
  | typedefDeclaration (n : SgTypedefDeclaration)
  | useStatement (n : SgUseStatement)
  | variableDeclaration (n : SgVariableDeclaration)
  | expression (n : SgExpression D E)
  | actualArgumentExpression (n : SgActualArgumentExpression D E)
  | aggregateInitializer (n : SgAggregateInitializer D E)
  | asmOp (n : SgAsmOp D E)
  | castExp (n : SgCastExp D E)
  | compoundLiteralExp (n : SgNamedExp D E)
  | userDefinedBinaryOp (n : SgNamedExp D E)
  | userDefinedUnaryOp (n : SgNamedExp D E)
  | varRefExp (n : SgNamedExp D E)
  | constructorInitializer (n : SgConstructorInitializer D E)
  | functionRefExp (n : SgFunctionRefExp D E)
  | labelRefExp (n : SgLabelRefExp D E)
  | unaryOp (n : SgUnaryOp D E)
  | enumVal (value : Int) (name enum : Text)
  | stringVal (n : StringVal)
  | val {V : Type} (io : StreamType V) (n : NumVal V)
  | integralVal (value : Int)
  | complexVal
  | dataStatementValue (dataInitializationFormat : Int)
  | formatItem (n : SgFormatItem)
  | nameGroup (n : SgNameGroup)
  | pragma (str : Text)
  | sourceFile (n : SgSourceFile)
  | commonBlockObject (blockName : Text)
  | initializedName (n : SgInitializedName)
  | interfaceBody (functionName : Option Text)
  | renamePair (localName useName : Text)
  | support
  | arrayType (rank : Int)
  | classType (n : SgClassType)
  | enumType (name : Text)
  | typedefType (name : Text)
  | typeLabel (name : Text)
  | modifierType (modifierVector : List Bool) (constVolatileModifier : Option Int)
  | typeString (lengthExpression : Bool)
  | type

variable {D E : Type}

/-- The attributes of a node. -/
def SgNode.attribs (fortran : Bool) : SgNode D E → List (Slot D E)
  | .statement n => attribSgStatement n
  | .breakStmt n => attribSgBreakStmt n
  | .continueStmt n => attribSgContinueStmt n
  | .caseOptionStmt n => attribSgCaseOptionStmt n
  | .defaultOptionStmt n => attribSgDefaultOptionStmt n
  | .classDefinition n => attribSgClassDefinition fortran n
  | .fortranDo n => attribSgFortranDo n
  | .gotoStatement n => attribSgGotoStatement n
  | .ifStmt n => attribSgIfStmt n
  | .labelStatement n => attribSgLabelStatement n
  | .stopOrPauseStatement n => attribSgStopOrPauseStatement n
  | .switchStatement n => attribSgSwitchStatement n
  | .whereStatement n => attribSgWhereStatement n
  | .whileStmt n => attribSgWhileStmt fortran n
  | .declaration n => attribSgDeclarationStatement fortran n
  | .asmStmt n d => attribSgAsmStmt fortran n d
  | .attributeSpecificationStatement n => attribSgAttributeSpecificationStatement fortran n
  | .classDeclaration n => attribSgClassDeclaration fortran n
  | .derivedTypeStatement n => attribSgDerivedTypeStatement fortran n
  | .moduleStatement n => attribSgModuleStatement fortran n
  | .enumDeclaration n => attribSgEnumDeclaration fortran n
  | .fortranIncludeLine n => attribSgFortranIncludeLine n
  | .functionDeclaration n => attribSgFunctionDeclaration fortran n
  | .entryStatement n => attribSgEntryStatement fortran n
  | .procedureHeaderStatement n => attribSgProcedureHeaderStatement fortran n
  | .programHeaderStatement n => attribSgProgramHeaderStatement fortran n
  | .interfaceStatement n => attribSgInterfaceStatement n
  | .typedefDeclaration n => attribSgTypedefDeclaration fortran n
  | .useStatement n => attribSgUseStatement n
  | .variableDeclaration n => attribSgVariableDeclaration fortran n
  | .expression n => attribSgExpression n
  | .actualArgumentExpression n => attribSgActualArgumentExpression n
  | .aggregateInitializer n => attribSgAggregateInitializer n
  | .asmOp n => attribSgAsmOp n
  | .castExp n => attribSgCastExp n
  | .compoundLiteralExp n => attribSgCompoundLiteralExp n
  | .userDefinedBinaryOp n => attribSgUserDefinedBinaryOp n
  | .userDefinedUnaryOp n => attribSgUserDefinedUnaryOp n
  | .varRefExp n => attribSgVarRefExp n
  | .constructorInitializer n => attribSgConstructorInitializer n
  | .functionRefExp n => attribSgFunctionRefExp n
  | .labelRefExp n => attribSgLabelRefExp n
  | .unaryOp n => attribSgUnaryOp n
  | .enumVal value name enum => attribSgEnumVal value name enum
  | .stringVal n => attribSgStringVal n
  | .val io n => attribSgVal io n
  | .integralVal value => attribSgIntegralVal value
  | .complexVal => []
  | .dataStatementValue fmt => attribSgDataStatementValue fmt
  | .formatItem n => attribSgFormatItem n
  | .nameGroup n => attribSgNameGroup n
  | .pragma str => attribSgPragma str
  | .sourceFile n => attribSgSourceFile n
  | .commonBlockObject blockName => attribSgCommonBlockObject blockName
  | .initializedName n => attribSgInitializedName n
  | .interfaceBody functionName => attribSgInterfaceBody functionName
  | .renamePair localName useName => attribSgRenamePair localName useName
  | .support => []
  | .arrayType rank => attribSgArrayType rank
  | .classType n => attribSgClassType n
  | .enumType name => attribSgEnumType name
  | .typedefType name => attribSgTypedefType name
  | .typeLabel name => attribSgTypeLabel name
  | .modifierType vec cv => attribSgModifierType vec cv
  | .typeString len => attribSgTypeString len
  | .type => []

/-- The values that are written for a node. -/
def SgNode.values (fortran : Bool) (n : SgNode D E) : List (Value D E) :=
  (n.attribs fortran).filterMap Slot.value

/-- The text of the attributes of a node. -/
def SgNode.attribText (insertName : Text → Text) (fortran : Bool) (n : SgNode D E) : Text :=
  (n.attribs fortran).flatMap (Slot.text insertName)

/-- The names and strings of the attributes of a node. -/
def SgNode.wanted (fortran : Bool) (n : SgNode D E) : List (Text × Text) :=
  (n.attribs fortran).filterMap fun a => a.value.map fun v => (a.name.toList, v.wanted)

/-- A text without a quote, a less-than sign and an ampersand that is not the beginning of a
    reference. -/
def WellFormed (t : Text) : Prop :=
  '"' ∉ t ∧ '<' ∉ t ∧ (decode .attribute t).isSome = true

/-- Every value is between quotes and well-formed, and the parser delivers the strings of the node
    and goes on behind the tag. -/
structure Delivered (insertName : Text → Text) (fortran : Bool) (n : SgNode D E) : Prop where
  wellFormed : ∀ v ∈ n.values fortran, ∃ t, v.quoted insertName = '"' :: (t ++ ['"']) ∧ WellFormed t
  strings : ∀ rest, readTag (.gap false) [] (n.attribText insertName fortran ++ '>' :: rest) =
    some (n.wanted fortran, rest)

mutual

/-- The names in a type. -/
def typeNames : SgType D E → List Text
  | .SgModifierType _ _ _ base => typeNames base
  | .builtin _ => []
  | .SgTypeDefault => []
  | .SgTypeString _ => []
  | .SgTypeCrayPointer => []
  | .SgTypeComplex base => typeNames base
  | .SgTypeImaginary base => typeNames base
  | .SgPointerType base => typeNames base
  | .SgArrayType _ base => typeNames base
  | .SgFunctionType ret args => typeNames ret ++ typeNamesAll args
  | .SgNamedType _ name => [name.text]
  | .SgTypeLabel name => [name.text]

/-- The names in a list of types. -/
def typeNamesAll : List (SgType D E) → List Text
  | [] => []
  | t :: ts => typeNames t ++ typeNamesAll ts

end

/-- What can be delivered the way it is written: strings with characters of XML only if they are
    escaped, and clean strings if they are not. -/
def Value.Transportable : Value D E → Prop
  | .number _ => True
  | .printed _ _ => True
  | .string s => Clean s
  | .entity s => XmlText s
  | .name s => Clean s
  | .mangled t => ∀ s ∈ typeNames t, Clean s

end Nodes

section Shape

variable {D E : Type}

/-- Different names, and white space behind every attribute. -/
def Shaped (shape : List (String × Text)) : Prop :=
  (shape.map Prod.fst).Nodup ∧
    ∀ p ∈ shape, isXmlName p.1.toList = true ∧ ∀ c ∈ p.2, isXmlSpace c = true

instance (shape : List (String × Text)) : Decidable (Shaped shape) :=
  inferInstanceAs (Decidable (_ ∧ ∀ p ∈ shape, _))

/-- The names of the attributes of a node and the white space behind them depend on its class
    only. -/
theorem shaped_attribs (fortran : Bool) (n : SgNode D E) :
    Shaped ((n.attribs fortran).map fun a => (a.name, a.space)) := by
  cases n <;>
    simp only [SgNode.attribs, attribSgStatement, attribSgDeclarationStatement, attribSgBreakStmt,
    attribSgContinueStmt, attribSgCaseOptionStmt, attribSgDefaultOptionStmt,
    attribSgClassDefinition, attribSgFortranDo, attribSgGotoStatement, attribSgIfStmt,
    attribSgLabelStatement, attribSgStopOrPauseStatement, attribSgSwitchStatement,
    attribSgWhereStatement, attribSgWhileStmt, attribSgAsmStmt,
    attribSgAttributeSpecificationStatement, attribSgClassDeclaration,
    attribSgDerivedTypeStatement, attribSgModuleStatement, attribSgEnumDeclaration,
    attribSgFortranIncludeLine, attribSgFunctionDeclaration, attribSgEntryStatement,
    attribSgProcedureHeaderStatement, attribSgProgramHeaderStatement, attribSgInterfaceStatement,
    attribSgTypedefDeclaration, attribSgUseStatement, attribSgVariableDeclaration,
    attribSgExpression, attribSgActualArgumentExpression, attribSgAggregateInitializer,
    attribSgAsmOp, attribSgCastExp, attribSgCompoundLiteralExp, attribSgUserDefinedBinaryOp,
    attribSgUserDefinedUnaryOp, attribSgVarRefExp, attribSgConstructorInitializer,
    attribSgFunctionRefExp, attribSgLabelRefExp, attribSgUnaryOp, attribSgEnumVal,
    attribSgStringVal, attribSgVal, attribSgIntegralVal, attribSgDataStatementValue,
    attribSgFormatItem, attribSgNameGroup, attribSgPragma, attribSgSourceFile,
    attribSgCommonBlockObject, attribSgInitializedName, attribSgInterfaceBody, attribSgRenamePair,
    attribSgArrayType, attribSgClassType, attribSgEnumType, attribSgTypedefType,
    attribSgTypeLabel, attribSgModifierType, attribSgTypeString, List.map_cons, List.map_nil,
    List.cons_append, List.nil_append] <;>
    decide

end Shape

section Delivery

variable {D E : Type}

theorem clean_of_plain {s : Text} (h : Plain s) : Clean s :=
  (decode_eq_self_iff s).mp (decode_of_plain .attribute h.1 h.2)

/-- The mangled form of a type is clean exactly if the names in the type are. -/
theorem clean_getMangledTypes_iff :
    (∀ t : SgType D E, Clean (getMangledTypes t) ↔ ∀ s ∈ typeNames t, Clean s) ∧
      ∀ ts : List (SgType D E), Clean (getMangledTypesAll ts) ↔ ∀ s ∈ typeNamesAll ts, Clean s := by
  -- The letters and numbers of a spelling are clean, so only the names in it matter.
  have hletter : ∀ {c : Char} {s : Text}, Clean [c] → (Clean (c :: s) ↔ Clean s) := by
    intro c s hc
    rw [← List.singleton_append, clean_append_iff, and_iff_right hc]
  have hname : ∀ n : TypeName, Clean n.mangled ↔ ∀ s ∈ [n.text], Clean s := by
    intro n
    have hdigits : Clean (Numeral.printNat n.text.length) :=
      clean_of_plain (plain_printInt (n.text.length : Int))
    rw [TypeName.mangled, clean_append_iff, and_iff_right hdigits, List.forall_mem_singleton]
  refine SgType.induct ?modifier ?builtin ?default ?string ?cray ?complex ?imaginary ?pointer
    ?array ?function ?named ?label ?nil ?cons
  case modifier =>
    intro c v r t ih
    have hmodifier : Clean (modifierPrefix c v r) := by
      cases c <;> cases v <;> cases r <;> decide
    rw [getMangledTypes, clean_append_iff, and_iff_right hmodifier]
    exact ih
  case builtin =>
    intro b
    refine iff_of_true ?_ (List.forall_mem_nil _)
    rw [getMangledTypes]
    cases b <;> decide
  case default =>
    refine iff_of_true ?_ (List.forall_mem_nil _)
    rw [getMangledTypes]
    decide
  case string =>
    intro e
    refine iff_of_true ?_ (List.forall_mem_nil _)
    rw [getMangledTypes]
    decide
  case cray =>
    refine iff_of_true ?_ (List.forall_mem_nil _)
    rw [getMangledTypes]
    decide
  case complex =>
    intro t ih
    rw [getMangledTypes, hletter (by decide)]
    exact ih
  case imaginary =>
    intro t ih
    rw [getMangledTypes, hletter (by decide)]
    exact ih
  case pointer =>
    intro t ih
    rw [getMangledTypes, hletter (by decide)]
    exact ih
  case array =>
    intro e t ih
    rw [getMangledTypes, hletter (by decide)]
    exact ih
  case function =>
    intro t ts ht hts
    rw [getMangledTypes, hletter (by decide), clean_append_iff, ht, hts, typeNames,
      List.forall_mem_append]
  case named =>
    intro d n
    exact hname n
  case label =>
    intro n
    exact hname n
  case nil => exact iff_of_true (List.forall_mem_nil _) (List.forall_mem_nil _)
  case cons =>
    intro t ts ht hts
    rw [getMangledTypesAll, clean_append_iff, ht, hts, typeNamesAll, List.forall_mem_append]

theorem decodes_clean_iff (s : Text) :
    '"' ∉ s ∧ decode .attribute s = some s ↔ Clean s := by
  rw [decode_eq_self_iff]
  exact and_iff_right_of_imp fun h hquote => (h _ hquote).2 List.mem_cons_self

/-- A value is decoded to its string exactly if it can be delivered the way it is written. -/
theorem body_decodes_iff (v : Value D E) :
    '"' ∉ v.body ∧ decode .attribute v.body = some v.wanted ↔ v.Transportable := by
  cases v with
  | number n =>
      exact (decodes_clean_iff _).trans (iff_of_true (clean_of_plain (plain_printInt n)) trivial)
  | printed t plain =>
      exact (decodes_clean_iff _).trans (iff_of_true (clean_of_plain plain) trivial)
  | string s => exact decodes_clean_iff s
  | name s => exact decodes_clean_iff s
  | mangled t => exact (decodes_clean_iff _).trans (clean_getMangledTypes_iff.1 t)
  | entity s =>
      have hquote : '"' ∉ xmlStr2Entity s := not_mem_xmlStr2Entity (by decide) (by decide) s
      exact (and_iff_right hquote).trans (decode_escaped_iff s)

/-- What can be delivered is well-formed. -/
theorem wellFormed_of_transportable {v : Value D E} (h : v.Transportable) : WellFormed v.body := by
  rcases (body_decodes_iff v).mpr h with ⟨hquote, hdecode⟩
  have hsome : (decode .attribute v.body).isSome = true := Option.isSome_iff_exists.mpr ⟨_, hdecode⟩
  refine ⟨hquote, ?_, hsome⟩
  have hclean : ∀ {s : Text}, Clean s → '<' ∉ s := fun hs hmem => (hs _ hmem).2 (by decide)
  cases v with
  | number n => exact hclean (clean_of_plain (plain_printInt n))
  | printed t plain => exact hclean (clean_of_plain plain)
  | string s => exact hclean h
  | name s => exact hclean h
  | mangled t => exact hclean ((clean_getMangledTypes_iff.1 t).mpr h)
  | entity s => exact not_mem_xmlStr2Entity (by decide) (by decide) s

/-- The value of an attribute with a quote in it is its string. -/
theorem wanted_of_quote {v : Value D E} (h : '"' ∈ v.body) : v.wanted = v.body := by
  cases v with
  | entity s => exact absurd h (not_mem_xmlStr2Entity (by decide) (by decide) s)
  | number n => rfl
  | printed t plain => rfl
  | string s => rfl
  | name s => rfl
  | mangled t => rfl

/-- An attribute that is there, with its string. -/
def Slot.written (a : Slot D E) : Option (Written × Text) :=
  a.value.map fun v => (⟨a.name.toList, v.body, a.space⟩, v.wanted)

variable {insertName : Text → Text}

theorem quoted_eq (hinsert : ∀ s, insertName s = '"' :: (s ++ ['"'])) (v : Value D E) :
    v.quoted insertName = '"' :: (v.body ++ ['"']) := by
  cases v with
  | name s => exact hinsert s
  | number n => rfl
  | printed t plain => rfl
  | string s => rfl
  | entity s => rfl
  | mangled t => rfl

/-- The text of attributes consists of the texts of those that are there. -/
theorem text_eq (hinsert : ∀ s, insertName s = '"' :: (s ++ ['"'])) (l : List (Slot D E)) :
    l.flatMap (Slot.text insertName) = (l.filterMap Slot.written).flatMap fun w => w.1.text := by
  induction l with
  | nil => rfl
  | cons a l ih =>
      rw [List.flatMap_cons, ih]
      rcases a with ⟨name, value, space⟩
      cases value with
      | none => rfl
      | some v =>
          have hthere : Slot.written ⟨name, some v, space⟩ =
              some (⟨name.toList, v.body, space⟩, v.wanted) := rfl
          rw [List.filterMap_cons_some hthere, List.flatMap_cons, Slot.text, Written.text]
          simp only [quoted_eq hinsert, List.cons_append, List.append_assoc, List.nil_append]

theorem mem_written {l : List (Slot D E)} {w : Written × Text} (h : w ∈ l.filterMap Slot.written) :
    ∃ a ∈ l, ∃ v, a.value = some v ∧ w = (⟨a.name.toList, v.body, a.space⟩, v.wanted) := by
  rw [List.mem_filterMap] at h
  rcases h with ⟨a, ha, hw⟩
  rw [Slot.written, Option.map_eq_some_iff] at hw
  rcases hw with ⟨v, hv, heq⟩
  exact ⟨a, ha, v, hv, heq.symm⟩

/-- The names of the attributes that are there are among all names, in their order. -/
theorem names_written (l : List (Slot D E)) :
    ((l.filterMap Slot.written).map fun w => w.1.name).Sublist
      ((l.map Slot.name).map String.toList) := by
  induction l with
  | nil => exact List.Sublist.refl _
  | cons a l ih =>
      rcases a with ⟨name, value, space⟩
      cases value with
      | none => exact List.Sublist.cons _ ih
      | some v => exact List.Sublist.cons_cons _ ih

/-- What the parser is to deliver is what is written. -/
theorem wanted_eq_written (fortran : Bool) (n : SgNode D E) :
    n.wanted fortran = ((n.attribs fortran).filterMap Slot.written).map fun w =>
      (w.1.name, w.2) := by
  rw [SgNode.wanted, List.map_filterMap]
  refine List.filterMap_congr fun a _ => ?_
  rw [Slot.written, Option.map_map]
  rfl

/-- What holds of the values holds of what is written for them. -/
theorem forall_written_iff {P : Text → Text → Prop} (fortran : Bool) (n : SgNode D E) :
    (∀ w ∈ (n.attribs fortran).filterMap Slot.written, P w.1.body w.2) ↔
      ∀ v ∈ n.values fortran, P v.body v.wanted := by
  constructor
  · intro h v hv
    rw [SgNode.values, List.mem_filterMap] at hv
    rcases hv with ⟨a, ha, hv⟩
    refine h (⟨a.name.toList, v.body, a.space⟩, v.wanted) (List.mem_filterMap.mpr ⟨a, ha, ?_⟩)
    rw [Slot.written, hv]
    rfl
  · intro h w hw
    rcases mem_written hw with ⟨a, ha, v, hv, rfl⟩
    exact h v (List.mem_filterMap.mpr ⟨a, ha, hv⟩)

/-- The parser delivers what is written exactly if each string can be delivered the way it is
    written. -/
theorem strings_iff (hinsert : ∀ s, insertName s = '"' :: (s ++ ['"'])) (fortran : Bool)
    (n : SgNode D E) (rest : Text) :
    readTag (.gap false) [] (n.attribText insertName fortran ++ '>' :: rest) =
        some (n.wanted fortran, rest) ↔
      ∀ v ∈ n.values fortran, v.Transportable := by
  have hshape := shaped_attribs fortran n
  have hmem : ∀ w ∈ (n.attribs fortran).filterMap Slot.written,
      isXmlName w.1.name = true ∧ ∀ c ∈ w.1.space, isXmlSpace c = true := by
    intro w hw
    rcases mem_written hw with ⟨a, ha, v, -, rfl⟩
    exact hshape.2 _ (List.mem_map_of_mem ha)
  have hnodup : (((n.attribs fortran).filterMap Slot.written).map fun w => w.1.name).Nodup := by
    have hnames := hshape.1
    rw [List.map_map] at hnames
    exact (names_written _).nodup (hnames.map fun _ _ h => String.toList_injective h)
  have hwant : ∀ w ∈ (n.attribs fortran).filterMap Slot.written,
      '"' ∈ w.1.body → w.2 = w.1.body := by
    intro w hw
    rcases mem_written hw with ⟨a, -, v, -, rfl⟩
    exact wanted_of_quote
  have hnone : ([] : List (Text × Text)).map Prod.fst ++
      ((n.attribs fortran).filterMap Slot.written).map (fun w => w.1.name) =
      ((n.attribs fortran).filterMap Slot.written).map fun w => w.1.name := List.nil_append _
  have hread := readTag_written_iff _ (fun w hw => (hmem w hw).1) (fun w hw => (hmem w hw).2)
    (hnone ▸ hnodup) hwant (List.forall_mem_nil _) false rest
  rw [List.nil_append, List.nil_append] at hread
  rw [SgNode.attribText, text_eq hinsert, wanted_eq_written, hread,
    forall_written_iff (P := fun body want => '"' ∉ body ∧ decode .attribute body = some want)]
  exact forall₂_congr fun v _ => body_decodes_iff v

/-- The attributes of a node are delivered exactly if each of its strings can be delivered the way
    it is written. -/
theorem attributes_delivered_iff (hinsert : ∀ s, insertName s = '"' :: (s ++ ['"']))
    (fortran : Bool) (n : SgNode D E) :
    Delivered insertName fortran n ↔ ∀ v ∈ n.values fortran, v.Transportable := by
  constructor
  · intro h
    exact (strings_iff hinsert fortran n []).mp (h.strings [])
  · intro h
    constructor
    · intro v hv
      exact ⟨v.body, quoted_eq hinsert v, wellFormed_of_transportable (h v hv)⟩
    · intro rest
      exact (strings_iff hinsert fortran n rest).mpr h

/-- A name between quotes, as the stream operator of names puts it down. -/
def quoteName (s : Text) : Text := '"' :: (s ++ ['"'])

/-- The output operand of an assembly statement, with the constraint of a register that is
    written early. -/
def clobberedOperand : SgNode Unit Unit :=
  .asmOp
    { type := none
      needParen := false
      isExplicitCast := none
      constraint := 0
      constraintString := "=&r".toList
      modifiers := 0
      name := "old".toList
      recordRawAsmOperandDescriptions := true
      isOutputOperand := true }

/-- The constraint of the operand is escaped and its name is clean. -/
theorem clobberedOperand_delivered :
    (∀ s, quoteName s = '"' :: (s ++ ['"'])) ∧ Delivered quoteName false clobberedOperand := by
  refine ⟨fun _ => rfl, (attributes_delivered_iff (fun _ => rfl) false clobberedOperand).mpr ?_⟩
  have hvalues : clobberedOperand.values false =
      [.entity "=&r".toList, .string "old".toList, .number 1, .number 1] := rfl
  rw [hvalues, List.forall_mem_cons, List.forall_mem_cons, List.forall_mem_cons,
    List.forall_mem_singleton]
  have hxml : XmlText "=&r".toList := by decide
  have hclean : Clean "old".toList := by decide
  exact ⟨hxml, hclean, trivial, trivial⟩

/-- An include line. -/
def includeLine (filename : Text) : SgNode Unit Unit :=
  .fortranIncludeLine { numericLabel := none, filename := filename }

/-- The ampersand in the name of an included file is no beginning of a reference, and the quotes
    around it do not help. -/
theorem includeLine_not_delivered :
    ¬ Delivered quoteName true (includeLine "a&b.inc".toList) := by
  intro h
  rcases h.wellFormed (.string "a&b.inc".toList) List.mem_cons_self with ⟨t, heq, -, -, hsome⟩
  have ht : "a&b.inc".toList ++ ['"'] = t ++ ['"'] := List.tail_eq_of_cons_eq heq
  rw [← List.append_cancel_right ht] at hsome
  exact absurd hsome (by decide)

end Delivery

end XevXml.Attributes
