import Statics.Constant.Basic
import Statics.Builtin
import Statics.Kind
import Statics.Report.Diagnostic
import Statics.Source.Printer

/-!
# What can be wrong with a program

Every rule that checking enforces has a `Problem` for its violation, with what the message needs to say. Category and
wording are functions of the problem, so both are decided in this module alone. Types are given as text, because a
diagnostic shows them as they were when it was reported.
-/

namespace Statics

/-- What a value is wanted for. -/
inductive Purpose where
  | variableDeclaration
  | constantDeclaration
  | assignment
  | increment
  | argument
  | switchTag
  | returned
deriving DecidableEq, Repr

/-- Wording of a purpose. -/
def Purpose.text : Purpose → String
  | .variableDeclaration => "variable declaration"
  | .constantDeclaration => "constant declaration"
  | .assignment => "assignment"
  | .increment => "increment statement"
  | .argument => "argument"
  | .switchTag => "switch expression"
  | .returned => "return statement"

/-- A violated rule. -/
inductive Problem where
  -- names
  | redeclared (name : String) (previous : Pos)
  | redeclaredThrough (name owner : String) (previous : Pos)
  | undeclared (name : String)
  | discardUsed
  | captured (name : String)
  -- files and imports
  | statementAtFileScope
  | exposingFileVariable
  | importNotFound (path : String)
  | importOfItself
  | importRepeated
  | importUnused (name : String)
  | importInside
  | importWithoutSelector (name : String)
  | notInImport (name origin : String)
  | entryPointMissing (name : String)
  -- declarations
  | constantWithoutValue (name : String)
  | valueWithoutConstant
  | cyclicInitialization (name : String)
  | cyclicType (name : String)
  | variableWithoutType
  | notConstant (e : Expr)
  | entryPointSignature (name type : String)
  | inlineContradiction
  | foreignWithLinkName
  | foreignInside
  | foreignWithBody
  | foreignMismatch (symbol : String) (previous : Pos)
  | bodyMissing (name : String)
  | returnMissing
  -- type expressions
  | notAType (e : Expr)
  | arrayCount (e : Expr)
  | fieldRepeated (name : String) (form : RecordForm) (previous : Pos)
  | embedNotRecord (type : String)
  | embedCollision (field name : String) (previous : Pos)
  | enumBase (type : String)
  | memberNotInteger (name : String)
  | memberOutOfRange (name : String) (value : Int) (kind : Kind)
  | memberRepeated (name : String) (previous : Pos)
  -- using
  | usingTarget (e : Expr)
  | usingForm
  | usingNotEnum (type : String)
  | usingKind (kind name : String)
  | usingCollision (source name : String) (previous : Pos)
  | usingNotRecord (name type : String)
  -- assignment
  | noValue (e : Expr) (purpose : Purpose)
  | typeAsValue (e : Expr) (purpose : Purpose)
  | builtinAsValue (e : Expr) (purpose : Purpose)
  | nilWithoutType (purpose : Purpose)
  | notAssignable (e : Expr) (source target : String) (purpose : Purpose)
  | countMismatch (targets values : Nat)
  | notVariable (e : Expr)
  | targetMissing
  | combinedMany (op : BinaryOp)
  -- expressions
  | notAValue (e : Expr)
  | noAddress (e : Expr)
  | operatorUndefined (symbol type : String)
  | negationOverflow (e : Expr)
  | constantOverflows (value : Constant) (type : String)
  | nilAs (type : String)
  | constantNotConvertible (value : Constant) (type : String)
  | operandsNotValues (op : BinaryOp)
  | operandMismatch (op : BinaryOp) (left right : String)
  | zeroDivisor
  | resultOverflows (op : BinaryOp) (type : String)
  | foldOverflow (op : BinaryOp)
  | notCallable (e : Expr) (type : String)
  | argumentCount (e : Expr) (expected got : Nat)
  | conversionCount (type : String) (got : Nat)
  | notConvertible (e : Expr) (source target : String)
  | builtinCount (builtin : Builtin) (got : Nat)
  | lenArgument (e : Expr)
  | assertArgument (e : Expr)
  | memberMissing (type name : String)
  | fieldMissing (e : Expr) (type name : String)
  -- statements
  | typeAsStatement (e : Expr)
  | valueUnused (e : Expr)
  | stepNotNumeric (type : String) (dir : Step)
  | conditionNotBoolean (keyword : String)
  | elseForm
  | postDeclaration
  | defaultRepeated (keyword : String) (previous : Pos)
  | caseRepeated (e : Expr) (previous : Pos)
  | switchNotUnion (type : String)
  | variantUnknown (type union : String)
  | variantRepeated (type : String) (previous : Pos)
  | returnInDefer
  | returnOutside
  | returnCount (expected got : Nat)
  | deferredDeclaration
  | labelUnknown (name : String)
  | breakMisplaced
  | continueNotLoop (label : String)
  | continueMisplaced
  | fallthroughMisplaced

namespace Problem

/-- The sort of rule that a problem violates. -/
def category : Problem → Category
  | redeclared .. | redeclaredThrough .. | foreignMismatch .. | fieldRepeated .. | memberRepeated .. => .redeclaration
  | undeclared _ | notInImport .. | memberMissing .. | fieldMissing .. => .undeclared
  | enumBase _ | noValue .. | notAssignable .. | constantNotConvertible .. | operandMismatch .. | notConvertible ..
  | assertArgument _ | conditionNotBoolean _ | switchNotUnion _ | variantUnknown .. => .typeMismatch
  | nilWithoutType _ | nilAs _ => .untypedNil
  | constantWithoutValue _ | valueWithoutConstant | countMismatch .. | targetMissing | combinedMany _
  | argumentCount .. | conversionCount .. | builtinCount .. | returnCount .. => .arityMismatch
  | elseForm | returnInDefer | returnOutside | labelUnknown _ | breakMisplaced | continueNotLoop _
  | continueMisplaced | fallthroughMisplaced => .illegalControlFlow
  | returnMissing => .missingReturn
  | exposingFileVariable | embedNotRecord _ | embedCollision .. | usingTarget _ | usingForm | usingNotEnum _
  | usingKind .. | usingCollision .. | usingNotRecord .. => .illegalUsing
  | cyclicInitialization _ | cyclicType _ => .cyclicDeclaration
  | defaultRepeated .. | caseRepeated .. | variantRepeated .. => .duplicateCase
  | typeAsStatement _ | valueUnused _ => .unusedValue
  | discardUsed | captured _ | importWithoutSelector _ | notAType _ | arrayCount _ | memberNotInteger _
  | memberOutOfRange .. | typeAsValue .. | builtinAsValue .. | notVariable _ | notAValue _ | noAddress _
  | operatorUndefined .. | negationOverflow _ | constantOverflows .. | operandsNotValues _ | zeroDivisor
  | resultOverflows .. | foldOverflow _ | notCallable .. | lenArgument _ | stepNotNumeric .. => .invalidOperation
  | statementAtFileScope | importNotFound _ | importOfItself | importRepeated | importInside | entryPointMissing _
  | variableWithoutType | notConstant _ | entryPointSignature .. | inlineContradiction | foreignWithLinkName
  | foreignInside | foreignWithBody | bodyMissing _ | postDeclaration | deferredDeclaration => .invalidDeclaration
  | importUnused _ => .unusedImport

/-- A place on a line of its own. -/
def placeText (label : String) (pos : Pos) : String := "\n\t" ++ label ++ "at " ++ pos.text

/-- Wording of a problem. -/
def message : Problem → String
  | redeclared name previous => "Redeclaration of `" ++ name ++ "` in this scope" ++ placeText "" previous
  | redeclaredThrough name owner previous =>
    "Redeclaration of `" ++ name ++ "` in this scope through `using " ++ owner ++ "`" ++ placeText "" previous
  | undeclared name => "Undeclared name: " ++ name
  | discardUsed => "`_` cannot be used as a value"
  | captured name => "Nested procedures do not capture its parent's variables: `" ++ name ++ "`"
  | statementAtFileScope => "Only declarations are allowed at file scope"
  | exposingFileVariable => "`using` is not allowed on file scope variables"
  | importNotFound path => "Unable to find imported file `" ++ path ++ "`"
  | importOfItself => "A file cannot import itself"
  | importRepeated => "Multiple import of the same file within this scope"
  | importUnused name => "Unused import name: " ++ name
  | importInside => "You can only import at file scope"
  | importWithoutSelector name => "Use of import `" ++ name ++ "` not in selector"
  | notInImport name origin => "`" ++ name ++ "` is not declared by `" ++ origin ++ "`"
  | entryPointMissing name => "Undefined entry point procedure `" ++ name ++ "`"
  | constantWithoutValue name => "Missing constant value for `" ++ name ++ "`"
  | valueWithoutConstant => "Extra initial expression"
  | cyclicInitialization name => "Cyclic initialization of `" ++ name ++ "`"
  | cyclicType name => "Illegal declaration cycle of `" ++ name ++ "`"
  | variableWithoutType => "Missing type or initial expression"
  | notConstant e => "`" ++ e.text ++ "` is not a constant"
  | entryPointSignature name type =>
    "Procedure type of `" ++ name ++ "` was expected to be `proc()`, got " ++ type
  | inlineContradiction => "You cannot apply both `inline` and `no_inline` to a procedure"
  | foreignWithLinkName => "You cannot apply both `foreign` and `link_name` to a procedure"
  | foreignInside => "Foreign procedures must be declared at file scope"
  | foreignWithBody => "A procedure tagged as `#foreign` cannot have a body"
  | foreignMismatch symbol previous =>
    "Redeclaration of foreign procedure `" ++ symbol ++ "` with different type signatures" ++ placeText "" previous
  | bodyMissing name =>
    "Procedure `" ++ name ++ "` has no body; only a procedure tagged as `#foreign` can have no body"
  | returnMissing => "Missing return statement at the end of the procedure"
  | notAType e => "`" ++ e.text ++ "` is not a type"
  | arrayCount e => "Array count `" ++ e.text ++ "` must be a non-negative constant integer"
  | fieldRepeated name form previous =>
    "Field `" ++ name ++ "` is already declared in this " ++ form.keyword ++ placeText "" previous
  | embedNotRecord type => "`using` on a field requires a struct or union type, got `" ++ type ++ "`"
  | embedCollision field name previous =>
    "Namespace collision while embedding `" ++ field ++ "` of: " ++ name ++ placeText "" previous
  | enumBase type => "Enum base type must be an integer, got `" ++ type ++ "`"
  | memberNotInteger name => "Enum member `" ++ name ++ "` must have a constant integer value"
  | memberOutOfRange name value kind =>
    "Enum member `" ++ name ++ "` value " ++ toString value ++ " does not fit in `" ++ kind.name ++ "`"
  | memberRepeated name previous => "Enum member `" ++ name ++ "` is already declared" ++ placeText "" previous
  | usingTarget e => "`using` cannot be applied to `" ++ e.text ++ "`"
  | usingForm => "`using` can only be applied to an identifier or a selector"
  | usingNotEnum type => "`using` can only be applied to enum type names, got `" ++ type ++ "`"
  | usingKind kind name => "`using` applied to " ++ kind ++ " `" ++ name ++ "`"
  | usingCollision source name previous =>
    "Namespace collision while `using` `" ++ source ++ "` of: " ++ name ++ placeText "" previous
  | usingNotRecord name type =>
    "`using` can only be applied to variables of struct or union type, `" ++ name ++ "` has type `" ++ type ++ "`"
  | noValue e purpose => "`" ++ e.text ++ "` used as value in " ++ purpose.text
  | typeAsValue e purpose => "Type `" ++ e.text ++ "` cannot be used as a value in " ++ purpose.text
  | builtinAsValue e purpose => "Cannot assign builtin procedure `" ++ e.text ++ "` in " ++ purpose.text
  | nilWithoutType purpose => "Use of untyped nil in " ++ purpose.text
  | notAssignable e source target purpose =>
    "Cannot assign value `" ++ e.text ++ "` of type `" ++ source ++ "` to `" ++ target ++ "` in " ++ purpose.text
  | countMismatch targets values =>
    "Assignment count mismatch `" ++ toString targets ++ "` = `" ++ toString values ++ "`"
  | notVariable e => "Cannot assign to `" ++ e.text ++ "`"
  | targetMissing => "Missing lhs in assignment statement"
  | combinedMany op => "Assignment operation `" ++ op.symbol ++ "=` requires single-valued expressions"
  | notAValue e => "`" ++ e.text ++ "` is not a value"
  | noAddress e => "Cannot take the address of `" ++ e.text ++ "`"
  | operatorUndefined symbol type => "Operator `" ++ symbol ++ "` is not defined for `" ++ type ++ "`"
  | negationOverflow e => "Constant overflow in `" ++ e.text ++ "`"
  | constantOverflows value type => "Constant `" ++ value.text ++ "` overflows `" ++ type ++ "`"
  | nilAs type => "Cannot use untyped nil as `" ++ type ++ "`"
  | constantNotConvertible value type => "Cannot convert constant `" ++ value.text ++ "` to `" ++ type ++ "`"
  | operandsNotValues op => "Operands of `" ++ op.symbol ++ "` must be values"
  | operandMismatch op left right =>
    "Mismatched types in binary expression `" ++ left ++ "` " ++ op.symbol ++ " `" ++ right ++ "`"
  | zeroDivisor => "Division by zero not allowed"
  | resultOverflows op type => "Constant result of `" ++ op.symbol ++ "` overflows `" ++ type ++ "`"
  | foldOverflow op => "Constant overflow in `" ++ op.symbol ++ "` expression"
  | notCallable e type => "Cannot call a non-procedure: `" ++ e.text ++ "` of type `" ++ type ++ "`"
  | argumentCount e expected got =>
    (if got < expected then "Too few" else "Too many") ++ " arguments for `" ++ e.text ++ "`, expected " ++
      toString expected ++ ", got " ++ toString got
  | conversionCount type got =>
    "Conversion to `" ++ type ++ "` takes exactly one argument, got " ++ toString got
  | notConvertible e source target =>
    "Cannot convert `" ++ e.text ++ "` of type `" ++ source ++ "` to `" ++ target ++ "`"
  | builtinCount builtin got =>
    "Wrong number of arguments for `" ++ builtin.name ++ "`, expected " ++ toString builtin.arity ++ ", got " ++
      toString got
  | lenArgument e => "Invalid argument `" ++ e.text ++ "` for `len`"
  | assertArgument e => "Argument `" ++ e.text ++ "` of `assert` must be a boolean"
  | memberMissing type name => "`" ++ type ++ "` has no member `" ++ name ++ "`"
  | fieldMissing e type name => "`" ++ e.text ++ "` of type `" ++ type ++ "` has no field `" ++ name ++ "`"
  | typeAsStatement e => "`" ++ e.text ++ "` is not an expression"
  | valueUnused e => "Expression `" ++ e.text ++ "` is not used"
  | stepNotNumeric type dir => "Non numeric type `" ++ type ++ "` for `" ++ dir.symbol ++ "`"
  | conditionNotBoolean keyword => "Non-boolean condition in `" ++ keyword ++ "` statement"
  | elseForm => "Invalid `else` statement in `if` statement"
  | postDeclaration => "`for` statement post statement cannot be a declaration"
  | defaultRepeated keyword previous =>
    "Multiple `default` clauses in `" ++ keyword ++ "` statement" ++ placeText "first " previous
  | caseRepeated e previous => "Duplicate case `" ++ e.text ++ "`" ++ placeText "previous case " previous
  | switchNotUnion type => "Expected a union for type switch, got `" ++ type ++ "`"
  | variantUnknown type union => "Unknown tag type `" ++ type ++ "` for union `" ++ union ++ "`"
  | variantRepeated type previous =>
    "Duplicate type case `" ++ type ++ "`" ++ placeText "previous type case " previous
  | returnInDefer => "You cannot `return` within a defer statement"
  | returnOutside => "`return` is only allowed inside a procedure"
  | returnCount expected got =>
    "Expected " ++ toString expected ++ " return " ++ (if expected == 1 then "value" else "values") ++ ", got " ++
      toString got
  | deferredDeclaration => "You cannot defer a declaration"
  | labelUnknown name => "Unknown label `" ++ name ++ "`"
  | breakMisplaced => "`break` only allowed in `for` or `switch` statements"
  | continueNotLoop label => "`continue` label `" ++ label ++ "` does not refer to a `for` statement"
  | continueMisplaced => "`continue` only allowed in `for` statements"
  | fallthroughMisplaced => "`fallthrough` statement in illegal position"

/-- The problem as an error about a token. -/
def error (p : Problem) (token : Token) : Diagnostic := .about .error p.category token p.message

/-- The problem as a warning about a token. -/
def warning (p : Problem) (token : Token) : Diagnostic := .about .warning p.category token p.message

end Problem

/-- The error that a link name was claimed before, by a procedure at `first`. A pass cannot tell that by itself, as it
can a `Problem`: the name may have been claimed by any other. -/
def linkClash (link : Token) (first : Pos) : Diagnostic :=
  .about .error .redeclaration link
    ("Non unique #link_name for procedure `" ++ link.text ++ "`" ++ Problem.placeText "other " first)

end Statics
