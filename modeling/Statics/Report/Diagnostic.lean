import Statics.Source.Token

/-!
# Diagnostics

A diagnostic is a message about a token. Its category says what sort of rule was broken.
-/

namespace Statics

/-- What sort of rule a diagnostic is about. -/
inductive Category where
  | redeclaration
  | undeclared
  | typeMismatch
  | untypedNil
  | arityMismatch
  | illegalControlFlow
  | missingReturn
  | illegalUsing
  | cyclicDeclaration
  | duplicateCase
  | unusedValue
  | invalidOperation
  | invalidDeclaration
  | unusedImport
deriving DecidableEq, Repr

namespace Category

/-- All categories. -/
def all : List Category :=
  [redeclaration, undeclared, typeMismatch, untypedNil, arityMismatch, illegalControlFlow, missingReturn,
    illegalUsing, cyclicDeclaration, duplicateCase, unusedValue, invalidOperation, invalidDeclaration, unusedImport]

/-- Short name of a category. -/
def code : Category → String
  | redeclaration => "redeclaration"
  | undeclared => "undeclared"
  | typeMismatch => "type_mismatch"
  | untypedNil => "untyped_nil"
  | arityMismatch => "arity_mismatch"
  | illegalControlFlow => "illegal_control_flow"
  | missingReturn => "missing_return"
  | illegalUsing => "illegal_using"
  | cyclicDeclaration => "cyclic_declaration"
  | duplicateCase => "duplicate_case"
  | unusedValue => "unused_value"
  | invalidOperation => "invalid_operation"
  | invalidDeclaration => "invalid_declaration"
  | unusedImport => "unused_import"

/-- The category with a given short name. -/
def ofCode? (s : String) : Option Category :=
  all.find? fun c => c.code == s

/-- Full name of a category, as tools know it. -/
def fullCode (c : Category) : String := "tern::sema::" ++ c.code

end Category

/-- How serious a diagnostic is. -/
inductive Severity where
  | error
  | warning
deriving DecidableEq, Repr

/-- Name of a severity. -/
def Severity.name : Severity → String
  | .error => "error"
  | .warning => "warning"

/-- A message about a place. -/
structure Diagnostic where
  severity : Severity
  category : Category
  pos : Pos
  span : Span
  message : String
deriving DecidableEq, Repr

namespace Diagnostic

/-- A message about a token. -/
def about (severity : Severity) (category : Category) (token : Token) (message : String) : Diagnostic :=
  ⟨severity, category, token.pos, token.span, message⟩

/-- Whether a diagnostic is an error. -/
def isError (d : Diagnostic) : Bool := d.severity == .error

/-- The diagnostic as one text. -/
def text (d : Diagnostic) : String := d.pos.text ++ " " ++ d.message

/-- Order of a list that does not depend on the order of checking: by file, line, column and message. -/
def inOrder (d e : Diagnostic) : Bool :=
  match compare d.pos.file e.pos.file with
  | .lt => true
  | .gt => false
  | .eq =>
    match compare d.pos.line e.pos.line with
    | .lt => true
    | .gt => false
    | .eq =>
      match compare d.pos.column e.pos.column with
      | .lt => true
      | .gt => false
      | .eq => (compare d.message e.message).isLE

end Diagnostic

end Statics
