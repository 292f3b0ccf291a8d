import Statics.Check.Declare
import Statics.Check.Demand
import Statics.Text.Stem

/-!
# The file level

One pass over all files: it opens their scopes, enters their declarations, binds their imports, and then checks every
declaration, types first. Procedure bodies are queued for passes of their own.
-/

namespace Statics

/-- Files by path, in the order of first appearance. A path that comes again stands for the later file. -/
def insertFile (files : List (String × ScopeId)) (path : String) (scope : ScopeId) : List (String × ScopeId) :=
  if (files.lookup path).isSome then
    files.map fun p => if p.1 == path then (path, scope) else p
  else files ++ [(path, scope)]

namespace Check

/-- Opens a scope for each file. -/
def openFiles : List File → Check Unit
  | [] => return ()
  | file :: rest => do
    let scope ← fromStore fun s => s.openScope .global .file
    modify fun s => { s with files := insertFile s.files file.path scope }
    openFiles rest

/-- The scope of a file. -/
def fileScope? (path : String) : Check (Option ScopeId) := return (← get).files.lookup path

/-- Enters a declaration of a file, and returns its entities. Imports come later. -/
def collectDecl (scope : ScopeId) : Stmt → Check (List EntityId)
  | .decl (.vars d) => declareGlobals d scope
  | .decl (.consts d) => declareConstants d scope
  | .decl (.type d) => return [← declareType d scope]
  | .decl (.proc d) => return [← declareProc d scope]
  | .decl (.imported _) => return []
  | s => do
    report s.token .statementAtFileScope
    return []

/-- Enters the declarations of a file in order. -/
def collectDecls (scope : ScopeId) : List Stmt → Check (List EntityId)
  | [] => return []
  | s :: rest => do
    let here ← collectDecl scope s
    return here ++ (← collectDecls scope rest)

/-- Enters the declarations of all files in order. -/
def collectFiles : List File → Check (List EntityId)
  | [] => return []
  | file :: rest => do
    let here ← match ← fileScope? file.path with
      | some scope => collectDecls scope file.decls
      | none => pure []
    return here ++ (← collectFiles rest)

/-! ## Imports -/

/-- The name of an import: the one that is written, or the stem of the path. -/
def importToken (d : ImportDecl) : Token :=
  match d.name with
  | some name => name.token
  | none => { d.path with text := (Text.stem? d.path.text).getD d.path.text }

/-- Whether a file already imports another. -/
def importsScope (a : Arena) (scope target : ScopeId) : Bool :=
  (a.scope scope).bindings.entities.any fun e =>
    match (a.entity e).kind with
    | .importName info => info.scope == target
    | _ => false

/-- Binds an import of a known file. -/
def bindImport (d : ImportDecl) (scope target : ScopeId) : Check Unit := do
  if importsScope (← arena) scope target then warn d.token .importRepeated
  let token := importToken d
  let info : ImportInfo := ⟨d.path.text, token.text, target⟩
  let e ← newEntity (Entity.typed (.importName info) token (d.name.map Node.id) .invalid)
  if ← bind scope d.name e then
    modify fun s => { s with imports := s.imports ++ [e] }

/-- Finds the file of an import, which must be another one. -/
def resolveImport (d : ImportDecl) (scope : ScopeId) : Check Unit := do
  match ← fileScope? d.path.text with
  | none => report d.path (.importNotFound d.path.text)
  | some target => if target == scope then report d.path .importOfItself else bindImport d scope target

/-- Binds the imports of a file. -/
def resolveImports (scope : ScopeId) : List Stmt → Check Unit
  | [] => return ()
  | .decl (.imported d) :: rest => do
    resolveImport d scope
    resolveImports scope rest
  | _ :: rest => resolveImports scope rest

/-- Binds the imports of all files. -/
def resolveFiles : List File → Check Unit
  | [] => return ()
  | file :: rest => do
    match ← fileScope? file.path with
    | some scope => resolveImports scope file.decls
    | none => pure ()
    resolveFiles rest

/-! ## Declarations in order -/

/-- The turn in which declarations of a sort are checked. -/
inductive Turn where
  | types
  | constants
  | procedures
  | vars
deriving DecidableEq, Repr

/-- The turn of an entity. -/
def turn? (e : Entity) : Option Turn :=
  match e.kind with
  | .typeName => some .types
  | .constant _ => some .constants
  | .procedure _ => some .procedures
  | .var _ => some .vars
  | _ => none

/-- Checks the declarations whose turn it is. -/
def demandTurn (ctx : Context) (turn : Turn) : List EntityId → Check Unit
  | [] => return ()
  | e :: rest => do
    if turn? (← entity e) == some turn then demand ctx e
    demandTurn ctx turn rest

/-- Whether some file declares a procedure with a name. -/
def declaresProcedure (a : Arena) (files : List (String × ScopeId)) (name : String) : Bool :=
  files.any fun p =>
    match a.lookupLocal p.2 name with
    | some e => (a.entity e).isProcedure
    | none => false

/-- The token that stands for a file. -/
def fileToken (file : File) : Token :=
  match file.decls with
  | first :: _ => first.token
  | [] => ⟨"", ⟨file.path, 1, 1⟩, ⟨0, 0⟩⟩

/-- Reports a program without the procedure it should start with. -/
def entryPoint (config : Config) (files : List File) : Check Unit := do
  if config.requireEntryPoint && !declaresProcedure (← arena) (← get).files config.entryPoint then
    match files with
    | first :: _ => report (fileToken first) (.entryPointMissing config.entryPoint)
    | [] => return ()

/-- Checks everything at file level. -/
def fileLevel (config : Config) (files : List File) : Check Unit := do
  openFiles files
  let entities ← collectFiles files
  resolveFiles files
  let ctx := Context.outer config .global
  demandTurn ctx .types entities
  demandTurn ctx .constants entities
  demandTurn ctx .procedures entities
  demandTurn ctx .vars entities
  entryPoint config files

end Check

end Statics
