import Statics.Program

/-!
# Asking about a checked program

Queries about scopes, entities and types, and the tree of scopes with its numbering.
-/

namespace Statics

/-- Name of a kind of scope. -/
def ScopeKind.name : ScopeKind → String
  | .global => "global"
  | .file => "file"
  | .signature => "proc"
  | .block => "block"

/-- An entity with the place of its declaration. -/
def Entity.reference (e : Entity) : String := e.kind.name ++ " " ++ e.name ++ "@" ++ e.token.pos.text

/-- A scope with its number and the scopes under it. -/
inductive ScopeTree where
  | node (number : Nat) (scope : ScopeId) (children : List ScopeTree)

namespace Arena

/-- The tree under a scope, numbered in preorder from `next`, and the next free number. At most `fuel` levels are
listed. -/
def treeWithin (a : Arena) : Nat → ScopeId → Nat → ScopeTree × Nat
  | 0, s, next => (.node next s [], next + 1)
  | fuel + 1, s, next =>
    let (children, after) := (a.scope s).children.foldl (fun p child =>
      let (tree, after) := treeWithin a fuel child p.2
      (p.1 ++ [tree], after)) ([], next + 1)
    (.node next s children, after)

/-- The trees under some scopes, numbered in preorder across all of them. -/
def trees (a : Arena) (scopes : List ScopeId) : List ScopeTree :=
  (scopes.foldl (fun p s =>
    let (tree, after) := a.treeWithin a.scopeCount s p.2
    (p.1 ++ [tree], after)) (([] : List ScopeTree), 0)).1

end Arena

mutual

/-- The numbers of all scopes of a tree. -/
def ScopeTree.numbers : ScopeTree → List (ScopeId × Nat)
  | .node number scope children => (scope, number) :: ScopeTree.numbersOf children

@[inherit_doc ScopeTree.numbers]
def ScopeTree.numbersOf : List ScopeTree → List (ScopeId × Nat)
  | [] => []
  | t :: rest => t.numbers ++ ScopeTree.numbersOf rest

end

namespace Program

/-- The diagnostics as listed: in the order of reports, or in an order of their own when bodies count as checked at the
same time. -/
def diagnostics (p : Program) : List Diagnostic :=
  if p.config.parallel then p.collector.diagnostics.mergeSort Diagnostic.inOrder else p.collector.diagnostics

/-- The scope of a file. -/
def fileScope? (p : Program) (path : String) : Option ScopeId := p.files.lookup path

/-- The scope that a node opens. -/
def scopeOf? (p : Program) (id : NodeId) : Option ScopeId := p.notes.scopes.get? id

/-- The entity that a name stands for in a scope or around it. -/
def lookup? (p : Program) (scope : ScopeId) (name : String) : Option EntityId :=
  (p.arena.lookup scope name).map Prod.fst

/-- The type of an expression, or else of the entity that an identifier stands for. -/
def typeOf? (p : Program) (id : NodeId) : Option TypeId :=
  match p.notes.types.get? id with
  | some note => some note.type
  | none => (p.notes.entityOf? id).bind fun e => (p.arena.entity e).type

/-- The value of a constant. -/
def valueOf? (p : Program) (e : EntityId) : Option Constant :=
  match (p.arena.entity e).kind with
  | .constant v => v
  | _ => none

/-- The trees of all files. -/
def trees (p : Program) : List ScopeTree := p.arena.trees (p.files.map Prod.snd)

end Program

end Statics
