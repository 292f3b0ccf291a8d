import Statics.Check.Operand

/-!
# Annotations of a program

Checking leaves, for the nodes of the tree, what their expressions evaluate to, which entities their identifiers declare
or refer to, and which scopes they open. Every table is keyed by node alone, and the newest entry of a node counts.
-/

namespace Statics

/-- Entries by node, newest first. -/
structure Table (α : Type) where
  entries : List (NodeId × α)
deriving DecidableEq, Repr

namespace Table

variable {α : Type}

/-- No entries. -/
def empty : Table α := ⟨[]⟩

/-- The newest entry of a node. -/
def get? (t : Table α) (id : NodeId) : Option α := t.entries.lookup id

/-- Adds an entry. -/
def insert (t : Table α) (id : NodeId) (x : α) : Table α := ⟨(id, x) :: t.entries⟩

/-- Adds all entries of another table, which are newer. -/
def merge (t newer : Table α) : Table α := ⟨newer.entries ++ t.entries⟩

/-- Drops all but the first entry of each run of equal nodes. -/
def firstOfRuns : List (NodeId × α) → List (NodeId × α)
  | [] => []
  | p :: rest =>
    match firstOfRuns rest with
    | [] => [p]
    | q :: kept => if p.1 == q.1 then p :: kept else p :: q :: kept

/-- The newest entry of each node, by node. -/
def toList (t : Table α) : List (NodeId × α) :=
  firstOfRuns (t.entries.mergeSort fun p q => p.1 ≤ q.1)

@[simp]
theorem get?_insert_self (t : Table α) (id : NodeId) (x : α) : (t.insert id x).get? id = some x := by
  simp [get?, insert]

theorem get?_insert_of_ne (t : Table α) {id other : NodeId} (h : other ≠ id) (x : α) :
    (t.insert id x).get? other = t.get? other := by
  simp [get?, insert, List.lookup_cons, beq_eq_false_iff_ne.mpr h]

/-- In a merged table the newer entry of a node counts. -/
theorem get?_merge (t newer : Table α) (id : NodeId) : (t.merge newer).get? id = (newer.get? id).or (t.get? id) := by
  obtain ⟨entries⟩ := newer
  simp only [get?, merge]
  induction entries with
  | nil => simp
  | cons p rest ih =>
    obtain ⟨key, value⟩ := p
    by_cases h : id = key
    · simp [h]
    · simp only [List.cons_append, List.lookup_cons, beq_eq_false_iff_ne.mpr h]
      exact ih

end Table

/-- What checking leaves for the nodes of a program. -/
structure Annotations where
  types : Table Note
  definitions : Table EntityId
  uses : Table EntityId
  scopes : Table ScopeId
deriving DecidableEq, Repr

namespace Annotations

/-- Nothing yet. -/
def empty : Annotations := ⟨.empty, .empty, .empty, .empty⟩

/-- Adds newer annotations. -/
def merge (a newer : Annotations) : Annotations :=
  ⟨a.types.merge newer.types, a.definitions.merge newer.definitions, a.uses.merge newer.uses,
    a.scopes.merge newer.scopes⟩

/-- The entity that an identifier declares, or else refers to. -/
def entityOf? (a : Annotations) (id : NodeId) : Option EntityId :=
  (a.definitions.get? id).or (a.uses.get? id)

end Annotations

end Statics
