import Statics.Proofs.Trace

/-!
# Runs of checking

A step of checking either completes or stops, and leaves a state in both cases. `Check.Moves R x` says that every run
of `x` takes the state along the relation `R`, and depends on other passes only in how far it gets.

Which routine moves along `R` follows from the few changes that it makes, so the routines are looked at once, for
every `R` that allows these changes. The classes below name them, from the smallest to the largest set. A fact about
all runs is then a relation with an instance, and `Binds.of_still` gives the instance of a relation that only looks at
the store and at the notes.
-/

namespace Statics

variable {x : Entity} {s t : Pass} {e : TooManyErrors} {τ : Ty} {id : NodeId} {ident : Option Ident} {scope : ScopeId}
  {token : Token}

namespace Check

variable {α β : Type} {x : Check α} {f : α → Check β}

/-- The state that a run leaves, also when it stops. -/
def after (x : Check α) (s : Pass) : Pass :=
  match x s with
  | .ok _ t => t
  | .error _ t => t

/-- Every run of a step takes the state along a relation, and other passes only decide how far it gets. -/
structure Moves (R : Pass → Pass → Prop) (x : Check α) : Prop where
  along : ∀ s, R s (x.after s)
  traced : Traced x

/-- A run that stops has too many errors. -/
theorem Moves.fatal {R : Pass → Pass → Prop} (hx : Moves R x) {s t : Pass} {e : TooManyErrors} (h : x s = .error e t) :
    t.collector.isFatal := hx.traced.fatal h

theorem Moves.ok {R : Pass → Pass → Prop} (hx : Moves R x) {s t : Pass} {a : α} (h : x s = .ok a t) : R s t := by
  have hs := hx.along s
  rwa [after, h] at hs

theorem Moves.mono (hx : Moves R x) (h : ∀ s t, R s t → R' s t) : Moves R' x := ⟨fun s => h s _ (hx.along s), hx.traced⟩

theorem Moves.and (hx : Moves R x) (hx' : Moves R' x) : Moves (fun s t => R s t ∧ R' s t) x :=
  ⟨fun s => ⟨hx.along s, hx'.along s⟩, hx.traced⟩

/-- A step that never stops, and leaves alone what passes share. -/
theorem Moves.of_ok (hown : ∀ s h, x (Pass.sharing s h) = among h (x s)) (h : ∀ s, ∃ a t, x s = .ok a t ∧ R s t) :
    Moves R x where
  along s := by
    obtain ⟨a, t, hx, hR⟩ := h s
    rwa [after, hx]
  traced := traced_of_ok (fun s => (h s).imp fun _ ⟨t, hx, _⟩ => ⟨t, hx⟩) hown

theorem after_of_ok {a : α} (h : x s = .ok a t) : x.after s = t := by rw [after, h]

theorem after_of_error (h : x s = .error e t) : x.after s = t := by
  rw [after, h]

/-- A sequence that completes is a run of its first step and a run of the rest. -/
theorem bind_eq_ok {u : Pass} {b : β} : (x >>= f) s = .ok b u ↔ ∃ a t, x s = .ok a t ∧ f a t = .ok b u := by
  simp only [Bind.bind, EStateM.bind]
  cases x s with
  | ok a t => grind
  | error e t => simp

/-- The rest of a sequence runs where a known first step ends. -/
theorem rest_of_ok {u : Pass} {a : α} {b : β} (hx : x s = .ok a t) (h : (x >>= f) s = .ok b u) : f a t = .ok b u := by
  obtain ⟨_, _, hrun, hrest⟩ := bind_eq_ok.mp h
  cases hx.symm.trans hrun
  exact hrest

theorem after_bind {a : α} (h : x s = .ok a t) : (x >>= f).after s = (f a).after t := by
  simp only [after, Bind.bind, EStateM.bind, h]

theorem after_bind_of_error (h : x s = .error e t) : (x >>= f).after s = t := by
  simp only [after, Bind.bind, EStateM.bind, h]

/-- What holds after the first step of a sequence holds after the sequence, if the rest keeps it. -/
theorem runs_bind {S : Pass → Prop} {T : β → Pass → Prop} (hx : S (x.after s))
    (hf : ∀ a t, x s = .ok a t → S ((f a).after t) ∧ ∀ b u, f a t = .ok b u → T b u) :
    S ((x >>= f).after s) ∧ ∀ b u, (x >>= f) s = .ok b u → T b u := by
  cases hrun : x s with
  | ok a t =>
    rw [after_bind hrun]
    refine ⟨(hf a t hrun).1, fun b u hb => ?_⟩
    obtain ⟨a', t', ha, hb⟩ := bind_eq_ok.mp hb
    exact (hf a' t' ha).2 b u hb
  | error stop t =>
    rw [after_bind_of_error hrun, ← after_of_error hrun]
    refine ⟨hx, fun b u hb => ?_⟩
    obtain ⟨a', t', ha, -⟩ := bind_eq_ok.mp hb
    cases hrun.symm.trans ha

theorem eq_ok_of_outcome {x : Check Unit} (h : (x.outcome s).1 = none) : x s = .ok () (x.outcome s).2 := by
  unfold outcome at h ⊢
  split
  · assumption
  · simp_all

end Check

namespace Check

theorem newType_ok {u : TypeId} (h : newType τ s = .ok u t) :
    u = (s.store.newType τ).1 ∧ t = { s with store := (s.store.newType τ).2 } := by
  cases h
  exact ⟨rfl, rfl⟩

theorem newEntity_ok {e : EntityId} (h : newEntity x s = .ok e t) :
    e = (s.store.newEntity x).1 ∧ t = { s with store := (s.store.newEntity x).2 } := by
  cases h
  exact ⟨rfl, rfl⟩

end Check

/-! ## Relations that allow some changes -/

/-- Whether an entity is complete from the start: it has a type, and does not wait for a declaration to be checked.
Imports are not ordinary, they are only made at file level. -/
def Entity.isOrdinary (e : Entity) : Bool :=
  e.type.isSome &&
    match e.kind with
    | .constant none | .typeName | .procedure _ | .importName _ => false
    | _ => true

/-- Whether an entity is a variable that stands for a field. -/
def Entity.isField (e : Entity) : Bool := (e.var?.map VariableInfo.isField).getD false

/-- What holds of an entity before it is bound for the first time: it has no home, and a variable is a field only if
another variable exposes it. -/
structure Entity.IsNew (x : Entity) : Prop where
  home : x.home = none
  field : x.isField = x.through.isSome

/-- An entity is a constant. -/
def Arena.IsConstant (a : Arena) (e : EntityId) : Prop := ∃ x v, a.entity? e = some x ∧ x.kind = .constant v

/-- The members of an enum. -/
def Ty.enumerated : Ty → List EntityId
  | .enum _ members => members
  | _ => []

/-- Whether a type is a name without a base. -/
def Ty.isOpenName : Ty → Bool
  | .named _ none _ => true
  | _ => false

@[simp, grind =]
theorem Entity.type_fresh (kind : EntityKind) (token : Token) (ident : Option NodeId) :
    (Entity.fresh kind token ident).type = none := rfl

/-- Whether a category is about jumps, which only statements make. -/
def Category.isFlow (c : Category) : Bool := c == .illegalControlFlow

attribute [grind =] Problem.category Category.isFlow

@[grind =]
theorem Check.isFlow_redeclaration (a : Arena) (name : String) (previous : EntityId) :
    (redeclaration a name previous).category.isFlow = false := by
  unfold redeclaration
  split <;> rfl

/-- Relations that allow reports, other than those about jumps. -/
class Reports (R : Pass → Pass → Prop) : Prop where
  refl : ∀ s, R s s
  trans : ∀ {s t u}, R s t → R t u → R s u
  report : ∀ s d, d.isError → d.category.isFlow = false → R s { s with collector := (s.collector.report d).1 }

/-- Relations that also allow notes about entities. -/
class Remarks (R : Pass → Pass → Prop) : Prop extends Reports R where
  refer : ∀ s id e, R s { s with notes := { s.notes with uses := s.notes.uses.insert id e } }
  define : ∀ s id e, R s { s with notes := { s.notes with definitions := s.notes.definitions.insert id e } }
  markUsed : ∀ s e, R s { s with store := s.store.markUsed e }

/-- Relations that also allow notes about expressions. -/
class Observes (R : Pass → Pass → Prop) : Prop extends Remarks R where
  annotate : ∀ s id note, R s { s with notes := { s.notes with types := s.notes.types.insert id note } }

/-- Relations that allow scopes, and pointers, tuples and procedure types. -/
class Supplies (R : Pass → Pass → Prop) : Prop extends Reports R where
  openScope : ∀ s parent kind, R s { s with store := (s.store.openScope parent kind).2 }
  noteScope : ∀ s id scope, R s { s with notes := { s.notes with scopes := s.notes.scopes.insert id scope } }
  newPointer : ∀ s t, R s { s with store := (s.store.newType (.pointer t)).2 }
  newTuple : ∀ s ts, R s { s with store := (s.store.newType (.tuple ts)).2 }
  newProc : ∀ s params results, R s { s with store := (s.store.newType (.proc params results)).2 }

/-- Relations that also allow entities that wait for nothing and may be bound at once. -/
class Allocates (R : Pass → Pass → Prop) : Prop extends Remarks R, Supplies R where
  newBound : ∀ s scope e, e.isOrdinary → e.IsNew →
    R s { s with store := ((s.store.newEntity e).2.bind scope (s.store.newEntity e).1).2 }
  newEntity : ∀ s e, e.isOrdinary → R s { s with store := (s.store.newEntity e).2 }

/-- Relations that allow variables that wait for their declaration. -/
class OpensVariables (R : Pass → Pass → Prop) : Prop extends Reports R where
  newVariable : ∀ s token ident, R s { s with store := (s.store.newEntity (Entity.fresh (.var .plain) token ident)).2 }

/-- Relations that allow to write down that variables are read. -/
class ReadsVariables (R : Pass → Pass → Prop) : Prop extends Reports R where
  read : ∀ s group, R s { s with journal := .read group :: s.journal }

/-- Relations that allow to write down any milestone. -/
class Records (R : Pass → Pass → Prop) : Prop extends Reports R where
  record : ∀ s m, R s { s with journal := m :: s.journal }

instance {R : Pass → Pass → Prop} [Records R] : ReadsVariables R where
  read s group := Records.record s (.read group)

/-- Relations that also allow to bind any entity. -/
class Binds (R : Pass → Pass → Prop) : Prop extends Allocates R where
  bind : ∀ s scope e, R s { s with store := (s.store.bind scope e).2 }
  newBound := fun s scope e he _ => trans (newEntity s e he) (bind _ scope _)

/-- Relations that also allow any type, but for names without a base. The members of an enum are filled in once they
were read: they are constants, if constants stay constants along the relation. -/
class BuildsTypes (R : Pass → Pass → Prop) : Prop extends Supplies R where
  newType : ∀ s t, t.enumerated = [] → t.isOpenName = false → R s { s with store := (s.store.newType t).2 }
  fillEnum : ∀ s u base members,
    ((∀ s t e, R s t → s.store.arena.IsConstant e → t.store.arena.IsConstant e) →
      ∀ m ∈ members, u.store.arena.IsConstant m) →
    R { s with store := (s.store.newType (.enum base [])).2 } u →
    R s { u with store := u.store.modifyType (s.store.newType (.enum base [])).1 fun _ => .enum base members }

/-- What the check of its declaration may change in an entity: a missing type is filled in, and what is known besides
the type changes, but not of what sort the entity is. A constant does not lose its value, and a variable stays
visited. -/
structure Entity.Settles (x y : Entity) : Prop where
  kind : y.kind.name = x.kind.name
  token : y.token = x.token
  home : y.home = x.home
  type : ∀ t, x.type = some t → y.type = some t
  ident : y.ident = x.ident
  through : y.through = x.through
  used : y.used = x.used
  value : ∀ v, x.kind = .constant (some v) → ∃ w, y.kind = .constant (some w)
  field : y.isField = x.isField
  info : ∀ i, x.kind = .importName i → y.kind = .importName i
  visited : x.isVisited → y.isVisited

/-- The base of a named type, filled in. -/
def Ty.withBase (base : TypeId) : Ty → Ty
  | .named name _ e => .named name (some base) e
  | t => t

/-- Relations that also allow to settle the entities in `F`, and to claim the symbols of foreign procedures. -/
class Settles (R : Pass → Pass → Prop) (F : outParam (EntityId → Prop)) : Prop extends Supplies R where
  settle : ∀ s e f, F e → (∀ x, Entity.Settles x (f x)) → R s { s with store := s.store.modifyEntity e f }
  claimSymbol : ∀ s p, R s { s with foreigns := p :: s.foreigns }

/-- Relations that also allow to declare named types, whose base is filled in once it was read. Only a run that stops
leaves a name without its base. -/
class NamesTypes (R : Pass → Pass → Prop) (F : outParam (EntityId → Prop)) : Prop extends
    Settles R F, BuildsTypes R where
  stopNamed : ∀ s u name e, u.collector.isFatal → R { s with store := (s.store.newType (.named name none e)).2 } u →
    R s u
  fillNamed : ∀ s u name e base, R { s with store := (s.store.newType (.named name none e)).2 } u →
    R s { u with store := u.store.modifyType (s.store.newType (.named name none e)).1 (Ty.withBase base) }

/-- What the check of its declaration fills in in an entity: whether it is exposed stays, and what the declaration of a
procedure says besides its signature. -/
structure Entity.FillsIn (x y : Entity) : Prop extends x.Settles y where
  anonymous : y.isAnonymous = x.isAnonymous
  procedure : ∀ i, x.kind = .procedure i → ∃ scope, y.kind = .procedure { i with scope := scope }

/-- Relations that also allow to fill in the entities in `F`. They need not allow to claim symbols. -/
class FillsIn (R : Pass → Pass → Prop) (F : outParam (EntityId → Prop)) : Prop extends Supplies R where
  fillIn : ∀ s e f, F e → (∀ x, Entity.FillsIn x (f x)) → R s { s with store := s.store.modifyEntity e f }

/-- Relations that allow to fill in the entities in `F`, but for the value of a constant that has one. -/
class GivesTypes (R : Pass → Pass → Prop) (F : outParam (EntityId → Prop)) : Prop extends Supplies R where
  giveType : ∀ s e f, F e → (∀ x, Entity.FillsIn x (f x)) →
    (∀ x v, x.kind = .constant (some v) → (f x).kind = .constant (some v)) →
    R s { s with store := s.store.modifyEntity e f }

instance {R : Pass → Pass → Prop} {F : EntityId → Prop} [FillsIn R F] : GivesTypes R F where
  giveType s e f he hf _ := FillsIn.fillIn s e f he hf

/-- Relations that also allow to declare named types and to fill in the entities in `F`. -/
class OpensNames (R : Pass → Pass → Prop) (F : outParam (EntityId → Prop)) : Prop extends FillsIn R F,
    BuildsTypes R where
  stopNamed : ∀ s u name e, u.collector.isFatal → R { s with store := (s.store.newType (.named name none e)).2 } u →
    R s u
  fillNamed : ∀ s u name e base, R { s with store := (s.store.newType (.named name none e)).2 } u →
    R s { u with store := u.store.modifyType (s.store.newType (.named name none e)).1 (Ty.withBase base) }

instance {R : Pass → Pass → Prop} {F : EntityId → Prop} [Settles R F] : FillsIn R F where
  fillIn s e f he hf := Settles.settle s e f he fun x => (hf x).toSettles

instance {R : Pass → Pass → Prop} {F : EntityId → Prop} [NamesTypes R F] : OpensNames R F where
  stopNamed := NamesTypes.stopNamed
  fillNamed := NamesTypes.fillNamed

/-- Relations that demands keep: also with the link names and bodies of procedures. -/
class Demands (R : Pass → Pass → Prop) : Prop extends Observes R, Allocates R, NamesTypes R (fun _ => True),
    Records R where
  claimLink : ∀ s p, R s { s with links := s.links ++ [p] }
  enqueue : ∀ s b, R s { s with queue := s.queue ++ [b] }

/-- Relations that allow entities that wait for their declaration, and to remember which were entered early. -/
class Prepares (R : Pass → Pass → Prop) : Prop extends Reports R where
  newWaiting : ∀ s e, e.type = none → R s { s with store := (s.store.newEntity e).2 }
  hoist : ∀ s id, R s { s with hoisted := id :: s.hoisted }

/-- Relations that also allow to bind and enter declarations. -/
class Enters (R : Pass → Pass → Prop) : Prop extends Binds R, Prepares R where
  await : ∀ s p, R s { s with decls := p :: s.decls }

instance {R : Pass → Pass → Prop} [Prepares R] : OpensVariables R where
  newVariable s _ _ := Prepares.newWaiting s _ rfl

/-- Relations that allow every change. -/
class AllowsAll (R : Pass → Pass → Prop) : Prop extends Demands R, Enters R where
  complain : ∀ s d, d.isError → R s { s with collector := (s.collector.report d).1 }
  report := fun s d hd _ => complain s d hd
  dequeue : ∀ s, R s { s with queue := [] }
  openFile : ∀ s files, R s { s with files := files }
  newImport : ∀ s info token ident,
    R s { s with store := (s.store.newEntity (Entity.typed (.importName info) token ident .invalid)).2 }
  addImport : ∀ s e, R s { s with imports := s.imports ++ [e] }
  warn : ∀ s d, !d.isError → R s { s with collector := s.collector.warn d }

/-! ## Logs -/

/-- What was logged on the way from one state to a later one. -/
def Pass.logged (s t : Pass) : List LogEntry := t.collector.log.drop s.collector.log.length

/-- The log only grows, and the errors among the new entries are counted. The cap stays. -/
def LogGrows (s t : Pass) : Prop :=
  ∃ new, t.collector.log = s.collector.log ++ new ∧
    t.collector.count = s.collector.count + new.countP (fun entry => entry.diagnostic.isError) ∧
    t.collector.cap = s.collector.cap

namespace LogGrows

theorem of_collector_eq (h : t.collector = s.collector) : LogGrows s t := ⟨[], by simp [h], by simp [h], by rw [h]⟩

theorem trans {s t u : Pass} : LogGrows s t → LogGrows t u → LogGrows s u := by
  rintro ⟨new, hlog, hcount, hcap⟩ ⟨newer, hlog', hcount', hcap'⟩
  exact ⟨new ++ newer, by simp [hlog, hlog'], by simp [hcount, hcount']; omega, hcap'.trans hcap⟩

theorem report (s : Pass) (d : Diagnostic) (hd : d.isError) :
    LogGrows s { s with collector := (s.collector.report d).1 } := by
  unfold Collector.report
  split
  · exact of_collector_eq rfl
  · exact ⟨[⟨d, s.collector.last != some d.pos⟩], rfl, by simp [hd], rfl⟩

theorem warn (s : Pass) (d : Diagnostic) (hd : !d.isError) : LogGrows s { s with collector := s.collector.warn d } :=
  ⟨[⟨d, true⟩], rfl, by simpa [Collector.warn] using hd, rfl⟩

instance : AllowsAll LogGrows where
  refl _ := of_collector_eq rfl
  trans := trans
  complain := report
  annotate _ _ _ := of_collector_eq rfl
  refer _ _ _ := of_collector_eq rfl
  define _ _ _ := of_collector_eq rfl
  markUsed _ _ := of_collector_eq rfl
  openScope _ _ _ := of_collector_eq rfl
  noteScope _ _ _ := of_collector_eq rfl
  bind _ _ _ := of_collector_eq rfl
  newEntity _ _ _ := of_collector_eq rfl
  newPointer _ _ := of_collector_eq rfl
  newTuple _ _ := of_collector_eq rfl
  newProc _ _ _ := of_collector_eq rfl
  newType _ _ _ _ := of_collector_eq rfl
  fillEnum _ _ _ _ _ h := h.trans (of_collector_eq rfl)
  fillNamed _ _ _ _ _ h := h.trans (of_collector_eq rfl)
  stopNamed _ _ _ _ _ h := trans (of_collector_eq rfl) h
  newWaiting _ _ _ := of_collector_eq rfl
  settle _ _ _ _ _ := of_collector_eq rfl
  await _ _ := of_collector_eq rfl
  hoist _ _ := of_collector_eq rfl
  record _ _ := of_collector_eq rfl
  enqueue _ _ := of_collector_eq rfl
  dequeue _ := of_collector_eq rfl
  claimSymbol _ _ := of_collector_eq rfl
  claimLink _ _ := of_collector_eq rfl
  openFile _ _ := of_collector_eq rfl
  newImport _ _ _ _ := of_collector_eq rfl
  addImport _ _ := of_collector_eq rfl
  warn := warn

end LogGrows

/-! ## Relations that only look at the store and the notes -/

/-- Nothing is entered, claimed, queued or written down. -/
structure Pass.Idle (s t : Pass) : Prop where
  decls : t.decls = s.decls
  journal : t.journal = s.journal
  hoisted : t.hoisted = s.hoisted
  queue : t.queue = s.queue
  foreigns : t.foreigns = s.foreigns
  links : t.links = s.links

/-- Everything stays but for the store and the notes. -/
structure Pass.Still (s t : Pass) : Prop extends s.Idle t where
  files : t.files = s.files
  imports : t.imports = s.imports
  collector : t.collector = s.collector

theorem Pass.still (s : Pass) (store : Store) (notes : Annotations) :
    s.Still { s with store := store, notes := notes } :=
  ⟨⟨rfl, rfl, rfl, rfl, rfl, rfl⟩, rfl, rfl, rfl⟩

section

variable {R R' : Pass → Pass → Prop} (himp : ∀ {s t}, R s t → s.Still t → R' s t)
  (htrans : ∀ {s t u}, R' s t → R' t u → R' s u)
  (hreport : ∀ s d, d.isError → d.category.isFlow = false → R' s { s with collector := (s.collector.report d).1 })

include himp htrans hreport

/-- Notes are allowed by what follows from a relation that allows them, where nothing but the notes and the store
changes. -/
theorem Observes.of_still [Observes R] : Observes R' where
  refl s := himp (Reports.refl s) (s.still ..)
  trans := htrans
  report := hreport
  annotate s id note := himp (Observes.annotate s id note) (s.still ..)
  refer s id e := himp (Remarks.refer s id e) (s.still ..)
  define s id e := himp (Remarks.define s id e) (s.still ..)
  markUsed s e := himp (Remarks.markUsed s e) (s.still ..)

/-- So is what is allocated. -/
theorem Allocates.of_still [Allocates R] : Allocates R' where
  refl s := himp (Reports.refl s) (s.still ..)
  trans := htrans
  report := hreport
  refer s id e := himp (Remarks.refer s id e) (s.still ..)
  define s id e := himp (Remarks.define s id e) (s.still ..)
  markUsed s e := himp (Remarks.markUsed s e) (s.still ..)
  openScope s parent kind := himp (Supplies.openScope s parent kind) (s.still ..)
  noteScope s id scope := himp (Supplies.noteScope s id scope) (s.still ..)
  newBound s scope e he hnew := himp (Allocates.newBound s scope e he hnew) (s.still ..)
  newEntity s e he := himp (Allocates.newEntity s e he) (s.still ..)
  newPointer s t := himp (Supplies.newPointer s t) (s.still ..)
  newTuple s ts := himp (Supplies.newTuple s ts) (s.still ..)
  newProc s params results := himp (Supplies.newProc s params results) (s.still ..)

theorem Binds.of_still [Binds R] : Binds R' where
  toAllocates := .of_still himp htrans hreport
  bind s scope e := himp (Binds.bind s scope e) (s.still ..)

end

/-! ## Sequences and primitive steps -/

namespace Check

variable {α β : Type} {R : Pass → Pass → Prop}

/-- The state may be looked at, except for what passes share. -/
theorem moves_read {f : Pass → Check β} (hown : ∀ s h, f (Pass.sharing s h) = f s) (hf : ∀ s, Moves R (f s)) :
    Moves R (get >>= f) where
  along s := (hf s).along s
  traced := traced_read hown fun s => (hf s).traced

section

variable [Reports R]

@[grind ←]
theorem moves_pure (a : α) : Moves R (pure a : Check α) := .of_ok (fun _ _ => rfl) fun s => ⟨_, _, rfl, Reports.refl s⟩

/-- The rest of a sequence matters only for the results that the first step can have. -/
theorem moves_bindResult {x : Check α} {f : α → Check β} {P : α → Prop} (hx : Moves R x)
    (hP : ∀ {s a t}, x s = .ok a t → P a) (ht : ∀ a, Traced (f a)) (hf : ∀ a, P a → Moves R (f a)) :
    Moves R (x >>= f) where
  along s := by
    cases hs : x s with
    | ok a t =>
      rw [after_bind hs]
      exact Reports.trans (hx.ok hs) ((hf a (hP hs)).along t)
    | error e t =>
      rw [after_bind_of_error hs, ← after_of_error hs]
      exact hx.along s
  traced := traced_bind hx.traced ht

@[grind ←]
theorem moves_bind {x : Check α} {f : α → Check β} (hx : Moves R x) (hf : ∀ a, Moves R (f a)) : Moves R (x >>= f) :=
  moves_bindResult hx (P := fun _ => True) (fun _ => trivial) (fun a => (hf a).traced) fun a _ => hf a

@[grind ←]
theorem moves_arena : Moves R arena := moves_read (fun _ _ => rfl) fun _ => moves_pure _

@[grind ←]
theorem moves_entity (e : EntityId) : Moves R (entity e) := moves_bind moves_arena fun _ => moves_pure _

@[grind ←]
theorem moves_typeText (t : TypeId) : Moves R (typeText t) := moves_bind moves_arena fun _ => moves_pure _

omit [Reports R] in
theorem along_emit {d : Diagnostic} (h : R s { s with collector := (s.collector.report d).1 }) :
    R s ((emit d).after s) := by
  cases hc : s.collector.report d with
  | mk collector result =>
    rw [hc] at h
    cases result <;> simpa only [after, emit, hc] using h

@[grind ←]
theorem moves_report {p : Problem} (hp : p.category.isFlow = false) : Moves R (report token p) where
  along s := along_emit (Reports.report s _ rfl hp)
  traced := report_eq_tell token p ▸ traced_tell _

end

theorem moves_anyReport (h : ∀ s d, d.isError → R s { s with collector := (s.collector.report d).1 }) (token : Token)
    (p : Problem) : Moves R (report token p) where
  along s := along_emit (h s _ rfl)
  traced := report_eq_tell token p ▸ traced_tell _

section

variable [Remarks R]

@[grind ←]
theorem moves_refer {e : EntityId} : Moves R (refer id e) :=
  .of_ok (fun _ _ => rfl) fun s => ⟨_, _, rfl, Remarks.refer s id e⟩

@[grind ←]
theorem moves_define {e : EntityId} : Moves R (define id e) :=
  .of_ok (fun _ _ => rfl) fun s => ⟨_, _, rfl, Remarks.define s id e⟩

@[grind ←]
theorem moves_markUsed (e : EntityId) : Moves R (markUsed e) :=
  .of_ok (fun _ _ => rfl) fun s => ⟨_, _, rfl, Remarks.markUsed s e⟩

end

@[grind ←]
theorem moves_annotate [Observes R] (id : NodeId) (x : Operand) : Moves R (annotate id x) :=
  .of_ok (fun _ _ => rfl) fun s => ⟨_, _, rfl, Observes.annotate s id x.note⟩

@[grind ←]
theorem moves_record [Records R] (m : Milestone) : Moves R (record m) :=
  .of_ok (fun _ _ => rfl) fun s => ⟨_, _, rfl, Records.record s m⟩

@[grind ←]
theorem moves_recordRead [ReadsVariables R] (group : List EntityId) : Moves R (record (.read group)) :=
  .of_ok (fun _ _ => rfl) fun s => ⟨_, _, rfl, ReadsVariables.read s group⟩

/-- What binding does once it is known whether the name was free. -/
theorem exists_afterBind [Remarks R] (scope : ScopeId) (ident : Option Ident) :
    ∃ rest : EntityId → Option EntityId → Check Bool,
      (∀ e, Check.bind scope ident e = (fromStore fun s => s.bind scope e) >>= rest e) ∧
        ∀ e previous, Moves R (rest e previous) := by
  refine ⟨_, fun e => rfl, fun e previous => ?_⟩
  dsimp only
  grind

section

variable [Supplies R]

@[grind ←]
theorem moves_openScope {parent : ScopeId} {kind : ScopeKind} : Moves R (openScope parent kind id) := by
  refine moves_bind (.of_ok (fun _ _ => rfl) fun s => ⟨_, _, rfl, Supplies.openScope s parent kind⟩) fun scope => ?_
  exact moves_bind (.of_ok (fun _ _ => rfl) fun s => ⟨_, _, rfl, Supplies.noteScope s id scope⟩) fun _ => moves_pure _

@[grind ←]
theorem moves_newPointer (t : TypeId) : Moves R (newType (.pointer t)) :=
  .of_ok (fun _ _ => rfl) fun s => ⟨_, _, rfl, Supplies.newPointer s t⟩

@[grind ←]
theorem moves_newTuple (ts : List TypeId) : Moves R (newType (.tuple ts)) :=
  .of_ok (fun _ _ => rfl) fun s => ⟨_, _, rfl, Supplies.newTuple s ts⟩

@[grind ←]
theorem moves_newProc (params results : List TypeId) : Moves R (newType (.proc params results)) :=
  .of_ok (fun _ _ => rfl) fun s => ⟨_, _, rfl, Supplies.newProc s params results⟩

end

section

variable [Allocates R]

@[grind ←]
theorem moves_newEntity {e : Entity} (h : e.isOrdinary) : Moves R (newEntity e) :=
  .of_ok (fun _ _ => rfl) fun s => ⟨_, _, rfl, Allocates.newEntity s e h⟩

/-- A new entity may be bound at once. -/
theorem moves_newBoundName (hx : x.isOrdinary) (hnew : x.IsNew) (scope : ScopeId)
    {f : EntityId → Option EntityId → Check β} (hf : ∀ e previous, Moves R (f e previous)) : Moves R (do
      let e ← newEntity x
      let previous ← fromStore fun s => s.bind scope e
      f e previous) := by
  have hstep : Moves R (fromStore fun s =>
      (((s.newEntity x).1, ((s.newEntity x).2.bind scope (s.newEntity x).1).1),
        ((s.newEntity x).2.bind scope (s.newEntity x).1).2)) :=
    .of_ok (fun _ _ => rfl) fun s => ⟨_, _, rfl, Allocates.newBound s scope x hx hnew⟩
  have h := moves_bind hstep fun p => hf p.1 p.2
  exact h

theorem moves_newBound (hx : x.isOrdinary) (hnew : x.IsNew)
    {f : EntityId → Check β} (hf : ∀ e, Moves R (f e)) : Moves R (do
      let e ← newEntity x
      let _ ← Check.bind scope ident e
      f e) := by
  obtain ⟨rest, heq, hrest⟩ := exists_afterBind (R := R) scope ident
  have h := moves_newBoundName hx hnew scope fun e previous => moves_bind (hrest e previous) fun _ => hf e
  simpa only [heq, bind_assoc] using h

end

section

variable [Binds R]

theorem moves_bindName (scope : ScopeId) (e : EntityId) :
    Moves R (fromStore fun s => s.bind scope e) := .of_ok (fun _ _ => rfl) fun s => ⟨_, _, rfl, Binds.bind s scope e⟩

@[grind ←]
theorem moves_bindIdent {e : EntityId} : Moves R (Check.bind scope ident e) := by
  obtain ⟨rest, heq, hrest⟩ := exists_afterBind (R := R) scope ident
  rw [heq]
  exact moves_bind (moves_bindName scope e) (hrest e)

end

section

variable [BuildsTypes R]

theorem moves_newType {t : Ty} (ht : t.enumerated = []) (hopen : t.isOpenName = false) : Moves R (newType t) :=
  .of_ok (fun _ _ => rfl) fun s => ⟨_, _, rfl, BuildsTypes.newType s t ht hopen⟩

omit [BuildsTypes R] in
/-- A type may be allocated before what it is built from is read, along a relation that allows to fill it in, and to
leave it as it is in a run that stops. -/
theorem moves_fill {work : TypeId → Check α} (fill : α → Ty → Ty)
    (hstop : ∀ s u, u.collector.isFatal → R { s with store := (s.store.newType τ).2 } u → R s u)
    (hw : ∀ id, Moves R (work id))
    (hf : ∀ s u a, work (s.store.newType τ).1 { s with store := (s.store.newType τ).2 } = .ok a u →
      R { s with store := (s.store.newType τ).2 } u →
      R s { u with store := u.store.modifyType (s.store.newType τ).1 (fill a) }) :
    Moves R (do
      let id ← newType τ
      let a ← work id
      onStore fun s => s.modifyType id (fill a)
      return (id, a)) where
  along s := by
    have hok : newType τ s = .ok (s.store.newType τ).1 { s with store := (s.store.newType τ).2 } := rfl
    rw [after_bind hok]
    cases hs : work (s.store.newType τ).1 { s with store := (s.store.newType τ).2 } with
    | ok a u =>
      rw [after_bind hs]
      exact hf s u a hs ((hw _).ok hs)
    | error e u =>
      rw [after_bind_of_error hs]
      have hwork := (hw (s.store.newType τ).1).along { s with store := (s.store.newType τ).2 }
      rw [after_of_error hs] at hwork
      exact hstop s u ((hw _).fatal hs) hwork
  traced := by
    have hnew : Traced (newType τ) := traced_of_ok (fun s => ⟨_, _, rfl⟩) fun _ _ => rfl
    have hmodify (id : TypeId) (a : α) : Traced (onStore fun s => s.modifyType id (fill a)) :=
      traced_of_ok (fun s => ⟨_, _, rfl⟩) fun _ _ => rfl
    refine traced_bind hnew fun id => traced_bind (hw id).traced fun a => ?_
    exact traced_bind (hmodify id a) fun _ => traced_of_ok (fun s => ⟨_, _, rfl⟩) fun _ _ => rfl

/-- An enum may be built before its members are read. -/
theorem moves_fillEnum {t : TypeId} {work : TypeId → Check α} {members : α → List EntityId}
    {rest : TypeId → α → Check β} (hw : ∀ id, Moves R (work id))
    (hm : (∀ s t e, R s t → s.store.arena.IsConstant e → t.store.arena.IsConstant e) →
      ∀ id s a u, work id s = .ok a u → ∀ m ∈ members a, u.store.arena.IsConstant m)
    (hr : ∀ id a, Moves R (rest id a)) :
    Moves R (do
      let id ← newType (.enum t [])
      let a ← work id
      onStore fun s => s.modifyType id fun _ => .enum t (members a)
      rest id a) := by
  have hfill := moves_fill (fun a _ => .enum t (members a))
    (fun s u _ h => Reports.trans (BuildsTypes.newType s (.enum t []) rfl rfl) h) hw
    fun s u a hrun h => BuildsTypes.fillEnum s u t (members a) (fun hkeeps => hm hkeeps _ _ a u hrun) h
  have h := moves_bind hfill fun p => hr p.1 p.2
  simpa only [bind_assoc, pure_bind] using h

end

end Check

end Statics
