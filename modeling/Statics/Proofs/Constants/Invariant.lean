import Statics.Proofs.Constants.Types
import Statics.Proofs.Declared

/-!
# Constants and type names that were checked

A constant that is checked without an error has a value, or was dropped without a report: its type is invalid, or its
initial value was found to be no constant. A type name that is checked without an error stands for a name of its own
with a base. That base is a type, or its type expression was left open without a report: it refers to a type that is
invalid, or not complete.

`Pass.Valued` says this of all constants and type names of a slab but those that are being checked, and is kept by
every step that neither makes nor settles one.
-/

namespace Statics

/-! ## Where declarations come from -/

/-- A declaration stands in some file, at file level or inside a procedure. -/
inductive Decl.Within (files : List File) : Decl → Prop
  | file {file : File} {d : Decl} : file ∈ files → .decl d ∈ file.decls → Within files d
  | body {p : ProcDecl} {block : Block} {d : Decl} :
    Within files (.proc p) → p.body = some block → d ∈ block.decls → Within files d

/-- Some file declares a constant with an initial value. -/
def DeclaresConstant (files : List File) (name : Ident) (init : Expr) : Prop :=
  ∃ d : ConstDecl, Decl.Within files (.consts d) ∧ (name, init) ∈ d.names.zip d.values

/-- Some file declares a type name for what a type expression stands for. -/
def DeclaresType (files : List File) (name : Ident) (type : Expr) : Prop :=
  ∃ d : TypeDecl, Decl.Within files (.type d) ∧ d.name = name ∧ d.type = type

/-- A kept declaration comes from one that stands in some file. Constants have an initial value. -/
def Declaration.ComesFrom (files : List File) (a : Arena) (e : EntityId) : Declaration → Prop
  | .constant _ _ value => ∃ name init x, value = some init ∧ DeclaresConstant files name init ∧
      a.entity? e = some x ∧ x.ident = some name.id
  | .type _ denoted => ∃ name x, DeclaresType files name denoted ∧ a.entity? e = some x ∧ x.ident = some name.id
  | .proc _ p => Decl.Within files (.proc p)
  | _ => True

/-- A queued body comes from a procedure that stands in some file. -/
def Body.ComesFrom (files : List File) (b : Body) : Prop :=
  ∃ p : ProcDecl, Decl.Within files (.proc p) ∧ p.body = some b.block

theorem Body.ComesFrom.within {b : Body} (h : b.ComesFrom files) {d : Decl} (hd : d ∈ b.block.decls) :
    Decl.Within files d := by
  obtain ⟨p, hp, hbody⟩ := h
  exact .body hp hbody hd

/-! ## Steps -/

/-- Nothing got lost: entities keep what they have, types were filled in at most, and notes were added. -/
structure Retains (a : Arena) (notes : Annotations) (b : Arena) (notes' : Annotations) : Prop where
  types : a.Refines b
  entities : ∀ e x, a.entity? e = some x → ∃ y, b.entity? e = some y ∧ x.Keeps y
  notes : notes.types.entries <:+: notes'.types.entries

/-- Nothing got lost in a pass, which writes to the same slab. -/
structure Pass.Advances (s t : Pass) : Prop extends Retains s.store.arena s.notes t.store.arena t.notes where
  id : t.store.current.id = s.store.current.id

namespace Retains

variable {a b : Arena} {notes notes' : Annotations} (h : Retains a notes b notes')

include h

theorem isSome_type (he : (a.entity e).type.isSome) : (b.entity e).type.isSome := by
  obtain ⟨u, hu⟩ := Option.isSome_iff_exists.mp he
  cases hx : a.entity? e with
  | none => simp [Arena.entity, hx, Entity.blank] at hu
  | some x =>
    obtain ⟨y, hy, hxy⟩ := h.entities e x hx
    simp only [Arena.entity_eq hx, Arena.entity_eq hy] at hu ⊢
    simp [hxy.type u hu]

/-- An entity stays declared by its identifier. -/
theorem ident_eq {id : NodeId} (he : (a.entity e).ident = some id) : (b.entity e).ident = some id := by
  cases hx : a.entity? e with
  | none => simp [Arena.entity, hx, Entity.blank] at he
  | some x =>
    obtain ⟨y, hy, hxy⟩ := h.entities e x hx
    simp only [Arena.entity_eq hx, Arena.entity_eq hy] at he ⊢
    exact hxy.ident.trans he

/-- A type name stands for what it stood for. -/
theorem hasTitle {u : TypeId} (he : a.HasTitle e u) : b.HasTitle e u := by
  obtain ⟨hk, hu⟩ := he
  cases hx : a.entity? e with
  | none => simp [Arena.entity, hx, Entity.blank] at hu
  | some x =>
    obtain ⟨y, hy, hxy⟩ := h.entities e x hx
    simp only [Arena.HasTitle, Arena.entity_eq hx, Arena.entity_eq hy] at hk hu ⊢
    refine ⟨?_, hxy.type u hu⟩
    have hsort := hxy.sort
    rw [hk] at hsort
    cases hy : y.kind <;> simp_all [EntityKind.name]

theorem comesFrom {d : Declaration} (hd : d.ComesFrom files a e) : d.ComesFrom files b e := by
  cases d with
  | constant scope type value =>
    obtain ⟨name, init, x, hvalue, hdeclares, hx, hident⟩ := hd
    obtain ⟨y, hy, hxy⟩ := h.entities e x hx
    exact ⟨name, init, y, hvalue, hdeclares, hy, hxy.ident.trans hident⟩
  | type scope type =>
    obtain ⟨name, x, hdeclares, hx, hident⟩ := hd
    obtain ⟨y, hy, hxy⟩ := h.entities e x hx
    exact ⟨name, y, hdeclares, hy, hxy.ident.trans hident⟩
  | proc scope p => exact hd
  | _ => trivial

end Retains

namespace Pass.Advances

variable {s t : Pass}

theorem of_grows (h : s.Grows t) : s.Advances t :=
  ⟨⟨h.store.toExtends.refines, h.store.toExtends.entities, h.notes.isInfix⟩, h.store.id⟩

theorem modifyType (s : Pass) (u : TypeId) (f : Ty → Ty) (hf : s.store.arena.Refines (s.store.modifyType u f).arena) :
    s.Advances { s with store := s.store.modifyType u f } where
  types := hf
  entities e x hx := ⟨x, by rw [Store.entity?_modifyType, hx], .refl x⟩
  notes := List.infix_refl _
  id := s.store.id_modifyType u f

variable (h : s.Advances t)

include h

theorem owns {sort : String} (he : s.store.Owns e sort) : t.store.Owns e sort := by
  obtain ⟨x, hx, hsort⟩ := he.entity
  obtain ⟨y, hy, hxy⟩ := h.entities e x hx
  exact ⟨he.slab.trans h.id.symm, y, hy, hxy.sort.trans hsort⟩

theorem declared (hd : t.decls = s.decls) (hs : s.Declared) : t.Declared := by
  intro p hp
  rw [hd] at hp
  exact ⟨h.owns (hs p hp).own, fun v hv => h.owns ((hs p hp).vars v hv), (hs p hp).among⟩

end Pass.Advances

/-! ## What is known of those that were checked -/

/-- An entity of the slab whose check is followed: a constant without a value, or a type name that was declared. -/
structure Store.Follows (s : Store) (e : EntityId) (x : Entity) : Prop where
  slab : e.slab = s.current.id
  entity : s.arena.entity? e = some x
  kind : x.kind = .constant none ∨ x.kind = .typeName ∧ x.ident.isSome

/-- A declared constant was dropped: its type is invalid, or its initial value is noted to be no constant. -/
def Drops (files : List File) (a : Arena) (notes : Annotations) (x : Entity) : Prop :=
  ∃ name init, DeclaresConstant files name init ∧ x.ident = some name.id ∧
    ((∃ note, (init.id, note) ∈ notes.types.entries ∧ note.mode ≠ .constant) ∨
      ∃ u, x.type = some u ∧ a.ReadsInvalid u)

/-- A declared constant went without a value: its type is invalid or untyped, or no value of its initial value is
noted. -/
def Lapses (files : List File) (a : Arena) (notes : Annotations) (x : Entity) : Prop :=
  ∃ name init, DeclaresConstant files name init ∧ x.ident = some name.id ∧
    ((∃ note, (init.id, note) ∈ notes.types.entries ∧ (note.mode = .constant → note.constant? = none)) ∨
      ∃ u k, x.type = some u ∧ a.ReadsKind k u ∧ (k = .invalid ∨ k.isUntyped))

/-- A node was noted no earlier than some entry. -/
def Table.NotedSince {α : Type} (t : Table α) (entry : NodeId × α) (id : NodeId) : Prop :=
  ∃ recent earlier, t.entries = recent ++ entry :: earlier ∧ (id = entry.1 ∨ id ∈ recent.map Prod.fst)

theorem Table.NotedSince.of_infix {t t' : Table α} {entry : NodeId × α} {id : NodeId}
    (h : t.NotedSince entry id) (hsub : t.entries <:+: t'.entries) : t'.NotedSince entry id := by
  obtain ⟨recent, earlier, heq, hid⟩ := h
  obtain ⟨newer, older, heq'⟩ := hsub
  refine ⟨newer ++ recent, earlier ++ older, by simp [← heq', heq], hid.imp_right fun hid => ?_⟩
  rw [List.map_append]
  exact List.mem_append_right _ hid

/-- The newest entry of a table is no earlier than any other. -/
theorem Table.notedSince_of_head? {t : Table α} {entry : NodeId × α} {id : NodeId} {x : α}
    (h : t.entries.head? = some (id, x)) (hmem : entry ∈ t.entries) : t.NotedSince entry id := by
  obtain ⟨recent, earlier, heq⟩ := List.append_of_mem hmem
  refine ⟨recent, earlier, heq, ?_⟩
  rw [heq] at h
  cases recent with
  | nil => exact .inl (by simpa using (congrArg Prod.fst (Option.some.inj h)).symm)
  | cons first rest =>
    cases Option.some.inj h
    exact .inr (by simp)

/-- The type expression of a type name was noted no earlier than some entry. -/
def CompletedSince (files : List File) (a : Arena) (notes : Annotations) (entry : NodeId × Note)
    (e : EntityId) : Prop :=
  ∃ name type, DeclaresType files name type ∧ (a.entity e).ident = some name.id ∧ notes.types.NotedSince entry type.id

/-- The type expression of a type name refers to a type that is invalid, or was not complete when it was noted: then the
check of its type name is underway, or noted its type expression no earlier. -/
def LeftOpen (files : List File) (a : Arena) (notes : Annotations) (underway : List EntityId) (x : Entity) : Prop :=
  ∃ name type note, DeclaresType files name type ∧ x.ident = some name.id ∧ type.unparen.isReference ∧
    (type.id, note) ∈ notes.types.entries ∧
      (a.ReadsInvalid note.type ∨ ∃ e, a.HasTitle e note.type ∧
        (e ∈ underway ∨ CompletedSince files a notes (type.id, note) e))

/-- A type name stands for a name of its own over a type that is none. That is invalid only if its type expression was
left open. -/
def Resolved (files : List File) (a : Arena) (notes : Annotations) (underway : List EntityId) (e : EntityId)
    (x : Entity) : Prop :=
  ∃ t name base, x.type = some t ∧ a.type? t = some (.named name (some base) e) ∧ a.IsProper base ∧
    (a.type? base = some (.basic .invalid) → LeftOpen files a notes underway x)

/-- An entity was checked, as far as a pass can tell: a constant lapsed, and a type name is resolved. -/
def Pass.Accounts (files : List File) (underway : List EntityId) (s : Pass) (e : EntityId) (x : Entity) : Prop :=
  (x.kind = .constant none → Lapses files s.store.arena s.notes x) ∧
    (x.kind = .typeName → Resolved files s.store.arena s.notes underway e x)

section

variable {files : List File} {underway underway' : List EntityId} {e : EntityId} {x y : Entity} {a b : Arena}
  {notes notes' : Annotations} (hr : Retains a notes b notes')

include hr

theorem Drops.retain (h : Drops files a notes x) (hxy : x.Keeps y) : Drops files b notes' y := by
  obtain ⟨name, init, hdeclares, hname, hwhy⟩ := h
  refine ⟨name, init, hdeclares, hxy.ident.trans hname, ?_⟩
  rcases hwhy with ⟨note, hnote, hmode⟩ | ⟨u, hu, hinvalid⟩
  · exact .inl ⟨note, hr.notes.subset hnote, hmode⟩
  · exact .inr ⟨u, hxy.type u hu, hr.types.readsKind hinvalid⟩

theorem Lapses.retain (h : Lapses files a notes x) (hxy : x.Keeps y) : Lapses files b notes' y := by
  obtain ⟨name, init, hdeclares, hname, hwhy⟩ := h
  refine ⟨name, init, hdeclares, hxy.ident.trans hname, ?_⟩
  rcases hwhy with ⟨note, hnote, hvalue⟩ | ⟨u, k, hu, hread, hk⟩
  · exact .inl ⟨note, hr.notes.subset hnote, hvalue⟩
  · exact .inr ⟨u, k, hxy.type u hu, hr.types.readsKind hread, hk⟩

theorem CompletedSince.retain {entry : NodeId × Note} (h : CompletedSince files a notes entry e) :
    CompletedSince files b notes' entry e := by
  obtain ⟨name, type, hdeclares, hident, hsince⟩ := h
  exact ⟨name, type, hdeclares, hr.ident_eq hident, hsince.of_infix hr.notes⟩

-- Those that are not underway any more were completed since.
variable (hended : ∀ {e u}, a.HasTitle e u → e ∈ underway →
  e ∈ underway' ∨ ∀ entry ∈ notes.types.entries, CompletedSince files b notes' entry e)

include hended

theorem LeftOpen.retain (h : LeftOpen files a notes underway x) (hxy : x.Keeps y) :
    LeftOpen files b notes' underway' y := by
  obtain ⟨name, type, note, hdeclares, hident, href, hnote, hwhy⟩ := h
  refine ⟨name, type, note, hdeclares, hxy.ident.trans hident, href, hr.notes.subset hnote, ?_⟩
  rcases hwhy with hinvalid | ⟨e, htitle, hopen⟩
  · exact .inl (hr.types.readsKind hinvalid)
  · refine .inr ⟨e, hr.hasTitle htitle, ?_⟩
    rcases hopen with hunderway | hsince
    · exact (hended htitle hunderway).imp_right fun h => h _ hnote
    · exact .inr (hsince.retain hr)

theorem Resolved.retain (h : Resolved files a notes underway e x) (hxy : x.Keeps y) :
    Resolved files b notes' underway' e y := by
  obtain ⟨u, name, base, hu, htype, hproper, hopen⟩ := h
  obtain ⟨σ, hσ, hbecomes⟩ := hr.types u _ htype
  cases hbecomes
  refine ⟨u, name, base, hxy.type u hu, hσ, hr.types.isProper hproper, fun hinvalid => ?_⟩
  exact (hopen (hr.types.basic_of_basic hproper.isSome hinvalid)).retain hr hended hxy

end

section

variable {files : List File} {underway underway' : List EntityId} {s t : Pass} {e : EntityId} {x y : Entity}

theorem Pass.Accounts.advance (h : s.Accounts files underway e x) (ha : s.Advances t) (hxy : x.Keeps y)
    (hk : x.kind = y.kind)
    (hended : ∀ {e u}, s.store.arena.HasTitle e u → e ∈ underway → e ∈ underway' ∨
      ∀ entry ∈ s.notes.types.entries, CompletedSince files t.store.arena t.notes entry e) :
    t.Accounts files underway' e y :=
  ⟨fun hy => (h.1 (hk.trans hy)).retain ha.toRetains hxy,
    fun hy => (h.2 (hk.trans hy)).retain ha.toRetains hended hxy⟩

/-- What is followed was followed before, if it was there. -/
theorem Store.Follows.before (hy : t.store.Follows e y) (ha : s.Advances t) (hx : s.store.arena.entity? e = some x) :
    s.store.Follows e x ∧ x.kind = y.kind ∧ x.Keeps y := by
  obtain ⟨y', hy', hxy⟩ := ha.entities e x hx
  obtain rfl : y' = y := Option.some.inj (hy'.symm.trans hy.entity)
  have hkind : x.kind = y'.kind := by
    have hsort := hxy.sort
    rcases hy.kind with hk | ⟨hk, -⟩
    · rw [hk] at hsort ⊢
      cases hk' : x.kind with
      | constant value =>
        cases value with
        | none => rfl
        | some v =>
          obtain ⟨w, hw⟩ := hxy.value v hk'
          simp [hk] at hw
      | _ => simp [hk', EntityKind.name] at hsort
    · rw [hk]
      exact hxy.typeName hk
  exact ⟨⟨hy.slab.trans ha.id, hx, by rw [hkind, ← hxy.ident]; exact hy.kind⟩, hkind, hxy⟩

/-- A constant of the slab without a value. -/
structure Store.Lacks (s : Store) (e : EntityId) (x : Entity) : Prop where
  slab : e.slab = s.current.id
  entity : s.arena.entity? e = some x
  kind : x.kind = .constant none

theorem Store.Lacks.follows {s : Store} (h : s.Lacks e x) : s.Follows e x := ⟨h.slab, h.entity, .inl h.kind⟩

/-- A constant without a value had none before. -/
theorem Store.Lacks.before (hy : t.store.Lacks e y) (ha : s.Advances t) (hx : s.store.arena.entity? e = some x) :
    s.store.Lacks e x ∧ x.Keeps y := by
  obtain ⟨hfollows, hkind, hxy⟩ := hy.follows.before ha hx
  exact ⟨⟨hfollows.slab, hx, hkind.trans hy.kind⟩, hxy⟩

end

/-! ## The invariant -/

/-- What holds between two steps that log no error: every constant without a value and every type name has no type
yet, or is among those whose check is `underway`, or was checked. The entities in `focus` may be settled, and of the
declarations, those in `pending` may still be checked. -/
structure Pass.Valued (files : List File) (pending : List (EntityId × Declaration)) (underway : List EntityId)
    (focus : EntityId → Prop) (s : Pass) : Prop where
  room : s.HasRoom
  basics : s.store.arena.HasBasics
  names : s.store.arena.NamesRooted
  closed : ∀ {e u}, s.store.arena.HasTitle e u → s.store.arena.IsName u →
    e ∈ underway ∨ ∃ base, s.store.arena.HasBase u base
  declared : s.Declared
  pending : pending ⊆ s.decls
  origins : ∀ p ∈ s.decls, p.2.ComesFrom files s.store.arena p.1
  queue : ∀ b ∈ s.queue, b.ComesFrom files
  focus : ∀ e, focus e → ∃ sort, sort ≠ "constant" ∧ sort ≠ "type name" ∧ s.store.Owns e sort
  begun : ∀ e ∈ underway, (s.store.arena.entity e).type.isSome
  typed : ∀ {e x}, s.store.Follows e x → x.type.isSome → e ∈ underway ∨ s.Accounts files underway e x

/-- Type names, and constants without a value. -/
def NameOrConstant (kind : EntityKind) (_ : Option TypeId) : Prop := kind = .constant none ∨ kind = .typeName

/-- The same, once they have a type. -/
def TypedNameOrConstant (kind : EntityKind) (type : Option TypeId) : Prop := NameOrConstant kind type ∧ type.isSome

theorem Arena.Spares.typed {a b : Arena} (h : a.Spares NameOrConstant b) : a.Spares TypedNameOrConstant b :=
  fun e y hy ⟨hk, _⟩ => h e y hy hk

theorem Store.Follows.nameOrConstant {s : Store} {x : Entity} (h : s.Follows e x) :
    NameOrConstant x.kind x.type := h.kind.imp_right And.left

namespace Pass.Valued

variable {files : List File} {pending : Pending} {underway : List EntityId}
  {focus : EntityId → Prop} {s t : Pass}

section

variable (h : s.Valued files pending underway focus)

include h

/-- Where no type name or constant got a type, only new declarations and entities need a look. -/
theorem advance (ha : s.Advances t) (hspares : s.store.arena.Spares TypedNameOrConstant t.store.arena)
    (hroom : t.HasRoom) (hdeclared : t.Declared) (hdecls : s.decls ⊆ t.decls)
    (horigins : ∀ p ∈ t.decls, p.2.ComesFrom files t.store.arena p.1) (hqueue : ∀ b ∈ t.queue, b.ComesFrom files) :
    t.Valued files pending underway focus := by
  have htitle {e : EntityId} {u : TypeId} (he : t.store.arena.HasTitle e u) : s.store.arena.HasTitle e u := by
    obtain ⟨hk, hu⟩ := hspares.entity_eq he.2 ⟨.inr he.1, rfl⟩
    exact ⟨hk.trans he.1, hu⟩
  refine ⟨hroom, ha.types.hasBasics h.basics, ?_, ?_, hdeclared, List.Subset.trans h.pending hdecls, horigins, hqueue,
    ?_, ?_, ?_⟩
  · exact fun he => ha.types.rooted (h.names (htitle he))
  · intro e u he hname
    have hbefore := ha.types.isName_of_isName (h.names (htitle he)).isSome hname
    exact (h.closed (htitle he) hbefore).imp_right (Exists.imp fun _ => ha.types.hasBase)
  · exact fun e he => (h.focus e he).imp fun _ hsort => ⟨hsort.1, hsort.2.1, ha.owns hsort.2.2⟩
  · exact fun e he => ha.isSome_type (h.begun e he)
  · intro e y hy hu
    obtain ⟨x, hx, -, htype⟩ := hspares e y hy.entity ⟨hy.nameOrConstant, hu⟩
    obtain ⟨hfollows, hkind, hxy⟩ := hy.before ha hx
    refine (h.typed hfollows (htype ▸ hu)).imp_right fun haccounts => ?_
    exact haccounts.advance ha hxy hkind fun _ he => .inl he

theorem dropped {x : Entity} (hx : s.store.Lacks e x) (hu : x.type.isSome) :
    e ∈ underway ∨ Lapses files s.store.arena s.notes x :=
  (h.typed hx.follows hu).imp_right fun haccounts => haccounts.1 hx.kind

/-- A step that leaves diagnostics, declarations and the queue alone. -/
theorem quiet (ha : s.Advances t) (hspares : s.store.arena.Spares NameOrConstant t.store.arena)
    (hc : t.collector = s.collector) (hd : t.decls = s.decls) (hq : t.queue = s.queue) :
    t.Valued files pending underway focus := by
  refine h.advance ha hspares.typed ?_ (ha.declared hd h.declared) (hd ▸ List.Subset.refl _) ?_ (hq ▸ h.queue)
  · unfold HasRoom
    rw [hc]
    exact h.room
  · rw [hd]
    exact fun p hp => ha.comesFrom (h.origins p hp)

/-- A step that does not touch declarations and the queue, nor type names and constants. -/
theorem spare (hs : Sparing NameOrConstant s t) (hc : t.collector = s.collector) (hd : t.decls = s.decls)
    (hq : t.queue = s.queue) : t.Valued files pending underway focus := h.quiet (.of_grows hs.grows) hs.spares hc hd hq

end

end Pass.Valued

theorem not_nameOrConstant_of_isOrdinary (x : Entity) (hx : x.isOrdinary) : ¬ NameOrConstant x.kind x.type := by
  rintro (hk | hk) <;> simp [Entity.isOrdinary, hk] at hx

instance : Binds (Sparing NameOrConstant) := Sparing.binds not_nameOrConstant_of_isOrdinary

instance : OpensVariables (Sparing NameOrConstant) where
  newVariable s token ident :=
    ⟨OpensVariables.newVariable s token ident, s.store.spares_newEntity (by simp [NameOrConstant, Entity.fresh])⟩

/-! ## Runs that grow and keep an invariant -/

/-- An invariant is kept, by a run that only adds. -/
structure Carries (I : Pass → Prop) (s t : Pass) : Prop extends Keeps I s t where
  grows : s.Grows t

namespace Carries

variable {files : List File} {pending : Pending} {underway : List EntityId}
  {focus : EntityId → Prop} {s t : Pass}

theorem trans {I : Pass → Prop} {u : Pass} (h : Carries I s t) (h' : Carries I t u) : Carries I s u :=
  ⟨h.toKeeps.trans h'.toKeeps, h.grows.trans h'.grows⟩

theorem report {I : Pass → Prop} (hroom : ∀ {s}, I s → s.HasRoom) (s : Pass) (d : Diagnostic) (hd : d.isError) :
    Carries I s { s with collector := (s.collector.report d).1 } :=
  ⟨.report hroom s d hd, AllowsAll.complain s d hd⟩

theorem spare (hs : Sparing NameOrConstant s t) (hc : t.collector = s.collector) (hd : t.decls = s.decls)
    (hq : t.queue = s.queue) : Carries (Pass.Valued files pending underway focus) s t :=
  ⟨.of_eq hc fun h => h.spare hs hc hd hq, hs.grows⟩

/-- The members of an enum are filled in. -/
theorem fillEnum {u : Pass} {base : TypeId} {members : List EntityId}
    (h : Carries (Pass.Valued files pending underway focus) { s with store := (s.store.newType (.enum base [])).2 } u) :
    Carries (Pass.Valued files pending underway focus) s
      { u with store := u.store.modifyType (s.store.newType (.enum base [])).1 fun _ => .enum base members } where
  grows := ⟨h.grows.store.fill _, h.grows.decls, h.grows.notes⟩
  log := (LogGrows.of_collector_eq rfl).trans (h.log.trans (.of_collector_eq rfl))
  keeps hsilent hs := by
    have hnew := hs.spare (Sparing.newType s (.enum base [])) rfl rfl rfl
    have hread := h.grows.store.toExtends.types (s.store.newType (.enum base [])).1 (.enum base [])
      (by rw [Store.type?_newType, if_pos rfl])
    refine (h.keeps hsilent hnew).quiet (.modifyType u _ _ fun v τ hv => ?_) (.of_eq (u.store.entity?_modifyType _ _))
      rfl rfl rfl
    rw [Store.type?_modifyType]
    split
    case isTrue hfill =>
      obtain ⟨-, rfl⟩ := hfill
      obtain rfl : τ = .enum base [] := Option.some.inj (hv.symm.trans hread)
      exact ⟨.enum base members, by rw [hv]; rfl, .enum base members⟩
    case isFalse => exact ⟨τ, hv, .same τ⟩

instance : Binds (Carries (Pass.Valued files pending underway focus)) :=
  .of_still (fun h hst => spare h hst.collector hst.decls hst.queue) trans fun s d hd _ =>
    report Pass.Valued.room s d hd

instance : Observes (Carries (Pass.Valued files pending underway focus)) :=
  .of_still (fun h hst => spare h hst.collector hst.decls hst.queue) trans fun s d hd _ =>
    report Pass.Valued.room s d hd

instance : BuildsTypes (Carries (Pass.Valued files pending underway focus)) where
  newType s τ _ _ := spare (.newType s τ) rfl rfl rfl
  fillEnum _ _ _ _ _ h := fillEnum h

instance : Settles (Carries (Pass.Valued files pending underway focus)) focus where
  settle s e f he hf := by
    have hkeeps (x : Entity) : x.Keeps (f x) := .of_settles (hf x)
    refine ⟨.of_eq rfl fun h => ?_, .of_store (.modifyEntity s.store e hkeeps)⟩
    obtain ⟨sort, hconstant, hname, hown⟩ := h.focus e he
    refine h.spare (.settle s e hkeeps fun x hx hW => ?_) rfl rfl rfl
    have hsort := (hkeeps x).sort
    have hkind := hown.kind
    simp only [Arena.entity_eq hx] at hkind
    rcases hW with hk | hk
    · exact absurd (hkind.symm.trans (hsort.symm.trans (by rw [hk]; rfl))) hconstant
    · exact absurd (hkind.symm.trans (hsort.symm.trans (by rw [hk]; rfl))) hname
  claimSymbol s p := spare (.of_store_eq (Settles.claimSymbol s p) rfl) rfl rfl rfl

instance : OpensVariables (Carries (Pass.Valued files pending underway focus)) where
  newVariable s token ident := spare (OpensVariables.newVariable s token ident) rfl rfl rfl

instance : Records (Carries (Pass.Valued files pending underway focus)) where
  record s m := spare (.of_store_eq (Records.record s m) rfl) rfl rfl rfl

end Carries

namespace Check

variable {α : Type} {I : Pass → Prop} {x : Check α}

/-- What a routine does in clean runs is all that counts, where there is room for errors. -/
theorem Moves.carries (hlog : Moves LogGrows x) (hg : Moves Pass.Grows x) (hroom : ∀ {s}, I s → s.HasRoom)
    (h : ∀ {s a t}, Clean x s a t → I s → I t) : Moves (Carries I) x :=
  ((Moves.of_clean hlog hroom h).and hg).mono fun _ _ h => ⟨h.1, h.2⟩

/-- An invariant that is carried does not depend on milestones. -/
theorem carries_record [Records (Carries I)] (h : I s) (m : Milestone) :
    I { s with journal := m :: s.journal } := (Records.record (R := Carries I) s m).keeps (.record s m) h

theorem Moves.carried (hx : Moves (Carries I) x) {t : Pass} {a : α} (h : Clean x s a t) (hI : I s) : I t :=
  (hx.ok h.run).keeps h.silent hI

end Check

end Statics
