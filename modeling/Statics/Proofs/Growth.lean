import Statics.Proofs.Reading
import Statics.Proofs.Run.Clear

/-!
# Growth of a pass

While a pass runs, its slab only grows. Seen over a whole routine, a type that was there before stays as it is: a
named type gets its base, and an enum its members, in the routine that allocated it. An entity keeps its place, its
name and its sort, and a type once it has one. Declarations and notes are only added.
-/

namespace Statics

variable {x : Entity} {f : Entity → Entity} {e : EntityId}

/-! ## What stays of an entity -/

/-- What no routine changes in an entity: its sort and name, a type that it has, and that a constant has a value. -/
structure Entity.Keeps (x y : Entity) : Prop where
  sort : y.kind.name = x.kind.name
  token : y.token = x.token
  ident : y.ident = x.ident
  through : y.through = x.through
  type : ∀ t, x.type = some t → y.type = some t
  value : ∀ v, x.kind = .constant (some v) → ∃ w, y.kind = .constant (some w)

namespace Entity.Keeps

@[grind .]
theorem refl (x : Entity) : x.Keeps x := ⟨rfl, rfl, rfl, rfl, fun _ h => h, fun v h => ⟨v, h⟩⟩

theorem trans {x y z : Entity} (h : x.Keeps y) (h' : y.Keeps z) : x.Keeps z where
  sort := h'.sort.trans h.sort
  token := h'.token.trans h.token
  ident := h'.ident.trans h.ident
  through := h'.through.trans h.through
  type t ht := h'.type t (h.type t ht)
  value v hv := by
    obtain ⟨w, hw⟩ := h.value v hv
    exact h'.value w hw

theorem typeName {x y : Entity} (h : x.Keeps y) (hy : y.kind = .typeName) : x.kind = .typeName := by
  have hsort := h.sort
  rw [hy] at hsort
  cases hx : x.kind <;> simp_all [EntityKind.name]

theorem of_settles {y : Entity} (h : x.Settles y) : x.Keeps y :=
  ⟨h.kind, h.token, h.ident, h.through, h.type, h.value⟩

end Entity.Keeps

/-! ## Extended arenas -/

/-- Everything in one arena is in another. -/
structure Arena.Extends (a b : Arena) : Prop where
  types : ∀ t τ, a.type? t = some τ → b.type? t = some τ
  entities : ∀ e x, a.entity? e = some x → ∃ y, b.entity? e = some y ∧ x.Keeps y

namespace Arena.Extends

theorem trans {a b c : Arena} (h : a.Extends b) (h' : b.Extends c) : a.Extends c where
  types t τ ht := h'.types t τ (h.types t τ ht)
  entities e x hx := by
    obtain ⟨y, hy, hxy⟩ := h.entities e x hx
    obtain ⟨z, hz, hyz⟩ := h'.entities e y hy
    exact ⟨z, hz, hxy.trans hyz⟩

variable {a b : Arena} (h : a.Extends b)

include h

theorem isSome_type {t : TypeId} (ht : (a.type? t).isSome) : (b.type? t).isSome := by
  obtain ⟨τ, hτ⟩ := Option.isSome_iff_exists.mp ht
  simp [h.types t τ hτ]

theorem type_eq {t : TypeId} (ht : (a.type? t).isSome) : b.type t = a.type t := by
  obtain ⟨τ, hτ⟩ := Option.isSome_iff_exists.mp ht
  simp [Arena.type, hτ, h.types t τ hτ]

theorem entity_keeps (he : a.entity? e = some x) : a.entity e = x ∧ x.Keeps (b.entity e) := by
  obtain ⟨y, hy, hxy⟩ := h.entities e x he
  simpa [Arena.entity, he, hy] using hxy

/-- An entity with a type is an entity of the arena, and keeps that type. -/
theorem entity_type {t : TypeId} (he : (a.entity e).type = some t) : (b.entity e).type = some t := by
  cases hx : a.entity? e with
  | none => simp [Arena.entity, hx, Entity.blank] at he
  | some x =>
    obtain ⟨rfl, hk⟩ := h.entity_keeps hx
    exact hk.type t he

end Arena.Extends

/-! ## Growth of a store -/

/-- A store grew: what was allocated is still there. -/
structure Store.Grows (s t : Store) : Prop where
  id : t.current.id = s.current.id
  frozen : t.frozen = s.frozen
  types : ∀ (i : Nat) τ, s.current.types[i]? = some τ → t.current.types[i]? = some τ
  entities : ∀ (i : Nat) x, s.current.entities[i]? = some x → ∃ y, t.current.entities[i]? = some y ∧ x.Keeps y

namespace Store.Grows

variable {s t u : Store}

theorem refl (s : Store) : s.Grows s := ⟨rfl, rfl, fun _ _ h => h, fun _ x h => ⟨x, h, .refl x⟩⟩

theorem trans (h : s.Grows t) (h' : t.Grows u) : s.Grows u where
  id := h'.id.trans h.id
  frozen := h'.frozen.trans h.frozen
  types i τ hi := h'.types i τ (h.types i τ hi)
  entities i x hi := by
    obtain ⟨y, hy, hxy⟩ := h.entities i x hi
    obtain ⟨z, hz, hyz⟩ := h'.entities i y hy
    exact ⟨z, hz, hxy.trans hyz⟩

theorem of_eq (hid : t.current.id = s.current.id) (hf : t.frozen = s.frozen)
    (ht : t.current.types = s.current.types) (he : t.current.entities = s.current.entities) : s.Grows t :=
  ⟨hid, hf, fun _ _ h => ht ▸ h, fun _ x h => ⟨x, he ▸ h, .refl x⟩⟩

theorem newType (s : Store) (τ : Ty) : s.Grows (s.newType τ).2 := by constructor <;> grind [Store.newType]

theorem newEntity (s : Store) (e : Entity) : s.Grows (s.newEntity e).2 := by constructor <;> grind [Store.newEntity]

theorem modifyEntity (s : Store) (e : EntityId) {f : Entity → Entity} (hf : ∀ x, Entity.Keeps x (f x)) :
    s.Grows (s.modifyEntity e f) := by
  constructor <;> grind [Store.modifyEntity]

theorem setType (s : Store) (e : EntityId) (t : TypeId) : s.Grows (s.setType e t) :=
  modifyEntity s e fun x => ⟨rfl, rfl, rfl, rfl, fun u hu => by simp [hu], fun v hv => ⟨v, hv⟩⟩

theorem modifyScope (s : Store) (h : ScopeId) (f : Scope → Scope) : s.Grows (s.modifyScope h f) := by
  constructor <;> grind [Store.modifyScope]

theorem openScope (s : Store) (parent : ScopeId) (kind : ScopeKind) : s.Grows (s.openScope parent kind).2 := by
  constructor <;> grind [Store.openScope, Store.newScope, Store.addChild, Store.modifyScope]

theorem bind (s : Store) (scope : ScopeId) (e : EntityId) : s.Grows (s.bind scope e).2 := by
  rw [Store.bind_eq]
  split
  · exact (modifyScope ..).trans (modifyEntity _ e fun x => ⟨rfl, rfl, rfl, rfl, fun _ h => h, fun v h => ⟨v, h⟩⟩)
  · exact refl s

theorem markUsed (s : Store) (e : EntityId) : s.Grows (s.markUsed e) := by
  unfold Store.markUsed
  split
  · exact modifyEntity s e fun x => ⟨rfl, rfl, rfl, rfl, fun _ h => h, fun v h => ⟨v, h⟩⟩
  · exact of_eq rfl rfl rfl rfl

/-- What was allocated before a nested run and is filled in after it was not there at the start. -/
theorem fill {τ : Ty} (h : (s.newType τ).2.Grows u) (f : Ty → Ty) : s.Grows (u.modifyType (s.newType τ).1 f) := by
  obtain ⟨hid, hfrozen, htypes, hentities⟩ := (newType s τ).trans h
  constructor <;> grind [Store.modifyType, Store.newType]

end Store.Grows

/-- A store that grew has the old arena in its own. -/
theorem Store.Grows.toExtends {s t : Store} (h : s.Grows t) : s.arena.Extends t.arena := by
  obtain ⟨hid, hfrozen, htypes, hentities⟩ := h
  constructor <;> grind [Store.type?_arena, Store.entity?_arena, Store.below]

/-! ## Growth of a pass -/

/-- A pass went on: its slab grew, and declarations and notes were added. -/
structure Pass.Grows (s t : Pass) : Prop where
  store : s.store.Grows t.store
  decls : s.decls <:+ t.decls
  notes : s.notes.types.entries <:+ t.notes.types.entries

namespace Pass.Grows

variable {s t u : Pass}

theorem refl (s : Pass) : s.Grows s := ⟨.refl _, List.suffix_refl _, List.suffix_refl _⟩

theorem trans (h : s.Grows t) (h' : t.Grows u) : s.Grows u :=
  ⟨h.store.trans h'.store, h.decls.trans h'.decls, h.notes.trans h'.notes⟩

/-- A change of other parts of the state. -/
theorem of_eq (hs : t.store = s.store) (hd : t.decls = s.decls) (hn : t.notes.types = s.notes.types) : s.Grows t :=
  ⟨hs ▸ .refl _, hd ▸ List.suffix_refl _, hn ▸ List.suffix_refl _⟩

/-- A change of the store alone. -/
theorem of_store {store : Store} (h : s.store.Grows store) : s.Grows { s with store := store } :=
  ⟨h, List.suffix_refl _, List.suffix_refl _⟩

instance : AllowsAll Pass.Grows where
  refl := refl
  trans := trans
  complain _ _ _ := of_eq rfl rfl rfl
  annotate _ _ _ := ⟨.refl _, List.suffix_refl _, List.suffix_cons ..⟩
  refer _ _ _ := of_eq rfl rfl rfl
  define _ _ _ := of_eq rfl rfl rfl
  markUsed _ _ := of_store (.markUsed ..)
  openScope _ _ _ := of_store (.openScope ..)
  noteScope _ _ _ := of_eq rfl rfl rfl
  bind _ _ _ := of_store (.bind ..)
  newEntity _ _ _ := of_store (.newEntity ..)
  newPointer _ _ := of_store (.newType ..)
  newTuple _ _ := of_store (.newType ..)
  newProc _ _ _ := of_store (.newType ..)
  newType _ _ _ _ := of_store (.newType ..)
  fillEnum _ _ _ _ _ h := ⟨h.store.fill _, h.decls, h.notes⟩
  fillNamed _ _ _ _ _ h := ⟨h.store.fill _, h.decls, h.notes⟩
  stopNamed _ _ _ _ _ h := trans (of_store (.newType ..)) h
  newWaiting _ _ _ := of_store (.newEntity ..)
  settle _ e _ _ hf := of_store (.modifyEntity _ e fun x => .of_settles (hf x))
  await _ _ := ⟨.refl _, List.suffix_cons .., List.suffix_refl _⟩
  hoist _ _ := of_eq rfl rfl rfl
  record _ _ := of_eq rfl rfl rfl
  enqueue _ _ := of_eq rfl rfl rfl
  dequeue _ := of_eq rfl rfl rfl
  claimSymbol _ _ := of_eq rfl rfl rfl
  claimLink _ _ := of_eq rfl rfl rfl
  openFile _ _ := of_eq rfl rfl rfl
  newImport _ _ _ _ := of_store (.newEntity ..)
  addImport _ _ := of_eq rfl rfl rfl
  warn _ _ _ := of_eq rfl rfl rfl

/-- An entity keeps having a type. -/
theorem isSome_type (h : s.Grows t) (he : (s.store.arena.entity e).type.isSome) :
    (t.store.arena.entity e).type.isSome := by
  obtain ⟨u, hu⟩ := Option.isSome_iff_exists.mp he
  simp [h.store.toExtends.entity_type hu]

/-- An entity without a type had none before. -/
theorem type_eq_none (h : s.Grows t) (he : (t.store.arena.entity e).type = none) :
    (s.store.arena.entity e).type = none := by
  refine Option.not_isSome_iff_eq_none.mp fun hsome => ?_
  simpa [he] using h.isSome_type hsome

end Pass.Grows

/-! ## Scopes and uses -/

/-- What was bound, referred to or used stays so. -/
structure Pass.Maintains (s t : Pass) : Prop where
  scopes : ∀ h c, s.store.arena.scope? h = some c →
    ∃ d, t.store.arena.scope? h = some d ∧ d.parent = c.parent ∧ c.bindings.entries <+: d.bindings.entries
  used : ∀ e x, s.store.arena.entity? e = some x → x.used → ∃ y, t.store.arena.entity? e = some y ∧ y.used
  uses : s.notes.uses.entries ⊆ t.notes.uses.entries

namespace Pass.Maintains

variable {s t u : Pass}

theorem trans (h : s.Maintains t) (h' : t.Maintains u) : s.Maintains u where
  scopes f c hc := by
    obtain ⟨d, hd, hparent, hsub⟩ := h.scopes f c hc
    obtain ⟨d', hd', hparent', hsub'⟩ := h'.scopes f d hd
    exact ⟨d', hd', hparent'.trans hparent, hsub.trans hsub'⟩
  used e x hx hused := by
    obtain ⟨y, hy, hused⟩ := h.used e x hx hused
    exact h'.used e y hy hused
  uses := List.Subset.trans h.uses h'.uses

theorem of_arena (hc : ∀ h, t.store.arena.scope? h = s.store.arena.scope? h)
    (hused : ∀ e x, s.store.arena.entity? e = some x → x.used → ∃ y, t.store.arena.entity? e = some y ∧ y.used)
    (hn : s.notes.uses.entries ⊆ t.notes.uses.entries) : s.Maintains t :=
  ⟨fun h c h' => ⟨c, (hc h).trans h', rfl, List.prefix_refl _⟩, hused, hn⟩

theorem of_eq (hs : t.store = s.store) (hn : s.notes.uses.entries ⊆ t.notes.uses.entries) : s.Maintains t :=
  .of_arena (fun _ => by rw [hs]) (fun _ x hx h => ⟨x, hs ▸ hx, h⟩) hn

theorem of_still (hs : t.store = s.store) (hn : t.notes.uses = s.notes.uses) : s.Maintains t :=
  .of_eq hs (hn ▸ List.Subset.refl _)

theorem newType (s : Pass) (τ : Ty) : s.Maintains { s with store := (s.store.newType τ).2 } :=
  .of_arena (by simp) (by grind) (List.Subset.refl _)

theorem newEntity (s : Pass) (e : Entity) : s.Maintains { s with store := (s.store.newEntity e).2 } :=
  .of_arena (by simp) (by grind) (List.Subset.refl _)

theorem fill {τ : Ty} (h : Pass.Maintains { s with store := (s.store.newType τ).2 } u) (f : Ty → Ty) :
    s.Maintains { u with store := u.store.modifyType (s.store.newType τ).1 f } :=
  ((newType s τ).trans h).trans (.of_arena (by simp) (by grind) (List.Subset.refl _))

instance : AllowsAll Pass.Maintains where
  refl _ := of_still rfl rfl
  trans := trans
  complain _ _ _ := of_still rfl rfl
  annotate _ _ _ := of_still rfl rfl
  refer _ _ _ := of_eq rfl (List.subset_cons_self _ _)
  define _ _ _ := of_still rfl rfl
  markUsed _ _ := of_arena (by simp) (by grind) (List.Subset.refl _)
  openScope _ _ _ := ⟨by grind, by grind, List.Subset.refl _⟩
  noteScope _ _ _ := of_still rfl rfl
  bind _ _ _ := ⟨by grind [Bindings.insert], by grind, List.Subset.refl _⟩
  newEntity s e _ := newEntity s e
  newPointer s _ := newType s _
  newTuple s _ := newType s _
  newProc s _ _ := newType s _
  newType s t _ _ := newType s t
  fillEnum _ _ _ _ _ h := h.fill _
  fillNamed _ _ _ _ _ h := h.fill _
  stopNamed s _ _ _ _ h := (newType s _).trans h
  newWaiting s e _ := newEntity s e
  settle _ _ _ _ hf := of_arena (by simp) (by grind [Entity.Settles]) (List.Subset.refl _)
  await _ _ := of_still rfl rfl
  hoist _ _ := of_still rfl rfl
  record _ _ := of_still rfl rfl
  enqueue _ _ := of_still rfl rfl
  dequeue _ := of_still rfl rfl
  claimSymbol _ _ := of_still rfl rfl
  claimLink _ _ := of_still rfl rfl
  openFile _ _ := of_still rfl rfl
  newImport s _ _ _ := newEntity s _
  addImport _ _ := of_still rfl rfl
  warn _ _ _ := of_still rfl rfl

end Pass.Maintains

/-! ## Values of constants -/

/-- A constant that has a type and a value keeps the value. -/
def KeepsValue (m : EntityId) (s t : Pass) : Prop :=
  ∀ x v, s.store.arena.entity? m = some x → x.type.isSome → x.kind = .constant (some v) →
    ∃ y, t.store.arena.entity? m = some y ∧ y.type.isSome ∧ y.kind = .constant (some v)

namespace KeepsValue

variable {m : EntityId} {s t u : Pass}

theorem trans (h : KeepsValue m s t) (h' : KeepsValue m t u) : KeepsValue m s u := by
  intro x v hx htype hkind
  obtain ⟨y, hy, htype, hkind⟩ := h x v hx htype hkind
  exact h' y v hy htype hkind

theorem of_eq (h : t.store = s.store) : KeepsValue m s t := fun x _ hx htype hkind => ⟨x, h ▸ hx, htype, hkind⟩

theorem newType (s : Pass) (τ : Ty) : KeepsValue m s { s with store := (s.store.newType τ).2 } := by grind [KeepsValue]

theorem fill {τ : Ty} (h : KeepsValue m { s with store := (s.store.newType τ).2 } u) (f : Ty → Ty) :
    KeepsValue m s { u with store := u.store.modifyType (s.store.newType τ).1 f } :=
  ((newType s τ).trans h).trans (by grind [KeepsValue])

instance : Observes (KeepsValue m) where
  refl _ := of_eq rfl
  trans := trans
  report _ _ _ _ := of_eq rfl
  annotate _ _ _ := of_eq rfl
  refer _ _ _ := of_eq rfl
  define _ _ _ := of_eq rfl
  markUsed _ _ := by grind [KeepsValue]

instance : Enters (KeepsValue m) where
  openScope _ _ _ := by grind [KeepsValue]
  noteScope _ _ _ := of_eq rfl
  bind _ _ _ := by grind [KeepsValue]
  newEntity _ _ _ := by grind [KeepsValue]
  newPointer s _ := newType s _
  newTuple s _ := newType s _
  newProc s _ _ := newType s _
  newWaiting _ _ _ := by grind [KeepsValue]
  await _ _ := of_eq rfl
  hoist _ _ := of_eq rfl

instance : NamesTypes (KeepsValue m) (· ≠ m) where
  newType s t _ _ := newType s t
  fillEnum _ _ _ _ _ h := h.fill _
  fillNamed _ _ _ _ _ h := h.fill _
  stopNamed s _ _ _ _ h := (newType s _).trans h
  settle _ _ _ he _ := by grind [KeepsValue]
  claimSymbol _ _ := of_eq rfl

instance : GivesTypes (KeepsValue m) fun _ => True where
  giveType s e f _ hf hv x v hx htype hkind := by
    rw [Store.entity?_modifyEntity, hx]
    split
    · obtain ⟨u, hu⟩ := Option.isSome_iff_exists.mp htype
      exact ⟨f x, rfl, by simp [(hf x).type u hu], hv x v hkind⟩
    · exact ⟨x, rfl, htype, hkind⟩

instance : Records (KeepsValue m) where
  record _ _ := of_eq rfl

end KeepsValue

namespace Check

variable {m : EntityId}

theorem keepsValue_declaration {resolve : Resolver} (hr : ∀ ctx e, Moves (KeepsValue m) (resolve ctx e)) (ctx : Context)
    {e : EntityId} (he : e ≠ m) (d : Declaration) : Moves (KeepsValue m) (declaration resolve ctx e d) := by
  refine follows_declaration (F := (· ≠ m)) (fun e _ ctx reading => moves_expr hr ctx reading e)
    (fun d _ ctx => ?_) d.holds_true he fun _ _ => trivial
  exact moves_procedure (fun scope => moves_anySignature hr) he (fun _ _ _ _ => .of_eq rfl)
    fun _ _ _ _ _ => .of_eq rfl

/-- A demand for an entity only changes it if it has no type. -/
theorem keepsValue_demandFrom_self (pending : Pending) (ctx : Context) :
    Moves (KeepsValue m) (demandFrom pending ctx m) where
  along s := by
    intro x v hx htype hkind
    have hentity : entity m s = .ok (s.store.arena.entity m) s := rfl
    unfold demandFrom
    rw [after_bind hentity, if_pos (by rwa [Arena.entity_eq hx])]
    exact ⟨x, hx, htype, hkind⟩
  traced := (moves_demandFrom (R := Pass.Grows) pending ctx m).traced

theorem keepsValue_demandFrom (pending : Pending) (ctx : Context) (e : EntityId) :
    Moves (KeepsValue m) (demandFrom pending ctx e) :=
  follows_demandFrom (W := fun _ => True) (fun hr p _ he ctx => keepsValue_declaration hr ctx he p.2)
    (fun pending ctx e he => not_not.mp he ▸ keepsValue_demandFrom_self pending ctx) pending (by simp) ctx e

theorem keepsValue_demand (ctx : Context) (e : EntityId) : Moves (KeepsValue m) (demand ctx e) :=
  moves_read (fun _ _ => rfl) fun s => keepsValue_demandFrom s.decls ctx e

end Check

instance {m : EntityId} : Declares (KeepsValue m) where
  expr ctx reading e _ := Check.moves_expr Check.keepsValue_demand ctx reading e
  demand ctx e _ := Check.keepsValue_demand ctx e
  complain _ _ _ := .of_eq rfl
  dequeue _ := .of_eq rfl
  locals ctx d _ := Check.moves_localVariables (Check.moves_expr Check.keepsValue_demand ctx) d

/-! ## Spared entities -/

/-- Entities whose kind and type satisfy `W` were there before, with the same kind and type. -/
def Arena.Spares (W : EntityKind → Option TypeId → Prop) (a b : Arena) : Prop :=
  ∀ e y, b.entity? e = some y → W y.kind y.type → ∃ x, a.entity? e = some x ∧ x.kind = y.kind ∧ x.type = y.type

namespace Arena.Spares

variable {W : EntityKind → Option TypeId → Prop} {a b c : Arena}

theorem of_eq (h : ∀ e, b.entity? e = a.entity? e) : a.Spares W b := fun e y hy _ => ⟨y, by rw [← h, hy], rfl, rfl⟩

theorem trans (h : a.Spares W b) (h' : b.Spares W c) : a.Spares W c := by
  intro e z hz hW
  obtain ⟨y, hy, hk, ht⟩ := h' e z hz hW
  obtain ⟨x, hx, hk', ht'⟩ := h e y hy (by rwa [hk, ht])
  exact ⟨x, hx, hk'.trans hk, ht'.trans ht⟩

/-- A spared entity with a type reads as before. -/
theorem entity_eq (h : a.Spares W b) {u : TypeId} (hu : (b.entity e).type = some u)
    (hW : W (b.entity e).kind (some u)) : (a.entity e).kind = (b.entity e).kind ∧ (a.entity e).type = some u := by
  cases hy : b.entity? e with
  | none => simp [Arena.entity, hy, Entity.blank] at hu
  | some y =>
    simp only [Arena.entity_eq hy] at hu hW ⊢
    obtain ⟨x, hx, hk, ht⟩ := h e y hy (by rwa [hu])
    rw [Arena.entity_eq hx]
    exact ⟨hk, ht.trans hu⟩

end Arena.Spares

namespace Store

variable {W : EntityKind → Option TypeId → Prop}

theorem spares_modifyEntity (s : Store) (e : EntityId)
    (hf : ∀ x, s.arena.entity? e = some x → W (f x).kind (f x).type → x.kind = (f x).kind ∧ x.type = (f x).type) :
    s.arena.Spares W (s.modifyEntity e f).arena := by
  grind [Arena.Spares, Option.map_eq_some_iff]

theorem spares_newEntity (s : Store) (hx : ¬ W x.kind x.type) : s.arena.Spares W (s.newEntity x).2.arena := by
  grind [Arena.Spares]

theorem spares_openScope (s : Store) (parent : ScopeId) (kind : ScopeKind) :
    s.arena.Spares W (s.openScope parent kind).2.arena := .of_eq (s.entity?_openScope parent kind)

theorem spares_bind (s : Store) (scope : ScopeId) (e : EntityId) : s.arena.Spares W (s.bind scope e).2.arena := by
  grind [Arena.Spares, Option.map_eq_some_iff]

theorem spares_markUsed (s : Store) (e : EntityId) : s.arena.Spares W (s.markUsed e).arena := by
  grind [Arena.Spares, Option.map_eq_some_iff]

end Store

/-- A pass went on, and spared entities. -/
structure Sparing (W : EntityKind → Option TypeId → Prop) (s t : Pass) : Prop where
  grows : s.Grows t
  spares : s.store.arena.Spares W t.store.arena

namespace Sparing

variable {W : EntityKind → Option TypeId → Prop} {s t u : Pass}

theorem of_store_eq (hg : s.Grows t) (h : t.store = s.store) : Sparing W s t := ⟨hg, .of_eq fun _ => by rw [h]⟩

theorem trans (h : Sparing W s t) (h' : Sparing W t u) : Sparing W s u :=
  ⟨h.grows.trans h'.grows, h.spares.trans h'.spares⟩

theorem newType (s : Pass) (τ : Ty) : Sparing W s { s with store := (s.store.newType τ).2 } :=
  ⟨.of_store (.newType ..), .of_eq (Store.entity?_congr rfl rfl rfl)⟩

theorem settle (s : Pass) (e : EntityId) (hf : ∀ x, Entity.Keeps x (f x))
    (hW : ∀ x, s.store.arena.entity? e = some x → W (f x).kind (f x).type →
      x.kind = (f x).kind ∧ x.type = (f x).type) :
    Sparing W s { s with store := s.store.modifyEntity e f } :=
  ⟨.of_store (.modifyEntity s.store e hf), s.store.spares_modifyEntity e hW⟩

instance : Observes (Sparing W) where
  refl s := of_store_eq (.refl s) rfl
  trans := trans
  report s d hd hk := of_store_eq (Reports.report s d hd hk) rfl
  annotate s id note := of_store_eq (Observes.annotate s id note) rfl
  refer s id e := of_store_eq (Remarks.refer s id e) rfl
  define s id e := of_store_eq (Remarks.define s id e) rfl
  markUsed s e := ⟨Remarks.markUsed s e, s.store.spares_markUsed e⟩

/-- Where `W` says nothing of ordinary entities, they may be added. -/
theorem binds (hW : ∀ x : Entity, x.isOrdinary → ¬ W x.kind x.type) : Binds (Sparing W) where
  openScope s parent kind := ⟨Supplies.openScope s parent kind, s.store.spares_openScope parent kind⟩
  noteScope s id scope := of_store_eq (Supplies.noteScope s id scope) rfl
  bind s scope e := ⟨Binds.bind s scope e, s.store.spares_bind scope e⟩
  newEntity s e he := ⟨Allocates.newEntity s e he, s.store.spares_newEntity (hW e he)⟩
  newPointer s _ := newType s _
  newTuple s _ := newType s _
  newProc s _ _ := newType s _

/-- Where `W` says nothing of entities without a type, declarations may be entered. -/
theorem enters (hW : ∀ x : Entity, x.isOrdinary → ¬ W x.kind x.type) (hnone : ∀ k, ¬ W k none) :
    Enters (Sparing W) where
  toBinds := binds hW
  newWaiting s e he := ⟨Prepares.newWaiting s e he, s.store.spares_newEntity (by simpa only [he] using hnone e.kind)⟩
  await s p := of_store_eq (Enters.await s p) rfl
  hoist s id := of_store_eq (Prepares.hoist s id) rfl

end Sparing

end Statics
