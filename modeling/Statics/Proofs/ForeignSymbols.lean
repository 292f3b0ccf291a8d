import Statics.Proofs.Constants.Programs
import Statics.Proofs.Signatures

/-!
# Foreign symbols

Several foreign procedures may stand for one symbol, if their signatures are similar. A foreign procedure is only
compared with the first one that was checked of those with its symbol. Similarity is symmetric and transitive, so all
of them agree.

`Pass.Linked` says that every foreign procedure with a signature is similar to the first of its symbol. What an entity
stands for is known from the start, since the declaration of a procedure describes its entity. A procedure that gets
its signature is not yet compared, and no other is checked before it is.
-/

namespace Statics

variable {x : Entity} {s t : Pass} {e : EntityId} {scope : ScopeId}

/-! ## Procedures and their declarations -/

/-- An entity is a foreign procedure that stands for a symbol: the one that it is declared with, or else its own
name. -/
def Entity.IsForeign (x : Entity) (symbol : String) : Prop :=
  ∃ info, x.kind = .procedure info ∧ info.tags.foreign ∧ info.foreignName.getD x.name = symbol

/-- A foreign procedure has a signature. -/
def SignedForeign (kind : EntityKind) (type : Option TypeId) : Prop :=
  type.isSome ∧ ∃ info, kind = .procedure info ∧ info.tags.foreign

/-- The symbol that a procedure stands for if it is foreign. -/
def ProcDecl.symbol (d : ProcDecl) : String := (d.foreignName.map Token.text).getD d.name.name

/-- An entity is the procedure that a declaration declares. -/
structure ProcDecl.Describes (d : ProcDecl) (x : Entity) : Prop where
  token : x.token = d.name.token
  kind : ∃ info, x.kind = .procedure info ∧ info.tags = d.tags ∧ info.foreignName = d.foreignName.map Token.text

/-- Every declaration of a procedure describes its entity. -/
def Pass.Described (s : Pass) : Prop :=
  ∀ e scope d, (e, Declaration.proc scope d) ∈ s.decls → ∃ x, s.store.arena.entity? e = some x ∧ d.Describes x

/-- What an entity stands for stays. -/
theorem Entity.Unfolds.isForeign_iff {y : Entity} (h : x.Unfolds y) {symbol : String} :
    y.IsForeign symbol ↔ x.IsForeign symbol := by
  have hname : y.name = x.name := by rw [name, name, h.token]
  constructor
  · rintro ⟨info, hkind, hforeign, hsymbol⟩
    have hsort := h.sort
    rw [hkind] at hsort
    cases hx : x.kind with
    | procedure info' =>
      obtain ⟨scope, hy⟩ := h.procedure info' hx
      cases hkind.symm.trans hy
      exact ⟨info', hx, hforeign, hname ▸ hsymbol⟩
    | _ => simp [hx, EntityKind.name] at hsort
  · rintro ⟨info, hkind, hforeign, hsymbol⟩
    obtain ⟨scope, hy⟩ := h.procedure info hkind
    exact ⟨_, hy, hforeign, hname ▸ hsymbol⟩

theorem Entity.IsForeign.signed {symbol : String} {u : TypeId} (h : x.IsForeign symbol) (hu : x.type = some u) :
    SignedForeign x.kind x.type := by
  obtain ⟨info, hkind, hforeign, -⟩ := h
  exact ⟨by simp [hu], info, hkind, hforeign⟩

namespace ProcDecl.Describes

variable {d : ProcDecl} {x y : Entity}

theorem unfold (h : d.Describes x) (hxy : x.Unfolds y) : d.Describes y := by
  obtain ⟨info, hkind, htags, hname⟩ := h.kind
  obtain ⟨scope, hy⟩ := hxy.procedure info hkind
  exact ⟨hxy.token.trans h.token, _, hy, htags, hname⟩

/-- A procedure is foreign if it is declared so, and stands for the symbol of the declaration. -/
theorem isForeign_iff (h : d.Describes x) {symbol : String} :
    x.IsForeign symbol ↔ d.tags.foreign ∧ d.symbol = symbol := by
  obtain ⟨info, hkind, htags, hname⟩ := h.kind
  have hsymbol : info.foreignName.getD x.name = d.symbol := by
    rw [hname, Entity.name, h.token]
    rfl
  constructor
  · rintro ⟨info', hkind', hforeign, heq⟩
    cases hkind.symm.trans hkind'
    exact ⟨htags ▸ hforeign, hsymbol.symm.trans heq⟩
  · intro h
    exact ⟨info, hkind, htags ▸ h.1, hsymbol.trans h.2⟩

end ProcDecl.Describes

theorem Pass.Described.unfold (h : s.Described) (hu : s.store.arena.Unfolds t.store.arena) (hd : t.decls = s.decls) :
    t.Described := by
  intro e scope d hmem
  rw [hd] at hmem
  obtain ⟨x, hx, hdescribes⟩ := h e scope d hmem
  obtain ⟨y, hy, hxy⟩ := hu.entities e x hx
  exact ⟨y, hy, hdescribes.unfold hxy⟩

theorem not_signedForeign_of_isOrdinary (x : Entity) (hx : x.isOrdinary) : ¬ SignedForeign x.kind x.type := by
  rintro ⟨-, info, hkind, -⟩
  simp [Entity.isOrdinary, hkind] at hx

instance : Enters (Sparing SignedForeign) :=
  Sparing.enters not_signedForeign_of_isOrdinary fun _ h => by simpa using h.1

/-! ## Entering declarations -/

/-- Declarations were entered: those of procedures describe their entities, which have no signatures yet. -/
structure Announces (s t : Pass) : Prop extends Sparing SignedForeign s t where
  unfolds : s.store.arena.Unfolds t.store.arena
  described : s.Described → t.Described

namespace Announces

variable {s t u : Pass}

theorem of_decls (hs : Sparing SignedForeign s t) (hu : s.store.arena.Unfolds t.store.arena) (hd : t.decls = s.decls) :
    Announces s t := ⟨hs, hu, fun h => h.unfold hu hd⟩

theorem of_store_eq (hg : s.Grows t) (hs : t.store = s.store) (hd : t.decls = s.decls) : Announces s t :=
  of_decls (.of_store_eq hg hs) (hs ▸ .refl _) hd

theorem trans (h : Announces s t) (h' : Announces t u) : Announces s u :=
  ⟨h.toSparing.trans h'.toSparing, h.unfolds.trans h'.unfolds, fun hs => h'.described (h.described hs)⟩

instance : Binds Announces where
  refl s := of_store_eq (.refl s) rfl rfl
  trans := trans
  report s d hd hk := of_store_eq (Reports.report s d hd hk) rfl rfl
  refer s id e := of_store_eq (Remarks.refer s id e) rfl rfl
  define s id e := of_store_eq (Remarks.define s id e) rfl rfl
  markUsed s e := of_decls (Remarks.markUsed s e) (s.store.unfolds_markUsed e) rfl
  openScope s parent kind := of_decls (Supplies.openScope s parent kind) (s.store.unfolds_openScope parent kind) rfl
  noteScope s id scope := of_store_eq (Supplies.noteScope s id scope) rfl rfl
  bind s scope e := of_decls (Binds.bind s scope e) (s.store.unfolds_bind scope e) rfl
  newEntity s e he := of_decls (Allocates.newEntity s e he) (s.store.unfolds_newEntity e) rfl
  newPointer s _ := of_decls (.newType s _) (s.store.unfolds_newType _) rfl
  newTuple s _ := of_decls (.newType s _) (s.store.unfolds_newType _) rfl
  newProc s _ _ := of_decls (.newType s _) (s.store.unfolds_newType _) rfl

instance : ReadsFiles Announces where
  openFile s files := of_store_eq (ReadsFiles.openFile s files) rfl rfl
  newImport s info token ident :=
    of_decls ⟨ReadsFiles.newImport s info token ident, s.store.spares_newEntity (by simp [SignedForeign, Entity.typed])⟩
      (s.store.unfolds_newEntity _) rfl
  addImport s e := of_store_eq (ReadsFiles.addImport s e) rfl rfl
  warn s d hd := of_store_eq (ReadsFiles.warn s d hd) rfl rfl

instance : Prepares Announces where
  newWaiting s x hx := of_decls (Prepares.newWaiting s x hx) (s.store.unfolds_newEntity x) rfl
  hoist s id := of_store_eq (Prepares.hoist s id) rfl rfl

end Announces

/-- The entities that were made last are as their declaration says. Variables do not matter here. -/
def Roll.Titled (r : Roll) (a : Arena) : Prop := ∀ p ∈ r.entries, r.decl.variables = [] →
  ∃ x, a.entity? p.2 = some x ∧ (r.decl.entity p.1).Unfolds x

/-- A procedure is entered after its entity was made as its declaration says. -/
theorem announces_step {decl : Decl} {scope : ScopeId} {r r' : Roll} {u : Pass}
    (h : Roll.Step scope (decl.Keeps scope) r t r' u) (ht : Announces s t ∧ r.Titled t.store.arena) :
    Announces s u ∧ r'.Titled u.store.arena := by
  have hstep : Announces t u := h.along fun hkeeps => by
    refine ⟨.of_store_eq (Enters.await t _) rfl, .refl _, fun hs e scope d hmem => ?_⟩
    rcases List.mem_cons.mp hmem with heq | hmem
    · obtain ⟨rfl, hd⟩ := Prod.mk.inj heq
      obtain ⟨name, he, hk⟩ := hkeeps.name
      obtain ⟨x, hx, hunfolds⟩ := ht.2 _ he (by rw [← hd]; rfl)
      rw [← hd] at hk hunfolds
      cases hk
      have hdescribes : d.Describes ((Declaration.proc scope d).entity d.name) := ⟨rfl, _, rfl, rfl, rfl⟩
      exact ⟨x, hx, hdescribes.unfold hunfolds⟩
    · exact hs e scope d hmem
  refine ⟨ht.1.trans hstep, ?_⟩
  cases h with
  | make name d hnew =>
    intro p hp _
    obtain rfl := List.mem_singleton.mp hp
    obtain ⟨rfl, rfl⟩ := Check.newEntity_ok hnew
    exact ⟨_, by rw [Store.entity?_newEntity, if_pos rfl], .refl _⟩
  | makeAll type values hnew =>
    intro p hp hnone
    simp_all [Declaration.variables]
  | _ =>
    intro p hp hnone
    obtain ⟨x, hx, hunfolds⟩ := ht.2 p hp hnone
    obtain ⟨y, hy, hxy⟩ := hstep.unfolds.entities _ x hx
    exact ⟨y, hy, hunfolds.trans hxy⟩

instance : Registers Announces where
  register h := h.moves (I := fun s r t => Announces s t ∧ r.Titled t.store.arena) announces_step
    (fun s => ⟨Reports.refl s, by simp [Roll.Titled, Roll.blank]⟩) And.left

/-! ## Signatures that were compared -/

/-- A procedure is the first that was bound to a symbol, and a signature is similar to its own. -/
def Pass.BindsSymbol (s : Pass) (symbol : String) (u : TypeId) : Prop :=
  ∃ first w, s.foreigns.lookup symbol = some first ∧ (s.store.arena.entity first).type = some w ∧
    s.store.arena.StaySimilar u w

/-- What holds of the file level between two steps that log no error, once the declarations in `all` were entered: every
foreign procedure with a signature is similar to the first one of its symbol, but for those in `late`. -/
structure Pass.Linked (all : List (EntityId × Declaration)) (late : List EntityId) (s : Pass) : Prop where
  room : s.HasRoom
  basics : s.store.arena.HasBasics
  ground : s.store.current.id = 0 ∧ s.store.frozen = []
  decls : s.decls = all
  declared : s.Declared
  described : s.Described
  bound : ∀ {e x symbol u}, s.store.arena.entity? e = some x → x.IsForeign symbol → x.type = some u → e ∉ late →
    s.BindsSymbol symbol u

/-- An entity that some declaration in `all` is for, and which is no procedure. -/
def IsPlain (all : List (EntityId × Declaration)) (e : EntityId) : Prop :=
  ∃ p ∈ all, e ∈ p.2.variables ∨ e = p.1 ∧ p.2.sort ≠ "procedure"

theorem Arena.Unfolds.hasBasics {a b : Arena} (h : a.Unfolds b) (ha : a.HasBasics) : b.HasBasics := by
  intro k
  obtain ⟨σ, hσ, rfl | hcompletes⟩ := h.types _ _ (ha k)
  · exact hσ
  · cases hcompletes

theorem Arena.Unfolds.owns {s t : Store} (h : s.arena.Unfolds t.arena) (hid : t.current.id = s.current.id)
    {sort : String} (he : s.Owns e sort) : t.Owns e sort := by
  obtain ⟨x, hx, hsort⟩ := he.entity
  obtain ⟨y, hy, hxy⟩ := h.entities e x hx
  exact ⟨he.slab.trans hid.symm, y, hy, hxy.sort.trans hsort⟩

namespace Pass.Linked

variable {all : Pending} {late late' : List EntityId} {s t : Pass} {e : EntityId}

section

variable (h : s.Linked all late)

include h

/-- Only foreign procedures that got their signatures need a look. -/
theorem advance (hu : s.store.arena.Unfolds t.store.arena)
    (hslab : t.store.current.id = s.store.current.id ∧ t.store.frozen = s.store.frozen) (hc : t.collector = s.collector)
    (hd : t.decls = s.decls) (hf : t.foreigns = s.foreigns)
    (hback : ∀ {e y symbol u}, t.store.arena.entity? e = some y → y.IsForeign symbol → y.type = some u → e ∉ late' →
    e ∉ late ∧ ∃ x, s.store.arena.entity? e = some x ∧ x.type = some u) : t.Linked all late' where
  room := by
    unfold HasRoom
    rw [hc]
    exact h.room
  basics := hu.hasBasics h.basics
  ground := ⟨hslab.1.trans h.ground.1, hslab.2.trans h.ground.2⟩
  decls := hd.trans h.decls
  declared p hp := by
    rw [hd] at hp
    have hsuits := h.declared p hp
    exact ⟨hu.owns hslab.1 hsuits.own, fun v hv => hu.owns hslab.1 (hsuits.vars v hv), hsuits.among⟩
  described := h.described.unfold hu hd
  bound {e y symbol u} hy hforeign htype hlate := by
    obtain ⟨hlate', x, hx, hxtype⟩ := hback hy hforeign htype hlate
    obtain ⟨y', hy', hxy⟩ := hu.entities e x hx
    obtain rfl := Option.some.inj (hy.symm.trans hy')
    obtain ⟨first, w, hfirst, hw, hsimilar⟩ := h.bound hx (hxy.isForeign_iff.mp hforeign) hxtype hlate'
    exact ⟨first, w, hf ▸ hfirst, (hu.entity_unfolds hw).type w hw, hsimilar.mono hu⟩

/-- A step that gives no foreign procedure its signature. -/
theorem quiet (hu : s.store.arena.Unfolds t.store.arena) (hs : s.store.arena.Spares SignedForeign t.store.arena)
    (hslab : t.store.current.id = s.store.current.id ∧ t.store.frozen = s.store.frozen) (hc : t.collector = s.collector)
    (hd : t.decls = s.decls) (hf : t.foreigns = s.foreigns) : t.Linked all late := by
  refine h.advance hu hslab hc hd hf fun {e y symbol u} hy hforeign htype hlate => ⟨hlate, ?_⟩
  obtain ⟨x, hx, -, heq⟩ := hs e y hy (hforeign.signed htype)
  exact ⟨x, hx, heq.trans htype⟩

theorem spare (hs : Sparing SignedForeign s t) (hu : s.store.arena.Unfolds t.store.arena)
    (hc : t.collector = s.collector) (hd : t.decls = s.decls) (hf : t.foreigns = s.foreigns) : t.Linked all late :=
  h.quiet hu hs.spares ⟨hs.grows.store.id, hs.grows.store.frozen⟩ hc hd hf

/-- An entity may be filled in if it is late, or has a signature already in case it is foreign. -/
theorem modifyEntity {f : Entity → Entity} (hf : ∀ x, Entity.FillsIn x (f x)) (hsub : late ⊆ late')
    (he : e ∈ late' ∨ ∀ {x symbol}, s.store.arena.entity? e = some x → x.IsForeign symbol → x.type.isSome) :
    Pass.Linked all late' { s with store := s.store.modifyEntity e f } := by
  have hu := s.store.unfolds_modifyEntity e hf
  refine h.advance hu (by simp) rfl rfl rfl fun {e' y symbol u} hy hforeign htype hlate => ?_
  refine ⟨fun hmem => hlate (hsub hmem), ?_⟩
  dsimp only at hy
  rw [Store.entity?_modifyEntity] at hy
  split at hy
  case isTrue heq =>
    obtain ⟨-, rfl⟩ := heq
    obtain ⟨x, hx, rfl⟩ := Option.map_eq_some_iff.mp hy
    have hsome := he.resolve_left hlate hx ((Entity.Unfolds.of_fillsIn (hf x)).isForeign_iff.mp hforeign)
    obtain ⟨w, hw⟩ := Option.isSome_iff_exists.mp hsome
    exact ⟨x, hx, hw.trans (((hf x).type w hw).symm.trans htype)⟩
  case isFalse => exact ⟨y, hy, htype⟩

theorem not_isForeign (he : IsPlain all e) (hx : s.store.arena.entity? e = some x) (symbol : String) :
    ¬ x.IsForeign symbol := by
  obtain ⟨p, hp, hplain⟩ := he
  have hsuits := h.declared p (h.decls ▸ hp)
  obtain ⟨sort, hsort, hown⟩ : ∃ sort, sort ≠ "procedure" ∧ s.store.Owns e sort := by
    rcases hplain with hmem | ⟨rfl, hsort⟩
    · exact ⟨"variable", by simp, hsuits.vars e hmem⟩
    · exact ⟨_, hsort, hsuits.own⟩
  rintro ⟨info, hkind, -, -⟩
  have hname := hown.kind
  rw [Arena.entity_eq hx, hkind] at hname
  exact hsort hname.symm

end

/-- A late procedure is late no more once its signature was compared. -/
theorem settle (h : s.Linked all [e])
    (he : ∀ {x symbol u}, s.store.arena.entity? e = some x → x.IsForeign symbol → x.type = some u →
      s.BindsSymbol symbol u) : s.Linked all [] := by
  refine { h with bound := fun {e' x symbol u} hx hforeign htype _ => ?_ }
  by_cases heq : e' = e
  · exact he (heq ▸ hx) hforeign htype
  · exact h.bound hx hforeign htype (by simpa using heq)

/-! ## Steps -/

theorem carries (hs : Sparing SignedForeign s t) (hu : s.store.arena.Unfolds t.store.arena)
    (hc : t.collector = s.collector) (hd : t.decls = s.decls) (hf : t.foreigns = s.foreigns) :
    Carries (Pass.Linked all late) s t := ⟨.of_eq hc fun h => h.spare hs hu hc hd hf, hs.grows⟩

theorem carries_of_store_eq (hg : s.Grows t) (hs : t.store = s.store) (hc : t.collector = s.collector)
    (hd : t.decls = s.decls) (hf : t.foreigns = s.foreigns) : Carries (Pass.Linked all late) s t :=
  carries (.of_store_eq hg hs) (hs ▸ .refl _) hc hd hf

/-- A type that was allocated before a run is completed after it. -/
theorem carries_fill {u : Pass} {τ : Ty} {f : Ty → Ty} (hf : τ.Completes (f τ))
    (h : Carries (Pass.Linked all late) { s with store := (s.store.newType τ).2 } u) :
    Carries (Pass.Linked all late) s { u with store := u.store.modifyType (s.store.newType τ).1 f } where
  grows := ⟨h.grows.store.fill _, h.grows.decls, h.grows.notes⟩
  log := (LogGrows.of_collector_eq rfl).trans (h.log.trans (.of_collector_eq rfl))
  keeps hsilent hs := by
    have hnew := hs.spare (Sparing.newType s τ) (s.store.unfolds_newType τ) rfl rfl rfl
    have hread := h.grows.store.toExtends.types (s.store.newType τ).1 τ (by rw [Store.type?_newType, if_pos rfl])
    refine (h.keeps hsilent hnew).quiet (u.store.unfolds_modifyType _ fun σ hσ => ?_)
      (.of_eq (u.store.entity?_modifyType _ _)) (by simp) rfl rfl rfl
    obtain rfl := Option.some.inj (hread.symm.trans hσ)
    exact hf

instance : Binds (Carries (Pass.Linked all late)) :=
  .of_still (R := Announces) (fun h hst => carries h.toSparing h.unfolds hst.collector hst.decls hst.foreigns) .trans
    fun s d hd _ => .report Pass.Linked.room s d hd

instance : Observes (Carries (Pass.Linked all late)) where
  annotate s id note := carries_of_store_eq (Observes.annotate s id note) rfl rfl rfl rfl

instance : BuildsTypes (Carries (Pass.Linked all late)) where
  newType s τ _ _ := carries (.newType s τ) (s.store.unfolds_newType τ) rfl rfl rfl
  fillEnum _ _ _ _ _ h := carries_fill (.enum ..) h

instance : OpensNames (Carries (Pass.Linked all late)) (IsPlain all) where
  fillIn s e _ he hf :=
    ⟨.of_eq rfl fun h => h.modifyEntity hf (List.Subset.refl _) (.inr fun hx hforeign =>
      absurd hforeign (h.not_isForeign he hx _)),
      .of_store (.modifyEntity s.store e fun x => .of_settles (hf x).toSettles)⟩
  stopNamed s _ name e _ h :=
    Reports.trans (carries (.newType s (.named name none e)) (s.store.unfolds_newType _) rfl rfl rfl) h
  fillNamed _ _ _ _ _ h := carries_fill (.named ..) h

instance : Records (Carries (Pass.Linked all late)) where
  record s m := carries_of_store_eq (Records.record s m) rfl rfl rfl rfl

end Pass.Linked

/-! ## Procedures -/

/-- A procedure got its signature, and was not compared yet unless it had one before. -/
structure Pass.Signs (all : List (EntityId × Declaration)) (e : EntityId) (u : TypeId) (s : Pass) : Prop where
  linked : s.Linked all [e]
  read : ∃ params results, s.store.arena.type? u = some (.proc params results)
  typed : s.Linked all [] ∨ (s.store.arena.entity e).type = some u

/-- A procedure is filled in. It gets the signature, unless it has one. -/
theorem Pass.Linked.signs {all : Pending} {u : TypeId}
    {params results : List TypeId} (h : s.Linked all []) (hown : s.store.Owns e "procedure")
    (hread : s.store.arena.type? u = some (.proc params results)) (scope : ScopeId) :
    Pass.Signs all e u { s with store := (s.store.setType e u).modifyEntity e fun x =>
      match x.kind with
      | .procedure info => { x with kind := .procedure { info with scope := some scope } }
      | _ => x } := by
  have hset (y : Entity) := Check.fillsIn_setType y u
  have hfill (y : Entity) := Check.fillsIn_setScope y scope
  obtain ⟨x, hx, -⟩ := hown.entity
  have hx' : (s.store.setType e u).arena.entity? e = some { x with type := x.type.or (some u) } := by
    rw [Store.setType, Store.entity?_modifyEntity, if_pos ⟨hown.slab, rfl⟩, hx, Option.map_some]
  have hlate : Pass.Linked all [e] { s with store := s.store.setType e u } :=
    h.modifyEntity hset (List.nil_subset _) (.inl (List.mem_singleton_self e))
  refine ⟨hlate.modifyEntity hfill (List.Subset.refl _) (.inl (List.mem_singleton_self e)), ⟨params, results, ?_⟩, ?_⟩
  · dsimp only
    rw [Store.type?_modifyEntity, Store.setType, Store.type?_modifyEntity]
    exact hread
  · cases htype : x.type with
    | some w =>
      have hset' : Pass.Linked all [] { s with store := s.store.setType e u } := by
        refine h.modifyEntity hset (List.Subset.refl _) (.inr fun hy _ => ?_)
        cases hx.symm.trans hy
        simp [htype]
      refine .inl (hset'.modifyEntity hfill (List.Subset.refl _) (.inr fun hy _ => ?_))
      cases hx'.symm.trans hy
      simp [htype]
    | none =>
      refine .inr ?_
      have hslab : e.slab = (s.store.setType e u).current.id := by rw [hown.slab, Store.setType, Store.id_modifyEntity]
      dsimp only
      rw [Arena.entity, Store.entity?_modifyEntity, hx', if_pos ⟨hslab, rfl⟩, Option.map_some, Option.getD_some]
      split <;> simp [htype]

namespace Check

variable {all : Pending} {resolve : Resolver} {ctx : Context} {e : EntityId} {d : ProcDecl}
  {s t : Pass} {u : TypeId}

theorem signs_of_clean {x : Check Unit} (hx : ∀ late, Moves (Carries (Pass.Linked all late)) x) (h : Clean x s () t)
    (hs : s.Signs all e u) : t.Signs all e u := by
  obtain ⟨params, results, hread⟩ := hs.read
  have hext := ((hx []).ok h.run).grows.store.toExtends
  exact ⟨(hx [e]).carried h hs.linked, ⟨params, results, hext.types u _ hread⟩,
    hs.typed.imp ((hx []).carried h) hext.entity_type⟩

theorem type_signature {scope : Option ScopeId} {sig : Signature} (h : signature resolve ctx scope sig s = .ok u t) :
    ∃ params results, t.store.arena.type? u = some (.proc params results) := by
  obtain ⟨node, params, results⟩ := sig
  unfold signature at h
  obtain ⟨ps, s₁, -, h⟩ := bind_eq_ok.mp h
  obtain ⟨rs, s₂, -, h⟩ := bind_eq_ok.mp h
  obtain ⟨v, s₃, hnew, h⟩ := bind_eq_ok.mp h
  obtain ⟨_, s₄, hnote, h⟩ := bind_eq_ok.mp h
  obtain ⟨rfl, rfl⟩ := newType_ok hnew
  cases hnote
  cases h
  exact ⟨ps, rs, by rw [Store.type?_newType, if_pos rfl]⟩

section

variable (hr : ∀ ctx e, Moves (Carries (Pass.Linked all [])) (resolve ctx e))

include hr

/-- A procedure that is filled in gets a signature, unless it has one. -/
theorem signs_procSignature {scope' : ScopeId} (h : Clean (procSignature resolve ctx e d) s (scope, u) t)
    (hs : s.Linked all []) (hd : (e, .proc scope' d) ∈ all) : t.Signs all e u := by
  have hlog (ctx : Context) (e : EntityId) : Moves LogGrows (resolve ctx e) := (hr ctx e).mono fun _ _ h => h.log
  have hsignature (scope : ScopeId) : Moves LogGrows (signature resolve (ctx.within scope) (some scope) d.signature) :=
    moves_anySignature hlog
  unfold procSignature at h
  obtain ⟨scope, s₁, hopen, h⟩ := h.split (by grind)
  obtain ⟨v, s₂, hsig, h⟩ := h.split (by grind)
  obtain ⟨_, s₃, hset, h⟩ := h.split (by grind)
  obtain ⟨_, s₄, hscope, h⟩ := h.split (by grind)
  obtain ⟨heq, rfl⟩ := h.of_pure
  cases heq
  have hs₂ : s₂.Linked all [] :=
    (moves_anySignature hr).carried hsig (moves_openScope.carried hopen hs)
  obtain ⟨params, results, hread⟩ := type_signature hsig.run
  have hown : s₂.store.Owns e "procedure" := (hs₂.declared _ (hs₂.decls ▸ hd)).own
  obtain ⟨x, hx, -⟩ := hown.entity
  cases hset.run
  cases hscope.run
  exact hs₂.signs hown hread scope

end

/-- Only procedure types are similar, so whatever a signature is similar to is the type of something. -/
theorem exists_type_of_similar {a : Arena} (hbasics : a.HasBasics) (h : a.similarSignatures u (x.type.getD .invalid)) :
    ∃ w, x.type = some w ∧ a.similarSignatures u w := by
  cases htype : x.type with
  | some w =>
    rw [htype] at h
    exact ⟨w, rfl, h⟩
  | none =>
    rw [htype] at h
    obtain ⟨⟨params, results, hbase⟩, -⟩ := Arena.similarSignatures_iff.mp (Arena.similarSignatures_symm h)
    have hinvalid : a.base .invalid = .basic .invalid :=
      Arena.base_of_type? (hbasics .invalid) fun _ _ _ h => by cases h
    cases hinvalid.symm.trans hbase

/-- A foreign procedure is compared with the first one of its symbol, or becomes the first. -/
theorem linked_bindForeign (h : Clean (bindForeign d e u) s () t) (hs : s.Signs all e u)
    (hx : s.store.arena.entity? e = some x) (hd : d.Describes x) : t.Linked all [] := by
  have hlog (previous : EntityId) (a : Arena) : Moves LogGrows
      (if !a.similarSignatures u ((a.entity previous).type.getD .invalid) then
        report d.token (.foreignMismatch d.symbol (a.entity previous).token.pos)
      else pure ()) := by grind
  obtain ⟨params, results, hread⟩ := hs.read
  unfold bindForeign at h
  have h := h.read
  split at h
  case h_1 previous hprevious =>
    have h := h.readArena
    dsimp only at h
    split at h
    case isTrue => exact absurd h not_clean_report
    case isFalse hsimilar =>
      obtain ⟨-, rfl⟩ := h.of_pure
      simp only [Bool.not_eq_true', Bool.not_eq_false] at hsimilar
      obtain ⟨w, hw, hsimilar⟩ := exists_type_of_similar hs.linked.basics hsimilar
      rcases hs.typed with hlinked | htype
      · exact hlinked
      · refine hs.linked.settle fun hx' hforeign hu' => ?_
        obtain rfl := Option.some.inj (hx.symm.trans hx')
        rw [Arena.entity_eq hx] at htype
        obtain rfl := Option.some.inj (htype.symm.trans hu')
        obtain ⟨-, rfl⟩ := hd.isForeign_iff.mp hforeign
        exact ⟨previous, w, hprevious, hw, .of_similar (Store.dense hs.linked.ground.1 hs.linked.ground.2) hsimilar⟩
  case h_2 hnone =>
    cases h.run
    refine { hs.linked with bound := fun {e' x' symbol u'} hx' hforeign hu' _ => ?_ }
    -- what is bound has another symbol, which had no first one until now
    have hold (h : s.BindsSymbol symbol u') : symbol ≠ d.symbol := by
      obtain ⟨first, w, hfirst, -⟩ := h
      rintro rfl
      cases hnone.symm.trans hfirst
    by_cases heq : e' = e
    · subst heq
      obtain rfl := Option.some.inj (hx.symm.trans hx')
      obtain ⟨-, rfl⟩ := hd.isForeign_iff.mp hforeign
      rcases hs.typed with hlinked | htype
      · exact absurd rfl (hold (hlinked.bound hx hforeign hu' (by simp)))
      · have hu := htype
        rw [Arena.entity_eq hx] at hu
        obtain rfl := Option.some.inj (hu.symm.trans hu')
        refine ⟨e', u, ?_, htype, .self (Arena.base_of_type? hread fun _ _ _ h => by cases h)⟩
        exact List.lookup_cons_self
    · have hbinds := hs.linked.bound hx' hforeign hu' (by simpa using heq)
      have hne := hold hbinds
      obtain ⟨first, w, hfirst, hw, hsimilar⟩ := hbinds
      refine ⟨first, w, ?_, hw, hsimilar⟩
      have hlookup : List.lookup symbol ((d.symbol, e) :: s.foreigns) = s.foreigns.lookup symbol := by
        rw [List.lookup_cons, beq_false_of_ne hne]
      exact hlookup.trans hfirst

/-- A foreign procedure that is checked without an error stands at file level and has no body. -/
theorem linked_foreignProc {fileLevel : Bool} (h : Clean (foreignProc d fileLevel e u) s () t) (hs : s.Signs all e u)
    (hx : s.store.arena.entity? e = some x) (hd : d.Describes x) : t.Linked all [] := by
  unfold foreignProc at h
  cases fileLevel with
  | false =>
    exact (h.not_report (by grind)).elim
  | true =>
    cases hbody : d.body with
    | some body =>
      rw [hbody] at h
      exact (h.not_report (by grind)).elim
    | none =>
      rw [hbody] at h
      exact linked_bindForeign h hs hx hd

/-- What becomes of a procedure that is not foreign. -/
theorem moves_conclude {R : Pass → Pass → Prop} [Observes R] {fileLevel : Bool}
    (hforeign : d.tags.foreign → Moves R (foreignProc d fileLevel e u))
    (hlink : ∀ s p, R s { s with links := s.links ++ [p] }) (hqueue : ∀ s b, R s { s with queue := s.queue ++ [b] }) :
    Moves R (conclude d fileLevel e scope u) := by
  have hbody : Moves R (enqueueBody d e scope u) := by
    unfold enqueueBody
    split
    · exact .of_ok (fun _ _ => rfl) fun s => ⟨_, _, rfl, hqueue s _⟩
    · exact moves_report rfl
  unfold conclude
  split
  case isTrue h => exact hforeign h
  case isFalse =>
    dsimp only
    split
    · exact moves_bind (moves_reserveLink fun s => hlink s _) fun _ => hbody
    · exact hbody

theorem linked_conclude {fileLevel : Bool} {scope' : ScopeId} (h : Clean (conclude d fileLevel e scope u) s () t)
    (hs : s.Signs all e u) (hd : (e, .proc scope' d) ∈ all) : t.Linked all [] := by
  obtain ⟨x, hx, hdescribes⟩ := hs.linked.described e scope' d (hs.linked.decls ▸ hd)
  cases hforeign : d.tags.foreign with
  | true =>
    rw [conclude, if_pos hforeign] at h
    exact linked_foreignProc h hs hx hdescribes
  | false =>
    have hlinked : s.Linked all [] := hs.linked.settle fun hx' hforeign' _ => by
      obtain rfl := Option.some.inj (hx.symm.trans hx')
      simp [hdescribes.isForeign_iff.mp hforeign'] at hforeign
    have hmoves : Moves (Carries (Pass.Linked all [])) (conclude d fileLevel e scope u) :=
      moves_conclude (by simp [hforeign])
        (fun s p => Pass.Linked.carries_of_store_eq (Demands.claimLink s p) rfl rfl rfl rfl)
        fun s b => Pass.Linked.carries_of_store_eq (Demands.enqueue s b) rfl rfl rfl rfl
    exact hmoves.carried h hlinked

section

variable (hr : ∀ ctx e, Moves (Carries (Pass.Linked all [])) (resolve ctx e))

include hr

theorem linked_procedure (h : Clean (procedure resolve ctx e d) s () t) (hs : s.Linked all [])
    (hd : (e, .proc scope d) ∈ all) : t.Linked all [] := by
  have hlog (ctx : Context) (e : EntityId) : Moves LogGrows (resolve ctx e) := (hr ctx e).mono fun _ _ h => h.log
  have hsignature : Moves LogGrows (procSignature resolve ctx e d) :=
    moves_procSignature (fun scope => moves_anySignature hlog) trivial
  have hconclude (fileLevel : Bool) (scope : ScopeId) (u : TypeId) : Moves LogGrows (conclude d fileLevel e scope u) :=
    moves_conclude (fun _ => moves_foreignProc) (fun s p => Demands.claimLink s p) fun s b =>
      Demands.enqueue s b
  have hend {fileLevel : Bool} {scope' : ScopeId} {u : TypeId} {s₁ : Pass} (hs₁ : s₁.Signs all e u) (h : Clean (do
      procTags d
      conclude d fileLevel e scope' u) s₁ () t) : t.Linked all [] := by
    obtain ⟨_, s₂, htags, h⟩ := h.split (by grind)
    exact linked_conclude h (signs_of_clean (fun _ => moves_procTags) htags hs₁) hd
  rw [procedure_eq] at h
  obtain ⟨⟨scope', u⟩, s₁, hsig, h⟩ := h.bind hsignature (by grind)
  have hs₁ := signs_procSignature hr hsig hs hd
  have h := h.readArena
  dsimp only at h
  split at h
  · obtain ⟨_, s₃, hentry, h⟩ := h.split (by grind)
    exact hend (signs_of_clean (fun _ => moves_entryPointSignature) hentry hs₁) h
  · exact hend hs₁ h

end

/-! ## Demands -/

theorem linked_demandFrom (pending : Pending) (hsub : pending ⊆ all) (ctx : Context)
    (e : EntityId) : Moves (Carries (Pass.Linked all [])) (demandFrom pending ctx e) := by
  refine .carries (moves_demandFrom pending ctx e) (moves_demandFrom pending ctx e) Pass.Linked.room
    fun {s _ t} h hs => ?_
  rcases h.demandFrom_cases with ⟨-, rfl⟩ | ⟨-, ⟨-, rfl⟩ | ⟨d, rest, s₁, taken, hrun, rfl⟩⟩
  · exact hs
  · exact hs
  · have hlt := length_lt_of_take? taken
    obtain ⟨hmem, hrest⟩ := subset_of_take? taken
    have hr := fun ctx e => linked_demandFrom rest (List.Subset.trans hrest hsub) ctx e
    have hs' := carries_record hs (.enter e)
    refine carries_record ?_ (.leave e)
    cases d with
    | constant scope type value =>
      exact (moves_constant (fun reading x => moves_expr hr _ reading x) ⟨_, hsub hmem,
        .inr ⟨rfl, by simp [Declaration.sort]⟩⟩).carried hrun hs'
    | vars scope entities type values =>
      exact (moves_varDecl (fun reading x => moves_expr hr _ reading x) (fun v hv => ⟨_, hsub hmem, .inl hv⟩) type
        values).carried hrun hs'
    | type scope type =>
      exact (moves_namedType (fun reading => moves_expr hr _ reading type)
        ⟨_, hsub hmem, .inr ⟨rfl, by simp [Declaration.sort]⟩⟩).carried hrun hs'
    | proc scope d => exact linked_procedure hr hrun hs' (hsub hmem)
termination_by pending.length

theorem linked_demand (ctx : Context) (e : EntityId) : Moves (Carries (Pass.Linked all [])) (demand ctx e) := by
  refine .carries (moves_demand ctx e) (moves_demand ctx e) Pass.Linked.room fun {s _ t} h hs => ?_
  have hdecls : s.decls ⊆ all := hs.decls ▸ List.Subset.refl _
  exact (linked_demandFrom s.decls hdecls ctx e).carried h.demandFrom_of_demand hs

end Check

/-! ## The file level -/

theorem Universe.not_isProcedure (hx : store.arena.entity? e = some x) (info : ProcedureInfo) :
    x.kind ≠ .procedure info := by
  have hall : ∀ i < store.current.entities.size, (store.arena.entity ⟨0, i⟩).isProcedure = false := by
    decide +kernel
  obtain ⟨slab, index⟩ := e
  have hread := hx
  rw [Store.entity?_arena, Store.below, store_slabs.1] at hread
  split at hread
  case isTrue hslab =>
    obtain rfl : 0 = slab := store_slabs.2.symm.trans hslab
    have hnone := hall index (Array.getElem?_eq_some_iff.mp hread).1
    intro hkind
    simp [Arena.entity, hx, Entity.isProcedure, hkind] at hnone
  case isFalse => cases hread

instance : ReadsFiles KeepsDeclared :=
  .of_idle (R := Lists []) (fun h _ _ => .of_decls h.grows h.decls) KeepsDeclared.trans

/-- A state of the file level in which nothing was declared. -/
structure Pass.Blank (s : Pass) : Prop where
  room : s.HasRoom
  basics : s.store.arena.HasBasics
  ground : s.store.current.id = 0 ∧ s.store.frozen = []
  decls : s.decls = []
  procedures : ∀ {e x}, s.store.arena.entity? e = some x → ∀ info, x.kind ≠ .procedure info

theorem Pass.Blank.start {store : Store} {links : List (String × Pos)} {collector : Collector}
    (hroom : collector.count ≤ collector.cap) (hbasics : store.arena.HasBasics)
    (hslabs : store.frozen = [] ∧ store.current.id = 0)
    (hprocedures : ∀ {e x}, store.arena.entity? e = some x → ∀ info, x.kind ≠ .procedure info) :
    (Pass.start store links collector).Blank where
  room h := absurd (of_decide_eq_true h) (Nat.not_lt.mpr hroom)
  basics := hbasics
  ground := hslabs.symm
  decls := rfl
  procedures := hprocedures

/-- When the declarations were entered, no foreign procedure has a signature. -/
theorem Announces.linked (h : Announces s t) (hd : KeepsDeclared s t) (hs : s.Blank) (hroom : t.HasRoom) :
    t.Linked t.decls [] where
  room := hroom
  basics := h.unfolds.hasBasics hs.basics
  ground := ⟨h.grows.store.id.trans hs.ground.1, h.grows.store.frozen.trans hs.ground.2⟩
  decls := rfl
  declared := hd.declared (by simp [Pass.Declared, hs.decls])
  described := h.described (by simp [Pass.Described, hs.decls])
  bound {e y symbol u} hy hforeign htype _ := by
    obtain ⟨x, hx, hkind, -⟩ := h.spares e y hy (hforeign.signed htype)
    obtain ⟨info, hinfo, -⟩ := hforeign
    exact absurd (hkind.trans hinfo) (hs.procedures hx info)

namespace Check

/-- At the end of the file level every foreign procedure was compared with the first one of its symbol. -/
theorem linked_fileLevel {config : Config} {files : List File} (h : Clean (fileLevel config files) s () t)
    (hs : s.Blank) : ∃ all, t.Linked all [] := by
  have hc := Context.AtTop.outer config .global
  have hopen := moves_openFiles (R := LogGrows) files
  unfold fileLevel at h
  obtain ⟨_, s₁, hopened, h⟩ := h.split (by grind)
  obtain ⟨es, s₂, hcollect, h⟩ := h.split (by grind)
  obtain ⟨_, s₃, hresolve, h⟩ := h.split (by grind)
  have hannounced : Announces s s₃ :=
    .trans (.trans ((moves_openFiles files).ok hopened.run) (moves_collectFiles.ok hcollect.run))
      (moves_resolveFiles.ok hresolve.run)
  have hdeclared : KeepsDeclared s s₃ :=
    .trans (.trans ((moves_openFiles files).ok hopened.run) (moves_collectFiles.ok hcollect.run))
      (moves_resolveFiles.ok hresolve.run)
  have hroom : s₃.HasRoom :=
    ((hs.room.of_silent (hopen.ok hopened.run) hopened.silent).of_silent (moves_collectFiles.ok hcollect.run)
      hcollect.silent).of_silent (moves_resolveFiles.ok hresolve.run) hresolve.silent
  have hevaluates : Evaluates (Carries (Pass.Linked s₃.decls [])) :=
    { expr := fun ctx reading e _ => moves_expr linked_demand ctx reading e
      demand := fun ctx e _ => linked_demand ctx e }
  have hdemands : Moves (Carries (Pass.Linked s₃.decls [])) (do
      demandTurn (.outer config .global) .types es
      demandTurn (.outer config .global) .constants es
      demandTurn (.outer config .global) .procedures es
      demandTurn (.outer config .global) .vars es
      entryPoint config files) := by grind
  exact ⟨_, hdemands.carried h (hannounced.linked hdeclared hs hroom)⟩

end Check

/-! ## Accepted programs -/

theorem Pass.Numbered.le {frozen : List Slab} {id : Nat} {passes : List Pass} (h : Numbered frozen id passes) :
    ∀ s ∈ passes, id ≤ s.store.current.id := by
  induction h with
  | nil => simp
  | cons hstore _ ih =>
    exact List.forall_mem_cons.mpr ⟨Nat.le_of_eq hstore.1.symm, fun s hs => Nat.le_of_succ_le (ih s hs)⟩

namespace Program.Runs

variable {config : Config} {files : List File} {s : Pass} {passes : List Pass}

section

variable (h : Runs config files s passes)

include h

theorem linked : ∃ all, s.Linked all [] :=
  Check.linked_fileLevel h.fileLevel
    (.start (Nat.zero_le _) Universe.type?_basic Universe.store_slabs Universe.not_isProcedure)

/-- The jobs only mark what the file level made. -/
theorem unfolds : s.store.arena.Unfolds (checkFiles config files).arena := by
  rw [h.arena]
  exact h.jobs.numbered.unfolds h.slabs_lt

/-- What is in slab 0 was made by the file level. -/
theorem exists_fileLevel {y : Entity} (he : e.slab = 0) (hy : (checkFiles config files).arena.entity? e = some y) :
    ∃ x, s.store.arena.entity? e = some x ∧ x.kind = y.kind ∧ x.Keeps y ∧ x.type = y.type := by
  obtain ⟨r, hr, hslab, x, hx, hxy⟩ := h.maker hy
  obtain ⟨hkind, -, hkeeps⟩ := Entity.keeps_of_used hxy
  have htype : x.type = y.type := by rcases hxy with rfl | rfl <;> rfl
  rcases List.mem_cons.mp hr with rfl | hr
  · exact ⟨x, hx, hkind, hkeeps, htype⟩
  · have hle := h.jobs.numbered.le r hr
    omega

/-- A foreign procedure of the file level was bound to its symbol. -/
theorem bindsSymbol {symbol : String} {u : TypeId} (he : e.slab = 0)
    (hx : (checkFiles config files).arena.entity? e = some x) (hforeign : x.IsForeign symbol) (hu : x.type = some u) :
    s.BindsSymbol symbol u := by
  obtain ⟨all, hlinked⟩ := h.linked
  obtain ⟨y, hy, hkind, hkeeps, htype⟩ := h.exists_fileLevel he hx
  have hforeign' := (Entity.Unfolds.of_kind hkeeps hkind.symm).isForeign_iff.mp hforeign
  exact hlinked.bound hy hforeign' (htype.trans hu) (by simp)

end

end Program.Runs

/-- In an accepted program any two foreign procedures of the file level, which is in slab 0, have similar signatures
if they stand for one symbol. -/
theorem foreign_symbols_agree {config : Config} {files : List File} (h : (checkFiles config files).Accepted)
    {symbol : String} {e e' : EntityId} {x x' : Entity} (he : e.slab = 0) (he' : e'.slab = 0)
    (hx : (checkFiles config files).arena.entity? e = some x)
    (hx' : (checkFiles config files).arena.entity? e' = some x') (hforeign : x.IsForeign symbol)
    (hforeign' : x'.IsForeign symbol) :
    ∃ u u', x.type = some u ∧ x'.type = some u' ∧ (checkFiles config files).arena.similarSignatures u u' := by
  have htyped {e : EntityId} {x : Entity} (hx : (checkFiles config files).arena.entity? e = some x) :
      ∃ u, x.type = some u :=
    Option.ne_none_iff_exists'.mp fun hnone => (Program.complete_of_stop h.1).typed e ⟨x, hx, hnone⟩
  obtain ⟨u, hu⟩ := htyped hx
  obtain ⟨u', hu'⟩ := htyped hx'
  obtain ⟨s, passes, hruns⟩ := h.runs
  obtain ⟨_, hmerges⟩ := Program.merges_checkFiles config files
  obtain ⟨first, w, hfirst, hw, hsimilar⟩ := hruns.bindsSymbol he hx hforeign hu
  obtain ⟨first', w', hfirst', hw', hsimilar'⟩ := hruns.bindsSymbol he' hx' hforeign' hu'
  -- both were compared with the same procedure
  obtain rfl := Option.some.inj (hfirst.symm.trans hfirst')
  obtain rfl := Option.some.inj (hw.symm.trans hw')
  have h₁ := hsimilar _ hruns.unfolds hmerges.layered
  have h₂ := hsimilar' _ hruns.unfolds hmerges.layered
  exact ⟨u, u', hu, hu', Arena.similarSignatures_trans h₁ (Arena.similarSignatures_symm h₂)⟩

/-! Three foreign procedures in two files stand for one symbol. Two of them are compared with the first one only: the
types of their parameters and results are different, and pointers throughout. -/

namespace SharedSymbol

open Builder in
/-- A foreign procedure with a parameter and a result. -/
def foreign (name : String) (param result : Expr) (symbol : Option String) : Build Stmt := do
  procDecl name (← signature [← field ["p"] param false] [result]) none ⟨true, false, false⟩ symbol none

open Builder in
/-- The type `P : ^int`, and two procedures that are declared with the symbol `f`. -/
def named : Build (List Stmt) := return [
  ← typeDecl "P" (← pointer (← name "int")),
  ← foreign "open" (← name "P") (← pointer (← name "int")) (some "f"),
  ← foreign "read" (← name "rawptr") (← pointer (← name "u8")) (some "f")]

open Builder in
/-- A procedure that has the symbol as its name. -/
def unnamed : Build (List Stmt) := return [
  ← foreign "f" (← pointer (← pointer (← name "int"))) (← name "rawptr") none]

/-- One file for each. -/
def files : List File := [⟨"a", (named (.start "a")).1⟩, ⟨"b", (unnamed (.start "b")).1⟩]

/-- What the procedure `read` is in the end. -/
def read : Entity :=
  { Entity.typed (.procedure ⟨some ⟨0, 4⟩, ⟨true, false, false⟩, some "f", none⟩) ⟨"read", ⟨"a", 18, 1⟩, ⟨59, 4⟩⟩
      (some 14) ⟨0, 28⟩ with
    home := some ⟨0, 1⟩ }

/-- What the procedure `f` is in the end. -/
def own : Entity :=
  { Entity.typed (.procedure ⟨some ⟨0, 5⟩, ⟨true, false, false⟩, none, none⟩) ⟨"f", ⟨"b", 7, 1⟩, ⟨22, 1⟩⟩
      (some 6) ⟨0, 31⟩ with
    home := some ⟨0, 2⟩ }

/-- What is read off the program in one evaluation. -/
theorem spec : (checkFiles .standard files).Accepted ∧
    (checkFiles .standard files).arena.entity? ⟨0, 31⟩ = some read ∧
    (checkFiles .standard files).arena.entity? ⟨0, 32⟩ = some own := by
  decide +kernel

end SharedSymbol

theorem foreign_symbols_agree_shared :
    (checkFiles .standard SharedSymbol.files).Accepted ∧ SharedSymbol.read.IsForeign "f" ∧
      SharedSymbol.own.IsForeign "f" ∧
      (checkFiles .standard SharedSymbol.files).arena.similarSignatures ⟨0, 28⟩ ⟨0, 31⟩ := by
  have hread : SharedSymbol.read.IsForeign "f" := ⟨_, rfl, rfl, rfl⟩
  have hown : SharedSymbol.own.IsForeign "f" := ⟨_, rfl, rfl, rfl⟩
  obtain ⟨haccepted, hx, hx'⟩ := SharedSymbol.spec
  obtain ⟨u, u', hu, hu', hsimilar⟩ := foreign_symbols_agree haccepted rfl rfl hx hx' hread hown
  obtain rfl := Option.some.inj hu
  obtain rfl := Option.some.inj hu'
  exact ⟨haccepted, hread, hown, hsimilar⟩

end Statics
