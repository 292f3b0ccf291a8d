import Statics.Proofs.Captures.Runs

/-!
# Names that stay resolved

While declarations are checked, new scopes are opened and new entities are bound, and nothing else is. So a name that
stands for an entity in the end stood for it whenever the entity was there and the name stood for anything.
`Arena.Steady` is the relation of two arenas that gives this, and demands keep it.
-/

namespace Statics

variable {x : Entity} {y : EntityId} {r : EntityId × ScopeId} {info : ImportInfo} {found scope : ScopeId}
  {name : String}

/-- An expression mentions an entity: a name in it is found to stand for the entity, or a selection from an import is.
Names are looked up from one scope. -/
inductive Expr.Mentions (a : Arena) (scope : ScopeId) : Expr → EntityId → Prop where
  | name {n : Ident} {e : EntityId} {found : ScopeId} : a.lookup scope n.name = some (e, found) →
    Mentions a scope (.name n) e
  | imported {n : Node} {base : Expr} {field : Ident} {id e : EntityId} {info : ImportInfo} :
    Check.importNamed? a scope base = some (id, info) → a.lookupLocal info.scope field.name = some e →
    Mentions a scope (.select n base field) e
  | inside {e part : Expr} {y : EntityId} : part ∈ e.children → Mentions a scope part y → Mentions a scope e y

/-- From one arena to another, scopes stay where they are and keep their bindings. What is bound in them besides was not
there before, and no import is new. -/
structure Arena.Steady (a b : Arena) : Prop where
  entities : ∀ e, (a.entity? e).isSome → (b.entity? e).isSome
  imports : ∀ e y info, b.entity? e = some y → y.kind = .importName info →
    ∃ x, a.entity? e = some x ∧ x.kind = .importName info
  scopes : ∀ f c, a.scope? f = some c → ∃ d, b.scope? f = some d ∧ d.parent = c.parent ∧
    (∀ name e, c.bindings.get? name = some e → d.bindings.get? name = some e) ∧
    ∀ name e, d.bindings.get? name = some e → (a.entity? e).isSome → c.bindings.get? name = some e

namespace Arena.Steady

variable {a b c : Arena}

theorem refl (a : Arena) : a.Steady a :=
  ⟨fun _ h => h, fun _ y _ hy hkind => ⟨y, hy, hkind⟩, fun _ c hc => ⟨c, hc, rfl, fun _ _ h => h, fun _ _ h _ => h⟩⟩

theorem trans (h : a.Steady b) (h' : b.Steady c) : a.Steady c where
  entities e he := h'.entities e (h.entities e he)
  imports e z info hz hkind := by
    obtain ⟨y, hy, hkind⟩ := h'.imports e z info hz hkind
    exact h.imports e y info hy hkind
  scopes f x hx := by
    obtain ⟨y, hy, hparent, hkept, hold⟩ := h.scopes f x hx
    obtain ⟨z, hz, hparent', hkept', hold'⟩ := h'.scopes f y hy
    refine ⟨z, hz, hparent'.trans hparent, fun name e he => hkept' name e (hkept name e he), fun name e he hsome => ?_⟩
    exact hold name e (hold' name e he (h.entities e hsome)) hsome

/-- Entities may change, but not to imports, while the scopes stay as they are. -/
theorem of_scopes (hs : ∀ f, b.scope? f = a.scope? f) (he : ∀ e, (a.entity? e).isSome → (b.entity? e).isSome)
    (hi : ∀ e y info, b.entity? e = some y → y.kind = .importName info →
      ∃ x, a.entity? e = some x ∧ x.kind = .importName info) : a.Steady b :=
  ⟨he, hi, fun f c hc => ⟨c, (hs f).trans hc, rfl, fun _ _ h => h, fun _ _ h _ => h⟩⟩

theorem of_eq (hs : ∀ f, b.scope? f = a.scope? f) (he : ∀ e, b.entity? e = a.entity? e) : a.Steady b :=
  of_scopes hs (fun e h => by rwa [he]) fun e y _ hy hkind => ⟨y, (he e).symm.trans hy, hkind⟩

/-! ## Looking names up -/

theorem lookupLocal_kept (h : a.Steady b) {f : ScopeId} {e : EntityId}
    (he : a.lookupLocal f name = some e) : b.lookupLocal f name = some e := by
  cases hc : a.scope? f with
  | none => simp [lookupLocal, scope, hc, Scope.blank] at he
  | some c =>
    obtain ⟨d, hd, -, hkept, -⟩ := h.scopes f c hc
    simp only [lookupLocal, scope, hc, hd, Option.getD_some] at he ⊢
    exact hkept name e he

/-- What a way out finds in the end is what a way out found before, if that found something and the entity was there.
The two ways may be cut at different lengths. -/
theorem findSome_eq (h : a.Steady b) (hy : (a.entity? y).isSome) {m n : Nat} {from? : Option ScopeId}
    (hb : (b.chainWithin m from?).findSome? (fun s => (b.lookupLocal s name).map fun e => (e, s)) = some (y, found))
    (ha : (a.chainWithin n from?).findSome? (fun s => (a.lookupLocal s name).map fun e => (e, s)) = some r) :
    r = (y, found) := by
  -- the induction is on the way in the first arena; the other one follows it
  induction n generalizing m from? with
  | zero => simp [chainWithin] at ha
  | succ n ih =>
    cases from? with
    | none => simp [chainWithin] at ha
    | some f =>
      cases m with
      | zero => simp [chainWithin] at hb
      | succ m =>
        cases hc : a.scope? f with
        | none =>
          have hend : a.chainWithin n (a.scope f).parent = [] := by
            cases n <;> simp [scope, hc, Scope.blank, chainWithin]
          rw [chainWithin, hend] at ha
          simp [lookupLocal, scope, hc, Scope.blank, Bindings.get?, Bindings.empty] at ha
        | some c =>
          obtain ⟨d, hd, hparent, hkept, hold⟩ := h.scopes f c hc
          have hread : a.scope f = c ∧ b.scope f = d := by simp [scope, hc, hd]
          rw [chainWithin, List.findSome?_cons] at ha hb
          simp only [lookupLocal, hread.1, hread.2, hparent] at ha hb
          cases hlocal : d.bindings.get? name with
          | some e =>
            simp only [hlocal, Option.map_some, Option.some.injEq, Prod.mk.injEq] at hb
            obtain ⟨rfl, rfl⟩ := hb
            simpa [hold name e hlocal hy, eq_comm] using ha
          | none =>
            have hnone : c.bindings.get? name = none := by
              refine Option.eq_none_iff_forall_ne_some.mpr fun e he => ?_
              rw [hkept name e he] at hlocal
              cases hlocal
            simp only [hlocal, hnone, Option.map_none] at ha hb
            exact ih hb ha

theorem lookup_eq (h : a.Steady b) (hy : (a.entity? y).isSome) (hb : b.lookup scope name = some (y, found))
    (ha : a.lookup scope name = some r) : r = (y, found) := h.findSome_eq hy hb ha

end Arena.Steady

namespace Check

/-- An import is selected from by its bare name. -/
theorem importNamed?_eq_some {base : Expr} {id : EntityId} :
    importNamed? a scope base = some (id, info) ↔ ∃ n found, base = .name n ∧ a.lookup scope n.name = some (id, found) ∧
      (a.entity id).kind = .importName info := by
  cases base with
  | name n =>
    cases hlookup : a.lookup scope n.name with
    | none => simp [importNamed?, Expr.asName?, hlookup]
    | some r =>
      simp only [importNamed?, Expr.asName?, hlookup, Option.bind_eq_bind, Option.bind_some]
      grind
  | _ => simp [importNamed?, Expr.asName?]

/-- An import that a name stands for in the end it stood for before, if it stood for anything. -/
theorem importNamed?_of_steady {b : Arena} (h : a.Steady b) {n : Ident} {id : EntityId}
    (hb : importNamed? b scope (.name n) = some (id, info)) (ha : a.lookup scope n.name = some r) :
    importNamed? a scope (.name n) = some (id, info) := by
  obtain ⟨m, found, hm, hlookup, hkind⟩ := importNamed?_eq_some.mp hb
  cases hm
  cases hy : b.entity? id with
  | none => simp [Arena.entity, hy, Entity.blank] at hkind
  | some y =>
    rw [Arena.entity_eq hy] at hkind
    obtain ⟨x, hx, hkind'⟩ := h.imports id y info hy hkind
    refine importNamed?_eq_some.mpr ⟨n, found, rfl, ?_, by rw [Arena.entity_eq hx, hkind']⟩
    rw [ha, h.lookup_eq (by simp [hx]) hlookup ha]

end Check

/-! ## Steps -/

namespace Store

theorem steady_modifyEntity (s : Store) (e : EntityId) {g : Entity → Entity}
    (hg : ∀ x info, (g x).kind = .importName info → x.kind = .importName info) :
    s.arena.Steady (s.modifyEntity e g).arena :=
  .of_scopes (s.scope?_modifyEntity e g) (by grind) (by grind [Option.map_eq_some_iff])

theorem steady_markUsed (s : Store) (e : EntityId) : s.arena.Steady (s.markUsed e).arena :=
  .of_scopes (s.scope?_markUsed e) (by grind) (by grind [Option.map_eq_some_iff])

theorem steady_openScope (s : Store) (parent : ScopeId) (kind : ScopeKind) :
    s.arena.Steady (s.openScope parent kind).2.arena where
  entities := by grind
  imports := by grind
  scopes f c hc := ⟨{ c with children := s.offspring parent kind f c }, by grind, rfl, fun _ _ h => h, fun _ _ h _ => h⟩

theorem steady_newEntity (s : Store) (hx : x.isOrdinary) : s.arena.Steady (s.newEntity x).2.arena :=
  .of_scopes (s.scope?_newEntity x) (by grind) (by grind [Entity.isOrdinary])

/-- A new entity may be bound, since it was not there before. -/
theorem steady_newBound (s : Store) (f : ScopeId) (hx : x.isOrdinary) :
    s.arena.Steady ((s.newEntity x).2.bind f (s.newEntity x).1).2.arena where
  entities := by grind
  imports := by grind [Option.map_eq_some_iff, Entity.isOrdinary]
  scopes f' c hc := by
    rw [scope?_bind, scope?_newEntity, hc]
    split
    · exact ⟨_, rfl, rfl, by grind [Bindings.get?_insert], by grind [Bindings.get?_insert, Option.or_eq_some_iff]⟩
    · exact ⟨c, rfl, rfl, fun _ _ h => h, fun _ _ h _ => h⟩

theorem steady_newType (s : Store) (τ : Ty) : s.arena.Steady (s.newType τ).2.arena :=
  .of_eq (s.scope?_newType τ) (s.entity?_newType τ)

theorem steady_modifyType (s : Store) (u : TypeId) (g : Ty → Ty) : s.arena.Steady (s.modifyType u g).arena :=
  .of_eq (s.scope?_modifyType u g) (s.entity?_modifyType u g)

end Store

/-- The arena of a pass is steady on the way from one state to another. -/
def Pass.Steady (s t : Pass) : Prop := s.store.arena.Steady t.store.arena

namespace Pass.Steady

variable {s t u : Pass}

theorem trans (h : s.Steady t) (h' : t.Steady u) : s.Steady u := Arena.Steady.trans h h'

theorem of_store_eq (h : t.store = s.store) : s.Steady t := by
  rw [Steady, h]
  exact .refl _

theorem newType (s : Pass) (τ : Ty) : s.Steady { s with store := (s.store.newType τ).2 } := s.store.steady_newType τ

theorem fill {τ : Ty} (h : Pass.Steady { s with store := (s.store.newType τ).2 } u) (g : Ty → Ty) :
    s.Steady { u with store := u.store.modifyType (s.store.newType τ).1 g } :=
  ((newType s τ).trans h).trans (u.store.steady_modifyType _ g)

instance : Demands Pass.Steady where
  refl _ := of_store_eq rfl
  trans := trans
  report _ _ _ _ := of_store_eq rfl
  annotate _ _ _ := of_store_eq rfl
  refer _ _ _ := of_store_eq rfl
  define _ _ _ := of_store_eq rfl
  markUsed s e := s.store.steady_markUsed e
  openScope s parent kind := s.store.steady_openScope parent kind
  noteScope _ _ _ := of_store_eq rfl
  newBound s scope _ hx _ := s.store.steady_newBound scope hx
  newEntity s _ hx := s.store.steady_newEntity hx
  newPointer s _ := newType s _
  newTuple s _ := newType s _
  newProc s _ _ := newType s _
  newType s τ _ _ := newType s τ
  fillEnum _ _ _ _ _ h := h.fill _
  settle s e _ _ hg := s.store.steady_modifyEntity e fun x _ => Pass.Shelters.importName_of_settles (hg x)
  claimSymbol _ _ := of_store_eq rfl
  stopNamed s _ _ _ _ h := (newType s _).trans h
  fillNamed _ _ _ _ _ h := h.fill _
  record _ _ := of_store_eq rfl
  claimLink _ _ := of_store_eq rfl
  enqueue _ _ := of_store_eq rfl

end Pass.Steady

end Statics
