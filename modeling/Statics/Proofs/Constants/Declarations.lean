import Statics.Proofs.Constants.Invariant

/-!
# Checks of constants and type names

The check of a constant gives it a type, and a value if its initial value is constant. The check of a type name gives
it a name as its type, and that name a base once its type expression was read. The other declarations leave constants
and type names alone, so a demand keeps the invariant by induction on the declarations that are still pending.
-/

namespace Statics

variable {f : Entity → Entity} {focus' : EntityId → Prop} {scope : ScopeId} {u target : TypeId} {z : Entity}
  {purpose : Purpose} {token : Token}

variable {files : List File} {pending : Pending} {underway underway' : List EntityId}
  {focus : EntityId → Prop} {s t : Pass}

namespace Pass.Valued

/-- A constant or type name got a type, and perhaps a value. -/
theorem settle {sort : String} (h : s.Valued files pending underway focus)
    (hkeeps : ∀ x, Entity.Keeps x (f x)) (hown : s.store.Owns e sort)
    (hbegun : ∀ e' ∈ underway', e' = e ∨ e' ∈ underway) (hended : ∀ e' ∈ underway, e' = e ∨ e' ∈ underway')
    (htyped : ∀ x, s.store.arena.entity? e = some x → (f x).type.isSome)
    (hname : sort = "type name" → e ∈ underway' ∧ ∀ x, s.store.arena.entity? e = some x → (f x).kind = .typeName →
      ∀ u, (f x).type = some u → s.store.arena.Rooted u)
    (hvalue : ∀ x, s.store.arena.entity? e = some x → (f x).kind = .constant none →
      e ∈ underway' ∨ Lapses files (s.store.modifyEntity e f).arena s.notes (f x)) :
    Pass.Valued files pending underway' focus { s with store := s.store.modifyEntity e f } := by
  obtain ⟨x, hx, hsort⟩ := hown.entity
  have ha := Advances.of_grows (.of_store (.modifyEntity s.store e hkeeps))
  have hnow : (s.store.modifyEntity e f).arena.entity? e = some (f x) := by
    rw [Store.entity?_modifyEntity, if_pos ⟨hown.slab, rfl⟩, hx]
    rfl
  have hothers {e' : EntityId} (he : e' ≠ e) :
      (s.store.modifyEntity e f).arena.entity? e' = s.store.arena.entity? e' := by
    rw [Store.entity?_modifyEntity, if_neg fun h => he h.2]
  have hisName (hk : (f x).kind = .typeName) : sort = "type name" := by
    rw [← hsort, ← (hkeeps x).sort, hk]
    rfl
  -- A type name that was underway still is.
  have hstays {e' : EntityId} {u : TypeId} (ht : s.store.arena.HasTitle e' u)
    (he' : e' ∈ underway) : e' ∈ underway' := by
    rcases hended e' he' with rfl | he'
    · have hk := ht.1
      simp only [Arena.entity_eq hx] at hk
      exact (hname (hsort ▸ by rw [hk]; rfl)).1
    · exact he'
  refine ⟨h.room, ha.types.hasBasics h.basics, ?_, ?_, ha.declared rfl h.declared, h.pending, ?_, h.queue, ?_, ?_, ?_⟩
  · intro e' u ht
    by_cases he : e' = e
    · subst he
      simp only [Arena.HasTitle, Arena.entity_eq hnow] at ht
      exact ha.types.rooted ((hname (hisName ht.1)).2 x hx ht.1 u ht.2)
    · simp only [Arena.HasTitle, Arena.entity, hothers he] at ht
      exact ha.types.rooted (h.names ht)
  · intro e' u ht hn
    by_cases he : e' = e
    · subst he
      simp only [Arena.HasTitle, Arena.entity_eq hnow] at ht
      exact .inl (hname (hisName ht.1)).1
    · simp only [Arena.HasTitle, Arena.entity, hothers he] at ht
      have hbefore := ha.types.isName_of_isName (h.names ht).isSome hn
      exact (h.closed ht hbefore).imp (hstays ht) (Exists.imp fun _ => ha.types.hasBase)
  · exact fun p hp => ha.comesFrom (h.origins p hp)
  · exact fun e he => (h.focus e he).imp fun _ hsort => ⟨hsort.1, hsort.2.1, ha.owns hsort.2.2⟩
  · intro e' he'
    rcases hbegun e' he' with rfl | he'
    · simpa only [Arena.entity_eq hnow] using htyped x hx
    · exact ha.isSome_type (h.begun e' he')
  · intro e' y hy hu
    by_cases he : e' = e
    · subst he
      obtain rfl : f x = y := Option.some.inj (hnow.symm.trans hy.entity)
      rcases hy.kind with hk | ⟨hk, -⟩
      · exact (hvalue x hx hk).imp_right fun hlapses => ⟨fun _ => hlapses, fun hk' => by simp [hk] at hk'⟩
      · exact .inl (hname (hisName hk)).1
    · obtain ⟨hfollows, hkind, hxy⟩ := hy.before ha (hothers he ▸ hy.entity)
      rcases h.typed hfollows hu with hmem | haccounts
      · exact .inl ((hended e' hmem).resolve_left he)
      · exact .inr (haccounts.advance ha hxy hkind fun ht he => .inl (hstays ht he))

theorem settleConstant (h : s.Valued files pending underway focus)
    (hkeeps : ∀ x, Entity.Keeps x (f x)) (hown : s.store.Owns e "constant")
    (hbegun : ∀ e' ∈ underway', e' = e ∨ e' ∈ underway) (hended : ∀ e' ∈ underway, e' = e ∨ e' ∈ underway')
    (htyped : ∀ x, s.store.arena.entity? e = some x → (f x).type.isSome)
    (hvalue : ∀ x, s.store.arena.entity? e = some x → (f x).kind = .constant none →
      e ∈ underway' ∨ Lapses files (s.store.modifyEntity e f).arena s.notes (f x)) :
    Pass.Valued files pending underway' focus { s with store := s.store.modifyEntity e f } :=
  h.settle hkeeps hown hbegun hended htyped (fun hsort => by simp at hsort) hvalue

theorem keeps_setType (u : TypeId) (z : Entity) : z.Keeps { z with type := z.type.or (some u) } :=
  ⟨rfl, rfl, rfl, rfl, fun u hu => by simp [hu], fun v hv => ⟨v, hv⟩⟩

theorem isSome_setType : (z.type.or (some u)).isSome := by cases z.type <;> rfl

section

variable (h : s.Valued files pending underway focus)

include h

/-- A type name got the type it stands for, and is underway from then on. -/
theorem settleName (hown : s.store.Owns e "type name") (hu : s.store.arena.Rooted u) :
    Pass.Valued files pending (e :: underway) focus { s with store := s.store.setType e u } := by
  have hread {x : Entity} (hx : s.store.arena.entity? e = some x) : s.store.arena.entity e = x := by
    simp [Arena.entity, hx]
  refine h.settle (keeps_setType u) hown (fun _ h => List.mem_cons.mp h) (fun _ h => .inr (List.mem_cons_of_mem e h))
    (fun x _ => isSome_setType) (fun _ => ⟨List.mem_cons_self, ?_⟩) ?_
  · intro x hx hk v hv
    cases htype : x.type with
    | none =>
      obtain rfl : u = v := by simpa [htype] using hv
      exact hu
    | some w =>
      obtain rfl : w = v := by simpa [htype] using hv
      rw [← hread hx] at hk htype
      exact h.names ⟨hk, htype⟩
  · intro x hx hk
    have hsort := hown.kind
    rw [hread hx, show x.kind = .constant none from hk] at hsort
    simp [EntityKind.name] at hsort

theorem withPending {rest : Pending} (hrest : rest ⊆ s.decls) :
    s.Valued files rest underway focus := { h with pending := hrest }

theorem withFocus (hf : ∀ e, focus' e → ∃ sort, sort ≠ "constant" ∧ sort ≠ "type name" ∧ s.store.Owns e sort) :
    s.Valued files pending underway focus' := { h with focus := hf }

/-- What may be settled before a run may be so after it. -/
theorem regain (hg : s.Grows t) (ht : t.Valued files pending underway focus') : t.Valued files pending underway focus :=
  ht.withFocus fun e he => (h.focus e he).imp fun _ hsort => ⟨hsort.1, hsort.2.1, hsort.2.2.grows hg.store⟩

end

end Pass.Valued

namespace Check

variable {x y : Operand} {v : Constant}

/-! ## Storing constants -/

/-- The results of all clean runs have some property. -/
structure Secures {α : Type} (P : α → Prop) (x : Check α) : Prop where
  log : Moves LogGrows x
  clean : ∀ {s a t}, Clean x s a t → P a

section

variable {α β : Type} {P : β → Prop}

@[grind ←]
theorem secures_pure {b : β} (h : P b) : Secures P (pure b : Check β) where
  log := moves_pure b
  clean hb := hb.of_pure.1 ▸ h

@[grind ←]
theorem secures_bind {x : Check α} {f : α → Check β} (hx : Moves LogGrows x) (hf : ∀ a, Secures P (f a)) :
    Secures P (x >>= f) where
  log := moves_bind hx fun a => (hf a).log
  clean h := by
    obtain ⟨a, t, -, ht⟩ := h.bind hx fun a => (hf a).log
    exact (hf a).clean ht

@[grind ←]
theorem Refuses.secures {x : Check β} (h : Refuses x) : Secures P x := ⟨h.log, fun hx => absurd hx h.not_clean⟩

end

/-- Operands that are constants with a value. -/
structure HasConstant (x : Operand) : Prop where
  mode : x.mode = .constant
  value : x.constant?.isSome

@[grind ←]
theorem secures_rejectMode {P : Operand → Prop} (e : Expr) (p : Problem) : Secures P (rejectMode x e p) :=
  ((refuses_report e.token p).bind fun _ => moves_pure _).secures

section

variable (hx : HasConstant x)

include hx

theorem secures_convertNil : Secures HasConstant (convertNil x target token) := by
  have hpure : HasConstant { x with type := target } := ⟨hx.mode, hx.value⟩
  unfold convertNil
  grind

theorem secures_convertTo {kind : Kind} : Secures HasConstant (convertTo x kind target token) := by
  have hpure (w : Constant) : HasConstant { x with constant? := some w, type := target } := ⟨hx.mode, rfl⟩
  have hsame : HasConstant { x with type := target } := ⟨hx.mode, hx.value⟩
  unfold convertTo
  grind

/-- A constant keeps its value, unless it would become a float that no value of its kind is known to be. -/
theorem hasConstant_of_convertUntyped (h : Clean (convertUntyped x target token) s y t)
    (hfloat : s.store.arena.kind? x.type = some .untypedInt → s.store.arena.kind? target ≠ some .untypedFloat) :
    HasConstant y := by
  have hkeep (h : Clean (pure x) s y t) : HasConstant y := h.of_pure.1 ▸ hx
  have h := h.readArena
  split at h
  · exact hkeep h
  · split at h
    case h_1 => exact (secures_convertNil hx).clean h
    case h_2 source kind _ hsource hkind =>
      split at h
      · split at h
        case isTrue hboth =>
          simp only [Bool.and_eq_true, beq_iff_eq] at hboth
          obtain ⟨rfl, rfl⟩ := hboth
          exact absurd hkind (hfloat hsource)
        case isFalse => exact hkeep h
      · split at h
        · exact (secures_convertTo hx).clean h
        · exact hkeep h
    case h_3 => exact hkeep h

@[grind ←]
theorem secures_store {e : Expr} : Secures HasConstant (store x e target purpose) := by
  unfold store
  grind

/-- A constant that was stored without an error is still one. -/
theorem hasConstant_of_assign {e : Expr} (h : Clean (assign x e (some target) purpose) s y t)
    (hfloat : s.store.arena.kind? x.type = some .untypedInt → s.store.arena.kind? target ≠ some .untypedFloat) :
    HasConstant y := by
  simp only [assign, hx.mode] at h
  have h := h.readArena
  split at h
  · exact h.of_pure.1 ▸ hx
  · split at h
    · obtain ⟨z, s₁, hconvert, h⟩ := h.split (by grind)
      have hz := hasConstant_of_convertUntyped hx hconvert hfloat
      split at h
      · exact h.of_pure.1 ▸ hz
      · exact (secures_store hz).clean h
    · exact (secures_store hx).clean h

end

/-! ## The check of a constant -/

section

variable {e : EntityId} {name : Ident} {init : Expr}

variable (hs : s.Valued files pending underway' focus) (hbegun : ∀ e' ∈ underway, e' ∈ underway')
  (hended : ∀ e' ∈ underway', e' = e ∨ e' ∈ underway) (hown : s.store.Owns e "constant")

include hs hbegun hended hown

/-- A constant that gets no value lapses with its type. -/
theorem valued_lapsed (hlapses : ∀ z, s.store.Lacks e z →
      Lapses files s.store.arena s.notes { z with type := z.type.or (some u) }) :
    Pass.Valued files pending underway focus { s with store := s.store.setType e u } := by
  refine hs.settleConstant (Pass.Valued.keeps_setType u) hown (fun e' he' => .inr (hbegun e' he')) hended
    (fun z _ => Pass.Valued.isSome_setType) fun z hz hkind => .inr ?_
  have ha := Pass.Advances.of_grows (.of_store (Store.Grows.setType s.store e u))
  exact (hlapses z ⟨hown.slab, hz, hkind⟩).retain ha.toRetains (.refl _)

/-- A constant that has its type gets a value. -/
theorem valued_given (v : Constant) (htyped : (s.store.arena.entity e).type.isSome) :
    Pass.Valued files pending underway focus { s with store := s.store.modifyEntity e fun entity =>
      match entity.kind with
      | .constant _ => { entity with kind := .constant (some v) }
      | _ => entity } := by
  refine hs.settleConstant ?_ hown (fun e' he' => .inr (hbegun e' he')) hended ?_ ?_
  · intro z
    constructor <;> grind [EntityKind.name]
  · intro z hz
    simp only [Arena.entity_eq hz] at htyped
    split <;> exact htyped
  · intro z hz
    have hkind := hown.kind
    simp only [Arena.entity_eq hz] at hkind
    cases hk : z.kind <;> simp_all [EntityKind.name]

/-- A constant whose initial value is constant gets it as its value, or lapses where there is none to store. -/
theorem valued_stored (h : Clean (do
      setType e u
      let y ← assign x init (some u) .constantDeclaration
      match y.isInvalid, y.constant? with
      | false, some v => onStore fun s => s.modifyEntity e fun entity =>
          match entity.kind with
          | .constant _ => { entity with kind := .constant (some v) }
          | _ => entity
      | _, _ => pure ()) s () t) (hx : x.mode = .constant)
    (hlapses : x.constant? = none ∨
        s.store.arena.kind? x.type = some .untypedInt ∧ s.store.arena.kind? u = some .untypedFloat →
      ∀ z, s.store.Lacks e z → Lapses files s.store.arena s.notes { z with type := z.type.or (some u) }) :
    t.Valued files pending underway focus := by
  have hlog := moves_setType (R := LogGrows) (F := fun _ => True) (e := e) trivial u
  obtain ⟨_, s₁, hset, h⟩ := h.split (by grind)
  cases hset.run
  obtain ⟨y, s₂, hassign, hvalue⟩ := h.split (by grind)
  have hgrows : Pass.Grows _ s₂ := (moves_assign x init (some u) .constantDeclaration).ok hassign.run
  have hown₂ := hown.grows ((Store.Grows.setType s.store e u).trans hgrows.store)
  have hcarry {w : List EntityId} (hs₁ : Pass.Valued files pending w focus { s with store := s.store.setType e u }) :=
    (moves_assign x init (some u) .constantDeclaration).carried hassign hs₁
  have htyped : (s₂.store.arena.entity e).type.isSome := by
    refine hgrows.isSome_type ?_
    obtain ⟨z, hz, -⟩ := hown.entity
    simp [Arena.entity, Store.setType, Store.entity?_modifyEntity, hown.slab, hz]
  by_cases hbad : x.constant? = none ∨
      s.store.arena.kind? x.type = some .untypedInt ∧ s.store.arena.kind? u = some .untypedFloat
  case pos =>
    have hs₂ := hcarry (valued_lapsed hs hbegun hended hown (hlapses hbad))
    split at hvalue
    · cases hvalue.run
      exact valued_given hs₂ (fun _ h => h) (fun _ h => .inr h) hown₂ _ htyped
    · obtain ⟨-, rfl⟩ := hvalue.of_pure
      exact hs₂
  case neg =>
    have hs₁ : Pass.Valued files pending (e :: underway) focus { s with store := s.store.setType e u } := by
      refine hs.settleConstant (Pass.Valued.keeps_setType u) hown
        (fun e' he' => (List.mem_cons.mp he').imp_right (hbegun e')) ?_ (fun z _ => Pass.Valued.isSome_setType) ?_
      · exact fun e' he' => (hended e' he').imp_right fun h => List.mem_cons_of_mem e h
      · exact fun _ _ _ => .inl List.mem_cons_self
    have hs₂ := hcarry hs₁
    have hy : HasConstant y := by
      refine hasConstant_of_assign ⟨hx,
        Option.isSome_iff_ne_none.mpr fun h => hbad (.inl h)⟩ hassign fun hint hfloat => ?_
      have hkind := Arena.kind?_congr (s.store.type?_modifyEntity e fun x => { x with type := x.type.or (some u) })
      exact hbad (.inr ⟨(hkind x.type).symm.trans hint, (hkind u).symm.trans hfloat⟩)
    obtain ⟨v, hv⟩ := Option.isSome_iff_exists.mp hy.value
    have hvalid : y.isInvalid = false := by simp [Operand.isInvalid, hy.mode]
    simp only [hv, hvalid] at hvalue
    cases hvalue.run
    exact valued_given hs₂ (fun e' he' => List.mem_cons_of_mem e he') (fun e' he' => List.mem_cons.mp he') hown₂ v
      htyped

omit hs hbegun hended hown in
/-- Settling does not turn an integer into an untyped float. -/
theorem kind?_settledType (hb : s.store.arena.HasBasics) {v : TypeId} (hv : s.store.arena.kind? v = some .untypedInt) :
    s.store.arena.kind? (s.store.arena.settledType v) ≠ some .untypedFloat := by
  unfold Arena.settledType
  split
  · split
    · rename_i k _ _
      rw [hb.kind?_basic]
      cases k <;> simp [Kind.settled]
    · simp [hv]
  · simp [hv]

/-- The last step of the check: the constant gets its value, or it lapses. -/
theorem valued_initConstant (h : Clean (initConstant e x init) s () t) (hx : x.Firm s.store.arena)
    (hnoted : (init.id, x.note) ∈ s.notes.types.entries) (hdeclares : DeclaresConstant files name init)
    (hident : (s.store.arena.entity e).ident = some name.id)
    (htype : ∀ {z u}, s.store.Lacks e z → z.type = some u →
      Lapses files s.store.arena s.notes z ∨ s.store.arena.Rooted u) :
    t.Valued files pending underway focus := by
  have hlog := fun u => moves_setType (R := LogGrows) (F := fun _ => True) (e := e) trivial u
  have hnote (u : TypeId) {z : Entity} (hz : s.store.Lacks e z) (hvalue : x.mode = .constant → x.constant? = none) :
      Lapses files s.store.arena s.notes { z with type := z.type.or (some u) } := by
    simp only [Arena.entity_eq hz.entity] at hident
    exact ⟨name, init, hdeclares, hident, .inl ⟨x.note, hnoted, hvalue⟩⟩
  -- A declared type that is invalid or untyped stays the type of the constant, whatever else it is given.
  have hdeclared (u : TypeId) {z : Entity} {v : TypeId} {k : Kind} (hz : s.store.Lacks e z) (hv : z.type = some v)
      (hbase : s.store.arena.base v = .basic k) (hk : k = .invalid ∨ k.isUntyped) :
      Lapses files s.store.arena s.notes { z with type := z.type.or (some u) } := by
    have hsame : ({ z with type := z.type.or (some u) } : Entity) = z := by
      cases z
      simp_all
    simp only [Arena.entity_eq hz.entity] at hident
    rw [hsame]
    rcases htype hz hv with hlapses | hrooted
    · exact hlapses
    · exact ⟨name, init, hdeclares, hident, .inr ⟨v, k, hv, hrooted.readsKind hbase, hk⟩⟩
  unfold initConstant at h
  have h := h.readArena
  dsimp only at h
  split at h
  case isTrue hinvalid =>
    cases h.run
    refine valued_lapsed hs hbegun hended hown fun z hz => ?_
    simp only [Bool.or_eq_true] at hinvalid
    rcases hinvalid with (hmode | hbad) | hbad
    · exact hnote _ hz fun hv => by simp [Operand.isInvalid, hv] at hmode
    · exact hnote _ hz fun hv => by simp [hx hv] at hbad
    · simp only [Arena.entity_eq hz.entity] at hbad
      cases hu : z.type with
      | none => simp [hu] at hbad
      | some v =>
        have hlapses := hdeclared .invalid hz hu (hs.basics.isInvalid_iff.mp (by simpa [hu] using hbad)) (.inl rfl)
        rwa [hu] at hlapses
  case isFalse =>
    split at h
    case h_1 hmode =>
      refine valued_stored hs hbegun hended hown h hmode fun hbad z hz => ?_
      rcases hbad with hnone | ⟨hint, hfloat⟩
      · exact hnote _ hz fun _ => hnone
      · simp only [Arena.entity_eq hz.entity] at hfloat
        cases hu : z.type with
        | none =>
          rw [hu] at hfloat
          exact absurd hfloat (kind?_settledType hs.basics hint)
        | some v =>
          rw [hu, Option.getD_some] at hfloat
          have hlapses :=
            hdeclared (s.store.arena.settledType x.type) hz hu (Arena.kind?_eq_some.mp hfloat) (.inr (by rfl))
          simpa [hu] using hlapses
    case h_2 =>
      exact (h.not_report (by grind)).elim

end

/-- Demands that keep the invariant, whatever is underway. -/
structure Keeping (files : List File) (pending : List (EntityId × Declaration)) (resolve : Resolver) : Prop where
  carries : ∀ underway focus ctx e,
    Moves (Carries (Pass.Valued files pending underway focus)) (resolve ctx e)
  log : ∀ ctx e, Moves LogGrows (resolve ctx e)
  grows : ∀ ctx e, Moves Pass.Grows (resolve ctx e)

section

variable {resolve : Resolver} {ctx : Context} {e : EntityId}

/-- What is known of the type of a constant whose check goes on. -/
def Recorded (files : List File) (s : Pass) (e : EntityId) : Prop :=
  ∀ {z u}, s.store.Lacks e z → z.type = some u → Lapses files s.store.arena s.notes z ∨ s.store.arena.Rooted u

theorem Recorded.grows (h : Recorded files s e) (hg : s.Grows t) (hown : s.store.Owns e "constant")
    (htyped : (s.store.arena.entity e).type.isSome) : Recorded files t e := by
  intro y u hy hu
  have ha := Pass.Advances.of_grows hg
  obtain ⟨z, hz, -⟩ := hown.entity
  obtain ⟨v, hv⟩ := Option.isSome_iff_exists.mp htyped
  simp only [Arena.entity_eq hz] at hv
  obtain ⟨hlacks, hzy⟩ := hy.before ha hz
  rcases h hlacks hv with hlapses | hrooted
  · exact .inl (hlapses.retain ha.toRetains hzy)
  · obtain rfl : v = u := Option.some.inj ((hzy.type v hv).symm.trans hu)
    exact .inr (ha.types.rooted hrooted)

/-- Outside the check of a constant, it is dropped once it has a type. -/
theorem recorded_of_valued (hs : s.Valued files pending underway focus) (he : e ∉ underway) : Recorded files s e := by
  intro z u hz hu
  exact .inl ((hs.dropped hz (by simp [hu])).resolve_left he)

/-- A constant gets its declared type. -/
theorem valued_withType (hs : s.Valued files pending underway focus) (he : e ∉ underway)
    (hown : s.store.Owns e "constant") (hu : s.store.arena.Rooted u) :
    Pass.Valued files pending (e :: underway) focus { s with store := s.store.setType e u } ∧
      Recorded files { s with store := s.store.setType e u } e := by
  have ha := Pass.Advances.of_grows (.of_store (Store.Grows.setType s.store e u))
  constructor
  · refine hs.settleConstant (Pass.Valued.keeps_setType u) hown (fun e' he' => List.mem_cons.mp he') ?_
      (fun z _ => Pass.Valued.isSome_setType) fun _ _ _ => .inl List.mem_cons_self
    exact fun e' he' => .inr (List.mem_cons_of_mem e he')
  · intro y v hy hv
    obtain ⟨z, hz, -⟩ := hown.entity
    obtain ⟨hlacks, hzy⟩ := hy.before ha hz
    cases htype : z.type with
    | some w => exact .inl (((hs.dropped hlacks (by simp [htype])).resolve_left he).retain ha.toRetains hzy)
    | none =>
      right
      have hnow := hy.entity
      rw [Store.setType, Store.entity?_modifyEntity, if_pos ⟨hown.slab, rfl⟩, hz] at hnow
      cases hnow
      simp only [htype, Option.none_or, Option.some.injEq] at hv
      exact ha.types.rooted (hv ▸ hu)

/-- The check of a constant leaves it with a value, or dropped. -/
theorem valued_constant (hr : Keeping files pending resolve) {type value : Option Expr}
    (h : Clean (constant resolve ctx e type value) s () t) (hs : s.Valued files pending underway focus)
    (hown : s.store.Owns e "constant") (hfrom : (Declaration.constant scope type value).ComesFrom files s.store.arena e)
    (hnone : (s.store.arena.entity e).type = none) : t.Valued files pending underway focus := by
  have he : e ∉ underway := fun he => by simpa [hnone] using hs.begun e he
  have hx := fun reading x => moves_expr hr.log ctx reading x
  have hlog := fun u => moves_setType (R := LogGrows) (F := fun _ => True) (e := e) trivial u
  have hinit := fun x init => moves_initConstant (R := LogGrows) (F := fun _ => True) (e := e) trivial x init
  obtain ⟨name, init, z, rfl, hdeclares, hz, hident⟩ := hfrom
  have hlast {s' : Pass} {underway' : List EntityId} (hg : s.Grows s') (hs' : s'.Valued files pending underway' focus)
      (hbegun : ∀ e' ∈ underway, e' ∈ underway') (hended : ∀ e' ∈ underway', e' = e ∨ e' ∈ underway)
      (hrecorded : ∀ {s''}, s'.Grows s'' → s''.Valued files pending underway' focus → Recorded files s'' e)
      (h : Clean (do initConstant e (← expr resolve ctx .value init) init) s' () t) :
      t.Valued files pending underway focus := by
    obtain ⟨y, s₃, hy, h⟩ := h.split (by grind)
    have hs₃ := (moves_expr (hr.carries underway' focus) ctx .value init).carried hy hs'
    have hgrows : s'.Grows s₃ := (moves_expr hr.grows ctx .value init).ok hy.run
    have hident₃ := ((hg.trans hgrows).store.toExtends.entity_keeps hz).2.ident.trans hident
    have hnoted := List.mem_of_mem_head? (notesLast_expr ctx .value init _ _ _ ⟨hy.run⟩)
    exact valued_initConstant hs₃ hbegun hended (hown.grows (hg.trans hgrows).store) h
      (expr_firm hr.grows hs'.basics ⟨hy.run⟩) hnoted hdeclares hident₃ (hrecorded hgrows hs₃)
  unfold constant at h
  cases type with
  | none =>
    exact hlast (.refl s) hs (fun _ h => h) (fun _ h => .inr h) (fun _ hs' => recorded_of_valued hs' he) h
  | some type =>
    obtain ⟨y, s₁, hy, h⟩ := h.split (by grind)
    obtain ⟨_, s₂, hset, h⟩ := h.split (by grind)
    have hs₁ := (moves_expr (hr.carries underway focus) ctx (.type none) type).carried hy hs
    have hgrows : s.Grows s₁ := (moves_expr hr.grows ctx (.type none) type).ok hy.run
    have hown₁ := hown.grows hgrows.store
    have hrooted := (yieldsType_expr hr.grows ⟨hy.run⟩ hs₁.basics).rooted hs₁.names
    obtain ⟨hs₂, hrecorded⟩ := valued_withType hs₁ he hown₁ hrooted
    cases hset.run
    have hset : s₁.Grows { s₁ with store := s₁.store.setType e y.type } := .of_store (.setType ..)
    refine hlast (hgrows.trans hset) hs₂ (fun _ h => List.mem_cons_of_mem e h) (fun _ h => List.mem_cons.mp h) ?_ h
    exact fun hg _ => hrecorded.grows hg (hown₁.grows hset.store) (hs₂.begun e List.mem_cons_self)

/-! ## The check of a type name -/

/-- A type name without a type stands for the one it is given. -/
theorem hasTitle_setType {s : Store} (hown : s.Owns e "type name") (hnone : (s.arena.entity e).type = none)
    (u : TypeId) : (s.setType e u).arena.HasTitle e u := by
  obtain ⟨x, hx, hsort⟩ := hown.entity
  simp only [Arena.entity_eq hx] at hnone
  rw [Arena.HasTitle, Arena.entity, Store.setType, Store.entity?_modifyEntity, if_pos ⟨hown.slab, rfl⟩, hx]
  simp only [Option.map_some, Option.getD_some, hnone, Option.none_or, and_true]
  cases hk : x.kind <;> simp_all [EntityKind.name]

/-- Filling in a name that is open keeps all types. -/
theorem refines_close {named base : TypeId} {name : String}
    (hnamed : s.store.arena.type? named = some (.named name none e)) (hbase : s.store.arena.IsProper base) :
    s.store.arena.Refines (s.store.modifyType named (Ty.withBase base)).arena := by
  intro u τ hu
  have hne : base ≠ named := by
    rintro rfl
    exact hbase.not_isName ⟨name, none, e, by simp [Arena.type, hnamed]⟩
  rw [Store.type?_modifyType]
  split
  case isTrue hfill =>
    obtain ⟨-, rfl⟩ := hfill
    obtain rfl : τ = .named name none e := Option.some.inj (hu.symm.trans hnamed)
    obtain ⟨σ, hσ⟩ := Option.isSome_iff_exists.mp hbase.isSome
    have hstay := s.store.type?_modifyType u (Ty.withBase base) base
    rw [if_neg fun h => hne h.2, hσ] at hstay
    refine ⟨.named name (some base) e, by rw [hu]; rfl, .named name e (Arena.isProper_of_type hstay ?_)⟩
    rintro name' base' e' rfl
    exact hbase.not_isName ⟨name', base', e', by simp [Arena.type, hσ]⟩
  case isFalse => exact ⟨τ, hu, .same τ⟩

/-- A base that is invalid comes from a type that is invalid, or from one that some type name stands for and that has no
base. -/
theorem readsInvalid_or_open {a : Arena} (hn : a.NamesRooted) (hu : a.Titled u)
    (hbase : a.type? (namedBase a u) = some (.basic .invalid)) :
    a.ReadsInvalid u ∨ ∃ e, a.HasTitle e u ∧ a.IsName u ∧ ∀ base, ¬ a.HasBase u base := by
  by_cases hhas : ∃ base, a.HasBase u base
  · obtain ⟨base, hhas⟩ := hhas
    have hproper := (hu.rooted hn).bases hhas
    refine .inl (.inr ⟨base, hhas, ?_⟩)
    rw [namedBase, Arena.base, Arena.baseType_of_hasBase hhas hproper] at hbase
    split at hbase
    · rename_i htype
      exact absurd ⟨_, _, _, htype⟩ hproper.not_isName
    · exact hbase
  · have hnone (base : TypeId) : ¬ a.HasBase u base := fun h => hhas ⟨base, h⟩
    rw [namedBase, Arena.base, Arena.baseType_of_not_hasBase hnone] at hbase
    split at hbase
    case h_1 name base e htype =>
      rcases hu with hproper | ⟨e', htitle⟩
      · exact absurd ⟨_, _, _, htype⟩ hproper.not_isName
      · exact .inr ⟨e', htitle, ⟨_, _, _, htype⟩, hnone⟩
    case h_2 => exact .inl (.inl hbase)

section

variable {name : Ident} {type : Expr} {note : Note} {named base : TypeId} {title : String}

/-- A name that was open gets its base, and its type name is complete. -/
theorem valued_close (hs : s.Valued files pending (e :: underway) focus)
    (hnamed : s.store.arena.type? named = some (.named title none e)) (hlocal : named.slab = s.store.current.id)
    (htitle : s.store.arena.HasTitle e named) (hbase : s.store.arena.IsProper base)
    (hdeclares : DeclaresType files name type) (hident : (s.store.arena.entity e).ident = some name.id)
    (hnoted : s.notes.types.entries.head? = some (type.id, note))
    (hopen : s.store.arena.type? base = some (.basic .invalid) →
      LeftOpen files s.store.arena s.notes (e :: underway) (s.store.arena.entity e)) :
    Pass.Valued files pending underway focus
      { s with store := s.store.modifyType named (Ty.withBase base) } := by
  have ha := Pass.Advances.modifyType s named (Ty.withBase base) (refines_close hnamed hbase)
  have hsame := s.store.entity?_modifyType named (Ty.withBase base)
  have hentity (e' : EntityId) : (s.store.modifyType named (Ty.withBase base)).arena.entity e' =
      s.store.arena.entity e' := by simp only [Arena.entity, hsame]
  have hnow : (s.store.modifyType named (Ty.withBase base)).arena.type? named =
      some (.named title (some base) e) := by
    rw [Store.type?_modifyType, if_pos ⟨hlocal, rfl⟩, hnamed]
    rfl
  -- Whatever was noted before the type expression is no newer than it.
  have hended {e' : EntityId} {u : TypeId} (_ : s.store.arena.HasTitle e' u) (he' : e' ∈ e :: underway) :
      e' ∈ underway ∨ ∀ entry ∈ s.notes.types.entries,
        CompletedSince files (s.store.modifyType named (Ty.withBase base)).arena s.notes entry e' := by
    rcases List.mem_cons.mp he' with rfl | he'
    · refine .inr fun entry hentry => ⟨name, type, hdeclares, by rw [hentity, hident], ?_⟩
      exact Table.notedSince_of_head? hnoted hentry
    · exact .inl he'
  refine ⟨hs.room, ha.types.hasBasics hs.basics, ?_, ?_, ha.declared rfl hs.declared, hs.pending, ?_, hs.queue, ?_,
    ?_, ?_⟩
  · intro e' u ht
    rw [Arena.HasTitle, hentity] at ht
    exact ha.types.rooted (hs.names ht)
  · intro e' u ht hn
    rw [Arena.HasTitle, hentity] at ht
    rcases hs.closed ht (ha.types.isName_of_isName (hs.names ht).isSome hn) with he' | ⟨base', hb⟩
    · rcases List.mem_cons.mp he' with rfl | he'
      · cases ht.2.symm.trans htitle.2
        exact .inr ⟨base, title, e', by simp [Arena.type, hnow]⟩
      · exact .inl he'
    · exact .inr ⟨base', ha.types.hasBase hb⟩
  · exact fun p hp => ha.comesFrom (hs.origins p hp)
  · exact fun e he => (hs.focus e he).imp fun _ hsort => ⟨hsort.1, hsort.2.1, ha.owns hsort.2.2⟩
  · exact fun e' he' => ha.isSome_type (hs.begun e' (List.mem_cons_of_mem e he'))
  · intro e' y hy hu
    obtain ⟨hfollows, hkind, hxy⟩ := hy.before ha (hsame e' ▸ hy.entity)
    rcases hs.typed hfollows hu with he' | haccounts
    · rcases List.mem_cons.mp he' with rfl | he'
      · have hread : s.store.arena.entity e' = y := by simp [Arena.entity, hfollows.entity]
        rw [hread] at hopen
        obtain ⟨hk, htype⟩ := htitle
        rw [hread] at hk htype
        refine .inr ⟨fun hk' => by simp [hk] at hk', fun _ => ?_⟩
        refine ⟨named, title, base, htype, hnow, ha.types.isProper hbase, fun hinvalid => ?_⟩
        exact (hopen (ha.types.basic_of_basic hbase.isSome hinvalid)).retain ha.toRetains hended hxy
      · exact .inl he'
    · exact .inr (haccounts.advance ha hxy hkind hended)

end

theorem valued_namedType (hr : Keeping files pending resolve) {type : Expr}
    (h : Clean (namedType resolve ctx e type) s () t) (hs : s.Valued files pending underway focus)
    (hown : s.store.Owns e "type name") (hfrom : (Declaration.type scope type).ComesFrom files s.store.arena e)
    (hnone : (s.store.arena.entity e).type = none) : t.Valued files pending underway focus := by
  have hlog := fun reading x => moves_expr hr.log (ctx.declaring e) reading x
  have hsetType := fun u => moves_setType (R := LogGrows) (F := fun _ => True) (e := e) trivial u
  obtain ⟨name, z, hdeclares, hz, hident⟩ := hfrom
  unfold namedType at h
  have h := h.readEntity
  obtain ⟨named, s₂, hnew, h⟩ := h.split (by grind)
  obtain ⟨_, s₃, hset, h⟩ := h.split (by grind)
  obtain ⟨y, s₄, hy, h⟩ := h.split (by grind)
  have hstore := h.readArena
  generalize (s.store.arena.entity e).name = title at hnew
  obtain ⟨rfl, rfl⟩ := newType_ok hnew.run
  -- The name stands for itself while its expression is read.
  have hs₂ := hs.spare (.newType s (.named title none e)) rfl rfl rfl
  have hnamed : (s.store.newType (.named title none e)).2.arena.type? (s.store.newType (.named title none e)).1 =
      some (.named title none e) := by rw [Store.type?_newType, if_pos rfl]
  have hrooted : (s.store.newType (.named title none e)).2.arena.Rooted (s.store.newType (.named title none e)).1 := by
    refine ⟨by simp [hnamed], fun hb => ?_⟩
    obtain ⟨name', e', hb⟩ := hb
    simp [Arena.type, hnamed] at hb
  have hs₃ := hs₂.settleName (hown.grows (.newType ..)) hrooted
  have hsame : (s.store.newType (.named title none e)).2.arena.entity? e = s.store.arena.entity? e :=
    Store.entity?_congr (s := s.store) (t := (s.store.newType (.named title none e)).2) rfl rfl rfl e
  have htyped := hasTitle_setType (hown.grows (.newType s.store (.named title none e)))
    (by simpa only [Arena.entity, hsame] using hnone) (s.store.newType (.named title none e)).1
  cases hset.run
  have hs₄ := (moves_expr (hr.carries (e :: underway) focus) (ctx.declaring e) _ type).carried hy hs₃
  have hgrows : Pass.Grows _ s₄ := (moves_expr hr.grows (ctx.declaring e) _ type).ok hy.run
  -- It is closed with what the type expression yielded.
  have hident₄ :=
    (((Store.Grows.newType ..).trans (Store.Grows.setType ..)).trans hgrows.store).toExtends.entity_keeps hz
  have hnoted := notesLast_expr (ctx.declaring e) (.type (some _)) type _ _ _ ⟨hy.run⟩
  have htitled := yieldsType_expr hr.grows ⟨hy.run⟩ hs₄.basics
  have hbase := (htitled.rooted hs₄.names).isProper_namedBase (hs₄.basics .invalid)
  cases hstore.run
  refine valued_close hs₄ (((Store.Grows.setType ..).trans hgrows.store).toExtends.types _ _ hnamed)
    (hgrows.store.id.trans (Store.Grows.setType ..).id).symm ((Pass.Advances.of_grows hgrows).hasTitle htyped) hbase
    hdeclares (hident₄.2.ident.trans hident) hnoted fun hinvalid => ?_
  refine ⟨name, type, y.note, hdeclares, hident₄.2.ident.trans hident, ?_, List.mem_of_mem_head? hnoted, ?_⟩
  · -- A type that was built is its own base.
    by_contra href
    have hbuilt := yieldsBuilt_of_clean hr.grows hr.log (by simpa using href) hy
    have hnone (base : TypeId) : ¬ s₄.store.arena.HasBase y.type base := fun hb => hbuilt.not_isName hb.isName
    rw [namedBase, Arena.base, Arena.baseType_of_not_hasBase hnone] at hinvalid
    split at hinvalid
    case h_1 htype => exact hbuilt.not_isName ⟨_, _, _, htype⟩
    case h_2 => exact hbuilt.not_basic _ hinvalid
  · rcases readsInvalid_or_open hs₄.names htitled hinvalid with hread | ⟨e', htitle, hname, hnone⟩
    · exact .inl hread
    · exact .inr ⟨e', htitle, .inl ((hs₄.closed htitle hname).resolve_right (not_exists.mpr hnone))⟩

/-! ## Other declarations -/

/-- A body of a procedure that stands in some file is queued. -/
theorem carries_enqueue {b : Body} (hb : b.ComesFrom files) (s : Pass) :
    Carries (Pass.Valued files pending underway focus) s { s with queue := s.queue ++ [b] } := by
  refine ⟨.of_eq rfl fun h => ?_, Demands.enqueue s b⟩
  refine { h with queue := fun b' hb' => ?_ }
  rcases List.mem_append.mp hb' with hb' | hb'
  · exact h.queue b' hb'
  · exact List.mem_singleton.mp hb' ▸ hb

theorem valued_declaration (hr : Keeping files pending resolve) {d : Declaration}
    (h : Clean (declaration resolve ctx e d) s () t) (hs : s.Valued files pending underway focus)
    (hd : d.Suits s.store e) (hfrom : d.ComesFrom files s.store.arena e)
    (hnone : (s.store.arena.entity e).type = none) : t.Valued files pending underway focus := by
  have hgrows : s.Grows t := (moves_declaration hr.grows ctx e d).ok h.run
  cases d with
  | constant scope type value => exact valued_constant hr h hs hd.own hfrom hnone
  | vars scope entities type values =>
    have hfocus : s.Valued files pending underway (· ∈ entities) :=
      hs.withFocus fun v hv => ⟨"variable", by simp, by simp, hd.vars v hv⟩
    have hmoves : Moves (Carries (Pass.Valued files pending underway (· ∈ entities)))
        (varDecl resolve ctx entities type values) :=
      moves_varDecl (moves_expr (hr.carries _ _) ctx) (fun _ he => he) type values
    exact hs.regain hgrows (hmoves.carried h hfocus)
  | type scope type => exact valued_namedType hr h hs hd.own hfrom hnone
  | proc scope p =>
    have hfocus : s.Valued files pending underway (· ∈ [e]) :=
      hs.withFocus fun v hv => ⟨"procedure", by simp, by simp, List.mem_singleton.mp hv ▸ hd.own⟩
    have hmoves : Moves (Carries (Pass.Valued files pending underway (· ∈ [e]))) (procedure resolve ctx e p) :=
      moves_procedure (fun scope => moves_anySignature (hr.carries _ _)) (List.mem_singleton_self e)
        (fun _ _ _ s => .spare (.of_store_eq (Demands.claimLink s _) rfl) rfl rfl rfl)
        fun scope u block hblock => carries_enqueue ⟨p, hfrom, hblock⟩
    exact hs.regain hgrows (hmoves.carried h hfocus)

end

/-! ## Demands -/

/-- A demand keeps the invariant, if the demands for what is left do. -/
theorem valued_demandFrom {ctx : Context}
    (hr : ∀ rest : Pending, rest.length < pending.length → Keeping files rest (demandFrom rest))
    (h : Clean (demandFrom pending ctx e) s () t) (hs : s.Valued files pending underway focus) :
    t.Valued files pending underway focus := by
  have hdecls : s.decls <:+ t.decls := ((moves_demandFrom pending ctx e).ok h.run : s.Grows t).decls
  rcases h.demandFrom_cases with ⟨-, rfl⟩ | ⟨hnone, ⟨-, rfl⟩ | ⟨d, rest, u, taken, hrun, rfl⟩⟩
  · exact hs
  · exact hs
  · obtain ⟨hmem, hsub⟩ := subset_of_take? taken
    have hlt := length_lt_of_take? taken
    have hrest := carries_record (hs.withPending (List.Subset.trans hsub hs.pending)) (.enter e)
    have ht :=
      valued_declaration (hr rest hlt) hrun hrest (hs.declared _ (hs.pending hmem)) (hs.origins _ (hs.pending hmem))
      hnone
    exact (carries_record ht (.leave e)).withPending (List.Subset.trans hs.pending hdecls.subset)

theorem keeping_demandFrom (files : List File) (pending : Pending) :
    Keeping files pending (demandFrom pending) := by
  have hr (rest : Pending) (_ : rest.length < pending.length) :
      Keeping files rest (demandFrom rest) := keeping_demandFrom files rest
  refine ⟨fun underway focus ctx e => ?_, moves_demandFrom pending, moves_demandFrom pending⟩
  exact .carries (moves_demandFrom pending ctx e) (moves_demandFrom pending ctx e) Pass.Valued.room
    fun h hs => valued_demandFrom hr h hs
termination_by pending.length

/-- Where no declaration is being checked, all are pending. -/
theorem keeping_demand (files : List File) : Keeping files [] demand := by
  refine ⟨fun underway focus ctx e => ?_, moves_demand, moves_demand⟩
  refine .carries (moves_demand ctx e) (moves_demand ctx e) Pass.Valued.room fun {s a t} h hs => ?_
  have hmoves := (keeping_demandFrom files s.decls).carries underway focus ctx e
  exact (hmoves.carried h.demandFrom_of_demand (hs.withPending (List.Subset.refl _))).withPending (List.nil_subset _)

end Check

end Statics
