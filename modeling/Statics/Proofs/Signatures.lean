import Statics.Proofs.Identity

/-!
# Similar signatures

Two signatures are similar if they have equal counts, and at each place two pointers or identical types. Identical
types are both pointers or both not, so similarity is symmetric and transitive.

Signatures are compared while other types are still being declared. `Arena.Unfolds` says what may become of an arena
until all of them are: types and entities are added, a name gets its base and an enum its members. What was found to
be similar stays so (`Arena.Unfolds.similarSignatures`), since a type that is not complete is compared as a handle.
-/

namespace Statics

variable {params results : List TypeId} {n : Nat} {σ τ : Ty} {R : TypeId → TypeId → Prop}

namespace Arena

variable {a b c : Arena} {t u x y z : TypeId}

/-! ## An equivalence of signatures -/

theorem base_eq_type (h : ∀ name base e, a.type t ≠ .named name (some base) e) : a.base t = a.type t := by
  rw [base, baseType_of_not_hasBase]
  rintro base ⟨name, e, hread⟩
  exact h name base e hread

/-- Types that are built in the same way have no base of their own. -/
theorem Matches.base_eq (h : a.Matches R (a.type t) (a.type u)) : a.base t = a.type t ∧ a.base u = a.type u := by
  refine ⟨base_eq_type fun name base e heq => ?_, base_eq_type fun name base e heq => ?_⟩
  all_goals
    rw [heq] at h
    generalize a.type _ = τ at h
    cases h

theorem isPointer_of_identical (h : a.identical t u) (ht : a.isPointer t) : a.isPointer u := by
  rcases identicalWithin_succ_iff.mp h with rfl | hmatch
  · exact ht
  · obtain ⟨hbase, hbase'⟩ := hmatch.base_eq
    simp only [isPointer, hbase] at ht
    simp only [isPointer, hbase']
    generalize a.type t = σ, a.type u = τ at hmatch ht
    cases hmatch with
    | basic => exact ht
    | pointer => rfl
    | _ => cases ht

/-- Two types may stand at the same place of two similar signatures. -/
def SimilarTypes (a : Arena) (t u : TypeId) : Prop := (a.isPointer t ∧ a.isPointer u) ∨ a.identical t u

theorem SimilarTypes.symm (h : a.SimilarTypes t u) : a.SimilarTypes u t := h.imp And.symm identicalWithin_symm

theorem SimilarTypes.trans (h : a.SimilarTypes x y) (h' : a.SimilarTypes y z) : a.SimilarTypes x z := by
  rcases h with ⟨hx, hy⟩ | hxy
  · rcases h' with ⟨-, hz⟩ | hyz
    · exact .inl ⟨hx, hz⟩
    · exact .inl ⟨hx, isPointer_of_identical hyz hy⟩
  · rcases h' with ⟨hy, hz⟩ | hyz
    · exact .inl ⟨isPointer_of_identical (identicalWithin_symm hxy) hy, hz⟩
    · exact .inr (identicalWithin_trans hxy hyz)

theorem similarSignatures_iff : a.similarSignatures x y ↔
    (∃ params results, a.base x = .proc params results) ∧ a.Matches a.SimilarTypes (a.base x) (a.base y) := by
  have hpairwise {ps qs : List TypeId} :
      pairwise (fun p q => (a.isPointer p && a.isPointer q) || a.identical p q) ps qs ↔
        List.Forall₂ a.SimilarTypes ps qs := by
    refine (all_zip_iff (p := fun p q => (a.isPointer p && a.isPointer q) || a.identical p q)).trans ?_
    simp only [Bool.or_eq_true, Bool.and_eq_true]
    rfl
  unfold similarSignatures
  generalize a.base x = σ, a.base y = τ
  refine ⟨fun h => ?_, fun ⟨⟨ps, rs, hσ⟩, h⟩ => ?_⟩
  · dsimp only at h
    split at h
    · rw [Bool.and_eq_true, hpairwise, hpairwise] at h
      exact ⟨⟨_, _, rfl⟩, .proc h.1 h.2⟩
    · cases h
  · subst hσ
    cases h with
    | proc hparams hresults => exact (Bool.and_eq_true _ _).mpr ⟨hpairwise.mpr hparams, hpairwise.mpr hresults⟩

theorem similarSignatures_symm (h : a.similarSignatures x y) : a.similarSignatures y x := by
  rw [similarSignatures_iff] at h ⊢
  obtain ⟨⟨ps, rs, hx⟩, h⟩ := h
  refine ⟨?_, h.symm.imp fun _ _ _ _ => SimilarTypes.symm⟩
  rw [hx] at h
  generalize a.base y = τ at h
  cases h
  exact ⟨_, _, rfl⟩

theorem similarSignatures_trans (h : a.similarSignatures x y) (h' : a.similarSignatures y z) :
    a.similarSignatures x z := by
  rw [similarSignatures_iff] at h h' ⊢
  exact ⟨h.1, h.2.trans (fun _ _ _ => SimilarTypes.trans) h'.2⟩

theorem similarSignatures_self (h : a.base x = .proc params results) : a.similarSignatures x x := by
  have hself (ts : List TypeId) : List.Forall₂ a.SimilarTypes ts ts :=
    List.forall₂_same.mpr fun t _ => .inr (identicalWithin_self _ t)
  rw [similarSignatures_iff, h]
  exact ⟨⟨_, _, rfl⟩, .proc (hself params) (hself results)⟩

/-- What matches is complete. -/
theorem Matches.not_completes (h : a.Matches R σ τ) : (∀ ρ, ¬ σ.Completes ρ) ∧ ∀ ρ, ¬ τ.Completes ρ := by
  cases h <;> constructor <;> rintro ρ ⟨⟩

end Arena

/-! ## What may become of an arena -/

/-- What becomes of an entity: what it has stays, it is exposed or not as before, and a procedure may get a scope. -/
structure Entity.Unfolds (x y : Entity) : Prop extends x.Keeps y where
  anonymous : y.isAnonymous = x.isAnonymous
  procedure : ∀ info, x.kind = .procedure info → ∃ scope, y.kind = .procedure { info with scope := scope }

namespace Entity.Unfolds

variable {x y z : Entity}

/-- The kind of an entity says all but its name and its type. -/
theorem of_kind (h : x.Keeps y) (hkind : y.kind = x.kind) : x.Unfolds y where
  toKeeps := h
  anonymous := by rw [isAnonymous, isAnonymous, hkind]
  procedure info hinfo := ⟨info.scope, hkind.trans hinfo⟩

theorem refl (x : Entity) : x.Unfolds x := of_kind (.refl x) rfl

theorem trans (h : x.Unfolds y) (h' : y.Unfolds z) : x.Unfolds z where
  toKeeps := h.toKeeps.trans h'.toKeeps
  anonymous := h'.anonymous.trans h.anonymous
  procedure info hinfo := by
    obtain ⟨scope, hy⟩ := h.procedure info hinfo
    obtain ⟨scope', hz⟩ := h'.procedure _ hy
    exact ⟨scope', hz⟩

theorem of_fillsIn (h : x.FillsIn y) : x.Unfolds y := ⟨.of_settles h.toSettles, h.anonymous, h.procedure⟩

end Entity.Unfolds

/-- What becomes of an arena: everything in it stays, except that types are completed. -/
structure Arena.Unfolds (a b : Arena) : Prop where
  types : ∀ t τ, a.type? t = some τ → ∃ σ, b.type? t = some σ ∧ (σ = τ ∨ τ.Completes σ)
  entities : ∀ e x, a.entity? e = some x → ∃ y, b.entity? e = some y ∧ x.Unfolds y

/-- Every place before one with a type has a type. -/
def Arena.Dense (a : Arena) : Prop := ∀ t u : TypeId, a.Has t → u.before t → a.Has u

namespace Arena.Unfolds

variable {a b c : Arena} {t u x y : TypeId}

theorem refl (a : Arena) : a.Unfolds a := ⟨fun _ τ h => ⟨τ, h, .inl rfl⟩, fun _ x h => ⟨x, h, .refl x⟩⟩

theorem trans (h : a.Unfolds b) (h' : b.Unfolds c) : a.Unfolds c where
  types t τ hτ := by
    obtain ⟨σ, hσ, hb⟩ := h.types t τ hτ
    obtain ⟨ρ, hρ, hc⟩ := h'.types t σ hσ
    refine ⟨ρ, hρ, ?_⟩
    rcases hb with rfl | hb
    · exact hc
    · rcases hc with rfl | hc
      · exact .inr hb
      · -- a name is completed once, and the members of an enum are replaced
        cases hb with
        | named => cases hc
        | enum base old members =>
          cases hc
          exact .inr (.enum ..)
  entities e x hx := by
    obtain ⟨y, hy, hxy⟩ := h.entities e x hx
    obtain ⟨z, hz, hyz⟩ := h'.entities e y hy
    exact ⟨z, hz, hxy.trans hyz⟩

/-- Nothing was completed, and entities kept their kinds. -/
theorem of_extends (h : a.Extends b)
    (hkind : ∀ e x y, a.entity? e = some x → b.entity? e = some y → y.kind = x.kind) : a.Unfolds b where
  types t τ hτ := ⟨τ, h.types t τ hτ, .inl rfl⟩
  entities e x hx := by
    obtain ⟨y, hy, hxy⟩ := h.entities e x hx
    exact ⟨y, hy, .of_kind hxy (hkind e x y hx hy)⟩

theorem of_spares (h : a.Extends b) (hspares : a.Spares (fun _ _ => True) b) : a.Unfolds b := by
  refine of_extends h fun e x y hx hy => ?_
  obtain ⟨x', hx', hkind, -⟩ := hspares e y hy trivial
  obtain rfl := Option.some.inj (hx.symm.trans hx')
  exact hkind.symm

section

variable (h : a.Unfolds b)

include h

theorem has (ht : a.Has t) : b.Has t := by
  obtain ⟨τ, hτ⟩ := Option.isSome_iff_exists.mp ht
  obtain ⟨σ, hσ, -⟩ := h.types t τ hτ
  exact Option.isSome_iff_exists.mpr ⟨σ, hσ⟩

theorem type_eq (ht : a.Has t) (hcomplete : ∀ σ, ¬ (a.type t).Completes σ) : b.type t = a.type t := by
  obtain ⟨σ, hσ, hcompletes⟩ := h.types t _ (type_of_has ht)
  rw [Arena.type_eq hσ]
  exact hcompletes.resolve_right (hcomplete σ)

theorem entity_unfolds {e : EntityId} (he : (a.entity e).type = some t) : (a.entity e).Unfolds (b.entity e) := by
  cases hx : a.entity? e with
  | none => simp [entity, hx, Entity.blank] at he
  | some x =>
    obtain ⟨y, hy, hxy⟩ := h.entities e x hx
    simpa only [entity, hx, hy, Option.getD_some] using hxy

end

/-- What reads as more than a blank is there. -/
theorem has_of_type_ne (ht : a.type t ≠ .blank) : a.Has t := by
  refine Option.isSome_iff_ne_none.mpr fun hnone => ht ?_
  rw [type, hnone, Option.getD_none]

section

variable (h : a.Unfolds b)

include h

theorem hasBase {base : TypeId} (ht : a.HasBase t base) : b.HasBase t base := by
  obtain ⟨name, e, hread⟩ := ht
  refine ⟨name, e, ?_⟩
  rw [h.type_eq (has_of_type_ne (by simp [hread, Ty.blank])) (by rw [hread]; rintro σ ⟨⟩), hread]

/-- A base that is there and complete stays the base. -/
theorem baseWithin_eq (hblank : a.type (a.baseWithin n t) ≠ .blank)
    (hcomplete : ∀ σ, ¬ (a.type (a.baseWithin n t)).Completes σ) : b.baseWithin n t = a.baseWithin n t := by
  induction n generalizing t with
  | zero => rfl
  | succ n ih =>
    by_cases hbase : ∃ base, a.HasBase t base
    · obtain ⟨base, hbase⟩ := hbase
      rw [baseWithin_of_hasBase n hbase] at hblank hcomplete ⊢
      rw [baseWithin_of_hasBase n (h.hasBase hbase)]
      exact ih hblank hcomplete
    · have hnot (base : TypeId) : ¬ a.HasBase t base := fun hb => hbase ⟨base, hb⟩
      rw [baseWithin_of_not_hasBase n hnot] at hblank hcomplete ⊢
      refine baseWithin_of_not_hasBase n fun base hb => hnot base ?_
      obtain ⟨name, e, hread⟩ := hb
      exact ⟨name, e, (h.type_eq (has_of_type_ne hblank) hcomplete).symm.trans hread⟩

/-- A type whose base is there and complete keeps it. -/
theorem base_eq (hblank : a.base t ≠ .blank) (hcomplete : ∀ σ, ¬ (a.base t).Completes σ) :
    a.Has (a.baseType t) ∧ b.baseType t = a.baseType t ∧ b.base t = a.base t := by
  have hhas : a.Has (a.baseType t) := has_of_type_ne hblank
  have hbase : b.baseType t = a.baseType t := h.baseWithin_eq hblank hcomplete
  exact ⟨hhas, hbase, by rw [base, hbase, h.type_eq hhas hcomplete, base]⟩

theorem base_of_proc (ht : a.base t = .proc params results) :
    a.Has (a.baseType t) ∧ b.baseType t = a.baseType t ∧ b.base t = .proc params results := by
  have hcomplete (σ : Ty) : ¬ (a.base t).Completes σ := by
    rw [ht]
    rintro ⟨⟩
  rw [← ht]
  exact h.base_eq (by simp [ht, Ty.blank]) hcomplete

theorem isPointer (ht : a.isPointer t) : b.isPointer t := by
  have hblank : a.base t ≠ .blank := by
    intro hread
    simp [Arena.isPointer, hread, Ty.blank] at ht
  have hcomplete (σ : Ty) : ¬ (a.base t).Completes σ := by
    intro hcompletes
    unfold Arena.isPointer at ht
    generalize a.base t = τ at ht hcompletes
    cases hcompletes <;> cases ht
  rw [Arena.isPointer, (h.base_eq hblank hcomplete).2.2]
  exact ht

/-- What matches is compared by complete types, and by names, exposure and types of fields. -/
theorem matches_of_matches (hmatch : a.Matches R σ τ) : b.Matches R σ τ := by
  have hfields (f g : EntityId) (hfg : a.FieldsMatch R f g) : b.FieldsMatch R f g := by
    obtain ⟨hname, hexposed, t, u, ht, hu, hR⟩ := hfg
    have hf := h.entity_unfolds ht
    have hg := h.entity_unfolds hu
    refine ⟨?_, ?_, t, u, hf.type t ht, hg.type u hu, hR⟩
    · rw [Entity.name, Entity.name, hf.token, hg.token]
      exact hname
    · rw [hf.anonymous, hg.anonymous, hexposed]
  cases hmatch with
  | basic k => exact .basic k
  | pointer h => exact .pointer h
  | array count h => exact .array count h
  | slice h => exact .slice h
  | record form h => exact .record form (h.imp hfields)
  | tuple h => exact .tuple h
  | proc h h' => exact .proc h h'

variable (hb : b.Layered) (hdense : a.Dense)

include hb hdense

/-- The components of a type that was there were there, since they are older. -/
theorem has_component (hx : a.Has x) (ht : t ∈ b.components (b.type x)) : a.Has t :=
  hdense x t hx (hb x _ (type_of_has (h.has hx)) t ht).2

/-- Types that were found to be identical stay identical. -/
theorem identical_of_identicalWithin (hx : a.Has x) (hy : a.Has y) (hxy : a.identicalWithin n x y) :
    b.identical x y := by
  induction n generalizing x y with
  | zero => exact beq_iff_eq.mp hxy ▸ identicalWithin_self _ x
  | succ n ih =>
    rw [identicalWithin_succ_iff] at hxy
    rcases hxy with rfl | hmatch
    · exact identicalWithin_self _ x
    · have hcomplete := hmatch.not_completes
      have hmatch' := h.matches_of_matches hmatch
      rw [← h.type_eq hx hcomplete.1, ← h.type_eq hy hcomplete.2] at hmatch'
      refine (hb.identical_iff (h.has hx) y).mpr (.inr (hmatch'.imp fun t ht u hu htu => ?_))
      exact ih (h.has_component hb hdense hx ht) (h.has_component hb hdense hy hu) htu

theorem similarTypes (hx : a.Has x) (hy : a.Has y) (hxy : a.SimilarTypes x y) : b.SimilarTypes x y :=
  hxy.imp (fun hpointers => ⟨h.isPointer hpointers.1, h.isPointer hpointers.2⟩)
    (h.identical_of_identicalWithin hb hdense hx hy)

/-- Signatures that were found to be similar stay similar. -/
theorem similarSignatures (hxy : a.similarSignatures x y) : b.similarSignatures x y := by
  obtain ⟨⟨ps, rs, hx⟩, hmatch⟩ := similarSignatures_iff.mp hxy
  obtain ⟨⟨qs, ss, hy⟩, -⟩ := similarSignatures_iff.mp (similarSignatures_symm hxy)
  obtain ⟨hhas, hbase, hread⟩ := h.base_of_proc hx
  obtain ⟨hhas', hbase', hread'⟩ := h.base_of_proc hy
  have hmatch' := h.matches_of_matches hmatch
  rw [hx, ← hread, hy, ← hread'] at hmatch'
  refine similarSignatures_iff.mpr ⟨⟨ps, rs, hread⟩, hmatch'.imp fun t ht u hu htu => ?_⟩
  rw [base, hbase] at ht
  rw [base, hbase'] at hu
  exact h.similarTypes hb hdense (h.has_component hb hdense hhas ht) (h.has_component hb hdense hhas' hu) htu

end

end Arena.Unfolds

/-- Two signatures are similar in whatever becomes of an arena, as long as components are older than types. -/
def Arena.StaySimilar (a : Arena) (x y : TypeId) : Prop :=
  ∀ b : Arena, a.Unfolds b → b.Layered → b.similarSignatures x y

namespace Arena.StaySimilar

variable {a b : Arena} {x y : TypeId}

theorem mono (hxy : a.StaySimilar x y) (h : a.Unfolds b) : b.StaySimilar x y := fun c hc hlayered =>
  hxy c (h.trans hc) hlayered

theorem of_similar (hdense : a.Dense) (hxy : a.similarSignatures x y) : a.StaySimilar x y := fun _ h hlayered =>
  h.similarSignatures hlayered hdense hxy

theorem self (hx : a.base x = .proc params results) : a.StaySimilar x x := fun _ h _ =>
  similarSignatures_self (h.base_of_proc hx).2.2

end Arena.StaySimilar

/-! ## Elementary changes -/

namespace Store

theorem dense {s : Store} (hid : s.current.id = 0) (hfrozen : s.frozen = []) : s.arena.Dense := by
  intro t u ht hu
  obtain ⟨τ, hτ⟩ := Option.isSome_iff_exists.mp ht
  rw [type?_arena, below, hfrozen] at hτ
  split at hτ
  case isTrue hslab =>
    rw [hid] at hslab
    obtain hlt | ⟨heq, hlt⟩ := hu
    · omega
    · have hindex := (Array.getElem?_eq_some_iff.mp hτ).1
      refine Option.isSome_iff_exists.mpr ⟨s.current.types[u.index], ?_⟩
      rw [type?_arena, if_pos (by omega)]
      exact Array.getElem?_eq_getElem _
  case isFalse => cases hτ

variable (s : Store)

theorem unfolds_newType (τ : Ty) : s.arena.Unfolds (s.newType τ).2.arena :=
  .of_spares (Grows.newType s τ).toExtends (.of_eq (entity?_congr rfl rfl rfl))

theorem unfolds_newEntity (x : Entity) : s.arena.Unfolds (s.newEntity x).2.arena := by
  refine .of_extends (Grows.newEntity s x).toExtends fun e y z hy hz => ?_
  rw [entity?_newEntity] at hz
  split at hz
  case isTrue heq =>
    rw [heq, s.entity?_fresh x] at hy
    cases hy
  case isFalse =>
    cases hy.symm.trans hz
    rfl

theorem unfolds_openScope (parent : ScopeId) (kind : ScopeKind) : s.arena.Unfolds (s.openScope parent kind).2.arena :=
  .of_spares (Grows.openScope s parent kind).toExtends (s.spares_openScope parent kind)

theorem unfolds_bind (scope : ScopeId) (e : EntityId) : s.arena.Unfolds (s.bind scope e).2.arena :=
  .of_spares (Grows.bind s scope e).toExtends (s.spares_bind scope e)

theorem unfolds_markUsed (e : EntityId) : s.arena.Unfolds (s.markUsed e).arena :=
  .of_spares (Grows.markUsed s e).toExtends (s.spares_markUsed e)

theorem unfolds_modifyEntity (e : EntityId) {f : Entity → Entity} (hf : ∀ x, Entity.FillsIn x (f x)) :
    s.arena.Unfolds (s.modifyEntity e f).arena where
  types t τ hτ := ⟨τ, by rw [type?_modifyEntity, hτ], .inl rfl⟩
  entities e' x hx := by
    rw [entity?_modifyEntity, hx]
    split
    · exact ⟨f x, rfl, .of_fillsIn (hf x)⟩
    · exact ⟨x, rfl, .refl x⟩

theorem unfolds_modifyType (t : TypeId) {f : Ty → Ty}
    (hf : ∀ τ, s.arena.type? t = some τ → τ.Completes (f τ)) : s.arena.Unfolds (s.modifyType t f).arena where
  types u τ hτ := by
    rw [type?_modifyType, hτ]
    split
    case isTrue hu =>
      obtain ⟨-, rfl⟩ := hu
      exact ⟨f τ, rfl, .inr (hf τ hτ)⟩
    case isFalse => exact ⟨τ, rfl, .inl rfl⟩
  entities e x hx := ⟨x, by rw [entity?_modifyType, hx], .refl x⟩

end Store

/-- A slab that is put next to others only marks what they have. -/
theorem Arena.unfolds_absorb (a : Arena) {s : Slab} (hs : ∀ r ∈ a.slabs, r.id < s.id) : a.Unfolds (a.absorb s) := by
  refine .of_extends (a.extends_absorb_self hs) fun e x y hx hy => ?_
  have hslab : e.slab ≠ s.id := Nat.ne_of_lt (slab_lt_of_entity? hs (by simp [hx]))
  have habsorb := entity?_absorb hs e
  rw [if_neg hslab, hx, hy] at habsorb
  rcases habsorb with heq | heq
  · cases heq
    rfl
  · cases heq
    rfl

theorem Pass.Numbered.unfolds {frozen : List Slab} {id : Nat} {passes : List Pass} (h : Numbered frozen id passes)
    {a : Arena} (ha : ∀ r ∈ a.slabs, r.id < id) :
    a.Unfolds (passes.foldl (fun a s => a.absorb s.store.current) a) := by
  induction h generalizing a with
  | nil => exact .refl a
  | @cons id s passes hstore _ ih =>
    rw [← hstore.1] at ha
    exact (a.unfolds_absorb ha).trans (ih (hstore.1 ▸ Arena.lt_of_mem_absorb ha))

end Statics
