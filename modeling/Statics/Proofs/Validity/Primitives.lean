import Statics.Proofs.Validity.Steps

/-!
# Elementary steps of checking

What each elementary step needs so that it goes from a valid state to a valid one, and what holds of its result.
-/

namespace Statics

variable {e : EntityId} {x : Operand} {parent : ScopeId} {kind : ScopeKind} {u : TypeId} {id : NodeId} {p : Problem}
  {token : Token}

/-! ## What is kept along a run -/

namespace Pass.Leads

variable {s t : Pass} (h : s.Leads t)

include h

theorem has {pool : Pool} {f : Handle pool} (hf : s.view.Has f) : t.view.Has f := h.refines.has hf

theorem settled {u : TypeId} (hu : s.view.Settled u) : t.view.Settled u := h.refines.settled hu

theorem operand (hx : x.Valid s) : x.Valid t := h.refines.note hx

theorem context {ctx : Context} (hctx : ctx.Valid s) : ctx.Valid t := h.refines.context hctx

theorem decls {p : EntityId × Declaration} (hp : p ∈ s.decls) : p ∈ t.decls := h.grows.decls.subset hp

theorem id_eq : t.store.current.id = s.store.current.id := h.grows.store.id

theorem type? {u : TypeId} {τ : Ty} (hu : s.store.arena.type? u = some τ) : t.store.arena.type? u = some τ :=
  h.grows.store.toExtends.types u τ hu

theorem base_eq (hs : s.Valid) (hu : s.view.Has u) : t.store.arena.base u = s.store.arena.base u :=
  hs.intact.base_extend h.grows.store.toExtends hu

theorem isInvalid_eq (hs : s.Valid) (hu : s.view.Has u) : t.store.arena.isInvalid u = s.store.arena.isInvalid u := by
  rw [Arena.isInvalid, Arena.isInvalid, Arena.kind?, Arena.kind?, h.base_eq hs hu]

end Pass.Leads

namespace Check

variable {α β : Type} {s : Pass} {ctx : Context} {P Q : α → Pass → Prop} {R : β → Pass → Prop}

/-- From a valid state, a step goes through valid states. -/
abbrev Sound (s : Pass) (x : Check α) : Prop := Yields s x fun _ _ => True

/-- From a valid state, a step goes through valid states and gives a valid operand. -/
abbrev Delivers (s : Pass) (x : Check Operand) : Prop := Yields s x fun y t => y.Valid t

theorem Yields.sound {x : Check α} (h : Yields s x P) : Sound s x := h.imp fun _ _ _ _ => trivial

theorem sound_pure (a : α) : Sound s (pure a) := yields_pure fun _ => trivial

/-- A step, and then another one that does not look at its result. -/
theorem Yields.andThen {x : Check α} {y : Check β} (hx : Yields s x P) (hy : ∀ t, s.Leads t → Yields t y R) :
    Yields s (x >>= fun _ => y) R :=
  hx.bind fun _ t ht _ => hy t ht

theorem Yields.ite {c : Prop} [Decidable c] {x y : Check α} (hx : c → Yields s x P) (hy : ¬ c → Yields s y P) :
    Yields s (if c then x else y) P := by
  split
  case isTrue h => exact hx h
  case isFalse h => exact hy h

/-! ## Reports -/

/-- A step that changes nothing that validity depends on. -/
theorem sound_of_view {t : Pass} {x : Check Unit} (hrun : x s = .ok () t) (hstep : s.Step t) (hg : s.Grows t)
    (hview : t.view = s.view) (ht : s.Valid → t.Valid) : Sound s x :=
  yields_of_ok hrun (fun hs => leads_of_view hs hstep hg hview (ht hs)) fun _ => trivial

theorem sound_emit (d : Diagnostic) : Sound s (emit d) := by
  intro hs
  have hvalid : Pass.Valid { s with collector := (s.collector.report d).1 } := { hs with }
  have hleads := leads_of_view hs (.report d) (.of_eq rfl rfl rfl) rfl hvalid
  have hafter : (emit d).after s = { s with collector := (s.collector.report d).1 } := by
    rw [after, emit]
    rcases s.collector.report d with ⟨collector, outcome⟩
    cases outcome <;> rfl
  rw [hafter]
  exact ⟨hleads, fun _ _ _ => trivial⟩

theorem sound_report : Sound s (report token p) := sound_emit _

theorem sound_warn : Sound s (warn token p) :=
  sound_of_view rfl (.warn _) (.of_eq rfl rfl rfl) rfl fun hs => { hs with }

theorem valid_invalid (hs : s.Valid) : (Operand.invalid id).Valid s :=
  ⟨hs.intact.has_basic _, fun h => by simp [Operand.note, Operand.invalid] at h,
    by simp [Operand.note, Operand.invalid], fun _ h => by cases h⟩

theorem valid_noValue (hs : s.Valid) : (Operand.noValue id).Valid s :=
  ⟨hs.intact.has_basic _, fun h => by simp [Operand.note, Operand.noValue] at h,
    by simp [Operand.note, Operand.noValue], fun _ h => by cases h⟩

theorem valid_builtin (hs : s.Valid) {b : Builtin} : (Operand.builtin b id).Valid s :=
  ⟨hs.intact.has_basic _, fun h => by simp [Operand.note, Operand.builtin] at h,
    by simp [Operand.note, Operand.builtin], fun _ h => by cases h⟩

theorem valid_value {t : TypeId} (ht : s.view.Has t) (id : NodeId) : (Operand.value t id).Valid s :=
  ⟨ht, fun h => by simp [Operand.note, Operand.value] at h, by simp [Operand.note, Operand.value],
    fun _ h => by cases h⟩

theorem valid_var {t : TypeId} (ht : s.view.Settled t) : (Operand.var t id).Valid s :=
  ⟨ht.has, fun _ => ht, by simp [Operand.note, Operand.var], fun _ h => by cases h⟩

theorem valid_ofType {t : TypeId} (ht : s.view.Settled t) (id : NodeId) : (Operand.ofType t id).Valid s :=
  ⟨ht.has, fun _ => ht, by simp [Operand.note, Operand.ofType], fun _ h => by cases h⟩

theorem valid_constant {t : TypeId} {c : Constant} (hc : s.view.Suits t c) (id : NodeId) :
    (Operand.constant t c id).Valid s :=
  ⟨hc.fits.has, fun h => by simp [Operand.note, Operand.constant] at h, by simp [Operand.note, Operand.constant],
    fun d h => by cases h; exact hc⟩

theorem delivers_invalid : Delivers s (pure (Operand.invalid id)) :=
  yields_pure fun hs => valid_invalid hs

theorem delivers_fail : Delivers s (fail token p id) :=
  sound_report.andThen fun _ _ => delivers_invalid

/-! ## Annotations -/

theorem sound_annotate (hx : x.Valid s) : Sound s (annotate id x) :=
  sound_of_view rfl (.annotate id x.note) ⟨.refl _, List.suffix_refl _, List.suffix_cons ..⟩ rfl fun hs =>
    { hs with noted := List.forall_mem_cons.mpr ⟨hx, hs.noted⟩ }

theorem sound_define (he : s.view.Has e) : Sound s (define id e) :=
  sound_of_view rfl (.define id e) (.of_eq rfl rfl rfl) rfl fun hs =>
    { hs with defined := List.forall_mem_cons.mpr ⟨he, hs.defined⟩ }

theorem sound_refer (he : s.view.Has e) : Sound s (refer id e) :=
  sound_of_view rfl (.refer id e) (.of_eq rfl rfl rfl) rfl fun hs =>
    { hs with referred := List.forall_mem_cons.mpr ⟨he, hs.referred⟩ }

/-! ## Scopes -/

theorem yields_newScope (hparent : s.view.Has parent) (hkind : kind ≠ .global) :
    Yields s (fromStore fun store => store.openScope parent kind) fun h t => t.view.Has h := by
  refine .of_valid fun hs => yields_of_ok (t := { s with store := (s.store.openScope parent kind).2 })
    (a := (s.store.openScope parent kind).1) rfl (fun hs => (leads_openScope hs hparent hkind).1) fun _ => ?_
  exact (leads_openScope hs hparent hkind).2

theorem yields_openScope (hparent : s.view.Has parent) (hkind : kind ≠ .global := by decide) :
    Yields s (openScope parent kind id) fun h t => t.view.Has h := by
  refine (yields_newScope hparent hkind).bind fun h t _ hh => ?_
  refine Yields.bind (P := fun _ t => t.view.Has h) ?_ fun _ u _ hh => yields_pure fun _ => hh
  exact yields_of_ok rfl (fun ht => leads_of_view ht (.noteScope id h) (.of_eq rfl rfl rfl) rfl
    { ht with opened := List.forall_mem_cons.mpr ⟨hh, ht.opened⟩ }) fun _ => hh

theorem sound_storeBind {h : ScopeId} (hh : s.view.Has h) (he : s.view.Has e) :
    Sound s (fromStore fun store => store.bind h e) :=
  yields_of_ok rfl (fun hs => leads_bind hs hh he) fun _ => trivial

theorem sound_bind {h : ScopeId} (ident : Option Ident) (hh : s.view.Has h) (he : s.view.Has e) :
    Sound s (bind h ident e) := by
  refine (sound_storeBind hh he).bind fun previous t ht _ => ?_
  cases previous with
  | some previous => exact yields_arena fun _ => sound_report.andThen fun _ _ => sound_pure _
  | none =>
    cases ident with
    | none => exact sound_pure _
    | some ident => exact (sound_define (ht.has he)).andThen fun _ _ => sound_pure _

/-! ## Entities -/

theorem sound_markUsed (he : s.view.Has e) : Sound s (markUsed e) :=
  yields_of_ok rfl (fun hs => leads_markUsed hs he) fun _ => trivial

theorem sound_modifyEntity (he : s.view.Has e) {f : Entity → Entity} (hkeeps : ∀ x, Entity.Keeps x (f x))
    (hf : ∀ x, e.slab = s.store.current.id → s.store.arena.entity? e = some x → x.Valid s e → (f x).Valid s e)
    (hkind : s.Valid → ∀ x, s.store.arena.entity? e = some x → e ∈ Universe.literals → (f x).kind = x.kind) :
    Sound s (onStore fun store => store.modifyEntity e f) :=
  yields_of_ok rfl (fun hs => leads_modifyEntity hs he hkeeps hf (hkind hs)) fun _ => trivial

/-- An entity gets a type. -/
theorem yields_setType (he : s.view.Has e) (hu : s.view.Settled u) :
    Yields s (setType e u) fun _ t => t.store = s.store.setType e u := by
  have hkeeps (x : Entity) : x.Keeps { x with type := x.type.or (some u) } :=
    ⟨rfl, rfl, rfl, rfl, fun w hw => by simp [hw], fun v hv => ⟨v, hv⟩⟩
  refine yields_of_ok rfl (fun hs => leads_modifyEntity hs he hkeeps (fun x _ _ hx => ?_) fun _ _ _ => rfl) fun _ => rfl
  · refine ⟨hx.home, hx.through, hx.scope, fun w hw hlit => ?_, fun c hc => ?_, (hkeeps x).innate hx.innate⟩
    · cases htype : x.type with
      | some w' =>
        refine hx.type w ?_ hlit
        simpa only [htype, Option.some_or] using hw
      | none =>
        simp only [htype, Option.none_or, Option.some.injEq] at hw
        rw [← hw]
        exact hu
    · obtain ⟨w, hw, hsuits⟩ := hx.value c hc
      exact ⟨w, by simp [hw], hsuits⟩

theorem sound_setType (he : s.view.Has e) (hu : s.view.Settled u) : Sound s (setType e u) :=
  (yields_setType he hu).sound

theorem sound_setInvalid (he : s.view.Has e) : Sound s (setType e .invalid) :=
  .of_valid fun hs => sound_setType he hs.intact.settled_invalid

/-! ## Declarations and what waits -/

theorem sound_await {d : Declaration} (he : s.view.Has e) (hd : d.Valid s)
    (hnew : ∀ scope x, d = .type scope x → ∀ d', (e, d') ∉ s.decls) : Sound s (await e d) :=
  yields_of_ok rfl (fun hs => leads_await (p := (e, d)) hs he hd hnew) fun _ => trivial

theorem sound_record (m : Milestone) : Sound s (record m) :=
  sound_of_view rfl (.record m) (.of_eq rfl rfl rfl) rfl fun hs => { hs with }

theorem sound_hoist : Sound s (hoist id) :=
  sound_of_view rfl (.hoist id) (.of_eq rfl rfl rfl) rfl fun hs => { hs with }

/-! ## Types that are filled in -/

/-- A type is allocated, something else goes on, and then the type gets its parts. -/
theorem Yields.fill {τ : Ty} {body : TypeId → Check α} {g : α → Ty → Ty} {k : TypeId → α → Check β}
    (hτ : s.Valid → τ.Valid s)
    (hbody : ∀ u t, s.Leads t → u.slab = t.store.current.id → t.store.arena.type? u = some τ →
      Yields t (body u) P)
    (hfill : ∀ u a t, t.Valid → s.Leads t → u.slab = t.store.current.id → t.store.arena.type? u = some τ → P a t →
      Fills t u (g a))
    (hk : ∀ u a t, s.Leads t → u.slab = t.store.current.id → (t.store.arena.type? u = some (g a τ)) →
      Yields t (k u a) R) :
    Yields s (newType τ >>= fun u => body u >>= fun a => onStore (fun store => store.modifyType u (g a)) >>= fun _ =>
      k u a) R := by
  intro hs
  have hnew := leads_newType hs (hτ hs)
  have hread : (s.store.newType τ).2.arena.type? (s.store.newType τ).1 = some τ := by
    rw [Store.type?_newType, if_pos rfl]
  have hrun : newType τ s = .ok (s.store.newType τ).1 { s with store := (s.store.newType τ).2 } := rfl
  obtain ⟨hleads, hgives⟩ := hbody _ _ hnew rfl hread hnew.valid
  rw [after_bind hrun]
  cases hb : body (s.store.newType τ).1 { s with store := (s.store.newType τ).2 } with
  | error stop t =>
    rw [after_of_error hb] at hleads
    rw [after_bind_of_error hb]
    refine ⟨hnew.trans hleads, fun b u hrun' => ?_⟩
    obtain ⟨a', t', ha, hrest⟩ := bind_eq_ok.mp hrun'
    rw [hrun] at ha
    cases ha
    obtain ⟨a', t', ha, -⟩ := bind_eq_ok.mp hrest
    rw [hb] at ha
    cases ha
  | ok a t =>
    rw [after_of_ok hb] at hleads
    have hslab : (s.store.newType τ).1.slab = t.store.current.id := hleads.id_eq.symm
    have hhas : t.store.arena.Has (s.store.newType τ).1 := Option.isSome_iff_exists.mpr ⟨τ, hleads.type? hread⟩
    have hfills := hfill _ a t hleads.valid (hnew.trans hleads) hslab (hleads.type? hread) (hgives a t hb)
    -- the slab as a whole has grown since before the type was allocated, although the type itself has changed
    have hfilled : s.Leads { t with store := t.store.modifyType (s.store.newType τ).1 (g a) } := by
      refine ⟨(hnew.trans hleads).through.trans (.step (.here hleads.valid) (.store (.modifyType hhas hfills.completes))
        (hleads.valid.onStore hfills.refines hfills.intact)), ?_, (hnew.trans hleads).refines.trans hfills.refines⟩
      exact ⟨hleads.grows.store.fill _, hleads.grows.decls, hleads.grows.notes⟩
    have hstep : onStore (fun store => store.modifyType (s.store.newType τ).1 (g a)) t =
        .ok () { t with store := t.store.modifyType (s.store.newType τ).1 (g a) } := rfl
    have hread' :
      (t.store.modifyType (s.store.newType τ).1 (g a)).arena.type? (s.store.newType τ).1 = some (g a τ) := by
      rw [read_fill hslab (hleads.type? hread), if_pos rfl]
    have hslab' : (s.store.newType τ).1.slab = (t.store.modifyType (s.store.newType τ).1 (g a)).current.id :=
      hslab.trans (t.store.id_modifyType ..).symm
    obtain ⟨hrest, hgives'⟩ := hk _ a _ hfilled hslab' hread' hfilled.valid
    rw [after_bind hb, after_bind hstep]
    refine ⟨hfilled.trans hrest, fun b u hrun' => ?_⟩
    obtain ⟨a', t', ha, hrest'⟩ := bind_eq_ok.mp hrun'
    rw [hrun] at ha
    cases ha
    obtain ⟨a', t', ha, hrest'⟩ := bind_eq_ok.mp hrest'
    rw [hb] at ha
    cases ha
    obtain ⟨a', t', ha, hrest'⟩ := bind_eq_ok.mp hrest'
    rw [hstep] at ha
    cases ha
    exact hgives' b u hrest'

end Check

end Statics
