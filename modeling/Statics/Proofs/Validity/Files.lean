import Statics.Proofs.Captures
import Statics.Proofs.Containment.Universe
import Statics.Proofs.Validity.Statements

/-!
# The file level and the jobs in valid states

The pass over the file level starts in the universe, which is valid, and goes through valid states. What it queues is
valid for the jobs as well: they start with a slab that has nothing in it yet, on top of that of the file level.
-/

namespace Statics

variable {config : Config} {d : ImportDecl} {files : List File} {stmts : List Stmt}

namespace Check

variable {s t : Pass} {ctx : Context} {scope : ScopeId}

/-! ## Files -/

theorem sound_openFiles : Sound s (openFiles files) := by
  induction files generalizing s with
  | nil => exact sound_pure ()
  | cons file rest ih =>
    refine .of_valid fun hs => (yields_newScope hs.intact.global (by decide)).bind fun scope t _ hscope => ?_
    refine Yields.andThen (P := fun _ _ => True) ?_ fun _ _ => ih
    refine sound_of_view rfl (.openFile file.path scope) (.of_eq rfl rfl rfl) rfl fun ht =>
      { ht with files := fun p hp => ?_ }
    rcases mem_insertFile hp with hp | hp
    · exact ht.files p hp
    · exact hp ▸ hscope

/-- The scope of a file is there. -/
theorem yields_fileScope? (path : String) : Yields s (fileScope? path) fun f t => ∀ h, f = some h → t.view.Has h := by
  refine yields_get fun _ => yields_pure fun hs h hh => ?_
  obtain ⟨before, after, heq, -⟩ := List.lookup_eq_some_iff.mp hh
  exact hs.files (path, h) (by rw [heq]; simp)

theorem yields_collectDecl (hscope : s.view.Has scope) (stmt : Stmt) :
    Yields s (collectDecl scope stmt) fun es t => ∀ e ∈ es, t.view.Has e := by
  unfold collectDecl
  split
  · exact yields_declareGlobals _ hscope
  · exact yields_declareConstants _ hscope
  · refine (yields_declareType _ hscope).bind fun e t _ he => yields_pure fun _ e' he' => ?_
    exact List.mem_singleton.mp he' ▸ he
  · refine (yields_declareProc _ hscope).bind fun e t _ he => yields_pure fun _ e' he' => ?_
    exact List.mem_singleton.mp he' ▸ he
  · exact yields_pure fun _ _ h => by cases h
  · exact sound_report.andThen fun _ _ => yields_pure fun _ _ h => by cases h

/-- Entities that were entered one after the other. -/
theorem yields_append {x y : Check (List EntityId)} (hx : Yields s x fun es t => ∀ e ∈ es, t.view.Has e)
    (hy : ∀ t, s.Leads t → Yields t y fun es t => ∀ e ∈ es, t.view.Has e) :
    Yields s (do let here ← x; return here ++ (← y)) fun es t => ∀ e ∈ es, t.view.Has e := by
  refine hx.bind fun here t ht hhere => (hy t ht).bind fun later w hw hlater => yields_pure fun _ e he => ?_
  rcases List.mem_append.mp he with he | he
  · exact hw.has (hhere e he)
  · exact hlater e he

theorem yields_collectDecls (hscope : s.view.Has scope) :
    Yields s (collectDecls scope stmts) fun es t => ∀ e ∈ es, t.view.Has e := by
  induction stmts generalizing s with
  | nil => exact yields_pure fun _ _ h => by cases h
  | cons stmt rest ih => exact yields_append (yields_collectDecl hscope stmt) fun t ht => ih (ht.has hscope)

theorem yields_collectFiles : Yields s (collectFiles files) fun es t => ∀ e ∈ es, t.view.Has e := by
  induction files generalizing s with
  | nil => exact yields_pure fun _ _ h => by cases h
  | cons file rest ih =>
    refine (yields_fileScope? file.path).bind fun f t _ hf => ?_
    cases f with
    | some scope => exact yields_append (yields_collectDecls (hf scope rfl)) fun _ _ => ih
    | none => exact yields_append (yields_pure fun _ _ h => by cases h) fun _ _ => ih

/-! ## Imports -/

theorem sound_enterImport (hscope : s.view.Has scope) {target : ScopeId} (htarget : s.view.Has target) :
    Sound s (enterImport d scope target) := by
  refine (yields_newEntity fun ht _ => Entity.valid_typed (fun h hh => ?_) (fun _ h => by cases h)
    ht.intact.settled_invalid rfl).bind fun e w hw he => ?_
  · cases hh
    exact htarget
  refine (sound_bind d.name (hw.has hscope) he.has).bind fun free z hz _ => ?_
  refine .ite (fun _ => ?_) fun _ => sound_pure ()
  refine sound_of_view rfl (.addImport e) (.of_eq rfl rfl rfl) rfl fun hz' => { hz' with imports := ?_ }
  exact List.forall_mem_append.mpr ⟨hz'.imports, List.forall_mem_singleton.mpr (hz.has he.has)⟩

theorem sound_bindImport (hscope : s.view.Has scope) {target : ScopeId} (htarget : s.view.Has target) :
    Sound s (bindImport d scope target) := by
  rw [bindImport_eq]
  refine yields_arena fun _ => .ite (fun _ => sound_warn.andThen fun _ ht => ?_) fun _ => ?_
  · exact sound_enterImport (ht.has hscope) (ht.has htarget)
  · exact sound_enterImport hscope htarget

theorem sound_resolveImport (hscope : s.view.Has scope) : Sound s (resolveImport d scope) := by
  refine (yields_fileScope? d.path.text).bind fun f t ht hf => ?_
  cases f with
  | none => exact sound_report
  | some target => exact .ite (fun _ => sound_report) fun _ => sound_bindImport (ht.has hscope) (hf target rfl)

theorem sound_resolveImports (hscope : s.view.Has scope) : Sound s (resolveImports scope stmts) := by
  induction stmts generalizing s with
  | nil => exact sound_pure ()
  | cons stmt rest ih =>
    unfold resolveImports
    split
    case h_1 h => cases h
    case h_2 d tail h =>
      cases h
      exact (sound_resolveImport hscope).andThen fun t ht => ih (ht.has hscope)
    case h_3 h =>
      cases h
      exact ih hscope

theorem sound_resolveFiles : Sound s (resolveFiles files) := by
  induction files generalizing s with
  | nil => exact sound_pure ()
  | cons file rest ih =>
    refine (yields_fileScope? file.path).bind fun f t _ hf => ?_
    cases f with
    | some scope => exact (sound_resolveImports (hf scope rfl)).andThen fun _ _ => ih
    | none => exact (sound_pure ()).andThen fun _ _ => ih

/-! ## Declarations in order -/

theorem sound_demandTurn (hctx : ctx.Valid s) (turn : Turn) {es : List EntityId} (hes : ∀ e ∈ es, s.view.Has e) :
    Sound s (demandTurn ctx turn es) := by
  induction es generalizing s with
  | nil => exact sound_pure ()
  | cons e rest ih =>
    have hrest (t : Pass) (ht : s.Leads t) : Sound t (demandTurn ctx turn rest) :=
      ih (ht.context hctx) fun e' he' => ht.has (hes e' (List.mem_cons_of_mem _ he'))
    refine yields_entity fun _ => ?_
    exact .ite (fun _ => (sound_demand hctx (hes e List.mem_cons_self)).andThen hrest) fun _ =>
      (sound_pure ()).andThen hrest

theorem sound_entryPoint : Sound s (entryPoint config files) := by
  refine yields_arena fun _ => yields_get fun _ => .ite (fun _ => ?_) fun _ => sound_pure ()
  cases files with
  | nil => exact sound_pure ()
  | cons first rest => exact sound_report

theorem sound_fileLevel : Sound s (fileLevel config files) := by
  refine sound_openFiles.andThen fun t _ => ?_
  refine yields_collectFiles.bind fun es w _ hes => ?_
  refine sound_resolveFiles.andThen fun z hz => .of_valid fun hvalid => ?_
  have hctx : (Context.outer config .global).Valid z := ⟨hvalid.intact.global, fun _ h => by cases h⟩
  have hes' (e : EntityId) (he : e ∈ es) : z.view.Has e := hz.has (hes e he)
  have hturn (t : Pass) (ht : z.Leads t) (turn : Turn) : Sound t (demandTurn (.outer config .global) turn es) :=
    sound_demandTurn (ht.context hctx) turn fun e he => ht.has (hes' e he)
  refine (hturn z (.refl hvalid) .types).andThen fun t₁ h₁ => ?_
  refine (hturn t₁ h₁ .constants).andThen fun t₂ h₂ => ?_
  refine (hturn t₂ (h₁.trans h₂) .procedures).andThen fun t₃ h₃ => ?_
  exact (hturn t₃ ((h₁.trans h₂).trans h₃) .vars).andThen fun _ _ => sound_entryPoint

end Check

/-! ## The universe -/

/-- What is read in a store with slab 0 alone is in it. -/
theorem Store.slab?_eq_some {st : Store} (hst : st.frozen = [] ∧ st.current.id = 0) {id : Nat} {slab : Slab}
    (h : st.arena.slab? id = some slab) : id = 0 ∧ slab = st.current := by
  rw [Store.arena, hst.1] at h
  have hid := List.find?_some h
  obtain rfl := List.mem_singleton.mp (List.mem_of_find?_eq_some h)
  rw [beq_iff_eq, hst.2] at hid
  exact ⟨hid.symm, rfl⟩

namespace Universe

/-- What the parts of the universe refer to, read off it in one evaluation. -/
theorem parts_spec :
    (literals.map fun e => (store.arena.entity? e).map fun x => (x.kind, x.type)) =
        [some (.constant (some (.bool true)), some (.basic .untypedBool)),
          some (.constant (some (.bool false)), some (.basic .untypedBool)), some (.nil, some (.basic .untypedNil))] ∧
      (store.arena.scope? .global).isSome ∧
      (∀ c ∈ store.current.scopes.toList, c.parent = none ∧ c.children = [] ∧
        ∀ e ∈ c.bindings.entities, (store.arena.entity? e).isSome) ∧
      (∀ i < store.current.entities.size, ((store.arena.entity ⟨0, i⟩).home.all fun h => h == .global) ∧
        (store.arena.entity ⟨0, i⟩).through = none ∧ (store.arena.entity ⟨0, i⟩).kind.scope? = none ∧
        ((⟨0, i⟩ : EntityId) ∈ literals ∨
          ((store.arena.entity ⟨0, i⟩).type.all fun t => (store.arena.type? t).any Ty.isSettled) ∧
            (store.arena.entity ⟨0, i⟩).kind.name ≠ "constant") ∧
        ((store.arena.entity ⟨0, i⟩).kind.isInnate → ∃ t ∈ innateTypes, (store.arena.entity ⟨0, i⟩).type = some t)) ∧
      (∀ i < store.current.types.size, (∃ k ∈ Kind.all, store.arena.type ⟨0, i⟩ = .basic k) ∨
        (⟨0, i⟩ : TypeId) = contextRecord ∨ (⟨0, i⟩ : TypeId) = contextType) ∧
      (∀ f ∈ ([⟨0, 26⟩, ⟨0, 27⟩] : List EntityId), f ∉ literals ∧ (store.arena.entity? f).isSome ∧
        (store.arena.entity f).type.isSome) ∧
      (store.arena.entity? ⟨0, 25⟩).isSome ∧ (store.arena.type? contextRecord).isSome ∧
      store.current.adopted = [] ∧ store.current.touched = [] := by
  decide +kernel

theorem isLiteral {e : EntityId} (he : e ∈ literals) : ∃ x, store.arena.entity? e = some x ∧ x.IsLiteral := by
  have hliterals := parts_spec.1
  have hmem := List.mem_map_of_mem (f := fun e => (store.arena.entity? e).map fun x => (x.kind, x.type)) he
  generalize store = st at *
  rw [hliterals] at hmem
  simp only [List.mem_cons, Option.map_eq_some_iff, Prod.mk.injEq, List.not_mem_nil, or_false] at hmem
  obtain ⟨x, hx, hkind, htype⟩ | ⟨x, hx, hkind, htype⟩ | ⟨x, hx, hkind, htype⟩ := hmem
  · exact ⟨x, hx, .inr ⟨true, hkind, htype⟩⟩
  · exact ⟨x, hx, .inr ⟨false, hkind, htype⟩⟩
  · exact ⟨x, hx, .inl ⟨hkind, htype⟩⟩

theorem valid_entity {e : EntityId} {x : Entity} (hx : store.arena.entity? e = some x) :
    x.Valid ⟨store, []⟩ e := by
  obtain ⟨-, hglobal, -, hall, -⟩ := parts_spec
  have hliteral : e ∈ literals → ∃ x, store.arena.entity? e = some x ∧ x.IsLiteral := isLiteral
  have hbasics : store.arena.HasBasics := type?_basic
  have hslabs := store_slabs
  -- from here on nothing may look into the store
  generalize store = st at *
  obtain ⟨slab, hslab, hget⟩ := Option.bind_eq_some_iff.mp hx
  obtain ⟨hid, rfl⟩ := Store.slab?_eq_some hslabs hslab
  obtain ⟨id, index⟩ := e
  cases hid
  have hentity : st.arena.entity ⟨0, index⟩ = x := Arena.entity_eq hx
  obtain ⟨hhome, hthrough, hscope, hsort, hinnate⟩ := hall index (Array.getElem?_eq_some_iff.mp hget).1
  rw [hentity] at hhome hthrough hscope hsort hinnate
  refine ⟨fun h hh => ?_, fun o ho => ?_, fun h hh => ?_, fun t ht he => ?_, fun c hc => ?_, hinnate⟩
  · rw [hh, Option.all_some, beq_iff_eq] at hhome
    exact hhome ▸ hglobal
  · rw [hthrough] at ho
    cases ho
  · rw [hscope] at hh
    cases hh
  · obtain ⟨htype, -⟩ := hsort.resolve_left he
    rw [ht, Option.all_some, Option.any_eq_true] at htype
    exact htype
  · rcases hsort with hmem | ⟨-, hsort⟩
    · obtain ⟨y, hy, hsort⟩ := hliteral hmem
      obtain rfl := Option.some.inj (hx.symm.trans hy)
      rcases hsort with ⟨hnil, -⟩ | ⟨b, hkind, htype⟩
      · rw [hnil] at hc
        cases hc
      · rw [hkind] at hc
        cases hc
        refine ⟨_, htype, View.suits_of_kind (k := .untypedBool) ?_ rfl⟩
        rw [Arena.kind?, show (View.arena ⟨st, []⟩).base _ = _ from hbasics.base_basic .untypedBool]
    · rw [hc] at hsort
      exact absurd rfl hsort

theorem valid_type {t : TypeId} {τ : Ty} (hτ : store.arena.type? t = some τ) : τ.Valid ⟨store, []⟩ := by
  obtain ⟨-, -, -, -, hall, hfields, hentity, hrecord, -⟩ := parts_spec
  have hslabs := store_slabs
  have htype : store.arena.type t = τ := Arena.type_eq hτ
  have hrecordType := type_contextRecord
  have hcontextType := type_contextType
  generalize store = st at *
  obtain ⟨slab, hslab, hget⟩ := Option.bind_eq_some_iff.mp hτ
  obtain ⟨hid, rfl⟩ := Store.slab?_eq_some hslabs hslab
  obtain ⟨id, index⟩ := t
  cases hid
  obtain ⟨k, -, hbasic⟩ | heq | heq := hall index (Array.getElem?_eq_some_iff.mp hget).1
  · rw [← htype, hbasic]
    trivial
  · rw [heq, hrecordType] at htype
    rw [← htype]
    exact fun f hf => ⟨(hfields f hf).2.1, (hfields f hf).1, (hfields f hf).2.2⟩
  · rw [heq, hcontextType] at htype
    rw [← htype]
    refine ⟨hentity, fun b hb => ?_⟩
    cases hb
    obtain ⟨σ, hσ⟩ := Option.isSome_iff_exists.mp hrecord
    rw [Arena.type_eq hσ] at hrecordType
    exact ⟨σ, hσ, by rw [hrecordType]; rfl, by rw [hrecordType]; rfl⟩

theorem intact : View.Intact ⟨store, []⟩ := by
  obtain ⟨-, hglobal, hscopes, -, -, -, -, -, hadopted, htouched⟩ := parts_spec
  have hbasics : store.arena.HasBasics := type?_basic
  have hliteral (e : EntityId) (he : e ∈ literals) : ∃ x, store.arena.entity? e = some x ∧ x.IsLiteral := isLiteral he
  have hentity (e : EntityId) (x : Entity) (hx : store.arena.entity? e = some x) : x.Valid ⟨store, []⟩ e :=
    valid_entity hx
  have htype (t : TypeId) (τ : Ty) (hτ : store.arena.type? t = some τ) : τ.Valid ⟨store, []⟩ := valid_type hτ
  have hslabs := store_slabs
  generalize store = st at *
  refine ⟨hbasics, hglobal, hliteral, fun h c hc => ?_, hentity, htype, fun p hp => ?_, fun e he => ?_⟩
  · obtain ⟨slab, hslab, hget⟩ := Option.bind_eq_some_iff.mp hc
    obtain ⟨-, rfl⟩ := Store.slab?_eq_some hslabs hslab
    obtain ⟨hparent, hchildren, hbound⟩ := hscopes c (Array.mem_toList_iff.mpr (Array.mem_of_getElem? hget))
    refine ⟨fun p hp => ?_, fun p hp => ?_, hbound⟩
    · rw [hparent] at hp
      cases hp
    · rw [hchildren] at hp
      cases hp
  · rw [show (View.store ⟨st, []⟩).current.adopted = [] from hadopted] at hp
    cases hp
  · rw [show (View.store ⟨st, []⟩).current.touched = [] from htouched] at he
    cases he

end Universe

/-- A pass that did nothing yet is valid if its slabs are. -/
theorem Pass.valid_start {store : Store} (h : View.Intact ⟨store, []⟩) (links : List (String × Pos))
    (collector : Collector) : (Pass.start store links collector).Valid where
  intact := h
  noted _ hp := by cases hp
  defined _ hp := by cases hp
  referred _ hp := by cases hp
  opened _ hp := by cases hp
  decls _ hp := by cases hp
  unique _ _ _ _ _ hp := by cases hp
  queue _ hb := by cases hb
  foreigns _ hp := by cases hp
  files _ hp := by cases hp
  imports _ he := by cases he

/-! ## Jobs -/

section

variable {v : View} {id : Nat} (hv : v.Intact) (hid : ∀ slab ∈ v.arena.slabs, slab.id < id)

include hv hid

/-- What is right stays right under an empty slab, in which nothing is being declared. -/
theorem View.Intact.refines_empty : v.Refines ⟨⟨.empty id, v.arena.slabs⟩, []⟩ where
  scopes h hh := by
    show ((Store.arena ⟨.empty id, v.arena.slabs⟩).scope? h).isSome
    rw [Store.scope?_empty hid]
    exact hh
  entities e he := by
    show ((Store.arena ⟨.empty id, v.arena.slabs⟩).entity? e).isSome
    rw [Store.entity?_empty hid]
    exact he
  typed e he := by
    show ((Store.arena ⟨.empty id, v.arena.slabs⟩).entity e).type.isSome
    rw [Arena.entity, Store.entity?_empty hid]
    exact he
  types u τ hτ := ⟨τ, (Store.type?_empty hid u).trans hτ, rfl, rfl⟩
  suits u c hc := by
    have hext : v.arena.Extends (View.arena ⟨⟨.empty id, v.arena.slabs⟩, []⟩) :=
      ⟨fun t τ hτ => (Store.type?_empty hid t).trans hτ,
        fun e x hx => ⟨x, (Store.entity?_empty hid e).trans hx, .refl x⟩⟩
    refine ⟨hv.suits_extend hext hc.fits, fun hslab => ?_⟩
    have hlt := Arena.slab_lt_of_type? hid hc.fits.has
    rw [hslab] at hlt
    exact absurd hlt (Nat.lt_irrefl _)

theorem View.Intact.empty : View.Intact ⟨⟨.empty id, v.arena.slabs⟩, []⟩ := by
  have hr := hv.refines_empty hid
  have hbasics : (View.arena ⟨⟨.empty id, v.arena.slabs⟩, []⟩).HasBasics := fun k =>
    (Store.type?_empty hid _).trans (hv.basics k)
  refine hv.next hr hbasics (fun e x hx _ => ?_) (fun h c hc => ?_) (fun e x hx => ?_) (fun u τ hτ => ?_) ?_ ?_
  · exact ⟨x, (Store.entity?_empty hid e).trans hx, rfl, fun _ ht => ht⟩
  · exact .inl ((Store.scope?_empty hid h).symm.trans hc)
  · exact .inl ((Store.entity?_empty hid e).symm.trans hx)
  · exact .inl ((Store.type?_empty hid u).symm.trans hτ)
  · intro p hp
    cases hp
  · intro e he
    cases he

end

end Statics
