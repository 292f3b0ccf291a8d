import Statics.Proofs.Validity.Expressions

/-!
# Declarations in valid states

Checking a declaration goes through valid states. Variables and constants get settled types, whatever the operands of
their values are like, and a constant gets a value of its type. A name gets as its base what is no name, and an enum
where it was declared as one.
-/

namespace Statics.Check

variable {y : Entity} {scope : ScopeId} {u : TypeId} {init : Expr} {entities : List EntityId} {values : List Expr}
  {d : ProcDecl} {token : Token}

variable {s t : Pass} {ctx : Context} {resolve : Resolver} {e : EntityId} {x : Operand}

theorem valid_within (hctx : ctx.Valid s) (hscope : s.view.Has scope) : (ctx.within scope).Valid s :=
  ⟨hscope, hctx.signature⟩

/-! ## Operands of lists of values -/

/-- A valid operand that is no list of results. -/
structure IsSingle (t : Pass) (x : Operand) : Prop where
  valid : x.Valid t
  whole : x.mode = .value → ∀ items, t.store.arena.type? x.type ≠ some (.tuple items)

theorem IsSingle.later (h : IsSingle s x) (ht : s.Leads t) : IsSingle t x := by
  refine ⟨ht.operand h.valid, fun hmode items hitems => ?_⟩
  obtain ⟨τ, hτ⟩ := Option.isSome_iff_exists.mp (show (s.store.arena.type? x.type).isSome from h.valid.has)
  cases (ht.type? hτ).symm.trans hitems
  exact h.whole hmode items hτ

/-- What can be stored is of a type other than a tuple. -/
theorem IsSingle.not_tuple (h : IsSingle s x) (hvalue : x.mode.isValue) (items : List TypeId) :
    s.store.arena.type? x.type ≠ some (.tuple items) := by
  intro hitems
  cases hmode : x.mode with
  | value => exact h.whole hmode items hitems
  | var =>
    obtain ⟨τ, hτ, hsettled⟩ := h.valid.settled (.inl hmode)
    cases hτ.symm.trans hitems
    cases hsettled
  | constant =>
    obtain ⟨c, hc⟩ := Option.isSome_iff_exists.mp (h.valid.constant.mp hmode)
    have hfits := (h.valid.suits c hc).fits
    rw [Arena.Suits,
      Arena.base_of_type? (a := s.view.arena) (t := x.note.type) hitems fun _ _ _ h => by cases h] at hfits
    exact hfits
  | _ =>
    rw [hmode] at hvalue
    cases hvalue

theorem single_spliced (hs : s.Valid) (hx : x.Valid s) : ∀ p ∈ spliced s.store.arena x init, IsSingle s p.1 := by
  intro p hp
  unfold spliced at hp
  split at hp
  case h_1 items hmode htuple =>
    obtain ⟨τ, hτ⟩ := Option.isSome_iff_exists.mp (show (s.store.arena.type? x.type).isSome from hx.has)
    rw [Arena.type_eq hτ] at htuple
    subst htuple
    obtain ⟨u, hu, rfl⟩ := List.mem_map.mp hp
    have hsettled := hs.intact.types x.type _ hτ u hu
    refine ⟨valid_value hsettled.has _, fun _ items' hitems => ?_⟩
    obtain ⟨σ, hσ, hset⟩ := hsettled
    cases hσ.symm.trans hitems
    cases hset
  case h_2 hnot =>
    rw [List.mem_singleton.mp hp]
    exact ⟨hx, fun hmode items hitems => hnot items hmode (Arena.type_eq hitems)⟩

theorem yields_operands {values : List Expr} (hr : Answers s resolve) (hctx : ctx.Valid s) :
    Yields s (operands resolve ctx values) fun xs t => ∀ p ∈ xs, IsSingle t p.1 := by
  induction values generalizing s with
  | nil => exact yields_pure fun _ p hp => by cases hp
  | cons init rest ih =>
    refine ((checks_expr resolve init).value hr hctx).bind fun x t ht hx => yields_arena fun hvalid => ?_
    refine (ih (hr.later ht) (ht.context hctx)).bind fun xs w hw hxs => yields_pure fun _ p hp => ?_
    rcases List.mem_append.mp hp with hp | hp
    · exact (single_spliced hvalid hx p hp).later hw
    · exact hxs p hp

/-! ## Variables -/

theorem sound_inferType (he : s.view.Has e) (hx : IsSingle s x) (hvalue : x.mode.isValue) (init : Expr) :
    Sound s (inferType e x init) := by
  refine yields_arena fun hs => ?_
  split
  · exact sound_report.andThen fun _ ht => sound_setInvalid (ht.has he)
  case isFalse hnil =>
    have hsettled : s.view.Settled (s.store.arena.settledType x.type) :=
      hs.intact.settled_settledType hx.valid.has (Bool.eq_false_iff.mpr hnil) (hx.not_tuple hvalue)
    refine (sound_setType he hsettled).andThen fun t ht => ?_
    exact (sound_assignTo (ht.operand hx.valid) (ht.settled hsettled).has).bind fun _ _ _ _ => sound_pure ()

theorem sound_initVariable (he : s.view.Has e) (hx : IsSingle s x) : Sound s (initVariable e x init) := by
  have hreject : Sound s (do
      let _ ← assign x init none .variableDeclaration
      setType e .invalid) :=
    (sound_assignFree hx.valid).bind fun _ _ ht _ => sound_setInvalid (ht.has he)
  refine yields_arena fun hs => ?_
  dsimp only
  split
  · exact sound_pure ()
  · split
    case h_1 => exact sound_setInvalid he
    case h_2 => exact hreject
    case h_3 => exact hreject
    case h_4 => exact hreject
    case h_5 u hdeclared _ _ _ _ =>
      have hhas : s.view.Has u := by
        have htype := (settled_or_literal hs e).elim (fun h => h.has) fun h => h.2
        rwa [hdeclared] at htype
      exact (sound_assignTo hx.valid hhas).bind fun _ _ _ _ => sound_pure ()
    case h_6 hinvalid hnone htype hbuiltin =>
      refine sound_inferType he hx ?_ init
      cases hmode : x.mode <;> simp_all [Mode.isValue]

theorem sound_initEach {xs : List (Operand × Expr)} (hes : ∀ e ∈ entities, s.view.Has e)
    (hxs : ∀ p ∈ xs, IsSingle s p.1) : Sound s (initEach entities xs) := by
  induction entities generalizing s xs with
  | nil => exact sound_pure ()
  | cons e rest ih =>
    rw [List.forall_mem_cons] at hes
    cases xs with
    | nil =>
      exact (sound_setInvalid hes.1).andThen fun _ ht => ih (fun e he => ht.has (hes.2 e he)) fun p hp => by cases hp
    | cons p xs =>
      refine (sound_initVariable hes.1 (hxs p List.mem_cons_self)).andThen fun t ht => ?_
      exact ih (fun e he => ht.has (hes.2 e he)) fun q hq => (hxs q (List.mem_cons_of_mem _ hq)).later ht

theorem sound_initVariables {inits : List Expr} (hes : ∀ e ∈ entities, s.view.Has e) (hr : Answers s resolve)
    (hctx : ctx.Valid s) : Sound s (initVariables resolve ctx entities token inits) := by
  refine (yields_operands hr hctx).bind fun xs t ht hxs => ?_
  dsimp only
  refine (sound_initEach (fun e he => ht.has (hes e he)) hxs).andThen fun _ _ => ?_
  split
  · exact sound_report
  · exact sound_pure ()

theorem sound_setTypes (hes : ∀ e ∈ entities, s.view.Has e) (hu : s.view.Settled u) :
    Sound s (setTypes u entities) := by
  induction entities generalizing s with
  | nil => exact sound_pure ()
  | cons e rest ih =>
    rw [List.forall_mem_cons] at hes
    exact (sound_setType hes.1 hu).andThen fun t ht => ih (fun e he => ht.has (hes.2 e he)) (ht.settled hu)

theorem sound_setInvalids (hes : ∀ e ∈ entities, s.view.Has e) : Sound s (setTypes .invalid entities) :=
  .of_valid fun hs => sound_setTypes hes hs.intact.settled_invalid

/-- The literals are no variables and no procedures. -/
theorem kind_of_literal (hs : s.Valid) (hy : s.store.arena.entity? e = some y) (he : e ∈ Universe.literals) :
    y.kind = .nil ∨ ∃ c, y.kind = .constant c := by
  obtain ⟨z, hz, hliteral⟩ := hs.intact.literals e he
  cases hy.symm.trans hz
  rcases hliteral with ⟨hkind, -⟩ | ⟨b, hkind, -⟩
  · exact .inl hkind
  · exact .inr ⟨_, hkind⟩

theorem sound_visit (hes : ∀ e ∈ entities, s.view.Has e) : Sound s (visit entities) := by
  induction entities generalizing s with
  | nil => exact sound_pure ()
  | cons e rest ih =>
    rw [List.forall_mem_cons] at hes
    refine Yields.andThen (sound_modifyEntity hes.1 (fun y => ?_) (fun y _ _ hy => ?_) fun hs y hy he => ?_)
      fun _ ht => ih fun e he => ht.has (hes.2 e he)
    · cases hkind : y.kind <;> dsimp only
      case var => exact ⟨by simp [hkind, EntityKind.name], rfl, rfl, rfl, fun _ h => h, fun v h => by simp [hkind] at h⟩
      all_goals exact .refl y
    · cases hkind : y.kind <;> dsimp only
      case var =>
        exact ⟨hy.home, hy.through, fun _ h => by (cases h), hy.type, fun _ h => by (cases h), fun h => by cases h⟩
      all_goals exact hy
    · rcases kind_of_literal hs hy he with hkind | ⟨c, hkind⟩
      · simp only [hkind]
      · simp only [hkind]

theorem sound_reportCycle : Sound s (reportCycle e) := yields_entity fun _ => sound_report

theorem sound_readVariables {type : Option Expr} (hes : ∀ e ∈ entities, s.view.Has e) (hr : Answers s resolve)
    (hctx : ctx.Valid s) : Sound s (readVariables resolve ctx entities token type values) := by
  unfold readVariables
  cases type with
  | none =>
    cases values with
    | nil => exact sound_report.andThen fun _ ht => sound_setInvalids fun e he => ht.has (hes e he)
    | cons value values => exact sound_initVariables hes hr hctx
  | some type =>
    refine ((checks_expr resolve type).type hr hctx).bind fun y t ht hy => ?_
    refine (sound_setTypes (fun e he => ht.has (hes e he)) hy).andThen fun w hw => ?_
    cases values with
    | nil => exact sound_pure ()
    | cons value values =>
      exact sound_initVariables (fun e he => (ht.trans hw).has (hes e he)) (hr.later (ht.trans hw))
        ((ht.trans hw).context hctx)

theorem sound_varDecl {type : Option Expr} (hes : ∀ e ∈ entities, s.view.Has e) (hr : Answers s resolve)
    (hctx : ctx.Valid s) : Sound s (varDecl resolve ctx entities type values) := by
  refine yields_arena fun hs => ?_
  cases entities with
  | nil =>
    cases type with
    | none => exact sound_pure ()
    | some type => exact ((checks_expr resolve type).type hr hctx).bind fun _ _ _ _ => sound_pure ()
  | cons first rest =>
    dsimp only
    split
    · exact sound_reportCycle.andThen fun _ ht => sound_setInvalids fun e he => ht.has (hes e he)
    · refine (sound_visit hes).andThen fun t ht => (sound_record _).andThen fun w hw => ?_
      exact sound_readVariables (fun e he => (ht.trans hw).has (hes e he)) (hr.later (ht.trans hw))
        ((ht.trans hw).context hctx)

/-! ## Constants -/

/-- A constant gets a value of the type that it has. -/
theorem sound_setValue {c : Constant} (he : s.view.Has e) (hliteral : e ∉ Universe.literals)
    (hu : ∀ y, e.slab = s.store.current.id → s.store.arena.entity? e = some y → y.type = some u)
    (hc : s.view.Suits u c) : Sound s (onStore fun store => store.modifyEntity e fun entity =>
      match entity.kind with
      | .constant _ => { entity with kind := .constant (some c) }
      | _ => entity) := by
  refine sound_modifyEntity he (fun y => ?_) (fun y hlocal hread hy => ?_) fun _ _ _ h => absurd h hliteral
  · cases hkind : y.kind <;> dsimp only
    case constant => exact ⟨by simp [hkind, EntityKind.name], rfl, rfl, rfl, fun _ h => h, fun _ _ => ⟨c, rfl⟩⟩
    all_goals exact .refl y
  · cases hkind : y.kind <;> dsimp only
    case constant =>
      refine ⟨hy.home, hy.through, fun _ h => by (cases h), hy.type, fun d hd => ⟨u, hu y hlocal hread, ?_⟩,
        fun h => by cases h⟩
      cases hd
      exact hc
    all_goals exact hy

/-- An entity of the slab that is written has a type after it was given one. -/
theorem type_after_setType (hleads : s.Leads t) (hu : ∀ u', (s.store.arena.entity e).type = some u' → u' = u)
    {w : Pass} (hw : t.Leads w) (hstore : t.store = s.store.setType e u) (hlocal : e.slab = w.store.current.id)
    (hy : w.store.arena.entity? e = some y) (he : s.view.Has e) : y.type = some u := by
  obtain ⟨z, hz, hread⟩ := exists_entity he
  rw [hread] at hu
  have hslab : e.slab = s.store.current.id := by rw [hlocal, hw.id_eq, hleads.id_eq]
  have hnow : t.store.arena.entity? e = some { z with type := z.type.or (some u) } := by
    rw [hstore, Store.setType, Store.entity?_modifyEntity, hz, if_pos ⟨hslab, rfl⟩, Option.map_some]
  obtain ⟨y', hy', hkeeps⟩ := hw.grows.store.toExtends.entities e _ hnow
  cases hy.symm.trans hy'
  refine hkeeps.type u ?_
  cases htype : z.type with
  | none => rfl
  | some u' => rw [hu u' htype, Option.some_or]

theorem sound_initConstant (he : s.view.Has e) (hliteral : e ∉ Universe.literals) (hx : x.Valid s) :
    Sound s (initConstant e x init) := by
  refine yields_arena fun hs => ?_
  dsimp only
  split
  · exact sound_setInvalid he
  case isFalse hcond =>
    simp only [Bool.or_eq_true, not_or, Bool.not_eq_true] at hcond
    obtain ⟨⟨-, hvalid⟩, hdeclared⟩ := hcond
    split
    case h_1 hmode =>
      -- the declared type, or the one that the value settles on
      have hu : s.view.Settled ((s.store.arena.entity e).type.getD (s.store.arena.settledType x.type)) ∧
          s.store.arena.isInvalid ((s.store.arena.entity e).type.getD (s.store.arena.settledType x.type)) = false := by
        cases htype : (s.store.arena.entity e).type with
        | some u =>
          have hsettled := hs.intact.settled_type hliteral
          rw [show (s.view.arena.entity e).type = some u from htype] at hsettled
          rw [htype] at hdeclared
          exact ⟨hsettled, hdeclared⟩
        | none =>
          refine ⟨hs.intact.settled_settledType hx.has ?_ fun items hitems => ?_,
            hs.intact.not_isInvalid_settledType hvalid⟩
          · refine Bool.eq_false_iff.mpr fun hnil => ?_
            simpa [Operand.note, constant?_of_untypedNil hx (beq_iff_eq.mp hnil)] using hx.constant.mp hmode
          · exact IsSingle.not_tuple ⟨hx, fun h => by rw [hmode] at h; cases h⟩ (by rw [hmode]; rfl) items hitems
      refine (yields_setType he hu.1).bind fun _ t ht hstore => ?_
      refine (yields_assign (ht.operand hx) (fun u h => by cases h; exact (ht.settled hu.1).has)).bind
        fun y w hw hy => ?_
      split
      case h_1 d _ hd =>
        have hstored := hy.2 _ rfl ((ht.isInvalid_eq hs hu.1.has).trans hu.2)
        refine sound_setValue ((ht.trans hw).has he) hliteral (fun y hlocal hread => ?_) (hstored.2 d hd)
        exact type_after_setType ht (fun u' h => by rw [h, Option.getD_some]) hw hstore hlocal hread he
      case h_2 => exact sound_pure ()
    case h_2 => exact sound_report.andThen fun _ ht => sound_setInvalid (ht.has he)

theorem sound_initialValue (he : s.view.Has e) (hliteral : e ∉ Universe.literals) (value : Option Expr)
    (hr : Answers s resolve) (hctx : ctx.Valid s) : Sound s (do
      match value with
      | none => setType e .invalid
      | some init => initConstant e (← expr resolve ctx .value init) init) := by
  cases value with
  | none => exact sound_setInvalid he
  | some init =>
    refine ((checks_expr resolve init).value hr hctx).bind fun x t ht hx => ?_
    exact sound_initConstant (ht.has he) hliteral hx

theorem sound_constant (he : s.view.Has e) (hliteral : e ∉ Universe.literals) (type value : Option Expr)
    (hr : Answers s resolve) (hctx : ctx.Valid s) : Sound s (constant resolve ctx e type value) := by
  have hrest (t : Pass) (ht : s.Leads t) :=
    sound_initialValue (ht.has he) hliteral value (hr.later ht) (ht.context hctx)
  cases type with
  | none => exact (sound_pure ()).andThen hrest
  | some type =>
    refine ((checks_expr resolve type).type hr hctx).bind fun y t ht hy => ?_
    exact (sound_setType (ht.has he) hy).andThen fun w hw => hrest w (ht.trans hw)

/-! ## Named types -/

/-- The base that a name gets is no name, and an enum where that is what is declared. -/
theorem unnamed_namedBase (hs : s.Valid) (hu : s.view.Settled u) :
    s.store.arena.Unnamed (namedBase s.store.arena u) ∧ ∀ b members,
      s.store.arena.type? u = some (.enum b members) → namedBase s.store.arena u = u := by
  have hinvalid : s.store.arena.Unnamed .invalid := ⟨_, hs.intact.basics .invalid, rfl, rfl⟩
  refine ⟨?_, fun b members hread => ?_⟩
  · unfold namedBase
    split
    case h_1 => exact hinvalid
    case h_2 hnot =>
      refine (hs.intact.unnamed_base hu ?_).1
      cases hbase : s.view.arena.base u with
      | named name base id => exact absurd hbase (hnot name base id)
      | _ => rfl
  · have hnot : ∀ name base e, Ty.enum b members ≠ .named name (some base) e := fun _ _ _ h => by cases h
    unfold namedBase
    rw [Arena.base_of_type? hread hnot, Arena.baseType_of_type? hread hnot]

theorem valid_declaring (hctx : ctx.Valid s) : (ctx.declaring e).Valid s := ⟨hctx.scope, hctx.signature⟩

theorem sound_namedType (he : s.view.Has e) {type : Expr}
    (hdecl : (e, Declaration.type scope type) ∈ s.decls) (hr : Answers s resolve) (hctx : ctx.Valid s) :
    Sound s (namedType resolve ctx e type) := by
  refine yields_entity fun _ => ?_
  have hbody (u : TypeId) (t : Pass) (ht : s.Leads t)
      (hread : t.store.arena.type? u = some (.named (s.store.arena.entity e).name none e)) :
      Yields t (do
        setType e u
        let y ← expr resolve (ctx.declaring e) (.type (some u)) type
        return namedBase (← arena) y.type) fun base w =>
          w.store.arena.Unnamed base ∧
            (w.view.NamesEnum e → ∃ b members, w.store.arena.type? base = some (.enum b members)) := by
    refine (sound_setType (ht.has he) ⟨_, hread, rfl⟩).andThen fun w hw => ?_
    have hleads := ht.trans hw
    refine (checks_expr resolve type w (ctx.declaring e) _ (hr.later hleads)
      (valid_declaring (hleads.context hctx)) fun u' hu' => ?_).bind fun y z hz hy => ?_
    · cases hu'
      exact ⟨_, e, hw.type? hread, fun henum => ⟨scope, type, hleads.decls hdecl, henum⟩⟩
    · refine yields_arena fun hvalid => yields_pure fun _ => ?_
      obtain ⟨hunnamed, hself⟩ := unnamed_namedBase hvalid hy.settled
      refine ⟨hunnamed, fun hnames => ?_⟩
      obtain ⟨scope', type', hmem, henum⟩ := hnames
      have heq := hvalid.unique e scope' type' scope type hmem ((hleads.trans hz).decls hdecl)
      rw [heq] at henum
      obtain ⟨b, members, hb⟩ := hy.enum henum
      exact ⟨b, members, by rw [hself b members hb, hb]⟩
  have h := Yields.fill (s := s) (τ := .named (s.store.arena.entity e).name none e) (g := Ty.withBase)
    (k := fun _ _ => pure ()) (R := fun _ _ => True) (fun _ => ⟨he, fun _ h => by cases h⟩)
    (fun u t ht _ hread => hbody u t ht hread)
    (fun u base t hvalid _ hslab hread hbase => fills_named hvalid hslab hread hbase.1 hbase.2)
    fun _ _ _ _ _ _ => sound_pure ()
  simp only [bind_assoc, pure_bind, bind_pure_unit] at h
  exact h

/-! ## Procedures -/

theorem yields_procSignature (he : s.view.Has e) (hr : Answers s resolve) (hctx : ctx.Valid s) :
    Yields s (procSignature resolve ctx e d) fun p t => t.view.Has p.1 ∧ t.view.Settled p.2 := by
  refine (yields_openScope hctx.scope).bind fun scope t ht hscope => ?_
  refine (yields_signature (fun h hh => by cases hh; exact hscope) (fun f _ => checks_expr resolve f.type)
    (fun e _ => checks_expr resolve e) (hr.later ht) (valid_within (ht.context hctx) hscope)).bind fun u w hw hu => ?_
  refine (sound_setType ((ht.trans hw).has he) hu).andThen fun z hz => ?_
  refine Yields.andThen (sound_modifyEntity (((ht.trans hw).trans hz).has he) (fun y => ?_) (fun y _ _ hy => ?_)
    fun hs y hy hlit => ?_) fun q hq => ?_
  · cases hkind : y.kind <;> dsimp only
    case procedure =>
      exact ⟨by simp [hkind, EntityKind.name], rfl, rfl, rfl, fun _ h => h, fun v h => by simp [hkind] at h⟩
    all_goals exact .refl y
  · cases hkind : y.kind <;> dsimp only
    case procedure =>
      refine ⟨hy.home, hy.through, fun h hh => ?_, hy.type, fun _ h => by (cases h), fun h => by cases h⟩
      cases hh
      exact (hw.trans hz).has hscope
    all_goals exact hy
  · rcases kind_of_literal hs hy hlit with hkind | ⟨c, hkind⟩
    · simp only [hkind]
    · simp only [hkind]
  · exact yields_pure fun _ => ⟨((hw.trans hz).trans hq).has hscope, (hz.trans hq).settled hu⟩

theorem sound_entryPointSignature : Sound s (entryPointSignature d u) := by
  refine yields_arena fun _ => ?_
  split
  · split
    · exact sound_report
    · exact sound_pure ()
  · exact sound_pure ()

theorem sound_procTags : Sound s (procTags d) := by
  have hrest (t : Pass) : Sound t (do
      if d.tags.foreign && d.linkName.isSome then report d.signature.node.token .foreignWithLinkName) :=
    .ite (fun _ => sound_report) fun _ => sound_pure ()
  unfold procTags
  exact .ite (fun _ => sound_report.andThen fun t _ => hrest t) fun _ => hrest s

theorem sound_bindForeign (he : s.view.Has e) : Sound s (bindForeign d e u) := by
  refine yields_get fun _ => ?_
  split
  · refine yields_arena fun _ => ?_
    exact .ite (fun _ => sound_report) fun _ => sound_pure ()
  · exact sound_of_view rfl (.claimSymbol _) (.of_eq rfl rfl rfl) rfl fun hs =>
      { hs with foreigns := List.forall_mem_cons.mpr ⟨he, hs.foreigns⟩ }

theorem sound_foreignSymbol (d : ProcDecl) (fileLevel : Bool) (he : s.view.Has e) (u : TypeId) : Sound s (do
    match d.body with
    | some body => report body.opening .foreignWithBody
    | none => pure ()
    if fileLevel then bindForeign d e u) := by
  have hlast (t : Pass) (ht : s.Leads t) : Sound t (do if fileLevel then bindForeign d e u) :=
    .ite (fun _ => sound_bindForeign (ht.has he)) fun _ => sound_pure ()
  cases d.body with
  | some body => exact sound_report.andThen hlast
  | none => exact (sound_pure ()).andThen hlast

theorem sound_foreignProc (d : ProcDecl) (fileLevel : Bool) (he : s.view.Has e) (u : TypeId) :
    Sound s (foreignProc d fileLevel e u) := by
  have hrest (t : Pass) (ht : s.Leads t) := sound_foreignSymbol d fileLevel (ht.has he) u
  unfold foreignProc
  exact .ite (fun _ => sound_report.andThen hrest) fun _ => (sound_pure ()).andThen hrest

theorem sound_reserveLink (link : Token) (pos : Pos) : Sound s (reserveLink link pos) := by
  have hclaim : Sound s (modify fun s => { s with links := s.links ++ [(link.text, pos)] }) :=
    sound_of_view rfl (.claimLink _) (.of_eq rfl rfl rfl) rfl fun hs => { hs with }
  refine yields_get fun _ => hclaim.andThen fun _ _ => ?_
  split
  · exact sound_emit _
  · exact sound_pure ()

theorem sound_enqueue {b : Body} (hb : b.Valid s) : Sound s (modify fun s => { s with queue := s.queue ++ [b] }) := by
  refine sound_of_view rfl (.enqueue b) (.of_eq rfl rfl rfl) rfl fun hs => { hs with queue := ?_ }
  exact List.forall_mem_append.mpr ⟨hs.queue, List.forall_mem_singleton.mpr hb⟩

theorem sound_procBody (he : s.view.Has e) (hscope : s.view.Has scope)
    (hu : s.view.Settled u) : Sound s (do
      match d.body with
      | some block => modify fun s => { s with queue := s.queue ++ [⟨e, scope, u, block⟩] }
      | none => report d.token (.bodyMissing d.name.name)) := by
  cases d.body with
  | some block => exact sound_enqueue ⟨he, hscope, hu.has⟩
  | none => exact sound_report

theorem sound_procLink (he : s.view.Has e) (d : ProcDecl) (hscope : s.view.Has scope)
    (hu : s.view.Settled u) : Sound s (do
      match d.linkName with
      | some link => reserveLink link d.name.token.pos
      | none => pure ()
      match d.body with
      | some block => modify fun s => { s with queue := s.queue ++ [⟨e, scope, u, block⟩] }
      | none => report d.token (.bodyMissing d.name.name)) := by
  cases d.linkName with
  | some link =>
    exact (sound_reserveLink _ _).andThen fun _ ht => sound_procBody (ht.has he) (ht.has hscope) (ht.settled hu)
  | none => exact sound_procBody he hscope hu

theorem sound_procedure (he : s.view.Has e) (hr : Answers s resolve) (hctx : ctx.Valid s) :
    Sound s (procedure resolve ctx e d) := by
  refine (yields_procSignature he hr hctx).bind fun p t ht hp => ?_
  obtain ⟨scope, u⟩ := p
  have hlast (w : Pass) (hw : t.Leads w) (fileLevel : Bool) :=
    Yields.ite (c := d.tags.foreign = true) (fun _ => sound_foreignProc d fileLevel ((ht.trans hw).has he) u) fun _ =>
      sound_procLink ((ht.trans hw).has he) d (hw.has hp.1) (hw.settled hp.2)
  refine yields_arena fun _ => ?_
  exact .ite (fun _ => sound_entryPointSignature.andThen fun _ hw => sound_procTags.andThen fun _ hz =>
      hlast _ (hw.trans hz) _)
    fun _ => (sound_pure ()).andThen fun _ hw => sound_procTags.andThen fun _ hz => hlast _ (hw.trans hz) _

/-! ## Demand -/

theorem sound_declaration (he : s.view.Has e) (hliteral : e ∉ Universe.literals) {d : Declaration}
    (hdecl : (e, d) ∈ s.decls) (hr : Answers s resolve) (hctx : ctx.Valid s) :
    Sound s (declaration resolve ctx e d) := by
  cases d with
  | constant scope type value => exact sound_constant he hliteral type value hr hctx
  | vars scope entities type values => exact .of_valid fun hs => sound_varDecl (hs.decls _ hdecl).2.entities hr hctx
  | type scope type => exact sound_namedType he hdecl hr hctx
  | proc scope d => exact sound_procedure he hr hctx

theorem not_literal_of_untyped (hs : s.Valid) (h : (s.store.arena.entity e).type.isSome = false) :
    e ∉ Universe.literals := by
  intro hmem
  obtain ⟨y, hy, hliteral⟩ := hs.intact.literals e hmem
  have hread : s.store.arena.entity e = y := by
    rw [Arena.entity, show s.store.arena.entity? e = some y from hy, Option.getD_some]
  rw [hread] at h
  rcases hliteral with ⟨-, htype⟩ | ⟨b, -, htype⟩
  · rw [htype] at h
    cases h
  · rw [htype] at h
    cases h

theorem sound_demandFrom {pending : Pending} (hpending : pending ⊆ s.decls) (hctx : ctx.Valid s)
    (he : s.view.Has e) : Sound s (demandFrom pending ctx e) := by
  induction hn : pending.length using Nat.strongRecOn generalizing s ctx e pending with
  | ind n ih =>
    rw [demandFrom]
    refine yields_entity fun hs => ?_
    split
    · exact sound_pure ()
    case isFalse htype =>
      split
      case h_1 d rest htaken =>
        obtain ⟨hmem, hrest⟩ := subset_of_take? htaken
        have hlt : rest.length < n := hn ▸ length_lt_of_take? htaken
        have hr : Answers s (demandFrom rest) := fun t ht ctx' e' hctx' he' =>
          ih rest.length hlt (fun p hp => ht.decls (hpending (hrest hp))) hctx' he' rfl
        have hvalid := hs.decls _ (hpending hmem)
        refine yields_get fun _ => ?_
        split
        · exact sound_reportCycle.andThen fun _ ht => sound_setInvalid (ht.has he)
        · refine (sound_record _).andThen fun t ht => ?_
          have hdeclaration := sound_declaration (ht.has he) (not_literal_of_untyped hs (Bool.eq_false_iff.mpr htype))
            (ht.decls (hpending hmem)) (hr.later ht) (valid_within (ht.context hctx) (ht.has hvalid.2.scope))
          exact hdeclaration.andThen fun _ _ => sound_record _
      case h_2 =>
        refine yields_get fun _ => ?_
        split
        · exact sound_reportCycle.andThen fun _ ht => sound_setInvalid (ht.has he)
        · exact sound_pure ()

theorem sound_demand (hctx : ctx.Valid s) (he : s.view.Has e) : Sound s (demand ctx e) :=
  yields_get fun _ => sound_demandFrom (List.Subset.refl _) hctx he

theorem answers_demand : Answers s demand := fun _ _ _ _ hctx he => sound_demand hctx he

theorem answers_demandFrom {pending : Pending} (hpending : pending ⊆ s.decls) :
    Answers s (demandFrom pending) :=
  fun _ ht _ _ hctx he => sound_demandFrom (fun _ hp => ht.decls (hpending hp)) hctx he

theorem answers_resolver (h : resolve = demand ∨
    ∃ pending ⊆ s.decls, resolve = demandFrom pending) : Answers s resolve := by
  rcases h with rfl | ⟨pending, hpending, rfl⟩
  · exact answers_demand
  · exact answers_demandFrom hpending

end Statics.Check
