import Statics.Proofs.Validity.Operands

/-!
# Expressions in valid states

Evaluating an expression from a valid state goes through valid states. The operand is valid, and a type operand where
the expression was read as a type. Where an enum is being declared, its members are values of the name that it is
declared as.
-/

namespace Statics

variable {scan : FieldScan} {args : List Expr} {x : Operand} {scope : Option ScopeId} {t : Pass} {reading : Reading}
  {u : TypeId} {exposes : Bool} {name : Ident} {standard : Int128} {names : List Ident} {form : RecordForm}

/-! ## New entities -/

namespace Entity

variable {v : View} {kind : EntityKind} {token : Token} {ident : Option NodeId} {e : EntityId}

theorem valid_typed {t : TypeId} (hscope : ∀ h, kind.scope? = some h → v.Has h)
    (hvalue : ∀ c, kind = .constant (some c) → v.Suits t c) (ht : v.Settled t) (hkind : kind.isInnate = false) :
    (Entity.typed kind token ident t).Valid v e where
  home _ h := by cases h
  through _ h := by cases h
  scope := hscope
  type u hu _ := by
    cases hu
    exact ht
  value c hc := ⟨t, rfl, hvalue c hc⟩
  innate h := absurd h (Bool.eq_false_iff.mp hkind)

theorem valid_fresh (hscope : ∀ h, kind.scope? = some h → v.Has h) (hvalue : ∀ c, kind ≠ .constant (some c))
    (hkind : kind.isInnate = false) :
    (Entity.fresh kind token ident).Valid v e where
  home _ h := by cases h
  through _ h := by cases h
  scope := hscope
  type _ hu := by cases hu
  value c hc := absurd hc (hvalue c)
  innate h := absurd h (Bool.eq_false_iff.mp hkind)

theorem valid_typedVar {info : VariableInfo} {t : TypeId} (ht : v.Settled t) :
    (Entity.typed (.var info) token ident t).Valid v e :=
  valid_typed (fun _ h => by cases h) (fun _ h => by cases h) ht rfl

end Entity

namespace Check

variable {s : Pass} {ctx : Context} {resolve : Resolver} {e : Expr}

/-! ## Parts of type expressions -/

/-- The fields that were entered are fields. -/
def FieldScan.Valid (v : View) (scan : FieldScan) : Prop := ∀ f ∈ scan.fields, v.IsField f

theorem FieldScan.Valid.later (h : scan.Valid s) (ht : s.Leads t) : scan.Valid t :=
  fun f hf => ht.refines.isField (h f hf)

theorem yields_embedField {field : EntityId} (hscan : scan.Valid s) :
    Yields s (embedField field u scan) fun scan t => scan.Valid t := by
  refine yields_arena fun _ => ?_
  dsimp only
  split
  · exact yields_pure fun _ => hscan
  · split
    · exact sound_report.andThen fun _ ht => yields_pure fun _ => hscan.later ht
    · split
      · exact sound_report.andThen fun _ ht => yields_pure fun _ => hscan.later ht
      · exact yields_pure fun _ => hscan

theorem yields_addField (hu : s.view.Settled u) (hscan : scan.Valid s) :
    Yields s (addField form exposes u name scan) fun scan t => scan.Valid t := by
  refine (yields_newEntity fun _ _ => Entity.valid_typedVar hu).bind fun id t ht hid => ?_
  refine (sound_define hid.has).andThen fun w hw => ?_
  have hscan' : FieldScan.Valid w { scan with fields := scan.fields ++ [id] } := by
    intro f hf
    rcases List.mem_append.mp hf with hf | hf
    · exact hscan.later (ht.trans hw) f hf
    · rw [List.mem_singleton.mp hf]
      exact hw.refines.isField (hid.isField rfl)
  dsimp only
  generalize (if name.isDiscard then none else scan.seen.lookup name.name) = found
  split
  · exact yields_entity fun _ => sound_report.andThen fun _ hz => yields_pure fun _ => hscan'.later hz
  · split
    · split
      · exact yields_embedField hscan'
      · exact yields_embedField hscan'
    · refine yields_pure fun _ => ?_
      split
      · exact hscan'
      · exact hscan'

theorem yields_addFields (hu : s.view.Settled u) (hscan : scan.Valid s) :
    Yields s (addFields form exposes u names scan) fun scan t => scan.Valid t := by
  induction names generalizing s scan with
  | nil => exact yields_pure fun _ => hscan
  | cons name rest ih =>
    exact (yields_addField hu hscan).bind fun scan' t ht hscan' => ih (ht.settled hu) hscan'

/-- The members that were entered are there. -/
def MemberScan.Valid (v : View) (scan : MemberScan) : Prop := ∀ m ∈ scan.members, v.IsField m

theorem MemberScan.Valid.later {scan : MemberScan} (h : scan.Valid s) (ht : s.Leads t) : scan.Valid t :=
  fun m hm => ht.refines.isField (h m hm)

/-- A type whose values are integers, as those of the members of an enum. -/
structure Numbers (v : View) (u : TypeId) : Prop where
  settled : v.Settled u
  suits : ∀ w, v.Suits u (.int w)

theorem Numbers.later (h : Numbers s u) (ht : s.Leads t) : Numbers t u :=
  ⟨ht.settled h.settled, fun w => ht.refines.suits _ _ (h.suits w)⟩

theorem sound_memberValue : Sound s (memberValue name standard e x) := by
  unfold memberValue
  split
  · exact sound_pure _
  · exact sound_pure _
  · exact sound_report.andThen fun _ _ => sound_pure _

/-- A member is entered unless one of its name is there. -/
theorem yields_enterMember (hu : Numbers s u) {value : Int128} {scan : MemberScan}
    (hscan : scan.Valid s) : Yields s (do
      let scan := { scan with next := successor value }
      let a ← arena
      match a.fieldNamed? name.name scan.members with
      | some previous =>
        report name.token (.memberRepeated name.name (a.entity previous).token.pos)
        return scan
      | none =>
        let id ← newEntity (Entity.typed (.constant (some (.int value))) name.token (some name.id) u)
        define name.id id
        return { scan with members := scan.members ++ [id] }) fun scan t => scan.Valid t := by
  refine yields_arena fun _ => ?_
  dsimp only
  split
  · exact sound_report.andThen fun w hw => yields_pure fun _ => hscan.later hw
  · refine (yields_newEntity fun _ _ => Entity.valid_typed (fun _ h => by cases h) (fun c hc => ?_)
      hu.settled rfl).bind fun id t ht hid => ?_
    · cases hc
      exact hu.suits value
    · refine (sound_define hid.has).andThen fun w hw => yields_pure fun _ m hm => ?_
      rcases List.mem_append.mp hm with hm | hm
      · exact hscan.later (ht.trans hw) m hm
      · rw [List.mem_singleton.mp hm]
        exact hw.refines.isField (hid.isField rfl)

theorem yields_addMember {kind : Kind} (hu : Numbers s u) {value : Int128} {scan : MemberScan} (hscan : scan.Valid s) :
    Yields s (addMember kind u name value scan) fun scan t => scan.Valid t := by
  unfold addMember
  split
  · exact sound_report.andThen fun _ ht => yields_enterMember (hu.later ht) (hscan.later ht)
  · exact (sound_pure ()).andThen fun _ ht => yields_enterMember (hu.later ht) (hscan.later ht)

theorem yields_enumBase (e : Expr) (hu : s.view.Settled u) : Yields s (enumBase e u) fun u t => t.view.Settled u := by
  refine yields_arena fun _ => ?_
  split
  · exact yields_pure fun _ => hu
  · exact sound_report.andThen fun _ _ => yields_pure fun ht => ht.intact.settled_basic rfl

theorem sound_arrayCount : Sound s (arrayCount e x) := by
  unfold arrayCount
  split
  · exact sound_pure _
  · split
    · exact sound_pure _
    · exact sound_report.andThen fun _ _ => sound_pure _
  · exact sound_report.andThen fun _ _ => sound_pure _

theorem sound_addParams {scope : ScopeId} (hscope : s.view.Has scope) (hu : s.view.Settled u) :
    Sound s (addParams scope exposes u names) := by
  induction names generalizing s with
  | nil => exact sound_pure ()
  | cons name rest ih =>
    refine (yields_newEntity fun _ _ => Entity.valid_typedVar hu).bind fun id t ht hid => ?_
    refine (sound_bind (some name) (ht.has hscope) hid.has).bind fun _ w hw _ => ?_
    exact ih ((ht.trans hw).has hscope) ((ht.trans hw).settled hu)

/-! ## Readings -/

/-- A reading fits an expression: the type being declared is a name without a base, and one of an enum where the
expression is an enum. -/
def Readable (v : View) (reading : Reading) (e : Expr) : Prop :=
  ∀ u, reading = .type (some u) →
    ∃ name id, v.arena.type? u = some (.named name none id) ∧ (e.isEnum → v.NamesEnum id)

theorem readable_value : Readable v .value e := fun _ h => by cases h

theorem readable_type : Readable v (.type none) e := fun _ h => by cases h

theorem Readable.later (h : Readable s reading e) (ht : s.Leads t) : Readable t reading e := by
  intro u hu
  obtain ⟨name, id, hread, hnames⟩ := h u hu
  refine ⟨name, id, ht.type? hread, fun he => ?_⟩
  obtain ⟨scope, z, hmem, hz⟩ := hnames he
  exact ⟨scope, z, ht.decls hmem, hz⟩

/-- What an expression gives in a reading: a valid operand, a type where it was read as one, and an enum if it is
one. -/
structure ReadAs (reading : Reading) (e : Expr) (y : Operand) (t : Pass) : Prop where
  valid : y.Valid t
  type : ∀ declared, reading = .type declared → y.mode = .type
  enum : e.isEnum → ∃ base members, t.store.arena.type? y.type = some (.enum base members)

theorem ReadAs.settled {declared : Option TypeId} {y : Operand} {t : Pass} (h : ReadAs (.type declared) e y t) :
    t.view.Settled y.type :=
  h.valid.settled (.inr (h.type declared rfl))

/-- An expression can be evaluated from every valid state. -/
def Checks (resolve : Resolver) (e : Expr) : Prop :=
  ∀ s ctx reading, Answers s resolve → ctx.Valid s → Readable s reading e →
    Yields s (expr resolve ctx reading e) (ReadAs reading e)

theorem Checks.value (h : Checks resolve e) (hr : Answers s resolve) (hctx : ctx.Valid s) :
    Delivers s (expr resolve ctx .value e) :=
  (h s ctx .value hr hctx readable_value).imp fun _ _ _ hy => hy.valid

theorem Checks.type (h : Checks resolve e) (hr : Answers s resolve) (hctx : ctx.Valid s) :
    Yields s (expr resolve ctx (.type none) e) fun y t => t.view.Settled y.type :=
  (h s ctx (.type none) hr hctx readable_type).imp fun _ _ _ hy => hy.settled

theorem yields_typeOperand (hu : s.view.Settled u) (henum : e.isEnum → ∃ base members, s.store.arena.type? u =
    some (.enum base members)) : Yields s (typeOperand e u) (ReadAs reading e) := by
  have hx := valid_ofType hu e.id
  refine (sound_annotate hx).andThen fun t ht => yields_pure fun _ => ⟨ht.operand hx, fun _ _ => rfl, fun he => ?_⟩
  obtain ⟨base, members, hread⟩ := henum he
  exact ⟨base, members, ht.type? hread⟩

theorem yields_rejectType (he : e.isEnum = false) : Yields s (rejectType e) (ReadAs reading e) :=
  sound_report.andThen fun _ _ => .of_valid fun ht =>
    yields_typeOperand ht.intact.settled_invalid fun h => by rw [he] at h; cases h

theorem yields_finishName (he : e.isEnum = false) (hx : x.Valid s) :
    Yields s (finishName reading e x) (ReadAs reading e) := by
  refine (sound_annotate hx).andThen fun t ht => ?_
  split
  · exact yields_pure fun _ => ⟨ht.operand hx, fun _ h => by (cases h), fun h => by rw [he] at h; cases h⟩
  case h_2 hmode =>
    exact yields_pure fun _ => ⟨ht.operand hx, fun _ _ => hmode, fun h => by rw [he] at h; cases h⟩
  case h_3 =>
    exact .of_valid fun ht => yields_typeOperand ht.intact.settled_invalid fun h => by rw [he] at h; cases h
  case h_4 => exact yields_rejectType he

theorem yields_finishValue (he : e.isEnum = false) (hx : x.Valid s) :
    Yields s (finishValue reading e x) (ReadAs reading e) := by
  refine (sound_annotate hx).andThen fun t ht => ?_
  split
  · exact yields_pure fun _ => ⟨ht.operand hx, fun _ h => by (cases h), fun h => by rw [he] at h; cases h⟩
  · exact yields_rejectType he

/-! ## Lists of expressions -/

section

variable {es : List Expr}

theorem sound_exprs (hes : ∀ e ∈ es, Checks resolve e) (hr : Answers s resolve) (hctx : ctx.Valid s) :
    Sound s (exprs resolve ctx es) := by
  induction es generalizing s with
  | nil =>
    unfold exprs
    exact sound_pure ()
  | cons e rest ih =>
    unfold exprs
    refine ((hes e List.mem_cons_self).value hr hctx).bind fun _ t ht _ => ?_
    exact ih (fun e he => hes e (List.mem_cons_of_mem _ he)) (hr.later ht) (ht.context hctx)

theorem sound_arguments {params : List TypeId} (hparams : ∀ u ∈ params, s.view.Settled u)
    (hes : ∀ e ∈ es, Checks resolve e) (hr : Answers s resolve) (hctx : ctx.Valid s) :
    Sound s (arguments resolve ctx params es) := by
  induction es generalizing s params with
  | nil =>
    unfold arguments
    exact sound_pure ()
  | cons e rest ih =>
    have hrest : ∀ e ∈ rest, Checks resolve e := fun e he => hes e (List.mem_cons_of_mem _ he)
    cases params with
    | nil =>
      unfold arguments
      refine ((hes e List.mem_cons_self).value hr hctx).bind fun _ t ht _ => ?_
      exact ih (fun u hu => by cases hu) hrest (hr.later ht) (ht.context hctx)
    | cons u params =>
      unfold arguments
      refine ((hes e List.mem_cons_self).value hr hctx).bind fun x t ht hx => ?_
      refine (sound_assignTo hx (ht.settled (hparams u List.mem_cons_self)).has).bind fun _ w hw _ => ?_
      have hleads := ht.trans hw
      exact ih (fun p hp => hleads.settled (hparams p (List.mem_cons_of_mem _ hp))) hrest (hr.later hleads)
        (hleads.context hctx)

theorem sound_printed (hes : ∀ e ∈ es, Checks resolve e) (hr : Answers s resolve) (hctx : ctx.Valid s) :
    Sound s (printed resolve ctx es) := by
  induction es generalizing s with
  | nil =>
    unfold printed
    exact sound_pure ()
  | cons e rest ih =>
    unfold printed
    refine ((hes e List.mem_cons_self).value hr hctx).bind fun x t ht hx => ?_
    refine (sound_assignFree hx).bind fun _ w hw _ => ?_
    have hleads := ht.trans hw
    exact ih (fun e he => hes e (List.mem_cons_of_mem _ he)) (hr.later hleads) (hleads.context hctx)

theorem yields_types (hes : ∀ e ∈ es, Checks resolve e) (hr : Answers s resolve) (hctx : ctx.Valid s) :
    Yields s (types resolve ctx es) fun us t => ∀ u ∈ us, t.view.Settled u := by
  induction es generalizing s with
  | nil =>
    unfold types
    exact yields_pure fun _ u hu => by cases hu
  | cons e rest ih =>
    unfold types
    refine ((hes e List.mem_cons_self).type hr hctx).bind fun y t ht hy => ?_
    refine (ih (fun e he => hes e (List.mem_cons_of_mem _ he)) (hr.later ht)
      (ht.context hctx)).bind fun us w hw hus => ?_
    refine yields_pure fun _ u hu => ?_
    rcases List.mem_cons.mp hu with rfl | hu
    · exact hw.settled hy
    · exact hus u hu

end

/-! ## Calls -/

theorem delivers_conversion (e : Expr) (hu : s.view.Has u)
    (hargs : ∀ e ∈ args, Checks resolve e) (hr : Answers s resolve) (hctx : ctx.Valid s) :
    Delivers s (conversion resolve ctx e u args) := by
  cases args with
  | nil =>
    unfold conversion
    exact yields_typeText fun _ => delivers_fail
  | cons first rest =>
    cases rest with
    | nil =>
      unfold conversion
      refine ((hargs first List.mem_cons_self).value hr hctx).bind fun x t ht hx => ?_
      exact delivers_convert (ht.has hu) hx
    | cons second rest =>
      unfold conversion
      refine ((hargs first List.mem_cons_self).value hr hctx).bind fun _ t ht _ => ?_
      refine ((hargs second (by simp)).value (hr.later ht) (ht.context hctx)).bind fun _ w hw _ => ?_
      have hleads := ht.trans hw
      refine (sound_exprs (fun e he => hargs e (by simp [he])) (hr.later hleads)
        (hleads.context hctx)).andThen fun _ _ => ?_
      exact yields_typeText fun _ => delivers_fail

theorem delivers_builtin (e : Expr) (b : Builtin) (hargs : ∀ e ∈ args, Checks resolve e)
    (hr : Answers s resolve) (hctx : ctx.Valid s) : Delivers s (builtin resolve ctx e b args) := by
  have hend (t : Pass) : Delivers t (pure (Operand.noValue e.id)) := yields_pure fun ht => valid_noValue ht
  unfold builtin
  split
  case h_1 arg =>
    have harg := hargs arg (List.mem_singleton_self arg)
    have hvalue := harg.value hr hctx
    have htype := harg.type hr hctx
    cases b with
    | len => exact hvalue.bind fun x _ _ _ => delivers_lengthOf
    | sizeOf => exact htype.bind fun x _ _ _ => delivers_measureOf
    | alignOf => exact htype.bind fun x _ _ _ => delivers_measureOf
    | new => exact htype.bind fun x _ _ hx => delivers_allocated e hx
    | assert => exact hvalue.bind fun x _ _ _ => delivers_asserted
    | panic =>
      refine hvalue.bind fun x t ht hx => .of_valid fun hvalid => ?_
      exact (sound_assignTo hx (hvalid.intact.has_basic _)).bind fun _ w _ _ => hend w
    | print => exact hvalue.bind fun x t ht hx => (sound_assignFree hx).bind fun _ w _ _ => hend w
  case h_2 => exact delivers_fail

/-! ## Type expressions -/

theorem yields_recordFields {fields : List Field} (hfields : ∀ f ∈ fields, Checks resolve f.type) (hscan : scan.Valid s)
    (hr : Answers s resolve) (hctx : ctx.Valid s) : Yields s (recordFields resolve ctx form fields scan) fun scan t =>
    scan.Valid t := by
  induction fields generalizing s scan with
  | nil =>
    unfold recordFields
    exact yields_pure fun _ => hscan
  | cons field rest ih =>
    obtain ⟨names, type, exposes⟩ := field
    unfold recordFields
    refine ((hfields _ List.mem_cons_self).type hr hctx).bind fun y t ht hy => ?_
    refine (yields_addFields hy (hscan.later ht)).bind fun scan' w hw hscan' => ?_
    have hleads := ht.trans hw
    exact ih (fun f hf => hfields f (List.mem_cons_of_mem _ hf)) hscan' (hr.later hleads) (hleads.context hctx)

theorem yields_baseOf {base : Option Expr} (hbase : ∀ e, base = some e → Checks resolve e) (hr : Answers s resolve)
    (hctx : ctx.Valid s) : Yields s (baseOf resolve ctx base) fun u t => t.view.Settled u := by
  cases base with
  | none =>
    unfold baseOf
    exact yields_pure fun hs => hs.intact.settled_basic rfl
  | some e =>
    unfold baseOf
    exact ((hbase e rfl).type hr hctx).bind fun y t _ hy => yields_enumBase e hy

theorem sound_valueOf {value : Option Expr} (hvalue : ∀ e, value = some e → Checks resolve e) (hr : Answers s resolve)
    (hctx : ctx.Valid s) : Sound s (valueOf resolve ctx name standard value) := by
  cases value with
  | none =>
    unfold valueOf
    exact sound_pure _
  | some e =>
    unfold valueOf
    exact ((hvalue e rfl).value hr hctx).bind fun x _ _ _ => sound_memberValue

theorem yields_enumMembers (kind : Kind) (hu : Numbers s u) {members : List Member}
    (hmembers : ∀ m ∈ members, ∀ e, m.value = some e → Checks resolve e) {scan : MemberScan} (hscan : scan.Valid s)
    (hr : Answers s resolve) (hctx : ctx.Valid s) :
    Yields s (enumMembers resolve ctx kind u members scan) fun scan t => scan.Valid t := by
  induction members generalizing s scan with
  | nil =>
    unfold enumMembers
    exact yields_pure fun _ => hscan
  | cons member rest ih =>
    obtain ⟨name, value⟩ := member
    unfold enumMembers
    refine (sound_valueOf (hmembers _ List.mem_cons_self) hr hctx).bind fun w t ht _ => ?_
    refine (yields_addMember (hu.later ht) (hscan.later ht)).bind fun scan' z hz hscan' => ?_
    have hleads := ht.trans hz
    exact ih (hu.later hleads) (fun m hm => hmembers m (List.mem_cons_of_mem _ hm)) hscan' (hr.later hleads)
      (hleads.context hctx)

theorem yields_parameters (hscope : ∀ h, scope = some h → s.view.Has h) {params : List Field}
    (hparams : ∀ f ∈ params, Checks resolve f.type) (hr : Answers s resolve) (hctx : ctx.Valid s) :
    Yields s (parameters resolve ctx scope params) fun us t => ∀ u ∈ us, t.view.Settled u := by
  induction params generalizing s with
  | nil =>
    unfold parameters
    exact yields_pure fun _ u hu => by cases hu
  | cons field rest ih =>
    obtain ⟨names, type, exposes⟩ := field
    unfold parameters
    refine ((hparams _ List.mem_cons_self).type hr hctx).bind fun y t ht hy => ?_
    have hrest (w : Pass) (hw : t.Leads w) : Yields w (do
        return List.replicate names.length y.type ++ (← parameters resolve ctx scope rest)) fun us z =>
          ∀ u ∈ us, z.view.Settled u := by
      have hleads := ht.trans hw
      refine (ih (fun h hh => hleads.has (hscope h hh)) (fun f hf => hparams f (List.mem_cons_of_mem _ hf))
        (hr.later hleads) (hleads.context hctx)).bind fun us z hz hus => yields_pure fun _ u hu => ?_
      rcases List.mem_append.mp hu with hu | hu
      · rw [(List.mem_replicate.mp hu).2]
        exact (hw.trans hz).settled hy
      · exact hus u hu
    cases scope with
    | some scope => exact (sound_addParams (ht.has (hscope scope rfl)) hy).andThen hrest
    | none => exact (sound_pure ()).andThen hrest

theorem yields_signature (hscope : ∀ h, scope = some h → s.view.Has h) {sig : Signature}
    (hparams : ∀ f ∈ sig.params, Checks resolve f.type) (hresults : ∀ e ∈ sig.results, Checks resolve e)
    (hr : Answers s resolve) (hctx : ctx.Valid s) :
    Yields s (signature resolve ctx scope sig) fun u t => t.view.Settled u := by
  obtain ⟨node, params, results⟩ := sig
  unfold signature
  refine (yields_parameters hscope hparams hr hctx).bind fun ps t ht hps => ?_
  refine (yields_types hresults (hr.later ht) (ht.context hctx)).bind fun rs w hw hrs => ?_
  refine (yields_newType (τ := .proc ps rs) fun _ => ⟨fun u hu => hw.settled (hps u hu), hrs⟩).bind fun u z _ hu => ?_
  have hsettled : z.view.Settled u := ⟨_, hu.2, rfl⟩
  exact (sound_annotate (valid_ofType hsettled _)).andThen fun _ hq => yields_pure fun _ => hq.settled hsettled

/-! ## Expressions -/

/-- The members of an enum are values of the name that it is declared as, or else of the enum itself. -/
theorem numbers_memberType (hreading : Readable s reading e) (he : e.isEnum) {base : TypeId} {members : List EntityId}
    (hu : s.store.arena.type? u = some (.enum base members)) : Numbers s (reading.memberType u) := by
  have hself : Numbers s u := by
    refine ⟨⟨_, hu, rfl⟩, fun w => ⟨?_, fun _ name id h => ?_⟩⟩
    · rw [Arena.Suits, Arena.base_of_type? (a := s.view.arena) hu fun _ _ _ h => by cases h]
      exact ⟨w, rfl⟩
    · cases h.symm.trans hu
  unfold Reading.memberType
  split
  case h_1 t =>
    obtain ⟨name, id, hread, hnames⟩ := hreading t rfl
    refine ⟨⟨_, hread, rfl⟩, fun w => ⟨?_, fun _ name' id' h => ?_⟩⟩
    · rw [Arena.Suits, Arena.base_of_type? hread fun _ _ _ h => by cases h]
      exact ⟨w, rfl⟩
    · cases h.symm.trans hread
      exact hnames he
  case h_2 => exact hself

theorem valid_indirect (hctx : ctx.Valid s) : ctx.indirect.Valid s := ⟨hctx.scope, hctx.signature⟩

theorem literal_fits (hs : s.Valid) (v : Literal) (id : NodeId) : (literalOperand v id).Valid s := by
  cases v with
  | int w => exact valid_constant (hs.intact.suits_basic (Constant.fits_untypedInt w)) id
  | float x => exact valid_constant (hs.intact.suits_basic (k := .untypedFloat) (c := .float x) rfl) id
  | str x => exact valid_constant (hs.intact.suits_basic (k := .untypedString) (c := .str x) rfl) id

theorem yields_newTypeOperand (he : e.isEnum = false) {τ : Ty}
    (hτ : τ.Valid s) (hsettled : τ.isSettled) : Yields s (do typeOperand e (← newType τ)) (ReadAs reading e) :=
  (yields_newType fun _ => hτ).bind fun _ _ _ hu =>
    yields_typeOperand ⟨τ, hu.2, hsettled⟩ fun h => by rw [he] at h; cases h

/-- Every expression can be evaluated from every valid state. -/
theorem checks_expr (resolve : Resolver) (e : Expr) : Checks resolve e := by
  induction e using Expr.induction with
  | h e ih =>
    intro s ctx reading hr hctx hreading
    cases e with
    | name n =>
      unfold expr
      exact (delivers_nameOperand hr hctx _ n).bind fun x _ _ hx => yields_finishName rfl hx
    | literal n v =>
      unfold expr
      exact .of_valid fun hs => yields_finishValue rfl (literal_fits hs v n.id)
    | paren n inner =>
      unfold expr
      refine (ih inner (by simp) s ctx reading hr hctx hreading).bind fun x t ht hx => ?_
      have hvalid : ({ x with expr := n.id } : Operand).Valid t := hx.valid
      refine (sound_annotate hvalid).andThen fun w hw => yields_pure fun _ => ?_
      refine ⟨hw.operand hvalid, hx.type, fun he => ?_⟩
      obtain ⟨base, members, hread⟩ := hx.enum he
      exact ⟨base, members, hw.type? hread⟩
    | unary n op operand =>
      unfold expr
      refine ((ih operand (by simp)).value hr hctx).bind fun x t _ hx => ?_
      exact (delivers_unary hx).bind fun y _ _ hy => yields_finishValue rfl hy
    | binary n op left right =>
      unfold expr
      refine ((ih left (by simp)).value hr hctx).bind fun x t ht hx => ?_
      refine ((ih right (by simp)).value (hr.later ht) (ht.context hctx)).bind fun y w hw hy => ?_
      exact (delivers_binary (hw.operand hx) hy).bind fun z _ _ hz => yields_finishValue rfl hz
    | call n callee args =>
      have hargs : ∀ e ∈ args, Checks resolve e := fun e he => ih e (by simp [he])
      unfold expr
      refine ((ih callee (by simp)).value hr hctx).bind fun f t ht hf => ?_
      have hr' := hr.later ht
      have hctx' := ht.context hctx
      have hend {w : Pass} {x : Check Operand} (hx : Delivers w x) : Yields w (do
          finishValue reading (.call n callee args) (← x)) (ReadAs reading (.call n callee args)) :=
        hx.bind fun _ _ _ hy => yields_finishValue rfl hy
      dsimp only
      split
      case h_1 => exact (sound_exprs hargs hr' hctx').andThen fun _ _ => hend (delivers_invalid)
      case h_2 => exact hend (delivers_conversion _ hf.has hargs hr' hctx')
      case h_3 =>
        exact (sound_printed hargs hr' hctx').andThen fun _ _ => hend (yields_pure fun hw => valid_noValue hw)
      case h_4 => exact hend (delivers_builtin _ _ hargs hr' hctx')
      case h_5 =>
        refine yields_arena fun hvalid => ?_
        split
        case h_1 params results hbase =>
          have hparts := hvalid.intact.valid_base (v := t.view) hbase fun _ h => by cases h
          have hrest (w : Pass) (hw : t.Leads w) : Yields w (do
              arguments resolve ctx params args
              finishValue reading (.call n callee args) (← resultOf (.call n callee args) results))
                (ReadAs reading (.call n callee args)) := by
            refine (sound_arguments (fun u hu => hw.settled (hparts.1 u hu)) hargs (hr'.later hw)
              (hw.context hctx')).andThen fun z hz => hend ?_
            exact delivers_resultOf _ fun u hu => (hw.trans hz).settled (hparts.2 u hu)
          split
          · exact sound_report.andThen hrest
          · exact (sound_pure ()).andThen hrest
        case h_2 =>
          refine (sound_exprs hargs hr' hctx').andThen fun _ _ => ?_
          exact yields_typeText fun _ => hend (delivers_fail)
    | select n base field =>
      unfold expr
      refine yields_arena fun hs => ?_
      split
      case h_1 id info himport =>
        obtain ⟨name, f, hlookup, -⟩ := import_of_importNamed? himport
        have hid : s.view.Has id := hs.intact.has_of_lookup hlookup
        exact (delivers_importSelection hr hctx hid).bind fun x _ _ hx =>
          yields_finishName rfl hx
      case h_2 =>
        refine ((ih base (by simp)).value hr hctx).bind fun x t ht _ => ?_
        exact (delivers_selection (hr.later ht) (ht.context hctx)).bind fun y _ _ hy =>
          yields_finishName rfl hy
    | pointer n elem =>
      unfold expr
      refine ((ih elem (by simp)).type hr (valid_indirect hctx)).bind fun y t _ hy => ?_
      exact yields_newTypeOperand (τ := .pointer y.type) rfl hy rfl
    | array n count elem =>
      unfold expr
      refine ((ih count (by simp)).value hr hctx).bind fun x t ht _ => ?_
      refine sound_arrayCount.bind fun length w hw _ => ?_
      have hleads := ht.trans hw
      refine ((ih elem (by simp)).type (hr.later hleads) (hleads.context hctx)).bind fun y z _ hy => ?_
      exact yields_newTypeOperand (τ := .array length y.type) rfl hy rfl
    | slice n elem =>
      unfold expr
      refine ((ih elem (by simp)).type hr (valid_indirect hctx)).bind fun y t _ hy => ?_
      exact yields_newTypeOperand (τ := .slice y.type) rfl hy rfl
    | record n form fields =>
      unfold expr
      have hnone : FieldScan.Valid s ⟨[], []⟩ := fun f hf => by cases hf
      refine (yields_recordFields (fun f hf => ih f.type (List.mem_map_of_mem hf)) hnone hr hctx).bind
        fun scan t _ hscan => ?_
      exact yields_newTypeOperand (τ := .record form scan.fields) rfl hscan rfl
    | enum n base members =>
      unfold expr
      refine (yields_baseOf (fun e he => ih e (List.mem_append_left _ (by simpa using he))) hr hctx).bind
        fun u t ht hu => ?_
      refine yields_arena fun _ => ?_
      refine Yields.fill (τ := .enum u []) (g := fun (scan : MemberScan) _ => .enum u scan.members)
        (P := fun scan w => scan.Valid w)
        (fun _ => ⟨hu, fun m hm => by cases hm⟩) (fun id w hw _ hread => ?_)
        (fun id scan w hvalid _ hslab hread hscan => fills_enum hvalid hslab hread hscan) fun id scan w _ _ hread => ?_
      · have hleads := ht.trans hw
        have hnone : MemberScan.Valid w ⟨[], .zero⟩ := fun m hm => by cases hm
        exact yields_enumMembers _ (numbers_memberType (hreading.later hleads) rfl hread)
          (fun m hm e he => ih e (List.mem_append_right _ (List.mem_filterMap.mpr ⟨m, hm, he⟩))) hnone (hr.later hleads)
          (hleads.context hctx)
      · exact yields_typeOperand ⟨_, hread, rfl⟩ fun _ => ⟨u, scan.members, hread⟩
    | proc n sig =>
      unfold expr
      refine (yields_signature (fun _ h => by cases h)
        (fun f hf => ih f.type (List.mem_append_left _ (List.mem_map_of_mem hf)))
        (fun e he => ih e (List.mem_append_right _ he)) hr hctx).bind fun u t _ hu => ?_
      exact yields_typeOperand hu fun h => by cases h

end Check

end Statics
