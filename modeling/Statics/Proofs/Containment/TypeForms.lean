import Statics.Proofs.Containment.Expressions

/-!
# Every expression keeps the layout

The type expressions that build types: pointers and slices, arrays, records and enums. With the other expressions, which
only add types without parts, every expression keeps the invariant by induction.
-/

namespace Statics

variable {exposes : Bool} {e elem : Expr} {scan scan' : FieldScan} {name : Ident} {kind : Kind} {fields : List Field}
  {members : List Member} {node : Node} {reading : Reading} {form : RecordForm} {u : TypeId}

variable {focus : EntityId → Prop} {pending : Pending} {resolve : Resolver}

namespace Arena

variable {a b : Arena} {path : List (EntityId × Nat)} {n : Nat}

/-- Fields whose types may be used by value here. -/
def FieldsUsable (a : Arena) (path : List (EntityId × Nat)) (n : Nat) (fields : List EntityId) : Prop :=
  ∀ f ∈ fields, ∃ t, (a.entity f).type = some t ∧ a.Usable path n t

theorem FieldsUsable.extend {fields : List EntityId} (h : a.FieldsUsable path n fields) (hl : a.Layout path n)
    (hx : a.Extends b) : b.FieldsUsable path n fields := by
  intro f hf
  obtain ⟨t, ht, hu⟩ := h f hf
  exact ⟨t, hx.entity_type ht, hu.extend hl hx⟩

/-- Members of an enum, which are no type names. -/
def MembersPlain (a : Arena) (members : List EntityId) : Prop :=
  ∀ m ∈ members, ∃ x, a.entity? m = some x ∧ x.kind ≠ .typeName

theorem MembersPlain.extend {members : List EntityId} (h : a.MembersPlain members) (hx : a.Extends b) :
    b.MembersPlain members := by
  intro m hm
  obtain ⟨x, hxm, hkind⟩ := h m hm
  obtain ⟨y, hym, hxy⟩ := hx.entities m x hxm
  exact ⟨y, hym, fun hy => hkind (hxy.typeName hy)⟩

end Arena

namespace Check

/-! ## Records -/

theorem embedField_fields {field : EntityId}
    (h : embedField field u scan s = .ok scan' t) : scan'.fields = scan.fields := by
  obtain ⟨a, s₁, -, h⟩ := bind_eq_ok.mp h
  split at h
  · cases h
    rfl
  · cases hfields : a.fields? (a.pointee u) with
    | none =>
      simp only [hfields] at h
      obtain ⟨_, s₂, -, h⟩ := bind_eq_ok.mp h
      cases h
      rfl
    | some inner =>
      simp only [hfields] at h
      cases hcollision : scan.collision? a inner with
      | none =>
        simp only [hcollision] at h
        cases h
        rfl
      | some p =>
        simp only [hcollision] at h
        obtain ⟨_, s₂, -, h⟩ := bind_eq_ok.mp h
        cases h
        rfl

/-- Entering a field adds one with its type. -/
theorem addField_spec (h : addField form exposes u name scan s = .ok scan' t) :
    ∃ f, scan'.fields = scan.fields ++ [f] ∧ (t.store.arena.entity f).type = some u := by
  obtain ⟨f, s₁, hnew, h⟩ := bind_eq_ok.mp h
  have hgrows : s₁.Grows t := Moves.ok (by grind) h
  refine ⟨f, ?_, hgrows.store.toExtends.entity_type ?_⟩
  · obtain ⟨_, s₂, -, h⟩ := bind_eq_ok.mp h
    dsimp only at h
    generalize (if name.isDiscard then none else scan.seen.lookup name.name) = previous at h
    cases previous with
    | some previous =>
      obtain ⟨_, s₃, -, h⟩ := bind_eq_ok.mp h
      obtain ⟨_, s₄, -, h⟩ := bind_eq_ok.mp h
      cases h
      rfl
    | none =>
      dsimp only at h
      split at h
      · have hfields := embedField_fields h
        grind
      · cases h
        grind
  · obtain ⟨rfl, rfl⟩ := newEntity_ok hnew
    rw [Arena.entity, Store.entity?_newEntity, if_pos rfl]
    rfl

theorem addFields_spec {names : List Ident} (h : addFields form exposes u names scan s = .ok scan' t) :
    ∀ f ∈ scan'.fields, f ∈ scan.fields ∨ (t.store.arena.entity f).type = some u := by
  induction names generalizing scan s with
  | nil =>
    cases h
    exact fun f hf => .inl hf
  | cons name rest ih =>
    obtain ⟨scan₁, s₁, hadd, h⟩ := bind_eq_ok.mp h
    obtain ⟨g, hfields, htype⟩ := addField_spec hadd
    have hgrows : s₁.Grows t := (moves_addFields form exposes u rest scan₁).ok h
    intro f hf
    rcases ih h f hf with hf | hf
    · rw [hfields, List.mem_append, List.mem_singleton] at hf
      rcases hf with hf | rfl
      · exact .inl hf
      · exact .inr (hgrows.store.toExtends.entity_type htype)
    · exact .inr hf

/-- Entering a member adds at most a constant. -/
theorem addMember_spec {value : Int128} {scan scan' : MemberScan}
    (h : addMember kind u name value scan s = .ok scan' t) :
    ∀ m ∈ scan'.members, m ∈ scan.members ∨ ∃ x, t.store.arena.entity? m = some x ∧ x.kind ≠ .typeName := by
  intro m hm
  rcases addMember_ok h with heq | ⟨store, x, hkind, heq, hstore⟩
  · exact .inl (heq ▸ hm)
  · rw [heq, List.mem_append, List.mem_singleton] at hm
    refine hm.imp_right fun hm => ⟨x, ?_, by simp [hkind]⟩
    rw [hm, hstore, Store.entity?_newEntity, if_pos rfl]

section

variable {ctx : Context}

/-- Every member of an enum is a constant. -/
theorem enumMembers_spec (hr : Resolves focus pending resolve)
    {scan scan' : MemberScan} (h : enumMembers resolve ctx kind u members scan s = .ok scan' t)
    (hscan : s.store.arena.MembersPlain scan.members) : t.store.arena.MembersPlain scan'.members := by
  have hgrow := fun e : Expr => moves_expr hr.grows ctx .value e
  induction members generalizing scan s with
  | nil =>
    unfold enumMembers at h
    cases h
    exact hscan
  | cons m rest ih =>
    obtain ⟨name, value⟩ := m
    unfold enumMembers at h
    obtain ⟨v, s₁, hv, h⟩ := bind_eq_ok.mp h
    obtain ⟨scan₁, s₂, hadd, h⟩ := bind_eq_ok.mp h
    have hsv : s.Grows s₁ := (moves_valueOf fun e _ => hgrow e).ok hv
    have hva : s₁.Grows s₂ := (moves_addMember kind u name v scan).ok hadd
    refine ih h fun m hm => ?_
    rcases addMember_spec hadd m hm with hold | hnew
    · exact hscan.extend (hsv.store.toExtends.trans hva.store.toExtends) m hold
    · exact hnew

/-- Every field of a record has a type that may be used. -/
theorem recordFields_spec (hr : Resolves focus pending resolve)
    (hf : ∀ f ∈ fields, Reads focus pending resolve f.type)
    (h : Clean (recordFields resolve ctx form fields scan) s scan' t)
    (hs : s.ReadyIn focus pending ctx)
    (hscan : s.store.arena.FieldsUsable ctx.typePath ctx.indirection scan.fields) :
    t.ReadyIn focus pending ctx ∧
      t.store.arena.FieldsUsable ctx.typePath ctx.indirection scan'.fields := by
  have hlog := fun e : Expr => moves_expr hr.log ctx (.type none) e
  have hgrow := fun e : Expr => moves_expr hr.grows ctx (.type none) e
  induction fields generalizing scan s with
  | nil =>
    unfold recordFields at h
    obtain ⟨rfl, rfl⟩ := h.of_pure
    exact ⟨hs, hscan⟩
  | cons f rest ih =>
    obtain ⟨names, type, exposes⟩ := f
    rw [List.forall_mem_cons] at hf
    unfold recordFields at h
    have hrest := fun scan => moves_recordFields form rest scan fun f _ => hlog f.type
    obtain ⟨x, s₁, hx, h⟩ := h.split (by grind)
    obtain ⟨scan₁, s₂, hadd, h⟩ := h.split (by grind)
    have hs₁ := (hf.1.moves ctx (.type none)).clean hx hs
    have hs₂ := (moves_addFields form exposes x.type names scan).clean hadd hs₁
    have hsx : s.Grows s₁ := (hgrow type).ok hx.run
    have hxa : s₁.Grows s₂ := (moves_addFields form exposes x.type names scan).ok hadd.run
    have husable := (hf.1.yields hx hs).usable.extend hs₁.layout hxa.store.toExtends
    refine ih hf.2 h hs₂ fun f hfield => ?_
    rcases addFields_spec hadd.run f hfield with hold | hnew
    · exact hscan.extend hs.layout (hsx.store.toExtends.trans hxa.store.toExtends) f hold
    · exact ⟨x.type, hnew, husable⟩

/-! ## Forms of types -/

variable {s t : Pass} {x : Operand}

/-- A pointer or slice is younger than all that its element type needed. -/
theorem indirect_spec (hr : Resolves focus pending resolve) (form : TypeId → Ty)
    (helem : Reads focus pending resolve elem) (hform : ∀ u, ∃ v, form u = .pointer v ∨ form u = .slice v)
    (h : Clean (do
      let u ← expr resolve ctx.indirect (.type none) elem
      typeOperand e (← newType (form u.type))) s x t)
    (hs : s.ReadyIn focus pending ctx) :
    t.ReadyIn focus pending ctx ∧ s.Yields t ctx x.type := by
  have hlog := moves_expr hr.log ctx.indirect (.type none) elem
  obtain ⟨y, s₁, hy, h⟩ := h.split (by grind)
  obtain ⟨u, s₂, hnew, h⟩ := h.split (by grind)
  have hs' : s.Ready focus pending ctx.indirect.typePath ctx.indirect.indirection :=
    hs.change (.refl s) rfl rfl hs.layout.enter
  have hs₁ := (helem.moves ctx.indirect (.type none)).clean hy hs'
  have hadds := hs₁.adds (form y.type)
  obtain ⟨rfl, rfl⟩ := newType_ok hnew.run
  have hlight : (form y.type).isLight := by
    obtain ⟨v, hv | hv⟩ := hform y.type <;> simp [hv, Ty.isLight]
  have hs₂ := hs₁.change (.of_store (.newType s₁.store (form y.type))) rfl rfl
    (hs₁.layout.leave (fun p hp => (hs.layout.within p hp).1) hadds (hform y.type))
  obtain ⟨hx, ht⟩ := h.of_typeOperand
  refine ⟨moves_typeOperand.clean h hs₂, ?_⟩
  rw [hx]
  refine .of_light ?_ ?_
  · rw [ht, hadds.new]
    rfl
  · rw [ht, hadds.type_new]
    exact hlight

/-- An array or record of types that may be used may be used itself, and is the newest type. -/
theorem compose_spec {τ : Ty} (hname : ∀ name base e, τ ≠ .named name base e)
    (henum : ∀ base members, τ ≠ .enum base members)
    (hfields : ∀ form fields, τ = .record form fields → ∀ f ∈ fields, (s.store.arena.entity f).type.isSome)
    (hparts : ∀ p ∈ (s.store.newType τ).2.arena.parts (s.store.newType τ).1,
      s.store.arena.Usable ctx.typePath ctx.indirection p)
    (h : Clean (newType τ >>= typeOperand e) s x t) (hs : s.ReadyIn focus pending ctx)
    (r : Pass) : t.ReadyIn focus pending ctx ∧ r.Yields t ctx x.type := by
  obtain ⟨u, s₁, hnew, h⟩ := h.split (by grind)
  have hadds := hs.adds τ
  obtain ⟨rfl, rfl⟩ := newType_ok hnew.run
  have hs₁ := hs.change (.of_store (.newType s.store τ)) rfl rfl
    (hs.layout.compose hadds hname henum hfields hparts)
  obtain ⟨hx, ht⟩ := h.of_typeOperand
  refine ⟨moves_typeOperand.clean h hs₁, ?_⟩
  rw [hx]
  refine ⟨⟨?_, ?_⟩, ?_⟩
  · rw [ht, hadds.new]
    rfl
  · intro v name e' hv ho
    rw [ht] at hv ho
    cases hv with
    | self hself => exact absurd (hadds.type_new.symm.trans hself) (hname _ _ _)
    | part hp hv =>
      have hu := hparts _ hp
      have hv := (hs.layout.toClosed.holds_iff hadds.toExtends hu.isSome).mp hv
      rw [hadds.toExtends.type_eq hv.isName.isSome] at ho
      exact hu.pending hv ho
  · rw [ht]
    exact hadds.tops hname _

section

variable (hr : Resolves focus pending resolve)

include hr

theorem array_spec {count : Expr} (hcount : Reads focus pending resolve count)
    (helem : Reads focus pending resolve elem)
    (h : Clean (expr resolve ctx reading (.array node count elem)) s x t)
    (hs : s.ReadyIn focus pending ctx) :
    t.ReadyIn focus pending ctx ∧ s.Yields t ctx x.type := by
  have hlog := fun reading e => moves_expr hr.log ctx reading e
  unfold expr at h
  obtain ⟨y, s₁, hy, h⟩ := h.split (by grind)
  obtain ⟨length, s₂, hlength, h⟩ := h.split (by grind)
  obtain ⟨z, s₃, hz, h⟩ := h.split (by grind)
  have hs₂ := moves_arrayCount.clean hlength ((hcount.moves ctx .value).clean hy hs)
  have hs₃ := (helem.moves ctx (.type none)).clean hz hs₂
  refine compose_spec (by simp) (by simp) (by simp) ?_ h hs₃ s
  intro p hp
  have hnew := (hs₃.adds (.array length z.type)).type_new
  simp only [Arena.parts, hnew, List.mem_singleton] at hp
  rw [hp]
  exact (helem.yields hz hs₂).usable

theorem record_spec (hf : ∀ f ∈ fields, Reads focus pending resolve f.type)
    (h : Clean (expr resolve ctx reading (.record node form fields)) s x t)
    (hs : s.ReadyIn focus pending ctx) :
    t.ReadyIn focus pending ctx ∧ s.Yields t ctx x.type := by
  have hlog := fun scan => moves_recordFields form fields scan fun f _ => moves_expr hr.log ctx (.type none) f.type
  unfold expr at h
  obtain ⟨scan, s₁, hscan, h⟩ := h.split (by grind)
  obtain ⟨hs₁, husable⟩ := recordFields_spec hr hf hscan hs (by simp [Arena.FieldsUsable])
  have hadds := hs₁.adds (.record form scan.fields)
  refine compose_spec (by simp) (by simp) ?_ ?_ h hs₁ s
  · intro form' fields' hrecord f hfield
    cases hrecord
    obtain ⟨u, hu, -⟩ := husable f hfield
    simp [hu]
  · intro p hp
    simp only [Arena.parts, hadds.type_new, List.mem_filterMap, hadds.entity_eq] at hp
    obtain ⟨f, hfield, hp⟩ := hp
    obtain ⟨u, hu, husable⟩ := husable f hfield
    rw [hu] at hp
    cases hp
    exact husable

theorem enum_spec {base : Option Expr} (hbase : ∀ e ∈ base, Reads focus pending resolve e)
    (hmembers : ∀ m ∈ members, ∀ e ∈ m.value, Reads focus pending resolve e)
    (h : Clean (expr resolve ctx reading (.enum node base members)) s x t)
    (hs : s.ReadyIn focus pending ctx) :
    t.ReadyIn focus pending ctx ∧ s.Yields t ctx x.type := by
  have hlog := fun reading e => moves_expr hr.log ctx reading e
  have hblog := moves_baseOf base fun e _ => hlog (.type none) e
  have hmlog := fun kind u => moves_enumMembers kind u members ⟨[], .zero⟩ fun m _ e _ => hlog .value e
  unfold expr at h
  obtain ⟨u, s₁, hu, h⟩ := h.split (by grind)
  have h := h.readArena
  obtain ⟨id, s₃, hnew, h⟩ := h.split (by grind)
  obtain ⟨scan, s₄, hscan, h⟩ := h.split (by grind)
  obtain ⟨_, s₅, hstore, h⟩ := h.split (by grind)
  have hs₁ := (moves_baseOf base fun e he => (hbase e he).moves ctx (.type none)).clean hu hs
  have hadds := hs₁.adds (.enum u [])
  obtain ⟨rfl, rfl⟩ := newType_ok hnew.run
  have hlight : (Ty.enum u []).isLight := rfl
  have hs₃ := hs₁.light (.newType s₁ hlight) rfl rfl
  have hs₄ := (moves_enumMembers _ _ members _ fun m hm e he => (hmembers m hm e he).moves ctx .value).clean hscan hs₃
  have hplain := enumMembers_spec hr hscan.run (by simp [Arena.MembersPlain])
  have hgrows : Pass.Grows _ s₄ := (moves_enumMembers _ _ members _ fun m _ e _ =>
    moves_expr hr.grows ctx .value e).ok hscan.run
  have hold : s₄.store.arena.type? (s₁.store.newType (.enum u [])).1 = some (.enum u []) :=
    hgrows.store.toExtends.types _ _ hadds.new
  have hrefills := Store.refills (t := (s₁.store.newType (.enum u [])).1) hgrows.store.id.symm hold
    (fun _ => .enum u scan.members) (.inr ⟨u, scan.members, rfl, rfl⟩)
  have hs₅ := hs₄.refill _ _ (hs₄.layout.fillEnum hrefills hplain)
  cases hstore.run
  obtain ⟨hx, ht⟩ := h.of_typeOperand
  refine ⟨moves_typeOperand.clean h hs₅, ?_⟩
  have hname : ¬ t.store.arena.IsName x.type := by
    rw [hx, ht]
    rintro ⟨name, base', e, hn⟩
    simp [Arena.type, hrefills.new] at hn
  have hparts : t.store.arena.parts x.type = [] := by
    rw [hx, ht]
    exact hrefills.parts.2
  refine ⟨Arena.usable_of_plain ?_ hname hparts, Arena.tops_of_plain hname hparts⟩
  rw [hx, ht, hrefills.new]
  rfl

/-- The type of a procedure has no parts. -/
theorem proc_yields {sig : Signature}
    (h : Clean (expr resolve ctx reading (.proc node sig)) s x t) : s.Yields t ctx x.type := by
  have hlog := fun e : Expr => moves_expr hr.log ctx (.type none) e
  obtain ⟨node', params, results⟩ := sig
  have hps : Moves LogGrows (parameters resolve ctx none params) :=
    moves_parameters (fun f _ => hlog f.type) fun f _ scope exposes t => moves_addParams
  have hrs := moves_types results fun e _ => hlog e
  unfold expr signature at h
  obtain ⟨u, s₁, hu, h⟩ := h.split (by grind)
  obtain ⟨ps, s₂, -, hu⟩ := hu.split (by grind)
  obtain ⟨rs, s₃, -, hu⟩ := hu.split (by grind)
  obtain ⟨v, s₄, hnew, hu⟩ := hu.split (by grind)
  obtain ⟨_, s₅, hnote, hu⟩ := hu.split (by grind)
  obtain ⟨rfl, rfl⟩ := hu.of_pure
  obtain ⟨rfl, rfl⟩ := newType_ok hnew.run
  cases hnote.run
  obtain ⟨hx, ht⟩ := h.of_typeOperand
  have hread : t.store.arena.type? x.type = some (.proc ps rs) := by
    rw [hx, ht, Store.type?_newType, if_pos rfl]
  exact .of_light (by simp [hread]) (by simp [Arena.type, hread, Ty.isLight])

end

end

/-- Every expression keeps the invariant and, read as a type, yields one that may be used. -/
theorem reads_expr (hr : Resolves focus pending resolve) (e : Expr) : Reads focus pending resolve e := by
  induction e using Expr.induction with
  | h e ih =>
    have hlog := fun ctx reading e => moves_expr hr.log ctx reading e
    have hvalue (he : e.isTypeForm = false) (ctx : Context) (reading : Reading) :
        Moves (Keeps (Pass.ReadyIn focus pending ctx)) (expr resolve ctx reading e) :=
      moves_exprOf he (hr.moves ctx.plainly) (fun c hc reading => (ih c hc).moves ctx reading)
    -- A type form is looked at as a whole.
    have hform (h : ∀ {ctx reading s x t}, Clean (expr resolve ctx reading e) s x t →
        s.ReadyIn focus pending ctx →
        t.ReadyIn focus pending ctx ∧ s.Yields t ctx x.type) : Reads focus pending resolve e :=
      ⟨fun ctx reading => .of_clean (hlog ctx reading e) Pass.Ready.room fun hx hs => (h hx hs).1,
        fun hx hs => (h hx hs).2⟩
    cases e with
    | name n =>
      refine ⟨hvalue rfl, fun {ctx _ _ _ _} h hs => ?_⟩
      have hn := moves_nameOperand (hr.log ctx.plainly) (.name n) n
      unfold expr at h
      obtain ⟨y, s₁, hy, h⟩ := h.split (by grind)
      obtain ⟨ht, ⟨hmode, rfl⟩ | hinvalid⟩ := finishName_spec h
      · have hyields := nameOperand_yields hr hy hs hmode
        exact ⟨by rw [ht]; exact hyields.usable, by rw [ht]; exact hyields.tops⟩
      · rw [hinvalid]
        have hs₁ := (moves_nameOperand (hr.moves ctx.plainly) (.name n) n).clean hy hs
        exact (moves_finishName.clean h hs₁).yields_invalid
    | literal n v => exact ⟨hvalue rfl, fun h _ => absurd h (refuses_expr hr.log rfl _ _).not_clean⟩
    | paren n inner =>
      refine ⟨hvalue rfl, fun {ctx _ _ _ _} h hs => ?_⟩
      unfold expr at h
      obtain ⟨y, s₁, hy, h⟩ := h.split (by grind)
      obtain ⟨_, s₂, hnote, h⟩ := h.split (by grind)
      obtain ⟨rfl, rfl⟩ := h.of_pure
      have hyields := (ih inner (by simp)).yields hy hs
      cases hnote.run
      exact ⟨hyields.usable, hyields.tops⟩
    | unary n op operand => exact ⟨hvalue rfl, fun h _ => absurd h (refuses_expr hr.log rfl _ _).not_clean⟩
    | binary n op left right => exact ⟨hvalue rfl, fun h _ => absurd h (refuses_expr hr.log rfl _ _).not_clean⟩
    | call n callee args => exact ⟨hvalue rfl, fun h _ => absurd h (refuses_expr hr.log rfl _ _).not_clean⟩
    | select n base field =>
      refine ⟨hvalue rfl, fun {ctx _ _ _ _} h hs => ?_⟩
      have hs' := fun x => moves_selection (hr.log ctx.plainly) (.select n base field) base field x
      have hi := fun id info => moves_importSelection (hr.log ctx.plainly) (.select n base field) base field id info
      unfold expr at h
      have h := h.readArena
      split at h
      · obtain ⟨y, s₂, hy, h⟩ := h.split (by grind)
        obtain ⟨ht, ⟨hmode, rfl⟩ | hinvalid⟩ := finishName_spec h
        · have hyields := importSelection_yields hr hy hs hmode
          exact ⟨by rw [ht]; exact hyields.usable, by rw [ht]; exact hyields.tops⟩
        · rw [hinvalid]
          have hs₂ := (moves_importSelection (hr.moves ctx.plainly) _ base field _ _).clean hy hs
          exact (moves_finishName.clean h hs₂).yields_invalid
      · obtain ⟨y, s₂, hy, h⟩ := h.split (by grind)
        obtain ⟨z, s₃, hz, h⟩ := h.split (by grind)
        have hs₂ := ((ih base (by simp)).moves ctx .value).clean hy hs
        obtain ⟨-, ⟨hmode, rfl⟩ | hinvalid⟩ := finishName_spec h
        · exact absurd hmode (selection_mode hr hz hs₂)
        · rw [hinvalid]
          have hs₃ := (moves_selection (hr.moves ctx.plainly) _ base field y).clean hz hs₂
          exact (moves_finishName.clean h hs₃).yields_invalid
    | proc n sig => exact ⟨hvalue rfl, fun h _ => proc_yields hr h⟩
    | pointer n elem =>
      refine hform fun h hs => ?_
      unfold expr at h
      exact indirect_spec hr .pointer (ih elem (by simp)) (fun u => ⟨u, .inl rfl⟩) h hs
    | slice n elem =>
      refine hform fun h hs => ?_
      unfold expr at h
      exact indirect_spec hr .slice (ih elem (by simp)) (fun u => ⟨u, .inr rfl⟩) h hs
    | array n count elem =>
      exact hform fun h hs =>
        array_spec hr (ih count (by simp)) (ih elem (by simp)) h hs
    | record n form fields =>
      exact hform fun h hs => record_spec hr (fun f hf => ih f.type (List.mem_map_of_mem hf)) h hs
    | enum n base members =>
      refine hform fun h hs => enum_spec hr (fun e he => ih e (List.mem_append_left _ (by simpa using he))) ?_ h hs
      exact fun m hm e he => ih e (List.mem_append_right _ (List.mem_filterMap.mpr ⟨m, hm, he⟩))

end Check

end Statics
