import Mathlib.Data.List.Forall2
import Statics.Proofs.Journal
import Statics.Proofs.Validity.Programs

/-!
# Members of enums

The members of an enum are entered one after another, with a counter that follows their values. In between, a written
value may demand other declarations, but these leave alone what has a type. So what `Enumerated` says of each member
where it is entered still holds where the enum is done.

Values are checked against the range of the kind of the base. A base that is an enum itself has no kind, and `int`
stands in for it: `enum_of_enum_not_in_range`.
-/

namespace Statics

namespace Check

variable {m : EntityId}

/-! ## Values of members -/

/-- What is written for a member and was noted between two states: a constant, or nothing that counts if it was
wrong. -/
def Written (resolve : Resolver) (ctx : Context) (s t : Pass) (m : Member) (given : Option Int) : Prop :=
  match m.value with
  | none => given = none
  | some e => ∃ s' x t', s.Grows s' ∧ expr resolve ctx .value e s' = .ok x t' ∧
    t'.notes.types.entries <:+ t.notes.types.entries ∧
    ((∃ v : Int128, x.mode = .constant ∧ x.constant? = some (.int v) ∧ given = some v.toInt) ∨
      x.mode = .invalid ∧ given = none)

/-- Constants for the members of an enum, in order: the value of each is the one that is written, or one more than
that of the member before it, and lies in the range of a kind. -/
inductive Enumerated (resolve : Resolver) (ctx : Context) (kind : Kind) (s t : Pass) :
    Int → List Member → List EntityId → Prop where
  | nil (next : Int) : Enumerated resolve ctx kind s t next [] []
  | cons {next : Int} {m : Member} {given : Option Int} {id : EntityId} {v : Int128} {rest : List Member}
    {ids : List EntityId} (hwritten : Written resolve ctx s t m given) (hvalue : v.toInt = given.getD next)
    (hrange : kind.isInteger ∧ kind.holds v.toInt) (hname : (t.store.arena.entity id).name = m.name.name)
    (hkind : (t.store.arena.entity id).kind = .constant (some (.int v)))
    (hrest : Enumerated resolve ctx kind s t (v.toInt + 1) rest ids) :
    Enumerated resolve ctx kind s t next (m :: rest) (id :: ids)

variable {resolve : Resolver} {ctx : Context} {kind : Kind} {u : TypeId} {s t : Pass}

theorem valueOf_clean {s₀ t₀ : Pass} {name : Ident} {standard v : Int128} {value : Option Expr}
    (hlog : ∀ ctx e, Moves LogGrows (resolve ctx e)) (h : Clean (valueOf resolve ctx name standard value) s v t)
    (hs : s₀.Grows s) (ht : t.notes.types.entries <:+ t₀.notes.types.entries) :
    ∃ given, v.toInt = given.getD standard.toInt ∧ Written resolve ctx s₀ t₀ ⟨name, value⟩ given := by
  have hx := fun e => moves_expr hlog ctx .value e
  cases value with
  | none =>
    unfold valueOf at h
    exact ⟨none, by rw [h.of_pure.1]; rfl, rfl⟩
  | some e =>
    unfold valueOf at h
    obtain ⟨x, s₁, hx, h⟩ := h.split (by grind)
    unfold memberValue at h
    split at h
    case h_1 w hmode hw =>
      obtain ⟨rfl, rfl⟩ := h.of_pure
      exact ⟨some w.toInt, rfl, s, x, s₁, hs, hx.run, ht, .inl ⟨w, hmode, hw, rfl⟩⟩
    case h_2 hinvalid =>
      obtain ⟨rfl, rfl⟩ := h.of_pure
      exact ⟨none, rfl, s, x, s₁, hs, hx.run, ht, .inr ⟨hinvalid, rfl⟩⟩
    case h_3 => exact (h.not_report (by grind)).elim

theorem addMember_clean {name : Ident} {v : Int128} {scan scan' : MemberScan}
    (hk : kind.isFloat = false) (h : Clean (addMember kind u name v scan) s scan' t) :
      (kind.isInteger ∧ kind.holds v.toInt) ∧ s.store.arena.fieldNamed? name.name scan.members = none ∧
      ∃ id, scan' = ⟨scan.members ++ [id], successor v⟩ ∧
        s.store.arena.entity? id = none ∧
        t.store.arena.entity? id = some (.typed (.constant (some (.int v))) name.token (some name.id) u) := by
  unfold addMember at h
  by_cases hfits : ((Constant.int v).represent? kind).isNone
  · simp only [hfits, if_true] at h
    exact (h.not_report (by grind)).elim
  · simp only [hfits] at h
    have h := h.readArena
    split at h
    · exact (h.not_report (by grind)).elim
    case h_2 hname =>
      obtain ⟨id, s₁, hnew, h⟩ := h.split (by grind)
      obtain ⟨_, s₂, hdefine, h⟩ := h.split (by grind)
      obtain ⟨rfl, rfl⟩ := newEntity_ok hnew.run
      cases hdefine.run
      obtain ⟨rfl, rfl⟩ := h.of_pure
      refine ⟨?_, hname, _, rfl, Store.entity?_fresh .., by rw [Store.entity?_newEntity, if_pos rfl]⟩
      unfold Constant.represent? at hfits
      split at hfits
      · simpa [Constant.toInteger?, *] using hfits
      · simp [hk] at hfits

/-- The successor of a value in the range of a type is one more. -/
theorem toInt_successor {v : Int128} (hk : kind.isUntyped = false) (h : kind.isInteger ∧ kind.holds v.toInt) :
    (successor v).toInt = v.toInt + 1 := by
  have hlower := v.lower
  have hlt : v.toInt + 1 < 170141183460469231731687303715884105728 := by
    cases kind <;> simp_all [Kind.isInteger, Kind.isUntyped, Kind.holds, Kind.range?] <;> omega
  have hsome := Int128.ofInt?_eq_some_iff (v := v.toInt + 1) (a := ⟨v.toInt + 1, by omega, hlt⟩)
  simp [successor, hsome.mpr rfl]

/-- Demands that leave alone what was checked. -/
structure Leaves (resolve : Resolver) : Prop where
  log : ∀ ctx e, Moves LogGrows (resolve ctx e)
  advances : ∀ ctx e, Moves Advances (resolve ctx e)
  keeps : ∀ m ctx e, Moves (KeepsValue m) (resolve ctx e)

theorem enumMembers_clean {s₀ t₀ : Pass} (hr : Leaves resolve) (hfloat : kind.isFloat = false)
    (hk : kind.isUntyped = false) {members : List Member} {scan scan' : MemberScan} (hs : Advances s₀ s)
    (h : Clean (enumMembers resolve ctx kind u members scan) s scan' t)
    (hnotes : t.notes.types.entries <:+ t₀.notes.types.entries)
    (hsame : ∀ e, t₀.store.arena.entity e = t.store.arena.entity e)
    (hscan : ∀ id ∈ scan.members, (s.store.arena.entity? id).isSome) :
    ∃ ids, scan'.members = scan.members ++ ids ∧ Enumerated resolve ctx kind s₀ t₀ scan.next.toInt members ids ∧
      (members.map fun m => m.name.name).Nodup ∧
      ∀ id ∈ scan.members, (s.store.arena.entity id).name ∉ members.map fun m => m.name.name := by
  have hlog := fun e => moves_expr hr.log ctx .value e
  induction members generalizing s scan with
  | nil =>
    unfold enumMembers at h
    obtain ⟨rfl, rfl⟩ := h.of_pure
    exact ⟨[], by simp, .nil _, by simp, by simp⟩
  | cons m rest ih =>
    obtain ⟨name, value⟩ := m
    unfold enumMembers at h
    have hrest (scan : MemberScan) : Moves LogGrows (enumMembers resolve ctx kind u rest scan) :=
      moves_enumMembers _ _ _ _ fun m _ e _ => hlog e
    have hvalue : Moves LogGrows (valueOf resolve ctx name scan.next value) := moves_valueOf fun e _ => hlog e
    obtain ⟨v, s₁, hv, h⟩ := h.split (by grind)
    obtain ⟨scan₁, s₂, hadd, h⟩ := h.split (by grind)
    obtain ⟨hrange, hnew, id, rfl, hfresh, hid⟩ := addMember_clean hfloat hadd
    have hs₁ : Advances s s₁ := (moves_valueOf fun e _ => moves_expr hr.advances ctx .value e).ok hv.run
    have hs₂ : Advances s₁ s₂ := (moves_addMember ..).ok hadd.run
    have ht : Advances s₂ t := (moves_enumMembers _ _ _ _ fun m _ e _ => moves_expr hr.advances ctx .value e).ok h.run
    obtain ⟨given, hgiven, hwritten⟩ := valueOf_clean hr.log hv hs.grows
      ((hs₂.trans ht).grows.notes.trans hnotes)
    have hold {id' : EntityId} (hid' : id' ∈ scan.members) : (s₂.store.arena.entity? id').isSome ∧
        (s₁.store.arena.entity id').name = (s.store.arena.entity id').name ∧
        (s₂.store.arena.entity id').name = (s.store.arena.entity id').name := by
      obtain ⟨x, hx⟩ := Option.isSome_iff_exists.mp (hscan id' hid')
      obtain ⟨y, hy, hxy⟩ := hs₁.grows.store.toExtends.entities id' x hx
      obtain ⟨z, hz, hyz⟩ := hs₂.grows.store.toExtends.entities id' y hy
      rw [Arena.entity_eq hx, Arena.entity_eq hy, Arena.entity_eq hz]
      exact ⟨by simp [hz], congrArg Token.text hxy.token, congrArg Token.text (hyz.token.trans hxy.token)⟩
    obtain ⟨ids, hids, henumerated, hnodup, hnames⟩ := ih ((hs.trans hs₁).trans hs₂) h fun id' hid' => by
      rcases List.mem_append.mp hid' with hid' | hid'
      · exact (hold hid').1
      · simp [List.mem_singleton.mp hid', hid]
    have hkeeps : KeepsValue id s₂ t :=
      (moves_enumMembers _ _ _ _ fun m _ e _ => moves_expr (hr.keeps id) ctx .value e).ok h.run
    obtain ⟨y, hy, -, hkind⟩ := hkeeps _ _ hid rfl rfl
    rw [← Arena.entity_eq hy, ← hsame] at hkind
    have hname := (ht.grows.store.toExtends.entity_keeps hid).2.token
    rw [toInt_successor hk hrange] at henumerated
    rw [← hsame] at hname
    have hall := Enumerated.cons hwritten hgiven hrange (congrArg Token.text hname) hkind henumerated
    refine ⟨id :: ids, by simp [hids], hall, ?_, ?_⟩
    · refine List.nodup_cons.mpr ⟨?_, hnodup⟩
      have hfirst := hnames id (by simp)
      rwa [Arena.entity_eq hid] at hfirst
    · intro id' hid' hmem
      rcases List.mem_cons.mp hmem with heq | hmem
      · have hne := List.find?_eq_none.mp hnew id' hid'
        rw [(hold hid').2.1, heq] at hne
        simp at hne
      · exact hnames id' (List.mem_append_left _ hid') ((hold hid').2.2 ▸ hmem)

/-- The base of an enum is an integer, or was wrong already. -/
theorem baseOf_clean {base : Option Expr} (hlog : ∀ ctx e, Moves LogGrows (resolve ctx e))
    (h : Clean (baseOf resolve ctx base) s u t) : t.store.arena.isInteger u ∨ u = .invalid ∨ u = .basic .int := by
  have hx := fun reading e => moves_expr hlog ctx reading e
  cases base with
  | none =>
    unfold baseOf at h
    exact .inr (.inr h.of_pure.1.symm)
  | some e =>
    unfold baseOf at h
    obtain ⟨y, s₁, hy, h⟩ := h.split (by grind)
    unfold enumBase at h
    have h := h.readArena
    split at h
    case isTrue hbase =>
      obtain ⟨rfl, rfl⟩ := h.of_pure
      simp only [Bool.or_eq_true, beq_iff_eq] at hbase
      exact hbase.imp_right .inl
    case isFalse => exact (h.not_report (by grind)).elim

/-- The kind that members of an enum are checked against. -/
theorem kind_of_base (hs : s.Valid) (hu : s.view.Settled u)
    (hbase : s.store.arena.isInteger u ∨ u = .invalid ∨ u = .basic .int) {kind : Kind}
    (hkind : (s.store.arena.kind? u).getD .int = kind) : (kind.isFloat = false ∧ kind.isUntyped = false) ∧
      (s.store.arena.base u = .basic kind ∨ s.store.arena.isEnum u ∧ kind = .int) := by
  have huntyped : s.store.arena.isUntyped u = false := hs.intact.not_isUntyped hu
  have hcases : (∃ k, s.store.arena.base u = .basic k ∧ k.isFloat = false) ∨ s.store.arena.isEnum u := by
    rcases hbase with hinteger | rfl | rfl
    · rcases Bool.or_eq_true_iff.mp hinteger with hk | henum
      · obtain ⟨k, hk, hint⟩ := Arena.kindIs_eq_true.mp hk
        exact .inl ⟨k, Arena.kind?_eq_some.mp hk, by cases k <;> simp_all [Kind.isInteger, Kind.isFloat]⟩
      · exact .inr henum
    · exact .inl ⟨.invalid, Arena.kind?_eq_some.mp (hs.intact.kind?_basic .invalid), rfl⟩
    · exact .inl ⟨.int, Arena.kind?_eq_some.mp (hs.intact.kind?_basic .int), rfl⟩
  rcases hcases with ⟨k, hk, hfloat⟩ | henum
  · have hkind? := Arena.kind?_eq_some.mpr hk
    obtain rfl : k = kind := by simpa [hkind?] using hkind
    exact ⟨⟨hfloat, by simpa [Arena.isUntyped, Arena.kindIs, hkind?] using huntyped⟩, .inl hk⟩
  · obtain rfl : Kind.int = kind := by
      unfold Arena.isEnum at henum
      unfold Arena.kind? at hkind
      split at henum <;> simp_all
    exact ⟨⟨rfl, rfl⟩, .inr ⟨henum, rfl⟩⟩

theorem leaves_resolver (h : resolve = demand ∨ ∃ pending ⊆ s.decls, resolve = demandFrom pending) :
    Leaves resolve := by
  rcases h with rfl | ⟨pending, -, rfl⟩
  · exact ⟨moves_demand, moves_demand, fun _ => keepsValue_demand⟩
  · exact ⟨moves_demandFrom pending, moves_demandFrom pending, fun _ => keepsValue_demandFrom pending⟩

end Check

open Check in
/-- In every state of a check, the members of an enum that is read without an error have different names, and the
values that are written or that follow from the member before. The values lie in the range of the kind of the base, or
in that of `int` where the base is an enum. -/
theorem enum_members_in_range (config : Config) (files : List File) : Program.Throughout config files fun s =>
    ∀ resolve, (resolve = demand ∨ ∃ pending ⊆ s.decls, resolve = demandFrom pending) → ∀ ctx, ctx.Valid s →
      ∀ reading n base members x t, Clean (expr resolve ctx reading (.enum n base members)) s x t →
        ∃ u ids kind, t.store.arena.type? x.type = some (.enum u ids) ∧ Enumerated resolve ctx kind s t 0 members ids ∧
          (members.map fun m => m.name.name).Nodup ∧
          (t.store.arena.base u = .basic kind ∨ t.store.arena.isEnum u ∧ kind = .int) := by
  refine (Program.throughout_valid config files).imp fun s hs resolve hresolve ctx hctx reading n base members x
    t h => ?_
  have hr := leaves_resolver hresolve
  have hlog := fun reading e => moves_expr hr.log ctx reading e
  have hblog := moves_baseOf base fun e _ => hlog (.type none) e
  have hmlog := fun kind u => moves_enumMembers kind u members ⟨[], .zero⟩ fun m _ e _ => hlog .value e
  unfold expr at h
  obtain ⟨u, s₁, hu, h⟩ := h.split (by grind)
  have h := h.readArena
  obtain ⟨id, s₃, hnew, h⟩ := h.split (by grind)
  obtain ⟨scan, s₄, hscan, h⟩ := h.split (by grind)
  obtain ⟨_, s₅, hstore, hlast⟩ := h.split (by grind)
  obtain ⟨hleads, hgives⟩ := yields_baseOf (fun e _ => checks_expr resolve e) (answers_resolver hresolve) hctx hs
  rw [after_of_ok hu.run] at hleads
  have hsettled := hgives u s₁ hu.run
  obtain ⟨⟨hfloat, huntyped⟩, hkind⟩ := kind_of_base hleads.valid hsettled (baseOf_clean hr.log hu) rfl
  obtain ⟨rfl, rfl⟩ := newType_ok hnew.run
  have hs₁ : Advances s s₁ := (moves_baseOf base fun e _ => moves_expr hr.advances ctx (.type none) e).ok hu.run
  have hs₃ : Advances s₁ _ := BuildsTypes.newType s₁ (.enum u []) rfl rfl
  have hs₄ : Advances _ s₄ :=
    (moves_enumMembers _ _ members _ fun m _ e _ => moves_expr hr.advances ctx .value e).ok hscan.run
  have hread : s₄.store.arena.type? (s₁.store.newType (.enum u [])).1 = some (.enum u []) :=
    hs₄.grows.store.toExtends.types _ _ (by rw [Store.type?_newType, if_pos rfl])
  obtain ⟨hx, ht⟩ : x.type = (s₁.store.newType (.enum u [])).1 ∧ t.store = s₅.store := by
    cases hlast.run
    exact ⟨rfl, rfl⟩
  have hs₅ : s₅.Grows t := moves_typeOperand.ok hlast.run
  cases hstore.run
  obtain ⟨ids, hids, henumerated, hnodup, -⟩ := enumMembers_clean hr hfloat huntyped (hs₁.trans hs₃) hscan hs₅.notes
    (fun e => by simp [ht, Arena.entity]) (by simp)
  refine ⟨u, scan.members, _, ?_, by rw [hids]; exact henumerated, hnodup, ?_⟩
  · rw [ht, hx, Store.type?_modifyType, if_pos ⟨hs₄.grows.store.id.symm, rfl⟩, hread]
    rfl
  · have hextends := (hs₄.grows.store.fill fun _ => .enum u scan.members).toExtends
    have hbase : t.store.arena.base u = s₁.store.arena.base u :=
      ht ▸ hleads.valid.intact.base_extend hextends hsettled.has
    rwa [hbase, Arena.isEnum, hbase]

namespace EnumOfEnum

open Builder in
/-- An enum of bytes, and an enum with that base and a member that is no byte. -/
def decls : Build (List Stmt) := do
  let bytes ← typeDecl "A" (← enum (some (← name "u8")) [("X", none)])
  return [bytes, ← typeDecl "B" (← enum (some (← name "A")) [("Y", some (← int ⟨300, by decide, by decide⟩))])]

/-- What checking them finds. -/
def checked : Program := checkFiles .standard [⟨"m", (decls (.start "m")).1⟩]

end EnumOfEnum

open EnumOfEnum in
/-- An enum whose base is an enum of bytes has a member with the value 300, without an error. -/
theorem enum_of_enum_not_in_range :
    checked.collector.log = [] ∧ (checked.arena.slabs.flatMap fun slab => slab.types.toList.filterMap fun
      | .enum base members => some ((checked.arena.typeText base), members.map fun m =>
          ((checked.arena.entity m).name, (checked.arena.entity m).kind))
      | _ => none) = [("u8", [("X", .constant (some (.int .zero)))]),
        ("A", [("Y", .constant (some (.int ⟨300, by decide, by decide⟩)))])] ∧
      Kind.u8.holds 300 = false := by
  decide +kernel

end Statics
