import Statics.Proofs.Constants.Statements
import Statics.Proofs.Completion.Programs

/-!
# Constants of accepted programs

The constants of the universe have values, and every clean pass gives one to each constant that it checks, unless it
drops it. So a constant of an accepted program has a value or was dropped, and what it was dropped for can be read off
the program: a declared type that is invalid, or an initial value that is noted to be no constant.
-/

namespace Statics

variable {slabs : List Slab} {id : Nat}

variable {y : Entity} {passes : List Pass} {r s : Pass}

/-! ## The universe -/

namespace Universe

theorem namesRooted : store.arena.NamesRooted := by
  rintro e u ⟨hk, hu⟩
  have hsome := (layout.names hk hu).isSome
  exact ⟨hsome, (layout.types u hsome).bases⟩

theorem hasBase_of_isName {u : TypeId} (hn : store.arena.IsName u) : ∃ base, store.arena.HasBase u base := by
  rcases isLight_or hn.isSome with hlight | rfl | rfl
  · exact absurd hn (Arena.not_isName_of_light hlight)
  · obtain ⟨name, base, e, hn⟩ := hn
    simp [type_contextRecord] at hn
  · exact ⟨contextRecord, _, _, type_contextType⟩

theorem not_follows (e : EntityId) (x : Entity) : ¬ store.Follows e x := by
  have hall : ∀ i < store.current.entities.size, (store.arena.entity ⟨0, i⟩).kind ≠ .constant none ∧
      (store.arena.entity ⟨0, i⟩).ident = none := by
    decide +kernel
  intro h
  obtain ⟨slab, index⟩ := e
  obtain rfl : slab = 0 := h.slab.trans store_slabs.2
  have hx := h.entity
  rw [Store.entity?_arena, if_pos store_slabs.2] at hx
  have hentity := hall index (Array.getElem?_eq_some_iff.mp hx).1
  simp only [Arena.entity_eq h.entity] at hentity
  rcases h.kind with hk | ⟨-, hident⟩
  · exact hentity.1 hk
  · simp [hentity.2] at hident

end Universe

/-! ## Clean passes -/

section

variable {config : Config} {files : List File}

/-- The type names of an arena stand for types that are there, and no name is open. -/
structure Arena.Titles (a : Arena) : Prop where
  basics : a.HasBasics
  names : a.NamesRooted
  closed : ∀ {e u}, a.HasTitle e u → a.IsName u → ∃ base, a.HasBase u base

theorem Universe.titles : store.arena.Titles := ⟨type?_basic, namesRooted, fun _ hn => hasBase_of_isName hn⟩

theorem Pass.Tallied.titles (h : s.Tallied files) : s.store.arena.Titles :=
  ⟨h.basics, h.names, fun ht hn => (h.closed ht hn).resolve_left (by simp)⟩

/-- A slab without types and entities may be put on top. -/
theorem Arena.Titles.empty (h : Arena.Titles ⟨slabs⟩) (hid : ∀ slab ∈ slabs, slab.id < id) :
    (Store.arena ⟨.empty id, slabs⟩).Titles := by
  have hext : Arena.Extends ⟨slabs⟩ (Store.arena ⟨.empty id, slabs⟩) :=
    ⟨fun t τ ht => (Store.type?_empty hid t).trans ht, fun e x hx => ⟨x, (Store.entity?_empty hid e).trans hx, .refl x⟩⟩
  have htitle {e : EntityId} {u : TypeId} (ht : (Store.arena ⟨.empty id, slabs⟩).HasTitle e u) :
      Arena.HasTitle ⟨slabs⟩ e u := by
    simpa only [Arena.HasTitle, Arena.entity, Store.entity?_empty hid] using ht
  refine ⟨h.basics.extend hext, fun ht => hext.refines.rooted (h.names (htitle ht)), fun ht hn => ?_⟩
  obtain ⟨base, hb⟩ := h.closed (htitle ht) (hext.refines.isName_of_isName (h.names (htitle ht)).isSome hn)
  exact ⟨base, hext.refines.hasBase hb⟩

/-- Nothing waits where a pass starts. -/
theorem Pass.Tallied.start {store : Store} {links : List (String × Pos)} {collector : Collector}
    (hroom : collector.count ≤ collector.cap) (ht : store.arena.Titles) (hl : ∀ e x, ¬ store.Follows e x) :
    (Pass.start store links collector).Tallied files where
  room h := absurd (of_decide_eq_true h) (Nat.not_lt.mpr hroom)
  basics := ht.basics
  names := ht.names
  closed he hn := .inr (ht.closed he hn)
  declared := by simp [Pass.Declared, Pass.start]
  pending := List.nil_subset _
  origins := by simp [Pass.start]
  queue := by simp [Pass.start]
  focus _ h := h.elim
  begun _ h := by simp at h
  typed h := absurd h (hl _ _)

theorem Program.Runs.tallied (h : Runs config files s passes) : s.Tallied files :=
  Check.tallied_fileLevel h.fileLevel (.start (Nat.zero_le _) Universe.titles Universe.not_follows)

theorem CleanJob.tallied {b : Body} (h : CleanJob config slabs id b s) (hfrom : b.ComesFrom files)
    (hid : ∀ slab ∈ slabs, slab.id < id) (ht : Arena.Titles ⟨slabs⟩) : s.Tallied files := by
  obtain ⟨links, collector, hcount, hclean⟩ := h
  refine Check.tallied_bodyAndNested hfrom hclean (.start (by omega) (ht.empty hid) fun e x hfollows => ?_)
  have hx := hfollows.entity
  rw [Store.entity?_arena, if_pos hfollows.slab.symm] at hx
  simp [Slab.empty] at hx

/-! ## Accepted programs -/

/-- An entity that is marked as used is otherwise the same. -/
theorem Entity.keeps_of_used {x : Entity} (h : y = x ∨ y = { x with used := true }) :
    x.kind = y.kind ∧ x.type = y.type ∧ x.Keeps y := by
  rcases h with rfl | rfl
  · exact ⟨rfl, rfl, .refl y⟩
  · exact ⟨rfl, rfl, rfl, rfl, rfl, rfl, fun _ h => h, fun v h => ⟨v, h⟩⟩

/-- Every entity of a program was made by one of its passes. -/
theorem Program.Runs.maker (h : Runs config files s passes) {e : EntityId}
    (hy : (checkFiles config files).arena.entity? e = some y) :
    ∃ r ∈ s :: passes, e.slab = r.store.current.id ∧
      ∃ x, r.store.arena.entity? e = some x ∧ (y = x ∨ y = { x with used := true }) := by
  have hslabs := Check.slabs_fileLevel h.fileLevel.run
  have hfile {x : Entity} (hx : s.store.arena.entity? e = some x) : e.slab = s.store.current.id := by
    have hlt := Arena.slab_lt_of_entity? h.slabs_lt (e := e) (by simp [hx])
    omega
  obtain ⟨hend, hmerges⟩ := h.merges
  obtain ⟨r, hr, x, hx, hxy⟩ := hmerges.exists_entity hy
  rw [← hend] at hr
  rcases List.mem_cons.mp hr with rfl | hpass
  · exact ⟨r, hr, hfile hx, x, hx, hxy⟩
  · by_cases hslab : e.slab = r.store.current.id
    · exact ⟨r, hr, hslab, x, hx, hxy⟩
    · -- The entity is in a slab below, and there is only that of the file level.
      rw [Store.entity?_arena, if_neg (Ne.symm hslab), Store.below, h.jobs.numbered.frozen r hpass] at hx
      exact ⟨s, List.mem_cons_self, hfile hx, x, hx, hxy⟩

/-- The entities of an accepted program have types. -/
theorem Program.Accepted.typed (h : (checkFiles config files).Accepted) {e : EntityId}
    (hy : (checkFiles config files).arena.entity? e = some y) : y.type.isSome := by
  have huntyped := (complete_of_stop h.complete).typed e
  exact Option.isSome_iff_ne_none.mpr fun htype => huntyped ⟨y, hy, htype⟩

/-- What a pass noted is noted in the program, in the same order. -/
theorem Program.Runs.noted (h : Runs config files s passes)
    (hr : r ∈ s :: passes) : r.notes.types.entries <:+: (checkFiles config files).notes.types.entries := by
  have hfold (passes : List Pass) (notes : Annotations) :
      notes.types.entries <:+: (passes.foldl (fun a s => a.merge s.notes) notes).types.entries ∧
        ∀ r ∈ passes, r.notes.types.entries <:+: (passes.foldl (fun a s => a.merge s.notes) notes).types.entries := by
    induction passes generalizing notes with
    | nil => simp
    | cons s rest ih =>
      obtain ⟨hmerged, hrest⟩ := ih (notes.merge s.notes)
      simp only [Annotations.merge, Table.merge] at hmerged
      rw [List.foldl_cons, List.forall_mem_cons]
      exact ⟨(List.suffix_append _ _).isInfix.trans hmerged, (List.prefix_append _ _).isInfix.trans hmerged, hrest⟩
  rw [h.notes]
  rcases List.mem_cons.mp hr with rfl | hr
  · exact (hfold passes r.notes).1
  · exact (hfold passes s.notes).2 r hr

/-- What is noted in the program was noted by one of its passes. -/
theorem Program.Runs.noter (h : Runs config files s passes) {p : NodeId × Note}
    (hp : p ∈ (checkFiles config files).notes.types.entries) : ∃ r ∈ s :: passes, p ∈ r.notes.types.entries := by
  obtain ⟨rfl, hmerges⟩ := h.merges
  exact hmerges.exists_entry Annotations.types (fun _ _ => rfl) hp

/-- A program has all that its passes have. -/
theorem Program.Runs.retains (h : Runs config files s passes) (hr : r ∈ s :: passes) :
    Retains r.store.arena r.notes (checkFiles config files).arena (checkFiles config files).notes := by
  have hext := h.extends_arena hr
  exact ⟨hext.refines, hext.entities, h.noted hr⟩

theorem Program.Runs.tallied_all (h : Runs config files s passes) :
    ∀ r ∈ s :: passes, r.Tallied files := by
  have hs := h.tallied
  exact List.forall_mem_cons.mpr ⟨hs, h.forall_jobs fun _ b _ hid hb job => job.tallied (hs.queue b hb) hid hs.titles⟩

/-- What something can be declared with is no untyped kind, and no name for one. -/
theorem View.Intact.not_readsUntyped {v : View} (hv : v.Intact) {u : TypeId} {k : Kind} (hu : v.Settled u)
    (hread : v.arena.ReadsKind k u) : ¬ k.isUntyped := by
  have hbasic {t : TypeId} (ht : v.Settled t) (hk : v.arena.type? t = some (.basic k)) : ¬ k.isUntyped := by
    obtain ⟨τ, hτ, hsettled⟩ := ht
    cases hk.symm.trans hτ
    simpa [Ty.isSettled] using hsettled
  rcases hread with hk | ⟨base, ⟨name, e, hname⟩, hk⟩
  · exact hbasic hu hk
  · obtain ⟨τ, hτ, -⟩ := hu
    obtain rfl : τ = .named name (some base) e := by rw [← hname, Arena.type_eq hτ]
    obtain ⟨σ, hσ, hsettled, -⟩ := (hv.types u _ hτ).2 base rfl
    exact hbasic ⟨σ, hσ, hsettled⟩ hk

/-- A constant that went without a value was dropped, in a valid state: exactly the constants are noted with a value,
and nothing but the literals, which have values, is declared with an untyped type. -/
theorem Lapses.drops (hv : s.Valid) {e : EntityId} {x : Entity} (hx : s.store.arena.entity? e = some x)
    (hk : x.kind = .constant none) (h : Lapses files s.store.arena s.notes x) :
    Drops files s.store.arena s.notes x := by
  obtain ⟨name, init, hdeclares, hname, hwhy⟩ := h
  refine ⟨name, init, hdeclares, hname, ?_⟩
  rcases hwhy with ⟨note, hnote, hvalue⟩ | ⟨u, k, hu, hread, hkind⟩
  · refine .inl ⟨note, hnote, fun hmode => ?_⟩
    have hsome := (hv.noted _ hnote).constant.mp hmode
    simp [hvalue hmode] at hsome
  · have hliteral : e ∉ Universe.literals := by
      intro he
      obtain ⟨y, hy, hlit⟩ := hv.intact.literals e he
      cases hx.symm.trans hy
      rcases hlit with ⟨hnil, -⟩ | ⟨b, hconst, -⟩
      · cases hk.symm.trans hnil
      · cases hk.symm.trans hconst
    have hsettled := (hv.intact.entities e x hx).type u hu hliteral
    obtain rfl := hkind.resolve_right (hv.intact.not_readsUntyped hsettled hread)
    exact .inr ⟨u, hu, hread⟩

end

/-- In an accepted program every constant has a value, unless it was dropped: its type is invalid, or its initial value
is noted to be no constant. -/
theorem accepted_constants_valued_unless_dropped {config : Config} {files : List File}
    (h : (checkFiles config files).Accepted) (e : EntityId) (x : Entity) (value : Option Constant)
    (hx : (checkFiles config files).arena.entity? e = some x) (hk : x.kind = .constant value) :
    value.isSome ∨ Drops files (checkFiles config files).arena (checkFiles config files).notes x := by
  obtain ⟨s, passes, hruns⟩ := h.runs
  obtain ⟨r, hr, hslab, y, hy, hxy⟩ := hruns.maker hx
  obtain ⟨hkind, htype, hkeeps⟩ := Entity.keeps_of_used hxy
  cases value with
  | some v => exact .inl rfl
  | none =>
    have htyped : y.type.isSome := htype ▸ h.typed hx
    have hlapses := ((hruns.tallied_all r hr).dropped ⟨hslab, hy, hkind.trans hk⟩ htyped).resolve_left (by simp)
    obtain ⟨rfl, hmerges⟩ := hruns.merges
    have hvalid := hmerges.holds_ends (Program.throughout_valid config files) r hr
    exact .inr ((hlapses.drops hvalid hy (hkind.trans hk)).retain (hruns.retains hr) hkeeps)

/-! A constant whose initial value is the constant itself. It has its type when the value is read, so it looks
checked, and has no value to give. -/

namespace ReadsItself

open Builder in
/-- One file with `A : int : A`. -/
def files : List File := single do return [← consts ["A"] (some (← name "int")) [← name "A"]]

/-- What the constant is in the end: an entity with a type, and without a value. -/
def constant : Entity :=
  { Entity.typed (.constant none) ⟨"A", ⟨"m", 3, 1⟩, ⟨6, 1⟩⟩ (some 2) (.basic .int) with
    home := some ⟨0, 1⟩, used := true }

theorem spec : (checkFiles .standard files).Accepted ∧
    (checkFiles .standard files).arena.entity? ⟨0, 29⟩ = some constant := by
  decide +kernel

theorem accepted : (checkFiles .standard files).Accepted := spec.1

theorem entity_constant : (checkFiles .standard files).arena.entity? ⟨0, 29⟩ = some constant := spec.2

end ReadsItself

theorem accepted_constants_valued_unless_dropped_reads_itself : (checkFiles .standard ReadsItself.files).Accepted ∧
      Drops ReadsItself.files (checkFiles .standard ReadsItself.files).arena
        (checkFiles .standard ReadsItself.files).notes ReadsItself.constant :=
  ⟨ReadsItself.accepted,
    (accepted_constants_valued_unless_dropped ReadsItself.accepted ⟨0, 29⟩ _ none ReadsItself.entity_constant
      rfl).resolve_left (by simp)⟩

/-- A program is accepted although a constant in it has no value. -/
theorem accepted_constant_without_value : (checkFiles .standard ReadsItself.files).Accepted ∧
      ∃ e x, (checkFiles .standard ReadsItself.files).arena.entity? e = some x ∧ x.kind = .constant none :=
  ⟨ReadsItself.accepted, _, _, ReadsItself.entity_constant, rfl⟩

end Statics
