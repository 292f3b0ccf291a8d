import Statics.Proofs.Completion
import Statics.Proofs.ErrorCap
import Statics.Proofs.Validity.Programs

/-!
# Programs that leave nothing open

The universe is complete, the file level closes what it opens, and every job starts on top of that and does so too. So
in a program whose check was not cut short, also one with errors, every entity has a type and every named type a base.
The base is no name itself, so the type under a name is found in one step: `nothing_left_open`.
-/

namespace Statics

theorem Universe.complete : store.arena.Complete := by
  have hread : (store.current.entities.all fun x => x.type.isSome) ∧
    store.current.types.all fun τ => !τ.isOpenName := by
    decide +kernel
  rw [Array.all_eq_true', Array.all_eq_true'] at hread
  refine ⟨fun e ⟨x, hx, htype⟩ => ?_, fun t ⟨τ, hτ, hopen⟩ => ?_⟩
  · rw [Store.entity?_arena, Store.below, store_slabs.1] at hx
    split at hx
    case isTrue => simpa [htype] using hread.1 x (Array.mem_of_getElem? hx)
    case isFalse => simp [Arena.entity?, Arena.slab?] at hx
  · rw [Store.type?_arena, Store.below, store_slabs.1] at hτ
    split at hτ
    case isTrue => simpa [hopen] using hread.2 τ (Array.mem_of_getElem? hτ)
    case isFalse => simp [Arena.type?, Arena.slab?] at hτ

/-- A new slab has nothing in it, so nothing that is open. -/
theorem Arena.Complete.empty {slabs : List Slab} (h : Arena.Complete ⟨slabs⟩) {id : Nat}
    (hid : ∀ slab ∈ slabs, slab.id < id) : (Store.arena ⟨.empty id, slabs⟩).Complete :=
  ⟨fun e ⟨x, hx, htype⟩ => h.typed e ⟨x, (Store.entity?_empty hid e).symm.trans hx, htype⟩,
    fun t ⟨τ, hτ, hopen⟩ => h.based t ⟨τ, (Store.type?_empty hid t).symm.trans hτ, hopen⟩⟩

theorem Opens.complete {s t : Pass} (h : Opens [] s t) (hs : s.store.arena.Complete) : t.store.arena.Complete :=
  ⟨fun e he => hs.typed e ((h.untyped e he).resolve_right (by simp)), fun u hu => hs.based u (h.names u hu)⟩

/-! ## Jobs -/

section

variable {config : Config} {frozen : List Slab} {id : Nat} {bs : List Body} {h h' : Shared} {passes : List Pass}

/-- Jobs that complete leave nothing open, on top of slabs where nothing is. -/
theorem CompleteJobs.complete (hjobs : CompleteJobs config frozen id bs h passes h') (hroom : ¬ h.collector.isFatal)
    (hfrozen : Arena.Complete ⟨frozen⟩) (hid : ∀ slab ∈ frozen, slab.id < id) :
    ∀ s ∈ passes, s.Declared ∧ s.store.arena.Complete := by
  induction hjobs with
  | nil => simp
  | @cons id b rest h h' s passes job _ _ ih =>
    have hmoves := Check.moves_bodyAndNested (R := Closes) config b
    have hroom' := hmoves.traced.room job hroom
    obtain ⟨hdeclared, hopens⟩ := (hmoves.ok job).closed (by simp [Pass.Declared, Pass.start]) hroom'
    refine List.forall_mem_cons.mpr ⟨⟨hdeclared, hopens.complete (hfrozen.empty hid)⟩, ih hroom' fun slab hslab => ?_⟩
    exact Nat.lt_succ_of_lt (hid slab hslab)

theorem CompleteJobs.ends (hjobs : CompleteJobs config frozen id bs h passes h') :
    Pass.Numbered frozen id passes ∧ ∀ s ∈ passes, ∃ n b links collector, id ≤ n ∧ b ∈ bs ∧
      Check.bodyAndNested config b (.start ⟨.empty n, frozen⟩ links collector) = .ok () s := by
  induction hjobs with
  | nil => exact ⟨.nil, by simp⟩
  | @cons id b rest h h' s passes job _ _ ih =>
    have hgrows : Pass.Grows _ s := (Check.moves_bodyAndNested config b).ok job
    refine ⟨.cons ⟨hgrows.store.id, hgrows.store.frozen⟩ ih.1, List.forall_mem_cons.mpr ⟨?_, fun r hr => ?_⟩⟩
    · exact ⟨id, b, _, _, Nat.le_refl id, List.mem_cons_self, job⟩
    · obtain ⟨n, b, links, collector, hn, hb, hrun⟩ := ih.2 r hr
      exact ⟨n, b, links, collector, Nat.le_of_succ_le hn, List.mem_cons_of_mem _ hb, hrun⟩

end

/-! ## Programs -/

namespace Program

variable {config : Config} {files : List File}

/-- A program is put together from runs that complete. -/
theorem merges_of_ends {s : Pass} {passes : List Pass}
    (hfile : Check.fileLevel config files (.start Universe.store [] (.empty config.errorCap)) = .ok () s)
    (hjobs : Pass.Numbered s.store.arena.slabs 1 passes ∧ ∀ r ∈ passes, ∃ n b links collector, 1 ≤ n ∧ b ∈ s.queue ∧
      Check.bodyAndNested config b (.start ⟨.empty n, s.store.arena.slabs⟩ links collector) = .ok () r)
    (harena : (checkFiles config files).arena = passes.foldl (fun a s => a.absorb s.store.current) s.store.arena)
    (hnotes : (checkFiles config files).notes = passes.foldl (fun a s => a.merge s.notes) s.notes) :
    s = fileEnd config files ∧ Merges config files passes (checkFiles config files) := by
  have hend : s = fileEnd config files := (Check.after_of_ok hfile).symm
  have hslabs : s.store.arena.slabs = [(fileEnd config files).store.current] := by rw [hend, arena_fileEnd]
  obtain ⟨_, hmerges⟩ := merges_checkFiles config files
  rw [hslabs] at hjobs
  subst hend
  refine ⟨rfl, hjobs.1, fun r hr => ?_, harena, hnotes, hmerges.tables⟩
  obtain ⟨n, b, links, collector, hn, hb, hrun⟩ := hjobs.2 r hr
  exact ⟨n, ⟨links, collector⟩, hn, b, hb, (Check.after_of_ok hrun).symm⟩

theorem Completes.merges {s : Pass} {passes : List Pass} (h : Completes config files s passes) :
    s = fileEnd config files ∧ Merges config files passes (checkFiles config files) := by
  obtain ⟨shared, hjobs, -⟩ := h.jobs
  exact merges_of_ends h.fileLevel hjobs.ends h.arena h.notes

namespace Runs

variable {s r : Pass} {passes : List Pass} (h : Runs config files s passes)

include h

theorem slabs_lt : ∀ slab ∈ s.store.arena.slabs, slab.id < 1 := by
  obtain ⟨hslabs, hid⟩ := Check.slabs_fileLevel h.fileLevel.run
  rw [hslabs]
  simp [hid]

/-- What clean jobs end with holds of all that come after the file level. -/
theorem forall_jobs {P : Pass → Prop} (hP : ∀ id b r, (∀ slab ∈ s.store.arena.slabs, slab.id < id) → b ∈ s.queue →
    CleanJob config s.store.arena.slabs id b r → P r) : ∀ r ∈ passes, P r := h.jobs.forall h.slabs_lt hP

/-- So is an accepted program from its clean runs. -/
theorem merges : s = fileEnd config files ∧ Merges config files passes (checkFiles config files) := by
  refine merges_of_ends h.fileLevel.run ⟨h.jobs.numbered, h.forall_jobs ?_⟩ h.arena h.notes
  rintro id b r hid hb ⟨links, collector, -, hclean⟩
  obtain ⟨hslabs, -⟩ := Check.slabs_fileLevel h.fileLevel.run
  have hpos : 0 < id := Nat.zero_lt_of_lt (hid s.store.current (by simp [hslabs]))
  exact ⟨id, b, links, collector, hpos, hb, hclean.run⟩

theorem extends_arena (hr : r ∈ s :: passes) : r.store.arena.Extends (checkFiles config files).arena := by
  obtain ⟨rfl, hmerges⟩ := h.merges
  exact hmerges.extends_ends hr

end Runs

theorem room_fileLevel {s : Pass} (h : Check.fileLevel config files (opening config) = .ok () s) :
    ¬ s.collector.isFatal :=
  (Check.moves_fileLevel (R := LogGrows) config files).traced.room h
    (by simp [opening, Collector.empty, Collector.isFatal, Pass.start])

/-- A file level that completes leaves nothing open. -/
theorem complete_fileLevel {s : Pass} (h : Check.fileLevel config files (opening config) = .ok () s) :
    s.Declared ∧ s.store.arena.Complete := by
  obtain ⟨hdeclared, hopens⟩ :=
    Check.opens_fileLevel h (by simp [opening, Pass.Declared, Pass.start]) (room_fileLevel h)
  have hstart : (opening config).store = Universe.store := by rw [opening, Pass.start]
  refine ⟨hdeclared, hopens.complete ?_⟩
  rw [hstart]
  exact Universe.complete

/-- Runs that complete leave nothing open. -/
theorem Completes.complete {s : Pass} {passes : List Pass} (h : Completes config files s passes) :
    ∀ t ∈ s :: passes, t.Declared ∧ t.store.arena.Complete := by
  obtain ⟨hend, hmerges⟩ := h.merges
  obtain ⟨shared, hjobs, -⟩ := h.jobs
  obtain ⟨hdeclared, hfile⟩ := complete_fileLevel h.fileLevel
  have hslabs : ∀ slab ∈ s.store.arena.slabs, slab.id < 1 := by
    rw [hend]
    exact below_jobOpening config files Nat.one_pos
  exact List.forall_mem_cons.mpr ⟨⟨hdeclared, hfile⟩, hjobs.complete (room_fileLevel h.fileLevel) hfile hslabs⟩

theorem complete_of_stop (h : (checkFiles config files).stop = none) : (checkFiles config files).arena.Complete := by
  obtain ⟨s, passes, hcompletes⟩ := completes_of_stop h
  obtain ⟨rfl, hmerges⟩ := hcompletes.merges
  have hcomplete := hcompletes.complete
  refine ⟨fun e ⟨y, hy, htype⟩ => ?_, fun t ⟨τ, hτ, hopen⟩ => ?_⟩
  · obtain ⟨s, hs, x, hx, hxy⟩ := hmerges.exists_entity hy
    refine (hcomplete s hs).2.typed e ⟨x, hx, ?_⟩
    rcases hxy with rfl | rfl
    · exact htype
    · exact htype
  · obtain ⟨s, hs, hτ⟩ := hmerges.exists_type hτ
    exact (hcomplete s hs).2.based t ⟨τ, hτ, hopen⟩

/-- The base of a name is no name, in every program. -/
theorem isName_base {t b : TypeId} {name : String} {e : EntityId}
    (h : (checkFiles config files).arena.type? t = some (.named name (some b) e)) : ∃ τ,
    (checkFiles config files).arena.type? b = some τ ∧ τ.isName = false := by
  obtain ⟨passes, hmerges⟩ := merges_checkFiles config files
  obtain ⟨s, hs, ht⟩ := hmerges.exists_type h
  have hvalid := hmerges.holds_ends (throughout_valid config files) s hs
  obtain ⟨σ, hσ, -, hname⟩ := (hvalid.intact.types t _ ht).2 b rfl
  exact ⟨σ, (hmerges.extends_ends hs).types b σ hσ, hname⟩

end Program

/-! ## Types under names -/

/-- Every named type has a base that is no name. -/
def Arena.Based (a : Arena) : Prop :=
  ∀ t name base e, a.type? t = some (.named name base e) → ∃ b τ, base = some b ∧ a.type? b = some τ ∧ τ.isName = false

namespace Arena.Based

variable {a : Arena} (h : a.Based)

include h

/-- Where all names have bases, the type under a name is one step away. -/
theorem baseWithin_eq (t : TypeId) : ∃ b, (b = t ∨ ∃ name e, a.type? t = some (.named name (some b) e)) ∧
    (∀ c, ¬ a.HasBase b c) ∧ ∀ n, a.baseWithin (n + 2) t = b := by
  by_cases hname : ∃ b, a.HasBase t b
  · obtain ⟨b, name, e, ht⟩ := hname
    have ht? : a.type? t = some (.named name (some b) e) := by
      cases hτ : a.type? t with
      | none => simp [Arena.type, hτ, Ty.blank] at ht
      | some τ => simpa [Arena.type, hτ] using ht
    obtain ⟨c, τ, hc, hτ, hproper⟩ := h t name (some b) e ht?
    cases hc
    have hbase (c : TypeId) : ¬ a.HasBase b c := by
      rintro ⟨name', e', hb⟩
      rw [Arena.type_eq hτ] at hb
      subst hb
      cases hproper
    refine ⟨b, .inr ⟨name, e, ht?⟩, hbase, fun n => ?_⟩
    rw [baseWithin_of_hasBase (n + 1) ⟨name, e, ht⟩, baseWithin_of_not_hasBase n hbase]
  · have hnot (b : TypeId) : ¬ a.HasBase t b := fun hb => hname ⟨b, hb⟩
    exact ⟨t, .inl rfl, hnot, fun n => baseWithin_of_not_hasBase (n + 1) hnot⟩

theorem baseType_spec (t : TypeId) :
    (a.baseType t = t ∨ ∃ name e, a.type? t = some (.named name (some (a.baseType t)) e)) ∧
      a.baseType (a.baseType t) = a.baseType t ∧ ∀ n, a.baseWithin (n + 2) t = a.baseType t := by
  obtain ⟨b, hb, hproper, hwithin⟩ := h.baseWithin_eq t
  have heq : a.baseType t = b := hwithin 1022
  rw [heq]
  exact ⟨hb, baseType_of_not_hasBase hproper, hwithin⟩

end Arena.Based

/-- Nothing is left open in a program whose check was not cut short, with errors or without. Every entity has a type.
Every named type has a base, which is no name. So the base of any type is the type itself or one step away, the base
of a base is the same, and two rounds are enough to find it, however many more there may be. -/
theorem nothing_left_open {config : Config} {files : List File} (h : (checkFiles config files).stop = none) :
    (∀ e x, (checkFiles config files).arena.entity? e = some x → ∃ t, x.type = some t) ∧
      (∀ t name base e, (checkFiles config files).arena.type? t = some (.named name base e) →
        ∃ b τ, base = some b ∧ (checkFiles config files).arena.type? b = some τ ∧ τ.isName = false) ∧
      ∀ t,
        ((checkFiles config files).arena.baseType t = t ∨ ∃ name e, (checkFiles config files).arena.type? t =
          some (.named name (some ((checkFiles config files).arena.baseType t)) e)) ∧
        (checkFiles config files).arena.baseType ((checkFiles config files).arena.baseType t) =
          (checkFiles config files).arena.baseType t ∧
        ∀ n, (checkFiles config files).arena.baseWithin (n + 2) t = (checkFiles config files).arena.baseType t := by
  have hcomplete := Program.complete_of_stop h
  have hbased : (checkFiles config files).arena.Based := by
    intro t name base e ht
    cases base with
    | none => exact absurd ⟨_, ht, rfl⟩ (hcomplete.based t)
    | some b =>
      obtain ⟨τ, hτ, hname⟩ := Program.isName_base ht
      exact ⟨b, τ, rfl, hτ, hname⟩
  refine ⟨fun e x hx => ?_, hbased, hbased.baseType_spec⟩
  cases htype : x.type with
  | none => exact absurd ⟨x, hx, htype⟩ (hcomplete.typed e)
  | some t => exact ⟨t, rfl⟩

namespace Tangled

open Builder in
/-- One file with two records that contain each other, two variables that stand for each other, and a procedure that
declares a type, a constant and a procedure and uses a name that nothing declares. -/
def files : List File := single do
  let first ← typeDecl "A" (← record .struct [← field ["b"] (← name "B") false])
  let second ← typeDecl "B" (← record .struct [← field ["a"] (← name "A") false])
  let pair ← vars ["x", "y"] none [← name "y", ← name "x"] false
  let inside ← plainProc "inside" [] none
  let local_ ← typeDecl "T" (← name "A")
  let constant ← consts ["n"] (some (← name "T")) [← name "missing"]
  let outside ← plainProc "outside" [inside, local_, constant] none
  return [first, second, pair, outside]

/-- What is read off the program in one evaluation. -/
theorem spec : (checkFiles .standard files).stop = none ∧ (checkFiles .standard files).collector.count = 3 := by
  decide +kernel

end Tangled

theorem nothing_left_open_tangled :
    ((checkFiles .standard Tangled.files).stop = none ∧ (checkFiles .standard Tangled.files).collector.count = 3) ∧
      (∀ e x, (checkFiles .standard Tangled.files).arena.entity? e = some x → ∃ t, x.type = some t) ∧
      (checkFiles .standard Tangled.files).arena.Based ∧
      ∀ t, (checkFiles .standard Tangled.files).arena.baseWithin 2 t =
        (checkFiles .standard Tangled.files).arena.baseType t := by
  obtain ⟨htyped, hbased, hbases⟩ := nothing_left_open Tangled.spec.1
  exact ⟨Tangled.spec, htyped, hbased, fun t => (hbases t).2.2 0⟩

end Statics
