import Statics.Proofs.Validity.Files

/-!
# Programs in valid states

The states of a program are those of its file level, those of its jobs, and the programs that are put together when the
jobs are done. The first two are valid throughout. What is put together has what the passes ended with.
-/

namespace Statics

variable {s t : Pass} {P : Pass → Prop} {id : Nat}

/-! ## What no elementary change touches -/

theorem Store.Step.slabs {s t : Store} (h : s.Step t) : t.current.id = s.current.id ∧ t.frozen = s.frozen := by
  cases h with
  | newType => exact ⟨rfl, rfl⟩
  | newEntity => exact ⟨rfl, rfl⟩
  | _ => simp

theorem Pass.Step.slabs (h : s.Step t) : t.store.current.id = s.store.current.id ∧ t.store.frozen = s.store.frozen := by
  cases h with
  | store h => exact h.slabs
  | _ => exact ⟨rfl, rfl⟩

/-- A pass writes one slab, and the ones below it stay. -/
theorem Pass.Through.slabs (h : s.Through P t) :
    s.Through (fun u => P u ∧ u.store.current.id = s.store.current.id ∧ u.store.frozen = s.store.frozen) t := by
  induction h with
  | here hs => exact .here ⟨hs, rfl, rfl⟩
  | step _ hstep hu ih =>
    obtain ⟨-, hid, hfrozen⟩ := ih.last
    obtain ⟨hid', hfrozen'⟩ := hstep.slabs
    exact .step ih hstep ⟨hu, hid'.trans hid, hfrozen'.trans hfrozen⟩

/-- What every elementary change of a store keeps is kept throughout. -/
theorem Pass.Through.maintain {I : Store → Prop}
    (hI : ∀ {s : Pass} {t : Store}, P s → I s.store → s.store.Step t → I t) (h : s.Through P t) (hs : I s.store) :
    s.Through (fun u => P u ∧ I u.store) t := by
  induction h with
  | here hP => exact .here ⟨hP, hs⟩
  | step _ hstep hP ih =>
    refine .step ih hstep ⟨hP, ?_⟩
    obtain ⟨hlast, hI'⟩ := ih.last
    cases hstep with
    | store hstep => exact hI hlast hI' hstep
    | _ => exact hI'

namespace Program

/-! ## The states of a program -/

section

variable (config : Config) (files : List File)

/-- The state in which the file level starts. -/
def opening : Pass := .start Universe.store [] (.empty config.errorCap)

/-- The state in which the file level ends, or stops. -/
def fileEnd : Pass := (Check.fileLevel config files).after (opening config)

/-- The state in which a job starts. -/
def jobOpening (id : Nat) (shared : Shared) : Pass :=
  .start ⟨.empty id, [(fileEnd config files).store.current]⟩ shared.links shared.collector

/-- The state in which a job ends, or stops. -/
def jobEnd (id : Nat) (shared : Shared) (b : Body) : Pass :=
  (Check.bodyAndNested config b).after (jobOpening config files id shared)

/-- What the jobs found, in order; none run if the file level stopped. -/
def jobResults : List JobResult :=
  let (p, s) := checkFileLevel config files
  if p.stop.isSome then [] else (runJobs config p.arena.slabs 1 s.queue ⟨s.links, s.collector⟩).1

/-- The program with what the first `n` jobs found. -/
def stage (n : Nat) : Program := ((jobResults config files).take n).foldl absorb (checkFileLevel config files).1

/-- Some way of elementary changes goes through the file level, and one through every job, with something holding in all
states of it. -/
structure Throughout (P : Pass → Prop) : Prop where
  fileLevel : (opening config).Through P (fileEnd config files)
  jobs : ∀ id shared, 0 < id → ∀ b ∈ (fileEnd config files).queue,
    (jobOpening config files id shared).Through P (jobEnd config files id shared b)

/-- A state in which a job ends, or stops. -/
def IsJobEnd (s : Pass) : Prop :=
  ∃ id shared, 0 < id ∧ ∃ b ∈ (fileEnd config files).queue, s = jobEnd config files id shared b

end

variable {config : Config} {files : List File}

theorem Throughout.imp {Q : Pass → Prop} (h : Throughout config files P) (hPQ : ∀ s, P s → Q s) :
    Throughout config files Q :=
  ⟨h.fileLevel.imp hPQ, fun id shared hid b hb => (h.jobs id shared hid b hb).imp hPQ⟩

theorem Throughout.jobEnd (h : Throughout config files P) (hs : IsJobEnd config files s) : P s := by
  obtain ⟨id, shared, hid, b, hb, rfl⟩ := hs
  exact (h.jobs id shared hid b hb).last

/-- What every elementary change of a store keeps holds throughout, if it holds of the universe and of a new slab on
top of that of the file level. -/
theorem Throughout.maintain {I : Store → Prop} (h : Throughout config files P)
    (hI : ∀ {s : Pass} {t : Store}, P s → I s.store → s.store.Step t → I t) (hopening : I Universe.store)
    (hjob : ∀ id, 0 < id → I (fileEnd config files).store → I ⟨.empty id, [(fileEnd config files).store.current]⟩) :
    Throughout config files fun s => P s ∧ I s.store := by
  have hstart : (opening config).store = Universe.store := by rw [opening, Pass.start]
  have hfile := h.fileLevel.maintain hI (hstart ▸ hopening)
  exact ⟨hfile, fun id shared hid b hb => (h.jobs id shared hid b hb).maintain hI (hjob id hid hfile.last.2)⟩

theorem checkFileLevel_eq (config : Config) (files : List File) : ∃ stop, checkFileLevel config files =
    (⟨config, (fileEnd config files).store.arena, (fileEnd config files).notes, (fileEnd config files).collector,
      (fileEnd config files).files, (fileEnd config files).imports, stop⟩, fileEnd config files) := by
  refine ⟨((Check.fileLevel config files).outcome (opening config)).1, ?_⟩
  rw [fileEnd, ← Check.outcome_eq_after]
  rfl

/-- The file level is in slab 0, the only one. -/
theorem slabs_fileEnd (config : Config) (files : List File) :
    (fileEnd config files).store.current.id = 0 ∧ (fileEnd config files).store.frozen = [] := by
  have hgrows : Pass.Grows _ (fileEnd config files) := (Check.moves_fileLevel config files).along (opening config)
  have hid := hgrows.store.id
  have hfrozen := hgrows.store.frozen
  simp only [opening, Pass.start, Universe.store_slabs] at hid hfrozen
  exact ⟨hid, hfrozen⟩

theorem arena_fileEnd (config : Config) (files : List File) :
    (fileEnd config files).store.arena = ⟨[(fileEnd config files).store.current]⟩ := by
  rw [Store.arena, (slabs_fileEnd config files).2]

theorem leads_fileEnd (config : Config) (files : List File) : (opening config).Leads (fileEnd config files) :=
  (Check.sound_fileLevel (Pass.valid_start Universe.intact _ _)).1

/-- A job starts with slab 0 below its own. -/
theorem below_jobOpening (config : Config) (files : List File) (hid : 0 < id) :
    ∀ slab ∈ (fileEnd config files).view.arena.slabs, slab.id < id := by
  intro slab hslab
  rw [show (fileEnd config files).view.arena = _ from arena_fileEnd config files] at hslab
  rw [List.mem_singleton.mp hslab, (slabs_fileEnd config files).1]
  exact hid

theorem refines_jobOpening (config : Config) (files : List File) (hid : 0 < id) (shared : Shared) :
    (fileEnd config files).view.Refines (jobOpening config files id shared) ∧
      (jobOpening config files id shared).Valid := by
  have hbelow := below_jobOpening config files hid
  have hend := (leads_fileEnd config files).valid.intact
  have hslabs : (fileEnd config files).view.arena.slabs = [(fileEnd config files).store.current] := by
    rw [show (fileEnd config files).view.arena = _ from arena_fileEnd config files]
  have hrefines := hend.refines_empty hbelow
  have hintact := hend.empty hbelow
  rw [hslabs] at hrefines hintact
  exact ⟨hrefines, Pass.valid_start hintact _ _⟩

theorem leads_jobEnd (hid : 0 < id) (shared : Shared) {b : Body} (hb : b ∈ (fileEnd config files).queue) :
    (jobOpening config files id shared).Leads (jobEnd config files id shared b) := by
  obtain ⟨hrefines, hvalid⟩ := refines_jobOpening config files hid shared
  exact (Check.sound_bodyAndNested (hrefines.body ((leads_fileEnd config files).valid.queue b hb)) hvalid).1

/-- Every state of a program is valid. -/
theorem throughout_valid (config : Config) (files : List File) : Throughout config files Pass.Valid :=
  ⟨(leads_fileEnd config files).through, fun _ shared hid _ hb => (leads_jobEnd hid shared hb).through⟩

/-! ## What jobs hand back -/

/-- What jobs hand back, and the states in which they end, in slabs that are numbered from `id`. -/
inductive JobEnds (config : Config) (files : List File) : Nat → List JobResult → List Pass → Prop where
  | nil {id : Nat} : JobEnds config files id [] []
  | cons {id : Nat} {shared : Shared} {b : Body} {stop : Option TooManyErrors} {s : Pass} {results : List JobResult}
    {passes : List Pass} (queued : b ∈ (fileEnd config files).queue) (ends : s = jobEnd config files id shared b)
    (rest : JobEnds config files (id + 1) results passes) :
    JobEnds config files id (⟨s.store.current, s.notes, stop⟩ :: results) (s :: passes)

theorem jobEnds_runJobs (config : Config) (files : List File) {bs : List Body}
    (hbs : bs ⊆ (fileEnd config files).queue) (id : Nat) (shared : Shared) : ∃ passes,
    JobEnds config files id (runJobs config [(fileEnd config files).store.current] id bs shared).1 passes := by
  induction bs generalizing id shared with
  | nil => exact ⟨[], .nil⟩
  | cons b rest ih =>
    have hb := hbs List.mem_cons_self
    have hafter := Check.outcome_eq_after (Check.bodyAndNested config b) (jobOpening config files id shared)
    unfold runJobs
    dsimp only
    split
    · exact ⟨_, .cons hb hafter .nil⟩
    · obtain ⟨passes, hpasses⟩ := ih (fun b hb => hbs (List.mem_cons_of_mem _ hb)) (id + 1)
        (runJob config [(fileEnd config files).store.current] id b shared).2
      exact ⟨_ :: passes, .cons hb hafter hpasses⟩

namespace JobEnds

variable {id : Nat} {results : List JobResult} {passes : List Pass}

section

variable (h : JobEnds config files id results passes)

include h

theorem take (n : Nat) : JobEnds config files id (results.take n) (passes.take n) := by
  induction h generalizing n with
  | nil =>
    rw [List.take_nil, List.take_nil]
    exact .nil
  | cons queued ends _ ih =>
    cases n with
    | zero => exact .nil
    | succ n => exact .cons queued ends (ih n)

theorem numbered : Pass.Numbered [(fileEnd config files).store.current] id passes := by
  induction h with
  | nil => exact .nil
  | @cons id shared b stop s results passes _ ends _ ih =>
    have hgrows : Pass.Grows _ (jobEnd config files id shared b) :=
      (Check.moves_bodyAndNested config b).along (jobOpening config files id shared)
    rw [← ends] at hgrows
    exact .cons ⟨hgrows.store.id, hgrows.store.frozen⟩ ih

theorem isJobEnd (hid : 0 < id) : ∀ s ∈ passes, IsJobEnd config files s := by
  induction h with
  | nil => exact fun _ h => by cases h
  | cons queued ends _ ih =>
    exact List.forall_mem_cons.mpr ⟨⟨_, _, hid, _, queued, ends⟩, ih (Nat.succ_pos _)⟩

theorem absorb (p : Program) : (results.foldl Program.absorb p).arena =
    passes.foldl (fun a s => a.absorb s.store.current) p.arena ∧ (results.foldl Program.absorb p).notes =
    passes.foldl (fun a s => a.merge s.notes) p.notes ∧ (results.foldl Program.absorb p).files = p.files ∧
    (results.foldl Program.absorb p).imports = p.imports := by
  induction h generalizing p with
  | nil => exact ⟨rfl, rfl, rfl, rfl⟩
  | @cons id shared b stop s results passes _ _ _ ih => exact ih (p.absorb ⟨s.store.current, s.notes, stop⟩)

end

end JobEnds

/-! ## Programs put together -/

/-- A program has what the file level and jobs ended with, the jobs in `passes`. -/
structure Merges (config : Config) (files : List File) (passes : List Pass) (p : Program) : Prop where
  numbered : Pass.Numbered [(fileEnd config files).store.current] 1 passes
  ends : ∀ s ∈ passes, IsJobEnd config files s
  arena : p.arena = passes.foldl (fun a s => a.absorb s.store.current) (fileEnd config files).store.arena
  notes : p.notes = passes.foldl (fun a s => a.merge s.notes) (fileEnd config files).notes
  tables : p.files = (fileEnd config files).files ∧ p.imports = (fileEnd config files).imports

namespace Merges

variable {passes : List Pass} {p : Program}

section

variable (h : Merges config files passes p)

include h

theorem gathers : p.arena.Gathers (((fileEnd config files) :: passes).map fun s => s.store.arena) := by
  have hslabs : ∀ r ∈ (fileEnd config files).store.arena.slabs, r.id < 1 := below_jobOpening config files Nat.one_pos
  rw [h.arena]
  refine h.numbered.gathers (Arena.gathers_self _) hslabs ?_
  rw [← arena_fileEnd]
  exact ⟨fun _ _ h => h, fun _ x h => ⟨x, h, .refl x⟩⟩

/-- What holds throughout holds at the ends. -/
theorem holds_ends (hP : Throughout config files P) : ∀ s ∈ fileEnd config files :: passes, P s :=
  List.forall_mem_cons.mpr ⟨hP.fileLevel.last, fun s hs => hP.jobEnd (h.ends s hs)⟩

theorem extends_ends (hs : s ∈ fileEnd config files :: passes) : s.store.arena.Extends p.arena :=
  h.gathers.toExtends _ (List.mem_map_of_mem (f := fun s => s.store.arena) hs)

/-- An entity of a program is that of a pass, perhaps marked as used. -/
theorem exists_entity {e : EntityId} {y : Entity} (hy : p.arena.entity? e = some y) : ∃ s ∈
    fileEnd config files :: passes, ∃ x, s.store.arena.entity? e = some x ∧ (y = x ∨ y = { x with used := true }) := by
  obtain ⟨a, ha, x, hx⟩ := h.gathers.entities hy
  obtain ⟨s, hs, rfl⟩ := List.mem_map.mp ha
  exact ⟨s, hs, x, hx⟩

/-- A type of a program is that of a pass. -/
theorem exists_type {t : TypeId} {τ : Ty} (hτ : p.arena.type? t = some τ) :
    ∃ s ∈ fileEnd config files :: passes, s.store.arena.type? t = some τ := by
  obtain ⟨a, ha, hsome⟩ := h.gathers.types (Option.isSome_iff_exists.mpr ⟨τ, hτ⟩)
  obtain ⟨s, hs, rfl⟩ := List.mem_map.mp ha
  obtain ⟨σ, hσ⟩ := Option.isSome_iff_exists.mp hsome
  obtain rfl := Option.some.inj (hτ.symm.trans ((h.extends_ends hs).types t σ hσ))
  exact ⟨s, hs, hσ⟩

/-- An entry of a table of a program is one of a pass. -/
theorem exists_entry {α : Type} (table : Annotations → Table α)
    (htable : ∀ a b, table (a.merge b) = (table a).merge (table b)) {q : NodeId × α}
    (hq : q ∈ (table p.notes).entries) : ∃ s ∈ fileEnd config files :: passes, q ∈ (table s.notes).entries := by
  have hmerged (passes : List Pass) (notes : Annotations) :
      q ∈ (table (passes.foldl (fun a s => a.merge s.notes) notes)).entries →
        q ∈ (table notes).entries ∨ ∃ s ∈ passes, q ∈ (table s.notes).entries := by
    induction passes generalizing notes with
    | nil => exact .inl
    | cons s rest ih =>
      intro hmem
      rcases ih (notes.merge s.notes) hmem with hmem | ⟨r, hr, hmem⟩
      · rw [htable] at hmem
        rcases List.mem_append.mp hmem with hmem | hmem
        · exact .inr ⟨s, List.mem_cons_self, hmem⟩
        · exact .inl hmem
      · exact .inr ⟨r, List.mem_cons_of_mem _ hr, hmem⟩
  rw [h.notes] at hq
  rcases hmerged passes _ hq with hq | ⟨s, hs, hq⟩
  · exact ⟨_, List.mem_cons_self, hq⟩
  · exact ⟨s, List.mem_cons_of_mem _ hs, hq⟩

end

end Merges

/-- Jobs are put together with the file level. -/
theorem Merges.absorb {results : List JobResult} {passes : List Pass} {p : Program} (h : Merges config files [] p)
    (hends : JobEnds config files 1 results passes) : Merges config files passes (results.foldl Program.absorb p) := by
  obtain ⟨hmerged, hnotes, hfiles, himports⟩ := hends.absorb p
  refine ⟨hends.numbered, hends.isJobEnd Nat.one_pos, hmerged.trans ?_, hnotes.trans ?_, hfiles.trans h.tables.1,
    himports.trans h.tables.2⟩
  · rw [h.arena]
    rfl
  · rw [h.notes]
    rfl

theorem Merges.warnUnused {passes : List Pass} {p : Program} (h : Merges config files passes p) :
    Merges config files passes p.warnUnused := by
  refine ⟨h.numbered, h.ends, p.arena_warnUnused.trans h.arena, p.notes_warnUnused.trans h.notes, ?_⟩
  unfold Program.warnUnused
  split
  · exact h.tables
  · exact h.tables

theorem merges_checkFileLevel (config : Config) (files : List File) :
    Merges config files [] (checkFileLevel config files).1 := by
  obtain ⟨stop, heq⟩ := checkFileLevel_eq config files
  rw [heq]
  exact ⟨.nil, fun _ h => by (cases h), rfl, rfl, rfl, rfl⟩

theorem jobEnds_jobResults (config : Config) (files : List File) :
    ∃ passes, JobEnds config files 1 (jobResults config files) passes := by
  obtain ⟨stop, heq⟩ := checkFileLevel_eq config files
  unfold jobResults
  rw [heq]
  dsimp only
  split
  · exact ⟨[], .nil⟩
  · rw [arena_fileEnd]
    exact jobEnds_runJobs config files (List.Subset.refl _) 1 _

/-- Every stage of a program is put together so. -/
theorem merges_stage (config : Config) (files : List File) (n : Nat) :
    ∃ passes, Merges config files passes (stage config files n) := by
  obtain ⟨passes, hends⟩ := jobEnds_jobResults config files
  exact ⟨passes.take n, (merges_checkFileLevel config files).absorb (hends.take n)⟩

/-- So is the program that a check ends with. -/
theorem merges_checkFiles (config : Config) (files : List File) :
    ∃ passes, Merges config files passes (checkFiles config files) := by
  obtain ⟨stop, heq⟩ := checkFileLevel_eq config files
  have hfile := merges_checkFileLevel config files
  unfold checkFiles
  rw [heq] at hfile ⊢
  dsimp only
  split
  · exact ⟨[], hfile⟩
  · obtain ⟨passes, hends⟩ := jobEnds_runJobs config files (List.Subset.refl _) 1
      ⟨(fileEnd config files).links, (fileEnd config files).collector⟩
    rw [arena_fileEnd] at hfile ⊢
    generalize runJobs config [(fileEnd config files).store.current] 1 (fileEnd config files).queue
      ⟨(fileEnd config files).links, (fileEnd config files).collector⟩ = jobs at hends ⊢
    -- the collector is none of what is put together
    have hmerges := Merges.absorb (p := ⟨config, ⟨[(fileEnd config files).store.current]⟩, (fileEnd config files).notes,
      jobs.2.collector, (fileEnd config files).files, (fileEnd config files).imports, stop⟩)
      ⟨hfile.numbered, hfile.ends, hfile.arena, hfile.notes, hfile.tables⟩ hends
    split
    · exact ⟨passes, hmerges⟩
    · exact ⟨passes, hmerges.warnUnused⟩

end Program

end Statics
