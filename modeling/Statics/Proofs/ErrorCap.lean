import Statics.Proofs.Jobs

/-!
# The cap on errors

Checking stops for one reason only: an error was taken past the cap. No routine drops that stop. So a program stops
exactly if its collector has too many errors, which is one more than the cap, and otherwise the file level and all
jobs ran to their ends. `Collector.Takes` says this of one run. It is followed here through the jobs and to the
program.
-/

namespace Statics

/-- Warnings of passes are not about imports that nothing uses. -/
theorem Collector.FromPasses.category_ne {c : Collector} (h : c.FromPasses) :
    ∀ d ∈ c.warnings, d.category ≠ .unusedImport := by
  intro d hd
  simp only [warnings, diagnostics, List.mem_filter, List.mem_map, Bool.not_eq_true'] at hd
  obtain ⟨⟨entry, ⟨hentry, -⟩, rfl⟩, hwarning⟩ := hd
  rcases h entry hentry with herror | ⟨token, htoken⟩
  · simp [herror] at hwarning
  · rw [htoken]
    simp [Problem.warning, Diagnostic.about, Problem.category]

/-! ## Jobs -/

/-- Every job completes, with nothing left in its queue. Jobs have slabs that are numbered from `id`, and each takes
over what is shared from the one before it. -/
inductive CompleteJobs (config : Config) (frozen : List Slab) : Nat → List Body → Shared → List Pass → Shared →
    Prop where
  | nil {id : Nat} {h : Shared} : CompleteJobs config frozen id [] h [] h
  | cons {id : Nat} {b : Body} {rest : List Body} {h h' : Shared} {s : Pass} {passes : List Pass}
    (job : Check.bodyAndNested config b (.start ⟨.empty id, frozen⟩ h.links h.collector) = .ok () s)
    (drained : s.queue = []) (jobs : CompleteJobs config frozen (id + 1) rest s.shared passes h') :
    CompleteJobs config frozen id (b :: rest) h (s :: passes) h'

section

variable {config : Config} {frozen : List Slab}

/-- Where no job stops and there is room for errors after the last one, all jobs complete. -/
theorem completeJobs_of_stop {id : Nat} {bs : List Body} {shared : Shared}
    (hstop : ∀ r ∈ (runJobs config frozen id bs shared).1, r.stop = none)
    (hroom : ¬ (runJobs config frozen id bs shared).2.collector.isFatal) :
    ∃ passes, CompleteJobs config frozen id bs shared passes (runJobs config frozen id bs shared).2 ∧
      (runJobs config frozen id bs shared).1 = passes.map Pass.result := by
  induction bs generalizing id shared with
  | nil => exact ⟨[], .nil, rfl⟩
  | cons b rest ih =>
    have hfirst : (runJob config frozen id b shared).1.stop = none := by
      refine hstop _ ?_
      unfold runJobs
      dsimp only
      split <;> simp
    simp only [runJobs, hfirst, Option.isSome_none, Bool.false_and, Bool.false_eq_true, if_false, List.forall_mem_cons]
      at hstop hroom ⊢
    have htakes := takes_runJobs config frozen (id + 1) rest (runJob config frozen id b shared).2
    have hroom' : ¬ (runJob config frozen id b shared).2.collector.isFatal :=
      fun hfatal => hroom (htakes.fatal hfatal).1
    have hrun := Check.eq_ok_of_outcome hfirst
    obtain ⟨hdrained, -⟩ := Check.drained_bodyAndNested hrun hroom' (.start _ _ _) rfl
    obtain ⟨passes, hjobs, hpasses⟩ := ih hstop.2 hroom
    refine ⟨_ :: passes, .cons hrun hdrained hjobs, ?_⟩
    rw [List.map_cons, hpasses]
    congr 1
    simp only [runJob] at hfirst ⊢
    rw [Pass.result, hfirst]

/-- Jobs that complete without an error are clean. -/
theorem CompleteJobs.clean {id : Nat} {bs : List Body} {h h' : Shared} {passes : List Pass}
    (hjobs : CompleteJobs config frozen id bs h passes h') (hcount : h'.collector.count = 0) :
    h.collector.count = 0 ∧ CleanJobs config frozen id bs passes := by
  induction hjobs with
  | nil => exact ⟨hcount, .nil⟩
  | @cons id b rest h h' s passes job _ _ ih =>
    obtain ⟨hs, hrest⟩ := ih hcount
    have hlog : LogGrows (.start ⟨.empty id, frozen⟩ h.links h.collector) s :=
      (Check.moves_bodyAndNested config b).ok job
    have hstart : h.collector.count = 0 := Nat.eq_zero_of_add_eq_zero_right (hlog.count_eq.symm.trans hs)
    have hsilent := Pass.Silent.of_count_eq hlog (hs.trans hstart.symm)
    exact ⟨hstart, .cons ⟨h.links, h.collector, hstart, job, hsilent⟩ hrest⟩

end

/-! ## Programs -/

namespace Program

theorem stop_foldl_absorb (p : Program) (results : List JobResult) :
    (results.foldl absorb p).stop = p.stop.or (results.findSome? JobResult.stop) := by
  induction results generalizing p with
  | nil => simp
  | cons r rest ih =>
    rw [List.foldl_cons, ih, List.findSome?_cons]
    cases hstop : r.stop <;> cases hfirst : p.stop <;> simp [absorb, hstop, hfirst]

theorem stop_warnUnused (p : Program) : p.warnUnused.stop = p.stop := by
  unfold warnUnused
  split <;> rfl

theorem takes_ofJobs (config : Config) (s : Pass) :
    s.collector.Takes (ofJobs config s).collector (ofJobs config s).stop := by
  have htakes := takes_runJobs config s.store.arena.slabs 1 s.queue ⟨s.links, s.collector⟩
  unfold ofJobs
  rw [collector_absorb, stop_foldl_absorb]
  exact htakes

/-- The runs that a program is made of when nothing stops them. -/
structure Completes (config : Config) (files : List File) (s : Pass) (passes : List Pass) : Prop where
  fileLevel : Check.fileLevel config files (.start Universe.store [] (.empty config.errorCap)) = .ok () s
  jobs : ∃ h, CompleteJobs config s.store.arena.slabs 1 s.queue s.shared passes h ∧
    h.collector.count = (checkFiles config files).collector.count
  arena : (checkFiles config files).arena = passes.foldl (fun a s => a.absorb s.store.current) s.store.arena
  notes : (checkFiles config files).notes = passes.foldl (fun a s => a.merge s.notes) s.notes

theorem takes_checkFiles (config : Config) (files : List File) :
    ∃ c, (Collector.empty config.errorCap).Takes c (checkFiles config files).stop ∧
      c.count = (checkFiles config files).collector.count ∧
      ((checkFiles config files).stop.isSome → c = (checkFiles config files).collector) := by
  have hfile := Check.takes_outcome (Check.moves_fileLevel (R := LogGrows) config files).traced
    (.start Universe.store [] (.empty config.errorCap))
  rw [checkFiles_eq]
  dsimp only
  split
  case isTrue => exact ⟨_, hfile, rfl, fun _ => rfl⟩
  case isFalse hstop =>
    rw [Option.not_isSome_iff_eq_none.mp hstop] at hfile
    have hjobs := hfile.trans (takes_ofJobs config _)
    split
    case isTrue => exact ⟨_, hjobs, rfl, fun _ => rfl⟩
    case isFalse hjobstop =>
      refine ⟨_, ?_, (count_warnUnused _).symm, ?_⟩
      · rw [stop_warnUnused]
        exact hjobs
      · rw [stop_warnUnused]
        exact fun h => absurd h hjobstop

theorem completeJobs_ofJobs {config : Config} {s : Pass} (hstop : (ofJobs config s).stop = none)
    (hroom : ¬ (ofJobs config s).collector.isFatal) :
    ∃ passes h, CompleteJobs config s.store.arena.slabs 1 s.queue s.shared passes h ∧
      (ofJobs config s).collector = h.collector ∧
      (ofJobs config s).arena = passes.foldl (fun a s => a.absorb s.store.current) s.store.arena ∧
      (ofJobs config s).notes = passes.foldl (fun a s => a.merge s.notes) s.notes := by
  unfold ofJobs at hstop hroom ⊢
  rw [stop_absorb] at hstop
  rw [collector_absorb] at hroom
  obtain ⟨passes, hjobs, hresults⟩ := completeJobs_of_stop hstop.2 hroom
  refine ⟨passes, _, hjobs, ?_, ?_, ?_⟩
  · rw [collector_absorb]
  · dsimp only
    rw [hresults, arena_absorb]
  · dsimp only
    rw [hresults, notes_absorb]

/-- A program that does not stop is made of runs that complete. -/
theorem completes_of_stop {config : Config} {files : List File} (hstop : (checkFiles config files).stop = none) :
    ∃ s passes, Completes config files s passes := by
  have htakes := Check.takes_outcome (Check.moves_fileLevel (R := LogGrows) config files).traced
    (.start Universe.store [] (.empty config.errorCap))
  have heq := checkFiles_eq config files
  rw [heq] at hstop
  dsimp only at heq hstop
  split at heq
  case isTrue hfile =>
    rw [if_pos hfile] at hstop
    exact absurd hstop (Option.isSome_iff_ne_none.mp hfile)
  case isFalse hfile =>
    rw [if_neg hfile] at hstop
    have hnone := Option.not_isSome_iff_eq_none.mp hfile
    have hrun := Check.eq_ok_of_outcome hnone
    split at heq
    case isTrue hjobs =>
      rw [if_pos hjobs] at hstop
      exact absurd hstop (Option.isSome_iff_ne_none.mp hjobs)
    case isFalse hjobs =>
      have hdone := Option.not_isSome_iff_eq_none.mp hjobs
      rw [hnone] at htakes
      have hroom :=
        (htakes.trans (takes_ofJobs config _)).goes hdone (by simp [Collector.empty, Collector.isFatal, Pass.start])
      obtain ⟨passes, h, hcomplete, hcollector, harena, hnotes⟩ := completeJobs_ofJobs hdone hroom
      refine ⟨_, passes, hrun, ⟨h, hcomplete, ?_⟩, ?_, ?_⟩
      · rw [heq, count_warnUnused, hcollector]
      · rw [heq, arena_warnUnused, harena]
      · rw [heq, notes_warnUnused, hnotes]

/-- An accepted program is made of clean runs. -/
theorem Accepted.runs {config : Config} {files : List File} (h : (checkFiles config files).Accepted) :
    ∃ s passes, Runs config files s passes := by
  obtain ⟨s, passes, hcompletes⟩ := completes_of_stop h.complete
  obtain ⟨shared, hjobs, hcount⟩ := hcompletes.jobs
  obtain ⟨hstart, hclean⟩ := hjobs.clean (hcount.trans h.errors)
  have hsilent := Pass.Silent.of_count_eq ((Check.moves_fileLevel config files).ok hcompletes.fileLevel) hstart
  exact ⟨s, passes, ⟨hcompletes.fileLevel, hsilent⟩, hclean, hcompletes.arena, hcompletes.notes⟩

end Program

/-- Checking stops exactly if the number of errors is past the cap. Then the stop has that number, it is one more than
the cap, and there are no warnings about unused imports. Otherwise the file level and the jobs of all queued bodies
completed, and no job has left a body in its queue. -/
theorem checking_stops_exactly_past_cap (config : Config) (files : List File) :
    ((checkFiles config files).stop.isSome ↔ config.errorCap < (checkFiles config files).collector.count) ∧
    (∀ e, (checkFiles config files).stop = some e →
      e.count = (checkFiles config files).collector.count ∧
      (checkFiles config files).collector.count = config.errorCap + 1 ∧
      ∀ d ∈ (checkFiles config files).collector.warnings, d.category ≠ .unusedImport) ∧
    ((checkFiles config files).stop = none → ∃ s passes, Program.Completes config files s passes) := by
  obtain ⟨c, htakes, hcount, hsame⟩ := Program.takes_checkFiles config files
  have hfatal : c.isFatal ↔ config.errorCap < (checkFiles config files).collector.count := by
    rw [Collector.isFatal, htakes.cap, hcount, decide_eq_true_eq]
    rfl
  have hle : (checkFiles config files).collector.count ≤ config.errorCap + 1 := by
    have hle := htakes.count_le (Nat.zero_le _)
    rw [htakes.cap, hcount] at hle
    exact hle
  refine ⟨⟨fun hstop => ?_, fun hpast => ?_⟩, fun e he => ?_, Program.completes_of_stop⟩
  · obtain ⟨e, he⟩ := Option.isSome_iff_exists.mp hstop
    exact hfatal.mp (htakes.stops e he).1
  · refine Option.isSome_iff_ne_none.mpr fun hnone => ?_
    exact htakes.goes hnone (by simp [Collector.empty, Collector.isFatal]) (hfatal.mpr hpast)
  · obtain ⟨hstop, heq⟩ := htakes.stops e he
    have hpast := hfatal.mp hstop
    have hpasses : c.FromPasses := htakes.fromPasses (by simp [Collector.FromPasses, Collector.empty])
    exact ⟨heq.trans hcount, by omega, hsame (by simp [he]) ▸ hpasses.category_ne⟩

end Statics
