import Mathlib.Data.List.Nodup
import Statics.Proofs.Worklist.Programs

/-!
# The order of jobs

Jobs may be run in any order, each in the slab that was numbered for it. Procedures have different link names, so no
job claims a name that another one claims, and what a job reports does not depend on which jobs came before it. So all
orders give the same outcomes, as long as the cap is not passed, and the same program once the slabs are put together
by number.
-/

namespace Statics

variable {h : Shared} {job : Job} {id : Nat}

/-! ## Running jobs in some order -/

/-- What a job handed back, and what it reported. -/
structure Job.Outcome where
  id : Nat
  result : JobResult
  reports : List Diagnostic

/-- Runs jobs one after the other. -/
def runInOrder (config : Config) (frozen : List Slab) : List Job → Shared → List Job.Outcome × Shared
  | [], h => ([], h)
  | job :: rest, h =>
    let (result, h') := job.run config frozen h
    let (outcomes, last) := runInOrder config frozen rest h'
    (⟨job.id, result, (h'.collector.log.drop h.collector.log.length).map LogEntry.diagnostic⟩ :: outcomes, last)

/-- The jobs of a pass over the file level, with slabs numbered in the order of its queue. -/
def Pass.jobs (s : Pass) : List Job := (s.queue.zipIdx 1).map fun p => ⟨p.1, p.2⟩

theorem Pass.map_id_jobs (s : Pass) : s.jobs.map Job.id = List.range' 1 s.queue.length := by
  rw [jobs, List.map_map]
  exact List.zipIdx_map_snd 1 s.queue

theorem Shared.Took.reports_eq {h' : Shared} {ds : List Diagnostic} {links : List (String × Pos)}
    (htook : h.Took ds links h') : (h'.collector.log.drop h.collector.log.length).map LogEntry.diagnostic = ds := by
  have hlength : h.collector.log.length = (h.collector.log.map LogEntry.diagnostic).length := by simp
  rw [List.map_drop, htook.log, hlength, List.drop_left]

section

variable {config : Config} {frozen : List Slab} {links : List (String × Pos)} {final : Job → Pass}
  {events : Job → List Event} (hyields : ∀ job : Job, job.Yields config frozen (final job) (events job))

/-- No job claims a link name that a later one claims. -/
def Apart (order : List Job) : Prop := order.Pairwise fun job job' => job.linkNames.Disjoint job'.linkNames

include hyields

/-- After a job, the names of the jobs that it is apart from stand for what they stood for. -/
theorem lookup_after_job {job' : Job} (hapart : job.linkNames.Disjoint job'.linkNames) {name : String}
    (hname : name ∈ job'.linkNames) (table : List (String × Pos)) :
    ((events job).foldl Event.linked table).lookup name = table.lookup name := by
  refine Event.lookup_foldl_linked fun hclaimed => ?_
  exact hapart (Job.claimed_subset (hyields job) hclaimed) hname

theorem agree_after_job {rest : List Job} {h₁ : Shared} (hlinks : h₁.links = (events job).foldl Event.linked h.links)
    (hapart : ∀ job' ∈ rest, job.linkNames.Disjoint job'.linkNames)
    (hagree : ∀ job' ∈ rest, ∀ name ∈ job'.linkNames, h.links.lookup name = links.lookup name) :
    ∀ job' ∈ rest, ∀ name ∈ job'.linkNames, h₁.links.lookup name = links.lookup name := by
  intro job' hjob' name hname
  rw [hlinks, lookup_after_job hyields (hapart job' hjob') hname]
  exact hagree job' hjob' name hname

theorem reports_eq_of_agree (hagree : ∀ name ∈ job.linkNames, h.links.lookup name = links.lookup name) :
    Event.reports h.links (events job) = Event.reports links (events job) :=
  Event.reports_congr fun name hname => hagree name (Job.claimed_subset (hyields job) hname)

/-- Where there is room for the reports of all jobs, each has the same outcome as it would have first. -/
theorem runInOrder_of_fits {order : List Job} (hapart : Apart order)
    (hagree : ∀ job ∈ order, ∀ name ∈ job.linkNames, h.links.lookup name = links.lookup name)
    (hfits : h.Fits (order.flatMap fun job => Event.reports links (events job))) :
    ∃ h' table, runInOrder config frozen order h =
      (order.map fun job => ⟨job.id, (final job).result, Event.reports links (events job)⟩, h') ∧
      h.Took (order.flatMap fun job => Event.reports links (events job)) table h' := by
  induction order generalizing h with
  | nil => exact ⟨h, h.links, rfl, .refl h⟩
  | cons job rest ih =>
    rw [List.flatMap_cons] at hfits ⊢
    obtain ⟨hfirst, hrest⟩ := List.forall_mem_cons.mp hagree
    obtain ⟨hhead, htail⟩ := List.pairwise_cons.mp hapart
    have hsame := reports_eq_of_agree hyields hfirst
    obtain ⟨h₁, hrun, htook⟩ := Job.run_of_fits (hyields job) (hsame ▸ hfits.left)
    rw [hsame] at htook
    have hagree₁ := agree_after_job hyields htook.links hhead hrest
    obtain ⟨h₂, table, hruns, htooks⟩ := ih htail hagree₁ (htook.fits_iff.mpr hfits)
    refine ⟨h₂, table, ?_, htook.trans htooks⟩
    simp only [runInOrder, hrun, hruns, htook.reports_eq, List.map_cons]

omit hyields in
theorem isFatal_runInOrder_of_isFatal (order : List Job) (hfatal : h.collector.isFatal) :
    (runInOrder config frozen order h).2.collector.isFatal := by
  induction order generalizing h with
  | nil => exact hfatal
  | cons job rest ih => exact ih ((takes_runJob config frozen job.id job.body h).fatal hfatal).1

/-- Where there is no room for the reports of all jobs, there is too much after the last one. -/
theorem isFatal_runInOrder {order : List Job} (hapart : Apart order)
    (hagree : ∀ job ∈ order, ∀ name ∈ job.linkNames, h.links.lookup name = links.lookup name)
    (hnot : ¬ h.Fits (order.flatMap fun job => Event.reports links (events job))) :
    (runInOrder config frozen order h).2.collector.isFatal := by
  induction order generalizing h with
  | nil => exact Classical.not_not.mp (mt Shared.fits_nil_iff.mpr hnot)
  | cons job rest ih =>
    rw [List.flatMap_cons] at hnot
    obtain ⟨hfirst, hrest⟩ := List.forall_mem_cons.mp hagree
    obtain ⟨hhead, htail⟩ := List.pairwise_cons.mp hapart
    have hsame := reports_eq_of_agree hyields hfirst
    show (runInOrder config frozen rest (job.run config frozen h).2).2.collector.isFatal
    by_cases hfits : h.Fits (Event.reports h.links (events job))
    · obtain ⟨h₁, hrun, htook⟩ := Job.run_of_fits (hyields job) hfits
      rw [hrun]
      rw [← hsame, ← htook.fits_iff] at hnot
      exact ih htail (agree_after_job hyields htook.links hhead hrest) hnot
    · exact isFatal_runInOrder_of_isFatal rest (Job.isFatal_run (hyields job) hfits)

end

/-! ## Putting outcomes together -/

/-- Adds the outcomes of jobs to a program, by the numbers of their slabs. -/
def Program.assemble (p : Program) (outcomes : List Job.Outcome) : Program :=
  ((outcomes.mergeSort fun o o' => decide (o.id ≤ o'.id)).map Job.Outcome.result).foldl Program.absorb p

/-- Outcomes in another order make the same program, where they have different numbers. -/
theorem Program.assemble_perm (p : Program) {outcomes outcomes' : List Job.Outcome} (hperm : outcomes.Perm outcomes')
    (hids : (outcomes.map Job.Outcome.id).Nodup) : p.assemble outcomes = p.assemble outcomes' := by
  have hsorted (l : List Job.Outcome) :
      (l.mergeSort fun o o' => decide (o.id ≤ o'.id)).Pairwise fun o o' => decide (o.id ≤ o'.id) := by
    refine List.pairwise_mergeSort (fun a b c hab hbc => ?_) (fun a b => ?_) l
    · simp only [decide_eq_true_eq] at hab hbc ⊢
      omega
    · simp only [Bool.or_eq_true, decide_eq_true_eq]
      omega
  have hsort : (outcomes.mergeSort fun o o' => decide (o.id ≤ o'.id)).Perm
      (outcomes'.mergeSort fun o o' => decide (o.id ≤ o'.id)) :=
    ((List.mergeSort_perm _ _).trans hperm).trans (List.mergeSort_perm _ _).symm
  have heq := hsort.eq_of_pairwise (fun a b ha hb hab hba => ?_) (hsorted outcomes) (hsorted outcomes')
  · rw [assemble, assemble, heq]
  · simp only [decide_eq_true_eq] at hab hba
    have ha' := List.mem_mergeSort.mp ha
    have hb' := hperm.symm.subset (List.mem_mergeSort.mp hb)
    exact List.inj_on_of_nodup_map hids ha' hb' (by omega)

/-- Where no job stops, the jobs of a program are run in the order of their numbers. -/
theorem runJobs_eq_runInOrder {config : Config} {frozen : List Slab} {bs : List Body}
    (hstop : ∀ o ∈ (runInOrder config frozen ((bs.zipIdx id).map fun p => ⟨p.1, p.2⟩) h).1, o.result.stop = none) :
    runJobs config frozen id bs h =
      ((runInOrder config frozen ((bs.zipIdx id).map fun p => ⟨p.1, p.2⟩) h).1.map Job.Outcome.result,
      (runInOrder config frozen ((bs.zipIdx id).map fun p => ⟨p.1, p.2⟩) h).2) := by
  induction bs generalizing id h with
  | nil => rfl
  | cons b rest ih =>
    simp only [List.zipIdx_cons, List.map_cons, runInOrder, Job.run, List.forall_mem_cons] at hstop ⊢
    obtain ⟨hfirst, hrest⟩ := hstop
    simp only [runJobs, hfirst, Option.isSome_none, Bool.false_and, Bool.false_eq_true, if_false, ih hrest]

theorem Program.assemble_of_pairwise (p : Program) {outcomes : List Job.Outcome}
    (h : outcomes.Pairwise fun o o' => o.id ≤ o'.id) :
    p.assemble outcomes = (outcomes.map Job.Outcome.result).foldl Program.absorb p := by
  rw [assemble, List.mergeSort_of_pairwise]
  exact h.imp fun hle => decide_eq_true hle

/-- Absorbing a slab only marks the others. -/
theorem Arena.slab?_absorb {a : Arena} {s : Slab} (h : a.slab? id = some s) (r : Slab) :
    ∃ t, (a.absorb r).slab? id = some t ∧ s.Marks t := by
  have hmarks := (a.marks_absorb r).slabs id
  have happend : Arena.slab? ⟨a.slabs ++ [{ r with adopted := [], touched := [] }]⟩ id = some s := by
    rw [slab?, List.find?_append]
    rw [slab?] at h
    rw [h, Option.some_or]
  rw [happend] at hmarks
  generalize (a.absorb r).slab? id = x at hmarks ⊢
  cases hmarks with
  | some hmarks => exact ⟨_, rfl, hmarks⟩

theorem Arena.slab?_foldl_absorb {a : Arena} {s : Slab} (h : a.slab? id = some s) (passes : List Pass) :
    ∃ t, (passes.foldl (fun a s => a.absorb s.store.current) a).slab? id = some t ∧ s.Marks t := by
  induction passes generalizing a s with
  | nil => exact ⟨s, h, .refl s⟩
  | cons pass rest ih =>
    obtain ⟨t, ht, hst⟩ := Arena.slab?_absorb h pass.store.current
    obtain ⟨u, hu, htu⟩ := ih ht
    exact ⟨u, hu, hst.trans htu⟩

/-! ## Link names of a program -/

/-- The link names of all procedures in some files. -/
def linkNames (files : List File) : List String :=
  (files.flatMap fun file => Stmt.procsList file.decls).flatMap ProcDecl.ownLinks

/-- The procedures in bodies of procedures that statements declare are procedures in the statements. -/
theorem sublist_procsList (stmts : List Stmt) :
    (((stmts.flatMap Stmt.ownProcs).filterMap ProcDecl.body).flatMap Block.procs).Sublist (Stmt.procsList stmts) := by
  induction stmts with
  | nil => exact List.nil_sublist _
  | cons s rest ih =>
    rw [List.flatMap_cons, List.filterMap_append, List.flatMap_append, Stmt.procsList]
    refine List.Sublist.append ?_ ih
    unfold Stmt.ownProcs
    split
    case h_1 d =>
      rw [Stmt.procs, Decl.procs_proc]
      refine List.Sublist.cons d ?_
      cases hbody : d.body <;> simp [hbody, Block.procsOption]
    case h_2 => exact List.nil_sublist _

theorem sublist_procs_files (files : List File) :
    (((fileProcs files).filterMap ProcDecl.body).flatMap Block.procs).Sublist
      (files.flatMap fun file => Stmt.procsList file.decls) := by
  induction files with
  | nil => exact List.nil_sublist _
  | cons file rest ih =>
    rw [fileProcs, List.flatMap_cons, List.filterMap_append, List.flatMap_append, List.flatMap_cons]
    exact List.Sublist.append (sublist_procsList file.decls) ih

theorem nodup_flatMap_of_sublist {α β : Type} {f : α → List β} {l l' : List α} (h : l.Sublist l')
    (hnodup : (l'.flatMap f).Nodup) : (l.flatMap f).Nodup := by
  rw [List.nodup_flatMap] at hnodup ⊢
  exact ⟨fun x hx => hnodup.1 x (h.subset hx), hnodup.2.sublist h⟩

theorem sublist_ownBodies (procs : List ProcDecl) :
    (procs.filterMap ProcDecl.ownBody).Sublist (procs.filterMap ProcDecl.body) := by
  have hown : procs.filterMap ProcDecl.ownBody = (procs.filter (!·.tags.foreign)).filterMap ProcDecl.body := by
    rw [List.filterMap_filter]
    refine List.filterMap_congr fun d _ => ?_
    cases hforeign : d.tags.foreign <;> simp [ProcDecl.ownBody, hforeign]
  rw [hown]
  exact List.filter_sublist.filterMap ProcDecl.body

/-- Where all procedures have different link names, the jobs of a program are apart. -/
theorem apart_jobs {config : Config} {files : List File} {s : Pass}
    (hfile : Check.fileLevel config files (Program.opening config) = .ok () s)
    (hlinks : (linkNames files).Nodup) : Apart s.jobs := by
  have hend : Program.fileEnd config files = s := Check.after_of_ok hfile
  have hperm := (Program.perm_queue (hend ▸ hfile)).symm
  rw [hend] at hperm
  have hsub := sublist_ownBodies (fileProcs files)
  have hnodup : ((s.queue.map Body.block).flatMap fun b => b.procs.flatMap ProcDecl.ownLinks).Nodup := by
    have hnames := nodup_flatMap_of_sublist (sublist_procs_files files) hlinks
    rw [List.flatMap_assoc] at hnames
    exact (hperm.flatMap_right _).nodup_iff.mp (nodup_flatMap_of_sublist hsub hnames)
  have hpairwise := (List.nodup_flatMap.mp hnodup).2
  have hblocks : s.queue.map Body.block = s.jobs.map fun job => job.body.block := by
    rw [Pass.jobs, List.map_map]
    show s.queue.map Body.block = (s.queue.zipIdx 1).map (Body.block ∘ Prod.fst)
    rw [← List.map_map, List.zipIdx_map_fst]
  rw [hblocks, List.pairwise_map] at hpairwise
  exact hpairwise

/-! ## Programs -/

/-- Jobs in some order, from where the file level ended. -/
def runOrder (p : Program) (s : Pass) (order : List Job) : List Job.Outcome × Shared :=
  runInOrder p.config p.arena.slabs order s.shared

theorem errorCount_perm {ds ds' : List Diagnostic} (h : ds.Perm ds') : errorCount ds = errorCount ds' := h.countP_eq _

section

variable {config : Config} {files : List File} {p : Program} {s : Pass} (hfile : checkFileLevel config files = (p, s))
  (hstop : p.stop = none)

include hfile

theorem fileLevel_fields : p.config = config ∧ p.arena = s.store.arena ∧ p.notes = s.notes := by
  cases hfile
  exact ⟨rfl, rfl, rfl⟩

include hstop

theorem fileLevel_ok : Check.fileLevel config files (.start Universe.store [] (.empty config.errorCap)) = .ok () s := by
  cases hfile
  exact Check.eq_ok_of_outcome hstop

/-- Every job has an outcome that does not depend on the order, unless the cap is passed. -/
theorem exists_outcomes (hlinks : (linkNames files).Nodup) :
    ∃ (final : Job → Pass) (reports : Job → List Diagnostic), ∀ order : List Job, order.Perm s.jobs →
      if s.shared.Fits (order.flatMap reports) then
        (runOrder p s order).1 = order.map (fun job => ⟨job.id, (final job).result, reports job⟩) ∧
          ∃ table, s.shared.Took (order.flatMap reports) table (runOrder p s order).2
      else (runOrder p s order).2.collector.isFatal := by
  choose final events hyields using Job.exists_yields p.config p.arena.slabs
  refine ⟨final, fun job => Event.reports s.shared.links (events job), fun order horder => ?_⟩
  have hapart : Apart order := by
    refine (horder.pairwise_iff ?_).mpr (apart_jobs (fileLevel_ok hfile hstop) hlinks)
    intro job job' hdisjoint name hname hname'
    exact hdisjoint hname' hname
  split
  case isTrue hfits =>
    obtain ⟨h, table, heq, htook⟩ := runInOrder_of_fits hyields hapart (fun _ _ _ _ => rfl) hfits
    rw [runOrder, heq]
    exact ⟨rfl, table, htook⟩
  case isFalse hnot => exact isFatal_runInOrder hyields hapart (fun _ _ _ _ => rfl) hnot

/-- The program is what its jobs make, in the order of their numbers. -/
theorem checkFiles_eq_of_outcomes {final : Job → Pass} {reports : Job → List Diagnostic}
    (houtcomes : (runOrder p s s.jobs).1 = s.jobs.map fun job => ⟨job.id, (final job).result, reports job⟩) :
    (checkFiles config files).arena = (s.jobs.map final).foldl (fun a s => a.absorb s.store.current) p.arena ∧
      (checkFiles config files).notes = (s.jobs.map final).foldl (fun a s => a.merge s.notes) p.notes ∧
      (checkFiles config files).collector.count = (runOrder p s s.jobs).2.collector.count := by
  have hnone : ∀ o ∈ (runOrder p s s.jobs).1, o.result.stop = none := by
    rw [houtcomes]
    intro o ho
    obtain ⟨job, -, rfl⟩ := List.mem_map.mp ho
    rfl
  have hruns : runJobs p.config p.arena.slabs 1 s.queue s.shared =
      ((s.jobs.map final).map Pass.result, (runOrder p s s.jobs).2) := by
    rw [runJobs_eq_runInOrder hnone]
    refine Prod.ext ?_ rfl
    show (runOrder p s s.jobs).1.map Job.Outcome.result = (s.jobs.map final).map Pass.result
    rw [houtcomes, List.map_map, List.map_map]
    rfl
  obtain ⟨hconfig, harena, hnotes⟩ := fileLevel_fields hfile
  rw [hconfig, harena] at hruns
  have hofJobs : Program.ofJobs config s = ((s.jobs.map final).map Pass.result).foldl Program.absorb
      ⟨config, s.store.arena, s.notes, (runOrder p s s.jobs).2.collector, s.files, s.imports, none⟩ := by
    unfold Program.ofJobs
    rw [show (⟨s.links, s.collector⟩ : Shared) = s.shared from rfl, hruns]
  have hdone : (Program.ofJobs config s).stop = none := by
    rw [hofJobs, Program.stop_absorb]
    refine ⟨rfl, fun r hr => ?_⟩
    obtain ⟨pass, -, rfl⟩ := List.mem_map.mp hr
    rfl
  have heq : checkFiles config files = (Program.ofJobs config s).warnUnused := by
    have houtcome : (Check.fileLevel config files).outcome (.start Universe.store [] (.empty config.errorCap)) =
        (none, s) := by
      rw [Check.outcome, fileLevel_ok hfile hstop]
    rw [Program.checkFiles_eq, houtcome]
    simp [hdone]
  rw [heq, Program.arena_warnUnused, Program.notes_warnUnused, Program.count_warnUnused, hofJobs, Program.arena_absorb,
    Program.notes_absorb, Program.collector_absorb, harena, hnotes]
  exact ⟨rfl, rfl, rfl⟩

/-- Jobs that are run in another order come to the same, where procedures have different link names and the cap is not
passed. Each job has one outcome: its slab, its annotations and its reports. The number of errors is the same, and so
is the program that the outcomes make, which is the one that checking makes. In the slab of the file level, the jobs
only mark entities as used and add children to scopes. -/
theorem body_jobs_independent (hlinks : (linkNames files).Nodup) {order order' : List Job}
    (horder : order.Perm s.jobs) (horder' : order'.Perm s.jobs) (hcap : ¬ (runOrder p s order).2.collector.isFatal) :
    (∃ outcome : Job → Job.Outcome,
        (runOrder p s order).1 = order.map outcome ∧ (runOrder p s order').1 = order'.map outcome) ∧
      (runOrder p s order').2.collector.count = (runOrder p s order).2.collector.count ∧
      p.assemble (runOrder p s order').1 = p.assemble (runOrder p s order).1 ∧
      (checkFiles config files).arena = (p.assemble (runOrder p s order).1).arena ∧
      (checkFiles config files).notes = (p.assemble (runOrder p s order).1).notes ∧
      (checkFiles config files).collector.count = (runOrder p s order).2.collector.count ∧
      ∃ slab, (checkFiles config files).arena.slab? 0 = some slab ∧ s.store.current.Marks slab := by
  obtain ⟨final, reports, houtcomes⟩ := exists_outcomes hfile hstop hlinks
  let outcome (job : Job) : Job.Outcome := ⟨job.id, (final job).result, reports job⟩
  -- There is room in one order, so there is in all of them.
  have hroom : s.shared.Fits (order.flatMap reports) := by
    by_contra hnot
    have hrun := houtcomes order horder
    rw [if_neg hnot] at hrun
    exact hcap hrun
  have hall {order₁ : List Job} (h₁ : order₁.Perm s.jobs) :
      (runOrder p s order₁).1 = order₁.map outcome ∧
        (runOrder p s order₁).2.collector.count = s.collector.count + errorCount (order.flatMap reports) := by
    have hperm : (order₁.flatMap reports).Perm (order.flatMap reports) := (h₁.trans horder.symm).flatMap_right _
    have hfits : s.shared.Fits (order₁.flatMap reports) := by
      rw [Shared.Fits, errorCount_perm hperm]
      exact hroom
    have hrun := houtcomes order₁ h₁
    rw [if_pos hfits] at hrun
    obtain ⟨hout, table, htook⟩ := hrun
    exact ⟨hout, by rw [htook.count, errorCount_perm hperm]; rfl⟩
  have hids : (s.jobs.map Job.id).Nodup := s.map_id_jobs ▸ List.nodup_range'
  have hassemble {order₁ : List Job} (h₁ : order₁.Perm s.jobs) :
      p.assemble (runOrder p s order₁).1 = p.assemble (runOrder p s s.jobs).1 := by
    rw [(hall h₁).1, (hall (.refl _)).1]
    refine p.assemble_perm (h₁.map outcome) ?_
    rw [List.map_map]
    exact (h₁.map Job.id).nodup_iff.mpr hids
  have hprogram : p.assemble (runOrder p s s.jobs).1 = ((s.jobs.map final).map Pass.result).foldl Program.absorb p := by
    rw [(hall (.refl _)).1, p.assemble_of_pairwise]
    · rw [List.map_map, List.map_map]
      rfl
    · have hsorted : (s.jobs.map Job.id).Pairwise (· < ·) := s.map_id_jobs ▸ List.pairwise_lt_range'
      exact List.pairwise_map.mpr ((List.pairwise_map.mp hsorted).imp fun hlt => Nat.le_of_lt hlt)
  obtain ⟨harena, hnotes, hcount⟩ := checkFiles_eq_of_outcomes hfile hstop (hall (.refl _)).1
  refine ⟨⟨outcome, (hall horder).1, (hall horder').1⟩, ?_, ?_, ?_, ?_, ?_, ?_⟩
  · rw [(hall horder').2, (hall horder).2]
  · rw [hassemble horder', hassemble horder]
  · rw [hassemble horder, hprogram, Program.arena_absorb, harena]
  · rw [hassemble horder, hprogram, Program.notes_absorb, hnotes]
  · rw [hcount, (hall (.refl _)).2, (hall horder).2]
  · obtain ⟨hslabs, hid⟩ := Check.slabs_fileLevel (fileLevel_ok hfile hstop)
    rw [harena]
    refine Arena.slab?_foldl_absorb ?_ _
    rw [(fileLevel_fields hfile).2.1, Arena.slab?, hslabs]
    simp [hid]

end

/-! Two bodies with a mistake in each and a procedure inside that has a link name. -/

namespace LinkedInside

open Builder in
/-- A procedure whose body declares a linked procedure and uses a name that nothing declares. -/
def outer (name inside link : String) : Build Stmt := do
  let nested ← plainProc inside [] (some link)
  let mistake := Stmt.expr (← Builder.name "missing")
  plainProc name [nested, mistake] none

open Builder in
/-- One file with two such procedures. -/
def files : List File := single do return [← outer "f" "g" "first", ← outer "h" "g" "second"]

/-- The file level of the file, and the pass over it. -/
def level : Program × Pass := checkFileLevel .standard files

end LinkedInside

open LinkedInside in
theorem body_jobs_independent_linked_inside :
    level.2.jobs.length = 2 ∧ linkNames files = ["first", "second"] ∧
      (runOrder level.1 level.2 level.2.jobs).2.collector.count = 2 ∧
      (runOrder level.1 level.2 level.2.jobs.reverse).2.collector.count = 2 ∧
      level.1.assemble (runOrder level.1 level.2 level.2.jobs.reverse).1 =
        level.1.assemble (runOrder level.1 level.2 level.2.jobs).1 := by
  have hfile : checkFileLevel .standard files = (level.1, level.2) := (Prod.eta level).symm
  have hlinks : linkNames files = ["first", "second"] := by
    decide +kernel
  have hcount : (runOrder level.1 level.2 level.2.jobs).2.collector.count = 2 := by
    decide +kernel
  obtain ⟨-, hsame, hassemble, -⟩ := body_jobs_independent hfile (by decide +kernel) (by rw [hlinks]; decide)
    (.refl _) (List.reverse_perm _) (by decide +kernel)
  exact ⟨by decide +kernel, hlinks, hcount, hsame.trans hcount, hassemble⟩

end Statics
