import Statics.Proofs.Worklist.Rounds

/-!
# Every body is checked once

The file level queues the bodies of the procedures that the files declare, and each of them gets a job with a slab of
its own. The job checks the bodies that are nested in it after it. `checkedBodies` runs the jobs of a program and
lists what they check, and `each_body_checked_once` says that, where the check is not cut short, this has the body of
every procedure that is declared at file level or reached in a body exactly once, without those of foreign procedures.
-/

namespace Statics

/-! ## The file level -/

namespace Check

/-- The file level keeps a declaration for every procedure of the files, each for an entity of its own. -/
theorem decls_fileLevel {config : Config} {files : List File} {collector : Collector} {t : Pass}
    (h : fileLevel config files (.start Universe.store [] collector) = .ok () t) :
    (t.decls.map Prod.fst).Nodup ∧ (procsOf t.decls).Perm (fileProcs files) := by
  obtain ⟨_, s₁, hopen, h⟩ := bind_eq_ok.mp h
  obtain ⟨es, s₂, hcollect, h⟩ := bind_eq_ok.mp h
  obtain ⟨_, s₃, hresolve, h⟩ := bind_eq_ok.mp h
  have hopened : Lists [] _ s₁ := (moves_openFiles files).ok hopen
  obtain ⟨new, hnew, hprocs, -⟩ := registered_collectFiles hcollect (lookup_openFiles hopen).1
  have hresolved : Lists [] s₂ s₃ := moves_resolveFiles.ok hresolve
  have hlists := (hopened.later hnew).still hresolved
  have hturn (turn : Turn) : Moves Advances (demandTurn (Context.outer config .global) turn es) :=
    moves_demandTurnOf (moves_demand _)
  have hrest : Moves Advances (do
      demandTurn (Context.outer config .global) .types es
      demandTurn (Context.outer config .global) .constants es
      demandTurn (Context.outer config .global) .procedures es
      demandTurn (Context.outer config .global) .vars es
      entryPoint config files) :=
    moves_bind (hturn .types) fun _ => moves_bind (hturn .constants) fun _ =>
      moves_bind (hturn .procedures) fun _ => moves_bind (hturn .vars) fun _ => moves_entryPoint
  have hdecls : t.decls = new := by
    rw [(hrest.ok h).decls, hlists.decls]
    exact List.append_nil new
  rw [hdecls]
  exact ⟨hlists.keys, hprocs⟩

end Check

namespace Program

variable {config : Config} {files : List File}
  (h : Check.fileLevel config files (opening config) = .ok () (fileEnd config files))

include h

/-- The file level queues the body and claims the link name of every procedure of the files, once. -/
theorem tasks_fileEnd :
    ∃ entries : List (EntityId × ProcDecl), (entries.map Prod.snd).Perm (fileProcs files) ∧
      (fileEnd config files).queue.map Body.task = tasksOf entries ∧
      (fileEnd config files).links = claimsOf (entries.map Prod.snd) := by
  have hworks : Check.Moves Works (Check.fileLevel config files) := Check.moves_fileLevel config files
  obtain ⟨pending, hpending, hexecutes⟩ := hworks.ok h
  obtain ⟨done, hdone, hperforms⟩ := hexecutes.done (room_fileLevel h)
  obtain ⟨hkeys, hprocs⟩ := Check.decls_fileLevel h
  obtain ⟨hdeclared, hcomplete⟩ := complete_fileLevel h
  have hperm := hperforms.perm_procEntries (List.Subset.trans hdone hpending) (List.append_nil _).symm
    (Pass.journaled_start Universe.store [] (.empty config.errorCap)).2 (journaled_end (.inl rfl)).2 hkeys
    (by simp [opening, Pass.start, procEntries]) fun p hp => ?_
  · refine ⟨procEntries done, ?_, by simpa [opening, Pass.start] using hperforms.tasks, ?_⟩
    · have hall := (map_snd_procEntries (fileEnd config files).decls).symm ▸ hprocs
      exact (hperm.map Prod.snd).trans hall
    · rw [map_snd_procEntries]
      simpa [opening, Pass.start] using hperforms.links
  · obtain ⟨scope, hmem⟩ := mem_procEntries.mp hp
    obtain ⟨x, hx, -⟩ := (hdeclared _ hmem).own.entity
    rw [Arena.entity_eq hx, Option.isSome_iff_ne_none]
    exact fun hnone => hcomplete.typed p.1 ⟨x, hx, hnone⟩

/-- The queue of the file level has the bodies of the procedures of the files, each once. -/
theorem perm_queue :
    ((fileEnd config files).queue.map Body.block).Perm ((fileProcs files).filterMap ProcDecl.ownBody) := by
  obtain ⟨entries, hprocs, hqueue, -⟩ := tasks_fileEnd h
  have hblocks : ((fileEnd config files).queue.map Body.task).map Prod.snd =
      (entries.map Prod.snd).filterMap ProcDecl.ownBody := by
    rw [hqueue, map_snd_tasksOf]
  rw [List.map_map] at hblocks
  exact .trans (.of_eq hblocks) (hprocs.filterMap _)

end Program

/-! ## Jobs -/

/-- Runs a job, and lists the bodies that it checks, in their order. Nothing is listed for a job that stops. -/
def jobLog (config : Config) (frozen : List Slab) (id : Nat) (b : Body) (shared : Shared) : List Body × Shared :=
  match Check.bodyLog config b (.start ⟨.empty id, frozen⟩ shared.links shared.collector) with
  | .ok log s => (log, s.shared)
  | .error _ s => ([], s.shared)

/-- Runs jobs in slabs numbered from `id`, and lists the slabs and what is checked in each. -/
def jobLogs (config : Config) (frozen : List Slab) : Nat → List Body → Shared → List (Nat × List Body)
  | _, [], _ => []
  | id, b :: rest, shared =>
    let run := jobLog config frozen id b shared
    (id, run.1) :: jobLogs config frozen (id + 1) rest run.2

/-- The bodies that the jobs of a program check. -/
def checkedBodies (config : Config) (files : List File) : List (Nat × List Body) :=
  let s := Program.fileEnd config files
  jobLogs config s.store.arena.slabs 1 s.queue s.shared

/-- A job ran in a slab, checked some bodies and ended in `t`. It checked its own body first and then exactly those
that are nested in it, whose procedures it keeps in the same slab. Nothing was left to be checked, so that further
rounds would not have changed anything. -/
structure JobRan (config : Config) (frozen : List Slab) (run : Nat × List Body) (t : Pass) : Prop where
  ran : ∃ (b : Body) (rest : List Body) (shared : Shared), run.2 = b :: rest ∧
    Check.bodyLog config b (.start ⟨.empty run.1, frozen⟩ shared.links shared.collector) = .ok run.2 t ∧
    (rest.map Body.block).Perm (b.block.nested.filterMap ProcDecl.ownBody) ∧
    (∀ c ∈ rest, c.entity.slab = run.1) ∧
    ∀ more, (do Check.body config b; Check.drain config (b.block.nesting + more))
      (.start ⟨.empty run.1, frozen⟩ shared.links shared.collector) = .ok () t
  slab : t.store.current.id = run.1
  drained : t.queue = []

theorem JobRan.perm {config : Config} {frozen : List Slab} {run : Nat × List Body} {t : Pass} {b : Body}
    (h : JobRan config frozen run t) (hb : run.2.head? = some b) : (run.2.map Body.block).Perm b.block.withNested := by
  obtain ⟨b', rest, -, hlog, -, hnested, -⟩ := h.ran
  rw [hlog, List.head?_cons, Option.some.injEq] at hb
  rw [hlog, hb, List.map_cons, Block.withNested]
  exact (hb ▸ hnested).cons b.block

namespace CompleteJobs

variable {config : Config} {frozen : List Slab} {id : Nat} {bs : List Body} {h h' : Shared} {passes : List Pass}

theorem ran_bodyLog {b : Body} {s : Pass} {log : List Body}
    (hlog : Check.bodyLog config b (.start ⟨.empty id, frozen⟩ h.links h.collector) = .ok log s)
    (hroom : ¬ h.collector.isFatal) : log.head? = some b ∧ JobRan config frozen (id, log) s := by
  have hjournaled := (Pass.journaled_start ⟨.empty id, frozen⟩ h.links h.collector).2
  obtain ⟨rest, rfl, hqueue, hblocks, hslabs, -⟩ := Check.bodyLog_spec hlog hroom (.start _ _ _) hjournaled rfl
  have hjob : Check.bodyAndNested config b (.start ⟨.empty id, frozen⟩ h.links h.collector) = .ok () s := by
    rw [← Check.map_bodyLog]
    exact Check.bind_eq_ok.mpr ⟨_, s, hlog, rfl⟩
  have hgrows : Pass.Grows _ s := (Check.moves_bodyAndNested config b).ok hjob
  refine ⟨rfl, ⟨b, rest, h, rfl, hlog, hblocks, hslabs, fun more => ?_⟩, hgrows.store.id, hqueue⟩
  obtain ⟨_, u, hbody, hdrain⟩ := Check.bind_eq_ok.mp hjob
  rw [Check.drain_add]
  exact Check.bind_eq_ok.mpr ⟨(), u, hbody,
    Check.bind_eq_ok.mpr ⟨(), s, hdrain, Check.drain_of_queue_eq_nil hqueue more⟩⟩

/-- Jobs that complete are listed with what they check, in the order of their bodies. -/
theorem jobLogs_spec (hjobs : CompleteJobs config frozen id bs h passes h') (hroom : ¬ h.collector.isFatal) :
    List.Forall₂ (JobRan config frozen) (jobLogs config frozen id bs h) passes ∧
      (jobLogs config frozen id bs h).map (fun run => (run.2.head?, run.1)) = (bs.map some).zipIdx id ∧
      (((jobLogs config frozen id bs h).flatMap Prod.snd).map Body.block).Perm
        ((bs.map Body.block).flatMap Block.withNested) := by
  induction hjobs with
  | nil => exact ⟨.nil, rfl, .nil⟩
  | @cons id b rest h h' s passes job _ _ ih =>
    have hjob := job
    rw [← Check.map_bodyLog] at hjob
    obtain ⟨log, s', hlog, hdone⟩ := Check.bind_eq_ok.mp hjob
    cases hdone
    obtain ⟨hhead, hran⟩ := ran_bodyLog hlog hroom
    have hroom' := (Check.moves_bodyAndNested (R := LogGrows) config b).traced.room job hroom
    obtain ⟨hrest, hheads, hblocks⟩ := ih hroom'
    have hcons :
      jobLogs config frozen id (b :: rest) h = (id, log) :: jobLogs config frozen (id + 1) rest s.shared := by
      have hfirst : jobLog config frozen id b h = (log, s.shared) := by
        delta jobLog
        rw [hlog]
      rw [jobLogs, hfirst]
    rw [hcons]
    refine ⟨.cons hran hrest, by rw [List.map_cons, hheads, hhead, List.map_cons, List.zipIdx_cons], ?_⟩
    rw [List.flatMap_cons, List.map_append, List.map_cons, List.flatMap_cons]
    exact (hran.perm hhead).append hblocks

end CompleteJobs

/-- Every procedure body is checked exactly once: where the check of a program is not cut short, the bodies that its
jobs check are those of the procedures that are not foreign and are declared at file level or reached in such a body,
each once.

Each body that the file level queued has a job, in the order of the queue and in the slabs `1, 2, …`. It checks its
body first and then those nested in it, in its slab, until nothing is queued any more. These are the jobs the program
consists of. -/
theorem each_body_checked_once {config : Config} {files : List File} (h : (checkFiles config files).stop = none) :
    (((checkedBodies config files).flatMap Prod.snd).map Body.block).Perm
        (((fileProcs files).flatMap ProcDecl.withNested).filterMap ProcDecl.ownBody) ∧
      ((Program.fileEnd config files).queue.map Body.block).Perm ((fileProcs files).filterMap ProcDecl.ownBody) ∧
      (checkedBodies config files).map (fun run => (run.2.head?, run.1)) =
        ((Program.fileEnd config files).queue.map some).zipIdx 1 ∧
      ∃ passes, Program.Completes config files (Program.fileEnd config files) passes ∧
        List.Forall₂ (JobRan config (Program.fileEnd config files).store.arena.slabs) (checkedBodies config files)
          passes := by
  obtain ⟨s, passes, hcompletes⟩ := Program.completes_of_stop h
  obtain ⟨rfl, -⟩ := hcompletes.merges
  obtain ⟨h', hjobs, -⟩ := hcompletes.jobs
  obtain ⟨hran, hheads, hblocks⟩ := hjobs.jobLogs_spec (Program.room_fileLevel hcompletes.fileLevel)
  have hqueue := Program.perm_queue hcompletes.fileLevel
  refine ⟨?_, hqueue, hheads, passes, hcompletes, hran⟩
  rw [filterMap_withNested]
  exact hblocks.trans (hqueue.flatMap_right _)

namespace Housing

open Builder in
/-- One file with a procedure in a procedure in a procedure, one beside them, and a foreign one. -/
def files : List File := single do
  let innermost ← plainProc "innermost" [] none
  let inner ← plainProc "inner" [innermost] none
  let outer ← plainProc "outer" [inner] none
  let foreign ← procDecl "foreign" (← signature [] []) none ⟨true, false, false⟩ none none
  let beside ← plainProc "beside" [] none
  return [outer, foreign, beside]

end Housing

theorem each_body_checked_once_housing :
    ((checkFiles .standard Housing.files).stop = none ∧ (checkFiles .standard Housing.files).collector.count = 0) ∧
      ((fileProcs Housing.files).flatMap ProcDecl.withNested).length = 5 ∧
      (checkedBodies .standard Housing.files).map (fun run => (run.1, run.2.length)) = [(1, 3), (2, 1)] ∧
      (((checkedBodies .standard Housing.files).flatMap Prod.snd).map Body.block).Perm
        (((fileProcs Housing.files).flatMap ProcDecl.withNested).filterMap ProcDecl.ownBody) := by
  have hstop : (checkFiles .standard Housing.files).stop = none ∧
      (checkFiles .standard Housing.files).collector.count = 0 := by
    decide +kernel
  exact ⟨hstop, by decide +kernel, by decide +kernel, (each_body_checked_once hstop.1).1⟩

end Statics
