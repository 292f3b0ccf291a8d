import Statics.Proofs.Accepted
import Statics.Proofs.Worklist.Bodies

/-!
# What a job does

A job depends on the jobs before it only through what all passes share, and it never looks at that: it has one slab,
one set of annotations and one sequence of events to tell, whatever the others did. What its events report depends on
the link names that were claimed before, and only on those that the job claims itself, which are names of procedures
inside its body.
-/

namespace Statics

/-! ## Reports -/

namespace Event

/-- What an event reports, where some link names were claimed before. -/
def reported (links : List (String × Pos)) : Event → List Diagnostic
  | .error token p => [p.error token]
  | .importRepeated token => [Problem.importRepeated.warning token]
  | .claim link _ =>
    match links.lookup link.text with
    | some first => [linkClash link first]
    | none => []

/-- The link names that are claimed after an event. -/
def linked (links : List (String × Pos)) : Event → List (String × Pos)
  | .claim link pos => links ++ [(link.text, pos)]
  | _ => links

/-- The link name that an event claims, if it does. -/
def claimed : Event → List String
  | .claim link _ => [link.text]
  | _ => []

/-- What events report, one after the other. -/
def reports : List (String × Pos) → List Event → List Diagnostic
  | _, [] => []
  | links, event :: rest => event.reported links ++ reports (event.linked links) rest

section

variable {links links' : List (String × Pos)} {event : Event} {events : List Event} {name : String}

theorem reported_congr (h : ∀ name ∈ event.claimed, links.lookup name = links'.lookup name) :
    event.reported links = event.reported links' := by
  cases event with
  | claim link pos => simp only [reported, h link.text (by simp [claimed])]
  | _ => rfl

theorem lookup_linked_congr (h : links.lookup name = links'.lookup name) :
    (event.linked links).lookup name = (event.linked links').lookup name := by
  cases event with
  | claim link pos => simp only [linked, List.lookup_append, h]
  | _ => exact h

/-- Reports depend on nothing but what the claimed names stand for. -/
theorem reports_congr (h : ∀ name ∈ events.flatMap claimed, links.lookup name = links'.lookup name) :
    reports links events = reports links' events := by
  induction events generalizing links links' with
  | nil => rfl
  | cons event rest ih =>
    simp only [List.flatMap_cons, List.forall_mem_append] at h
    rw [reports, reports, reported_congr h.1, ih fun name hname => lookup_linked_congr (h.2 name hname)]

/-- Names that are not claimed stand for what they stood for. -/
theorem lookup_linked (h : name ∉ event.claimed) : (event.linked links).lookup name = links.lookup name := by
  cases event with
  | claim link pos =>
    simp only [claimed, List.mem_singleton] at h
    simp [linked, List.lookup_append, List.lookup_cons, beq_eq_false_iff_ne.mpr h]
  | _ => rfl

theorem lookup_foldl_linked (h : name ∉ events.flatMap claimed) :
    (events.foldl linked links).lookup name = links.lookup name := by
  induction events generalizing links with
  | nil => rfl
  | cons event rest ih =>
    rw [List.flatMap_cons, List.mem_append, not_or] at h
    rw [List.foldl_cons, ih h.2, lookup_linked h.1]

theorem isSome_lookup_linked (h : (links.lookup name).isSome ∨ name ∈ event.claimed) :
    ((event.linked links).lookup name).isSome := by
  cases event with
  | claim link pos =>
    simp only [claimed, List.mem_singleton] at h
    rcases h with h | rfl
    · simp [linked, List.lookup_append, h]
    · simp [linked, List.lookup_append]
  | _ => simpa [linked, claimed] using h

/-- Claimed names are taken afterwards. -/
theorem isSome_lookup_foldl_linked (h : (links.lookup name).isSome ∨ name ∈ events.flatMap claimed) :
    ((events.foldl linked links).lookup name).isSome := by
  induction events generalizing links with
  | nil => simpa using h
  | cons event rest ih =>
    rw [List.flatMap_cons, List.mem_append, ← or_assoc] at h
    rw [List.foldl_cons]
    exact ih (h.imp_left isSome_lookup_linked)

end

end Event

/-- The number of errors among some diagnostics. -/
def errorCount (ds : List Diagnostic) : Nat := ds.countP Diagnostic.isError

theorem errorCount_append (ds ds' : List Diagnostic) : errorCount (ds ++ ds') = errorCount ds + errorCount ds' :=
  List.countP_append

namespace Shared

/-- There is room for some diagnostics. -/
def Fits (h : Shared) (ds : List Diagnostic) : Prop := h.collector.count + errorCount ds ≤ h.collector.cap

instance (h : Shared) (ds : List Diagnostic) : Decidable (h.Fits ds) := inferInstanceAs (Decidable (_ ≤ _))

/-- Tables that took some diagnostics, with room for all of them, and have some link names then. -/
structure Took (h : Shared) (ds : List Diagnostic) (links : List (String × Pos)) (h' : Shared) : Prop where
  links : h'.links = links
  cap : h'.collector.cap = h.collector.cap
  count : h'.collector.count = h.collector.count + errorCount ds
  log : h'.collector.log.map LogEntry.diagnostic = h.collector.log.map LogEntry.diagnostic ++ ds

section

variable {h h' h'' : Shared} {ds ds' : List Diagnostic} {links links' : List (String × Pos)} {events : List Event}

theorem Took.refl (h : Shared) : h.Took [] h.links h := ⟨rfl, rfl, rfl, by simp⟩

theorem Took.trans (hfirst : h.Took ds links h') (hrest : h'.Took ds' links' h'') : h.Took (ds ++ ds') links' h'' where
  links := hrest.links
  cap := hrest.cap.trans hfirst.cap
  count := by rw [hrest.count, hfirst.count, errorCount_append, Nat.add_assoc]
  log := by rw [hrest.log, hfirst.log, List.append_assoc]

theorem Took.fits_iff (htook : h.Took ds links h') : h'.Fits ds' ↔ h.Fits (ds ++ ds') := by
  rw [Fits, Fits, htook.count, htook.cap, errorCount_append, Nat.add_assoc]

theorem Fits.left (hfits : h.Fits (ds ++ ds')) : h.Fits ds := by
  rw [Fits, errorCount_append] at hfits
  rw [Fits]
  omega

theorem fits_nil_iff : h.Fits [] ↔ ¬ h.collector.isFatal := by
  rw [Fits, Collector.isFatal_iff, Nat.not_lt]
  rfl

theorem fits_error_iff {d : Diagnostic} (hd : d.isError) :
    h.Fits [d] ↔ ¬ h.collector.isFatal ∧ ¬ (h.withError d).collector.isFatal := by
  have hone : errorCount [d] = 1 := by simp [errorCount, hd]
  rw [Fits, hone, Collector.isFatal_iff, Collector.isFatal_iff]
  simp only [withError]
  omega

theorem took_withError (h : Shared) {d : Diagnostic} (hd : d.isError) : h.Took [d] h.links (h.withError d) :=
  ⟨rfl, rfl, by simp [errorCount, hd, withError], by simp [withError]⟩

/-- An error is taken if there is room for it, and otherwise there is too much. -/
theorem report_cases (h : Shared) {d : Diagnostic} (hd : d.isError) :
    (h.Fits [d] → ∃ h', h.report d = .ok () h' ∧ h.Took [d] h.links h') ∧
      (¬ h.Fits [d] → (stateOf (h.report d)).collector.isFatal) := by
  rw [fits_error_iff hd]
  by_cases hfatal : h.collector.isFatal
  · refine ⟨fun hroom => absurd hfatal hroom.1, fun _ => ?_⟩
    rw [report_of_fatal hfatal]
    exact hfatal
  · rw [report_of_room hfatal]
    split
    case isTrue hpast => exact ⟨fun hroom => absurd hpast hroom.2, fun _ => hpast⟩
    case isFalse hroom => exact ⟨fun _ => ⟨_, rfl, took_withError h hd⟩, fun hnot => absurd ⟨hfatal, hroom⟩ hnot⟩

/-- An event does not stop if there is room for what it reports, and otherwise there is too much. -/
theorem take_cases (event : Event) (h : Shared) :
    (h.Fits (event.reported h.links) →
        ∃ h', take event h = .ok () h' ∧ h.Took (event.reported h.links) (event.linked h.links) h') ∧
      (¬ h.Fits (event.reported h.links) → (stateOf (take event h)).collector.isFatal) := by
  cases event with
  | error token p => exact report_cases h rfl
  | importRepeated token =>
    have hzero : errorCount [Problem.importRepeated.warning token] = 0 := rfl
    refine ⟨fun _ => ⟨_, rfl, rfl, rfl, by rw [Event.reported, hzero]; rfl, by simp [Event.reported, Collector.warn]⟩,
      fun hnot => ?_⟩
    rw [Fits, Event.reported, hzero] at hnot
    rw [Collector.isFatal_iff]
    simpa [take, stateOf, Collector.warn] using hnot
  | claim link pos =>
    simp only [take, Event.reported, Event.linked]
    cases h.links.lookup link.text with
    | some first =>
      obtain ⟨hfits, hnot⟩ :=
        report_cases (d := linkClash link first) { h with links := h.links ++ [(link.text, pos)] } rfl
      refine ⟨fun hroom => ?_, hnot⟩
      obtain ⟨h', hreport, htook⟩ := hfits hroom
      exact ⟨h', hreport, htook.links, htook.cap, htook.count, htook.log⟩
    | none =>
      refine ⟨fun _ => ⟨_, rfl, rfl, rfl, rfl, by simp⟩, fun hnot => ?_⟩
      rw [fits_nil_iff] at hnot
      simpa [stateOf] using hnot

/-- Where there is room for what events report, they do not stop. -/
theorem takeAll_of_fits (hfits : h.Fits (Event.reports h.links events)) :
    ∃ h', takeAll events h = .ok () h' ∧
    h.Took (Event.reports h.links events) (events.foldl Event.linked h.links) h' := by
  induction events generalizing h with
  | nil => exact ⟨h, rfl, .refl h⟩
  | cons event rest ih =>
    rw [Event.reports] at hfits ⊢
    obtain ⟨h₁, htake, htook⟩ := (take_cases event h).1 hfits.left
    rw [← htook.fits_iff, ← htook.links] at hfits
    obtain ⟨h₂, htakeAll, htookAll⟩ := ih hfits
    refine ⟨h₂, ?_, ?_⟩
    · simp only [takeAll, Bind.bind, EStateM.bind, htake, htakeAll]
    · rw [htook.links] at htookAll
      exact htook.trans htookAll

/-- Where there is no room for what events report, there is too much afterwards. -/
theorem isFatal_of_not_fits (hnot : ¬ h.Fits (Event.reports h.links events)) :
    (stateOf (takeAll events h)).collector.isFatal := by
  induction events generalizing h with
  | nil =>
    rw [Event.reports, fits_nil_iff, Classical.not_not] at hnot
    exact hnot
  | cons event rest ih =>
    rw [Event.reports] at hnot
    simp only [takeAll, Bind.bind, EStateM.bind]
    by_cases hfits : h.Fits (event.reported h.links)
    · obtain ⟨h₁, htake, htook⟩ := (take_cases event h).1 hfits
      rw [← htook.fits_iff, ← htook.links] at hnot
      rw [htake]
      exact ih hnot
    · have hfatal := (take_cases event h).2 hfits
      cases htake : take event h with
      | ok _ h₁ =>
        rw [htake] at hfatal
        exact ((takes_takeAll rest h₁).fatal hfatal).1
      | error stop h₁ =>
        rw [htake] at hfatal
        exact hfatal

end

end Shared

/-! ## Jobs -/

namespace Check

theorem takes_outcome {x : Check Unit} (hx : Traced x) (s : Pass) :
    s.collector.Takes (x.outcome s).2.collector (x.outcome s).1 := by
  have htakes := hx.takes s
  unfold outcome
  cases hs : x s <;> rw [hs] at htakes <;> exact htakes

end Check

section

variable (config : Config) (frozen : List Slab)

theorem takes_runJob (id : Nat) (b : Body) (shared : Shared) :
    shared.collector.Takes (runJob config frozen id b shared).2.collector (runJob config frozen id b shared).1.stop :=
  Check.takes_outcome (Check.moves_bodyAndNested (R := LogGrows) config b).traced
    (.start ⟨.empty id, frozen⟩ shared.links shared.collector)

theorem takes_runJobs (id : Nat) (bs : List Body) (shared : Shared) :
    shared.collector.Takes (runJobs config frozen id bs shared).2.collector
      ((runJobs config frozen id bs shared).1.findSome? JobResult.stop) := by
  induction bs generalizing id shared with
  | nil => exact .refl shared.collector
  | cons b rest ih =>
    have hfirst := takes_runJob config frozen id b shared
    unfold runJobs
    dsimp only
    split
    case isTrue => simpa using hfirst
    case isFalse =>
      have hrest := hfirst.trans (ih (id + 1) (runJob config frozen id b shared).2)
      rw [List.findSome?_cons]
      cases hstop : (runJob config frozen id b shared).1.stop <;> simpa [hstop] using hrest

end

/-- A body with the number of its slab. -/
structure Job where
  body : Body
  id : Nat

/-- What a job comes to, whatever other jobs did: the pass that it leaves and the events that it tells. -/
def Job.Yields (config : Config) (frozen : List Slab) (job : Job) (s : Pass) (events : List Event) : Prop :=
  Check.Tells (Check.bodyAndNested config job.body) (.start ⟨.empty job.id, frozen⟩ [] (.empty 0)) () s events

namespace Job

variable (config : Config) (frozen : List Slab) (job : Job)

/-- Runs a job. -/
def run (h : Shared) : JobResult × Shared := runJob config frozen job.id job.body h

/-- The link names of the procedures inside the body of a job. -/
def linkNames (job : Job) : List String := job.body.block.procs.flatMap ProcDecl.ownLinks

theorem exists_yields : ∃ s events, job.Yields config frozen s events := by
  have htraced := (Check.moves_bodyAndNested (R := LogGrows) config job.body).traced
  obtain ⟨_, s, events, htells⟩ := htraced (.start ⟨.empty job.id, frozen⟩ [] (.empty 0))
  exact ⟨s, events, htells⟩

variable {config frozen job} {s : Pass} {events : List Event} {h : Shared}

theorem start_eq_sharing (job : Job) (h : Shared) :
    Pass.start ⟨.empty job.id, frozen⟩ h.links h.collector =
      (Pass.start ⟨.empty job.id, frozen⟩ [] (.empty 0)).sharing h := rfl

section

variable (hjob : job.Yields config frozen s events)

include hjob

theorem run_of_ok {h' : Shared} (htake : Shared.takeAll events h = .ok () h') :
    job.run config frozen h = (s.result, h') := by
  have hrun := hjob h
  rw [htake] at hrun
  simp only [run, runJob, Check.outcome, start_eq_sharing job h, hrun]
  rfl

theorem run_of_error {h' : Shared} {stop : TooManyErrors} (htake : Shared.takeAll events h = .error stop h') :
    (job.run config frozen h).2 = h' := by
  have hrun := hjob h
  rw [htake] at hrun
  obtain ⟨u, hrun⟩ := hrun
  simp only [run, runJob, Check.outcome, start_eq_sharing job h, hrun]
  rfl

/-- Where there is room for its reports, a job completes. -/
theorem run_of_fits (hfits : h.Fits (Event.reports h.links events)) : ∃ h', job.run config frozen h = (s.result, h') ∧
    h.Took (Event.reports h.links events) (events.foldl Event.linked h.links) h' := by
  obtain ⟨h', htake, htook⟩ := Shared.takeAll_of_fits hfits
  exact ⟨h', run_of_ok hjob htake, htook⟩

/-- Where there is no room for its reports, there is too much after a job. -/
theorem isFatal_run (hnot : ¬ h.Fits (Event.reports h.links events)) :
    (job.run config frozen h).2.collector.isFatal := by
  have hfatal := Shared.isFatal_of_not_fits hnot
  cases htake : Shared.takeAll events h with
  | ok _ h' =>
    rw [htake] at hfatal
    rw [run_of_ok hjob htake]
    exact hfatal
  | error stop h' =>
    rw [htake] at hfatal
    rw [run_of_error hjob htake]
    exact hfatal

/-- A job claims only link names of procedures inside its body. -/
theorem claimed_subset : events.flatMap Event.claimed ⊆ job.linkNames := by
  -- Among no other jobs and with room for all reports, the job takes all names that it claims.
  let h : Shared := ⟨[], .empty (errorCount (Event.reports [] events))⟩
  have hfits : h.Fits (Event.reports h.links events) := by
    show 0 + errorCount (Event.reports [] events) ≤ errorCount (Event.reports [] events)
    omega
  obtain ⟨h', htake, htook⟩ := Shared.takeAll_of_fits hfits
  have hrun := hjob h
  rw [htake] at hrun
  have hroom : ¬ h'.collector.isFatal := by
    rw [Collector.isFatal_iff, htook.count, htook.cap, Nat.not_lt]
    exact hfits
  obtain ⟨-, new, hlinks, hnew⟩ := Check.drained_bodyAndNested hrun hroom (.start _ _ _) rfl
  intro name hname
  have htaken : (h'.links.lookup name).isSome := by
    rw [htook.links]
    exact Event.isSome_lookup_foldl_linked (.inr hname)
  obtain ⟨pos, hpos⟩ := Option.isSome_iff_exists.mp htaken
  obtain ⟨before, after, heq, -⟩ := List.lookup_eq_some_iff.mp hpos
  have hmem : (name, pos) ∈ new := by
    have hsame : h'.links = new := hlinks.trans (List.nil_append new)
    rw [← hsame, heq]
    simp
  exact hnew _ hmem

end

end Job

end Statics
