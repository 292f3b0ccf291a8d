import Statics.Listing
import Statics.Proofs.ErrorCap
import Statics.Source.Builder

/-!
# A smaller cap cuts a check off

No step of checking knows the cap: it tells its events and goes on where the collector lets it. So two checks of the
same files under two caps tell the same events until the smaller cap is passed. What one of them logged by then is the
beginning of what the other one logs, and where the smaller cap is never passed the two cannot be told apart.

The comparison starts with a single event, goes on to a sequence of events and so to a step that tells them, and is
followed through the jobs to the program.
-/

namespace Statics

/-- The same collector under another cap. -/
def Collector.withCap (c : Collector) (cap : Nat) : Collector := { c with cap := cap }

/-- The same tables under another cap. -/
def Shared.withCap (h : Shared) (cap : Nat) : Shared := { h with collector := h.collector.withCap cap }

/-- The same pass under another cap. -/
def Pass.withCap (s : Pass) (cap : Nat) : Pass := { s with collector := s.collector.withCap cap }

/-- The same settings with another cap. -/
def Config.withCap (config : Config) (cap : Nat) : Config := { config with errorCap := cap }

/-! ## Events -/

namespace Shared

variable {h : Shared} {cap : Nat}

/-- One outcome is another one that a smaller cap cuts off: what completes under it completes in the same way under
`cap`, and what it stops has logged the beginning of the other log. -/
def CutOff (cap : Nat) (r r' : EStateM.Result TooManyErrors Shared Unit) : Prop :=
  match r with
  | .ok _ h => r' = .ok () (h.withCap cap)
  | .error _ h => h.collector.log <+: (stateOf r').collector.log

theorem log_report (h : Shared) (d : Diagnostic) : h.collector.log <+: (stateOf (h.report d)).collector.log := by
  by_cases hfatal : h.collector.isFatal
  · rw [report_of_fatal hfatal]
    exact List.prefix_refl _
  · rw [report_of_room hfatal]
    split <;> exact List.prefix_append ..

theorem log_take (event : Event) (h : Shared) : h.collector.log <+: (stateOf (take event h)).collector.log := by
  cases event with
  | error token p => exact log_report h _
  | importRepeated token => exact List.prefix_append ..
  | claim link pos =>
    simp only [take]
    split
    · exact log_report { h with links := h.links ++ [(link.text, pos)] } _
    · exact List.prefix_refl _

theorem log_takeAll (events : List Event) (h : Shared) :
    h.collector.log <+: (stateOf (takeAll events h)).collector.log := by
  induction events generalizing h with
  | nil => exact List.prefix_refl _
  | cons event rest ih =>
    have hfirst := log_take event h
    simp only [takeAll, Bind.bind, EStateM.bind]
    cases htake : take event h with
    | ok _ h' =>
      rw [htake] at hfirst
      exact hfirst.trans (ih h')
    | error stop h' =>
      rw [htake] at hfirst
      exact hfirst

theorem cutOff_report (hcap : h.collector.cap ≤ cap) (d : Diagnostic) :
    CutOff cap (h.report d) ((h.withCap cap).report d) := by
  by_cases hfatal : h.collector.isFatal
  · rw [report_of_fatal hfatal]
    exact log_report (h.withCap cap) d
  · have hroom : ¬ (h.withCap cap).collector.isFatal := by
      rw [Collector.isFatal_iff] at hfatal ⊢
      show ¬ cap < h.collector.count
      omega
    rw [report_of_room hfatal, report_of_room hroom]
    split
    case isTrue =>
      -- The smaller cap is passed. The entry that passes it is logged in either case.
      show (h.withError d).collector.log <+: _
      split <;> exact List.prefix_refl _
    case isFalse hroom' =>
      have hnext : ¬ ((h.withCap cap).withError d).collector.isFatal := by
        rw [Collector.isFatal_iff] at hroom' ⊢
        simp only [withError] at hroom' ⊢
        show ¬ cap < h.collector.count + 1
        omega
      rw [if_neg hnext]
      rfl

theorem cutOff_take (hcap : h.collector.cap ≤ cap) (event : Event) :
    CutOff cap (take event h) (take event (h.withCap cap)) := by
  cases event with
  | error token p => exact cutOff_report hcap _
  | importRepeated token => rfl
  | claim link pos =>
    simp only [take]
    rw [show (h.withCap cap).links = h.links from rfl]
    cases h.links.lookup link.text with
    | some first => exact cutOff_report (h := { h with links := h.links ++ [(link.text, pos)] }) hcap _
    | none => rfl

/-- A smaller cap only cuts a sequence of events off. -/
theorem cutOff_takeAll (hcap : h.collector.cap ≤ cap) (events : List Event) :
    CutOff cap (takeAll events h) (takeAll events (h.withCap cap)) := by
  induction events generalizing h with
  | nil => rfl
  | cons event rest ih =>
    have hfirst := cutOff_take hcap event
    have htakes := takes_take event h
    simp only [takeAll, Bind.bind, EStateM.bind]
    cases htake : take event h with
    | ok _ h' =>
      rw [htake] at hfirst htakes
      rw [show take event (h.withCap cap) = .ok () (h'.withCap cap) from hfirst]
      exact ih (htakes.cap.symm ▸ hcap)
    | error stop h' =>
      rw [htake] at hfirst
      -- Under the larger cap the events that follow only add to the log.
      show h'.collector.log <+: _
      refine List.IsPrefix.trans hfirst ?_
      cases take event (h.withCap cap) with
      | ok _ h'' => exact log_takeAll rest h''
      | error stop' h'' => exact List.prefix_refl _

end Shared

/-! ## Steps -/

namespace Check

variable {α : Type} {x : Check α} {s t : Pass} {cap : Nat}

theorem Traced.ok_withCap (hx : Traced x) (hcap : s.collector.cap ≤ cap) {a : α} (h : x s = .ok a t) :
    x (s.withCap cap) = .ok a (t.withCap cap) := by
  obtain ⟨b, u, events, htells⟩ := hx s
  have hcut := Shared.cutOff_takeAll (h := s.shared) hcap events
  have hrun := htells s.shared
  have hrun' := htells (s.shared.withCap cap)
  rw [Pass.sharing_shared, h] at hrun
  cases htake : Shared.takeAll events s.shared with
  | ok _ shared =>
    rw [htake] at hcut hrun
    rw [show Shared.takeAll events (s.shared.withCap cap) = .ok () (shared.withCap cap) from hcut] at hrun'
    cases hrun
    exact hrun'
  | error stop shared =>
    rw [htake] at hrun
    obtain ⟨v, hv⟩ := hrun
    cases hv

theorem Traced.log_withCap (hx : Traced x) (hcap : s.collector.cap ≤ cap) :
    (stateOf (x s)).collector.log <+: (stateOf (x (s.withCap cap))).collector.log := by
  obtain ⟨b, u, events, htells⟩ := hx s
  have hlog (h : Shared) : (stateOf (x (s.sharing h))).collector.log =
      (stateOf (Shared.takeAll events h)).collector.log := by
    have hrun := htells h
    cases htake : Shared.takeAll events h with
    | ok _ h' =>
      rw [htake] at hrun
      rw [hrun]
      rfl
    | error stop h' =>
      rw [htake] at hrun
      obtain ⟨v, hv⟩ := hrun
      rw [hv]
      rfl
  have hcut := Shared.cutOff_takeAll (h := s.shared) hcap events
  have hleft := hlog s.shared
  have hright := hlog (s.shared.withCap cap)
  rw [Pass.sharing_shared] at hleft
  rw [show s.withCap cap = s.sharing (s.shared.withCap cap) from rfl, hleft, hright]
  cases htake : Shared.takeAll events s.shared with
  | ok _ h' =>
    rw [htake] at hcut
    rw [show Shared.takeAll events (s.shared.withCap cap) = .ok () (h'.withCap cap) from hcut]
    exact List.prefix_refl _
  | error stop h' =>
    rw [htake] at hcut
    exact hcut

theorem outcome_snd {x : Check Unit} (s : Pass) : (x.outcome s).2 = stateOf (x s) := by
  unfold outcome
  cases x s <;> rfl

end Check

/-! ## Jobs -/

section

variable {config : Config} {frozen : List Slab} {h : Shared} {cap : Nat}

theorem runJob_withCap (hcap : h.collector.cap ≤ cap) {id : Nat} {b : Body}
    (hstop : (runJob config frozen id b h).1.stop = none) :
    runJob config frozen id b (h.withCap cap) =
      ((runJob config frozen id b h).1, (runJob config frozen id b h).2.withCap cap) := by
  have htraced := (Check.moves_bodyAndNested (R := LogGrows) config b).traced
  have hrun := Check.eq_ok_of_outcome hstop
  have hrun' := htraced.ok_withCap (s := .start ⟨.empty id, frozen⟩ h.links h.collector) hcap hrun
  simp only [runJob] at hstop ⊢
  rw [hstop]
  simp only [Check.outcome]
  rw [show Pass.start ⟨.empty id, frozen⟩ (h.withCap cap).links (h.withCap cap).collector =
    (Pass.start ⟨.empty id, frozen⟩ h.links h.collector).withCap cap from rfl, hrun']
  rfl

theorem log_runJob_withCap (config : Config) (frozen : List Slab) (hcap : h.collector.cap ≤ cap) (id : Nat) (b : Body) :
    (runJob config frozen id b h).2.collector.log <+:
      (runJob config frozen id b (h.withCap cap)).2.collector.log := by
  have htraced := (Check.moves_bodyAndNested (R := LogGrows) config b).traced
  have hlog := htraced.log_withCap (s := .start ⟨.empty id, frozen⟩ h.links h.collector) hcap
  simp only [runJob, Check.outcome_snd]
  exact hlog

theorem log_runJob (config : Config) (frozen : List Slab) (id : Nat) (b : Body) (h : Shared) :
    h.collector.log <+: (runJob config frozen id b h).2.collector.log := by
  have hgrows : LogGrows (.start ⟨.empty id, frozen⟩ h.links h.collector) _ :=
    (Check.moves_bodyAndNested config b).along _
  rw [← Check.outcome_eq_after] at hgrows
  obtain ⟨new, hnew, -⟩ := hgrows
  exact ⟨new, hnew.symm⟩

theorem log_runJobs (id : Nat) (bs : List Body) (h : Shared) :
    h.collector.log <+: (runJobs config frozen id bs h).2.collector.log := by
  induction bs generalizing id h with
  | nil => exact List.prefix_refl _
  | cons b rest ih =>
    have hfirst := log_runJob config frozen id b h
    unfold runJobs
    dsimp only
    split
    · exact hfirst
    · exact hfirst.trans (ih (id + 1) _)

theorem runJobs_withCap (hcap : h.collector.cap ≤ cap) {id : Nat} {bs : List Body}
    (hstop : ∀ r ∈ (runJobs config frozen id bs h).1, r.stop = none) :
    runJobs config frozen id bs (h.withCap cap) =
      ((runJobs config frozen id bs h).1, (runJobs config frozen id bs h).2.withCap cap) := by
  induction bs generalizing id h with
  | nil => rfl
  | cons b rest ih =>
    have hfirst : (runJob config frozen id b h).1.stop = none := by
      refine hstop _ ?_
      unfold runJobs
      dsimp only
      split <;> simp
    have htakes := takes_runJob config frozen id b h
    simp only [runJobs, runJob_withCap hcap hfirst, hfirst, Option.isSome_none, Bool.false_and, Bool.false_eq_true,
      if_false, List.forall_mem_cons] at hstop ⊢
    rw [ih (htakes.cap.symm ▸ hcap) hstop.2]

/-- Jobs that are run one after the other log the beginning of what they log under a larger cap. -/
theorem log_runJobs_withCap (hseq : config.parallel = false) (hcap : h.collector.cap ≤ cap) (id : Nat)
    (bs : List Body) :
    (runJobs config frozen id bs h).2.collector.log <+:
      (runJobs config frozen id bs (h.withCap cap)).2.collector.log := by
  induction bs generalizing id h with
  | nil => exact List.prefix_refl _
  | cons b rest ih =>
    cases hstop : (runJob config frozen id b h).1.stop with
    | none =>
      have htakes := takes_runJob config frozen id b h
      simp only [runJobs, runJob_withCap hcap hstop, hstop, Option.isSome_none, Bool.false_and, Bool.false_eq_true,
        if_false]
      exact ih (htakes.cap.symm ▸ hcap) (id + 1)
    | some stop =>
      -- The smaller cap is passed in this job, so the ones that follow it are run under the larger cap at most.
      have hlog := log_runJob_withCap config frozen hcap id b
      have hleft : (runJobs config frozen id (b :: rest) h).2 = (runJob config frozen id b h).2 := by
        simp only [runJobs, hstop, hseq, Option.isSome_some, Bool.not_false, Bool.and_self, if_true]
      rw [hleft]
      refine hlog.trans ?_
      unfold runJobs
      dsimp only
      split
      · exact List.prefix_refl _
      · exact log_runJobs (id + 1) rest _

end

/-! ## Settings

No routine looks at the cap in the settings. -/

namespace Check

variable (config : Config) (cap : Nat)

theorem bodies_config (bs : List Body) : bodies (config.withCap cap) bs = bodies config bs := by
  induction bs with
  | nil => rfl
  | cons b rest ih =>
    rw [bodies, bodies, ih]
    rfl

theorem drain_config (rounds : Nat) : drain (config.withCap cap) rounds = drain config rounds := by
  induction rounds with
  | zero => rfl
  | succ rounds ih =>
    rw [drain, drain, ih]
    simp only [bodies_config]

theorem bodyAndNested_config (b : Body) : bodyAndNested (config.withCap cap) b = bodyAndNested config b := by
  rw [bodyAndNested, bodyAndNested, drain_config]
  rfl

theorem fileLevel_config (files : List File) : fileLevel (config.withCap cap) files = fileLevel config files := rfl

end Check

theorem runJobs_config (config : Config) (cap : Nat) (frozen : List Slab) (id : Nat) (bs : List Body) (h : Shared) :
    runJobs (config.withCap cap) frozen id bs h = runJobs config frozen id bs h := by
  induction bs generalizing id h with
  | nil => rfl
  | cons b rest ih =>
    have hjob : runJob (config.withCap cap) frozen id b h = runJob config frozen id b h := by
      rw [runJob, runJob, Check.bodyAndNested_config]
    rw [runJobs, runJobs, hjob, show (config.withCap cap).parallel = config.parallel from rfl]
    simp only [ih]

/-! ## Programs -/

theorem Collector.diagnostics_prefix {c c' : Collector} (h : c.log <+: c'.log) : c.diagnostics <+: c'.diagnostics :=
  (h.filter _).map _

namespace Program

/-- The same program under another cap. -/
def withCap (p : Program) (cap : Nat) : Program :=
  { p with config := p.config.withCap cap, collector := p.collector.withCap cap }

theorem foldl_absorb_withCap (p : Program) (cap : Nat) (results : List JobResult) :
    results.foldl absorb (p.withCap cap) = (results.foldl absorb p).withCap cap := by
  induction results generalizing p with
  | nil => rfl
  | cons r rest ih =>
    rw [List.foldl_cons, List.foldl_cons, ← ih]
    rfl

theorem warnUnused_withCap (p : Program) (cap : Nat) : (p.withCap cap).warnUnused = p.warnUnused.withCap cap := by
  have hwarn (ds : List Diagnostic) (c : Collector) :
      ds.foldl Collector.warn (c.withCap cap) = (ds.foldl Collector.warn c).withCap cap := by
    induction ds generalizing c with
    | nil => rfl
    | cons d rest ih =>
      rw [List.foldl_cons, List.foldl_cons, ← ih]
      rfl
  unfold warnUnused
  rw [show (p.withCap cap).config.warnUnusedImports = p.config.warnUnusedImports from rfl]
  split
  · simp only [withCap]
    rw [← hwarn]
    rfl
  · rfl

theorem log_warnUnused (p : Program) : p.collector.log <+: p.warnUnused.collector.log := by
  have hwarn (ds : List Diagnostic) (c : Collector) : c.log <+: (ds.foldl Collector.warn c).log := by
    induction ds generalizing c with
    | nil => exact List.prefix_refl _
    | cons d rest ih => exact (List.prefix_append ..).trans (ih (c.warn d))
  unfold warnUnused
  split
  · exact hwarn _ _
  · exact List.prefix_refl _

variable {config : Config} {s : Pass} {cap : Nat}

theorem jobs_withCap (config : Config) (s : Pass) (cap : Nat) :
    runJobs (config.withCap cap) (s.withCap cap).store.arena.slabs 1 (s.withCap cap).queue
        ⟨(s.withCap cap).links, (s.withCap cap).collector⟩ =
      runJobs config s.store.arena.slabs 1 s.queue ((⟨s.links, s.collector⟩ : Shared).withCap cap) :=
  runJobs_config ..

theorem ofJobs_withCap (hcap : s.collector.cap ≤ cap) (hstop : (ofJobs config s).stop = none) :
    ofJobs (config.withCap cap) (s.withCap cap) = (ofJobs config s).withCap cap := by
  unfold ofJobs at hstop ⊢
  have hjobs := runJobs_withCap (h := ⟨s.links, s.collector⟩) hcap ((stop_absorb _ _).mp hstop).2
  rw [jobs_withCap, hjobs, ← foldl_absorb_withCap]
  rfl

theorem log_ofJobs_withCap (hseq : config.parallel = false) (hcap : s.collector.cap ≤ cap) :
    (ofJobs config s).collector.log <+: (ofJobs (config.withCap cap) (s.withCap cap)).collector.log := by
  unfold ofJobs
  rw [jobs_withCap, collector_absorb, collector_absorb]
  exact log_runJobs_withCap (h := ⟨s.links, s.collector⟩) hseq hcap 1 s.queue

theorem log_ofJobs (config : Config) (s : Pass) : s.collector.log <+: (ofJobs config s).collector.log := by
  unfold ofJobs
  rw [collector_absorb]
  exact log_runJobs 1 s.queue ⟨s.links, s.collector⟩

end Program

section

variable {config : Config} {files : List File} {s : Pass} {cap : Nat}

/-- Where a check starts. -/
def Pass.atFiles (cap : Nat) : Pass := .start Universe.store [] (.empty cap)

theorem Pass.withCap_atFiles (cap cap' : Nat) : (Pass.atFiles cap).withCap cap' = .atFiles cap' := by
  unfold Pass.atFiles
  generalize Universe.store = store
  rfl

theorem checkFiles_of_error {stop : TooManyErrors}
    (h : Check.fileLevel config files (.atFiles config.errorCap) = .error stop s) :
    checkFiles config files = ⟨config, s.store.arena, s.notes, s.collector, s.files, s.imports, some stop⟩ := by
  rw [Pass.atFiles] at h
  rw [Program.checkFiles_eq, Check.outcome, h]
  rfl

theorem checkFiles_of_ok (h : Check.fileLevel config files (.atFiles config.errorCap) = .ok () s) :
    checkFiles config files =
      if (Program.ofJobs config s).stop.isSome then Program.ofJobs config s
        else (Program.ofJobs config s).warnUnused := by
  rw [Pass.atFiles] at h
  rw [Program.checkFiles_eq, Check.outcome, h]
  rfl

theorem fileLevel_withCap (hcap : config.errorCap ≤ cap)
    (h : Check.fileLevel config files (.atFiles config.errorCap) = .ok () s) :
    Check.fileLevel (config.withCap cap) files (.atFiles cap) = .ok () (s.withCap cap) := by
  rw [Check.fileLevel_config, ← Pass.withCap_atFiles config.errorCap]
  exact (Check.moves_fileLevel (R := LogGrows) config files).traced.ok_withCap hcap h

/-- The file level keeps the cap. -/
theorem cap_of_fileLevel (h : Check.fileLevel config files (.atFiles config.errorCap) = .ok () s) :
    s.collector.cap = config.errorCap := by
  obtain ⟨-, -, -, hcap⟩ := (Check.moves_fileLevel (R := LogGrows) config files).ok h
  exact hcap

/-- A check that its cap does not stop comes to the same under a larger one. -/
theorem checkFiles_withCap (config : Config) (files : List File) (hcap : config.errorCap ≤ cap)
    (hstop : (checkFiles config files).stop = none) :
    checkFiles (config.withCap cap) files = (checkFiles config files).withCap cap := by
  cases hfile : Check.fileLevel config files (.atFiles config.errorCap) with
  | error stop s =>
    rw [checkFiles_of_error hfile] at hstop
    cases hstop
  | ok u s =>
    have hjobstop : (Program.ofJobs config s).stop = none := by
      rw [checkFiles_of_ok hfile] at hstop
      split at hstop
      · exact hstop
      · rwa [Program.stop_warnUnused] at hstop
    have hjobs := Program.ofJobs_withCap (cap_of_fileLevel hfile ▸ hcap) hjobstop
    have hjobstop' : (Program.ofJobs (config.withCap cap) (s.withCap cap)).stop = none := by
      rw [hjobs]
      exact hjobstop
    rw [checkFiles_of_ok (fileLevel_withCap hcap hfile), checkFiles_of_ok hfile, hjobstop, hjobstop']
    simp only [Option.isSome_none, Bool.false_eq_true, if_false]
    rw [hjobs, Program.warnUnused_withCap]

/-- Whatever stops it, a check logs the beginning of what it logs under a larger cap. -/
theorem log_checkFiles_withCap (config : Config) (files : List File) (hseq : config.parallel = false)
    (hcap : config.errorCap ≤ cap) :
    (checkFiles config files).collector.log <+: (checkFiles (config.withCap cap) files).collector.log := by
  have hfirst (s : Pass) : (Program.ofJobs (config.withCap cap) s).collector.log <+:
      (if (Program.ofJobs (config.withCap cap) s).stop.isSome then Program.ofJobs (config.withCap cap) s
        else (Program.ofJobs (config.withCap cap) s).warnUnused).collector.log := by
    split
    · exact List.prefix_refl _
    · exact Program.log_warnUnused _
  cases hfile : Check.fileLevel config files (.atFiles config.errorCap) with
  | error stop s =>
    have hlog := (Check.moves_fileLevel (R := LogGrows) config files).traced.log_withCap
      (s := .atFiles config.errorCap) hcap
    rw [hfile, Pass.withCap_atFiles, ← Check.fileLevel_config config cap] at hlog
    rw [checkFiles_of_error hfile]
    cases hfile' : Check.fileLevel (config.withCap cap) files (.atFiles cap) with
    | error stop' s' =>
      rw [hfile'] at hlog
      rw [checkFiles_of_error hfile']
      exact hlog
    | ok u s' =>
      rw [hfile'] at hlog
      rw [checkFiles_of_ok hfile']
      exact List.IsPrefix.trans hlog ((Program.log_ofJobs _ s').trans (hfirst s'))
  | ok u s =>
    cases hstop : (checkFiles config files).stop with
    | none =>
      rw [checkFiles_withCap config files hcap hstop]
      exact List.prefix_refl _
    | some stop =>
      have hjobstop : (Program.ofJobs config s).stop.isSome := by
        rw [checkFiles_of_ok hfile] at hstop
        split at hstop
        · assumption
        · rw [Program.stop_warnUnused] at hstop
          rw [hstop]
          rfl
      rw [checkFiles_of_ok (fileLevel_withCap hcap hfile), checkFiles_of_ok hfile, if_pos hjobstop]
      exact (Program.log_ofJobs_withCap hseq (cap_of_fileLevel hfile ▸ hcap)).trans (hfirst _)

end

theorem config_checkFiles (config : Config) (files : List File) : (checkFiles config files).config = config := by
  have habsorb (results : List JobResult) (p : Program) : (results.foldl Program.absorb p).config = p.config := by
    induction results generalizing p with
    | nil => rfl
    | cons r rest ih =>
      rw [List.foldl_cons, ih]
      rfl
  have hwarn (p : Program) : p.warnUnused.config = p.config := by
    unfold Program.warnUnused
    split <;> rfl
  have hjobs (s : Pass) : (Program.ofJobs config s).config = config := habsorb _ _
  rw [Program.checkFiles_eq]
  dsimp only
  split
  · rfl
  · split
    · exact hjobs _
    · rw [hwarn, hjobs]

/-- The cap only truncates. Of two sequential checks that differ in the cap alone, the one with the smaller cap lists
the beginning of what the other one lists. If the smaller cap does not stop it, then neither does the larger one, and
the two agree on the diagnostics, the number of errors, the arena, the annotations, the files and the imports. -/
theorem smaller_cap_only_truncates (config : Config) (hseq : config.parallel = false) (files : List File)
    (cap cap' : Nat) (hcap : cap ≤ cap') :
    let p := checkFiles { config with errorCap := cap } files
    let p' := checkFiles { config with errorCap := cap' } files
    p.diagnostics <+: p'.diagnostics ∧
      (p.stop = none →
        p'.stop = none ∧ p'.diagnostics = p.diagnostics ∧ p'.collector.count = p.collector.count ∧ p'.arena = p.arena ∧
          p'.notes = p.notes ∧ p'.files = p.files ∧ p'.imports = p.imports) := by
  have hseq' (n : Nat) : (checkFiles { config with errorCap := n } files).config.parallel = false := by
    rw [config_checkFiles]
    exact hseq
  refine ⟨?_, fun hstop => ?_⟩
  · simp only [Program.diagnostics, hseq', Bool.false_eq_true, if_false]
    exact Collector.diagnostics_prefix
      (log_checkFiles_withCap (config.withCap cap) files hseq hcap)
  · have hsame : checkFiles { config with errorCap := cap' } files = _ :=
      checkFiles_withCap (config.withCap cap) files hcap hstop
    rw [hsame]
    exact ⟨hstop, rfl, rfl, rfl, rfl, rfl, rfl⟩

/-! A variable and a body that use names which nothing declares. -/

namespace ThreeMistakes

open Builder in
/-- One file with a variable with one such use, and a procedure with two of them. -/
def files : List File := single do
  let global ← vars ["v"] none [← Builder.name "first"] false
  let body := [Stmt.expr (← Builder.name "second"), Stmt.expr (← Builder.name "third")]
  return [global, ← plainProc "f" body none]

/-- Checking the file under a cap. -/
def program (cap : Nat) : Program := checkFiles { Config.standard with errorCap := cap } files

end ThreeMistakes

open ThreeMistakes in
/-- A cap of one error cuts the check off in the body, and a cap of three does not stop it. -/
theorem smaller_cap_only_truncates_three_mistakes :
    (program 1).stop.isSome ∧ (program 1).diagnostics.length = 2 ∧ (program 3).diagnostics.length = 3 ∧
      (program 1).diagnostics <+: (program 3).diagnostics ∧ (program 3).stop = none ∧
      (program 9).diagnostics = (program 3).diagnostics ∧ (program 9).arena = (program 3).arena := by
  have hspec : (program 1).stop.isSome ∧ (program 1).diagnostics.length = 2 ∧ (program 3).diagnostics.length = 3 ∧
      (program 3).stop = none := by
    decide +kernel
  obtain ⟨hcut, htwo, hthree, hstop⟩ := hspec
  obtain ⟨hfirst, -⟩ := smaller_cap_only_truncates .standard rfl files 1 3 (by omega)
  obtain ⟨-, hsame⟩ := smaller_cap_only_truncates .standard rfl files 3 9 (by omega)
  obtain ⟨-, hdiagnostics, -, harena, -⟩ := hsame hstop
  exact ⟨hcut, htwo, hthree, hfirst, hstop, hdiagnostics, harena⟩

end Statics
