import Mathlib.Data.Finset.Card
import Statics.Proofs.Jobs.Order

/-!
# Link names

All passes claim link names in one table. The first claim of a name takes it, and every other one is an error that
cites the procedure of the first. Which claim is the first depends on the order in which the jobs get to the table, so
this is about every order in which they may: `Program.MayTell` has the events of the file level first, and then those
of the jobs, in any way between one another.

In every such order there are as many of these errors as claims, less the number of different names
(`link_names_claimed_once`).
-/

namespace Statics

variable {frozen : List Slab} {t : Pass} {h h' : Shared}

/-! ## Errors about claims -/

/-- The error that a link name was claimed before, by its category and its wording. -/
def Diagnostic.isLinkClash (d : Diagnostic) : Bool :=
  d.category = .redeclaration ∧ "Non unique #link_name".toList <+: d.message.toList

theorem isLinkClash_linkClash (link : Token) (first : Pos) : (linkClash link first).isLinkClash := by
  simp [linkClash, Diagnostic.about, Diagnostic.isLinkClash]

/-- No other problem is worded like that. -/
theorem Problem.not_isLinkClash (p : Problem) (token : Token) :
    (p.error token).isLinkClash = false ∧ (p.warning token).isLinkClash = false := by
  have hnot : ¬ (p.category = .redeclaration ∧ "Non unique #link_name".toList <+: p.message.toList) := by
    rintro ⟨hcategory, hmessage⟩
    cases p <;> try cases hcategory
    all_goals
      delta Problem.message at hmessage
      dsimp only at hmessage
      simp at hmessage
  exact ⟨decide_eq_false hnot, decide_eq_false hnot⟩

/-- A claim of a link name, with the place of the procedure that it is for. -/
abbrev Claim := Token × Pos

/-- A claim as the table has it. -/
def Claim.entry (c : Claim) : String × Pos := (c.1.text, c.2)

/-- The errors that claims come to, where some names were claimed before. -/
def clashes : List (String × Pos) → List Claim → List Diagnostic
  | _, [] => []
  | links, c :: rest =>
    (match links.lookup c.1.text with
      | some first => [linkClash c.1 first]
      | none => []) ++ clashes (links ++ [c.entry]) rest

/-- The names that are claimed. -/
def claimedNames (claims : List Claim) : List String := claims.map fun c => c.1.text

section

variable {links : List (String × Pos)} {claims : List Claim}

theorem lookup_eq_none_iff_not_mem {name : String} : links.lookup name = none ↔ name ∉ links.map Prod.fst := by
  rw [List.lookup_eq_none_iff]
  simp only [List.mem_map, not_exists, not_and, bne_iff_ne]
  exact ⟨fun h p hp heq => h p hp heq.symm, fun h p hp heq => h p hp heq.symm⟩

/-- Every claim either takes a new name or comes to an error. -/
theorem length_clashes (links : List (String × Pos)) (claims : List Claim) :
    (clashes links claims).length + (links.map Prod.fst ++ claimedNames claims).toFinset.card =
      claims.length + (links.map Prod.fst).toFinset.card := by
  induction claims generalizing links with
  | nil => simp [clashes, claimedNames]
  | cons c rest ih =>
    have hrest := ih (links ++ [c.entry])
    have hnames :
      (links ++ [c.entry]).map Prod.fst ++ claimedNames rest = links.map Prod.fst ++ claimedNames (c :: rest) := by
      simp [claimedNames, Claim.entry]
    have hinsert : ((links ++ [c.entry]).map Prod.fst).toFinset = insert c.1.text (links.map Prod.fst).toFinset := by
      rw [List.map_append, List.toFinset_append, Finset.union_comm]
      rfl
    rw [hnames, hinsert] at hrest
    rw [clashes, List.length_append, List.length_cons]
    cases hlookup : links.lookup c.1.text with
    | none =>
      rw [Finset.card_insert_of_notMem (by simpa using lookup_eq_none_iff_not_mem.mp hlookup)] at hrest
      simp only [List.length_nil]
      omega
    | some first =>
      have hmem : c.1.text ∈ links.map Prod.fst := by
        by_contra hnot
        rw [lookup_eq_none_iff_not_mem.mpr hnot] at hlookup
        cases hlookup
      rw [Finset.insert_eq_of_mem (by simpa using hmem)] at hrest
      simp only [List.length_singleton]
      omega

/-- Every error is about a claim, and cites the first one of the same name. -/
theorem exists_first_of_mem_clashes {d : Diagnostic} (hd : d ∈ clashes links claims) :
    ∃ before c after first, claims = before ++ c :: after ∧
      (links ++ before.map Claim.entry).lookup c.1.text = some first ∧ d = linkClash c.1 first := by
  induction claims generalizing links with
  | nil => cases hd
  | cons c rest ih =>
    rw [clashes, List.mem_append] at hd
    rcases hd with hd | hd
    · cases hlookup : links.lookup c.1.text with
      | none => simp [hlookup] at hd
      | some first =>
        rw [hlookup, List.mem_singleton] at hd
        exact ⟨[], c, rest, first, rfl, by simpa using hlookup, hd⟩
    · obtain ⟨before, c', after, first, hclaims, hfirst, hd⟩ := ih hd
      exact ⟨c :: before, c', after, first, by rw [hclaims, List.cons_append], by simpa using hfirst, hd⟩

/-- Where there are no errors, all names are different. -/
theorem nodup_of_clashes_eq_nil (h : clashes [] claims = []) : (claimedNames claims).Nodup := by
  have hcount := length_clashes [] claims
  rw [h] at hcount
  simp only [List.length_nil, List.map_nil, List.nil_append, List.toFinset_nil, Finset.card_empty] at hcount
  have hlength : (claimedNames claims).length = claims.length := List.length_map _
  have hcard : (claimedNames claims).toFinset.card = (claimedNames claims).length := by omega
  rw [List.card_toFinset] at hcard
  rw [← List.dedup_eq_self]
  exact (List.dedup_sublist _).eq_of_length hcard

end

/-! ## Claims among events -/

namespace Event

/-- The claim that an event makes, if it does. -/
def claim? : Event → Option Claim
  | .claim link pos => some (link, pos)
  | _ => none

/-- The claims among events, in their order. -/
def claims (events : List Event) : List Claim := events.filterMap claim?

theorem claims_append (events events' : List Event) : claims (events ++ events') = claims events ++ claims events' :=
  List.filterMap_append

theorem foldl_linked (events : List Event) (links : List (String × Pos)) :
    events.foldl linked links = links ++ (claims events).map Claim.entry := by
  induction events generalizing links with
  | nil => simp [claims]
  | cons event rest ih => cases event <;> simp [ih, linked, claims, claim?, Claim.entry, List.filterMap_cons]

/-- The errors about link names among what events report are those that their claims come to. -/
theorem filter_reports (events : List Event) (links : List (String × Pos)) :
    (reports links events).filter Diagnostic.isLinkClash = clashes links (claims events) := by
  induction events generalizing links with
  | nil => rfl
  | cons event rest ih =>
    rw [reports, List.filter_append, ih]
    cases event with
    | error token p => simp [reported, linked, claims, claim?, (p.not_isLinkClash token).1, List.filterMap_cons]
    | importRepeated token =>
      simp [reported, linked, claims, claim?, (Problem.not_isLinkClash _ token).2, List.filterMap_cons]
    | claim link pos =>
      have hcons : claims (.claim link pos :: rest) = (link, pos) :: claims rest := rfl
      rw [hcons, clashes]
      refine congrArg₂ (· ++ ·) ?_ rfl
      simp only [reported]
      cases links.lookup link.text with
      | none => rfl
      | some first => simp [isLinkClash_linkClash]

end Event

/-- The errors about link names that were reported. -/
def Shared.linkErrors (h : Shared) : List Diagnostic :=
  (h.collector.log.map LogEntry.diagnostic).filter Diagnostic.isLinkClash

theorem Shared.takeAll_append_eq_ok {events' : List Event} :
    takeAll (events ++ events') h = .ok () h' ↔ ∃ h₁, takeAll events h = .ok () h₁ ∧
      takeAll events' h₁ = .ok () h' := by
  rw [takeAll_append]
  simp only [Bind.bind, EStateM.bind]
  cases takeAll events h with
  | ok _ h₁ => simp
  | error stop h₁ => simp

/-- Events that do not stop claim what they claim, and report what these claims come to. -/
theorem Shared.linkErrors_takeAll {cap : Nat} (htake : takeAll events ⟨[], .empty cap⟩ = .ok () h) :
    h.links = (Event.claims events).map Claim.entry ∧ h.linkErrors = clashes [] (Event.claims events) := by
  have hfits : Fits ⟨[], .empty cap⟩ (Event.reports [] events) := by
    by_contra hnot
    have hfatal := isFatal_of_not_fits hnot
    have htakes := takes_takeAll events ⟨[], .empty cap⟩
    rw [htake] at hfatal htakes
    exact htakes.goes rfl (by simp [Collector.isFatal, Collector.empty]) hfatal
  obtain ⟨h', htake', htook⟩ := takeAll_of_fits hfits
  rw [htake] at htake'
  cases htake'
  refine ⟨by rw [htook.links, Event.foldl_linked, List.nil_append], ?_⟩
  rw [linkErrors, htook.log, ← Event.filter_reports]
  rfl

/-! ## Orders -/

theorem Check.Tells.takeAll_eq_ok {α : Type} {x : Check α} {s u : Pass} {a b : α}
    (hx : Tells x s a t events) (hrun : x (s.sharing h) = .ok b u) :
    Shared.takeAll events h = .ok () u.shared ∧ u = t.sharing u.shared := by
  have hs := hx h
  cases htake : Shared.takeAll events h with
  | ok _ h' =>
    rw [htake] at hs
    cases hs.symm.trans hrun
    exact ⟨rfl, rfl⟩
  | error stop h' =>
    rw [htake] at hs
    obtain ⟨v, hv⟩ := hs
    cases hv.symm.trans hrun

/-- The rows are taken apart from their fronts, in any order. -/
inductive Interleaves {α : Type} : List (List α) → List α → Prop where
  | done {rows : List (List α)} (h : ∀ row ∈ rows, row = []) : Interleaves rows []
  | step {before after : List (List α)} {row : List α} {a : α} {rest : List α}
    (h : Interleaves (before ++ row :: after) rest) : Interleaves (before ++ (a :: row) :: after) (a :: rest)

namespace Interleaves

variable {α : Type} {rows : List (List α)} {out : List α}

theorem perm (h : Interleaves rows out) : out.Perm rows.flatten := by
  induction h with
  | done h => rw [List.flatten_eq_nil_iff.mpr h]
  | step _ ih =>
    refine (ih.cons _).trans ?_
    simp only [List.flatten_append, List.flatten_cons, List.cons_append]
    exact List.perm_middle.symm

/-- Rows may be taken one after the other. -/
theorem flatten (rows : List (List α)) : Interleaves rows rows.flatten := by
  suffices h : ∀ empty : List (List α), (∀ row ∈ empty, row = []) →
    Interleaves (empty ++ rows) rows.flatten from h [] (by simp)
  induction rows with
  | nil =>
    intro empty hempty
    rw [List.append_nil]
    exact .done hempty
  | cons row rows ih =>
    intro empty hempty
    induction row with
    | nil =>
      rw [List.flatten_cons, List.nil_append, ← List.singleton_append, ← List.append_assoc]
      exact ih _ (by simpa [or_imp, forall_and] using hempty)
    | cons a row ihrow =>
      rw [List.flatten_cons, List.cons_append]
      exact .step ihrow

end Interleaves

/-! ## Programs -/

/-- A job claims exactly the link names of the procedures that are nested in its body. -/
theorem Job.perm_claims {job : Job} (hjob : job.Yields config frozen t events) :
    ((Event.claims events).map Claim.entry).Perm (claimsOf job.body.block.nested) := by
  -- Among no other jobs and with room for all reports, the table has what the job claims.
  let h : Shared := ⟨[], .empty (errorCount (Event.reports [] events))⟩
  have hfits : h.Fits (Event.reports h.links events) := by
    show 0 + errorCount (Event.reports [] events) ≤ errorCount (Event.reports [] events)
    omega
  obtain ⟨h', htake, htook⟩ := Shared.takeAll_of_fits hfits
  have hrun := hjob h
  rw [htake] at hrun
  have hlog : Check.bodyAndNested config job.body (.start ⟨.empty job.id, frozen⟩ h.links h.collector) =
      .ok () (t.sharing h') := hrun
  rw [← Check.map_bodyLog] at hlog
  obtain ⟨log, s, hlog, hdone⟩ := Check.bind_eq_ok.mp hlog
  cases hdone
  have hjournaled := (Pass.journaled_start ⟨.empty job.id, frozen⟩ h.links h.collector).2
  have hroom : ¬ h.collector.isFatal := by simp [h, Collector.isFatal, Collector.empty]
  obtain ⟨-, -, -, -, -, claims, hlinks, hclaims⟩ := Check.bodyLog_spec hlog hroom (.start _ _ _) hjournaled rfl
  have hsame : (Event.claims events).map Claim.entry = claims := by
    have hleft : h'.links = (Event.claims events).map Claim.entry := by
      rw [htook.links, Event.foldl_linked]
      rfl
    exact hleft.symm.trans (hlinks.trans (List.nil_append claims))
  rw [hsame]
  exact hclaims

theorem Job.perm_claims_flatten {jobs : List Job} {rows : List (List Event)}
    (h : List.Forall₂ (fun job row => ∃ t, job.Yields config frozen t row) jobs rows) :
    ((Event.claims rows.flatten).map Claim.entry).Perm
      (claimsOf ((jobs.map fun job => job.body.block).flatMap Block.nested)) := by
  induction h with
  | nil => exact .nil
  | cons hjob _ ih =>
    obtain ⟨t, hjob⟩ := hjob
    rw [List.flatten_cons, Event.claims_append, List.map_append, List.map_cons, List.flatMap_cons, claimsOf_append]
    exact (Job.perm_claims hjob).append ih

/-- The jobs that a run goes through, one after the other, and what they tell. -/
theorem CompleteJobs.exists_rows {id : Nat} {bs : List Body} {passes : List Pass}
    (hjobs : CompleteJobs config frozen id bs h passes h') :
    ∃ rows, List.Forall₂ (fun job row => ∃ t, job.Yields config frozen t row)
        ((bs.zipIdx id).map fun p => (⟨p.1, p.2⟩ : Job)) rows ∧ Shared.takeAll rows.flatten h = .ok () h' := by
  induction hjobs with
  | nil => exact ⟨[], .nil, rfl⟩
  | @cons id b rest h h' s passes job _ _ ih =>
    obtain ⟨rows, hrows, htake⟩ := ih
    obtain ⟨t, row, hyields⟩ := Job.exists_yields config frozen ⟨b, id⟩
    obtain ⟨hrow, -⟩ := Check.Tells.takeAll_eq_ok hyields job
    refine ⟨row :: rows, ?_, Shared.takeAll_append_eq_ok.mpr ⟨_, hrow, htake⟩⟩
    rw [List.zipIdx_cons, List.map_cons]
    exact .cons ⟨t, hyields⟩ hrows

namespace Program

/-- An order in which the passes over a program may tell their events: first those of the file level, and then those
of the jobs for the bodies that it queued, each job's in their order, but with any of the others between them. -/
def MayTell (config : Config) (files : List File) (events : List Event) : Prop :=
  ∃ s own rows rest, Check.Tells (Check.fileLevel config files) (opening config) () s own ∧
    List.Forall₂ (fun job row => ∃ t, job.Yields config s.store.arena.slabs t row) s.jobs rows ∧
    Interleaves rows rest ∧ events = own ++ rest

variable {config : Config} {files : List File} {events : List Event} {shared : Shared}

theorem opening_sharing (config : Config) : (opening config).sharing ⟨[], .empty config.errorCap⟩ = opening config := by
  simp only [opening, Pass.start, Pass.sharing]

/-- The order of a run that is not cut short, in which the jobs come one after the other. -/
theorem exists_mayTell (h : (checkFiles config files).stop = none) :
    ∃ events shared, MayTell config files events ∧
      Shared.takeAll events ⟨[], .empty config.errorCap⟩ = .ok () shared ∧
      shared.collector.count = (checkFiles config files).collector.count := by
  obtain ⟨_, passes, h⟩ := completes_of_stop h
  obtain ⟨rfl, -⟩ := h.merges
  obtain ⟨_, s, own, hfile⟩ := (Check.moves_fileLevel (R := LogGrows) config files).traced (opening config)
  obtain ⟨hown, hend⟩ := hfile.takeAll_eq_ok ((congrArg _ (opening_sharing config)).trans h.fileLevel)
  obtain ⟨shared, hjobs, hcount⟩ := h.jobs
  obtain ⟨rows, hrows, htake⟩ := hjobs.exists_rows
  refine ⟨own ++ rows.flatten, shared, ⟨s, own, rows, rows.flatten, hfile, ?_, .flatten rows, rfl⟩, ?_, hcount⟩
  · rw [hend] at hrows
    exact hrows
  · exact Shared.takeAll_append_eq_ok.mpr ⟨_, hown, htake⟩

/-- In every order, exactly the link names of the procedures that are declared at file level or in a body are
claimed. -/
theorem MayTell.perm_claims (h : MayTell config files events)
    (htake : Shared.takeAll events ⟨[], .empty config.errorCap⟩ = .ok () shared) :
    ((Event.claims events).map Claim.entry).Perm (claimsOf ((fileProcs files).flatMap ProcDecl.withNested)) := by
  obtain ⟨s, own, rows, rest, hfile, hrows, hrest, rfl⟩ := h
  obtain ⟨h₁, hown, -⟩ := Shared.takeAll_append_eq_ok.mp htake
  have hrun := hfile ⟨[], .empty config.errorCap⟩
  rw [hown, opening_sharing] at hrun
  have hend : s.sharing h₁ = fileEnd config files := (Check.after_of_ok hrun).symm
  have hlevel : Check.fileLevel config files (opening config) = .ok () (fileEnd config files) := hend ▸ hrun
  obtain ⟨entries, hprocs, -, hlinks⟩ := tasks_fileEnd hlevel
  have hqueue := perm_queue hlevel
  rw [← hend] at hlinks hqueue
  have hfirst : ((Event.claims own).map Claim.entry).Perm (claimsOf (fileProcs files)) := by
    rw [← (Shared.linkErrors_takeAll hown).1]
    exact .trans (.of_eq hlinks) (hprocs.filterMap _)
  have hbodies : s.jobs.map (fun job => job.body.block) = s.queue.map Body.block := by
    rw [Pass.jobs, List.map_map, ← List.zipIdx_map_fst 1 s.queue, List.map_map, List.zipIdx_map_fst]
    rfl
  have hnested := (hrest.perm.filterMap Event.claim?).map Claim.entry |>.trans (Job.perm_claims_flatten hrows)
  rw [hbodies] at hnested
  rw [Event.claims_append, List.map_append]
  refine (hfirst.append (hnested.trans ((hqueue.flatMap_right _).filterMap _))).trans ?_
  rw [← claimsOf, ← claimsOf_append]
  exact (perm_withNested _).filterMap _

end Program

/-- Link names are claimed once, whatever order the passes of a program get to the table in, where the cap is not
passed. There is one claim for every procedure with a link name that is not foreign, at file level or in a body. There
are as many errors about them as there are claims, less the number of different names. Each is about a claim that
comes after another one of the same name, and cites the place of the procedure that claimed the name first. Without
such an error, no two claims are of one name. -/
theorem link_names_claimed_once {config : Config} {files : List File} {events : List Event} {shared : Shared}
    (horder : Program.MayTell config files events)
    (htake : Shared.takeAll events ⟨[], .empty config.errorCap⟩ = .ok () shared) :
    ((Event.claims events).map Claim.entry).Perm (claimsOf ((fileProcs files).flatMap ProcDecl.withNested)) ∧
      shared.linkErrors.length + (claimedNames (Event.claims events)).toFinset.card = (Event.claims events).length ∧
      (∀ d ∈ shared.linkErrors, ∃ before c after first, Event.claims events = before ++ c :: after ∧
        (before.map Claim.entry).lookup c.1.text = some first ∧ d = linkClash c.1 first) ∧
      (shared.linkErrors = [] → (claimedNames (Event.claims events)).Nodup) := by
  obtain ⟨-, herrors⟩ := Shared.linkErrors_takeAll htake
  rw [herrors]
  refine ⟨horder.perm_claims htake, ?_, fun d hd => ?_, nodup_of_clashes_eq_nil⟩
  · simpa using length_clashes [] (Event.claims events)
  · simpa using exists_first_of_mem_clashes hd

namespace ClaimedTwice

open Builder in
/-- One file with a procedure with a link name, one inside it with the same link name, and one with another. -/
def files : List File := single do
  let inner ← plainProc "inner" [] (some "one")
  let outer ← plainProc "outer" [inner] (some "one")
  let beside ← plainProc "beside" [] (some "two")
  return [outer, beside]

end ClaimedTwice

open ClaimedTwice in
theorem link_names_claimed_once_claimed_twice :
    ((checkFiles .standard files).stop = none ∧ (checkFiles .standard files).collector.count = 1) ∧
      (claimsOf ((fileProcs files).flatMap ProcDecl.withNested)).map Prod.fst = ["one", "one", "two"] ∧
      ∃ events shared, Program.MayTell .standard files events ∧
        Shared.takeAll events ⟨[], .empty Config.standard.errorCap⟩ = .ok () shared ∧ shared.linkErrors.length = 1 := by
  have hstop : (checkFiles .standard files).stop = none ∧ (checkFiles .standard files).collector.count = 1 := by
    decide +kernel
  have hnames : (claimsOf ((fileProcs files).flatMap ProcDecl.withNested)).map Prod.fst = ["one", "one", "two"] := by
    decide +kernel
  obtain ⟨events, shared, horder, htake, -⟩ := Program.exists_mayTell hstop.1
  refine ⟨hstop, hnames, events, shared, horder, htake, ?_⟩
  obtain ⟨hclaims, hcount, -⟩ := link_names_claimed_once horder htake
  have hclaimed : (claimedNames (Event.claims events)).Perm ["one", "one", "two"] := by
    rw [← hnames, claimedNames]
    simpa [Claim.entry, Function.comp_def] using hclaims.map Prod.fst
  have hlength : (Event.claims events).length = 3 := by
    have hsame : (claimedNames (Event.claims events)).length = (Event.claims events).length := List.length_map _
    exact hsame.symm.trans hclaimed.length_eq
  have hdistinct : (claimedNames (Event.claims events)).toFinset.card = 2 := by
    rw [List.toFinset_eq_of_perm _ _ hclaimed]
    decide
  omega

end Statics
