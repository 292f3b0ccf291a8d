import Statics.Proofs.Worklist.Reached

/-!
# Bodies inside bodies

A job checks the body of a procedure, then those of the procedures that it reaches, then those that these reach, and
so on. `Block.nested` lists all procedures that are reached that way. `Check.bodyLog` does what a job does, and also
returns the bodies that it checks. They are the body itself and, in some order after it, exactly the bodies of the
nested procedures: `Check.bodyLog_spec`.
-/

namespace Statics

/-! ## Nested procedures -/

mutual

/-- The procedures that are declared when a statement is checked, and when the bodies in it are. -/
def Stmt.nested : Stmt → List ProcDecl
  | .decl d => d.nested
  | .block body => Block.nested body
  | .branchOn _ init _ body otherwise => Stmt.nestedOption init ++ (Block.nested body ++ Stmt.nestedElse otherwise)
  | .loop _ _ init _ post body => Stmt.nestedOption init ++ (Stmt.nestedPost post ++ Block.nested body)
  | .switch _ _ init _ clauses => Stmt.nestedOption init ++ Clause.nestedList clauses
  | .typeSwitch _ _ _ _ clauses => Clause.nestedList clauses
  | .defer _ s => if Check.isDecl s then [] else Stmt.nested s
  | _ => []

@[inherit_doc Stmt.nested]
def Stmt.nestedOption : Option Stmt → List ProcDecl
  | none => []
  | some s => Stmt.nested s

@[inherit_doc Stmt.nested]
def Stmt.nestedPost : Option Stmt → List ProcDecl
  | none => []
  | some s => if Check.isDecl s then [] else Stmt.nested s

@[inherit_doc Stmt.nested]
def Stmt.nestedElse : Option Stmt → List ProcDecl
  | none => []
  | some s => if Check.isElse s then Stmt.nested s else []

@[inherit_doc Stmt.nested]
def Stmt.nestedList : List Stmt → List ProcDecl
  | [] => []
  | s :: rest => Stmt.nested s ++ Stmt.nestedList rest

/-- The procedures that are declared when a block is checked, and when the bodies in it are. -/
def Block.nested : Block → List ProcDecl
  | ⟨_, _, _, stmts⟩ => Stmt.nestedList stmts

@[inherit_doc Block.nested]
def Block.nestedOption : Option Block → List ProcDecl
  | none => []
  | some b => b.nested

@[inherit_doc Stmt.nested]
def Clause.nestedList : List Clause → List ProcDecl
  | [] => []
  | ⟨_, _, stmts⟩ :: rest => Stmt.nestedList stmts ++ Clause.nestedList rest

/-- A declared procedure, and those in its body, unless it is foreign. -/
def Decl.nested : Decl → List ProcDecl
  | .proc ⟨token, name, signature, body, tags, foreignName, linkName⟩ =>
    ⟨token, name, signature, body, tags, foreignName, linkName⟩ :: if tags.foreign then [] else Block.nestedOption body
  | _ => []

end

/-- A procedure, and those in its body. -/
def ProcDecl.withNested (d : ProcDecl) : List ProcDecl := d :: Block.nestedOption d.ownBody

theorem Decl.nested_proc (d : ProcDecl) : (Decl.proc d).nested = d.withNested := by
  obtain ⟨token, name, signature, body, tags, foreignName, linkName⟩ := d
  cases hforeign : tags.foreign <;>
    simp [Decl.nested, ProcDecl.withNested, ProcDecl.ownBody, Block.nestedOption, hforeign]

/-- What is nested in a statement is what it reaches, and what is nested in that. -/
theorem ProcDecl.nested_eq :
    (∀ s : Stmt, s.nested = s.reached.flatMap ProcDecl.withNested) ∧
    (∀ clauses, Clause.nestedList clauses = (Clause.reachedList clauses).flatMap ProcDecl.withNested) ∧
    (∀ stmts, Stmt.nestedList stmts = (Stmt.reachedList stmts).flatMap ProcDecl.withNested) ∧
    (∀ s, Stmt.nestedPost s = (Stmt.reachedPost s).flatMap ProcDecl.withNested) ∧
    (∀ s, Stmt.nestedElse s = (Stmt.reachedElse s).flatMap ProcDecl.withNested) ∧
    (∀ s, Stmt.nestedOption s = (Stmt.reachedOption s).flatMap ProcDecl.withNested) ∧
    (∀ b : Block, b.nested = b.reached.flatMap ProcDecl.withNested) := by
  have hdecl (d : Decl) : (Stmt.decl d).nested = (Stmt.decl d).reached.flatMap ProcDecl.withNested := by
    cases d with
    | proc d => simp [Stmt.nested, Stmt.reached, Decl.nested_proc]
    | _ => simp [Stmt.nested, Stmt.reached, Decl.nested]
  apply Stmt.reached.mutual_induct
  -- Statements that nothing is reached in: only declarations have to be looked at.
  case case9 =>
    intro s
    cases s <;> grind [Stmt.nested, Stmt.reached]
  all_goals grind [Stmt.nested, Clause.nestedList, Stmt.nestedList, Stmt.nestedElse, Stmt.nestedOption,
    Stmt.nestedPost, Block.nested, Stmt.reached, Clause.reachedList, Stmt.reachedList, Stmt.reachedElse,
    Stmt.reachedOption, Stmt.reachedPost, Block.reached]

theorem Block.nested_eq (b : Block) : b.nested = b.reached.flatMap ProcDecl.withNested :=
  ProcDecl.nested_eq.2.2.2.2.2.2 b

/-- All blocks that are checked when a block is: itself, and the bodies of what is nested in it. -/
def Block.withNested (b : Block) : List Block := b :: b.nested.filterMap ProcDecl.ownBody

theorem filterMap_withNested (procs : List ProcDecl) :
    (procs.flatMap ProcDecl.withNested).filterMap ProcDecl.ownBody =
      (procs.filterMap ProcDecl.ownBody).flatMap Block.withNested := by
  induction procs with
  | nil => rfl
  | cons d rest ih =>
    rw [List.flatMap_cons, List.filterMap_append, ih, ProcDecl.withNested]
    cases hbody : d.ownBody with
    | none => simp [hbody, Block.nestedOption]
    | some b => simp [hbody, Block.nestedOption, Block.withNested]

theorem perm_withNested (procs : List ProcDecl) :
    (procs ++ (procs.filterMap ProcDecl.ownBody).flatMap Block.nested).Perm (procs.flatMap ProcDecl.withNested) := by
  have hinner : (procs.filterMap ProcDecl.ownBody).flatMap Block.nested =
      procs.flatMap fun d => Block.nestedOption d.ownBody := by
    induction procs with
    | nil => rfl
    | cons d rest ih =>
      rw [List.flatMap_cons, ← ih]
      cases hbody : d.ownBody with
      | none => simp [hbody, Block.nestedOption]
      | some b => simp [hbody, Block.nestedOption]
  have hperm := List.map_append_flatMap_perm procs id fun d => Block.nestedOption d.ownBody
  rwa [List.map_id, ← hinner] at hperm

/-- The blocks that are checked for some blocks are these, and then those that are checked for what they reach. -/
theorem perm_blocks (blocks : List Block) :
    (blocks ++ ((blocks.flatMap Block.reached).filterMap ProcDecl.ownBody).flatMap Block.withNested).Perm
      (blocks.flatMap Block.withNested) := by
  have hperm := List.map_append_flatMap_perm blocks id fun b => b.nested.filterMap ProcDecl.ownBody
  rw [List.map_id] at hperm
  refine .trans (.of_eq ?_) hperm
  have hnested : (fun b : Block => b.nested.filterMap ProcDecl.ownBody) =
      fun b => (b.reached.flatMap ProcDecl.withNested).filterMap ProcDecl.ownBody :=
        funext fun b => by rw [Block.nested_eq]
  rw [hnested, ← List.filterMap_flatMap, ← filterMap_withNested, List.flatMap_assoc]

/-! ## Rounds -/

namespace Check

/-- Drains the queue and returns the bodies that are checked, in their order. -/
def drainLog (config : Config) : Nat → Check (List Body)
  | 0 => return []
  | rounds + 1 => do
    let bs ← takeQueue
    bodies config bs
    return bs ++ (← drainLog config rounds)

/-- Checks a body and all procedures inside it, and returns the bodies that are checked, in their order. -/
def bodyLog (config : Config) (b : Body) : Check (List Body) := do
  body config b
  return b :: (← drainLog config b.block.nesting)

theorem map_drainLog (config : Config) (rounds : Nat) : (do let _ ← drainLog config rounds) = drain config rounds := by
  induction rounds with
  | zero => rfl
  | succ rounds ih =>
    rw [drain, ← ih]
    simp only [drainLog, bind_assoc, pure_bind]

/-- A job checks the bodies that are logged, and nothing else. -/
theorem map_bodyLog (config : Config) (b : Body) : (do let _ ← bodyLog config b) = bodyAndNested config b := by
  rw [bodyAndNested, ← map_drainLog]
  simp only [bodyLog, bind_assoc, pure_bind]

theorem drain_add (config : Config) (rounds more : Nat) :
    drain config (rounds + more) = (do drain config rounds; drain config more) := by
  induction rounds with
  | zero => simp only [Nat.zero_add, drain, pure_bind]
  | succ rounds ih =>
    rw [Nat.add_right_comm, drain, drain, ih]
    simp only [bind_assoc]

/-- Where nothing is queued, further rounds do nothing. -/
theorem drain_of_queue_eq_nil {config : Config} {s : Pass} (h : s.queue = []) (rounds : Nat) :
    drain config rounds s = .ok () s := by
  induction rounds with
  | zero => rfl
  | succ rounds ih =>
    have htake : takeQueue s = .ok [] s := by
      obtain ⟨store, notes, decls, journal, hoisted, queue, foreigns, files, imports, links, collector⟩ := s
      cases h
      rfl
    have hempty : bodies config [] s = .ok () s := rfl
    exact bind_eq_ok.mpr ⟨[], s, htake, bind_eq_ok.mpr ⟨(), s, hempty, ih⟩⟩

end Check

/-! ## What rounds check -/

/-- From one round to the next: bodies with the blocks in `checked` were checked. What they reach is queued, nested
less deeply than `depth` and in the slab of the pass, and exactly its link names were claimed. -/
structure Round (checked : List Block) (procs : List ProcDecl) (depth : Nat) (s t : Pass) : Prop where
  orderly : t.Orderly
  journaled : t.Journaled []
  room : ¬ t.collector.isFatal
  slab : t.store.current.id = s.store.current.id
  inside : ∀ b ∈ t.queue, b.block.Inside procs depth
  slabs : ∀ b ∈ t.queue, b.entity.slab = t.store.current.id
  blocks : (t.queue.map Body.block).Perm ((checked.flatMap Block.reached).filterMap ProcDecl.ownBody)
  claims : ∃ claims, t.links = s.links ++ claims ∧ claims.Perm (claimsOf (checked.flatMap Block.reached))

/-- The bodies in `log` were checked, which are those that were queued and all that is nested in them, and nothing is
queued any more. Exactly the link names of what is nested were claimed. -/
structure Drains (s : Pass) (log : List Body) (t : Pass) : Prop where
  queue : t.queue = []
  slabs : ∀ b ∈ log, b.entity.slab = s.store.current.id
  blocks : (log.map Body.block).Perm ((s.queue.map Body.block).flatMap Block.withNested)
  claims : ∃ claims, t.links = s.links ++ claims ∧
    claims.Perm (claimsOf ((s.queue.map Body.block).flatMap Block.nested))

namespace Check

variable {config : Config} {procs : List ProcDecl} {s t : Pass} {log : List Body}

theorem round_bodies {bs : List Body} {depth : Nat} (h : bodies config bs s = .ok () t) (hroom : ¬ s.collector.isFatal)
    (hs : s.Orderly) (hj : s.Journaled []) (hqueue : s.queue = []) (hbs : ∀ b ∈ bs, b.block.Inside procs (depth + 1)) :
    Round (bs.map Body.block) procs depth s t := by
  have hscheduled : Moves (Schedules (Block.Inside procs depth) (procs.flatMap ProcDecl.ownLinks)) (bodies config bs) :=
    schedules_bodies hbs
  have hroom' := hscheduled.traced.room h hroom
  have hgrows := (hscheduled.ok h).grows
  obtain ⟨hs', hj', entries, hprocs, hslabs, hqueued, hlinks⟩ := reaches_bodies h hroom hs hj
  rw [hqueue, List.map_nil, List.nil_append] at hqueued
  rw [← List.flatMap_map] at hprocs
  refine ⟨hs', hj', hroom', hgrows.store.id, ?_, fun b hb => ?_, ?_, claimsOf (entries.map Prod.snd), hlinks,
    hprocs.filterMap _⟩
  · obtain ⟨-, ⟨new, hnew, hinside⟩, -⟩ := (hscheduled.ok h).progress hs hroom'
    simpa [hnew, hqueue] using hinside
  · have htask : b.task ∈ tasksOf entries := hqueued ▸ List.mem_map_of_mem hb
    obtain ⟨p, hp, heq⟩ := List.mem_filterMap.mp htask
    obtain ⟨block, -, heq⟩ := Option.map_eq_some_iff.mp heq
    have hentity : b.entity = p.1 := (congrArg Prod.fst heq).symm
    rw [hentity, hgrows.store.id]
    exact hslabs p hp
  · have hblocks : t.queue.map Body.block = (entries.map Prod.snd).filterMap ProcDecl.ownBody := by
      rw [← map_snd_tasksOf, ← hqueued, List.map_map]
      rfl
    rw [hblocks]
    exact hprocs.filterMap _

/-- Names that are claimed in a round and after it are those of what is nested in its bodies. -/
theorem perm_claims {blocks : List Block} {claims claims' : List (String × Pos)} {queue : List Block}
    (hclaims : claims.Perm (claimsOf (blocks.flatMap Block.reached)))
    (hqueue : queue.Perm ((blocks.flatMap Block.reached).filterMap ProcDecl.ownBody))
    (hclaims' : claims'.Perm (claimsOf (queue.flatMap Block.nested))) :
    (claims ++ claims').Perm (claimsOf (blocks.flatMap Block.nested)) := by
  have hnested : blocks.flatMap Block.nested = (blocks.flatMap Block.reached).flatMap ProcDecl.withNested := by
    rw [List.flatMap_assoc]
    exact List.flatMap_congr fun b _ => Block.nested_eq b
  have hlater := hclaims'.trans ((hqueue.flatMap_right Block.nested).filterMap ProcDecl.claim?)
  refine (hclaims.append hlater).trans ?_
  rw [hnested, claimsOf, ← List.filterMap_append]
  exact (perm_withNested _).filterMap _

/-- Each round checks what is queued, and queues what that reaches. -/
theorem drains_drainLog {rounds : Nat} (h : drainLog config rounds s = .ok log t) (hroom : ¬ s.collector.isFatal)
    (hs : s.Orderly) (hj : s.Journaled []) (hinside : ∀ b ∈ s.queue, b.block.Inside procs rounds)
    (hslabs : ∀ b ∈ s.queue, b.entity.slab = s.store.current.id) : Drains s log t := by
  induction rounds generalizing s log with
  | zero =>
    cases h
    have hempty : t.queue = [] := List.eq_nil_iff_forall_not_mem.mpr fun b hb => by simpa using (hinside b hb).nesting
    exact ⟨hempty, by simp, by simp [hempty], [], by simp, by simp [hempty, claimsOf]⟩
  | succ rounds ih =>
    replace h := rest_of_ok rfl h
    obtain ⟨_, s₂, hbodies, h⟩ := bind_eq_ok.mp h
    obtain ⟨log', s₃, hlog, h⟩ := bind_eq_ok.mp h
    cases h
    have hrests : Rests s { s with queue := [] } := .of_store_eq (AllowsAll.dequeue s) rfl rfl rfl
    have hround := round_bodies hbodies hroom (hs.grows hrests.grows rfl) (hj.still hrests.toVisits) rfl hinside
    have hnext := ih hlog hround.room hround.orderly hround.journaled hround.inside hround.slabs
    refine ⟨hnext.queue, fun b hb => ?_, ?_, ?_⟩
    · rcases List.mem_append.mp hb with hb | hb
      · exact hslabs b hb
      · exact (hnext.slabs b hb).trans hround.slab
    · rw [List.map_append]
      have hblocks := hnext.blocks.trans (hround.blocks.flatMap_right _)
      exact (hblocks.append_left _).trans (perm_blocks _)
    · obtain ⟨claims, hlinks, hclaims⟩ := hround.claims
      obtain ⟨claims', hlinks', hclaims'⟩ := hnext.claims
      exact ⟨claims ++ claims', by rw [hlinks', hlinks, List.append_assoc], perm_claims hclaims hround.blocks hclaims'⟩

/-- A job checks its body first, and then the bodies of all procedures that are nested in it, each once. It claims
exactly their link names. -/
theorem bodyLog_spec {b : Body} (h : bodyLog config b s = .ok log t) (hroom : ¬ s.collector.isFatal) (hs : s.Orderly)
    (hj : s.Journaled []) (hqueue : s.queue = []) :
    ∃ rest, log = b :: rest ∧ t.queue = [] ∧ (rest.map Body.block).Perm (b.block.nested.filterMap ProcDecl.ownBody) ∧
      (∀ c ∈ rest, c.entity.slab = s.store.current.id) ∧
      ∃ claims, t.links = s.links ++ claims ∧ claims.Perm (claimsOf b.block.nested) := by
  obtain ⟨_, s₁, hbody, h⟩ := bind_eq_ok.mp h
  obtain ⟨rest, s₂, hlog, h⟩ := bind_eq_ok.mp h
  cases h
  have hinside : ∀ c ∈ [b], c.block.Inside b.block.procs (b.block.nesting + 1) := by
    intro c hc
    rw [List.mem_singleton.mp hc]
    exact ⟨List.Subset.refl _, Nat.lt_succ_self _⟩
  rw [← bodies_singleton] at hbody
  have hround := round_bodies hbody hroom hs hj hqueue hinside
  have hdrains := drains_drainLog hlog hround.room hround.orderly hround.journaled hround.inside hround.slabs
  obtain ⟨claims, hlinks, hclaims⟩ := hround.claims
  obtain ⟨claims', hlinks', hclaims'⟩ := hdrains.claims
  have hall := perm_claims hclaims hround.blocks hclaims'
  refine ⟨rest, rfl, hdrains.queue, ?_, fun c hc => (hdrains.slabs c hc).trans hround.slab, claims ++ claims', ?_, ?_⟩
  · have hblocks := hdrains.blocks.trans (hround.blocks.flatMap_right _)
    rw [List.map_singleton, List.flatMap_singleton, ← filterMap_withNested, ← Block.nested_eq] at hblocks
    exact hblocks
  · rw [hlinks', hlinks, List.append_assoc]
  · rwa [List.map_singleton, List.flatMap_singleton] at hall

end Check

end Statics
