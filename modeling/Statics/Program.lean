import Statics.Check.Body
import Statics.Check.FileLevel
import Statics.Universe

/-!
# Checking a program

`checkFiles` runs the pass over the file level, then a job for every procedure body. A job reads the slab of the file
level and writes one of its own, so jobs do not see one another; only link names and diagnostics are passed along. The
slabs and annotations of the jobs are put together at the end.
-/

namespace Statics

/-- What all passes share. -/
structure Shared where
  links : List (String × Pos)
  collector : Collector

/-- What a job hands back. -/
structure JobResult where
  slab : Slab
  notes : Annotations
  stop : Option TooManyErrors

/-- Why a step stopped, if it did, and the state in either case. -/
def Check.outcome (x : Check Unit) (s : Pass) : Option TooManyErrors × Pass :=
  match x s with
  | .ok _ s => (none, s)
  | .error stop s => (some stop, s)

/-- Checks one body in a slab of its own. -/
def runJob (config : Config) (frozen : List Slab) (id : Nat) (b : Body) (shared : Shared) : JobResult × Shared :=
  let start := Pass.start ⟨.empty id, frozen⟩ shared.links shared.collector
  let (stop, s) := (Check.bodyAndNested config b).outcome start
  (⟨s.store.current, s.notes, stop⟩, ⟨s.links, s.collector⟩)

/-- Checks bodies in slabs numbered from `id`. A stop ends the run, unless the bodies are checked at the same time. -/
def runJobs (config : Config) (frozen : List Slab) : Nat → List Body → Shared → List JobResult × Shared
  | _, [], shared => ([], shared)
  | id, b :: rest, shared =>
    let (result, shared) := runJob config frozen id b shared
    if result.stop.isSome && !config.parallel then ([result], shared)
    else
      let (results, shared) := runJobs config frozen (id + 1) rest shared
      (result :: results, shared)

/-- A checked program, or one on the way to it. `stop` says that the cap on errors was passed. -/
structure Program where
  config : Config
  arena : Arena
  notes : Annotations
  collector : Collector
  files : List (String × ScopeId)
  imports : List EntityId
  stop : Option TooManyErrors

namespace Program

/-- A program without files. -/
def start (config : Config) : Program :=
  ⟨config, Universe.store.arena, .empty, .empty config.errorCap, [], [], none⟩

/-- Adds what a job found. The first stop counts. -/
def absorb (p : Program) (r : JobResult) : Program :=
  { p with arena := p.arena.absorb r.slab, notes := p.notes.merge r.notes, stop := p.stop.or r.stop }

/-- Warnings about imports that nothing uses. -/
def unusedImports (p : Program) : List Diagnostic :=
  (p.imports.filter fun e => !(p.arena.entity e).used).map fun e =>
    let x := p.arena.entity e
    (Problem.importUnused x.name).warning x.token

/-- Lists the warnings about unused imports. -/
def warnUnused (p : Program) : Program :=
  if p.config.warnUnusedImports then
    { p with collector := p.unusedImports.foldl Collector.warn p.collector }
  else p

end Program

/-- The file level of a program, with the bodies that wait. -/
def checkFileLevel (config : Config) (files : List File) : Program × Pass :=
  let start := Pass.start Universe.store [] (.empty config.errorCap)
  let (stop, s) := (Check.fileLevel config files).outcome start
  (⟨config, s.store.arena, s.notes, s.collector, s.files, s.imports, stop⟩, s)

/-- Checks files as one program. -/
def checkFiles (config : Config) (files : List File) : Program :=
  let (p, s) := checkFileLevel config files
  if p.stop.isSome then p
  else
    let (results, shared) := runJobs config p.arena.slabs 1 s.queue ⟨s.links, s.collector⟩
    let p := results.foldl Program.absorb { p with collector := shared.collector }
    if p.stop.isSome then p else p.warnUnused

end Statics
