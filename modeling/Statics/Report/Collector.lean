import Statics.Report.Diagnostic

/-!
# Collecting diagnostics

A collector takes reports of errors until their number passes a cap. An error at the place of the error before it is
counted and logged, but not listed: it is nearly always a consequence. Warnings are always listed and never counted.
-/

namespace Statics

/-- The number of errors when it passed the cap. -/
structure TooManyErrors where
  count : Nat
deriving DecidableEq, Repr

/-- The stop as one text. -/
def TooManyErrors.message (e : TooManyErrors) : String :=
  "too many errors (" ++ toString e.count ++ "), checking aborted"

/-- A diagnostic that was taken, and whether it is listed. -/
structure LogEntry where
  diagnostic : Diagnostic
  listed : Bool
deriving DecidableEq, Repr

/-- Everything taken so far. `last` is the place of the newest listed error. -/
structure Collector where
  cap : Nat
  count : Nat
  last : Option Pos
  log : List LogEntry
deriving DecidableEq, Repr

namespace Collector

/-- A collector that took nothing. -/
def empty (cap : Nat) : Collector := ⟨cap, 0, none, []⟩

/-- Whether the number of errors passed the cap. -/
def isFatal (c : Collector) : Bool := c.cap < c.count

/-- Takes an error, and stops when that passes the cap. Once the cap is passed nothing changes any more. -/
def report (c : Collector) (d : Diagnostic) : Collector × Except TooManyErrors Unit :=
  if c.isFatal then (c, .error ⟨c.count⟩)
  else
    let listed := c.last != some d.pos
    let c := { c with count := c.count + 1, last := some d.pos, log := c.log ++ [⟨d, listed⟩] }
    (c, if c.isFatal then .error ⟨c.count⟩ else .ok ())

/-- Takes a warning. -/
def warn (c : Collector) (d : Diagnostic) : Collector :=
  { c with log := c.log ++ [⟨d, true⟩] }

/-- The listed diagnostics, oldest first. -/
def diagnostics (c : Collector) : List Diagnostic :=
  (c.log.filter LogEntry.listed).map LogEntry.diagnostic

/-- The listed errors. -/
def errors (c : Collector) : List Diagnostic := c.diagnostics.filter Diagnostic.isError

/-- The listed warnings. -/
def warnings (c : Collector) : List Diagnostic := c.diagnostics.filter fun d => !d.isError

end Collector

end Statics
