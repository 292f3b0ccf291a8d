/-!
# Configuration of a check
-/

namespace Statics

/-- Settings of a check: how many errors it takes, whether procedure bodies count as checked at the same time, whether
unused imports are reported, and which procedure a program starts with. -/
structure Config where
  errorCap : Nat
  parallel : Bool
  warnUnusedImports : Bool
  entryPoint : String
  requireEntryPoint : Bool
deriving DecidableEq, Repr

/-- The settings where nothing else is said. -/
def Config.standard : Config := ⟨10, false, true, "main", false⟩

instance : Inhabited Config := ⟨.standard⟩

end Statics
