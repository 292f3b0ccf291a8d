import Statics.Source.Printer
import Statics.Types.Basic

/-!
# Text of types

A type is written in the notation of type expressions. Named types are written by name, so only structural types nest,
and nesting stops after 32 levels.
-/

namespace Statics.Arena

/-- Text of a field with its type. -/
def fieldText (a : Arena) (typeText : TypeId → String) (f : EntityId) : String :=
  let field := a.entity f
  exposingText field.isAnonymous ++ field.name ++ ": " ++ (field.type.map typeText).getD "?"

/-- Text of a type, with dots in place of everything deeper than `fuel` levels. -/
def typeTextWithin (a : Arena) : Nat → TypeId → String
  | 0, _ => "..."
  | fuel + 1, t =>
    match a.type t with
    | .basic k => k.name
    | .named name _ _ => name
    | .pointer elem => "^" ++ typeTextWithin a fuel elem
    | .array count elem => "[" ++ toString count ++ "]" ++ typeTextWithin a fuel elem
    | .slice elem => "[]" ++ typeTextWithin a fuel elem
    | .record form fields =>
      form.keyword ++ " \x7b" ++ "; ".intercalate (fields.map (a.fieldText (typeTextWithin a fuel))) ++ "\x7d"
    | .enum base members =>
      "enum " ++ typeTextWithin a fuel base ++ " \x7b" ++
        ", ".intercalate (members.map fun m => (a.entity m).name) ++ "\x7d"
    | .tuple items => "(" ++ ", ".intercalate (items.map (typeTextWithin a fuel)) ++ ")"
    | .proc params results =>
      "proc(" ++ ", ".intercalate (params.map (typeTextWithin a fuel)) ++ ")" ++
        arrowText (results.map (typeTextWithin a fuel))

/-- Text of a type. -/
def typeText (a : Arena) (t : TypeId) : String :=
  typeTextWithin a 33 t

end Statics.Arena
