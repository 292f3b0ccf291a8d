/-!
# Stems of paths

The stem of a path is its last component up to the last dot, and the whole component when nothing stands before that
dot. Empty components and single dots are skipped. A path that ends in two dots, or that has no component, has no
stem.
-/

namespace Statics.Text

/-- Components of a path that name something. -/
def components (path : String) : List String :=
  (path.splitOn "/").filter fun c => c != "" && c != "."

/-- A file name up to its last dot, or the whole name when nothing stands before that dot. -/
def withoutExtension (name : String) : String :=
  match (name.splitOn ".").reverse with
  | _ :: before :: rest =>
    let stem := ".".intercalate (before :: rest).reverse
    if stem == "" then name else stem
  | _ => name

/-- The stem of the last component. -/
def stem? (path : String) : Option String :=
  match (components path).getLast? with
  | none => none
  | some ".." => none
  | some name => some (withoutExtension name)

end Statics.Text
