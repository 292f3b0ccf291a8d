import Statics.Types.Basic

/-!
# Identity of types

Structural types are identical when their parts are; records compare the names and the exposure of their fields too. A
named type and an enum are identical only to themselves.
-/

namespace Statics.Arena

/-- Whether two lists of types have equal length and agree place by place. -/
def pairwise (same : TypeId → TypeId → Bool) (xs ys : List TypeId) : Bool :=
  xs.length == ys.length && (xs.zip ys).all fun p => same p.1 p.2

/-- Whether two fields agree in name, exposure and type. -/
def sameField (a : Arena) (same : TypeId → TypeId → Bool) (x y : EntityId) : Bool :=
  let x := a.entity x
  let y := a.entity y
  x.name == y.name && x.isAnonymous == y.isAnonymous &&
    match x.type, y.type with
    | some tx, some ty => same tx ty
    | _, _ => false

/-- Identity of types, looking at most `fuel` levels deep. -/
def identicalWithin (a : Arena) : Nat → TypeId → TypeId → Bool
  | 0, x, y => x == y
  | fuel + 1, x, y =>
    x == y ||
      match a.type x, a.type y with
      | .basic k, .basic l => k == l
      | .pointer p, .pointer q => identicalWithin a fuel p q
      | .slice p, .slice q => identicalWithin a fuel p q
      | .array m p, .array n q => m == n && identicalWithin a fuel p q
      | .record f ps, .record g qs =>
        f == g && ps.length == qs.length &&
          (ps.zip qs).all fun p => a.sameField (identicalWithin a fuel) p.1 p.2
      | .tuple ps, .tuple qs => pairwise (identicalWithin a fuel) ps qs
      | .proc ps rs, .proc qs ss =>
        pairwise (identicalWithin a fuel) ps qs && pairwise (identicalWithin a fuel) rs ss
      | _, _ => false

/-- Identity of types. The parts of a type are older than the type, so no type is deeper than the arena has types. -/
def identical (a : Arena) (x y : TypeId) : Bool :=
  identicalWithin a (a.typeCount + 1) x y

/-- Whether two foreign signatures may be bound to one symbol: equal counts, and at each place two pointers or identical
types. -/
def similarSignatures (a : Arena) (x y : TypeId) : Bool :=
  let similar := fun p q => (a.isPointer p && a.isPointer q) || a.identical p q
  match a.base x, a.base y with
  | .proc ps rs, .proc qs ss => pairwise similar ps qs && pairwise similar rs ss
  | _, _ => false

end Statics.Arena
