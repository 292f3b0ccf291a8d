import Statics.Check.Stmt
import Statics.Proofs.Doubles

/-!
# Repeated cases

The cases of a switch are sorted by keys before they are compared. Equal constants have equal keys, although integers
are sorted by the doubles nearest to them and the two zeros are one number: `Constant.key_eq_of_same`. So sorting
changes nothing: `switch_cases_compared_pairwise` says that a switch is checked as if every case were compared with
all earlier ones.
-/

namespace Statics

namespace Constant

/-- Constants with the same value have the same key. -/
theorem key_eq_of_same {v w : Constant} (h : v.same w) : v.key = w.key := by
  unfold same at h
  split at h
  case h_1 => simp_all [key]
  case h_2 => simp_all [key]
  case h_3 => simp_all [key]
  case h_4 =>
    split at h
    case h_1 x y hx hy =>
      have hkey : ∀ {c : Constant} {z : Float}, c.toFloat? = some z → c.key = .number (numberKey z) := by
        intro c z hc
        cases c <;> cases hc <;> rfl
      rw [hkey hx, hkey hy, numberKey_eq_of_beq h]
    case h_2 => cases h

end Constant

namespace Check

/-! ## The specification -/

/-- A case that was not reported: its value, its type as written and its place. -/
structure KnownCase where
  value : Constant
  type : TypeId
  pos : Pos

/-- Checks a case of a switch, which is compared with every known case in order. It is repeated if one of them has the
same value and an identical type. The first such one is named in the report, and a reported case does not become
known. -/
def pairwiseCase (ctx : Context) (tag : Operand) (known : List KnownCase) (e : Expr) : Check (List KnownCase) := do
  let y ← expr demand ctx .value e
  if y.isInvalid || tag.isInvalid then return known
  let matched ← binary e.token .eq tag y e.id
  if matched.isInvalid then return known
  match y.constant? with
  | none => return known
  | some v =>
    let a ← arena
    match known.find? fun p => p.value.same v && a.identical p.type y.type with
    | some first =>
      report e.token (.caseRepeated e first.pos)
      return known
    | none => return known ++ [⟨v, y.type, e.token.pos⟩]

/-- Checks the cases of a clause. -/
def pairwiseCases (ctx : Context) (tag : Operand) : List KnownCase → List Expr → Check (List KnownCase)
  | known, [] => return known
  | known, e :: rest => do pairwiseCases ctx tag (← pairwiseCase ctx tag known e) rest

/-- Checks the clauses of a switch, with the cases of all clauses before. -/
def pairwiseClauses (ctx : Context) (allowed : Permissions) (tag : Operand) : List KnownCase → List Clause → Check Unit
  | _, [] => return ()
  | known, ⟨node, cases, stmts⟩ :: rest => do
    let known ← pairwiseCases ctx tag known cases
    let scope ← openScope ctx.scope .block node.id
    hoistAll (ctx.within scope) stmts
    stmtsInOrder (ctx.within scope) (allowed.inClause !rest.isEmpty) stmts
    pairwiseClauses ctx allowed tag known rest

/-! ## Sorted cases -/

/-- A known case with its key. -/
def KnownCase.sorted (p : KnownCase) : SeenCase := ⟨p.value.key, p.value, p.type, p.pos⟩

/-- The keys do not hide an earlier case. -/
theorem previousCase?_sorted (a : Arena) (known : List KnownCase) (v : Constant) (t : TypeId) :
    previousCase? a (known.map KnownCase.sorted) v t =
      (known.find? fun p => p.value.same v && a.identical p.type t).map KnownCase.sorted := by
  rw [previousCase?, List.find?_map]
  congr 2
  funext p
  cases hsame : p.value.same v with
  | false => simp [KnownCase.sorted, hsame]
  | true => simp [KnownCase.sorted, hsame, Constant.key_eq_of_same hsame]

theorem switchCase_sorted (ctx : Context) (tag : Operand) (known : List KnownCase) (e : Expr) :
    switchCase ctx tag (known.map KnownCase.sorted) e =
      List.map KnownCase.sorted <$> pairwiseCase ctx tag known e := by
  unfold switchCase pairwiseCase
  rw [map_bind]
  refine bind_congr fun y => ?_
  split
  · rw [map_pure]
  rw [map_bind]
  refine bind_congr fun matched => ?_
  split
  · rw [map_pure]
  cases y.constant? with
  | none => exact (map_pure _ _).symm
  | some v =>
    simp only [map_bind]
    refine bind_congr fun a => ?_
    rw [previousCase?_sorted]
    cases known.find? fun p => p.value.same v && a.identical p.type y.type with
    | some first => simp [KnownCase.sorted]
    | none => simp [KnownCase.sorted]

theorem switchCases_sorted (ctx : Context) (tag : Operand) (known : List KnownCase) (es : List Expr) :
    switchCases ctx tag (known.map KnownCase.sorted) es =
      List.map KnownCase.sorted <$> pairwiseCases ctx tag known es := by
  induction es generalizing known with
  | nil => simp [switchCases, pairwiseCases]
  | cons e rest ih =>
    rw [switchCases, pairwiseCases, switchCase_sorted, bind_map_left, map_bind]
    exact bind_congr fun known' => ih known'

theorem switchClauses_sorted (ctx : Context) (allowed : Permissions) (tag : Operand) (known : List KnownCase)
    (clauses : List Clause) :
    switchClauses ctx allowed tag (known.map KnownCase.sorted) clauses = pairwiseClauses ctx allowed tag known
      clauses := by
  induction clauses generalizing known with
  | nil => rw [switchClauses, pairwiseClauses]
  | cons clause rest ih =>
    obtain ⟨node, cases, stmts⟩ := clause
    rw [switchClauses, pairwiseClauses, switchCases_sorted, bind_map_left]
    refine bind_congr fun known' => bind_congr fun scope => bind_congr fun _ => bind_congr fun _ => ih known'

end Check

/-- Repeated cases of a switch are found as if every case were compared with all earlier ones: in every state, a
switch is checked like one whose cases are compared pairwise, in the order of all its clauses. -/
theorem switch_cases_compared_pairwise (ctx : Context) (allowed : Permissions) (node : Node) (label : Option Ident)
    (init : Option Stmt) (tag : Option Expr) (clauses : List Clause) :
    Check.stmt ctx allowed (.switch node label init tag clauses) = (do
      let scope ← Check.openScope ctx.scope .block node.id
      let ctx := (ctx.within scope).labelled label false
      Check.initial ctx init
      let tag ← Check.switchTag ctx node tag
      Check.defaults "switch" none clauses
      Check.pairwiseClauses ctx allowed.withoutFall tag [] clauses) := by
  unfold Check.stmt
  refine bind_congr fun scope => bind_congr fun _ => bind_congr fun x => bind_congr fun _ => ?_
  exact Check.switchClauses_sorted _ _ x [] clauses

end Statics
