import Mathlib.Tactic.FinCases
import Statics.Proofs.Doubles
import Statics.Proofs.Signatures

/-!
# Operands match in both orders

Equality and the logical operators treat their operands alike. Which of the two is converted is decided by their
types, and where both are untyped the float stays, so `Check.balance` gives the same pair in the other order
(`Check.balance_swap`). After that both orders ask the same questions, of types that are identical: only the wording
of a report tells them apart.
-/

namespace Statics

variable {s : Pass} {x y : Operand} {token : Token} {t u : TypeId} {op : BinaryOp} {id : NodeId} {v w : Constant}

namespace Arena

variable {a : Arena}

/-- Identical types are one, or have bases that are built in the same way. -/
theorem eq_or_matches_base (h : a.identical t u) : t = u ∨ ∃ R, a.Matches R (a.base t) (a.base u) := by
  refine (identicalWithin_succ_iff.mp h).imp id fun hmatch => ?_
  obtain ⟨hbase, hbase'⟩ := hmatch.base_eq
  exact ⟨_, hbase ▸ hbase' ▸ hmatch⟩

theorem kind?_of_identical (h : a.identical t u) : a.kind? t = a.kind? u := by
  obtain rfl | ⟨R, hmatch⟩ := eq_or_matches_base h
  · rfl
  · unfold kind?
    generalize a.base t = σ, a.base u = τ at hmatch ⊢
    cases hmatch <;> rfl

/-- An operator is defined on all of some identical types or on none. -/
theorem defines_of_identical (h : a.identical t u) (op : BinaryOp) : a.defines op t = a.defines op u := by
  obtain rfl | ⟨R, hmatch⟩ := eq_or_matches_base h
  · rfl
  · have hkind := kind?_of_identical h
    simp only [defines, isNumeric, isString, isBoolean, isInteger, kindIs, hkind, isPointer, isEnum, isNillable]
    generalize a.base t = σ, a.base u = τ at hmatch ⊢
    cases hmatch <;> rfl

/-- One type, or two handles of one basic type. -/
def Same (a : Arena) (t u : TypeId) : Prop := t = u ∨ ∃ k, a.type t = .basic k ∧ a.type u = .basic k

theorem same_of_identical (h : a.identical t u) (ht : a.isBoolean t) : a.Same t u := by
  refine (identicalWithin_succ_iff.mp h).imp id fun hmatch => ?_
  have hbase := hmatch.base_eq.1
  simp only [isBoolean, kindIs, kind?, hbase] at ht
  generalize a.type t = σ, a.type u = τ at hmatch ht ⊢
  cases hmatch with
  | basic k => exact ⟨k, rfl, rfl⟩
  | _ => cases ht

end Arena

namespace Constant

theorem order_swap (v w : Constant) : (v.order w).map Ordering.isEq = (w.order v).map Ordering.isEq := by
  have hord {α : Type} [Ord α] [Std.OrientedOrd α] (a b : α) : (compare a b).isEq = (compare b a).isEq := by
    rw [Std.OrientedOrd.eq_swap, Ordering.isEq_swap]
  cases v <;> cases w <;>
    first | rfl | exact compareFloats_swap .. | exact congrArg Except.ok (hord ..)

/-- Equality and the logical operators fold two constants to the same value in both orders. -/
theorem binary_comm (hop : op ∈ [.eq, .ne, .and, .or]) : v.binary op w = w.binary op v := by
  have hholds {op : BinaryOp} (hop : op ∈ [.eq, .ne]) (r : Except FoldError Ordering) :
      (r >>= holdsOf op) = r.map Ordering.isEq >>= fun e => .ok (e == (op == .eq)) := by
    fin_cases hop <;> cases r with
    | error => rfl
    | ok o => cases o <;> rfl
  have hswap {op : BinaryOp} (hop : op ∈ [.eq, .ne]) : (v.order w >>= holdsOf op) = (w.order v >>= holdsOf op) := by
    rw [hholds hop, hholds hop, order_swap]
  fin_cases hop
  case «0» | «1» =>
    refine congrArg (Except.map bool) ?_
    cases v <;> cases w
    case bool.bool b c => cases b <;> cases c <;> rfl
    all_goals
      simp only [comparison]
      exact hswap (by simp)
  all_goals
    cases v <;> cases w
    case bool.bool b c => cases b <;> cases c <;> rfl
    all_goals simp [binary, arithmetic, integers, floats, toFloat?, BinaryOp.isComparison]

end Constant

namespace Check

theorem arena_bind {α : Type} (f : Arena → Check α) (s : Pass) : (arena >>= f) s = f s.store.arena s := rfl

theorem bind_apply {α β : Type} (x : Check α) (f : α → Check β) (s : Pass) :
    (x >>= f) s = match x s with | .ok a t => f a t | .error e t => .error e t := by
  show EStateM.bind x f s = _
  unfold EStateM.bind
  cases x s <;> rfl

theorem convertUntyped_float (hx : s.store.arena.kind? x.type = some .untypedFloat)
    (ht : s.store.arena.kind? t = some .untypedFloat) : convertUntyped x t token s = .ok x s := by
  rw [convertUntyped, arena_bind, hx, ht]
  split <;> rfl

/-- Operands are brought to one type in the same way in both orders. -/
theorem balance_swap : balance y x token = Prod.swap <$> balance x y token := by
  funext s
  simp only [balance, map_bind, arena_bind]
  cases s.store.arena.isUntyped x.type <;> cases s.store.arena.isUntyped y.type
  case true.true =>
    simp only [beq_iff_eq]
    split
    case isFalse => split <;> simp only [map_bind, map_pure, Prod.swap_prod_mk]
    case isTrue hx =>
      split
      case isFalse => simp only [map_bind, map_pure, Prod.swap_prod_mk]
      case isTrue hy =>
        -- Two floats stay as they are.
        simp only [map_bind, map_pure, Prod.swap_prod_mk, bind_apply, convertUntyped_float hx hy,
          convertUntyped_float hy hx]
  all_goals simp only [map_bind, map_pure, Prod.swap_prod_mk]

/-- Two calls come out alike: both stop or both give operands of one mode, value and type, after equally many
reports. -/
inductive Alike : EStateM.Result TooManyErrors Pass Operand → EStateM.Result TooManyErrors Pass Operand → Prop where
  | ok {z w : Operand} {s t : Pass} : z.mode = w.mode → z.constant? = w.constant? →
    s.store.arena.Same z.type w.type → s.collector.count = t.collector.count → Alike (.ok z s) (.ok w t)
  | error {e f : TooManyErrors} {s t : Pass} : s.collector.count = t.collector.count → Alike (.error e s) (.error f t)

theorem Alike.refl (r : EStateM.Result TooManyErrors Pass Operand) : Alike r r := by
  cases r with
  | ok => exact .ok rfl rfl (.inl rfl) rfl
  | error => exact .error rfl

theorem alike_fail {p q : Problem} : Alike (fail token p id s) (fail token q id s) := by
  simp only [fail, report, bind_apply, emit, Collector.report]
  by_cases hfatal : s.collector.isFatal
  · simp only [hfatal, if_true]
    exact .refl _
  by_cases hlast : s.collector.cap < s.collector.count + 1
  all_goals
    simp only [hfatal, Bool.false_eq_true, if_false]
    simp only [Collector.isFatal, hlast]
  · exact .error rfl
  · exact .ok rfl rfl (.inl rfl) rfl

theorem alike_fold (hop : op ∈ [.eq, .ne, .and, .or]) (h : s.store.arena.identical x.type y.type)
    (hdefined : s.store.arena.defines op x.type) :
    Alike (fold token op x.type x y id s) (fold token op y.type y x id s) := by
  have hsame : s.store.arena.Same (if op.isComparison then .basic .untypedBool else x.type)
      (if op.isComparison then .basic .untypedBool else y.type) := by
    fin_cases hop
    case «0» | «1» => exact .inl rfl
    all_goals exact Arena.same_of_identical h hdefined
  have hstored : s.store.arena.stored? (if op.isComparison then .basic .untypedBool else x.type) =
      s.store.arena.stored? (if op.isComparison then .basic .untypedBool else y.type) := by
    funext c
    split
    · rfl
    · rw [Arena.stored?, Arena.stored?, Arena.kind?_of_identical h]
  unfold fold
  generalize (if op.isComparison then TypeId.basic .untypedBool else x.type) = t at hsame hstored ⊢
  generalize (if op.isComparison then TypeId.basic .untypedBool else y.type) = u at hsame hstored ⊢
  have hvalue : Alike (.ok (.value t id) s) (.ok (.value u id) s) := .ok rfl rfl hsame rfl
  cases hx : x.mode <;> cases hy : y.mode <;> cases hv : x.constant? <;> cases hw : y.constant?
  case constant.constant.some.some v w =>
    simp only [Constant.binary_comm hop]
    cases v.binary op w with
    | ok c =>
      simp only [arena_bind, hstored]
      cases s.store.arena.stored? u c with
      | some => exact .ok rfl rfl hsame rfl
      | none => exact alike_fail
    | error e =>
      cases e with
      | overflow => exact alike_fail
      | _ => exact hvalue
  all_goals exact hvalue

theorem alike_combine (hop : op ∈ [.eq, .ne, .and, .or]) :
    Alike (combine token op x y id s) (combine token op y x id s) := by
  have hdiv : (op == .div || op == .rem) = false := by fin_cases hop <;> rfl
  have hidentical : s.store.arena.identical y.type x.type = s.store.arena.identical x.type y.type :=
    Bool.eq_iff_iff.mpr ⟨Arena.identicalWithin_symm, Arena.identicalWithin_symm⟩
  simp only [combine, arena_bind, hidentical, hdiv, Bool.false_and, Bool.false_eq_true, if_false, Bool.not_eq_true']
  split
  case isTrue => exact alike_fail
  case isFalse h =>
    have h := eq_true_of_ne_false h
    have hdefined := Arena.defines_of_identical h op
    rw [hdefined]
    split
    case isTrue => exact alike_fail
    case isFalse hy => exact alike_fold hop h (hdefined.trans (eq_true_of_ne_false hy))

/-- Equality and the logical operators do not depend on the order of their operands, apart from what a report says. -/
theorem operand_matching_symmetric (token : Token) (hop : op ∈ [.eq, .ne, .and, .or]) (x y : Operand) (id : NodeId)
    (s : Pass) : Alike (binary token op x y id s) (binary token op y x id s) := by
  unfold binary
  rw [Bool.or_comm y.isInvalid, Bool.or_comm (!y.mode.isValue), balance_swap (x := x)]
  split
  · exact .refl _
  split
  · exact alike_fail
  rw [bind_map_left]
  simp only [bind_apply]
  split
  case h_1 p t _ =>
    rw [Prod.fst_swap, Prod.snd_swap, Bool.or_comm p.2.isInvalid]
    split
    · exact .refl _
    · exact alike_combine hop
  case h_2 => exact .refl _

/-- A `nil` matches a pointer from both sides. -/
theorem operand_matching_symmetric_nil :
    let s : Pass := .start Universe.store [] (.empty 10)
    let x : Operand := .value (.basic .untypedNil) 1
    let y : Operand := .var (.basic .rawptr) 2
    BinaryOp.ne ∈ [.eq, .ne, .and, .or] ∧ Alike (binary default .ne x y 3 s) (binary default .ne y x 3 s) :=
  ⟨by decide, operand_matching_symmetric _ (by decide) ..⟩

end Check

end Statics
