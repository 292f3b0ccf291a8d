import Statics.Proofs.Captures
import Statics.Proofs.Constants.Operands

/-!
# Operators on integer constants

What negation, the arithmetic operators and conversions make of operands that are integer constants: a constant with the
exact result, in the range of its type, or a report and an invalid operand. Arithmetic on constants is that over the
unbounded integers, followed by one range check.
-/

namespace Statics

variable {c : Constant} {p : Problem}

/-! ## Arithmetic on constants -/

namespace BinaryOp

/-- The operators of integer arithmetic. -/
def isArithmetic : BinaryOp → Bool
  | add | sub | mul | div | rem => true
  | _ => false

/-- The operators that have a divisor. -/
def isDivision : BinaryOp → Bool
  | div | rem => true
  | _ => false

/-- Arithmetic over the unbounded integers. Division truncates, and a remainder has the sign of the dividend. -/
def integer? (op : BinaryOp) (v w : Int) : Option Int :=
  match op with
  | add => some (v + w)
  | sub => some (v - w)
  | mul => some (v * w)
  | div => if w = 0 then none else some (v.tdiv w)
  | rem => if w = 0 then none else some (v.tmod w)
  | _ => none

end BinaryOp

namespace Constant

theorem ofInt_eq_ok_iff {v : Int} : ofInt v = .ok c ↔ ∃ u : Int128, c = .int u ∧ v = u.toInt := by
  unfold ofInt
  cases hv : Int128.ofInt? v with
  | some w =>
    have hw := Int128.ofInt?_eq_some_iff.mp hv
    constructor
    · intro h
      cases h
      exact ⟨w, rfl, hw.symm⟩
    · rintro ⟨u, rfl, hu⟩
      rw [Int128.ext (hw.trans hu)]
  | none =>
    simp only [reduceCtorEq, false_iff, not_exists, not_and]
    rintro u - hu
    rw [hu, Int128.ofInt?_toInt] at hv
    cases hv

/-- Arithmetic on integers is exact. It has no result where the exact one needs more than 128 bits or the divisor is
zero, and none for the remainder of the least value by minus one, which is zero. -/
theorem integers_eq_ok_iff {v w : Int} :
    integers op v w = .ok c ↔ ∃ u : Int128, c = .int u ∧ op.integer? v w = some u.toInt ∧
      ¬ (op = .rem ∧ v = -Int128.bound ∧ w = -1) := by
  cases op with
  | add => simp [integers, BinaryOp.integer?, ofInt_eq_ok_iff]
  | sub => simp [integers, BinaryOp.integer?, ofInt_eq_ok_iff]
  | mul => simp [integers, BinaryOp.integer?, ofInt_eq_ok_iff]
  | div =>
    by_cases hw : w = 0
    · simp [integers, BinaryOp.integer?, hw]
    · simp [integers, BinaryOp.integer?, hw, ofInt_eq_ok_iff]
  | rem =>
    by_cases hw : w = 0
    · simp [integers, BinaryOp.integer?, hw]
    · by_cases hleast : v = -Int128.bound ∧ w = -1
      · simp [integers, hleast]
      · have hcheck : (v == -Int128.bound && w == -1) = false := by simpa using hleast
        simp [integers, BinaryOp.integer?, hcheck, hw, hleast, ofInt_eq_ok_iff]
  | _ => simp [integers, BinaryOp.integer?]

/-- Where the divisor is not zero, arithmetic fails only for lack of room. -/
theorem integers_eq_error {v w : Int} {reason : FoldError} (hop : op.isArithmetic)
    (hw : op.isDivision → w ≠ 0) (h : integers op v w = .error reason) : reason = .overflow := by
  have hofInt {u : Int} (h : ofInt u = .error reason) : reason = .overflow := by
    unfold ofInt at h
    split at h
    · cases h
    · cases h
      rfl
  cases op with
  | add => exact hofInt h
  | sub => exact hofInt h
  | mul => exact hofInt h
  | div =>
    have hw := hw rfl
    simp only [integers, beq_iff_eq, hw, if_false] at h
    exact hofInt h
  | rem =>
    have hw := hw rfl
    simp only [integers, beq_iff_eq, hw, if_false] at h
    split at h
    · cases h
      rfl
    · exact hofInt h
  | _ => cases hop

end Constant

/-! ## Looking at a state -/

/-- What a run that declares nothing does: it reports, takes notes, and marks entities as used. -/
structure Pass.Inspects (s t : Pass) : Prop where
  marks : s.Marks { s with store := t.store }
  count : s.collector.count ≤ t.collector.count

theorem Pass.Marks.lookup {s t : Pass} (h : s.Marks t) (f : ScopeId) (name : String) :
    t.store.arena.lookup f name = s.store.arena.lookup f name := by
  have hlocal (f : ScopeId) : t.store.arena.lookupLocal f name = s.store.arena.lookupLocal f name := by
    simp only [Arena.lookupLocal, Arena.scope, h.scopes]
  simp only [Arena.lookup, h.chain, hlocal]

namespace Pass.Inspects

variable {s t u : Pass}

theorem refl (s : Pass) : s.Inspects s := ⟨.of_store_eq rfl rfl, Nat.le_refl _⟩

theorem trans (h : s.Inspects t) (h' : t.Inspects u) : s.Inspects u :=
  ⟨h.marks.trans ⟨rfl, h'.marks.scopes, h'.marks.scopeCount, h'.marks.types, h'.marks.entities⟩,
    Nat.le_trans h.count h'.count⟩

theorem report (s : Pass) (d : Diagnostic) : s.Inspects { s with collector := (s.collector.report d).1 } := by
  refine ⟨.of_store_eq rfl rfl, ?_⟩
  unfold Collector.report
  split
  · exact Nat.le_refl _
  · exact Nat.le_succ _

instance : Observes Pass.Inspects where
  refl := refl
  trans := trans
  report s d _ _ := report s d
  annotate _ _ _ := ⟨.of_store_eq rfl rfl, Nat.le_refl _⟩
  refer _ _ _ := ⟨.of_store_eq rfl rfl, Nat.le_refl _⟩
  define _ _ _ := ⟨.of_store_eq rfl rfl, Nat.le_refl _⟩
  markUsed s e := ⟨.markUsed s e, Nat.le_refl _⟩

theorem hasBasics (h : s.Inspects t) (hs : s.store.arena.HasBasics) : t.store.arena.HasBasics :=
  fun k => (h.marks.types _).trans (hs k)

end Pass.Inspects

/-! ## Operators on integer constants -/

namespace Arena.HasBasics

variable {a : Arena} (h : a.HasBasics)

include h

theorem kindIs_basic (k : Kind) (p : Kind → Bool) : a.kindIs (.basic k) p = p k := by rw [kindIs, h.kind?_basic]

theorem identical_basic (k l : Kind) : a.identical (.basic k) (.basic l) = (k == l) := by
  have htype (k : Kind) : a.type (.basic k) = .basic k := by rw [type, h k, Option.getD_some]
  simp only [identical, identicalWithin, htype]
  by_cases hkl : k = l
  · simp [hkl]
  · have hne : (TypeId.basic k == TypeId.basic l) = false := by
      cases k <;> cases l <;> first | exact absurd rfl hkl | rfl
    simp [hne]

/-- A type of integers stores an integer that is in its range. -/
theorem stored?_int (hk : k.isInteger) (v : Int128) :
    a.stored? (.basic k) (.int v) = if k.holds v.toInt then some (.int v) else none := by
  simp only [stored?, h.kind?_basic, Constant.represent?, hk, Constant.toInteger?, if_true]
  by_cases huntyped : k.isUntyped
  · have hholds : k.holds v.toInt := by cases k <;> first | rfl | cases huntyped
    rw [if_pos huntyped, if_pos hholds]
  · rw [if_neg huntyped]

/-- Arithmetic is defined on types of integers. -/
theorem defines_basic (hk : k.isInteger) (hop : op.isArithmetic) : a.defines op (.basic k) := by
  have hnumeric : a.isNumeric (.basic k) := by simp [isNumeric, h.kindIs_basic, Kind.isNumeric, hk]
  have henum : a.isEnum (.basic k) = false := by simp [isEnum, h.base_basic]
  have hinteger : a.isInteger (.basic k) := by simp [isInteger, h.kindIs_basic, hk]
  cases op with
  | add => simp [defines, hnumeric]
  | sub => exact hnumeric
  | mul => exact hnumeric
  | div => exact hnumeric
  | rem => simp [defines, hinteger, henum]
  | _ => cases hop

end Arena.HasBasics

/-- An operand is an integer constant in the range of its type. -/
structure Operand.IsInt (x : Operand) (k : Kind) (v : Int128) : Prop where
  mode : x.mode = .constant
  value : x.constant? = some (.int v)
  type : x.type = .basic k
  integer : k.isInteger
  range : k.holds v.toInt

namespace Operand.IsInt

variable {x : Operand} {k : Kind} {v : Int128}

theorem isInvalid (h : x.IsInt k v) : x.isInvalid = false := by simp [Operand.isInvalid, h.mode]

theorem isValue (h : x.IsInt k v) : x.mode.isValue := by simp [h.mode, Mode.isValue]

theorem constant (hk : k.isInteger) (hv : k.holds v.toInt) (id : NodeId) :
    (Operand.constant (.basic k) (.int v) id).IsInt k v := ⟨rfl, rfl, rfl, hk, hv⟩

end Operand.IsInt

/-- An operand is invalid, and an error was reported since a state. -/
structure Operand.Rejected (x : Operand) (s t : Pass) : Prop where
  mode : x.mode = .invalid
  count : s.collector.count < t.collector.count

namespace Operand.Rejected

variable {x y : Operand} {s t u : Pass}

theorem isInvalid (h : x.Rejected s t) : x.isInvalid := by simp [Operand.isInvalid, h.mode]

/-- What comes before and after takes no report back. -/
theorem mono (h : x.Rejected s t) {r : Pass} (hr : r.Inspects s) (hu : t.Inspects u) (hy : y.mode = .invalid) :
    y.Rejected r u :=
  ⟨hy, Nat.lt_of_le_of_lt hr.count (Nat.lt_of_lt_of_le h.count hu.count)⟩

end Operand.Rejected

namespace Check

variable {s t : Pass} {x y z : Operand} {k l : Kind} {v w : Int128} {token : Token} {op : BinaryOp} {id : NodeId}
  {e operand arg : Expr}

theorem Gives.of_typeText {u : TypeId} {text : String} (h : Gives (typeText u) s text t) : s = t := by
  cases h.run
  rfl

theorem report_count (h : Gives (report token p) s () t) : t.collector.count = s.collector.count + 1 := by
  have hrun := h.run
  unfold report emit Collector.report at hrun
  split at hrun
  case h_1 collector hreport =>
    cases hrun
    split at hreport
    · cases hreport
    · cases congrArg Prod.fst hreport
      rfl
  case h_2 => cases hrun

theorem rejected_fail (h : Gives (fail token p id) s x t) : x.Rejected s t := by
  obtain ⟨⟨⟩, u, hreport, h⟩ := h.bind
  obtain ⟨rfl, rfl⟩ := h.of_pure
  exact ⟨rfl, by rw [report_count hreport]; exact Nat.lt_succ_self _⟩

theorem unary_negate (hb : s.store.arena.HasBasics) (hx : x.IsInt k v) :
    unary e .negate operand x s = unaryConstant e (.basic k) (Constant.ofInt (-v.toInt)) s := by
  have hnumeric : s.store.arena.isNumeric (.basic k) := by
    simp [Arena.isNumeric, hb.kindIs_basic, Kind.isNumeric, hx.integer]
  simp only [unary, hx.isInvalid, hx.isValue, Bool.false_eq_true, if_false, Bool.not_true]
  show opposite e .negate x (s.store.arena.isNumeric x.type) Constant.negate s = _
  simp only [opposite, hx.type, hnumeric, if_true, hx.mode, hx.value, Option.map_some, Option.getD_some,
    Constant.negate]

theorem moves_negate (e operand : Expr) (x : Operand) : Moves Pass.Inspects (unary e .negate operand x) := by
  unfold unary
  grind

/-- The opposite of an integer constant is exact, or reported. -/
theorem negate_exact (hb : s.store.arena.HasBasics) (hx : x.IsInt k v)
    (h : Gives (unary e .negate operand x) s z t) : (∃ u, z.IsInt k u ∧ u.toInt = -v.toInt) ∨ z.Rejected s t := by
  have h : Gives (unaryConstant e (.basic k) (Constant.ofInt (-v.toInt))) s z t :=
    ⟨(unary_negate hb hx).symm.trans h.run⟩
  unfold unaryConstant at h
  split at h
  · exact .inr (rejected_fail h)
  · rename_i c hc
    obtain ⟨u, rfl, hu⟩ := Constant.ofInt_eq_ok_iff.mp hc
    have h := h.readArena
    rw [hb.stored?_int hx.integer] at h
    by_cases hrange : k.holds u.toInt
    · rw [if_pos hrange] at h
      obtain ⟨rfl, -⟩ := h.of_pure
      exact .inl ⟨u, .constant hx.integer hrange _, hu.symm⟩
    · rw [if_neg hrange] at h
      obtain ⟨text, s₂, htext, h⟩ := h.bind
      obtain rfl := htext.of_typeText
      exact .inr (rejected_fail h)

/-- An untyped integer whose opposite fits has it. -/
theorem negate_fits (hb : s.store.arena.HasBasics) (hx : x.IsInt .untypedInt v) {u : Int128} (hu : u.toInt = -v.toInt) :
    Gives (unary e .negate operand x) s (.constant (.basic .untypedInt) (.int u) e.id) s := by
  have hok : Constant.ofInt (-v.toInt) = .ok (.int u) := Constant.ofInt_eq_ok_iff.mpr ⟨u, rfl, hu.symm⟩
  refine ⟨(unary_negate hb hx).trans ?_⟩
  rw [hok]
  refine bind_eq_ok.mpr ⟨_, s, rfl, ?_⟩
  rw [hb.stored?_int rfl]
  rfl

/-! ### Two operands -/

/-- Operands that are both untyped or both not stay as they are. -/
theorem balance_same (hb : s.store.arena.HasBasics) (hx : x.IsInt k v) (hy : y.IsInt l w)
    (h : k.isUntyped = l.isUntyped) : Gives (balance x y token) s (x, y) s := by
  refine ⟨bind_eq_ok.mpr ⟨_, s, rfl, ?_⟩⟩
  have hfloat : l ≠ .untypedFloat ∧ k ≠ .untypedFloat := by
    refine ⟨?_, ?_⟩
    · rintro rfl
      cases hy.integer
    · rintro rfl
      cases hx.integer
  simp only [hx.type, hy.type, Arena.isUntyped, hb.kindIs_basic, hb.kind?_basic, h]
  cases l.isUntyped
  · rfl
  · simp only [beq_iff_eq, Option.some.injEq, hfloat, if_false]
    rfl

/-- An untyped integer takes the type of integers that is wanted, or that is reported. -/
theorem convertUntyped_int (hb : s.store.arena.HasBasics) (hx : x.IsInt .untypedInt v) (hk : k.isInteger)
    (hsettled : k.isUntyped = false) (h : Gives (convertUntyped x (.basic k) token) s z t) :
    z.IsInt k v ∨ z.Rejected s t := by
  have h := h.readArena
  have hinvalid : s.store.arena.isInvalid (.basic k) = false :=
    hb.isInvalid_of_kindIs (p := Kind.isInteger) rfl (by rw [hb.kindIs_basic, hk])
  have haccepts : k.accepts .untypedInt := by simp [Kind.accepts, Kind.isNumeric, hk]
  have huntyped : Kind.untypedInt.isUntyped := rfl
  simp only [hx.isInvalid, hx.type, Arena.isUntyped, hb.kindIs_basic, hb.kind?_basic, hinvalid, hsettled, haccepts,
    huntyped, Bool.not_true, Bool.or_self, Bool.false_eq_true, if_false, if_true, convertTo, hx.value,
    Constant.represent?, hk, Constant.toInteger?] at h
  by_cases hrange : k.holds v.toInt
  · simp only [hrange, if_true] at h
    obtain ⟨rfl, -⟩ := h.of_pure
    exact .inl ⟨hx.mode, rfl, rfl, hk, hrange⟩
  · simp only [hrange, Bool.false_eq_true, if_false] at h
    obtain ⟨text, s₂, htext, h⟩ := h.bind
    obtain rfl := htext.of_typeText
    obtain ⟨⟨⟩, s₃, hreport, h⟩ := h.bind
    obtain ⟨rfl, rfl⟩ := h.of_pure
    exact .inr ⟨rfl, by rw [report_count hreport]; exact Nat.lt_succ_self _⟩

/-- Untyped integers are of the one untyped kind. -/
theorem eq_untypedInt (hk : k.isInteger) (huntyped : k.isUntyped) : k = .untypedInt := by
  revert hk huntyped
  cases k <;> decide

/-- Balancing two integer constants keeps their values, and their types where those are the same, unless one of them is
rejected. -/
theorem balance_ints (hb : s.store.arena.HasBasics) (hx : x.IsInt k v) (hy : y.IsInt l w) {p : Operand × Operand}
    (h : Gives (balance x y token) s p t) :
    (∃ k' l', p.1.IsInt k' v ∧ p.2.IsInt l' w ∧ (k = l → k' = k)) ∨ p.1.Rejected s t ∨ p.2.Rejected s t := by
  by_cases hsame : k.isUntyped = l.isUntyped
  · cases (balance_same hb hx hy hsame).run.symm.trans h.run
    exact .inl ⟨k, l, hx, hy, fun _ => rfl⟩
  have h := h.readArena
  simp only [hx.type, hy.type, Arena.isUntyped, hb.kindIs_basic] at h
  cases hl : l.isUntyped with
  | true =>
    obtain rfl := eq_untypedInt hy.integer hl
    have hk : k.isUntyped = false := by simpa [hl] using hsame
    rw [hk] at h
    obtain ⟨z, s₂, hconvert, h⟩ := h.bind
    obtain ⟨rfl, rfl⟩ := h.of_pure
    rcases convertUntyped_int hb hy hx.integer hk hconvert with hz | hz
    · exact .inl ⟨k, k, hx, hz, fun _ => rfl⟩
    · exact .inr (.inr hz)
  | false =>
    have hk : k.isUntyped = true := by simpa [hl] using hsame
    obtain rfl := eq_untypedInt hx.integer hk
    rw [hl] at h
    obtain ⟨z, s₂, hconvert, h⟩ := h.bind
    obtain ⟨rfl, rfl⟩ := h.of_pure
    rcases convertUntyped_int hb hx hy.integer hl hconvert with hz | hz
    · refine .inl ⟨l, l, hz, hy, ?_⟩
      rintro rfl
      rfl
    · exact .inr (.inl hz)

theorem binary_int (hop : op.isArithmetic) :
    Constant.binary op (.int v) (.int w) = Constant.integers op v.toInt w.toInt := by
  cases op <;> first | rfl | cases hop

/-- Folding two integer constants with a divisor that is not zero is exact, or reported. -/
theorem fold_ints (hb : s.store.arena.HasBasics) (hop : op.isArithmetic) (hw : op.isDivision → w.toInt ≠ 0)
    (hx : x.IsInt k v) (hy : y.IsInt k w) (h : Gives (fold token op (.basic k) x y id) s z t) :
    (∃ u, z.IsInt k u ∧ op.integer? v.toInt w.toInt = some u.toInt ∧
      ¬ (op = .rem ∧ v.toInt = -Int128.bound ∧ w.toInt = -1)) ∨ z.Rejected s t := by
  have hcomparison : op.isComparison = false := by cases op <;> first | rfl | cases hop
  simp only [fold, hcomparison, Bool.false_eq_true, if_false, hx.mode, hy.mode, hx.value, hy.value, binary_int hop] at h
  split at h
  · rename_i c hc
    obtain ⟨u, rfl, hexact, hleast⟩ := Constant.integers_eq_ok_iff.mp hc
    have h := h.readArena
    rw [hb.stored?_int hx.integer] at h
    by_cases hrange : k.holds u.toInt
    · rw [if_pos hrange] at h
      obtain ⟨rfl, -⟩ := h.of_pure
      exact .inl ⟨u, .constant hx.integer hrange _, hexact, hleast⟩
    · rw [if_neg hrange] at h
      obtain ⟨text, s₂, htext, h⟩ := h.bind
      obtain rfl := htext.of_typeText
      exact .inr (rejected_fail h)
  · exact .inr (rejected_fail h)
  · rename_i reason hoverflow hc
    exact absurd (Constant.integers_eq_error hop hw hc) hoverflow

theorem isZero_int (hy : y.IsInt l w) : isZero y = true ↔ w.toInt = 0 := by
  simp [isZero, hy.mode, hy.value, Constant.isZero]

theorem division_iff : (op == .div || op == .rem) = op.isDivision := by cases op <;> rfl

/-- Combining two integer constants is exact, or reported. -/
theorem combine_ints (hb : s.store.arena.HasBasics) (hop : op.isArithmetic) (hx : x.IsInt k v) (hy : y.IsInt l w)
    (h : Gives (combine token op x y id) s z t) :
    (∃ u, z.IsInt k u ∧ op.integer? v.toInt w.toInt = some u.toInt ∧
      ¬ (op = .rem ∧ v.toInt = -Int128.bound ∧ w.toInt = -1)) ∨ z.Rejected s t := by
  have h := h.readArena
  rw [hx.type, hy.type, hb.identical_basic, division_iff] at h
  split at h
  · exact .inr (rejected_fail h)
  · rename_i hsame
    obtain rfl : k = l := by simpa using hsame
    rw [hb.defines_basic hx.integer hop] at h
    simp only [Bool.not_true, Bool.false_eq_true, if_false] at h
    split at h
    · exact .inr (rejected_fail h)
    · rename_i hdivisor
      refine fold_ints hb hop (fun hdivision hzero => hdivisor ?_) hx hy h
      rw [hdivision, (isZero_int hy).mpr hzero, Bool.and_self]

/-- Arithmetic on two integer constants is exact, or reported. Untyped operands have an untyped result. -/
theorem binary_exact (hb : s.store.arena.HasBasics) (hop : op.isArithmetic) (hx : x.IsInt k v) (hy : y.IsInt l w)
    (h : Gives (binary token op x y id) s z t) :
    (∃ m u, z.IsInt m u ∧ (k = l → m = k) ∧ op.integer? v.toInt w.toInt = some u.toInt ∧
      ¬ (op = .rem ∧ v.toInt = -Int128.bound ∧ w.toInt = -1)) ∨ z.Rejected s t := by
  simp only [binary, hx.isInvalid, hy.isInvalid, hx.isValue, hy.isValue, Bool.or_self, Bool.not_true,
    Bool.false_eq_true, if_false] at h
  obtain ⟨p, u, hbalance, h⟩ := h.bind
  have hinspects : s.Inspects u := moves_balance.ok hbalance.run
  rcases balance_ints hb hx hy hbalance with ⟨k', l', hx', hy', hsame⟩ | hrejected
  · simp only [hx'.isInvalid, hy'.isInvalid, Bool.or_self, Bool.false_eq_true, if_false] at h
    rcases combine_ints (hinspects.hasBasics hb) hop hx' hy' h with ⟨m, hz, hexact⟩ | hz
    · exact .inl ⟨k', m, hz, hsame, hexact⟩
    · exact .inr (hz.mono hinspects (.refl t) hz.mode)
  · have hinvalid : (p.1.isInvalid || p.2.isInvalid) = true := by
      rcases hrejected with hz | hz <;> simp [hz.isInvalid]
    rw [if_pos hinvalid] at h
    obtain ⟨rfl, rfl⟩ := h.of_pure
    rcases hrejected with hz | hz <;> exact .inr (hz.mono (.refl s) (.refl u) rfl)

/-- Untyped integers whose result fits have it. -/
theorem binary_fits (hb : s.store.arena.HasBasics) (hop : op.isArithmetic) (hx : x.IsInt .untypedInt v)
    (hy : y.IsInt .untypedInt w) {u : Int128} (hw : op.isDivision → w.toInt ≠ 0)
    (hu : Constant.integers op v.toInt w.toInt = .ok (.int u)) :
    Gives (binary token op x y id) s (.constant (.basic .untypedInt) (.int u) id) s := by
  have hcomparison : op.isComparison = false := by cases op <;> first | rfl | cases hop
  have hdivisor : (op.isDivision && isZero y) = false := by
    rw [Bool.and_eq_false_imp]
    exact fun hdivision => by simpa using fun hzero => hw hdivision ((isZero_int hy).mp hzero)
  simp only [binary, hx.isInvalid, hy.isInvalid, hx.isValue, hy.isValue, Bool.or_self, Bool.not_true,
    Bool.false_eq_true, if_false]
  refine ⟨bind_eq_ok.mpr ⟨(x, y), s, (balance_same hb hx hy rfl).run, ?_⟩⟩
  simp only [hx.isInvalid, hy.isInvalid, Bool.or_self, Bool.false_eq_true, if_false]
  refine bind_eq_ok.mpr ⟨_, s, rfl, ?_⟩
  rw [hx.type, hy.type, hb.identical_basic, division_iff, hdivisor, hb.defines_basic hx.integer hop]
  simp only [beq_self_eq_true, Bool.not_true, Bool.false_eq_true, if_false, fold, hcomparison, hx.mode, hy.mode,
    hx.value, hy.value, binary_int hop, hu]
  refine bind_eq_ok.mpr ⟨_, s, rfl, ?_⟩
  rw [hb.stored?_int rfl]
  rfl

/-! ### Conversions -/

/-- The conversion of an integer constant to a type of integers keeps its value, or is reported. -/
theorem convert_exact (hb : s.store.arena.HasBasics) (hk : k.isInteger) (hsettled : k.isUntyped = false)
    (hx : x.IsInt l v) (h : Gives (convert e (.basic k) arg x) s z t) : z.IsInt k v ∨ z.Rejected s t := by
  have h := h.readArena
  have hinvalid : s.store.arena.isInvalid (.basic k) = false :=
    hb.isInvalid_of_kindIs (p := Kind.isInteger) rfl (by rw [hb.kindIs_basic, hk])
  have hconversion :
      constantConversion? (.int v) (some k) = some (if k.holds v.toInt then some (.int v) else none) := by
    simp [constantConversion?, hsettled, Constant.toFloat?, Kind.isNumeric, hk, Constant.represent?,
      Constant.toInteger?]
  simp only [hx.isInvalid, hinvalid, hx.mode, hx.value, hb.kind?_basic, hconversion, Bool.or_self, Bool.false_eq_true,
    if_false] at h
  by_cases hrange : k.holds v.toInt
  · rw [if_pos hrange] at h
    obtain ⟨rfl, -⟩ := h.of_pure
    exact .inl (.constant hk hrange _)
  · rw [if_neg hrange] at h
    exact .inr (rejected_fail h)

end Check

end Statics
