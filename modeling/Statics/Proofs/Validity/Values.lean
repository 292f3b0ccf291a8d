import Statics.Proofs.Validity.Steps

/-!
# Values of types

What the rules on constants and types mean in a valid state: a constant that is brought into the form of a kind is a
value of that kind, folding stays within an untyped kind, and a value of a type is one of every type that it may be
assigned to.
-/

namespace Statics

attribute [local simp] Kind.isBoolean Kind.isInteger Kind.isFloat Kind.isString

/-! ## Constants of a kind -/

namespace Constant

variable {a b c : Constant} {k : Kind} {op : BinaryOp}

/-- The form of a constant in a kind is a value of the kind. -/
theorem fits_of_represent? (h : a.represent? k = some c) : c.Fits k := by
  unfold represent? at h
  split at h
  case isTrue hint =>
    split at h
    · split at h
      case isTrue hholds =>
        cases h
        exact ⟨hint, hholds⟩
      case isFalse => cases h
    · cases h
  case isFalse =>
    split at h
    case isTrue hfloat =>
      split at h
      · split at h
        · obtain ⟨x, -, rfl⟩ := Option.map_eq_some_iff.mp h
          exact hfloat
        · cases h
          exact hfloat
      · cases h
    case isFalse =>
      split at h
      · split at h
        case isTrue hbool =>
          cases h
          exact hbool
        case isFalse => cases h
      · split at h
        case isTrue hstring =>
          cases h
          exact hstring
        case isFalse => cases h
      · cases h

theorem isInt_of_ofInt {i : Int} (h : ofInt i = .ok c) : ∃ w, c = .int w := by
  unfold ofInt at h
  split at h
  · cases h
    exact ⟨_, rfl⟩
  · cases h

/-- Untyped integers have no bounds of their own. -/
theorem fits_untypedInt (w : Int128) : (Constant.int w).Fits .untypedInt := ⟨rfl, rfl⟩

theorem isInt_of_integers {i j : Int} (h : integers op i j = .ok c) : ∃ w, c = .int w := by
  unfold integers at h
  split at h
  · exact isInt_of_ofInt h
  · exact isInt_of_ofInt h
  · exact isInt_of_ofInt h
  · split at h
    · cases h
    · exact isInt_of_ofInt h
  · split at h
    · cases h
    · split at h
      · cases h
      · exact isInt_of_ofInt h
  · cases h

theorem isFloat_of_floats {x y : Float} (h : floats op x y = .ok c) : ∃ z, c = .float z := by
  unfold floats at h
  split at h
  · cases h
    exact ⟨_, rfl⟩
  · cases h
    exact ⟨_, rfl⟩
  · cases h
    exact ⟨_, rfl⟩
  · split at h
    · cases h
    · cases h
      exact ⟨_, rfl⟩
  · cases h

/-- Arithmetic stays within an untyped kind. -/
theorem fits_arithmetic (hk : k.isUntyped) (ha : a.Fits k) (hb : b.Fits k) (h : arithmetic op a b = .ok c) :
    c.Fits k := by
  cases a with
  | bool x =>
    cases b with
    | bool y =>
      simp only [arithmetic] at h
      split at h <;> cases h <;> exact ha
    | _ => cases k <;> simp_all [Fits]
  | str x =>
    cases b with
    | str y =>
      simp only [arithmetic] at h
      split at h <;> cases h
      exact ha
    | _ => cases k <;> simp_all [Fits]
  | int x =>
    cases b with
    | int y =>
      obtain ⟨w, rfl⟩ := isInt_of_integers h
      have hkind : k = .untypedInt := by
        cases k <;> simp_all [Fits, Kind.isUntyped]
      rw [hkind]
      exact fits_untypedInt w
    | _ => cases k <;> simp_all [Fits]
  | float x =>
    cases b with
    | float y =>
      obtain ⟨w, rfl⟩ := isFloat_of_floats h
      exact ha
    | _ => cases k <;> simp_all [Fits]

/-- A comparison gives a truth value. -/
theorem isBool_of_binary (hop : op.isComparison) (h : a.binary op b = .ok c) : ∃ p, c = .bool p := by
  rw [binary, if_pos hop] at h
  cases hcomp : comparison op a b with
  | error e =>
    rw [hcomp] at h
    cases h
  | ok p =>
    rw [hcomp] at h
    cases h
    exact ⟨p, rfl⟩

theorem fits_binary (hop : op.isComparison = false) (hk : k.isUntyped) (ha : a.Fits k) (hb : b.Fits k)
    (h : a.binary op b = .ok c) : c.Fits k := by
  rw [binary, if_neg (by simp [hop])] at h
  exact fits_arithmetic hk ha hb h

theorem fits_negate (hk : k.isUntyped) (ha : a.Fits k) (h : a.negate = .ok c) : c.Fits k := by
  cases a with
  | int x =>
    obtain ⟨w, rfl⟩ := isInt_of_ofInt h
    have hkind : k = .untypedInt := by
      cases k <;> simp_all [Fits, Kind.isUntyped]
    rw [hkind]
    exact fits_untypedInt w
  | float x =>
    cases h
    exact ha
  | bool x => cases h
  | str x => cases h

theorem fits_complement (ha : a.Fits k) (h : a.complement = .ok c) : c.Fits k := by
  cases a with
  | bool x =>
    cases h
    exact ha
  | int x => cases h
  | float x => cases h
  | str x => cases h

end Constant

/-! ## Kinds of types -/

namespace Arena

variable {a : Arena} {t : TypeId} {k : Kind} {c d : Constant}

theorem kindIs_eq_true {p : Kind → Bool} : a.kindIs t p ↔ ∃ k, a.kind? t = some k ∧ p k := by
  unfold kindIs
  split
  case h_1 k hk =>
    rw [hk]
    simp
  case h_2 hk =>
    rw [hk]
    simp

/-- A constant as a type of a basic kind stores it is a value of that kind, if folding stayed within the kind. -/
theorem fits_of_stored? (hk : a.kind? t = some k) (hc : k.isUntyped → c.Fits k) (h : a.stored? t c = some d) :
    d.Fits k := by
  rw [stored?, hk] at h
  dsimp only at h
  split at h
  case isTrue hu =>
    cases h
    exact hc hu
  case isFalse => exact Constant.fits_of_represent? h

/-- Operators other than comparisons are defined on basic kinds only. -/
theorem kind_of_defines {op : BinaryOp} (hop : op.isComparison = false) (h : a.defines op t) :
    ∃ k, a.kind? t = some k := by
  have hkindIs {p : Kind → Bool} (h : a.kindIs t p) : ∃ k, a.kind? t = some k :=
    (kindIs_eq_true.mp h).imp fun _ hk => hk.1
  cases op with
  | add =>
    rcases Bool.or_eq_true_iff.mp h with h | h
    · exact hkindIs h
    · exact hkindIs h
  | rem =>
    rw [defines, Bool.and_eq_true, isInteger, Bool.or_eq_true_iff] at h
    obtain ⟨h | h, hnot⟩ := h
    · exact hkindIs h
    · rw [h] at hnot
      cases hnot
  | sub => exact hkindIs h
  | mul => exact hkindIs h
  | div => exact hkindIs h
  | and => exact hkindIs h
  | or => exact hkindIs h
  | _ => cases hop

theorem Suits.fits_kind (h : a.Suits t c) (hk : a.kind? t = some k) : c.Fits k := by
  rw [Suits, kind?_eq_some.mp hk] at h
  exact h

end Arena

namespace View

variable {v : View} {t u : TypeId} {k : Kind} {c : Constant} {x : Operand} {τ : Ty}

theorem suits_of_kind (hk : v.arena.kind? t = some k) (hc : c.Fits k) : v.Suits t c := by
  refine ⟨?_, fun _ name e hnamed => ?_⟩
  · rw [Arena.Suits, Arena.kind?_eq_some.mp hk]
    exact hc
  · have hbase := Arena.base_of_type? hnamed fun _ _ _ h => by cases h
    rw [Arena.kind?_eq_some.mp hk] at hbase
    cases hbase

/-- Identical types have the same values: they are one type, or of the same basic kind, or have none. -/
theorem suits_iff_of_identical (ht : v.Has t) (hu : v.Has u) (hid : v.arena.identical t u) :
    v.Suits t c ↔ v.Suits u c := by
  unfold Arena.identical Arena.identicalWithin at hid
  rcases Bool.or_eq_true_iff.mp hid with heq | hshape
  · rw [← beq_iff_eq.mp heq]
  · obtain ⟨σ, hσ⟩ := Option.isSome_iff_exists.mp (show (v.arena.type? t).isSome from ht)
    obtain ⟨ρ, hρ⟩ := Option.isSome_iff_exists.mp (show (v.arena.type? u).isSome from hu)
    rw [Arena.type_eq hσ, Arena.type_eq hρ] at hshape
    have hnone {w : TypeId} {τ : Ty} (hw : v.arena.type? w = some τ) (hτ : ∀ name b e, τ ≠ .named name b e)
        (hk : ∀ k, τ ≠ .basic k) (henum : ∀ b ms, τ ≠ .enum b ms) : ¬ v.Suits w c := by
      intro h
      have hfits := h.fits
      rw [Arena.Suits, Arena.base_of_type? hw fun name b e => hτ name (some b) e] at hfits
      cases τ <;> simp_all
    split at hshape
    case h_1 k l =>
      have hbase := Arena.kind?_eq_some.mpr (Arena.base_of_type? hσ fun _ _ _ h => by cases h)
      have hbase' := Arena.kind?_eq_some.mpr (Arena.base_of_type? hρ fun _ _ _ h => by cases h)
      rw [← beq_iff_eq.mp hshape] at hbase'
      exact ⟨fun h => suits_of_kind hbase' (h.fits.fits_kind hbase),
        fun h => suits_of_kind hbase (h.fits.fits_kind hbase')⟩
    case h_8 => cases hshape
    all_goals
      exact iff_of_false (hnone hσ (fun _ _ _ h => by cases h) (fun _ h => by cases h) fun _ _ h => by cases h)
        (hnone hρ (fun _ _ _ h => by cases h) (fun _ h => by cases h) fun _ _ h => by cases h)

namespace Intact

variable (hv : v.Intact)

include hv

theorem kind?_basic (k : Kind) : v.arena.kind? (.basic k) = some k :=
  hv.basics.kind?_basic k

theorem suits_basic (hc : c.Fits k) : v.Suits (.basic k) c := suits_of_kind (hv.kind?_basic k) hc

/-- Values of the invalid type are not known of. -/
theorem not_isInvalid_of_suits (h : v.Suits t c) : v.arena.isInvalid t = false := by
  have hkind : v.arena.kind? t ≠ some .invalid := fun hk => c.not_fits_invalid (h.fits.fits_kind hk)
  have hne : t ≠ .invalid := by
    rintro rfl
    exact hkind (hv.kind?_basic .invalid)
  simp [Arena.isInvalid, hne, hkind]

/-- An untyped type is no name of one. -/
theorem type?_of_untyped (ht : v.Has t) (hk : v.arena.kind? t = some k) (hu : k.isUntyped) :
    v.arena.type? t = some (.basic k) := by
  obtain ⟨τ, hτ⟩ := Option.isSome_iff_exists.mp (show (v.arena.type? t).isSome from ht)
  have hbase := Arena.kind?_eq_some.mp hk
  rcases hv.base_cases hτ with ⟨-, -, heq⟩ | ⟨name, b, e, σ, rfl, hσ, hsettled, -, -, heq⟩
  · rw [hτ, ← heq, hbase]
  · rw [hbase] at heq
    subst heq
    simp [Ty.isSettled, hu] at hsettled

theorem not_isUntyped (ht : v.Settled t) : v.arena.isUntyped t = false := by
  refine Bool.eq_false_iff.mpr fun hu => ?_
  obtain ⟨k, hk, hu⟩ := Arena.kindIs_eq_true.mp hu
  obtain ⟨τ, hτ, hsettled⟩ := ht
  cases (hv.type?_of_untyped (Option.isSome_iff_exists.mpr ⟨τ, hτ⟩) hk hu).symm.trans hτ
  simp [Ty.isSettled, hu] at hsettled

/-- What shows under the names of a type, if that is not basic, is a valid type. -/
theorem valid_base (h : v.arena.base t = τ) (hτ : ∀ k, τ ≠ .basic k) : τ.Valid v := by
  rw [Arena.base, Arena.type] at h
  cases hread : v.arena.type? (v.arena.baseType t) with
  | none =>
    rw [hread] at h
    exact absurd h.symm (hτ _)
  | some σ =>
    rw [hread] at h
    cases h
    exact hv.types _ _ hread

/-- What is no basic type under its names is settled, unless it is a tuple. -/
theorem settled_of_base (ht : v.Has t) (h : v.arena.base t = τ) (hτ : τ.isSettled) : v.Settled t := by
  obtain ⟨σ, hσ⟩ := Option.isSome_iff_exists.mp (show (v.arena.type? t).isSome from ht)
  rcases hv.base_cases hσ with ⟨-, -, heq⟩ | ⟨name, b, e, ρ, rfl, -, -, -, -, -⟩
  · exact ⟨σ, hσ, by rw [← heq, h]; exact hτ⟩
  · exact ⟨_, hσ, rfl⟩

/-- The type under the names of a settled type, unless that is a name without a base. -/
theorem unnamed_base (ht : v.Settled t) (h : (v.arena.base t).isName = false) :
    v.arena.Unnamed (v.arena.baseType t) ∧ v.arena.type? (v.arena.baseType t) = some (v.arena.base t) := by
  obtain ⟨σ, hσ, hsettled⟩ := ht
  rcases hv.base_cases hσ with ⟨-, hbase, heq⟩ | ⟨name, b, e, ρ, rfl, hρ, hsettled', hname, hbase, heq⟩
  · rw [hbase, heq]
    rw [heq] at h
    exact ⟨⟨σ, hσ, hsettled, h⟩, hσ⟩
  · rw [hbase, heq]
    exact ⟨⟨ρ, hρ, hsettled', hname⟩, hρ⟩

/-! ## Values of related types -/

theorem base_baseType (ht : v.Has t) : v.arena.base (v.arena.baseType t) = v.arena.base t := by
  obtain ⟨σ, hσ⟩ := Option.isSome_iff_exists.mp (show (v.arena.type? t).isSome from ht)
  rcases hv.base_cases hσ with ⟨-, hbase, -⟩ | ⟨name, b, e, ρ, rfl, hρ, -, hname, hbase, heq⟩
  · rw [hbase]
  · rw [hbase, heq]
    refine Arena.base_of_type? hρ fun name' b' e' h => ?_
    subst h
    cases hname

theorem suits_baseType (h : v.Suits t c) : v.Suits (v.arena.baseType t) c := by
  have ht : v.Has t := h.fits.has
  refine ⟨?_, fun hslab name e hnamed => ?_⟩
  · have hfits := h.fits
    rw [Arena.Suits] at hfits ⊢
    rw [hv.base_baseType ht]
    exact hfits
  · obtain ⟨σ, hσ⟩ := Option.isSome_iff_exists.mp (show (v.arena.type? t).isSome from ht)
    rcases hv.base_cases hσ with ⟨-, hbase, -⟩ | ⟨name', b, e', ρ, rfl, hρ, -, hname, hbase, -⟩
    · rw [hbase] at hslab hnamed
      exact h.opened hslab name e hnamed
    · rw [hbase, hρ] at hnamed
      cases hnamed
      cases hname

theorem suits_of_baseType (ht : v.Has t) (h : v.Suits (v.arena.baseType t) c) : v.Suits t c := by
  refine ⟨?_, fun hslab name e hnamed => ?_⟩
  · have hfits := h.fits
    rw [Arena.Suits] at hfits ⊢
    rw [hv.base_baseType ht] at hfits
    exact hfits
  · have hbase := Arena.baseType_of_type? hnamed fun _ _ _ h => by cases h
    rw [hbase] at h
    exact h.opened hslab name e hnamed

/-- A constant that may be assigned to a type is a value of it. -/
theorem suits_of_assignable (hx : v.Suits x.type c) (hmode : x.mode = .constant) (hu : v.Has u)
    (hinvalid : v.arena.isInvalid u = false) (h : v.arena.assignable x u) : v.Suits u c := by
  have hmode' : x.isInvalid = false := by simp [Operand.isInvalid, hmode]
  have hfits := hx.fits
  unfold Arena.assignable at h
  rw [if_neg (by simp [hmode', hv.not_isInvalid_of_suits hx, hinvalid])] at h
  split at h
  case isTrue hid => exact (View.suits_iff_of_identical hfits.has hu hid).mp hx
  case isFalse =>
    split at h
    case isTrue =>
      -- no constant is of the type of `nil`
      rw [Bool.and_eq_true, Arena.isUntypedNil, beq_iff_eq] at h
      have hnil := hfits.fits_kind h.1
      cases c <;> simp [Constant.Fits] at hnil
    case isFalse =>
      split at h
      case isTrue hpointer =>
        -- nor of a pointer type
        rw [Bool.and_eq_true, Bool.and_eq_true] at hpointer
        have hpointer := hpointer.1.1
        unfold Arena.isPointer at hpointer
        rw [Arena.Suits] at hfits
        split at hpointer
        case h_1 t' hbase =>
          rw [hbase] at hfits
          exact hfits.elim
        case h_2 k hbase =>
          rw [hbase, beq_iff_eq.mp hpointer] at hfits
          cases c <;> simp [Constant.Fits] at hfits
        case h_3 => cases hpointer
      case isFalse =>
        rw [Bool.and_eq_true] at h
        have hbase := hv.suits_baseType hx
        have hhas : v.Has (v.arena.baseType u) := by
          obtain ⟨σ, hσ⟩ := Option.isSome_iff_exists.mp (show (v.arena.type? u).isSome from hu)
          rcases hv.base_cases hσ with ⟨-, heq, -⟩ | ⟨name, b, e, ρ, rfl, hρ, -, -, heq, -⟩
          · rw [heq]
            exact hu
          · rw [heq]
            exact Option.isSome_iff_exists.mpr ⟨ρ, hρ⟩
        exact hv.suits_of_baseType hu ((View.suits_iff_of_identical hbase.fits.has hhas h.2).mp hbase)

/-! ## Types to settle on -/

theorem settled_settledType (ht : v.Has t) (hnil : v.arena.isUntypedNil t = false)
    (htuple : ∀ items, v.arena.type? t ≠ some (.tuple items)) : v.Settled (v.arena.settledType t) := by
  obtain ⟨σ, hσ⟩ := Option.isSome_iff_exists.mp (show (v.arena.type? t).isSome from ht)
  have htype := Arena.type_eq hσ
  unfold Arena.settledType
  rw [htype]
  cases σ with
  | basic k =>
    dsimp only
    split
    case isTrue hu =>
      have hne : k ≠ .untypedNil := by
        rintro rfl
        have hbase := Arena.base_of_type? hσ fun _ _ _ h => by cases h
        rw [Arena.isUntypedNil, Arena.kind?_eq_some.mpr hbase] at hnil
        cases hnil
      refine hv.settled_basic ?_
      cases k <;> simp_all [Kind.isUntyped, Kind.settled]
    case isFalse hu => exact ⟨.basic k, hσ, by simpa [Ty.isSettled] using hu⟩
  | tuple items => exact absurd hσ (htuple items)
  | _ => exact ⟨_, hσ, rfl⟩

theorem not_isInvalid_settledType (hinvalid : v.arena.isInvalid t = false) :
    v.arena.isInvalid (v.arena.settledType t) = false := by
  unfold Arena.settledType
  split
  case h_1 k hk =>
    split
    case isTrue hu =>
      have hkind := hv.kind?_basic k.settled
      unfold Arena.isInvalid
      rw [hkind]
      cases k <;> simp_all [Kind.isUntyped, Kind.settled, TypeId.invalid, TypeId.basic, Kind.index]
    case isFalse => exact hinvalid
  case h_2 => exact hinvalid

end Intact

/-! ## What is found -/

variable {e f : EntityId} {name : String} {h : ScopeId}

theorem Intact.has_of_bound (hv : v.Intact) (he : e ∈ (v.arena.scope h).bindings.entities) : v.Has e := by
  rw [Arena.scope] at he
  cases hc : v.arena.scope? h with
  | none =>
    rw [hc] at he
    cases he
  | some c =>
    rw [hc] at he
    exact (hv.scopes h c hc).bound e he

theorem Intact.has_of_lookupLocal (hv : v.Intact) (he : v.arena.lookupLocal h name = some e) : v.Has e := by
  obtain ⟨before, after, hentries, -⟩ := List.lookup_eq_some_iff.mp he
  refine hv.has_of_bound (h := h) ?_
  simp [Bindings.entities, hentries]

theorem Intact.has_of_lookup (hv : v.Intact) {g : ScopeId} (he : v.arena.lookup h name = some (e, g)) : v.Has e := by
  obtain ⟨g', -, hfound⟩ := List.exists_of_findSome?_eq_some he
  obtain ⟨e', he', heq⟩ := Option.map_eq_some_iff.mp hfound
  cases heq
  exact hv.has_of_lookupLocal he'

theorem Intact.isField_of_fields? (hv : v.Intact) {fields : List EntityId} (h : v.arena.fields? t = some fields)
    (hf : f ∈ fields) : v.IsField f := by
  unfold Arena.fields? at h
  split at h
  case h_1 form fields' hbase =>
    cases h
    exact hv.valid_base hbase (fun _ h => by cases h) f hf
  case h_2 => cases h

theorem Intact.has_of_members? (hv : v.Intact) {members : List EntityId} (h : v.arena.members? t = some members)
    (hf : f ∈ members) : v.Has f := by
  unfold Arena.members? at h
  split at h
  case h_1 base members' hbase =>
    cases h
    exact ((hv.valid_base hbase fun _ h => by cases h).2 f hf).has
  case h_2 => cases h

/-- A level of the search for a field finds a field of one of its records. -/
theorem field_of_searchLevel {a : Arena} {types seen next : List TypeId}
    (h : a.searchLevel name types seen next = .found f) : ∃ t fields, a.fields? t = some fields ∧ f ∈ fields := by
  induction types generalizing seen next with
  | nil => cases h
  | cons t rest ih =>
    unfold Arena.searchLevel at h
    dsimp only at h
    split at h
    · exact ih h
    · split at h
      · exact ih h
      case h_2 fields hfields =>
        split at h
        case h_1 f' hf' =>
          cases h
          exact ⟨_, fields, hfields, List.mem_of_find?_eq_some hf'⟩
        case h_2 => exact ih h

theorem field_of_searchLevels {a : Arena} {n : Nat} {types seen : List TypeId}
    (h : a.searchLevels name n types seen = some f) : ∃ t fields, a.fields? t = some fields ∧ f ∈ fields := by
  induction n generalizing types seen with
  | zero => cases h
  | succ n ih =>
    cases types with
    | nil => cases h
    | cons t rest =>
      unfold Arena.searchLevels at h
      split at h
      case h_1 f' hf' =>
        cases h
        exact field_of_searchLevel hf'
      case h_2 => exact ih h

theorem Intact.isField_of_lookupField (hv : v.Intact) (h : v.arena.lookupField t name = some f) : v.IsField f := by
  obtain ⟨u, fields, hfields, hf⟩ := field_of_searchLevels h
  exact hv.isField_of_fields? hfields hf

/-- A thing that was found has a settled type, unless it is a literal. -/
theorem Intact.settled_type (hv : v.Intact) (he : e ∉ Universe.literals) :
    v.Settled ((v.arena.entity e).type.getD .invalid) := by
  cases htype : (v.arena.entity e).type with
  | none => exact hv.settled_invalid
  | some t =>
    rw [Arena.entity] at htype
    cases hx : v.arena.entity? e with
    | none =>
      rw [hx] at htype
      cases htype
    | some x =>
      rw [hx] at htype
      exact (hv.entities e x hx).type t htype he

end View

end Statics
