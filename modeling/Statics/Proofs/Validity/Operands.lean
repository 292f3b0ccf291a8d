import Statics.Proofs.Validity.Primitives
import Statics.Proofs.Validity.Values

/-!
# Operands in valid states

Conversion, assignment, operators and the selection of names give valid operands from valid ones.
-/

namespace Statics.Check

variable {id : EntityId} {op : BinaryOp} {arg base operand : Expr} {field : Ident} {foundIn : Option ScopeId}
  {p : Problem} {purpose : Purpose} {token : Token}

variable {e : Expr} {place : Option TypeId} {resolve : Resolver} {u : TypeId}

variable {s : Pass} {ctx : Context} {x y : Operand} {target : TypeId}

/-! ## Conversion and assignment -/

/-- An untyped operand is no place, and may take any type. A constant among them needs a value of that type. -/
theorem valid_retyped (hs : s.Valid) (hx : x.Valid s) (huntyped : s.store.arena.isUntyped x.type)
    (ht : s.view.Has target) {value : Option Constant} (hsame : value.isSome = x.constant?.isSome)
    (hsuits : ∀ c, value = some c → s.view.Suits target c) :
    ({ x with constant? := value, type := target } : Operand).Valid s := by
  refine ⟨ht, fun hplace => ?_, hsame ▸ hx.constant, hsuits⟩
  have hfalse := hs.intact.not_isUntyped (hx.settled hplace)
  rw [show s.view.arena.isUntyped x.note.type = true from huntyped] at hfalse
  cases hfalse

theorem constant?_of_untypedNil (hx : x.Valid s) (hnil : s.store.arena.kind? x.type = some .untypedNil) :
    x.constant? = none := by
  refine Option.eq_none_iff_forall_ne_some.mpr fun c hc => ?_
  have hfits := (hx.suits c hc).fits.fits_kind hnil
  cases c <;> simp [Constant.Fits, Kind.isBoolean, Kind.isInteger, Kind.isFloat, Kind.isString] at hfits

theorem delivers_invalidated : Delivers s (pure x.invalidated) := delivers_invalid

theorem delivers_convertNil (hx : x.Valid s) (hnil : s.store.arena.kind? x.type = some .untypedNil)
    (ht : s.view.Has target) : Delivers s (convertNil x target token) := by
  refine yields_arena fun hs => ?_
  split
  · refine yields_pure fun hs => valid_retyped hs hx ?_ ht rfl (by simp [constant?_of_untypedNil hx hnil])
    exact Arena.kindIs_eq_true.mpr ⟨_, hnil, rfl⟩
  · exact yields_typeText fun text => sound_report.andThen fun _ _ => delivers_invalidated

theorem delivers_convertTo (hx : x.Valid s) (huntyped : s.store.arena.isUntyped x.type) {kind : Kind}
    (hkind : s.store.arena.kind? target = some kind) (ht : s.view.Has target) :
    Delivers s (convertTo x kind target token) := by
  refine .of_valid fun hs => ?_
  unfold convertTo
  split
  case h_1 v hvalue =>
    split
    case h_1 w hw =>
      refine yields_pure fun hs => valid_retyped hs hx huntyped ht (by simp [hvalue]) fun c hc => ?_
      cases hc
      exact View.suits_of_kind hkind (Constant.fits_of_represent? hw)
    case h_2 => exact yields_typeText fun text => sound_report.andThen fun _ _ => delivers_invalidated
  case h_2 hnone => exact yields_pure fun hs => valid_retyped hs hx huntyped ht rfl (by simp [hnone])

/-- An untyped integer becomes an untyped float. A constant keeps a value: it was an integer, and every integer has a
value among the floats. -/
theorem valid_float (hs : s.Valid) (hx : x.Valid s) (hsource : s.store.arena.kind? x.type = some .untypedInt)
    (hkind : s.store.arena.kind? target = some .untypedFloat) (ht : s.view.Has target) :
    ({ x with constant? := x.constant?.bind (·.represent? .untypedFloat), type := target } : Operand).Valid s := by
  have huntyped : s.store.arena.isUntyped x.type := Arena.kindIs_eq_true.mpr ⟨_, hsource, rfl⟩
  have hvalue (v : Constant) (hv : x.constant? = some v) : ∃ w, v.represent? .untypedFloat = some w := by
    have hfits := (hx.suits v hv).fits.fits_kind hsource
    cases v with
    | int w => exact ⟨_, rfl⟩
    | _ => simp [Constant.Fits, Kind.isBoolean, Kind.isFloat, Kind.isString] at hfits
  refine valid_retyped hs hx huntyped ht ?_ fun c hc => ?_
  · cases hv : x.constant? with
    | none => rfl
    | some v =>
      obtain ⟨w, hw⟩ := hvalue v hv
      simp [hw]
  · obtain ⟨v, -, hw⟩ := Option.bind_eq_some_iff.mp hc
    exact View.suits_of_kind hkind (Constant.fits_of_represent? hw)

theorem delivers_convertUntyped (hx : x.Valid s) (ht : s.view.Has target) :
    Delivers s (convertUntyped x target token) := by
  refine yields_arena fun hs => ?_
  split
  case isTrue => exact yields_pure fun _ => hx
  case isFalse hcond =>
    simp only [Bool.or_eq_true, Bool.not_eq_true', not_or, Bool.not_eq_false] at hcond
    split
    case h_1 hnil => exact delivers_convertNil hx hnil ht
    case h_2 source kind _ hsource hkind =>
      split
      · split
        case isTrue hfloat =>
          rw [Bool.and_eq_true, beq_iff_eq, beq_iff_eq] at hfloat
          obtain ⟨rfl, rfl⟩ := hfloat
          exact yields_pure fun hs => valid_float hs hx hsource hkind ht
        case isFalse => exact yields_pure fun _ => hx
      · split
        · exact delivers_convertTo hx hcond.1.2 hkind ht
        · exact yields_pure fun _ => hx
    case h_3 => exact yields_pure fun _ => hx

theorem sound_annotateOwn (e : Expr) (hx : x.Valid s) : Sound s (annotateOwn e x) := by
  unfold annotateOwn
  split
  · exact sound_annotate hx
  · exact sound_pure ()

theorem delivers_rejectMode : Delivers s (rejectMode x e p) :=
  sound_report.andThen fun _ _ => delivers_invalidated

theorem has_settledType (hs : s.Valid) (hu : s.view.Has u) : s.view.Has (s.store.arena.settledType u) := by
  unfold Arena.settledType
  split
  · split
    · exact hs.intact.has_basic _
    · exact hu
  · exact hu

theorem delivers_settle (hx : x.Valid s) : Delivers s (settle x e purpose) := by
  refine yields_arena fun hs => ?_
  split
  · exact delivers_rejectMode
  · split
    · refine (delivers_convertUntyped hx (has_settledType hs hx.has)).bind fun y t _ hy => ?_
      exact (sound_annotateOwn e hy).andThen fun u hu => yields_pure fun _ => hu.operand hy
    · exact yields_pure fun _ => hx

/-- What is stored in a place is a valid operand, and a constant is a value of the type of the place. -/
def StoredIn (target : TypeId) (y : Operand) (t : Pass) : Prop :=
  y.Valid t ∧ ∀ c, y.constant? = some c → t.view.Suits target c

theorem yields_rejectStored : Yields s (rejectMode x e p) (StoredIn target) :=
  sound_report.andThen fun _ _ => yields_pure fun ht => ⟨valid_invalid ht, fun c hc => by cases hc⟩

section

variable (hx : x.Valid s)

include hx

theorem yields_store (ht : s.view.Has target) (hvalid : s.store.arena.isInvalid target = false) :
    Yields s (store x e target purpose) (StoredIn target) := by
  refine yields_arena fun hs => ?_
  split
  case isTrue hassign =>
    refine (sound_annotateOwn e hx).andThen fun t hleads => yields_pure fun _ => ⟨hleads.operand hx, fun c hc => ?_⟩
    exact hleads.refines.suits _ _ (hs.intact.suits_of_assignable (hx.suits c hc)
      (hx.mode_of_constant? hc) ht hvalid hassign)
  case isFalse => exact yields_rejectStored

theorem yields_storeIn (ht : s.view.Has target) : Yields s (storeIn x e target purpose) fun y t => y.Valid t ∧
    (s.store.arena.isInvalid target = false → StoredIn target y t) := by
  refine yields_arena fun hs => ?_
  split
  case isTrue hinvalid =>
    refine yields_pure fun _ => ⟨hx, fun hvalid => ?_⟩
    rw [hinvalid] at hvalid
    cases hvalid
  case isFalse hinvalid =>
    have hvalid : s.store.arena.isInvalid target = false := by simpa using hinvalid
    split
    · refine (delivers_convertUntyped hx ht).bind fun y t hleads hy => ?_
      split
      case isTrue hinvalid =>
        refine yields_pure fun _ => ⟨hy, fun _ => ⟨hy, fun c hc => ?_⟩⟩
        simp [Operand.isInvalid, show y.mode = _ from hy.mode_of_constant? hc] at hinvalid
      case isFalse =>
        have hvalid' := (hleads.isInvalid_eq hs ht).trans hvalid
        exact (yields_store hy (hleads.has ht) hvalid').imp fun z u _ hz => ⟨hz.1, fun _ => hz⟩
    · exact (yields_store hx ht hvalid).imp fun y t _ hy => ⟨hy.1, fun _ => hy⟩

/-- A value settles where no place is given, and goes into the place otherwise. -/
theorem yields_settleOrStore (hplace : ∀ u, place = some u → s.view.Has u)
    (e : Expr) (purpose : Purpose) : Yields s (match place with
      | none => settle x e purpose
      | some target => storeIn x e target purpose) fun y t =>
        y.Valid t ∧ ∀ u, place = some u → s.store.arena.isInvalid u = false → StoredIn u y t := by
  cases place with
  | none => exact (delivers_settle hx).imp fun y t _ hy => ⟨hy, fun u hu => by cases hu⟩
  | some target =>
    refine (yields_storeIn hx (hplace target rfl)).imp fun y t _ hy => ⟨hy.1, fun u hu hvalid => ?_⟩
    cases hu
    exact hy.2 hvalid

theorem yields_assign (hplace : ∀ u, place = some u → s.view.Has u) :
    Yields s (assign x e place purpose) fun y t => y.Valid t ∧ ∀ u, place = some u → s.store.arena.isInvalid u = false →
    StoredIn u y t := by
  have hvalue := yields_settleOrStore hx hplace e purpose
  have hreject (p : Problem) : Yields s (rejectMode x e p) fun y t =>
      y.Valid t ∧ ∀ u, place = some u → s.store.arena.isInvalid u = false → StoredIn u y t :=
    sound_report.andThen fun _ _ => yields_pure fun ht =>
      ⟨valid_invalid ht, fun u _ _ => ⟨valid_invalid ht, fun c hc => by cases hc⟩⟩
  unfold assign
  split
  case h_1 hmode => exact yields_pure fun _ =>
    ⟨hx, fun u _ _ => ⟨hx, fun c hc => by cases hmode.symm.trans (hx.mode_of_constant? hc)⟩⟩
  case h_2 => exact hreject _
  case h_3 => exact hreject _
  case h_4 => exact hreject _
  case h_5 => exact hvalue
  case h_6 => exact hvalue
  case h_7 => exact hvalue

theorem sound_assign (hplace : ∀ u, place = some u → s.view.Has u) : Sound s (assign x e place purpose) :=
  (yields_assign hx hplace).sound

theorem sound_assignTo (ht : s.view.Has target) : Sound s (assign x e (some target) purpose) :=
  sound_assign hx (fun u hu => by cases hu; exact ht)

theorem sound_assignFree : Sound s (assign x e none purpose) :=
  sound_assign hx (fun u hu => by cases hu)

end

/-! ## Unary operators -/

theorem delivers_unaryConstant {folded : Except FoldError Constant} {k : Kind} (hk : s.store.arena.kind? u = some k)
    (hfits : ∀ c, folded = .ok c → k.isUntyped → c.Fits k) : Delivers s (unaryConstant e u folded) := by
  unfold unaryConstant
  split
  case h_1 => exact delivers_fail
  case h_2 c =>
    refine yields_arena fun hs => ?_
    split
    case h_1 d hd =>
      exact yields_pure fun _ => valid_constant (View.suits_of_kind hk (Arena.fits_of_stored? hk (hfits c rfl) hd)) _
    case h_2 => exact yields_typeText fun _ => delivers_fail

theorem delivers_addressOf (hx : x.Valid s) : Delivers s (addressOf e operand x) := by
  unfold addressOf
  split
  case isTrue hmode =>
    refine (yields_newType fun _ => ?_).bind fun u t _ hu => yields_pure fun _ => valid_value ?_ _
    · exact hx.settled (.inl (beq_iff_eq.mp hmode))
    · exact Option.isSome_iff_exists.mpr ⟨_, hu.2⟩
  case isFalse => exact delivers_fail

theorem delivers_opposite (e : Expr) (op : UnaryOp) (hx : x.Valid s) {p : Kind → Bool}
    {fold : Constant → Except FoldError Constant}
    (hfold : ∀ c d k, k.isUntyped → c.Fits k → fold c = .ok d → d.Fits k) :
    Delivers s (opposite e op x (s.store.arena.kindIs x.type p) fold) := by
  unfold opposite
  split
  case isTrue hallowed =>
    obtain ⟨k, hk, -⟩ := Arena.kindIs_eq_true.mp hallowed
    split
    case h_1 hmode =>
      obtain ⟨c, hc⟩ := Option.isSome_iff_exists.mp (hx.constant.mp hmode)
      rw [show x.constant? = some c from hc]
      exact delivers_unaryConstant hk fun d hd hu => hfold c d k hu ((hx.suits c hc).fits.fits_kind hk) hd
    case h_2 => exact yields_pure fun _ => valid_value hx.has _
  case isFalse => exact yields_typeText fun _ => delivers_fail

theorem delivers_unary {op : UnaryOp} (hx : x.Valid s) : Delivers s (unary e op operand x) := by
  unfold unary
  split
  · exact yields_pure fun _ => hx
  · split
    · exact delivers_fail
    · refine yields_arena fun _ => ?_
      cases op with
      | address => exact delivers_addressOf hx
      | negate => exact delivers_opposite e _ hx fun _ _ _ => Constant.fits_negate
      | complement => exact delivers_opposite e _ hx fun _ _ _ _ => Constant.fits_complement

/-! ## Binary operators -/

theorem yields_balance (hx : x.Valid s) (hy : y.Valid s) :
    Yields s (balance x y token) fun p t => p.1.Valid t ∧ p.2.Valid t := by
  have hleft (u : TypeId) (hu : s.view.Has u) :
      Yields s (do return (← convertUntyped x u token, y)) fun p t => p.1.Valid t ∧ p.2.Valid t :=
    (delivers_convertUntyped hx hu).bind fun z t ht hz => yields_pure fun _ => ⟨hz, ht.operand hy⟩
  have hright (u : TypeId) (hu : s.view.Has u) :
      Yields s (do return (x, ← convertUntyped y u token)) fun p t => p.1.Valid t ∧ p.2.Valid t :=
    (delivers_convertUntyped hy hu).bind fun z t ht hz => yields_pure fun _ => ⟨ht.operand hx, hz⟩
  refine yields_arena fun _ => ?_
  split
  · exact hright _ hx.has
  · exact hleft _ hy.has
  · split
    · exact hleft _ hy.has
    · split
      · exact hright _ hx.has
      · exact yields_pure fun _ => ⟨hx, hy⟩
  · exact yields_pure fun _ => ⟨hx, hy⟩

theorem delivers_fold {op : BinaryOp} (hx : x.Valid s) (hy : y.Valid s) {id : NodeId}
    (hid : s.store.arena.identical x.type y.type) (hop : s.store.arena.defines op x.type) :
    Delivers s (fold token op x.type x y id) := by
  have hresult (hs : s.Valid) : s.view.Has (if op.isComparison then TypeId.basic .untypedBool else x.type) := by
    split
    · exact hs.intact.has_basic _
    · exact hx.has
  unfold fold
  dsimp only
  split
  case h_1 v w _ _ hv hw =>
    split
    case h_1 u hu =>
      refine yields_arena fun hs => ?_
      split
      case h_1 u' hu' =>
        refine yields_pure fun _ => valid_constant ?_ _
        cases hcmp : op.isComparison with
        | true =>
          obtain ⟨p, rfl⟩ := Constant.isBool_of_binary hcmp hu
          rw [hcmp] at hu'
          have hkind := hs.intact.kind?_basic .untypedBool
          exact View.suits_of_kind hkind (Arena.fits_of_stored? (c := .bool p) hkind (fun _ => rfl) hu')
        | false =>
          rw [hcmp] at hu'
          obtain ⟨k, hk⟩ := Arena.kind_of_defines hcmp hop
          have hsuits := (View.suits_iff_of_identical hx.has hy.has hid).mpr (hy.suits w hw)
          refine View.suits_of_kind hk (Arena.fits_of_stored? hk (fun hk' => ?_) hu')
          exact Constant.fits_binary hcmp hk' ((hx.suits v hv).fits.fits_kind hk) (hsuits.fits.fits_kind hk) hu
      case h_2 => exact yields_typeText fun _ => delivers_fail
    case h_2 => exact delivers_fail
    case h_3 => exact yields_pure fun hs => valid_value (hresult hs) _
  case h_2 => exact yields_pure fun hs => valid_value (hresult hs) _

theorem delivers_combine (hx : x.Valid s) (hy : y.Valid s) {id : NodeId} : Delivers s (combine token op x y id) := by
  refine yields_arena fun _ => ?_
  split
  · exact delivers_fail
  case isFalse hid =>
    split
    · exact delivers_fail
    case isFalse hop =>
      split
      · exact delivers_fail
      · exact delivers_fold hx hy (by simpa using hid) (by simpa using hop)

theorem delivers_binary (hx : x.Valid s) (hy : y.Valid s) {id : NodeId} : Delivers s (binary token op x y id) := by
  unfold binary
  split
  · exact delivers_invalid
  · split
    · exact delivers_fail
    · refine (yields_balance hx hy).bind fun p t _ hp => ?_
      dsimp only
      split
      · exact delivers_invalid
      · exact delivers_combine hp.1 hp.2

/-! ## Conversions -/

theorem delivers_convertValue (ht : s.view.Has target) (hx : x.Valid s) : Delivers s (convertValue e target arg x) := by
  refine (delivers_convertUntyped hx ht).bind fun y t hleads _ => ?_
  split
  · exact delivers_invalid
  · refine yields_arena fun _ => ?_
    split
    · exact yields_pure fun _ => valid_value (hleads.has ht) _
    · exact delivers_fail

theorem delivers_convert (ht : s.view.Has target) (hx : x.Valid s) : Delivers s (convert e target arg x) := by
  refine yields_arena fun _ => ?_
  split
  · exact delivers_invalid
  · split
    · exact delivers_fail
    · split
      · split
        case h_1 v hmode w hw =>
          refine yields_pure fun _ => valid_constant ?_ _
          unfold constantConversion? at hw
          split at hw
          case h_1 k hk =>
            split at hw
            · cases hw
            · split at hw
              · exact View.suits_of_kind hk (Constant.fits_of_represent? (Option.some.inj hw))
              · cases hw
          case h_2 => cases hw
        case h_2 => exact delivers_fail
        case h_3 => exact delivers_convertValue ht hx
      · exact delivers_convertValue ht hx

/-! ## Built-in procedures -/

theorem delivers_lengthOf : Delivers s (lengthOf e arg x) := by
  unfold lengthOf
  split
  · exact delivers_invalid
  · exact yields_pure fun hs => valid_constant (hs.intact.suits_basic (Constant.fits_untypedInt _)) _
  · refine yields_arena fun _ => ?_
    split
    · exact yields_pure fun hs => valid_value (hs.intact.has_basic _) _
    · exact delivers_fail

theorem delivers_measureOf : Delivers s (measureOf e u) := by
  refine yields_arena fun _ => ?_
  split
  · exact delivers_invalid
  · exact yields_pure fun hs => valid_value (hs.intact.has_basic _) _

theorem delivers_newType {τ : Ty} (hτ : τ.Valid s) (id : NodeId) : Delivers s (do return .value (← newType τ) id) :=
  (yields_newType fun _ => hτ).bind fun _ _ _ hu => yields_pure fun _ =>
    valid_value (Option.isSome_iff_exists.mpr ⟨_, hu.2⟩) _

theorem delivers_allocated (e : Expr) (hu : s.view.Settled u) : Delivers s (allocated e u) := by
  refine yields_arena fun _ => ?_
  split
  · exact delivers_invalid
  · exact delivers_newType (τ := .pointer u) hu e.id

theorem delivers_asserted : Delivers s (asserted e arg x) := by
  have hend (t : Pass) : Delivers t (pure (Operand.noValue e.id)) := yields_pure fun ht => valid_noValue ht
  refine yields_arena fun _ => ?_
  split
  · exact sound_report.andThen fun t _ => hend t
  · exact hend s

theorem delivers_resultOf (e : Expr) {results : List TypeId} (hresults : ∀ u ∈ results, s.view.Settled u) :
    Delivers s (resultOf e results) := by
  unfold resultOf
  split
  · exact yields_pure fun hs => valid_noValue hs
  case h_2 one => exact yields_pure fun _ => valid_value (hresults one (List.mem_singleton_self one)).has _
  · exact delivers_newType (τ := .tuple results) hresults e.id

/-! ## Names and selections -/

/-- Whatever a step demands, from valid states on, it does so through valid states. -/
def Answers (s : Pass) (resolve : Resolver) : Prop :=
  ∀ t, s.Leads t → ∀ ctx e, ctx.Valid t → t.view.Has e → Sound t (resolve ctx e)

theorem Answers.later {t : Pass} (h : Answers s resolve) (ht : s.Leads t) : Answers t resolve :=
  fun u hu => h u (ht.trans hu)

theorem exists_entity {e : EntityId} (he : s.view.Has e) :
    ∃ x, s.store.arena.entity? e = some x ∧ s.store.arena.entity e = x := by
  obtain ⟨x, hx⟩ := Option.isSome_iff_exists.mp (show (s.store.arena.entity? e).isSome from he)
  exact ⟨x, hx, Arena.entity_eq hx⟩

theorem sound_markOwner {e : EntityId} (he : s.view.Has e) : Sound s (do
    match (← entity e).through with
    | some owner => markUsed owner
    | none => pure ()) := by
  refine yields_entity fun hvalid => ?_
  obtain ⟨x, hx, hread⟩ := exists_entity he
  rw [hread]
  split
  case h_1 owner howner => exact sound_markUsed ((hvalid.intact.entities e x hx).through owner howner)
  case h_2 => exact sound_pure ()

theorem sound_markReached {e : EntityId} (he : s.view.Has e) : Sound s (markReached ctx e) := by
  unfold markReached
  split
  · exact (sound_markUsed he).andThen fun _ ht => sound_markOwner (ht.has he)
  · exact (sound_pure ()).andThen fun _ ht => sound_markOwner (ht.has he)

theorem delivers_variableOperand {v : VariableInfo} (hu : s.view.Settled u) {name : String} :
    Delivers s (variableOperand ctx v u e name foundIn) := by
  refine yields_arena fun _ => ?_
  split
  · exact delivers_invalid
  · split
    · split
      · exact delivers_fail
      · exact yields_pure fun _ => valid_var hu
    · exact yields_pure fun _ => valid_var hu

/-- A thing whose type is not settled is a literal, and stands for a constant or a value. -/
theorem settled_or_literal (hs : s.Valid) (e : EntityId) :
    s.view.Settled ((s.store.arena.entity e).type.getD .invalid) ∨
      (s.store.arena.entity e).IsLiteral ∧ s.view.Has ((s.store.arena.entity e).type.getD .invalid) := by
  by_cases hliteral : e ∈ Universe.literals
  · obtain ⟨x, hx, hread⟩ := hs.intact.literals e hliteral
    have heq : s.store.arena.entity e = x := by
      rw [Arena.entity, show s.store.arena.entity? e = some x from hx, Option.getD_some]
    rw [heq]
    refine .inr ⟨hread, ?_⟩
    rcases hread with ⟨-, htype⟩ | ⟨b, -, htype⟩
    · rw [htype]
      exact hs.intact.has_basic _
    · rw [htype]
      exact hs.intact.has_basic _
  · exact .inl (hs.intact.settled_type hliteral)

theorem delivers_operandOf (hid : s.view.Has id) :
    Delivers s (operandOf ctx (s.store.arena.entity id) id e foundIn) := by
  refine yields_arena fun hs => ?_
  obtain ⟨x, hx, hread⟩ := exists_entity hid
  have hplace := settled_or_literal hs id
  rw [hread] at hplace ⊢
  have hhas : s.view.Has (x.type.getD .invalid) := hplace.elim (fun h => h.has) fun h => h.2
  have hsettled (hnil : x.kind ≠ .nil) (hconstant : ∀ c, x.kind ≠ .constant c) :
      s.view.Settled (x.type.getD .invalid) := by
    rcases hplace with h | ⟨⟨hkind, -⟩ | ⟨b, hkind, -⟩, -⟩
    · exact h
    · exact absurd hkind hnil
    · exact absurd hkind (hconstant _)
  split
  case h_1 v hkind =>
    refine yields_pure fun _ => ?_
    obtain ⟨u, hu, hsuits⟩ := (hs.intact.entities id x hx).value v hkind
    rw [hu]
    split
    · exact valid_invalid hs
    · exact valid_constant hsuits _
  case h_2 => exact delivers_invalid
  case h_3 v hkind =>
    exact delivers_variableOperand (hsettled (by simp [hkind]) (by simp [hkind]))
  case h_4 hkind =>
    split
    · exact delivers_fail
    · exact yields_pure fun _ => valid_ofType (hsettled (by simp [hkind]) (by simp [hkind])) _
  case h_5 =>
    refine yields_pure fun _ => ?_
    split
    · exact valid_invalid hs
    · exact valid_value hhas _
  case h_6 b _ => exact yields_pure fun _ => valid_builtin hs
  case h_7 => exact delivers_fail
  case h_8 hkind => exact yields_pure fun _ => valid_var (hsettled (by simp [hkind]) (by simp [hkind]))
  case h_9 => exact yields_pure fun _ => valid_value hhas _

theorem valid_plainly (hctx : ctx.Valid s) : ctx.plainly.Valid s := ⟨hctx.scope, hctx.signature⟩

theorem delivers_entityOperand (hr : Answers s resolve) (hctx : ctx.Valid s) (hid : s.view.Has id) :
    Delivers s (entityOperand resolve ctx id e foundIn) := by
  refine (sound_markReached hid).andThen fun t ht => ?_
  refine (hr t ht ctx.plainly id (valid_plainly (ht.context hctx)) (ht.has hid)).andThen fun u hu => ?_
  exact yields_entity fun _ => delivers_operandOf (hu.has (ht.has hid))

theorem delivers_nameOperand (hr : Answers s resolve) (hctx : ctx.Valid s) (e : Expr) (n : Ident) :
    Delivers s (nameOperand resolve ctx e n) := by
  unfold nameOperand
  split
  · exact delivers_fail
  · refine yields_arena fun hs => ?_
    split
    · exact delivers_fail
    case h_2 id scope hlookup =>
      have hid : s.view.Has id := hs.intact.has_of_lookup hlookup
      refine (sound_refer hid).andThen fun t ht => ?_
      exact delivers_entityOperand (hr.later ht) (ht.context hctx) (ht.has hid)

theorem import_of_importNamed? {a : Arena} {scope : ScopeId} {base : Expr} {info : ImportInfo}
    (h : importNamed? a scope base = some (id, info)) :
    ∃ name f, a.lookup scope name = some (id, f) ∧ (a.entity id).kind = .importName info := by
  unfold importNamed? at h
  obtain ⟨name, -, h⟩ := Option.bind_eq_some_iff.mp h
  obtain ⟨⟨id', f⟩, hlookup, h⟩ := Option.bind_eq_some_iff.mp h
  dsimp only at h
  split at h
  case h_1 info' hkind =>
    cases h
    exact ⟨name, f, hlookup, hkind⟩
  case h_2 => cases h

theorem delivers_importSelection (hr : Answers s resolve) (hctx : ctx.Valid s) (hid : s.view.Has id)
    {info : ImportInfo} : Delivers s (importSelection resolve ctx e base field id info) := by
  refine (sound_markUsed hid).andThen fun t ht => (sound_refer (ht.has hid)).andThen fun u hu => ?_
  refine yields_arena fun hvalid => ?_
  have hleads := ht.trans hu
  split
  · exact delivers_fail
  case h_2 member hmember =>
    have hhas : u.view.Has member := hvalid.intact.has_of_lookupLocal hmember
    refine (sound_refer hhas).andThen fun w hw => ?_
    exact delivers_entityOperand (hr.later (hleads.trans hw)) ((hleads.trans hw).context hctx) (hw.has hhas)

theorem delivers_memberSelection (hr : Answers s resolve) (hctx : ctx.Valid s) :
    Delivers s (memberSelection resolve ctx e field u) := by
  refine yields_arena fun hs => ?_
  split
  case h_1 member hmember =>
    have hmem : member ∈ (s.store.arena.members? u).getD [] := List.mem_of_find?_eq_some hmember
    have hhas : s.view.Has member := by
      cases hmembers : s.store.arena.members? u with
      | none =>
        rw [hmembers] at hmem
        cases hmem
      | some members =>
        rw [hmembers] at hmem
        exact hs.intact.has_of_members? hmembers hmem
    refine (sound_refer hhas).andThen fun t ht => ?_
    exact delivers_entityOperand (hr.later ht) (ht.context hctx) (ht.has hhas)
  case h_2 => exact delivers_fail

theorem delivers_fieldSelection : Delivers s (fieldSelection e base field x) := by
  refine yields_arena fun hs => ?_
  split
  case h_1 f hf =>
    have hfield := hs.intact.isField_of_lookupField hf
    refine (sound_refer hfield.has).andThen fun t ht => yields_pure fun _ => ?_
    have hsettled := ht.settled (hs.intact.settled_type hfield.not_literal)
    split
    · exact valid_var hsettled
    · exact valid_value hsettled.has _
  case h_2 => exact delivers_fail

theorem delivers_selection (hr : Answers s resolve) (hctx : ctx.Valid s) :
    Delivers s (selection resolve ctx e base field x) := by
  unfold selection
  split
  · exact delivers_invalid
  · exact delivers_memberSelection hr hctx
  · exact delivers_fieldSelection

end Statics.Check
