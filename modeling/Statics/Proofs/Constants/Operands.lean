import Statics.Proofs.Growth

/-!
# Results of evaluations

What evaluating an expression guarantees about its result: it is noted for the node, and a value has a type that is
not invalid. The second holds where each value is made. Only a call of a procedure with one result and the selection
of a field do not look at the type that they hand on (`PassesOn`), and they never give constants.
-/

namespace Statics

variable {op : BinaryOp} {arg base e : Expr} {field : Ident} {args : List Expr} {z : Operand} {foundIn : Option ScopeId}
  {token : Token} {u : TypeId} {id : NodeId} {reading : Reading}

/-! ## Invalid types -/

namespace Arena

variable {a b : Arena}

/-- The basic types are at their places. -/
def HasBasics (a : Arena) : Prop := ∀ k, a.type? (.basic k) = some (.basic k)

theorem HasBasics.extend (h : a.HasBasics) (hx : a.Extends b) : b.HasBasics := fun k => hx.types _ _ (h k)

/-- A type that is no name with a base is its own base. -/
theorem baseType_of_type? {t : TypeId} {τ : Ty} (h : a.type? t = some τ)
    (hτ : ∀ name base e, τ ≠ .named name (some base) e) : a.baseType t = t := by
  have htype : a.type t = τ := by rw [type_eq h]
  rw [baseType, baseWithin, htype]
  split
  case h_1 name base e => exact absurd rfl (hτ name base e)
  case h_2 => rfl

theorem base_of_type? {t : TypeId} {τ : Ty} (h : a.type? t = some τ)
    (hτ : ∀ name base e, τ ≠ .named name (some base) e) : a.base t = τ := by
  rw [base, baseType_of_type? h hτ, type_eq h]

theorem HasBasics.base_basic (h : a.HasBasics) (k : Kind) : a.base (.basic k) = .basic k := base_of_type? (h k) nofun

theorem kind?_eq_some {k : Kind} : a.kind? t = some k ↔ a.base t = .basic k := by
  unfold kind?
  split
  case h_1 l hl =>
    rw [hl]
    constructor
    · intro h
      cases h
      rfl
    · intro h
      cases h
      rfl
  case h_2 hne =>
    constructor
    · intro h
      cases h
    · intro h
      exact absurd h (hne k)

theorem HasBasics.kind?_basic (h : a.HasBasics) (k : Kind) : a.kind? (.basic k) = some k :=
  kind?_eq_some.mpr (h.base_basic k)

theorem HasBasics.isInvalid_iff (h : a.HasBasics) {t : TypeId} : a.isInvalid t = true ↔ a.base t = .basic .invalid := by
  have hkind : a.kind? t = some .invalid ↔ a.base t = .basic .invalid := by
    unfold kind?
    split <;> simp_all
  simp only [isInvalid, Bool.or_eq_true, beq_iff_eq, hkind]
  constructor
  · rintro (rfl | hbase)
    · exact h.base_basic .invalid
    · exact hbase
  · exact .inr

theorem HasBasics.isInvalid_eq_false (h : a.HasBasics) {t : TypeId} (ht : a.base t ≠ .basic .invalid) :
    a.isInvalid t = false := by
  rw [← Bool.not_eq_true, h.isInvalid_iff]
  exact ht

theorem HasBasics.isInvalid_of_kindIs (h : a.HasBasics) {t : TypeId} {p : Kind → Bool} (hp : p .invalid = false)
    (ht : a.kindIs t p) : a.isInvalid t = false := by
  refine h.isInvalid_eq_false fun hbase => ?_
  simp [kindIs, kind?, hbase, hp] at ht

/-- No operator is defined on invalid types. -/
theorem HasBasics.isInvalid_of_defines (h : a.HasBasics) {t : TypeId} (ht : a.defines op t) :
    a.isInvalid t = false := by
  refine h.isInvalid_eq_false fun hbase => ?_
  cases op <;>
    simp [defines, isNumeric, isString, isBoolean, isPointer, isEnum, isNillable, isInteger, kindIs, kind?, hbase,
      Kind.isNumeric, Kind.isString, Kind.isBoolean, Kind.isInteger, Kind.isFloat] at ht

end Arena

/-- An entity is `nil` or the implicit value, and of a type. -/
def Arena.IsInnate (a : Arena) (e : EntityId) (t : TypeId) : Prop :=
  ((a.entity e).kind = .nil ∨ (a.entity e).kind = .implicitValue) ∧ (a.entity e).type.getD .invalid = t

/-- If what an identifier refers to is innate, then its type is not invalid. -/
def Pass.RefersSoundly (s : Pass) : Prop := ∀ p ∈ s.notes.uses.entries, ∀ t, s.store.arena.IsInnate p.2 t →
  s.store.arena.isInvalid t = false

/-! ## Results -/

/-- A constant has a type that is not invalid. -/
def Operand.Firm (a : Arena) (x : Operand) : Prop := x.mode = .constant → a.isInvalid x.type = false

/-- A constant has a type that is not invalid, where the basic types are at their places. So has every value, where `G`
holds and innate values have such types. -/
def Operand.Sturdy (G : Prop) (t : Pass) (x : Operand) : Prop :=
  x.mode.isValue → t.store.arena.HasBasics → x.mode = .constant ∨ G ∧ t.RefersSoundly →
    t.store.arena.isInvalid x.type = false

/-- Whether a callee is called as a procedure: it is neither wrong, nor a type, nor a built-in procedure. -/
def Mode.isCalled : Mode → Bool
  | .invalid | .type | .builtin _ => false
  | _ => true

namespace Check

variable {s t : Pass} {x y : Operand} {a : Arena} {G : Prop}

/-- A run that completes. -/
structure Gives {α : Type} (x : Check α) (s : Pass) (a : α) (t : Pass) : Prop where
  run : x s = .ok a t

/-- A routine only gives results with some property. -/
def Ends {α : Type} (P : α → Prop) (x : Check α) : Prop := ∀ {s a t}, Gives x s a t → P a

section

variable {α β : Type} {P : β → Prop}

theorem Gives.bind {x : Check α} {f : α → Check β} {b : β} (h : Gives (x >>= f) s b t) :
    ∃ a u, Gives x s a u ∧ Gives (f a) u b t := by
  obtain ⟨a, u, hx, hf⟩ := bind_eq_ok.mp h.run
  exact ⟨a, u, ⟨hx⟩, ⟨hf⟩⟩

theorem Gives.of_pure {b c : β} (h : Gives (pure b) s c t) : b = c ∧ s = t := by
  cases h.run
  exact ⟨rfl, rfl⟩

theorem Gives.readArena {f : Arena → Check β} {b : β} (h : Gives (arena >>= f) s b t) :
    Gives (f s.store.arena) s b t := ⟨h.run⟩

@[grind ←]
theorem ends_pure {b : β} (h : P b) : Ends P (pure b : Check β) := by
  intro s a t hs
  obtain ⟨rfl, -⟩ := hs.of_pure
  exact h

@[grind ←]
theorem ends_bind {x : Check α} {f : α → Check β} (h : ∀ a, Ends P (f a)) : Ends P (x >>= f) := by
  intro s b t hs
  obtain ⟨a, u, -, hu⟩ := hs.bind
  exact h a hu

end

/-- Operands that are neither values nor types. -/
structure Nothing (x : Operand) : Prop where
  not_value : x.mode.isValue = false
  not_type : x.mode ≠ .type

@[grind ←]
theorem nothing_invalid : Nothing (.invalid id) := ⟨rfl, nofun⟩

@[grind ←]
theorem nothing_noValue : Nothing (.noValue id) := ⟨rfl, nofun⟩

@[grind ←]
theorem ends_fail {p : Problem} : Ends Nothing (fail token p id) := by
  unfold fail
  grind

/-- Operands that are neither constants nor types. -/
structure Other (x : Operand) : Prop where
  not_constant : x.mode ≠ .constant
  not_type : x.mode ≠ .type

theorem other_value : Other (.value u id) := by constructor <;> simp [Operand.value]

theorem other_var : Other (.var u id) := by constructor <;> simp [Operand.var]

theorem sturdy_of_mode (h : x.mode.isValue = false) : x.Sturdy G t := fun hvalue => by
  rw [h] at hvalue
  cases hvalue

theorem Nothing.sturdy (h : Nothing x) : x.Sturdy G t := sturdy_of_mode h.not_value

theorem sturdy_of_type (h : t.store.arena.isInvalid x.type = false) : x.Sturdy G t := fun _ _ _ => h

theorem sturdy_basic {k : Kind} (h : x.type = .basic k) (hk : k ≠ .invalid) : x.Sturdy G t :=
  fun _ hb _ => hb.isInvalid_eq_false (by simpa [h, hb.base_basic] using hk)

/-- A type that was just built is not invalid. -/
theorem sturdy_newType {τ : Ty} (h : Gives (do return .value (← newType τ) id) s x t)
    (hname : ∀ name base e, τ ≠ .named name (some base) e) (hbasic : τ ≠ .basic .invalid) : x.Sturdy G t := by
  obtain ⟨u, s₁, hnew, h⟩ := h.bind
  obtain ⟨rfl, rfl⟩ := h.of_pure
  obtain ⟨rfl, rfl⟩ := newType_ok hnew.run
  intro _ hb _
  have hread : (s.store.newType τ).2.arena.type? (s.store.newType τ).1 = some τ := by
    rw [Store.type?_newType, if_pos rfl]
  exact hb.isInvalid_eq_false ((Arena.base_of_type? hread hname).trans_ne hbasic)

/-! ## Names and selections -/

/-- What an entity stands for: a type only if it is the name of one, and a value only with a type that is not invalid,
unless it is innate. -/
structure Operand.OfEntity (a : Arena) (id : EntityId) (x : Operand) : Prop where
  value : x.mode.isValue → a.isInvalid x.type = false ∨ x.mode ≠ .constant ∧ a.IsInnate id x.type
  type : x.mode = .type → (a.entity id).kind = .typeName ∧ x.type = (a.entity id).type.getD .invalid

theorem Nothing.ofEntity (h : Nothing x) (id : EntityId) : Operand.OfEntity a id x :=
  ⟨fun hx => absurd hx (Bool.eq_false_iff.mp h.not_value), fun hx => absurd hx h.not_type⟩

theorem Operand.OfEntity.sturdy {id : EntityId} (h : Operand.OfEntity t.store.arena id x)
    (hrefers : G → ∃ n, (n, id) ∈ t.notes.uses.entries) : x.Sturdy G t := by
  intro hvalue _ hknown
  rcases h.value hvalue with hvalid | ⟨hnot, hinnate⟩
  · exact hvalid
  · rcases hknown with hv | ⟨hG, hsound⟩
    · exact absurd hv hnot
    · obtain ⟨n, hn⟩ := hrefers hG
      exact hsound _ hn _ hinnate

theorem operandOf_gives {ctx : Context} {id : EntityId}
    (h : Gives (operandOf ctx (s.store.arena.entity id) id e foundIn) s x t) :
    Operand.OfEntity t.store.arena id x := by
  have h := h.readArena
  split at h
  case h_1 v hkind =>
    obtain ⟨rfl, rfl⟩ := h.of_pure
    split
    · exact nothing_invalid.ofEntity _
    case isFalse hvalid => exact ⟨fun _ => .inl (Bool.eq_false_iff.mpr hvalid), nofun⟩
  case h_2 => exact (ends_pure nothing_invalid h).ofEntity _
  case h_3 =>
    have h := h.readArena
    split at h
    · exact (ends_pure nothing_invalid h).ofEntity _
    case isFalse hvalid =>
      have hvar (h : Gives (pure (Operand.var ((s.store.arena.entity id).type.getD .invalid) e.id)) s x t) :
          Operand.OfEntity t.store.arena id x := by
        obtain ⟨rfl, rfl⟩ := h.of_pure
        exact ⟨fun _ => .inl (Bool.eq_false_iff.mpr hvalid), nofun⟩
      split at h
      · split at h
        · exact (ends_fail h).ofEntity _
        · exact hvar h
      · exact hvar h
  case h_4 hkind =>
    split at h
    · exact (ends_fail h).ofEntity _
    · obtain ⟨rfl, rfl⟩ := h.of_pure
      exact ⟨nofun, fun _ => ⟨hkind, rfl⟩⟩
  case h_5 =>
    obtain ⟨rfl, rfl⟩ := h.of_pure
    split
    · exact nothing_invalid.ofEntity _
    case isFalse hvalid => exact ⟨fun _ => .inl (Bool.eq_false_iff.mpr hvalid), nofun⟩
  case h_6 b _ => exact (ends_pure (⟨rfl, nofun⟩ : Nothing (.builtin b e.id)) h).ofEntity _
  case h_7 => exact (ends_fail h).ofEntity _
  case h_8 hkind =>
    obtain ⟨rfl, rfl⟩ := h.of_pure
    exact ⟨fun _ => .inr ⟨other_var.not_constant, .inr hkind, rfl⟩, nofun⟩
  case h_9 hkind =>
    obtain ⟨rfl, rfl⟩ := h.of_pure
    exact ⟨fun _ => .inr ⟨other_value.not_constant, .inl hkind, rfl⟩, nofun⟩

variable {resolve : Resolver} {ctx : Context}

/-- A field is selected from a value, and the type of the field is handed on. -/
structure SelectsField (s : Pass) (field : Ident) (x y : Operand) : Prop where
  valid : x.mode ≠ .invalid
  not_type : x.mode ≠ .type
  field : ∃ f, s.store.arena.lookupField x.type field.name = some f ∧
    (s.store.arena.entity f).type.getD .invalid = y.type
  other : Other y

section

-- What holds of the operand of every entity, and of whatever is neither a value nor a type, holds of every name. If
-- demands keep what was referred to, then the entity is referred to.
variable {P : Pass → Operand → Prop} (hG : G → ∀ ctx e, Moves Pass.Maintains (resolve ctx e))
  (hentity : ∀ {t id x}, Operand.OfEntity t.store.arena id x → (G → ∃ n, (n, id) ∈ t.notes.uses.entries) → P t x)
  (hnothing : ∀ {t x}, Nothing x → P t x)

include hG hentity

theorem refer_gives {id : EntityId} {n : NodeId}
    (h : Gives (do refer n id; entityOperand resolve ctx id e foundIn) s x t) : P t x := by
  obtain ⟨_, s₀, hrefer, h⟩ := h.bind
  obtain ⟨_, s₁, hmark, h⟩ := h.bind
  obtain ⟨_, s₂, hresolve, h⟩ := h.bind
  obtain ⟨z, s₃, hz, h⟩ := h.bind
  cases hz.run
  refine hentity (operandOf_gives h) fun hg => ⟨n, ?_⟩
  have hend : s₂.Maintains t := moves_operandOf.ok h.run
  have hstart : s₀.Maintains s₁ := moves_markReached.ok hmark.run
  refine hend.uses (((hG hg _ _).ok hresolve.run).uses (hstart.uses ?_))
  cases hrefer.run
  exact List.mem_cons_self

include hnothing

theorem nameOperand_gives {n : Ident} (h : Gives (nameOperand resolve ctx e n) s x t) : P t x := by
  unfold nameOperand at h
  split at h
  · exact hnothing (ends_fail h)
  · obtain ⟨a, s₁, -, h⟩ := h.bind
    split at h
    · exact hnothing (ends_fail h)
    · exact refer_gives hG hentity h

theorem importSelection_gives {id : EntityId} {info : ImportInfo}
    (h : Gives (importSelection resolve ctx e base field id info) s x t) : P t x := by
  obtain ⟨_, s₁, -, h⟩ := h.bind
  obtain ⟨_, s₂, -, h⟩ := h.bind
  obtain ⟨a, s₃, -, h⟩ := h.bind
  split at h
  · exact hnothing (ends_fail h)
  · exact refer_gives hG hentity h

theorem selection_gives (h : Gives (selection resolve ctx e base field x) s y t) :
    P t y ∨ SelectsField s field x y := by
  unfold selection at h
  split at h
  · exact .inl (hnothing (ends_pure nothing_invalid h))
  · obtain ⟨a, s₁, -, h⟩ := h.bind
    split at h
    · exact .inl (refer_gives hG hentity h)
    · exact .inl (hnothing (ends_fail h))
  case h_3 hinvalid htype =>
    have h := h.readArena
    split at h
    case h_1 f hf =>
      obtain ⟨_, s₁, -, h⟩ := h.bind
      obtain ⟨rfl, -⟩ := h.of_pure
      refine .inr ⟨hinvalid, htype, ⟨f, hf, ?_⟩, ?_⟩
      · split <;> rfl
      · split
        · exact other_var
        · exact other_value
    case h_2 => exact .inl (hnothing (ends_fail h))

end

/-! ## Operators and calls -/

theorem unaryConstant_type {folded : Except FoldError Constant}
    (h : Gives (unaryConstant e u folded) s x t) : Nothing x ∨ x.type = u ∧ t = s := by
  unfold unaryConstant at h
  split at h
  · exact .inl (ends_fail h)
  · have h := h.readArena
    split at h
    · obtain ⟨rfl, rfl⟩ := h.of_pure
      exact .inr ⟨rfl, rfl⟩
    · exact .inl (ends_bind (fun _ => ends_fail) h)

theorem sturdy_opposite {op : UnaryOp} {p : Kind → Bool} {fold : Constant → Except FoldError Constant}
    (h : Gives (opposite e op x (s.store.arena.kindIs x.type p) fold) s y t) (hp : p .invalid = false) :
    y.Sturdy G t := by
  unfold opposite at h
  split at h
  case isTrue hallowed =>
    have htype {y : Operand} (hy : y.type = x.type) : y.Sturdy G s :=
      fun _ hb _ => hb.isInvalid_of_kindIs hp (hy ▸ hallowed)
    split at h
    · rcases unaryConstant_type h with hnothing | ⟨hu, rfl⟩
      · exact hnothing.sturdy
      · exact htype hu
    · obtain ⟨rfl, rfl⟩ := h.of_pure
      exact htype rfl
  case isFalse => exact (ends_bind (fun _ => ends_fail) h).sturdy

theorem sturdy_unary {operand : Expr} {op : UnaryOp} (h : Gives (unary e op operand x) s y t) : y.Sturdy G t := by
  unfold unary at h
  split at h
  case isTrue hinvalid =>
    obtain ⟨rfl, rfl⟩ := h.of_pure
    exact sturdy_of_mode (by simp [beq_iff_eq.mp hinvalid, Mode.isValue])
  case isFalse =>
    split at h
    · exact (ends_fail h).sturdy
    · have h := h.readArena
      split at h
      · unfold addressOf at h
        split at h
        · exact sturdy_newType h (by simp) (by simp)
        · exact (ends_fail h).sturdy
      · exact sturdy_opposite h rfl
      · exact sturdy_opposite h rfl

theorem sturdy_fold (h : Gives (fold token op u x y id) s z t) (hu : s.store.arena.defines op u) :
    z.Sturdy G t := by
  have hresult {z : Operand} (hz : z.type = if op.isComparison then .basic .untypedBool else u) :
      z.Sturdy G s := by
    split at hz
    · exact sturdy_basic hz (by simp)
    · exact fun _ hb _ => hb.isInvalid_of_defines (hz ▸ hu)
  unfold fold at h
  generalize (if op.isComparison then TypeId.basic .untypedBool else u) = result at h hresult
  dsimp only at h
  split at h
  · split at h
    · have h := h.readArena
      split at h
      · obtain ⟨rfl, rfl⟩ := h.of_pure
        exact hresult rfl
      · exact (ends_bind (fun _ => ends_fail) h).sturdy
    · exact (ends_fail h).sturdy
    · obtain ⟨rfl, rfl⟩ := h.of_pure
      exact hresult rfl
  · obtain ⟨rfl, rfl⟩ := h.of_pure
    exact hresult rfl

theorem sturdy_combine (h : Gives (combine token op x y id) s z t) : z.Sturdy G t := by
  have h := h.readArena
  split at h
  · exact (ends_fail h).sturdy
  · split at h
    · exact (ends_fail h).sturdy
    case isFalse hdefines =>
      split at h
      · exact (ends_fail h).sturdy
      · exact sturdy_fold h (by simpa using hdefines)

theorem sturdy_binary (h : Gives (binary token op x y id) s z t) : z.Sturdy G t := by
  unfold binary at h
  split at h
  · exact (ends_pure nothing_invalid h).sturdy
  · split at h
    · exact (ends_fail h).sturdy
    · obtain ⟨⟨x', y'⟩, s₁, -, h⟩ := h.bind
      dsimp only at h
      split at h
      · exact (ends_pure nothing_invalid h).sturdy
      · exact sturdy_combine h

/-- The store stays as it is. -/
instance : Reports fun s t : Pass => t.store = s.store where
  refl _ := rfl
  trans h h' := h'.trans h
  report _ _ _ _ := rfl

theorem sturdy_convert (h : Gives (convert e u arg x) s y t) : y.Sturdy G t := by
  have h := h.readArena
  split at h
  · exact (ends_pure nothing_invalid h).sturdy
  case isFalse hvalid =>
    have hvalid : s.store.arena.isInvalid u = false := by
      rw [Bool.not_eq_true, Bool.or_eq_false_iff] at hvalid
      exact hvalid.2
    have hvalue (h : Gives (convertValue e u arg x) s y t) : y.Sturdy G t := by
      obtain ⟨z, s₁, hz, h⟩ := h.bind
      have hstore : s₁.store = s.store := (moves_convertUntyped (R := fun s t => t.store = s.store)).ok hz.run
      split at h
      · exact (ends_pure nothing_invalid h).sturdy
      · have h := h.readArena
        split at h
        · obtain ⟨rfl, rfl⟩ := h.of_pure
          exact sturdy_of_type (hstore ▸ hvalid)
        · exact (ends_fail h).sturdy
    split at h
    · exact (ends_fail h).sturdy
    · split at h
      · split at h
        · obtain ⟨rfl, rfl⟩ := h.of_pure
          exact sturdy_of_type hvalid
        · exact (ends_fail h).sturdy
        · exact hvalue h
      · exact hvalue h

theorem sturdy_conversion (h : Gives (conversion resolve ctx e u args) s y t) : y.Sturdy G t := by
  unfold conversion at h
  split at h
  · exact (ends_bind (fun _ => ends_fail) h).sturdy
  · obtain ⟨x, s₁, -, h⟩ := h.bind
    exact sturdy_convert h
  · exact (ends_bind (fun _ => ends_bind fun _ => ends_bind fun _ => ends_bind fun _ => ends_fail) h).sturdy

theorem sturdy_lengthOf (h : Gives (lengthOf e arg x) s y t) : y.Sturdy G t := by
  unfold lengthOf at h
  split at h
  · exact (ends_pure nothing_invalid h).sturdy
  · obtain ⟨rfl, rfl⟩ := h.of_pure
    exact sturdy_basic rfl (by simp)
  · have h := h.readArena
    split at h
    · obtain ⟨rfl, rfl⟩ := h.of_pure
      exact sturdy_basic rfl (by simp)
    · exact (ends_fail h).sturdy

theorem sturdy_measureOf (h : Gives (measureOf e u) s y t) : y.Sturdy G t := by
  have h := h.readArena
  split at h
  · exact (ends_pure nothing_invalid h).sturdy
  · obtain ⟨rfl, rfl⟩ := h.of_pure
    exact sturdy_basic rfl (by simp)

theorem sturdy_builtin {b : Builtin} (h : Gives (builtin resolve ctx e b args) s y t) : y.Sturdy G t := by
  unfold builtin at h
  split at h
  case h_1 arg =>
    split at h
    all_goals obtain ⟨x, s₁, -, h⟩ := h.bind
    case h_1 => exact sturdy_lengthOf h
    case h_2 => exact sturdy_measureOf h
    case h_3 => exact sturdy_measureOf h
    case h_4 =>
      have h := h.readArena
      split at h
      · exact (ends_pure nothing_invalid h).sturdy
      · exact sturdy_newType h (by simp) (by simp)
    case h_5 =>
      have hnothing : Ends Nothing (asserted e arg x) := by
        unfold asserted
        grind
      exact (hnothing h).sturdy
    case h_6 => exact (ends_bind (fun _ => ends_pure nothing_noValue) h).sturdy
    case h_7 => exact (ends_bind (fun _ => ends_pure nothing_noValue) h).sturdy
  case h_2 => exact (ends_fail h).sturdy

/-- A call hands on the type of the only result. -/
theorem resultOf_gives {results : List TypeId} (h : Gives (resultOf e results) s y t) :
    y.Sturdy G t ∨ Other y ∧ results = [y.type] := by
  unfold resultOf at h
  split at h
  · exact .inl (ends_pure nothing_noValue h).sturdy
  · obtain ⟨rfl, -⟩ := h.of_pure
    exact .inr ⟨other_value, rfl⟩
  · exact .inl (sturdy_newType h (by simp) (by simp))

/-! ## Expressions -/

/-- The last step of a routine is to note its result for an expression. -/
def NotesLast (e : Expr) (x : Check Operand) : Prop :=
  ∀ s y t, Gives x s y t → t.notes.types.entries.head? = some (e.id, y.note)

@[grind ←]
theorem notesLast_bind {α : Type} {x : Check α} {f : α → Check Operand} (h : ∀ a, NotesLast e (f a)) :
    NotesLast e (x >>= f) := by
  intro s y t hs
  obtain ⟨a, u, -, hu⟩ := hs.bind
  exact h a _ _ _ hu

@[grind ←]
theorem notesLast_annotate {id : NodeId} (h : e.id = id) :
    NotesLast e (do annotate id x; return x) := by
  intro s y t hs
  obtain ⟨_, s₁, hnote, hs⟩ := hs.bind
  obtain ⟨rfl, rfl⟩ := hs.of_pure
  cases hnote.run
  rw [← h]
  rfl

@[grind ←]
theorem notesLast_typeOperand : NotesLast e (typeOperand e u) := notesLast_annotate rfl

@[grind ←]
theorem notesLast_finishValue : NotesLast e (finishValue reading e x) := by
  unfold finishValue
  cases reading with
  | value => exact notesLast_annotate rfl
  | type declared => exact notesLast_bind fun _ => notesLast_bind fun _ => notesLast_typeOperand

@[grind ←]
theorem notesLast_finishName : NotesLast e (finishName reading e x) := by
  intro s y t h
  obtain ⟨_, s₁, hnote, hlast⟩ := h.bind
  have hsame (h : Gives (pure x : Check Operand) s₁ y t) : t.notes.types.entries.head? = some (e.id, y.note) := by
    obtain ⟨rfl, rfl⟩ := h.of_pure
    cases hnote.run
    rfl
  split at hlast
  · exact hsame hlast
  · exact hsame hlast
  · exact notesLast_typeOperand _ _ _ hlast
  · exact notesLast_bind (fun _ => notesLast_typeOperand) _ _ _ hlast

/-- Evaluating an expression ends in noting the result for its node. -/
theorem notesLast_expr {resolve : Resolver} (ctx : Context) (reading : Reading) (e : Expr) :
    NotesLast e (expr resolve ctx reading e) := by
  unfold expr
  cases e with
  | call n callee args =>
    refine notesLast_bind fun f => ?_
    dsimp only
    split <;> grind
  | paren n inner => exact notesLast_bind fun x => notesLast_annotate rfl
  | _ => grind

section

variable (resolve : Resolver) (ctx : Context) (s : Pass)

/-- An expression hands on a type without a look at it: it calls a procedure whose only result has the type, or
selects a field that has it. -/
inductive PassesOn : Expr → TypeId → Prop where
  | call {n : Node} {callee : Expr} {args : List Expr} {f : Operand} {t : Pass} {params : List TypeId} {u : TypeId} :
    expr resolve ctx .value callee s = .ok f t → f.mode.isCalled → t.store.arena.base f.type = .proc params [u] →
    PassesOn (.call n callee args) u
  | field {n : Node} {base : Expr} {field : Ident} {x : Operand} {t : Pass} {f : EntityId} {u : TypeId} :
    importNamed? s.store.arena ctx.scope base = none → expr resolve ctx .value base s = .ok x t →
    x.mode ≠ .invalid → x.mode ≠ .type → t.store.arena.lookupField x.type field.name = some f →
    (t.store.arena.entity f).type.getD .invalid = u → PassesOn (.select n base field) u
  | paren {n : Node} {e : Expr} {u : TypeId} : PassesOn e u → PassesOn (.paren n e) u

end

/-- The end of an evaluation only remembers the result. -/
theorem finishName_gives (h : Gives (finishName .value e x) s y t) : y = x ∧ t.store = s.store := by
  cases h.run
  exact ⟨rfl, rfl⟩

theorem finishValue_keeps (h : Gives (finishValue .value e x) s y t) : y = x ∧ t.store = s.store := by
  cases h.run
  exact ⟨rfl, rfl⟩

theorem sturdy_finishName (h : Gives (finishName .value e x) s y t) (hx : x.Sturdy G s) : y.Sturdy G t := by
  cases h.run
  exact hx

theorem sturdy_finishValue (h : Gives (finishValue .value e x) s y t) (hx : x.Sturdy G s) : y.Sturdy G t := by
  cases h.run
  exact hx

theorem ends_typeOperand : Ends (·.mode = .type) (typeOperand e u) := by
  intro s y t h
  cases h.run
  rfl

theorem call_gives {n : Node} {callee : Expr} (h : Gives (expr resolve ctx .value (.call n callee args)) s y t) :
    y.Sturdy G t ∨ Other y ∧ PassesOn resolve ctx s (.call n callee args) y.type := by
  unfold expr at h
  obtain ⟨f, s₁, hf, h⟩ := h.bind
  dsimp only at h
  split at h
  case h_1 =>
    obtain ⟨_, s₂, -, h⟩ := h.bind
    obtain ⟨z, s₃, hz, h⟩ := h.bind
    exact .inl (sturdy_finishValue h (ends_pure nothing_invalid hz).sturdy)
  case h_2 =>
    obtain ⟨z, s₂, hz, h⟩ := h.bind
    exact .inl (sturdy_finishValue h (sturdy_conversion hz))
  case h_3 =>
    obtain ⟨_, s₂, -, h⟩ := h.bind
    obtain ⟨z, s₃, hz, h⟩ := h.bind
    exact .inl (sturdy_finishValue h (ends_pure nothing_noValue hz).sturdy)
  case h_4 =>
    obtain ⟨z, s₂, hz, h⟩ := h.bind
    exact .inl (sturdy_finishValue h (sturdy_builtin hz))
  case h_5 hnotInvalid hnotType hnotPrint hnotBuiltin =>
    have hcalled : f.mode.isCalled := by
      cases hmode : f.mode with
      | invalid => exact absurd hmode hnotInvalid
      | type => exact absurd hmode hnotType
      | builtin b => exact absurd hmode (hnotBuiltin b)
      | _ => rfl
    have h := h.readArena
    split at h
    case h_1 params results hbase =>
      have hrest {s₂ : Pass} (h : Gives (do
          arguments resolve ctx params args
          let y ← resultOf (.call n callee args) results
          finishValue .value (.call n callee args) y) s₂ y t) :
          y.Sturdy G t ∨ Other y ∧ PassesOn resolve ctx s (.call n callee args) y.type := by
        obtain ⟨_, s₃, -, h⟩ := h.bind
        obtain ⟨z, s₄, hz, h⟩ := h.bind
        rcases resultOf_gives hz with hsturdy | ⟨hother, hresults⟩
        · exact .inl (sturdy_finishValue h hsturdy)
        · obtain ⟨rfl, -⟩ := finishValue_keeps h
          exact .inr ⟨hother, .call hf.run hcalled (hresults ▸ hbase)⟩
      split at h
      · obtain ⟨_, s₂, -, h⟩ := h.bind
        exact hrest h
      · exact hrest h
    case h_2 =>
      obtain ⟨_, s₂, -, h⟩ := h.bind
      obtain ⟨text, s₃, -, h⟩ := h.bind
      obtain ⟨z, s₄, hz, h⟩ := h.bind
      exact .inl (sturdy_finishValue h (ends_fail hz).sturdy)

/-- A value has a type that is not invalid, unless the expression hands on the type. -/
theorem expr_gives (hG : G → ∀ ctx e, Moves Pass.Maintains (resolve ctx e))
    (h : Gives (expr resolve ctx .value e) s y t) : y.Sturdy G t ∨ Other y ∧ PassesOn resolve ctx s e y.type := by
  induction e using Expr.induction generalizing y t with
  | h e ih =>
    have htype (h : Gives (expr resolve ctx .value e) s y t)
      (hends : Ends (·.mode = .type) (expr resolve ctx .value e)) :
        y.Sturdy G t := sturdy_of_mode (by rw [hends h]; rfl)
    cases e with
    | call n callee args => exact call_gives h
    | name n =>
      unfold expr at h
      obtain ⟨x, s₁, hx, h⟩ := h.bind
      exact .inl (sturdy_finishName h (nameOperand_gives hG Operand.OfEntity.sturdy Nothing.sturdy hx))
    | literal n v =>
      unfold expr at h
      cases v <;> exact .inl (sturdy_finishValue h (sturdy_basic rfl (by simp)))
    | paren n inner =>
      unfold expr at h
      obtain ⟨x, s₁, hx, h⟩ := h.bind
      obtain ⟨_, s₂, hnote, h⟩ := h.bind
      obtain ⟨rfl, rfl⟩ := h.of_pure
      cases hnote.run
      exact (ih inner (by simp) hx).imp id fun h => ⟨⟨h.1.not_constant, h.1.not_type⟩, .paren h.2⟩
    | unary n op operand =>
      unfold expr at h
      obtain ⟨x, s₁, -, h⟩ := h.bind
      obtain ⟨z, s₂, hz, h⟩ := h.bind
      exact .inl (sturdy_finishValue h (sturdy_unary hz))
    | binary n op left right =>
      unfold expr at h
      obtain ⟨x, s₁, -, h⟩ := h.bind
      obtain ⟨z, s₂, -, h⟩ := h.bind
      obtain ⟨w, s₃, hw, h⟩ := h.bind
      exact .inl (sturdy_finishValue h (sturdy_binary hw))
    | select n base field =>
      unfold expr at h
      have h := h.readArena
      split at h
      case h_1 id info himport =>
        obtain ⟨x, s₂, hx, h⟩ := h.bind
        exact .inl (sturdy_finishName h (importSelection_gives hG Operand.OfEntity.sturdy Nothing.sturdy hx))
      case h_2 himport =>
        obtain ⟨x, s₂, hx, h⟩ := h.bind
        obtain ⟨z, s₃, hz, h⟩ := h.bind
        rcases selection_gives hG Operand.OfEntity.sturdy Nothing.sturdy hz with hsturdy | hselects
        · exact .inl (sturdy_finishName h hsturdy)
        · obtain ⟨rfl, -⟩ := finishName_gives h
          obtain ⟨f, hf, hu⟩ := hselects.field
          exact .inr ⟨hselects.other, .field himport hx.run hselects.valid hselects.not_type hf hu⟩
    | pointer n elem =>
      refine .inl (htype h ?_)
      unfold expr
      exact ends_bind fun _ => ends_bind fun _ => ends_typeOperand
    | array n count elem =>
      refine .inl (htype h ?_)
      unfold expr
      exact ends_bind fun _ => ends_bind fun _ => ends_bind fun _ => ends_bind fun _ => ends_typeOperand
    | slice n elem =>
      refine .inl (htype h ?_)
      unfold expr
      exact ends_bind fun _ => ends_bind fun _ => ends_typeOperand
    | record n form fields =>
      refine .inl (htype h ?_)
      unfold expr
      exact ends_bind fun _ => ends_bind fun _ => ends_typeOperand
    | enum n base members =>
      refine .inl (htype h ?_)
      unfold expr
      exact ends_bind fun _ => ends_bind fun _ => ends_bind fun _ => ends_bind fun _ => ends_bind fun _ =>
        ends_typeOperand
    | proc n sig =>
      refine .inl (htype h ?_)
      unfold expr
      exact ends_bind fun _ => ends_typeOperand

/-- The value of an expression is firm. -/
theorem expr_firm (hg : ∀ ctx e, Moves Pass.Grows (resolve ctx e)) (hb : s.store.arena.HasBasics)
    (h : Gives (expr resolve ctx .value e) s x t) : x.Firm t.store.arena := by
  intro hv
  rcases expr_gives False.elim h with hsturdy | ⟨hother, -⟩
  · exact hsturdy (by rw [hv]; rfl) (hb.extend ((moves_expr hg ctx .value e).ok h.run).store.toExtends) (.inl hv)
  · exact absurd hv hother.not_constant

end Check

end Statics
