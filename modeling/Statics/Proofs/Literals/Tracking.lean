import Statics.Proofs.Building
import Statics.Proofs.Constants.Invariant

/-!
# What is noted of a literal

A literal is noted with its value when it is evaluated, and again when its value is converted for the place where it
is used. Any other note is about another node, as long as identities tell nodes apart and the literal is not the
right-hand side of a combined assignment: the result of the operator is noted there.

`Pass.Tracks id v` follows the notes of one node. Expressions, declarations and bodies that are still to be checked
have no other node with this identity than the literal `v`.
-/

namespace Statics

variable {node : NodeId} {note : Note} {purpose : Purpose} {token : Token} {τ : Ty} {target : TypeId}

/-! ## Notes of a literal -/

/-- The constant that a literal stands for. -/
def Literal.constant : Literal → Constant
  | .int v => .int v
  | .float v => .float v
  | .str s => .str s

/-- The untyped kind of a literal. -/
def Literal.kind : Literal → Kind
  | .int _ => .untypedInt
  | .float _ => .untypedFloat
  | .str _ => .untypedString

/-- A note gives the value of a literal, as it was written or in the form that the kind of the noted type stores. -/
def Note.Renders (a : Arena) (v : Literal) (note : Note) : Prop :=
  note.mode = .constant ∧ ∃ c, note.constant? = some c ∧
    (c = v.constant ∨ ∃ kind, a.kind? note.type = some kind ∧ v.constant.represent? kind = some c)

/-- An operand is a literal as it was written. -/
structure Operand.IsLiteral (x : Operand) (v : Literal) : Prop where
  mode : x.mode = .constant
  value : x.constant? = some v.constant
  type : x.type = .basic v.kind

theorem isLiteral_literalOperand (v : Literal) (id : NodeId) : (Check.literalOperand v id).IsLiteral v := by
  cases v <;> exact ⟨rfl, rfl, rfl⟩

/-- A constant that was not converted is noted as it is. -/
theorem Operand.IsLiteral.renders {x : Operand} (h : x.IsLiteral v) : x.note.Renders a v :=
  ⟨h.mode, _, h.value, .inl rfl⟩

/-! ## Kinds that stay -/

/-- Types whose kind does not change any more: valid basic types, and names that have a base. -/
def Ty.hasFinalKind : Ty → Bool
  | .basic k => k != .invalid
  | .named _ (some _) _ => true
  | _ => false

/-- Types keep their kinds, unless they are invalid: a handle that is not there yet reads as an invalid type. -/
def Arena.KeepsKinds (a b : Arena) : Prop := ∀ t k, k ≠ .invalid → a.kind? t = some k → b.kind? t = some k

theorem Constant.represent?_invalid (c : Constant) : c.represent? .invalid = none := by
  cases c <;> rfl

namespace Arena

variable {a b : Arena}

theorem type?_of_type {t : TypeId} (h : a.type t = τ) (hτ : τ.hasFinalKind) : a.type? t = some τ := by
  subst h
  cases ht : a.type? t with
  | none => simp [type, ht, Ty.blank, Ty.hasFinalKind] at hτ
  | some σ => simp [type, ht]

theorem baseWithin_basic (h : ∀ t τ, a.type? t = some τ → τ.hasFinalKind → b.type? t = some τ) {fuel : Nat}
    {t : TypeId} {k : Kind} (hvalid : (Ty.basic k).hasFinalKind) (hk : a.type (a.baseWithin fuel t) = .basic k) :
    b.type (b.baseWithin fuel t) = .basic k := by
  have hsame {t : TypeId} {τ : Ty} (ht : a.type t = τ) (hτ : τ.hasFinalKind) : b.type t = τ := by
    simp [type, h t τ (type?_of_type ht hτ) hτ]
  induction fuel generalizing t with
  | zero => exact hsame hk hvalid
  | succ fuel ih =>
    unfold baseWithin at hk
    split at hk
    case h_1 name base e hnamed =>
      have hnamed := hsame hnamed rfl
      unfold baseWithin
      rw [hnamed]
      exact ih hk
    case h_2 =>
      have hbasic := hsame hk hvalid
      unfold baseWithin
      rw [hbasic]
      exact hbasic

theorem KeepsKinds.of_types (h : ∀ t τ, a.type? t = some τ → τ.hasFinalKind → b.type? t = some τ) :
    a.KeepsKinds b := by
  intro t k hvalid hk
  have hbase : a.base t = .basic k := by
    unfold kind? at hk
    split at hk <;> simp_all
  simp only [kind?, base, baseType] at hbase ⊢
  rw [baseWithin_basic h (by simpa [Ty.hasFinalKind] using hvalid) hbase]

theorem Extends.keepsKinds (h : a.Extends b) : a.KeepsKinds b := .of_types fun t τ ht _ => h.types t τ ht

end Arena

/-- Filling in a type that has no final kind yet changes no kind. -/
theorem Store.keepsKinds_modifyType (s : Store) {u : TypeId} (hu : s.arena.type? u = some τ)
    (hτ : τ.hasFinalKind = false) (f : Ty → Ty) : s.arena.KeepsKinds (s.modifyType u f).arena := by
  refine .of_types fun t σ ht hσ => ?_
  rw [type?_modifyType, if_neg, ht]
  rintro ⟨-, rfl⟩
  rw [Option.some.inj (ht.symm.trans hu), hτ] at hσ
  cases hσ

theorem Note.Renders.keep {b : Arena} (h : note.Renders a v) (hk : a.KeepsKinds b) : note.Renders b v := by
  obtain ⟨hmode, c, hc, hvalue⟩ := h
  refine ⟨hmode, c, hc, hvalue.imp_right fun ⟨kind, hkind, hc⟩ => ⟨kind, hk _ _ ?_ hkind, hc⟩⟩
  rintro rfl
  simp [Constant.represent?_invalid] at hc

/-! ## What is still to be checked -/

/-- The value of the right-hand side of a combined assignment that is checked. -/
def Stmt.combined? : Stmt → Option Expr
  | .assign _ (some _) [_] [value] => some value
  | _ => none

section

variable (id : NodeId) (v : Literal)

/-- Every node of an expression with this identity is the literal. -/
def Expr.Tagged (e : Expr) : Prop := ∀ w, e.Marks id w → w = some v

/-- Every node in a statement with this identity is the literal, and no result of an operator is noted there. -/
structure Stmt.Tagged (s : Stmt) : Prop where
  exprs : ∀ e ∈ s.exprs, e.Tagged id v
  combined : ∀ e, s.combined? = some e → e.id ≠ id

/-- The same of a statement with all statements inside it. -/
def Stmt.TaggedWithin (s : Stmt) : Prop := ∀ u ∈ s :: s.inside, u.Tagged id v

/-- What holds of a pass without errors: what is still to be checked is tagged, and the notes of the node give the
value of the literal. -/
structure Pass.Tracks (s : Pass) : Prop where
  room : s.HasRoom
  kind : s.store.arena.kind? (.basic v.kind) = some v.kind
  decls : ∀ p ∈ s.decls, p.2.Holds (Expr.Tagged id v) fun d => (Stmt.decl (.proc d)).TaggedWithin id v
  queue : ∀ b ∈ s.queue, ∀ u ∈ b.block.stmts, u.TaggedWithin id v
  notes : ∀ note, (id, note) ∈ s.notes.types.entries → note.Renders s.store.arena v

end

namespace Expr.Tagged

variable {id : NodeId} {v : Literal} {e : Expr} (h : e.Tagged id v)

include h

theorem child {c : Expr} (hc : c ∈ e.children) : c.Tagged id v := fun w hw => h w (.child hc hw)

theorem literal?_eq (he : e.id = id) : e.literal? = some v := h _ (he ▸ .own e)

theorem id_ne (he : ∀ n v, e ≠ .literal n v) : e.id ≠ id := by
  intro heq
  have hv := h.literal?_eq heq
  cases e <;> simp_all [Expr.literal?]

theorem unparen : e.unparen.Tagged id v := by
  induction e using Expr.induction with
  | h e ih =>
    cases e with
    | paren n inner => exact ih inner (List.mem_singleton_self _) (h.child (List.mem_singleton_self _))
    | _ => exact h

theorem signature_ne {n : Node} {sig : Signature} (he : e = .proc n sig) : sig.node.id ≠ id := by
  subst he
  rintro rfl
  cases h _ (.signature n sig)

end Expr.Tagged

namespace Stmt.TaggedWithin

variable {id : NodeId} {v : Literal} {s : Stmt} (h : s.TaggedWithin id v)

include h

theorem own : s.Tagged id v := h s List.mem_cons_self

theorem expr {e : Expr} (he : e ∈ s.exprs) : e.Tagged id v := h.own.exprs e he

theorem part {u : Stmt} (hu : u ∈ s.parts) : u.TaggedWithin id v := fun w hw =>
  h w (List.mem_cons_of_mem _ (Stmt.mem_inside_of_part hu hw))

end Stmt.TaggedWithin

theorem Stmt.TaggedWithin.body {id : NodeId} {v : Literal} {d : ProcDecl} (h : (Stmt.decl (.proc d)).TaggedWithin id v)
    {block : Block} (hblock : d.body = some block) {s : Stmt} (hs : s ∈ block.stmts) : s.TaggedWithin id v := by
  intro u hu
  refine h u (List.mem_cons_of_mem _ ?_)
  rw [Stmt.inside, Decl.inside_proc, hblock, Block.insideOption, Block.inside_eq]
  exact Stmt.mem_insideList.mpr ⟨s, hs, hu⟩

/-! ## Steps -/

/-- Runs without an error that keep track of a literal. -/
abbrev Tracking (id : NodeId) (v : Literal) : Pass → Pass → Prop := Carries (Pass.Tracks id v)

section

variable {id : NodeId} {v : Literal} {s t : Pass}

theorem Pass.Tracks.keep (h : s.Tracks id v) (hk : s.store.arena.KeepsKinds t.store.arena)
    (hc : t.collector = s.collector) (hd : t.decls = s.decls) (hq : t.queue = s.queue)
    (hn : t.notes.types = s.notes.types) : t.Tracks id v where
  room := by
    rw [HasRoom, hc]
    exact h.room
  kind := hk _ _ (by cases v <;> simp [Literal.kind]) h.kind
  decls := hd ▸ h.decls
  queue := hq ▸ h.queue
  notes note hnote := (h.notes note (hn ▸ hnote)).keep hk

namespace Tracking

/-- A step that leaves declarations, bodies and notes alone. -/
theorem still (hg : s.Grows t) (hc : t.collector = s.collector) (hd : t.decls = s.decls) (hq : t.queue = s.queue)
    (hn : t.notes.types = s.notes.types) : Tracking id v s t :=
  ⟨.of_eq hc fun h => h.keep hg.store.toExtends.keepsKinds hc hd hq hn, hg⟩

/-- A type that was allocated before its parts were read is filled in. -/
theorem fill {τ : Ty} (hτ : τ.hasFinalKind = false) {u : Pass} (f : Ty → Ty)
    (h : Tracking id v { s with store := (s.store.newType τ).2 } u) :
    Tracking id v s { u with store := u.store.modifyType (s.store.newType τ).1 f } where
  grows := ⟨h.grows.store.fill _, h.grows.decls, h.grows.notes⟩
  log := (LogGrows.of_collector_eq rfl).trans (h.log.trans (.of_collector_eq rfl))
  keeps hsilent hs := by
    have hnew : Pass.Tracks id v { s with store := (s.store.newType τ).2 } :=
      hs.keep (Store.Grows.newType s.store τ).toExtends.keepsKinds rfl rfl rfl rfl
    have hread := h.grows.store.toExtends.types (s.store.newType τ).1 τ (by rw [Store.type?_newType, if_pos rfl])
    exact (h.keeps hsilent hnew).keep (u.store.keepsKinds_modifyType hread hτ f) rfl rfl rfl rfl

instance : Binds (Tracking id v) where
  refl s := ⟨.refl s, .refl s⟩
  trans := .trans
  report s d hd _ := .report Pass.Tracks.room s d hd
  refer s node e := still (Remarks.refer s node e) rfl rfl rfl rfl
  define s node e := still (Remarks.define s node e) rfl rfl rfl rfl
  markUsed s e := still (Remarks.markUsed s e) rfl rfl rfl rfl
  openScope s parent kind := still (Supplies.openScope s parent kind) rfl rfl rfl rfl
  noteScope s node scope := still (Supplies.noteScope s node scope) rfl rfl rfl rfl
  bind s scope e := still (Binds.bind s scope e) rfl rfl rfl rfl
  newEntity s e he := still (Allocates.newEntity s e he) rfl rfl rfl rfl
  newPointer s t := still (Supplies.newPointer s t) rfl rfl rfl rfl
  newTuple s ts := still (Supplies.newTuple s ts) rfl rfl rfl rfl
  newProc s params results := still (Supplies.newProc s params results) rfl rfl rfl rfl

instance : NamesTypes (Tracking id v) fun _ => True where
  settle s e f he hf := still (Settles.settle s e f he hf) rfl rfl rfl rfl
  claimSymbol s p := still (Settles.claimSymbol s p) rfl rfl rfl rfl
  newType s τ hτ hopen := still (BuildsTypes.newType s τ hτ hopen) rfl rfl rfl rfl
  fillEnum _ _ _ _ _ h := fill rfl _ h
  stopNamed _ _ _ _ _ h := Reports.trans (still (.of_store (.newType ..)) rfl rfl rfl rfl) h
  fillNamed _ _ _ _ _ h := fill rfl _ h

instance : Prepares (Tracking id v) where
  newWaiting s e he := still (Prepares.newWaiting s e he) rfl rfl rfl rfl
  hoist s node := still (Prepares.hoist s node) rfl rfl rfl rfl

instance : Records (Tracking id v) where
  record s m := still (Records.record s m) rfl rfl rfl rfl

instance : ReadsFiles (Tracking id v) where
  openFile s files := still (ReadsFiles.openFile s files) rfl rfl rfl rfl
  newImport s info token ident := still (ReadsFiles.newImport s info token ident) rfl rfl rfl rfl
  addImport s e := still (ReadsFiles.addImport s e) rfl rfl rfl rfl
  warn s d hd := by
    refine ⟨⟨ReadsFiles.warn s d hd, fun hsilent h => ?_⟩, ReadsFiles.warn s d hd⟩
    exact { h with room := h.room.of_silent (ReadsFiles.warn s d hd) hsilent }

end Tracking

theorem Pass.Tracks.annotate (h : s.Tracks id v) (hnote : node = id → note.Renders s.store.arena v) :
    Pass.Tracks id v { s with notes := { s.notes with types := s.notes.types.insert node note } } := by
  refine { h with notes := fun other hother => ?_ }
  rcases List.mem_cons.mp hother with heq | hold
  · cases heq
    exact hnote rfl
  · exact h.notes other hold

end

/-! ## Conversion and assignment -/

/-- If an expression is the node that is followed, then the operand is the literal as it was written. -/
def Operand.Fits (id : NodeId) (v : Literal) (e : Expr) (x : Operand) : Prop := e.id = id → x.IsLiteral v

namespace Check

variable {id : NodeId} {v : Literal} {e : Expr} {x y : Operand} {s t : Pass}

theorem tracks_annotate (h : node = id → x.IsLiteral v) :
    Moves (Tracking id v) (annotate node x) := by
  refine .of_ok (fun _ _ => rfl) fun s => ⟨_, _, rfl, .of_eq rfl fun hs => ?_, Observes.annotate s node x.note⟩
  exact hs.annotate fun heq => (h heq).renders

theorem tracks_annotateOther (h : node ≠ id) (x : Operand) : Moves (Tracking id v) (annotate node x) :=
  tracks_annotate fun heq => absurd heq h

/-- Nothing that is tracked gets lost in a routine that never runs without an error. -/
theorem Refuses.tracks {α : Type} {m : Check α} (h : Refuses m) (hg : Moves Pass.Grows m) : Moves (Tracking id v) m :=
  .carries h.log hg Pass.Tracks.room fun hclean => absurd hclean h.not_clean

theorem renders_convertNil (h : Clean (convertNil x target token) s y t) (hx : x.IsLiteral v) :
    t = s ∧ y.note.Renders s.store.arena v := by
  unfold convertNil at h
  have h := h.readArena
  split at h
  · obtain ⟨rfl, rfl⟩ := h.of_pure
    exact ⟨rfl, hx.mode, _, hx.value, .inl rfl⟩
  · exact absurd h (Refuses.not_clean (by grind))

theorem renders_convertTo {kind : Kind} (h : Clean (convertTo x kind target token) s y t)
    (hkind : s.store.arena.kind? target = some kind) (hx : x.IsLiteral v) :
    t = s ∧ y.note.Renders s.store.arena v := by
  unfold convertTo at h
  simp only [hx.value] at h
  split at h
  case h_1 c hc =>
    obtain ⟨rfl, rfl⟩ := h.of_pure
    exact ⟨rfl, hx.mode, c, rfl, .inr ⟨kind, hkind, hc⟩⟩
  case h_2 => exact absurd h (Refuses.not_clean (by grind))

/-- Conversion leaves a literal as it is, or gives it the form that the kind of its new type stores. -/
theorem renders_convertUntyped (h : Clean (convertUntyped x target token) s y t) (hs : s.Tracks id v)
    (hx : x.IsLiteral v) : t = s ∧ y.note.Renders s.store.arena v := by
  have hkeep (h : Clean (pure x) s y t) : t = s ∧ y.note.Renders s.store.arena v := by
    obtain ⟨rfl, rfl⟩ := h.of_pure
    exact ⟨rfl, hx.renders⟩
  unfold convertUntyped at h
  have h := h.readArena
  split at h
  · exact hkeep h
  · split at h
    case h_1 => exact renders_convertNil h hx
    case h_2 source kind _ hsource hkind =>
      split at h
      · split at h
        case isTrue hfloat =>
          simp only [Bool.and_eq_true, beq_iff_eq] at hfloat
          obtain ⟨rfl, rfl⟩ := hfloat
          obtain ⟨rfl, rfl⟩ := h.of_pure
          -- The literal is an integer, as no other literal is of its kind, so it has a value among the floats.
          rw [hx.type, hs.kind] at hsource
          cases v with
          | int i =>
            have hvalue : x.constant?.bind (·.represent? .untypedFloat) = some (.float (Float.ofInt i.toInt)) := by
              rw [hx.value]
              rfl
            exact ⟨rfl, hx.mode, _, hvalue, .inr ⟨.untypedFloat, hkind, rfl⟩⟩
          | _ => cases hsource
        case isFalse => exact hkeep h
      · split at h
        · exact renders_convertTo h hkind hx
        · exact hkeep h
    case h_3 => exact hkeep h

theorem tracks_of_annotateOwn (h : Clean (annotateOwn e x) s () t) (hs : s.Tracks id v)
    (hx : x.note.Renders s.store.arena v) : t.Tracks id v := by
  unfold annotateOwn at h
  split at h
  · cases h.run
    exact hs.annotate fun _ => hx
  · obtain ⟨-, rfl⟩ := h.of_pure
    exact hs

theorem tracks_of_settle (h : Clean (settle x e purpose) s y t) (hs : s.Tracks id v)
    (hx : x.IsLiteral v) : t.Tracks id v := by
  unfold settle at h
  have h := h.readArena
  split at h
  · exact absurd h (Refuses.not_clean (by unfold rejectMode; grind))
  · split at h
    · obtain ⟨y, s₁, hconvert, hrest⟩ := h.split (by grind)
      obtain ⟨rfl, hy⟩ := renders_convertUntyped hconvert hs hx
      obtain ⟨_, s₂, hnote, hdone⟩ := hrest.split (by grind)
      obtain ⟨-, rfl⟩ := hdone.of_pure
      exact tracks_of_annotateOwn hnote hs hy
    · obtain ⟨-, rfl⟩ := h.of_pure
      exact hs

theorem tracks_of_store (h : Clean (store x e target purpose) s y t)
    (hs : s.Tracks id v) (hx : x.note.Renders s.store.arena v) : t.Tracks id v := by
  unfold store at h
  have h := h.readArena
  split at h
  · obtain ⟨_, s₁, hnote, h⟩ := h.split (by grind)
    obtain ⟨-, rfl⟩ := h.of_pure
    exact tracks_of_annotateOwn hnote hs hx
  · exact absurd h (Refuses.not_clean (by unfold rejectMode; grind))

theorem tracks_of_storeIn (h : Clean (storeIn x e target purpose) s y t)
    (hs : s.Tracks id v) (hx : x.IsLiteral v) : t.Tracks id v := by
  unfold storeIn at h
  have h := h.readArena
  split at h
  · obtain ⟨-, rfl⟩ := h.of_pure
    exact hs
  · split at h
    · obtain ⟨y, s₁, hconvert, hrest⟩ := h.split (by grind)
      obtain ⟨rfl, hy⟩ := renders_convertUntyped hconvert hs hx
      split at hrest
      · obtain ⟨-, rfl⟩ := hrest.of_pure
        exact hs
      · exact tracks_of_store hrest hs hy
    · exact tracks_of_store h hs hx.renders

/-- Assigning the literal notes it as it was converted; assigning anything else does not touch its notes. -/
theorem tracks_assign (hx : x.Fits id v e) (target : Option TypeId) (purpose : Purpose) :
    Moves (Tracking id v) (assign x e target purpose) := by
  by_cases he : e.id = id
  case neg => exact moves_assignOf (tracks_annotateOther he)
  have hx := hx he
  refine .carries (moves_assign x e target purpose) (moves_assign x e target purpose) Pass.Tracks.room fun h hs => ?_
  unfold assign at h
  simp only [hx.mode] at h
  cases target with
  | none => exact tracks_of_settle h hs hx
  | some target => exact tracks_of_storeIn h hs hx

end Check

end Statics
