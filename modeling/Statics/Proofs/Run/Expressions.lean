import Statics.Proofs.Run

/-!
# Moves of operands and expressions

Conversion, operators, calls of built-in procedures, names and the parts of type expressions change a pass only by
reports, notes, ordinary entities with their bindings, and the types of values. Expressions add the types that they
spell out, and whatever their `Resolver` does.
-/

namespace Statics

variable {scan scan' : MemberScan} {s u : Pass} {args es : List Expr} {e arg base operand : Expr} {fields : List Field}
  {op : BinaryOp} {exposes : Bool} {field name : Ident} {standard : Int128} {names : List Ident} {id : NodeId}
  {x y : Operand} {ident : Option NodeId} {foundIn scope : Option ScopeId} {purpose : Purpose} {reading : Reading}
  {form : RecordForm} {sig : Signature} {token : Token} {target : TypeId}

namespace Check

variable {R : Pass → Pass → Prop}

section

variable [Reports R]

/-! ## Conversion -/

@[grind ←]
theorem moves_convertNil : Moves R (convertNil x target token) := by
  unfold convertNil
  grind

@[grind ←]
theorem moves_convertTo : Moves R (convertTo x kind target token) := by
  unfold convertTo
  grind

@[grind ←]
theorem moves_convertUntyped : Moves R (convertUntyped x target token) := by
  unfold convertUntyped
  grind

@[grind ←]
theorem moves_rejectMode {p : Problem} (hp : p.category.isFlow = false) : Moves R (rejectMode x e p) := by
  unfold rejectMode
  grind

/-! ## Operators -/

@[grind ←]
theorem moves_fail {p : Problem} (hp : p.category.isFlow = false) : Moves R (fail token p id) := by
  unfold fail
  grind

@[grind ←]
theorem moves_unaryConstant {folded : Except FoldError Constant} : Moves R (unaryConstant e t folded) := by
  unfold unaryConstant
  grind

@[grind ←]
theorem moves_opposite {op : UnaryOp} {allowed : Bool} (fold : Constant → Except FoldError Constant) :
    Moves R (opposite e op x allowed fold) := by
  unfold opposite
  grind

@[grind ←]
theorem moves_balance : Moves R (balance x y token) := by
  unfold balance
  grind

@[grind ←]
theorem moves_fold : Moves R (fold token op t x y id) := by
  unfold fold
  generalize (if op.isComparison then TypeId.basic .untypedBool else t) = result
  split
  · split <;> grind
  · grind

@[grind ←]
theorem moves_combine : Moves R (combine token op x y id) := by
  unfold combine
  grind

@[grind ←]
theorem moves_binary : Moves R (binary token op x y id) := by
  unfold binary
  grind

@[grind ←]
theorem moves_convertValue : Moves R (convertValue e target arg x) := by
  unfold convertValue
  grind

@[grind ←]
theorem moves_convert : Moves R (convert e target arg x) := by
  unfold convert
  grind

@[grind ←]
theorem moves_lengthOf : Moves R (lengthOf e arg x) := by
  unfold lengthOf
  grind

@[grind ←]
theorem moves_measureOf : Moves R (measureOf e t) := by
  unfold measureOf
  grind

@[grind ←]
theorem moves_asserted : Moves R (asserted e arg x) := by
  unfold asserted
  grind

/-! ## Parts of type expressions -/

@[grind ←]
theorem moves_embedField {field : EntityId} {scan : FieldScan} : Moves R (embedField field t scan) := by
  unfold embedField
  grind

@[grind ←]
theorem moves_memberValue : Moves R (memberValue name standard e x) := by
  unfold memberValue
  grind

@[grind ←]
theorem moves_enumBase : Moves R (enumBase e t) := by
  unfold enumBase
  grind

@[grind ←]
theorem moves_arrayCount : Moves R (arrayCount e x) := by
  unfold arrayCount
  grind

/-! ## Notes about an expression

An expression ends, and its value is assigned, along whatever allows notes about its node. -/

section

variable {e : Expr} (hown : ∀ x, Moves R (annotate e.id x))

include hown

theorem moves_typeOperandOf (t : TypeId) : Moves R (typeOperand e t) := moves_bind (hown _) fun _ => moves_pure _

theorem moves_rejectTypeOf : Moves R (rejectType e) := moves_bind (moves_report rfl) fun _ => moves_typeOperandOf hown _

theorem moves_finishNameOf (reading : Reading) (x : Operand) : Moves R (finishName reading e x) := by
  have htype := moves_typeOperandOf hown
  have hreject := moves_rejectTypeOf hown
  unfold finishName
  grind

theorem moves_finishValueOf (reading : Reading) (x : Operand) : Moves R (finishValue reading e x) := by
  have hreject := moves_rejectTypeOf hown
  unfold finishValue
  grind

theorem moves_annotateOwnOf (x : Operand) : Moves R (annotateOwn e x) := by
  unfold annotateOwn
  grind

theorem moves_settleOf (x : Operand) (purpose : Purpose) : Moves R (settle x e purpose) := by
  have hnote := moves_annotateOwnOf hown
  unfold settle
  grind

theorem moves_storeOf (x : Operand) (target : TypeId) (purpose : Purpose) : Moves R (store x e target purpose) := by
  have hnote := moves_annotateOwnOf hown
  unfold store
  grind

theorem moves_assignOf {target : Option TypeId} : Moves R (assign x e target purpose) := by
  have hsettle := moves_settleOf hown
  have hstore := moves_storeOf hown
  unfold assign storeIn
  grind

end

end

section

variable [Observes R]

@[grind ←]
theorem moves_typeOperand : Moves R (typeOperand e t) := moves_typeOperandOf (moves_annotate e.id) t

@[grind ←]
theorem moves_rejectType : Moves R (rejectType e) := moves_rejectTypeOf (moves_annotate e.id)

@[grind ←]
theorem moves_finishName : Moves R (finishName reading e x) :=
  moves_finishNameOf (moves_annotate e.id) reading x

@[grind ←]
theorem moves_finishValue : Moves R (finishValue reading e x) :=
  moves_finishValueOf (moves_annotate e.id) reading x

@[grind ←]
theorem moves_annotateOwn : Moves R (annotateOwn e x) :=
  moves_annotateOwnOf (moves_annotate e.id) x

@[grind ←]
theorem moves_store : Moves R (store x e target purpose) :=
  moves_storeOf (moves_annotate e.id) x target purpose

@[grind ←]
theorem moves_assign (x : Operand) (e : Expr) (target : Option TypeId) (purpose : Purpose) :
    Moves R (assign x e target purpose) := moves_assignOf (moves_annotate e.id)

end

/-! ## What is allocated -/

section

variable [Supplies R]

@[grind ←]
theorem moves_addressOf : Moves R (addressOf e operand x) := by
  unfold addressOf
  grind

@[grind ←]
theorem moves_unary {op : UnaryOp} : Moves R (unary e op operand x) := by
  unfold unary
  grind

@[grind ←]
theorem moves_allocated : Moves R (allocated e t) := by
  unfold allocated
  grind

@[grind ←]
theorem moves_resultOf (e : Expr) (results : List TypeId) : Moves R (resultOf e results) := by
  unfold resultOf
  grind

end

section

variable [Allocates R]

@[simp, grind =]
theorem isOrdinary_typed_var {info : VariableInfo} : (Entity.typed (.var info) token ident t).isOrdinary = true := rfl

@[simp, grind =]
theorem isOrdinary_typed_constant {v : Constant} :
    (Entity.typed (.constant (some v)) token ident t).isOrdinary = true := rfl

@[grind ←]
theorem moves_addField {scan : FieldScan} : Moves R (addField form exposes t name scan) := by
  unfold addField
  grind

@[grind ←]
theorem moves_addMember (kind : Kind) (t : TypeId) (name : Ident) (value : Int128) (scan : MemberScan) :
    Moves R (addMember kind t name value scan) := by
  unfold addMember
  grind

@[grind ←]
theorem moves_addFields (form : RecordForm) (exposes : Bool) (t : TypeId) (names : List Ident) (scan : FieldScan) :
    Moves R (addFields form exposes t names scan) := by
  induction names generalizing scan with
  | nil => exact moves_pure _
  | cons name rest ih => exact moves_bind moves_addField ih

@[grind ←]
theorem moves_addParams {scope : ScopeId} : Moves R (addParams scope exposes t names) := by
  induction names with
  | nil => exact moves_pure _
  | cons name rest ih => exact moves_newBound rfl ⟨rfl, rfl⟩ fun _ => ih

end

/-! ## Names and selections -/

section

variable [Reports R]

@[grind ←]
theorem moves_variableOperand {v : VariableInfo} {name : String} :
    Moves R (variableOperand ctx v t e name foundIn) := by
  unfold variableOperand
  grind

@[grind ←]
theorem moves_operandOf {x : Entity} {id : EntityId} : Moves R (operandOf ctx x id e foundIn) := by
  unfold operandOf
  grind

end

section

variable [Remarks R]

@[grind ←]
theorem moves_markReached {e : EntityId} : Moves R (markReached ctx e) := by
  unfold markReached
  grind

@[grind ←]
theorem moves_fieldSelection : Moves R (fieldSelection e base field x) := by
  unfold fieldSelection
  grind

variable {resolve : Resolver} {ctx : Context} (hr : ∀ e, Moves R (resolve ctx.plainly e))

include hr

theorem moves_entityOperand (id : EntityId) (e : Expr) (foundIn : Option ScopeId) :
    Moves R (entityOperand resolve ctx id e foundIn) := by
  unfold entityOperand
  grind

theorem moves_nameOperand (e : Expr) (n : Ident) : Moves R (nameOperand resolve ctx e n) := by
  unfold nameOperand
  grind [moves_entityOperand]

theorem moves_importSelection (e base : Expr) (field : Ident) (id : EntityId) (info : ImportInfo) :
    Moves R (importSelection resolve ctx e base field id info) := by
  unfold importSelection
  grind [moves_entityOperand]

theorem moves_memberSelection (e : Expr) (field : Ident) (t : TypeId) :
    Moves R (memberSelection resolve ctx e field t) := by
  unfold memberSelection
  grind [moves_entityOperand]

theorem moves_selection (e base : Expr) (field : Ident) (x : Operand) :
    Moves R (selection resolve ctx e base field x) := by
  unfold selection
  grind [moves_memberSelection]

end

/-! ## Parts of expressions -/

section

variable {resolve : Resolver} {ctx : Context}

/-- A new constant is one. -/
theorem isConstant_newEntity (s : Store) {x : Entity} {v : Option Constant} (hx : x.kind = .constant v) :
    (s.newEntity x).2.arena.IsConstant (s.newEntity x).1 := by
  refine ⟨x, v, ?_, hx⟩
  simp [Arena.entity?, Arena.slab?, Store.arena, Store.newEntity]

/-- Entering a member adds none, where its name is taken, or a new constant. -/
theorem addMember_ok {kind : Kind} {t : TypeId} {name : Ident} {value : Int128}
    (hrun : addMember kind t name value scan s = .ok scan' u) :
    scan'.members = scan.members ∨ ∃ (store : Store) (x : Entity), x.kind = .constant (some (.int value)) ∧
      scan'.members = scan.members ++ [(store.newEntity x).1] ∧ u.store = (store.newEntity x).2 := by
  unfold addMember at hrun
  split at hrun
  obtain ⟨_, s₁, -, hrun⟩ := bind_eq_ok.mp hrun
  all_goals
    obtain ⟨a, s₂, -, hrun⟩ := bind_eq_ok.mp hrun
    generalize a.fieldNamed? name.name scan.members = previous at hrun
    cases previous with
    | some previous =>
      obtain ⟨_, _, -, hrun⟩ := bind_eq_ok.mp hrun
      cases hrun
      exact .inl rfl
    | none =>
      obtain ⟨id, s₃, hnew, hrun⟩ := bind_eq_ok.mp hrun
      replace hrun := rest_of_ok rfl hrun
      cases hrun
      obtain ⟨rfl, rfl⟩ := newEntity_ok hnew
      exact .inr ⟨_, _, rfl, rfl, rfl⟩

/-- Members entered so far stay constants, and a new one is a constant. -/
theorem isConstant_addMember (hkeeps : ∀ s t e, R s t → s.store.arena.IsConstant e → t.store.arena.IsConstant e)
    {kind : Kind} {t : TypeId} {name : Ident} {value : Int128} (hadd : Moves R (addMember kind t name value scan))
    (hrun : addMember kind t name value scan s = .ok scan' u) (hscan : ∀ m ∈ scan.members, s.store.arena.IsConstant m) :
    ∀ m ∈ scan'.members, u.store.arena.IsConstant m := by
  have hold (m : EntityId) (hm : m ∈ scan.members) : u.store.arena.IsConstant m :=
    hkeeps _ _ m (hadd.ok hrun) (hscan m hm)
  rcases addMember_ok hrun with heq | ⟨store, x, hkind, heq, hstore⟩
  · rwa [heq]
  · rw [heq]
    intro m hm
    rcases List.mem_append.mp hm with hm | hm
    · exact hold m hm
    · rw [List.mem_singleton.mp hm, hstore]
      exact isConstant_newEntity _ hkind

section

variable [Reports R]

theorem moves_exprs (h : ∀ e ∈ es, Moves R (expr resolve ctx .value e)) : Moves R (exprs resolve ctx es) := by
  induction es with
  | nil => unfold exprs; exact moves_pure _
  | cons e rest ih =>
    rw [List.forall_mem_cons] at h
    unfold exprs
    exact moves_bind h.1 fun _ => ih h.2

/-- Along a relation, an expression may be read, and its value may be assigned. -/
structure Serves (R : Pass → Pass → Prop) (resolve : Resolver) (ctx : Context) (e : Expr) : Prop where
  read : ∀ reading, Moves R (expr resolve ctx reading e)
  assigned : ∀ target purpose, Moves R (expr resolve ctx .value e >>= fun x => assign x e target purpose)

omit [Reports R] in
/-- Where any operand may be assigned, reading is enough. -/
theorem serves_of_read [Observes R] (h : ∀ reading, Moves R (expr resolve ctx reading e)) :
    Serves R resolve ctx e := ⟨h, fun target purpose => moves_bind (h .value) fun x => moves_assign x e target purpose⟩

theorem Serves.bind {β : Type} (h : Serves R resolve ctx e) (target : Option TypeId) (purpose : Purpose)
    {rest : Check β} (hrest : Moves R rest) : Moves R (do
      let x ← expr resolve ctx .value e
      let _ ← assign x e target purpose
      rest) := by
  have hbind := moves_bind (h.assigned target purpose) fun _ => hrest
  rwa [bind_assoc] at hbind

/-- Arguments beyond the parameters are read but not assigned. -/
theorem moves_argumentsOf (params : List TypeId) (h : ∀ e ∈ args, Serves R resolve ctx e) :
    Moves R (arguments resolve ctx params args) := by
  induction args generalizing params with
  | nil => unfold arguments; exact moves_pure _
  | cons e rest ih =>
    rw [List.forall_mem_cons] at h
    cases params with
    | nil =>
      unfold arguments
      exact moves_bind (h.1.read _) fun _ => ih _ h.2
    | cons t params =>
      unfold arguments
      exact h.1.bind _ _ (ih _ h.2)

omit [Reports R] in
theorem moves_arguments [Observes R] (params : List TypeId)
    (h : ∀ e ∈ args, ∀ reading, Moves R (expr resolve ctx reading e)) : Moves R (arguments resolve ctx params args) :=
  moves_argumentsOf params fun e he => serves_of_read (h e he)

theorem moves_printedOf (h : ∀ e ∈ es, Serves R resolve ctx e) : Moves R (printed resolve ctx es) := by
  induction es with
  | nil => unfold printed; exact moves_pure _
  | cons e rest ih =>
    rw [List.forall_mem_cons] at h
    unfold printed
    exact h.1.bind _ _ (ih h.2)

omit [Reports R] in
theorem moves_printed [Observes R] (h : ∀ e ∈ es, ∀ reading, Moves R (expr resolve ctx reading e)) :
    Moves R (printed resolve ctx es) := moves_printedOf fun e he => serves_of_read (h e he)

theorem moves_conversion (e : Expr) (t : TypeId) (h : ∀ e ∈ args, Moves R (expr resolve ctx .value e)) :
    Moves R (conversion resolve ctx e t args) := by
  unfold conversion
  split
  · grind
  · grind
  · rw [List.forall_mem_cons, List.forall_mem_cons] at h
    have hrest := moves_exprs h.2.2
    exact moves_bind h.1 fun _ => moves_bind h.2.1 fun _ => moves_bind hrest fun _ => by grind

omit [Reports R] in
theorem moves_builtinOf [Supplies R] (e : Expr) (b : Builtin) (h : ∀ e ∈ args, Serves R resolve ctx e) :
    Moves R (builtin resolve ctx e b args) := by
  unfold builtin
  split
  · have harg := h _ (List.mem_singleton_self _)
    have hv := harg.read .value
    have ht := harg.read (.type none)
    cases b with
    | panic => exact harg.bind _ _ (moves_pure _)
    | print => exact harg.bind _ _ (moves_pure _)
    | _ => grind
  · grind

omit [Reports R] in
theorem moves_builtin [Observes R] [Supplies R] (e : Expr) (b : Builtin)
    (h : ∀ e ∈ args, ∀ reading, Moves R (expr resolve ctx reading e)) : Moves R (builtin resolve ctx e b args) :=
  moves_builtinOf e b fun e he => serves_of_read (h e he)

theorem moves_types (es : List Expr) (h : ∀ e ∈ es, Moves R (expr resolve ctx (.type none) e)) :
    Moves R (types resolve ctx es) := by
  induction es with
  | nil => unfold types; exact moves_pure _
  | cons e rest ih =>
    rw [List.forall_mem_cons] at h
    unfold types
    exact moves_bind h.1 fun _ => moves_bind (ih h.2) fun _ => moves_pure _

theorem moves_recordFieldsOf {form : RecordForm} (scan : FieldScan)
    (h : ∀ f ∈ fields, Moves R (expr resolve ctx (.type none) f.type))
    (hadd : ∀ f ∈ fields, ∀ exposes t scan, Moves R (addFields form exposes t f.names scan)) :
    Moves R (recordFields resolve ctx form fields scan) := by
  induction fields generalizing scan with
  | nil => unfold recordFields; exact moves_pure _
  | cons f rest ih =>
    obtain ⟨names, type, exposes⟩ := f
    rw [List.forall_mem_cons] at h hadd
    unfold recordFields
    exact moves_bind h.1 fun t => moves_bind (hadd.1 _ _ _) fun scan => ih scan h.2 hadd.2

omit [Reports R] in
theorem moves_recordFields [Allocates R] (form : RecordForm) (fields : List Field) (scan : FieldScan)
    (h : ∀ f ∈ fields, Moves R (expr resolve ctx (.type none) f.type)) :
    Moves R (recordFields resolve ctx form fields scan) :=
  moves_recordFieldsOf scan h fun f _ exposes t => moves_addFields form exposes t f.names

theorem moves_baseOf (base : Option Expr) (h : ∀ e ∈ base, Moves R (expr resolve ctx (.type none) e)) :
    Moves R (baseOf resolve ctx base) := by
  cases base with
  | none => unfold baseOf; exact moves_pure _
  | some e =>
    unfold baseOf
    exact moves_bind (h e rfl) fun x => moves_enumBase

theorem moves_valueOf {value : Option Expr} (h : ∀ e ∈ value, Moves R (expr resolve ctx .value e)) :
    Moves R (valueOf resolve ctx name standard value) := by
  cases value with
  | none => unfold valueOf; exact moves_pure _
  | some e =>
    unfold valueOf
    exact moves_bind (h e rfl) fun x => moves_memberValue

section

variable {kind : Kind} {t : TypeId} {members : List Member}
  (h : ∀ m ∈ members, ∀ e ∈ m.value, Moves R (expr resolve ctx .value e))
  (hadd : ∀ m ∈ members, ∀ v scan, Moves R (addMember kind t m.name v scan))

include h hadd

theorem moves_enumMembersOf (scan : MemberScan) : Moves R (enumMembers resolve ctx kind t members scan) := by
  induction members generalizing scan with
  | nil => unfold enumMembers; exact moves_pure _
  | cons m rest ih =>
    obtain ⟨name, value⟩ := m
    rw [List.forall_mem_cons] at h hadd
    unfold enumMembers
    exact moves_bind (moves_valueOf h.1) fun v => moves_bind (hadd.1 _ _) fun scan => ih h.2 hadd.2 scan

/-- The members of an enum are constants, where constants stay constants. -/
theorem isConstant_enumMembers (hkeeps : ∀ s t e, R s t → s.store.arena.IsConstant e → t.store.arena.IsConstant e)
    (hrun : enumMembers resolve ctx kind t members scan s = .ok scan' u)
    (hscan : ∀ m ∈ scan.members, s.store.arena.IsConstant m) : ∀ m ∈ scan'.members, u.store.arena.IsConstant m := by
  induction members generalizing scan s with
  | nil =>
    unfold enumMembers at hrun
    cases hrun
    exact hscan
  | cons m rest ih =>
    obtain ⟨name, value⟩ := m
    rw [List.forall_mem_cons] at h hadd
    unfold enumMembers at hrun
    obtain ⟨v, s₁, hvalue, hrun⟩ := bind_eq_ok.mp hrun
    obtain ⟨scan₁, s₂, hadded, hrun⟩ := bind_eq_ok.mp hrun
    have hscan₁ (m : EntityId) (hm : m ∈ scan.members) : s₁.store.arena.IsConstant m :=
      hkeeps _ _ m ((moves_valueOf h.1).ok hvalue) (hscan m hm)
    exact ih h.2 hadd.2 hrun (isConstant_addMember hkeeps (hadd.1 _ _) hadded hscan₁)

end

omit [Reports R] in
theorem moves_enumMembers [Allocates R] (kind : Kind) (t : TypeId) (members : List Member) (scan : MemberScan)
    (h : ∀ m ∈ members, ∀ e ∈ m.value, Moves R (expr resolve ctx .value e)) :
    Moves R (enumMembers resolve ctx kind t members scan) :=
  moves_enumMembersOf h (fun m _ => moves_addMember kind t m.name) scan

theorem moves_parameters {scope : Option ScopeId} (h : ∀ f ∈ fields, Moves R (expr resolve ctx (.type none) f.type))
    (hadd : ∀ f ∈ fields, ∀ scope exposes t, Moves R (addParams scope exposes t f.names)) :
    Moves R (parameters resolve ctx scope fields) := by
  induction fields with
  | nil => unfold parameters; exact moves_pure _
  | cons f rest ih =>
    obtain ⟨names, type, exposes⟩ := f
    rw [List.forall_mem_cons] at h hadd
    have hrest := ih h.2 hadd.2
    unfold parameters
    refine moves_bind h.1 fun t => ?_
    split <;> grind

end

theorem moves_signatureOf [Supplies R] (scope : Option ScopeId) {sig : Signature}
    (hown : ∀ x, Moves R (annotate sig.node.id x))
    (hadd : ∀ f ∈ sig.params, ∀ scope exposes t, Moves R (addParams scope exposes t f.names))
    (hp : ∀ f ∈ sig.params, Moves R (expr resolve ctx (.type none) f.type))
    (hs : ∀ e ∈ sig.results, Moves R (expr resolve ctx (.type none) e)) :
    Moves R (signature resolve ctx scope sig) := by
  obtain ⟨node, params, results⟩ := sig
  unfold signature
  exact moves_bind (moves_parameters hp hadd) fun ps => moves_bind (moves_types results hs) fun rs =>
    moves_bind (moves_newProc ps rs) fun t => moves_bind (hown _) fun _ => moves_pure _

theorem moves_signature [Observes R] [Allocates R] (hp : ∀ f ∈ sig.params,
    Moves R (expr resolve ctx (.type none) f.type)) (hs : ∀ e ∈ sig.results,
    Moves R (expr resolve ctx (.type none) e)) : Moves R (signature resolve ctx scope sig) :=
  moves_signatureOf scope (moves_annotate sig.node.id) (fun _ _ _ _ _ => moves_addParams)
    hp hs

end

end Check

/-! ## Expressions -/

namespace Expr

/-- The expressions that an expression is made of. -/
def children : Expr → List Expr
  | .name _ | .literal .. => []
  | .paren _ e | .unary _ _ e | .select _ e _ | .pointer _ e | .slice _ e => [e]
  | .binary _ _ left right => [left, right]
  | .call _ callee args => callee :: args
  | .array _ count elem => [count, elem]
  | .record _ _ fields => fields.map Field.type
  | .enum _ base members => base.toList ++ members.filterMap Member.value
  | .proc _ sig => sig.params.map Field.type ++ sig.results

/-- Type expressions that are built from others by value or behind a pointer. -/
def isTypeForm : Expr → Bool
  | .pointer .. | .array .. | .slice .. | .record .. | .enum .. => true
  | _ => false

theorem sizeOf_type_lt (h : e ∈ fields.map Field.type) : sizeOf e < sizeOf fields := by
  obtain ⟨f, hf, rfl⟩ := List.mem_map.mp h
  have hlt := List.sizeOf_lt_of_mem hf
  cases f
  simp only [Field.mk.sizeOf_spec] at hlt ⊢
  omega

/-- An expression is larger than those that it is made of. -/
theorem sizeOf_lt_of_mem_children {c : Expr} (h : c ∈ e.children) : sizeOf c < sizeOf e := by
  cases e with
  | name => cases h
  | literal => cases h
  | call node callee args =>
    rcases List.mem_cons.mp h with rfl | h
    · simp +arith
    · have hlt := List.sizeOf_lt_of_mem h
      simp only [call.sizeOf_spec]
      omega
  | record node form fields =>
    have hlt := sizeOf_type_lt h
    simp only [record.sizeOf_spec]
    omega
  | enum node base members =>
    simp only [enum.sizeOf_spec]
    rcases List.mem_append.mp h with h | h
    · rw [Option.mem_toList] at h
      subst h
      simp +arith
    · obtain ⟨m, hm, hvalue⟩ := List.mem_filterMap.mp h
      have hlt := List.sizeOf_lt_of_mem hm
      cases m
      simp only at hvalue
      subst hvalue
      simp only [Member.mk.sizeOf_spec, Option.some.sizeOf_spec] at hlt
      omega
  | proc node sig =>
    obtain ⟨_, params, results⟩ := sig
    simp only [proc.sizeOf_spec, Signature.mk.sizeOf_spec]
    rcases List.mem_append.mp h with h | h
    · have hlt := sizeOf_type_lt h
      simp only at hlt
      omega
    · have hlt := List.sizeOf_lt_of_mem h
      simp only at hlt
      omega
  | _ =>
    simp only [children, List.mem_cons, List.not_mem_nil, or_false] at h
    grind [paren.sizeOf_spec, unary.sizeOf_spec, binary.sizeOf_spec, select.sizeOf_spec, pointer.sizeOf_spec,
      array.sizeOf_spec, slice.sizeOf_spec]

/-- What holds of an expression if it holds of those that it is made of holds of every expression. -/
theorem induction {P : Expr → Prop} (h : ∀ e : Expr, (∀ c ∈ e.children, P c) → P e) (e : Expr) : P e :=
  h e fun c hc =>
    have := sizeOf_lt_of_mem_children hc
    induction h c
termination_by sizeOf e

attribute [simp] children

end Expr

/-- What is known of the expressions that are still to be read, and of the operands that they give: a relation allows to
assign these. -/
class Follows (R : Pass → Pass → Prop) (L : outParam (Expr → Prop)) (V : outParam (Operand → Expr → Prop)) : Prop where
  fits : ∀ {resolve ctx e s x t}, L e → Check.expr resolve ctx .value e s = .ok x t → V x e
  spliced : ∀ {a x e}, V x e → ∀ p ∈ Check.spliced a x e, V p.1 p.2
  assign : ∀ {x e}, V x e → ∀ target purpose, Check.Moves R (Check.assign x e target purpose)

namespace Check

variable {R : Pass → Pass → Prop} {resolve : Resolver} {ctx : Context}

/-- Nothing needs to be known where every expression may be noted. -/
instance [Observes R] : Follows R (fun _ => True) fun _ _ => True where
  fits _ _ := trivial
  spliced _ _ _ := trivial
  assign _ := moves_assign _ _

/-- What is known of an expression allows to assign its value. -/
theorem serves_of_follows {L : Expr → Prop} {V : Operand → Expr → Prop} [Reports R] [Follows R L V] (he : L e)
    (h : ∀ reading, Moves R (expr resolve ctx reading e)) : Serves R resolve ctx e where
  read := h
  assigned target purpose :=
    moves_bindResult (h .value) (fun hrun => Follows.fits R he hrun)
      (fun x => (moves_assign (R := LogGrows) x e ..).traced) fun _ hx => Follows.assign hx target purpose

/-- Apart from literals and type forms, an expression moves along whatever allows to note its nodes, to use its parts,
and what names, selections and parameters do. -/
theorem moves_plainForm [Supplies R] (he : e.isTypeForm = false) (hl : ∀ n v, e ≠ .literal n v)
    (hown : ∀ x, Moves R (annotate e.id x)) (hsig : ∀ n sig, e = .proc n sig → ∀ x, Moves R (annotate sig.node.id x))
    (hname : ∀ n, e = .name n → Moves R (nameOperand resolve ctx e n))
    (hselect : ∀ n base field, e = .select n base field → Moves R (expr resolve ctx .value base) → ∀ reading,
    Moves R (expr resolve ctx reading e)) (hadd : ∀ n sig, e = .proc n sig → ∀ f ∈ sig.params, ∀ scope exposes t,
    Moves R (addParams scope exposes t f.names)) (h : ∀ c ∈ e.children, Serves R resolve ctx c) :
    Moves R (expr resolve ctx reading e) := by
  have hvalue := moves_finishValueOf hown reading
  cases e with
  | name n =>
    unfold expr
    exact moves_bind (hname n rfl) fun x => moves_finishNameOf hown reading x
  | literal n v => exact absurd rfl (hl n v)
  | paren n inner =>
    have hi := (h inner (by simp)).read reading
    unfold expr
    exact moves_bind hi fun _ => moves_bind (hown _) fun _ => moves_pure _
  | unary n op operand =>
    have hx := (h operand (by simp)).read .value
    unfold expr
    grind
  | binary n op left right =>
    have hx := (h left (by simp)).read .value
    have hy := (h right (by simp)).read .value
    unfold expr
    grind
  | call n callee args =>
    -- the callee decides in which of these ways the arguments are read
    have hf := (h callee (by simp)).read .value
    have ha : ∀ e ∈ args, Serves R resolve ctx e := fun e he => h e (by simp [he])
    have hargs := moves_exprs fun e he => (ha e he).read .value
    have hprinted := moves_printedOf ha
    have hconversion := fun e t => moves_conversion e t fun e he => (ha e he).read .value
    have hbuiltin := fun e b => moves_builtinOf e b ha
    have harguments := fun params => moves_argumentsOf params ha
    unfold expr
    refine moves_bind hf fun f => ?_
    split <;> grind
  | select n base field => exact hselect n base field rfl ((h base (by simp)).read .value) reading
  | proc n sig =>
    have hs := moves_signatureOf none (hsig n sig rfl) (hadd n sig rfl)
      (fun f hf => (h f.type (List.mem_append_left _ (List.mem_map_of_mem hf))).read _)
      fun e he => (h e (List.mem_append_right _ he)).read _
    unfold expr
    exact moves_bind hs fun t => moves_typeOperandOf hown t
  | _ => simp [Expr.isTypeForm] at he

/-- A selection reads its base, then a member, a field or an imported name. -/
theorem moves_select [Remarks R] {n : Node} {base : Expr} {field : Ident}
    (hown : ∀ x, Moves R (annotate (Expr.select n base field).id x)) (hr : ∀ id, Moves R (resolve ctx.plainly id))
    (hb : Moves R (expr resolve ctx .value base)) : Moves R (expr resolve ctx reading (.select n base field)) := by
  have hfinish := moves_finishNameOf hown reading
  have hs := fun x => moves_selection hr (.select n base field) base field x
  have hi := fun id info => moves_importSelection hr (.select n base field) base field id info
  unfold expr
  grind

/-- A type form moves along whatever allows to build types, to note its node, to enter fields and members, and to read
its parts. -/
theorem moves_typeForm [BuildsTypes R] (he : e.isTypeForm) (hown : ∀ x, Moves R (annotate e.id x))
    (hfields : ∀ n form fields, e = .record n form fields → ∀ f ∈ fields, ∀ exposes t scan,
    Moves R (addFields form exposes t f.names scan)) (hmembers : ∀ n base members, e = .enum n base members →
    ∀ m ∈ members, ∀ kind t v scan, Moves R (addMember kind t m.name v scan))
    (h : ∀ c ∈ e.children, ∀ ctx reading, Moves R (expr resolve ctx reading c)) :
    Moves R (expr resolve ctx reading e) := by
  have htype := moves_typeOperandOf hown
  cases e with
  | pointer n elem =>
    have hx := h elem (by simp) ctx.indirect (.type none)
    unfold expr
    grind
  | array n count elem =>
    have hc := h count (by simp) ctx .value
    have hx := h elem (by simp) ctx (.type none)
    have ht := fun length elem => moves_newType (R := R) (t := .array length elem) rfl rfl
    unfold expr
    grind
  | slice n elem =>
    have hx := h elem (by simp) ctx.indirect (.type none)
    have ht := fun elem => moves_newType (R := R) (t := .slice elem) rfl rfl
    unfold expr
    grind
  | record n form fields =>
    have hx := moves_recordFieldsOf ⟨[], []⟩ (fun f hf => h f.type (List.mem_map_of_mem hf) ctx (.type none))
      (hfields n form fields rfl)
    have ht := fun form fields => moves_newType (R := R) (t := .record form fields) rfl rfl
    unfold expr
    grind
  | enum n base members =>
    have hb := moves_baseOf base fun e he => h e (List.mem_append_left _ (by simpa using he)) ctx (.type none)
    have hvalues (m : Member) (hm : m ∈ members) (e : Expr) (he : e ∈ m.value) : Moves R (expr resolve ctx .value e) :=
      h e (List.mem_append_right _ (List.mem_filterMap.mpr ⟨m, hm, he⟩)) ctx .value
    have hadd (kind : Kind) (t : TypeId) (m : Member) (hm : m ∈ members) := hmembers n base members rfl m hm kind t
    unfold expr
    refine moves_bind hb fun t => moves_bind moves_arena fun a => ?_
    -- the type is there before its members, which must be constants when it is filled
    refine moves_fillEnum (fun id => moves_enumMembersOf hvalues (hadd _ _) ⟨[], .zero⟩)
      (fun hkeeps id s scan u hrun => ?_) fun id scan => htype id
    exact isConstant_enumMembers hvalues (hadd _ _) hkeeps hrun (by simp)
  | _ => simp [Expr.isTypeForm] at he

/-- Apart from type forms, an expression moves along whatever allows to allocate and to note expressions. -/
theorem moves_exprOf [Observes R] [Allocates R] (he : e.isTypeForm = false)
    (hr : ∀ id, Moves R (resolve ctx.plainly id)) (h : ∀ c ∈ e.children, ∀ reading,
    Moves R (expr resolve ctx reading c)) : Moves R (expr resolve ctx reading e) := by
  by_cases hl : ∃ n v, e = .literal n v
  · obtain ⟨n, v, rfl⟩ := hl
    unfold expr
    exact moves_finishValue
  · refine moves_plainForm he (fun n v heq => hl ⟨n, v, heq⟩) (moves_annotate _) (fun _ sig _ => moves_annotate _)
      (fun n _ => moves_nameOperand hr e n) (fun n base field heq hb reading => ?_)
      (fun _ sig _ f _ scope exposes t => moves_addParams) (fun c hc => serves_of_read (h c hc))
    subst heq
    exact moves_select (moves_annotate _) hr hb

/-- Every expression moves along whatever allows to build types and to note expressions. -/
theorem moves_expr [Observes R] [Allocates R] [BuildsTypes R] (hr : ∀ ctx e, Moves R (resolve ctx e)) (ctx : Context)
    (reading : Reading) (e : Expr) : Moves R (expr resolve ctx reading e) := by
  induction e using Expr.induction generalizing ctx reading with
  | h e ih =>
    cases he : e.isTypeForm with
    | true =>
      exact moves_typeForm he (moves_annotate _)
        (fun _ form _ _ f _ exposes t => moves_addFields form exposes t f.names)
        (fun _ _ _ _ m _ kind t => moves_addMember kind t m.name) (fun c hc ctx reading => ih c hc ctx reading)
    | false => exact moves_exprOf he (hr _) (fun c hc reading => ih c hc ctx reading)

/-- A signature reads nothing but types. -/
theorem moves_anySignature [Observes R] [Allocates R] [BuildsTypes R] (hr : ∀ ctx e, Moves R (resolve ctx e)) :
    Moves R (signature resolve ctx scope sig) :=
  moves_signature (fun f _ => moves_expr hr ctx (.type none) f.type) fun e _ => moves_expr hr ctx (.type none) e

end Check

end Statics
