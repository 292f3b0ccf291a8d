import Statics.Proofs.Validity.Declarations

/-!
# Statements in valid states

Entering declarations, `using` and every statement go through valid states, and so does the body of a procedure with all
procedures inside it.
-/

namespace Statics.Check

variable {alone : Bool} {config : Config} {target : Expr} {binder : Ident} {cases targets values : List Expr}
  {names : List Ident} {seen : List SeenCase} {stmts : List Stmt} {union : Option TypeId} {keyword : String}
  {token : Token}

variable {b : Body} {d : Declaration} {owner : EntityId} {entries : List (Ident × EntityId)}
  {xs : List (Operand × Expr)} {entities members : List EntityId} {tag : Operand} {resolve : Resolver} {u : TypeId}

variable {s t : Pass} {ctx : Context} {e : EntityId} {scope : ScopeId} {x : Operand}

/-! ## Entering declarations -/

/-- New variables are allocated. -/
theorem yields_newVariables : Yields s (newVariables names) fun es t => ∀ e ∈ es, t.view.Has e := by
  induction names generalizing s with
  | nil => exact yields_pure fun _ e he => by cases he
  | cons name rest ih =>
    refine (yields_newEntity fun _ _ => Entity.valid_fresh (fun _ h => by cases h) (fun _ h => by cases h) rfl).bind
      fun e t _ he => ?_
    refine ih.bind fun es w hw hes => yields_pure fun _ e' he' => ?_
    rcases List.mem_cons.mp he' with rfl | he'
    · exact hw.has he.has
    · exact hes e' he'

theorem sound_bindGlobals (hscope : s.view.Has scope) (hd : d.Valid s)
    (hvars : ∀ scope x, d ≠ .type scope x) (hentries : ∀ p ∈ entries, s.view.Has p.2) :
    Sound s (bindGlobals scope d entries) := by
  induction entries generalizing s with
  | nil => exact sound_pure ()
  | cons p rest ih =>
    have he := hentries p List.mem_cons_self
    refine (sound_bind (some p.1) hscope he).bind fun _ t ht _ => ?_
    refine (sound_await (ht.has he) (ht.refines.declaration hd) fun scope x h => absurd h (hvars scope x)).andThen
      fun w hw => ?_
    have hleads := ht.trans hw
    exact ih (hleads.has hscope) (hleads.refines.declaration hd) fun q hq =>
      hleads.has (hentries q (List.mem_cons_of_mem _ hq))

theorem yields_declareGlobals (d : VarDecl) (hscope : s.view.Has scope) :
    Yields s (declareGlobals d scope) fun es t => ∀ e ∈ es, t.view.Has e := by
  have hrest (t : Pass) (ht : s.Leads t) : Yields t (do
      let entities ← newVariables d.names
      bindGlobals scope (.vars scope entities d.type d.values) (d.names.zip entities)
      return entities) fun es t => ∀ e ∈ es, t.view.Has e := by
    refine yields_newVariables.bind fun es w hw hes => ?_
    have hleads := ht.trans hw
    refine (sound_bindGlobals (hleads.has hscope) (d := .vars scope es d.type d.values) ⟨hleads.has hscope, hes⟩
      (fun _ _ h => by cases h) fun p hp => hes p.2 (List.of_mem_zip hp).2).andThen fun z hz => ?_
    exact yields_pure fun _ e he => hz.has (hes e he)
  unfold declareGlobals
  exact .ite (fun _ => sound_report.andThen hrest) fun _ => (sound_pure ()).andThen hrest

theorem yields_enterConstants (hscope : s.view.Has scope) {type : Option Expr} :
    Yields s (enterConstants scope type names values) fun es t => ∀ e ∈ es, t.view.Has e := by
  induction names generalizing s values with
  | nil =>
    cases values with
    | nil => exact yields_pure fun _ e he => by cases he
    | cons extra rest => exact sound_report.andThen fun _ _ => yields_pure fun _ e he => by cases he
  | cons name rest ih =>
    refine (yields_newEntity fun _ _ => Entity.valid_fresh (fun _ h => by cases h) (fun _ h => by cases h) rfl).bind
      fun e t ht he => ?_
    have hrest (w : Pass) (hw : t.Leads w) : Yields w (do
        await e (.constant scope type values.head?)
        let _ ← bind scope (some name) e
        return e :: (← enterConstants scope type rest values.tail)) fun es t => ∀ e ∈ es, t.view.Has e := by
      have hscope' := (ht.trans hw).has hscope
      refine (sound_await (hw.has he.has) (d := .constant scope type values.head?) ⟨hscope', fun _ h => by cases h⟩
        fun _ _ h => by cases h).andThen fun z hz => ?_
      refine (sound_bind (some name) (hz.has hscope') ((hw.trans hz).has he.has)).bind fun _ q hq _ => ?_
      refine (ih ((hz.trans hq).has hscope')).bind fun es r hr hes => yields_pure fun _ e' he' => ?_
      rcases List.mem_cons.mp he' with rfl | he'
      · exact (((hw.trans hz).trans hq).trans hr).has he.has
      · exact hes e' he'
    exact .ite (fun _ => sound_report.andThen hrest) fun _ => (sound_pure ()).andThen hrest

theorem yields_declareConstants (d : ConstDecl) (hscope : s.view.Has scope) :
    Yields s (declareConstants d scope) fun es t => ∀ e ∈ es, t.view.Has e := by
  unfold declareConstants
  cases d.names with
  | nil => exact yields_enterConstants hscope
  | cons first rest =>
    exact sound_hoist.andThen fun t ht => yields_enterConstants (ht.has hscope)

/-- A declaration is kept for a new thing, and the thing is bound. -/
theorem yields_awaitBind {x : Entity} {name : Ident} (hx : ∀ v e, x.Valid v e) (hd : d.Valid s)
    (hscope : s.view.Has scope) : Yields s (do
      let e ← newEntity x
      await e d
      let _ ← bind scope (some name) e
      return e) fun e t => t.view.Has e := by
  refine (yields_newEntity fun _ e => hx s e).bind fun e t ht he => ?_
  refine (sound_await he.has (ht.refines.declaration hd) fun _ _ _ d' hd' => he.free d' hd').andThen fun w hw => ?_
  refine (sound_bind (some name) ((ht.trans hw).has hscope) (hw.has he.has)).bind fun _ z hz _ => ?_
  exact yields_pure fun _ => (hw.trans hz).has he.has

theorem yields_declareType (d : TypeDecl) (hscope : s.view.Has scope) :
    Yields s (declareType d scope) fun e t => t.view.Has e := by
  refine sound_hoist.andThen fun t ht => ?_
  have hscope' := ht.has hscope
  exact yields_awaitBind (d := .type scope d.type)
    (fun _ _ => Entity.valid_fresh (fun _ h => by cases h) (fun _ h => by cases h) rfl)
    ⟨hscope', fun _ h => by cases h⟩ hscope'

theorem yields_declareProc (d : ProcDecl) (hscope : s.view.Has scope) :
    Yields s (declareProc d scope) fun e t => t.view.Has e :=
  yields_awaitBind (d := .proc scope d)
    (fun _ _ => Entity.valid_fresh (fun _ h => by cases h) (fun _ h => by cases h) rfl)
    ⟨hscope, fun _ h => by cases h⟩ hscope

/-! ## Using -/

section

variable (hscope : s.view.Has scope)

include hscope

theorem sound_bindAll (hmembers : ∀ m ∈ members, s.view.Has m) : Sound s (bindAll scope members) := by
  induction members generalizing s with
  | nil => exact sound_pure ()
  | cons m rest ih =>
    refine (sound_storeBind hscope (hmembers m List.mem_cons_self)).bind fun _ t ht _ => ?_
    exact ih (ht.has hscope) fun m' hm' => ht.has (hmembers m' (List.mem_cons_of_mem _ hm'))

theorem sound_exposeMembers {source : String} (hmembers : ∀ m ∈ members, s.view.Has m) :
    Sound s (exposeMembers scope source token members) := by
  refine yields_arena fun _ => ?_
  split
  · exact sound_report
  · exact sound_bindAll hscope hmembers

/-- Each field is exposed as a new entity that refers to the owner. -/
theorem sound_bindFields (howner : s.view.Has owner) {fields : List EntityId}
    (hfields : ∀ f ∈ fields, s.view.IsField f) : Sound s (bindFields scope owner fields) := by
  induction fields generalizing s with
  | nil => exact sound_pure ()
  | cons f rest ih =>
    refine yields_entity fun hs => ?_
    have hsettled := hs.intact.settled_type (hfields f List.mem_cons_self).not_literal
    -- of what an entity may refer to, the new one has its owner and its type
    refine (yields_newEntity fun _ _ =>
      ⟨fun _ h => by (cases h), fun o ho => ?_, fun _ h => by (cases h), fun u hu _ => ?_,
      fun _ h => by (cases h), fun h => by (cases h)⟩).bind fun id t ht hid => ?_
    · cases ho
      exact howner
    · cases hu
      exact hsettled
    · refine (sound_storeBind (ht.has hscope) hid.has).bind fun _ w hw _ => ?_
      have hleads := ht.trans hw
      exact ih (hleads.has hscope) (hleads.has howner) fun f' hf' =>
        hleads.refines.isField (hfields f' (List.mem_cons_of_mem _ hf'))

theorem sound_exposeVariable (howner : s.view.Has owner) : Sound s (exposeVariable scope owner token) := by
  refine yields_arena fun hs => ?_
  refine .ite (fun _ => sound_pure ()) fun _ => ?_
  split
  · exact sound_report
  case h_2 fields hfields =>
    split
    · exact sound_report
    · exact sound_bindFields hscope howner fun f hf => hs.intact.isField_of_fields? hfields hf

theorem sound_exposeType {e : EntityId} : Sound s (exposeType scope e token) := by
  refine yields_arena fun hs => ?_
  refine .ite (fun _ => sound_pure ()) fun _ => ?_
  split
  case h_1 members hmembers =>
    exact sound_exposeMembers hscope fun m hm => hs.intact.has_of_members? hmembers hm
  case h_2 => exact sound_report

theorem sound_exposeEntity (he : s.view.Has e) : Sound s (exposeEntity scope e token) := by
  refine yields_arena fun hs => ?_
  split
  · exact sound_exposeMembers hscope fun m hm => hs.intact.has_of_bound hm
  · exact sound_exposeType hscope
  · exact sound_exposeVariable hscope he
  · exact sound_exposeVariable hscope he
  · exact sound_report

end

/-- What is exposed is allocated. -/
theorem yields_usingTarget (hr : Answers s resolve) (hctx : ctx.Valid s) :
    Yields s (usingTarget resolve ctx target) fun found t => ∀ e, found = some e → t.view.Has e := by
  have hnone (t : Pass) (token : Token) (p : Problem) : Yields t (do
      report token p
      return none) fun found t => ∀ e : EntityId, found = some e → t.view.Has e :=
    sound_report.andThen fun _ _ => yields_pure fun _ _ h => by cases h
  unfold usingTarget
  split
  case h_1 n =>
    refine yields_arena fun hs => ?_
    split
    · exact hnone s _ _
    case h_2 e f hlookup =>
      have he : s.view.Has e := hs.intact.has_of_lookup hlookup
      refine (sound_refer he).andThen fun t ht => (sound_markUsed (ht.has he)).andThen fun w hw => ?_
      refine yields_pure fun _ e' h => ?_
      cases h
      exact (ht.trans hw).has he
  case h_2 n base field =>
    refine ((checks_expr resolve _).value hr hctx).bind fun x t _ _ => ?_
    refine .ite (fun _ => yields_pure fun _ _ h => by cases h) fun _ => yields_get fun ht => ?_
    split
    case h_1 e huse =>
      refine yields_pure fun _ e' h => ?_
      cases h
      obtain ⟨before, after, hentries, -⟩ := List.lookup_eq_some_iff.mp huse
      exact ht.referred (field.id, e) (by simp [hentries])
    case h_2 => exact hnone t _ _
  case h_3 => exact hnone s _ _

theorem sound_use (hr : Answers s resolve) (hctx : ctx.Valid s) : Sound s (use resolve ctx target) := by
  refine (yields_usingTarget hr hctx).bind fun found t ht hfound => ?_
  cases found with
  | none => exact sound_pure ()
  | some e =>
    refine (hr t ht ctx e (ht.context hctx) (hfound e rfl)).andThen fun w hw => ?_
    exact sound_exposeEntity ((ht.trans hw).context hctx).scope (hw.has (hfound e rfl))

/-! ## Simple statements -/

section

variable (hctx : ctx.Valid s)

include hctx

theorem delivers_expr (e : Expr) : Delivers s (expr demand ctx .value e) :=
  (checks_expr demand e).value answers_demand hctx

theorem sound_exprStmt (e : Expr) : Sound s (exprStmt ctx e) := by
  refine (delivers_expr hctx e).bind fun x t _ _ => ?_
  split
  · exact sound_pure ()
  · exact sound_pure ()
  · exact sound_report
  · exact .ite (fun _ => sound_pure ()) fun _ => sound_report

theorem valid_targeting : ctx.targeting.Valid s := ⟨hctx.scope, hctx.signature⟩

theorem sound_assignOperand (hx : x.Valid s) {e : Expr} : Sound s (assignTo ctx target x e) := by
  have hctx' : (if target.unparen.asName?.isSome then ctx.targeting else ctx).Valid s := by
    split
    · exact valid_targeting hctx
    · exact hctx
  unfold assignTo
  refine .ite (fun _ => sound_pure ()) fun _ => .ite (fun _ => ?_) fun _ => ?_
  · exact (sound_assignFree hx).bind fun _ _ _ _ => sound_pure ()
  · refine (delivers_expr hctx' target).bind fun place t ht hplace => ?_
    split
    · exact sound_pure ()
    · exact (sound_assignTo (ht.operand hx) hplace.has).bind fun _ _ _ _ => sound_pure ()
    · exact sound_report

/-- Operands stay valid while those before them are assigned. -/
theorem sound_assignEach (hxs : ∀ p ∈ xs, p.1.Valid s) : Sound s (assignEach ctx targets xs) := by
  induction targets generalizing s xs with
  | nil =>
    unfold assignEach
    exact sound_pure ()
  | cons target rest ih =>
    cases xs with
    | nil =>
      unfold assignEach
      exact sound_pure ()
    | cons p xs =>
      refine (sound_assignOperand hctx (hxs p List.mem_cons_self)).andThen fun t ht => ?_
      exact ih (ht.context hctx) fun q hq => ht.operand (hxs q (List.mem_cons_of_mem _ hq))

theorem sound_plainAssign (token : Token) (targets values : List Expr) :
    Sound s (plainAssign ctx token targets values) := by
  unfold plainAssign
  refine .ite (fun _ => sound_report) fun _ => ?_
  refine (yields_operands answers_demand hctx).bind fun xs t ht hxs => ?_
  refine (sound_assignEach (ht.context hctx) fun p hp => (hxs p hp).valid).andThen fun _ _ => ?_
  exact .ite (fun _ => sound_report) fun _ => sound_pure ()

theorem sound_combinedAssign (token : Token) (op : BinaryOp) (targets values : List Expr) :
    Sound s (combinedAssign ctx token op targets values) := by
  unfold combinedAssign
  split
  case h_1 target value =>
    refine (delivers_expr hctx target).bind fun x t ht hx => ?_
    refine (delivers_expr (ht.context hctx) value).bind fun y w hw hy => ?_
    refine (delivers_binary (hw.operand hx) hy).bind fun z q hq hz => ?_
    exact .ite (fun _ => sound_pure ()) fun _ => sound_assignOperand (((ht.trans hw).trans hq).context hctx) hz
  case h_2 => exact sound_report

theorem sound_stepStmt (token : Token) (dir : Step) (target : Expr) : Sound s (stepStmt ctx token dir target) := by
  refine (delivers_expr hctx target).bind fun x t _ hx => ?_
  refine .ite (fun _ => sound_pure ()) fun _ => yields_arena fun ht => ?_
  refine .ite (fun _ => sound_report) fun _ => .ite (fun _ => sound_report) fun _ => ?_
  have hone : (Operand.constant (.basic .untypedInt) (.int .one) target.id).Valid t :=
    valid_constant (ht.intact.suits_basic (Constant.fits_untypedInt _)) _
  refine (delivers_binary hx hone).bind fun y w hw hy => ?_
  refine .ite (fun _ => sound_pure ()) fun _ => ?_
  exact (sound_assignTo hy (hw.has hx.has)).bind fun _ _ _ _ => sound_pure ()

theorem sound_condition {e : Expr} : Sound s (condition ctx e keyword) := by
  refine (delivers_expr hctx e).bind fun x t _ _ => yields_arena fun _ => ?_
  exact .ite (fun _ => sound_report) fun _ => sound_pure ()

theorem sound_conditionOption {e : Option Expr} : Sound s (condition? ctx e keyword) := by
  cases e with
  | none => exact sound_pure ()
  | some e => exact sound_condition hctx

end

theorem sound_assignResults (hxs : ∀ p ∈ xs, p.1.Valid s) {results : List TypeId}
    (hresults : ∀ u ∈ results, s.view.Has u) : Sound s (assignResults xs results) := by
  induction xs generalizing s results with
  | nil =>
    unfold assignResults
    exact sound_pure ()
  | cons p xs ih =>
    cases results with
    | nil =>
      unfold assignResults
      exact sound_pure ()
    | cons u results =>
      refine (sound_assignTo (hxs p List.mem_cons_self) (hresults u List.mem_cons_self)).bind fun _ t ht _ => ?_
      exact ih (fun q hq => ht.operand (hxs q (List.mem_cons_of_mem _ hq))) fun u' hu' =>
        ht.has (hresults u' (List.mem_cons_of_mem _ hu'))

/-- The results of a valid signature are allocated. -/
theorem has_resultsOf (hs : s.Valid) {r : TypeId} (hr : r ∈ resultsOf s.store.arena u) : s.view.Has r := by
  unfold resultsOf at hr
  split at hr
  case h_1 params results htype =>
    rw [Arena.type] at htype
    cases hread : s.store.arena.type? u with
    | none =>
      rw [hread] at htype
      cases htype
    | some τ =>
      rw [hread] at htype
      cases htype
      exact ((hs.intact.types u _ hread).2 r hr).has
  case h_2 => cases hr

theorem sound_returnStmt (hctx : ctx.Valid s) (token : Token) (values : List Expr) :
    Sound s (returnStmt ctx token values) := by
  unfold returnStmt
  refine .ite (fun _ => sound_report) fun _ => ?_
  split
  · exact sound_report
  · refine yields_arena fun hs => ?_
    refine (yields_operands answers_demand hctx).bind fun xs t ht hxs => ?_
    refine .ite (fun _ => sound_report) fun _ => ?_
    exact sound_assignResults (fun p hp => (hxs p hp).valid) fun r hr => ht.has (has_resultsOf hs hr)

theorem sound_jump (ctx : Context) (allowed : Permissions) (token : Token) (kind : BranchKind) (label : Option Ident) :
    Sound s (jump ctx allowed token kind label) := by
  unfold jump
  split
  · split
    · exact sound_report
    · split
      · exact sound_report
      · exact sound_pure ()
  · split
    · exact sound_report
    · exact sound_pure ()

theorem sound_uses (hctx : ctx.Valid s) (targets : List Expr) : Sound s (uses ctx targets) := by
  induction targets generalizing s with
  | nil => exact sound_pure ()
  | cons target rest ih =>
    exact (sound_use answers_demand hctx).andThen fun t ht => ih (ht.context hctx)

/-! ## Declarations as statements -/

theorem sound_demandAll (hctx : ctx.Valid s) (hentities : ∀ e ∈ entities, s.view.Has e) :
    Sound s (demandAll ctx entities) := by
  induction entities generalizing s with
  | nil => exact sound_pure ()
  | cons e rest ih =>
    refine (sound_demand hctx (hentities e List.mem_cons_self)).andThen fun t ht => ?_
    exact ih (ht.context hctx) fun e' he' => ht.has (hentities e' (List.mem_cons_of_mem _ he'))

theorem sound_bindVariables (hscope : s.view.Has scope)
    (hentries : ∀ p ∈ entries, s.view.Has p.2) : Sound s (bindVariables scope entries) := by
  induction entries generalizing s with
  | nil => exact sound_pure ()
  | cons p rest ih =>
    refine (sound_bind (some p.1) hscope (hentries p List.mem_cons_self)).bind fun _ t ht _ => ?_
    exact ih (ht.has hscope) fun q hq => ht.has (hentries q (List.mem_cons_of_mem _ hq))

theorem sound_exposeVariables (hscope : s.view.Has scope)
    (hentities : ∀ e ∈ entities, s.view.Has e) : Sound s (exposeVariables scope entities) := by
  induction entities generalizing s with
  | nil => exact sound_pure ()
  | cons e rest ih =>
    refine yields_entity fun _ => ?_
    refine (sound_exposeVariable hscope (hentities e List.mem_cons_self)).andThen fun t ht => ?_
    exact ih (ht.has hscope) fun e' he' => ht.has (hentities e' (List.mem_cons_of_mem _ he'))

theorem sound_localVariables (hctx : ctx.Valid s) (d : VarDecl) : Sound s (localVariables ctx d) := by
  refine yields_newVariables.bind fun es t ht hes => ?_
  refine (sound_varDecl hes answers_demand (ht.context hctx)).andThen fun w hw => ?_
  have hleads := ht.trans hw
  refine (sound_bindVariables (hleads.context hctx).scope fun p hp => hw.has (hes p.2 (List.of_mem_zip hp).2)).andThen
    fun z hz => ?_
  refine .ite (fun _ => ?_) fun _ => sound_pure ()
  exact sound_exposeVariables ((hleads.trans hz).context hctx).scope fun e he => (hw.trans hz).has (hes e he)

theorem sound_declStmt (hctx : ctx.Valid s) (d : Decl) : Sound s (declStmt ctx d) := by
  cases d with
  | vars d => exact sound_localVariables hctx d
  | consts d =>
    simp only [declStmt]
    split
    · exact sound_pure ()
    · refine yields_get fun _ => .ite (fun _ => sound_pure ()) fun _ => ?_
      exact (yields_declareConstants d hctx.scope).bind fun es t ht hes => sound_demandAll (ht.context hctx) hes
  | type d =>
    refine yields_get fun _ => .ite (fun _ => sound_pure ()) fun _ => ?_
    exact (yields_declareType d hctx.scope).bind fun e t ht he => sound_demand (ht.context hctx) he
  | proc d => exact (yields_declareProc d hctx.scope).bind fun e t ht he => sound_demand (ht.context hctx) he
  | imported d => exact sound_report

/-- What is entered ahead is allocated when it is demanded. -/
theorem yields_enterHoisted (hscope : s.view.Has scope) :
    Yields s (enterHoisted scope stmts) fun p t => (∀ e ∈ p.1, t.view.Has e) ∧ ∀ e ∈ p.2, t.view.Has e := by
  induction stmts generalizing s with
  | nil => exact yields_pure fun _ => ⟨fun e he => by (cases he), fun e he => by (cases he)⟩
  | cons stmt rest ih =>
    unfold enterHoisted
    split
    case h_1 heq => cases heq
    case h_2 d _ heq =>
      cases heq
      refine (yields_declareType d hscope).bind fun e t ht he => ?_
      refine (ih (ht.has hscope)).bind fun p w hw hp => yields_pure fun _ => ⟨fun e' he' => ?_, hp.2⟩
      rcases List.mem_cons.mp he' with rfl | he'
      · exact hw.has he
      · exact hp.1 e' he'
    case h_3 d _ heq =>
      cases heq
      refine (yields_declareConstants d hscope).bind fun es t ht hes => ?_
      refine (ih (ht.has hscope)).bind fun p w hw hp => yields_pure fun _ => ⟨hp.1, fun e' he' => ?_⟩
      rcases List.mem_append.mp he' with he' | he'
      · exact hw.has (hes e' he')
      · exact hp.2 e' he'
    case h_4 heq =>
      cases heq
      exact ih hscope

theorem sound_hoistAll (hctx : ctx.Valid s) : Sound s (hoistAll ctx stmts) := by
  refine (yields_enterHoisted hctx.scope).bind fun p t ht hp => ?_
  exact sound_demandAll (ht.context hctx) fun e he => (List.mem_append.mp he).elim (hp.1 e) (hp.2 e)

/-! ## Switches -/

theorem sound_defaults {first : Option Pos} {clauses : List Clause} : Sound s (defaults keyword first clauses) := by
  induction clauses generalizing s first with
  | nil =>
    unfold defaults
    exact sound_pure ()
  | cons c rest ih =>
    unfold defaults
    refine .ite (fun _ => ?_) fun _ => ih
    cases first with
    | some previous => exact sound_report.andThen fun _ _ => ih
    | none => exact ih

section

variable (hctx : ctx.Valid s)

include hctx

theorem sound_switchCase (htag : tag.Valid s) {e : Expr} : Sound s (switchCase ctx tag seen e) := by
  refine (delivers_expr hctx e).bind fun y t ht hy => ?_
  refine .ite (fun _ => sound_pure _) fun _ => ?_
  refine (delivers_binary (ht.operand htag) hy).bind fun z w _ _ => ?_
  refine .ite (fun _ => sound_pure _) fun _ => ?_
  split
  · exact sound_pure _
  · refine yields_arena fun _ => ?_
    split
    · exact sound_report.andThen fun _ _ => sound_pure _
    · exact sound_pure _

theorem sound_switchCases (htag : tag.Valid s) : Sound s (switchCases ctx tag seen cases) := by
  induction cases generalizing s seen with
  | nil =>
    unfold switchCases
    exact sound_pure _
  | cons e rest ih =>
    unfold switchCases
    exact (sound_switchCase hctx htag).bind fun _ t ht _ => ih (ht.context hctx) (ht.operand htag)

theorem delivers_switchTag (node : Node) (tag : Option Expr) : Delivers s (switchTag ctx node tag) := by
  cases tag with
  | none =>
    exact yields_pure fun hs => valid_constant (hs.intact.suits_basic (k := .untypedBool) (c := .bool true) rfl) _
  | some e =>
    refine (delivers_expr hctx e).bind fun x t _ hx => ?_
    exact (yields_assign hx (fun u h => by cases h)).imp fun _ _ _ hy => hy.1

theorem yields_switchedUnion (subject : Expr) :
    Yields s (switchedUnion ctx subject) fun union t => ∀ u, union = some u → t.view.Settled u := by
  refine (delivers_expr hctx subject).bind fun x t _ hx => ?_
  refine .ite (fun _ => yields_pure fun _ _ h => by cases h) fun _ => yields_arena fun ht => ?_
  refine .ite (fun hunion => yields_pure fun _ u hu => ?_) fun _ =>
    sound_report.andThen fun _ _ => yields_pure fun _ _ h => by cases h
  cases hu
  unfold Arena.isUnion at hunion
  split at hunion
  case h_1 fields hbase => exact ht.intact.settled_of_base hx.has hbase rfl
  case h_2 => cases hunion

theorem yields_variantCase {scan : VariantScan} (hscan : s.view.Settled scan.bound) {e : Expr} :
    Yields s (variantCase ctx union alone scan e) fun scan t => t.view.Settled scan.bound := by
  refine Yields.bind (P := fun u t => t.view.Settled u) ?_ fun u t ht hu => yields_arena fun _ => ?_
  · exact ((checks_expr demand e).type answers_demand hctx).bind fun y _ _ hy => yields_pure fun _ => hy
  · refine .ite (fun _ => yields_pure fun _ => ht.settled hscan) fun _ => ?_
    split
    · exact sound_report.andThen fun _ hw => yields_pure fun _ => (ht.trans hw).settled hscan
    · split
      · exact sound_report.andThen fun _ hw => yields_pure fun _ => (ht.trans hw).settled hscan
      · refine yields_pure fun _ => ?_
        show t.view.Settled (if alone then u else scan.bound)
        split
        · exact hu
        · exact ht.settled hscan

/-- The type that a clause binds is settled. -/
theorem yields_variantCases {scan : VariantScan} (hscan : s.view.Settled scan.bound) :
    Yields s (variantCases ctx union alone scan cases) fun scan t => t.view.Settled scan.bound := by
  induction cases generalizing s scan with
  | nil =>
    unfold variantCases
    exact yields_pure fun _ => hscan
  | cons e rest ih =>
    unfold variantCases
    exact (yields_variantCase hctx hscan).bind fun _ _ ht hscan' => ih (ht.context hctx) hscan'

end

theorem sound_bindVariant (hscope : s.view.Has scope) (hu : s.view.Settled u) :
    Sound s (bindVariant scope binder u) := by
  refine (yields_newEntity fun _ _ => Entity.valid_typedVar hu).bind fun e t ht he => ?_
  refine (sound_bind (some binder) (ht.has hscope) he.has).bind fun _ w hw _ => ?_
  exact sound_markUsed (hw.has he.has)

/-! ## Statements -/

theorem valid_labelled (hctx : ctx.Valid s) (label : Option Ident) (isLoop : Bool) :
    (ctx.labelled label isLoop).Valid s := by
  unfold Context.labelled
  split
  · exact ⟨hctx.scope, hctx.signature⟩
  · exact hctx

theorem valid_deferred (hctx : ctx.Valid s) : ctx.deferred.Valid s := ⟨hctx.scope, hctx.signature⟩

mutual

/-- Every statement goes through valid states. -/
theorem sound_stmt {s : Pass} {ctx : Context} (hctx : ctx.Valid s) (allowed : Permissions) :
    ∀ statement : Stmt, Sound s (stmt ctx allowed statement)
  | .empty _ | .bad _ | .expr _ | .step .. | .assign _ none _ _ | .assign _ (some _) _ _ | .returns ..
    | .jump .. | .use ..
  | .decl _ => by
    unfold stmt
    grind [sound_pure, sound_exprStmt, sound_stepStmt, sound_plainAssign, sound_combinedAssign,
      sound_returnStmt, sound_jump, sound_uses, sound_declStmt]
  | .block body => by
    unfold stmt
    exact sound_block hctx allowed body
  | .branchOn node init test body otherwise => by
    unfold stmt
    refine (yields_openScope hctx.scope).bind fun scope t ht hscope => ?_
    have hctx' := valid_within (ht.context hctx) hscope
    refine (sound_initial hctx' init).andThen fun w hw => ?_
    refine (sound_condition (hw.context hctx')).andThen fun z hz => ?_
    refine (sound_block ((hw.trans hz).context hctx') allowed.withoutFall body).andThen fun q hq => ?_
    exact sound_elseBranch (((hw.trans hz).trans hq).context hctx') allowed.withoutFall otherwise
  | .loop node label init test post body => by
    unfold stmt
    refine (yields_openScope hctx.scope).bind fun scope t ht hscope => ?_
    have hctx' := valid_labelled (valid_within (ht.context hctx) hscope) label true
    refine (sound_initial hctx' init).andThen fun w hw => ?_
    refine (sound_conditionOption (hw.context hctx')).andThen fun z hz => ?_
    refine (sound_postStmt ((hw.trans hz).context hctx') post).andThen fun q hq => ?_
    exact sound_block (((hw.trans hz).trans hq).context hctx') _ body
  | .switch node label init tag clauses => by
    unfold stmt
    refine (yields_openScope hctx.scope).bind fun scope t ht hscope => ?_
    have hctx' := valid_labelled (valid_within (ht.context hctx) hscope) label false
    refine (sound_initial hctx' init).andThen fun w hw => ?_
    refine (delivers_switchTag (hw.context hctx') node tag).bind fun tag z hz htag => ?_
    refine sound_defaults.andThen fun q hq => ?_
    exact sound_switchClauses (((hw.trans hz).trans hq).context hctx') _ (hq.operand htag) [] clauses
  | .typeSwitch node label binder subject clauses => by
    unfold stmt
    refine (yields_openScope hctx.scope).bind fun scope t ht hscope => ?_
    have hctx' := valid_labelled (valid_within (ht.context hctx) hscope) label false
    refine (yields_switchedUnion hctx' subject).bind fun union w hw hunion => ?_
    refine sound_defaults.andThen fun z hz => ?_
    exact sound_variantClauses ((hw.trans hz).context hctx') _ (fun u hu => hz.settled (hunion u hu)) binder [] clauses
  | .defer token deferred => by
    unfold stmt
    exact .ite (fun _ => sound_report) fun _ => sound_stmt (valid_deferred hctx) .none deferred

theorem sound_stmtsInOrder {s : Pass} {ctx : Context} (hctx : ctx.Valid s) (allowed : Permissions) :
    ∀ stmts : List Stmt, Sound s (stmtsInOrder ctx allowed stmts)
  | [] => by
    unfold stmtsInOrder
    exact sound_pure ()
  | statement :: rest => by
    unfold stmtsInOrder
    refine (sound_stmt hctx _ statement).andThen fun t ht => ?_
    exact sound_stmtsInOrder (ht.context hctx) allowed rest

theorem sound_block {s : Pass} {ctx : Context} (hctx : ctx.Valid s) (allowed : Permissions) :
    ∀ body : Block, Sound s (block ctx allowed body)
  | ⟨id, _, _, stmts⟩ => by
    unfold block
    refine (yields_openScope hctx.scope).bind fun scope t ht hscope => ?_
    have hctx' := valid_within (ht.context hctx) hscope
    refine (sound_hoistAll hctx').andThen fun w hw => ?_
    exact sound_stmtsInOrder (hw.context hctx') allowed stmts

theorem sound_initial {s : Pass} {ctx : Context} (hctx : ctx.Valid s) : ∀ init : Option Stmt, Sound s (initial ctx init)
  | none => by
    unfold initial
    exact sound_pure ()
  | some statement => by
    unfold initial
    exact sound_stmt hctx .none statement

theorem sound_postStmt {s : Pass} {ctx : Context} (hctx : ctx.Valid s) :
    ∀ post : Option Stmt, Sound s (postStmt ctx post)
  | none => by
    unfold postStmt
    exact sound_pure ()
  | some statement => by
    unfold postStmt
    exact .ite (fun _ => sound_report) fun _ => sound_stmt hctx .none statement

theorem sound_elseBranch {s : Pass} {ctx : Context} (hctx : ctx.Valid s) (allowed : Permissions) :
    ∀ otherwise : Option Stmt, Sound s (elseBranch ctx allowed otherwise)
  | none => by
    unfold elseBranch
    exact sound_pure ()
  | some statement => by
    unfold elseBranch
    exact .ite (fun _ => sound_stmt hctx allowed statement) fun _ => sound_report

theorem sound_switchClauses {s : Pass} {ctx : Context} (hctx : ctx.Valid s) (allowed : Permissions) {tag : Operand}
    (htag : tag.Valid s) (seen : List SeenCase) :
    ∀ clauses : List Clause, Sound s (switchClauses ctx allowed tag seen clauses)
  | [] => by
    unfold switchClauses
    exact sound_pure ()
  | ⟨node, cases, stmts⟩ :: rest => by
    unfold switchClauses
    refine (sound_switchCases hctx htag).bind fun seen' t ht _ => ?_
    refine (yields_openScope (ht.context hctx).scope).bind fun scope w hw hscope => ?_
    have hctx' := valid_within ((ht.trans hw).context hctx) hscope
    refine (sound_hoistAll hctx').andThen fun z hz => ?_
    refine (sound_stmtsInOrder (hz.context hctx') _ stmts).andThen fun q hq => ?_
    -- the context and the tag of the next clause are those from before this one
    have hleads := ((ht.trans hw).trans hz).trans hq
    exact sound_switchClauses (hleads.context hctx) allowed (hleads.operand htag) seen' rest

theorem sound_variantClauses {s : Pass} {ctx : Context} (hctx : ctx.Valid s) (allowed : Permissions)
    {union : Option TypeId} (hunion : ∀ u, union = some u → s.view.Settled u) (binder : Ident)
    (seen : List (TypeId × Pos)) :
    ∀ clauses : List Clause, Sound s (variantClauses ctx allowed union binder seen clauses)
  | [] => by
    unfold variantClauses
    exact sound_pure ()
  | ⟨node, cases, stmts⟩ :: rest => by
    unfold variantClauses
    refine .of_valid fun hs => ?_
    -- without a union to switch on, clauses bind the invalid type
    have hbound : s.view.Settled (union.getD .invalid) := by
      cases union with
      | none => exact hs.intact.settled_invalid
      | some u => exact hunion u rfl
    refine (yields_variantCases hctx hbound).bind fun scan t ht hscan => ?_
    refine (yields_openScope (ht.context hctx).scope).bind fun scope w hw hscope => ?_
    refine (sound_bindVariant hscope (hw.settled hscan)).andThen fun p hp => ?_
    have hctx' := valid_within (((ht.trans hw).trans hp).context hctx) (hp.has hscope)
    refine (sound_hoistAll hctx').andThen fun z hz => ?_
    refine (sound_stmtsInOrder (hz.context hctx') _ stmts).andThen fun q hq => ?_
    have hleads := (((ht.trans hw).trans hp).trans hz).trans hq
    exact sound_variantClauses (hleads.context hctx) allowed (fun u hu => hleads.settled (hunion u hu)) binder scan.seen
      rest

end

/-! ## Bodies -/

theorem sound_exposeParams (hscope : s.view.Has scope) {params : List EntityId} (hparams : ∀ p ∈ params, s.view.Has p) :
    Sound s (exposeParams scope params) := by
  induction params generalizing s with
  | nil => exact sound_pure ()
  | cons p rest ih =>
    refine yields_entity fun _ => ?_
    have hrest (t : Pass) (ht : s.Leads t) : Sound t (exposeParams scope rest) :=
      ih (ht.has hscope) fun q hq => ht.has (hparams q (List.mem_cons_of_mem _ hq))
    exact .ite (fun _ => (sound_exposeVariable hscope (hparams p List.mem_cons_self)).andThen hrest) fun _ =>
      (sound_pure ()).andThen hrest

/-- A queued body is checked from a valid state to valid states. -/
theorem sound_body (hb : b.Valid s) : Sound s (body config b) := by
  refine (yields_openScope hb.scope).bind fun scope t ht hscope => yields_arena fun hvalid => ?_
  -- the parameters are bound once more, in the scope of the body
  have hparams : ∀ p ∈ (t.store.arena.scope b.scope).bindings.entities, t.view.Has p := fun p hp =>
    hvalid.intact.has_of_bound hp
  refine (sound_bindAll hscope hparams).andThen fun w hw => ?_
  refine (sound_exposeParams (hw.has hscope) fun p hp => hw.has (hparams p hp)).andThen fun z hz => ?_
  have hctx : (bodyContext config scope b).Valid z := by
    refine ⟨(hw.trans hz).has hscope, fun u hu => ?_⟩
    cases hu
    exact ((ht.trans hw).trans hz).has hb.type
  refine (sound_hoistAll hctx).andThen fun q hq => ?_
  refine (sound_stmtsInOrder (hq.context hctx) .none b.block.stmts).andThen fun r _ => ?_
  exact yields_get fun _ => .ite (fun _ => sound_report) fun _ => sound_pure ()

theorem sound_bodies {bs : List Body} (hbs : ∀ b ∈ bs, b.Valid s) : Sound s (bodies config bs) := by
  induction bs generalizing s with
  | nil => exact sound_pure ()
  | cons b rest ih =>
    refine (sound_body (hbs b List.mem_cons_self)).andThen fun t ht => ?_
    exact ih fun c hc => ht.refines.body (hbs c (List.mem_cons_of_mem _ hc))

/-- Queued bodies are valid when they are taken. -/
theorem yields_takeQueue : Yields s takeQueue fun bs t => ∀ b ∈ bs, b.Valid t := by
  refine .of_valid fun hs => ?_
  exact yields_of_ok rfl (fun hs => leads_of_view hs .dequeue (.of_eq rfl rfl rfl) rfl { hs with queue := nofun })
    fun _ => hs.queue

/-- Nested bodies, round by round. -/
theorem sound_drain {rounds : Nat} : Sound s (drain config rounds) := by
  induction rounds generalizing s with
  | zero => exact sound_pure ()
  | succ rounds ih =>
    exact yields_takeQueue.bind fun bs t _ hbs => (sound_bodies hbs).andThen fun _ _ => ih

theorem sound_bodyAndNested (hb : b.Valid s) : Sound s (bodyAndNested config b) :=
  (sound_body hb).andThen fun _ _ => sound_drain

end Statics.Check
