import Statics.Proofs.Literals.Tracking

/-!
# Literals in expressions, declarations and statements

Evaluating an expression whose nodes are tagged keeps track of the literal, and so does checking a declaration. The
value of an expression is assigned while it is still what evaluating the expression gave, so a literal is converted
once. A combined assignment and a step assign the result of an operator instead. The target of a step is a variable,
not a literal; the right-hand side of a combined assignment is not the one that is followed.
-/

namespace Statics.Check

variable {id : NodeId} {v : Literal}

/-! ## Expressions -/

instance : Follows (Tracking id v) (Expr.Tagged id v) fun x e => x.Fits id v e where
  fits {_ _ e _ _ _} he h hid := by
    have hliteral := he.literal?_eq hid
    cases e with
    | literal n w =>
      cases hliteral
      unfold expr at h
      cases h
      exact isLiteral_literalOperand v n.id
    | _ => cases hliteral
  spliced hx p hp := by
    unfold spliced at hp
    split at hp
    case h_1 items hmode _ =>
      obtain ⟨t, -, rfl⟩ := List.mem_map.mp hp
      intro hid
      rw [(hx hid).mode] at hmode
      cases hmode
    case h_2 =>
      obtain rfl := List.mem_singleton.mp hp
      exact hx
  assign := tracks_assign

theorem tracks_literal {resolve : Resolver} {n : Node} {w : Literal} (he : (Expr.literal n w).Tagged id v)
    (ctx : Context) (reading : Reading) : Moves (Tracking id v) (expr resolve ctx reading (.literal n w)) := by
  unfold expr
  cases reading with
  | value =>
    refine moves_bind (tracks_annotate fun hid => ?_) fun _ => moves_pure _
    cases he.literal?_eq hid
    exact isLiteral_literalOperand v n.id
  | type declared => exact (refuses_finishValue declared _ _).tracks (moves_finishValue)

section

variable {resolve : Resolver} (hr : ∀ ctx e, Moves (Tracking id v) (resolve ctx e))

include hr

theorem tracks_expr {e : Expr} (he : e.Tagged id v) (ctx : Context) (reading : Reading) :
    Moves (Tracking id v) (expr resolve ctx reading e) := by
  induction e using Expr.induction generalizing ctx reading with
  | h e ih =>
    by_cases hl : ∃ n w, e = .literal n w
    · obtain ⟨n, w, rfl⟩ := hl
      exact tracks_literal he ctx reading
    · simp only [not_exists] at hl
      have hown := tracks_annotateOther (v := v) (he.id_ne hl)
      have hparts (c : Expr) (hc : c ∈ e.children) := ih c hc (he.child hc)
      cases hform : e.isTypeForm with
      | true =>
        exact moves_typeForm hform hown (fun _ form _ _ f _ exposes t => moves_addFields form exposes t f.names)
          (fun _ _ _ _ m _ kind t => moves_addMember kind t m.name) hparts
      | false =>
        refine moves_plainForm hform hl hown (fun n sig heq => tracks_annotateOther (he.signature_ne heq))
          (fun n _ => moves_nameOperand (hr _) e n) (fun n base field heq hb reading => ?_)
          (fun _ sig _ f _ scope exposes t => moves_addParams)
          (fun c hc => serves_of_follows (he.child hc) (hparts c hc ctx))
        subst heq
        exact moves_select hown (hr _) hb

theorem tracks_procedure {d : ProcDecl} (h : (Stmt.decl (.proc d)).TaggedWithin id v) (ctx : Context) (e : EntityId) :
    Moves (Tracking id v) (procedure resolve ctx e d) := by
  have hsig : (Expr.proc d.signature.node d.signature).Tagged id v := h.expr (List.mem_singleton_self _)
  refine moves_procedure (F := fun _ => True)
    (fun scope => ?_) trivial (fun _ _ _ s => ?_) fun scope t block hblock s => ?_
  · refine moves_signatureOf _ (tracks_annotateOther (hsig.signature_ne rfl))
      (fun f _ scope exposes t => moves_addParams) (fun f hf => ?_) fun e he => ?_
    · exact tracks_expr hr (hsig.child (List.mem_append_left _ (List.mem_map_of_mem hf))) _ _
    · exact tracks_expr hr (hsig.child (List.mem_append_right _ he)) _ _
  · exact .still (Demands.claimLink s _) rfl rfl rfl rfl
  · refine ⟨.of_eq rfl fun hs => { hs with queue := fun b hb => ?_ }, Demands.enqueue s _⟩
    rcases List.mem_append.mp hb with hb | hb
    · exact hs.queue b hb
    · obtain rfl := List.mem_singleton.mp hb
      exact fun u hu => h.body hblock hu

end

/-- The declarations that a pass keeps are tagged, so a demand keeps track. -/
theorem tracks_demand (ctx : Context) (e : EntityId) : Moves (Tracking id v) (demand ctx e) := by
  refine .carries (moves_demand ctx e) (moves_demand ctx e) Pass.Tracks.room fun {s _ _} h hs => ?_
  have hfrom := follows_demandFrom (R := Tracking id v) (F := fun _ => True) (fun hr p hd _ ctx => ?_) (by simp) s.decls
    hs.decls ctx e
  · exact hfrom.carried h.demandFrom_of_demand hs
  · exact follows_declaration (F := fun _ => True) (fun e he => tracks_expr hr he)
      (fun d hd ctx => tracks_procedure hr hd ctx _) hd trivial (fun _ _ => trivial)

instance : Judges (Tracking id v) (Expr.Tagged id v) fun x e => x.Fits id v e where
  expr _ _ he := tracks_expr tracks_demand he _
  demand _ := tracks_demand _

/-! ## Declarations -/

/-- What is kept of a declaration is tagged. -/
theorem holds_of_keeps {decl : Decl} {scope : ScopeId} {name : Ident} {d : Declaration}
    (h : (Stmt.decl decl).TaggedWithin id v) (hk : decl.Keeps scope name d) :
    d.Holds (Expr.Tagged id v) fun d => (Stmt.decl (.proc d)).TaggedWithin id v := by
  cases hk with
  | vars d => exact fun _ hx => h.expr hx
  | constant d hvalue =>
    refine fun x hx =>
      h.expr ((List.mem_append.mp hx).elim (List.mem_append_left _) fun hx => List.mem_append_right _ ?_)
    exact (List.of_mem_zip (hvalue x (Option.mem_toList.mp hx))).2
  | type d => exact h.expr (List.mem_singleton_self _)
  | proc d => exact h

instance : Receives (Tracking id v) fun d => (Stmt.decl d).TaggedWithin id v where
  receive hd h := h.moves_along fun {_ s _} hkeeps => by
    obtain ⟨name, -, hk⟩ := hkeeps.name
    exact ⟨.of_eq rfl fun hs => { hs with decls := List.forall_mem_cons.mpr ⟨holds_of_keeps hd hk, hs.decls⟩ },
      Enters.await s _⟩

theorem tracks_localVariables {ctx : Context} {d : VarDecl} (h : (Stmt.decl (.vars d)).TaggedWithin id v) :
    Moves (Tracking id v) (localVariables ctx d) := by
  have hdecl (es : List EntityId) : Moves (Tracking id v) (varDecl demand ctx es d.type d.values) :=
    follows_varDecl (F := fun _ => True) (fun e he => tracks_expr tracks_demand he ctx) (fun _ _ => trivial)
      fun _ hx => h.expr hx
  unfold localVariables
  grind

/-! ## Statements and bodies -/

instance : Walks (Tracking id v) (Expr.Tagged id v) (fun x e => x.Fits id v e) (Stmt.TaggedWithin id v) where
  complain := .report Pass.Tracks.room
  parts h _ hu := h.part hu
  exprs h _ he := h.expr he
  -- what is stepped up or down is a variable, and no literal
  step _ hx hvar y t := tracks_assign (fun hid => by cases hvar.symm.trans (hx hid).mode) t _
  combined h y t := tracks_assign (fun hid => absurd hid (h.own.combined _ rfl)) t _
  binder _ scope t := moves_bindVariant scope _ t
  use hc h e he := moves_usingTarget (Judges.expr hc (h.expr he).unparen _)
  decl _ h := follows_declStmt (tracks_demand _) (fun _ hd => tracks_localVariables hd) h
  hoist _ h := follows_hoistAll (tracks_demand _) fun d hd => h _ hd

/-- The bodies that are queued are tagged, and checking them queues tagged ones. -/
theorem tracks_drain (config : Config) (rounds : Nat) : Moves (Tracking id v) (drain config rounds) := by
  refine follows_drain (G := Stmt.TaggedWithin id v) (fun rounds hrest => ?_)
  refine .carries (moves_drain config _) (moves_drain config _) Pass.Tracks.room fun {s _ _} h hs => ?_
  have hlog (bs : List Body) : Moves LogGrows (bodies config bs) := moves_bodies fun _ _ _ _ => trivial
  obtain ⟨queue, s₁, hqueue, h⟩ := h.bind (.of_ok (fun _ _ => rfl) fun s => ⟨_, _, rfl, AllowsAll.dequeue s⟩)
    fun bs => moves_bind (hlog bs) fun _ => moves_drain config rounds
  cases hqueue.run
  exact (hrest s.queue hs.queue).carried h { hs with queue := by simp }

theorem tracks_bodyAndNested (config : Config) {b : Body} (hb : ∀ s ∈ b.block.stmts, s.TaggedWithin id v) :
    Moves (Tracking id v) (bodyAndNested config b) := moves_bind (moves_bodyOf hb) fun _ => tracks_drain config _

theorem tracks_fileLevel (config : Config) {files : List File}
    (h : ∀ file ∈ files, ∀ s ∈ file.decls, s.TaggedWithin id v) : Moves (Tracking id v) (fileLevel config files) :=
  follows_fileLevel (moves_openFiles files) moves_resolveFiles fun file hf _ hd => h file hf _ hd

end Statics.Check
