import Statics.Proofs.Initialization.Names
import Statics.Proofs.Journal

/-!
# Reading expressions settles what they mention

Where no error is reported, reading an expression demands every declared entity that it mentions: `Check.meets_expr`.
So what an expression mentions has a type once it was read.

`Founds` carries this to dependencies: in a run without an error, all entities that get a type are well-founded. That
is, their declarations lead to no endless chain of declarations that each mention the next.
-/

namespace Statics

variable {s t : Pass} {e : EntityId} {args es : List Expr}

/-! ## Dependencies -/

/-- The expressions that give a constant or variables their values. -/
def Declaration.values : Declaration → List Expr
  | .constant _ _ value => value.toList
  | .vars _ _ _ values => values
  | _ => []

/-- Whether a declaration of a constant or of variables has a written type. -/
def Declaration.isAnnotated : Declaration → Bool
  | .constant _ written _ | .vars _ _ written _ => written.isSome
  | _ => false

/-- The values in the declaration of one entity mention another that is declared too. Only the declarations in `D`
count. -/
def Pass.Needs (s : Pass) (D : Declaration → Prop) (x y : EntityId) : Prop :=
  ∃ d, (x, d) ∈ s.decls ∧ D d ∧ y ∈ s.decls.map Prod.fst ∧ ∃ e ∈ d.values, e.Mentions s.store.arena d.scope y

/-- No endless chain of declarations without a written type begins at an entity. -/
def Pass.Rooted (s : Pass) (e : EntityId) : Prop := Acc (fun y x => s.Needs (fun d => d.isAnnotated = false) x y) e

/-- An entity is rooted if all that it needs is. -/
theorem Pass.Rooted.of_needs (hj : s.Journaled []) {v : EntityId} {d : Declaration} (hmem : (e, d) ∈ s.decls)
    (hv : v ∈ e :: d.variables) (h : d.isAnnotated = false → ∀ y ∈ s.decls.map Prod.fst, ∀ value ∈ d.values,
    value.Mentions s.store.arena d.scope y → s.Rooted y) : s.Rooted v := by
  refine ⟨_, fun y hy => ?_⟩
  obtain ⟨d', hmem', hplain, hdeclared, value, hvalue, hmentions⟩ := hy
  obtain rfl : d' = d := hj.groups _ hmem' _ hmem v List.mem_cons_self hv
  exact h hplain y hdeclared value hvalue hmentions

/-- Every declared entity that has a type is rooted, seen from a later state. -/
def Pass.Founded (f s : Pass) : Prop := ∀ e ∈ s.decls.map Prod.fst, (s.store.arena.entity e).type.isSome → f.Rooted e

/-- What is declared has a type, is being checked or is pending. -/
structure Pass.Prepared (pending : List (EntityId × Declaration)) (s : Pass) : Prop where
  declared : s.Declared
  subset : pending ⊆ s.decls
  journaled : s.Journaled []
  covered : ∀ e ∈ s.decls.map Prod.fst, (s.store.arena.entity e).type.isSome ∨ .enter e ∈ s.journal ∨
    e ∈ pending.map Prod.fst

theorem Pass.Prepared.later {pending : Pending} {own : List EntityId} (h : s.Prepared pending)
    (ht : Recounts pending own s t) (hown : ∀ e ∈ own, s.Told e) : t.Prepared pending where
  declared := ht.declared h.declared
  subset := ht.decls ▸ h.subset
  journaled := ht.keeps h.declared h.subset hown h.journaled
  covered e he := (h.covered e (ht.decls ▸ he)).imp ht.grows.isSome_type (.imp_left (ht.journal.subset ·))

theorem Pass.Prepared.isSome_entity {pending : Pending} (h : s.Prepared pending) (he : e ∈ s.decls.map Prod.fst) :
    (s.store.arena.entity? e).isSome := by
  obtain ⟨p, hp, rfl⟩ := List.mem_map.mp he
  exact h.journaled.present p hp _ List.mem_cons_self

theorem Pass.Silent.parts {u : Pass} (h : s.Silent u) (hst : LogGrows s t) (htu : LogGrows t u) :
    s.Silent t ∧ t.Silent u := by
  have hlog := hst.logged_eq htu
  exact ⟨fun entry he => h entry (by simp [hlog, he]), fun entry he => h entry (by simp [hlog, he])⟩

/-- In a run without an error, entities that get types are rooted, given that those in `own` are and that the journal
tells of them. Names resolve as they do in `f`. -/
structure Founds (f : Pass) (pending : List (EntityId × Declaration)) (own : List EntityId) (s t : Pass) : Prop extends
    Recounts pending own s t where
  steady : s.Steady t
  log : LogGrows s t
  founds : s.Prepared pending → s.decls = f.decls → (∀ e ∈ own, s.Told e ∧ f.Rooted e) → s.Silent t → t.HasRoom →
    t.Steady f → f.Founded s → f.Founded t

namespace Founds

variable {f : Pass} {pending : Pending} {own : List EntityId} {s t u : Pass}

theorem trans (h : Founds f pending own s t) (h' : Founds f pending own t u) : Founds f pending own s u where
  toRecounts := h.toRecounts.trans h'.toRecounts
  steady := h.steady.trans h'.steady
  log := h.log.trans h'.log
  founds hr hd hown hsilent hroom hsteady hs := by
    obtain ⟨hst, htu⟩ := hsilent.parts h.log h'.log
    have hroom' : t.HasRoom := fun hfatal => hroom (h'.log.isFatal hfatal)
    have ht := h.founds hr hd hown hst hroom' (h'.steady.trans hsteady) hs
    refine h'.founds (hr.later h.toRecounts fun e he => (hown e he).1) (h.decls.trans hd)
      (fun e he => ?_) htu hroom hsteady ht
    exact ⟨(hown e he).1.later h.decls h.journal, (hown e he).2⟩

theorem of_rests (h : Rests s t) (hsteady : s.Steady t) (hlog : LogGrows s t) : Founds f pending own s t where
  toRecounts := .of_rests h
  steady := hsteady
  log := hlog
  founds hr _ _ _ _ _ hs e he htyped := by
    rw [h.decls] at he
    rw [h.type_eq (hr.isSome_entity he)] at htyped
    exact hs e he htyped

theorem owning (h : Founds f pending [] s t) : Founds f pending own s t where
  toRecounts := h.toRecounts.owning
  steady := h.steady
  log := h.log
  founds hr hd _ := h.founds hr hd (by simp)

/-- What is allocated before a run is filled in after it. -/
theorem fill {τ : Ty} (h : Founds f pending own { s with store := (s.store.newType τ).2 } u) (g : Ty → Ty) :
    Founds f pending own s { u with store := u.store.modifyType (s.store.newType τ).1 g } where
  toRecounts := h.toRecounts.fill g
  steady := h.steady.fill g
  log := h.log.trans (.of_collector_eq rfl)
  founds hr hd hown hsilent hroom hsteady hs := by
    have hnew : Founds f pending own s { s with store := (s.store.newType τ).2 } :=
      .of_rests (.newType s τ) (.newType s τ) (.of_collector_eq rfl)
    have hu := (hnew.trans h).founds hr hd hown hsilent hroom ((u.store.steady_modifyType _ g).trans hsteady) hs
    intro e he htyped
    refine hu e he ?_
    rwa [Arena.entity, Store.entity?_modifyType] at htyped

theorem settle (s : Pass) (he : e ∈ own) {g : Entity → Entity} (hg : ∀ x, Entity.Settles x (g x)) :
    Founds f pending own s { s with store := s.store.modifyEntity e g } where
  toRecounts := Settles.settle (R := Recounts pending own) s e g he hg
  steady := Settles.settle (R := Pass.Steady) s e g trivial hg
  log := .of_collector_eq rfl
  founds _ _ hown _ _ _ hs e' he' htyped := by
    by_cases heq : e' = e
    · exact heq ▸ (hown e he).2
    · refine hs e' he' ?_
      rwa [Arena.entity, Store.entity?_modifyEntity, if_neg fun h => heq h.2] at htyped

instance : Allocates (Founds f pending own) where
  refl s := .of_rests (Reports.refl s) (Reports.refl s) (Reports.refl s)
  trans := trans
  report s d hd hk := .of_rests (Reports.report s d hd hk) (Reports.report s d hd hk) (Reports.report s d hd hk)
  refer s id e := .of_rests (Remarks.refer s id e) (Remarks.refer s id e) (Remarks.refer s id e)
  define s id e := .of_rests (Remarks.define s id e) (Remarks.define s id e) (Remarks.define s id e)
  markUsed s e := .of_rests (Remarks.markUsed s e) (Remarks.markUsed s e) (Remarks.markUsed s e)
  openScope s parent kind := .of_rests (Supplies.openScope s parent kind) (Supplies.openScope s parent kind)
    (Supplies.openScope s parent kind)
  noteScope s id scope := .of_rests (Supplies.noteScope s id scope) (Supplies.noteScope s id scope)
    (Supplies.noteScope s id scope)
  newBound s scope x hx hn := .of_rests (Allocates.newBound s scope x hx hn) (Allocates.newBound s scope x hx hn)
    (Allocates.newBound s scope x hx hn)
  newEntity s x hx := .of_rests (Allocates.newEntity s x hx) (Allocates.newEntity s x hx) (Allocates.newEntity s x hx)
  newPointer s _ := .of_rests (.newType s _) (.newType s _) (.of_collector_eq rfl)
  newTuple s _ := .of_rests (.newType s _) (.newType s _) (.of_collector_eq rfl)
  newProc s _ _ := .of_rests (.newType s _) (.newType s _) (.of_collector_eq rfl)

instance : NamesTypes (Founds f pending own) (· ∈ own) where
  newType s _ _ _ := .of_rests (.newType s _) (.newType s _) (.of_collector_eq rfl)
  fillEnum _ _ _ _ _ h := h.fill _
  settle s _ _ he hg := settle s he hg
  claimSymbol s p :=
    .of_rests (.of_store_eq (Settles.claimSymbol s p) rfl rfl rfl) (.of_store_eq rfl) (.of_collector_eq rfl)
  stopNamed s _ _ _ _ h := trans (.of_rests (.newType s _) (.newType s _) (.of_collector_eq rfl)) h
  fillNamed _ _ _ _ _ h := h.fill _

instance : Observes (Founds f pending own) where
  annotate s id x := .of_rests (Observes.annotate s id x) (Observes.annotate s id x) (Observes.annotate s id x)

end Founds

/-! ## Steps that read expressions -/

namespace Check

variable {α β : Type} {f : Pass} {pending : Pending} {scope : ScopeId} {es es' : List Expr} {x : Check α}
  {g : α → Check β}

/-- A step founds what it types, and in a run without an error every declared entity that some expressions mention has a
type in the end. -/
structure Meets (f : Pass) (pending : List (EntityId × Declaration)) (scope : ScopeId) (es : List Expr) (x : Check α) :
    Prop where
  moves : Moves (Founds f pending []) x
  typed : ∀ {s a t}, Clean x s a t → s.Prepared pending → t.Steady f → ∀ e ∈ es, ∀ y ∈ s.decls.map Prod.fst,
    e.Mentions f.store.arena scope y → (t.store.arena.entity y).type.isSome

theorem Moves.log (hx : Moves (Founds f pending []) x) : Moves LogGrows x := hx.mono fun _ _ h => h.log

theorem Moves.meets (hx : Moves (Founds f pending []) x) : Meets f pending scope [] x := ⟨hx, by simp⟩

theorem Meets.subset (hx : Meets f pending scope es' x) (h : es ⊆ es') : Meets f pending scope es x :=
  ⟨hx.moves, fun hrun hr ht e he => hx.typed hrun hr ht e (h he)⟩

/-- Nothing is left to show of a step that always reports an error. -/
theorem Refuses.meets (h : Refuses x) (hx : Moves (Founds f pending []) x) : Meets f pending scope es x :=
  ⟨hx, fun hrun => absurd hrun h.not_clean⟩

/-- A sequence reads what its parts read. -/
theorem meets_bind (hx : Meets f pending scope es x) (hg : ∀ a, Meets f pending scope es' (g a)) :
    Meets f pending scope (es ++ es') (x >>= g) where
  moves := moves_bind hx.moves fun a => (hg a).moves
  typed {s b u} hrun hr hu e he y hy hmentions := by
    obtain ⟨a, t, hfirst, hrest⟩ := hrun.bind hx.moves.log fun a => (hg a).moves.log
    have hst := hx.moves.ok hfirst.run
    have htu := (hg a).moves.ok hrest.run
    rcases List.mem_append.mp he with he | he
    · exact htu.grows.isSome_type (hx.typed hfirst hr (htu.steady.trans hu) e he y hy hmentions)
    · exact (hg a).typed hrest (hr.later hst.toRecounts (by simp)) hu e he y (hst.decls ▸ hy) hmentions

theorem Meets.bind (hx : Meets f pending scope es x) (hg : ∀ a, Moves (Founds f pending []) (g a)) :
    Meets f pending scope es (x >>= g) :=
  List.append_nil es ▸ meets_bind hx fun a => (hg a).meets

theorem Moves.bindMeets (hx : Moves (Founds f pending []) x) (hg : ∀ a, Meets f pending scope es (g a)) :
    Meets f pending scope es (x >>= g) := meets_bind hx.meets hg

/-- An expression other than a name and a selection mentions what its parts mention. -/
theorem Meets.of_children {e : Expr} (hx : Meets f pending scope e.children x) (hname : ∀ n, e ≠ .name n)
    (hselect : ∀ n base field, e ≠ .select n base field) : Meets f pending scope [e] x where
  moves := hx.moves
  typed hrun hr ht e' he y hy hmentions := by
    obtain rfl := List.mem_singleton.mp he
    cases hmentions with
    | name => exact absurd rfl (hname _)
    | imported => exact absurd rfl (hselect _ _ _)
    | inside hpart hmentions => exact hx.typed hrun hr ht _ hpart y hy hmentions

/-- A resolver founds what it types, and types what it resolves. -/
structure Resolves (f : Pass) (pending : List (EntityId × Declaration)) (resolve : Resolver) : Prop where
  moves : ∀ ctx e, Moves (Founds f pending []) (resolve ctx e)
  typed : ∀ {ctx e s t}, Clean (resolve ctx e) s () t → s.Prepared pending → e ∈ s.decls.map Prod.fst →
    (t.store.arena.entity e).type.isSome

section

variable {resolve : Resolver} (hr : Resolves f pending resolve) {ctx : Context}

include hr

/-! ## Names and selections -/

theorem typed_entityOperand {id : EntityId} {e : Expr} {foundIn : Option ScopeId} {x : Operand}
    (h : Clean (entityOperand resolve ctx id e foundIn) s x t) (hs : s.Prepared pending)
    (hid : id ∈ s.decls.map Prod.fst) : (t.store.arena.entity id).type.isSome := by
  have hmark : Moves (Founds f pending []) (markReached ctx id) := moves_markReached
  have hrest : Moves (Founds f pending []) (do operandOf ctx (← entity id) id e foundIn) := by grind
  obtain ⟨_, s₁, hmarked, h⟩ := h.bind hmark.log fun _ => moves_bind (hr.moves _ id).log fun _ => hrest.log
  obtain ⟨_, s₂, hresolved, h⟩ := h.bind (hr.moves _ id).log fun _ => hrest.log
  have hs₁ := hmark.ok hmarked.run
  refine (hrest.ok h.run).grows.isSome_type (hr.typed hresolved (hs.later hs₁.toRecounts (by simp)) ?_)
  exact hs₁.decls ▸ hid

omit hr in
theorem refuses_fail (token : Token) (p : Problem) (id : NodeId) : Refuses (fail token p id) :=
  (refuses_report token p).bind fun _ => moves_pure _

/-- What a name stands for in the end it stands for when it is read. -/
theorem typed_nameOperand {e : Expr} {n : Ident} {x : Operand} {y : EntityId} {found : ScopeId}
    (h : Clean (nameOperand resolve ctx e n) s x t) (hs : s.Prepared pending) (hsteady : s.Steady f)
    (hy : y ∈ s.decls.map Prod.fst) (hlookup : f.store.arena.lookup ctx.scope n.name = some (y, found)) :
    (t.store.arena.entity y).type.isSome := by
  have hrefer (id : EntityId) : Moves (Founds f pending []) (refer n.id id) := moves_refer
  have hoperand (id : EntityId) (foundIn : Option ScopeId) :
      Moves (Founds f pending []) (entityOperand resolve ctx id e foundIn) :=
        moves_entityOperand (hr.moves _) id e foundIn
  unfold nameOperand at h
  split at h
  case isTrue => exact absurd h (refuses_fail _ _ _).not_clean
  case isFalse =>
    have h := h.readArena
    split at h
    case h_1 => exact absurd h (refuses_fail _ _ _).not_clean
    case h_2 id foundIn hfound =>
      obtain ⟨rfl, rfl⟩ := Prod.mk.inj (hsteady.lookup_eq (hs.isSome_entity hy) hlookup hfound)
      obtain ⟨_, s₁, hreferred, h⟩ := h.bind (hrefer id).log fun _ => (hoperand id _).log
      have hs₁ := (hrefer id).ok hreferred.run
      exact typed_entityOperand hr h (hs.later hs₁.toRecounts (by simp)) (hs₁.decls ▸ hy)

theorem typed_importSelection {e base : Expr} {field : Ident} {id : EntityId} {info : ImportInfo} {x : Operand}
    {y : EntityId} (h : Clean (importSelection resolve ctx e base field id info) s x t) (hs : s.Prepared pending)
    (ht : t.Steady f) (hy : y ∈ s.decls.map Prod.fst)
    (hlookup : f.store.arena.lookupLocal info.scope field.name = some y) : (t.store.arena.entity y).type.isSome := by
  have hmark : Moves (Founds f pending []) (markUsed id) := moves_markUsed id
  have hrefer (id : NodeId) (e : EntityId) : Moves (Founds f pending []) (refer id e) := moves_refer
  have hoperand (member : EntityId) : Moves (Founds f pending []) (entityOperand resolve ctx member e none) :=
    moves_entityOperand (hr.moves _) member e none
  have hlog := fun member => (hoperand member).log
  unfold importSelection at h
  obtain ⟨_, s₁, hmarked, h⟩ := h.bind hmark.log fun _ => by grind
  obtain ⟨_, s₂, hreferred, h⟩ := h.bind (hrefer base.id id).log fun _ => by grind
  have hs₂ := (hmark.ok hmarked.run).trans ((hrefer base.id id).ok hreferred.run)
  have h := h.readArena
  split at h
  case h_1 => exact absurd h (refuses_fail _ _ _).not_clean
  case h_2 member hfound =>
    obtain ⟨_, s₃, hnamed, h⟩ := h.bind (hrefer field.id member).log fun _ => hlog member
    have hs₃ := (hrefer field.id member).ok hnamed.run
    have hsteady := hs₃.steady.trans (((hoperand member).ok h.run).steady.trans ht)
    obtain rfl : member = y := Option.some.inj ((hsteady.lookupLocal_kept hfound).symm.trans hlookup)
    have hs₃ := hs₂.trans hs₃
    exact typed_entityOperand hr h (hs.later hs₃.toRecounts (by simp)) (hs₃.decls ▸ hy)

/-! ## Expressions -/

theorem meets_name (reading : Reading) (n : Ident) :
    Meets f pending ctx.scope [.name n] (expr resolve ctx reading (.name n)) where
  moves := moves_expr hr.moves ctx reading (.name n)
  typed {s x t} hrun hs ht e he y hy hmentions := by
    have hname : Moves (Founds f pending []) (nameOperand resolve ctx (.name n) n) := moves_nameOperand (hr.moves _) _ n
    have hfinish (x : Operand) : Moves (Founds f pending []) (finishName reading (.name n) x) := moves_finishName
    obtain rfl := List.mem_singleton.mp he
    have hsteady : s.Steady f := ((moves_expr hr.moves ctx reading (.name n)).ok hrun.run).steady.trans ht
    unfold expr at hrun
    obtain ⟨x', s₁, hoperand, hrun⟩ := hrun.bind hname.log fun x => (hfinish x).log
    refine ((hfinish x').ok hrun.run).grows.isSome_type ?_
    cases hmentions with
    | name hlookup => exact typed_nameOperand hr hoperand hs hsteady hy hlookup
    | inside hpart _ => cases hpart

omit hr in
theorem not_clean_undeclared (hlog : ∀ ctx e, Moves LogGrows (resolve ctx e)) {reading : Reading} {n : Ident}
    {x : Operand} (hnone : s.store.arena.lookup ctx.scope n.name = none) :
    ¬ Clean (expr resolve ctx reading (.name n)) s x t := by
  intro h
  unfold expr at h
  obtain ⟨x', s₁, h, -⟩ := h.bind (moves_nameOperand (hlog _) _ n) fun x => moves_finishName
  unfold nameOperand at h
  split at h
  case isTrue => exact absurd h (refuses_fail _ _ _).not_clean
  case isFalse =>
    have h := h.readArena
    simp only [hnone] at h
    exact absurd h (refuses_fail _ _ _).not_clean

theorem meets_select (reading : Reading) (n : Node) {base : Expr} (field : Ident)
    (hbase : Meets f pending ctx.scope [base] (expr resolve ctx .value base)) :
    Meets f pending ctx.scope [.select n base field] (expr resolve ctx reading (.select n base field)) where
  moves := moves_expr hr.moves ctx reading (.select n base field)
  typed {s x t} hrun hs ht e he y hy hmentions := by
    have himport (id : EntityId) (info : ImportInfo) : Moves (Founds f pending [])
        (importSelection resolve ctx (.select n base field) base field id info) := moves_importSelection (hr.moves _) ..
    have hselection (x : Operand) :
      Moves (Founds f pending []) (selection resolve ctx (.select n base field) base field x) :=
      moves_selection (hr.moves _) ..
    have hfinish (x : Operand) : Moves (Founds f pending []) (finishName reading (.select n base field) x) :=
      moves_finishName
    obtain rfl := List.mem_singleton.mp he
    have hsteady : s.Steady f := ((moves_expr hr.moves ctx reading (.select n base field)).ok hrun.run).steady.trans ht
    unfold expr at hrun
    have hrun := hrun.readArena
    split at hrun
    case h_1 id info hnamed =>
      obtain ⟨x', s₁, hselected, hrun⟩ := hrun.bind (himport id info).log fun x => (hfinish x).log
      have hdone := (hfinish x').ok hrun.run
      refine hdone.grows.isSome_type ?_
      obtain ⟨m, found, rfl, hlookup, hkind⟩ := importNamed?_eq_some.mp hnamed
      cases hmentions with
      | imported hnamed' hlocal =>
        have heq := (importNamed?_of_steady hsteady hnamed' hlookup).symm.trans hnamed
        simp only [Option.some.injEq, Prod.mk.injEq] at heq
        obtain ⟨rfl, rfl⟩ := heq
        exact typed_importSelection hr hselected hs (hdone.steady.trans ht) hy hlocal
      | inside hpart hmentions =>
        -- What is declared is no import.
        obtain rfl := List.mem_singleton.mp hpart
        cases hmentions with
        | inside hpart => cases hpart
        | name hlookup' =>
          obtain ⟨rfl, rfl⟩ := Prod.mk.inj (hsteady.lookup_eq (hs.isSome_entity hy) hlookup' hlookup)
          obtain ⟨p, hp, rfl⟩ := List.mem_map.mp hy
          have hsort := (hs.declared p hp).own.kind
          rw [hkind] at hsort
          cases hd : p.2 <;> simp [hd, Declaration.sort, EntityKind.name] at hsort
    case h_2 hnamed =>
      have hrest (x : Operand) : Moves (Founds f pending []) (do
          finishName reading (.select n base field) (← selection resolve ctx (.select n base field) base field x)) :=
        moves_bind (hselection x) hfinish
      obtain ⟨x', s₁, hread, hrun⟩ := hrun.bind hbase.moves.log fun x => (hrest x).log
      have hdone := (hrest x').ok hrun.run
      refine hdone.grows.isSome_type ?_
      cases hmentions with
      | imported hnamed' hlocal =>
        -- The import was not found, so nothing was.
        obtain ⟨m, found, rfl, -⟩ := importNamed?_eq_some.mp hnamed'
        cases hlookup : s.store.arena.lookup ctx.scope m.name with
        | none => exact absurd hread (not_clean_undeclared (fun ctx e => (hr.moves ctx e).log) hlookup)
        | some r => simp [importNamed?_of_steady hsteady hnamed' hlookup] at hnamed
      | inside hpart hmentions =>
        obtain rfl := List.mem_singleton.mp hpart
        exact hbase.typed hread hs (hdone.steady.trans ht) _ hpart y hy hmentions

/-! ## Lists of parts -/

omit hr in
theorem meets_exprs (h : ∀ e ∈ es, Meets f pending ctx.scope [e] (expr resolve ctx .value e)) :
    Meets f pending ctx.scope es (exprs resolve ctx es) := by
  induction es with
  | nil => unfold exprs; exact (moves_pure _).meets
  | cons e rest ih =>
    rw [List.forall_mem_cons] at h
    unfold exprs
    exact meets_bind h.1 fun _ => ih h.2

omit hr in
theorem meets_arguments (params : List TypeId)
    (h : ∀ e ∈ args, Meets f pending ctx.scope [e] (expr resolve ctx .value e)) :
    Meets f pending ctx.scope args (arguments resolve ctx params args) := by
  induction args generalizing params with
  | nil => unfold arguments; exact (moves_pure _).meets
  | cons e rest ih =>
    rw [List.forall_mem_cons] at h
    cases params with
    | nil =>
      unfold arguments
      exact meets_bind h.1 fun _ => ih _ h.2
    | cons t params =>
      unfold arguments
      exact meets_bind h.1 fun x => (moves_assign x e _ _).bindMeets fun _ => ih _ h.2

omit hr in
theorem meets_printed (h : ∀ e ∈ es, Meets f pending ctx.scope [e] (expr resolve ctx .value e)) :
    Meets f pending ctx.scope es (printed resolve ctx es) := by
  induction es with
  | nil => unfold printed; exact (moves_pure _).meets
  | cons e rest ih =>
    rw [List.forall_mem_cons] at h
    unfold printed
    exact meets_bind h.1 fun x => (moves_assign x e _ _).bindMeets fun _ => ih h.2

omit hr in
theorem meets_conversion (e : Expr) (t : TypeId)
    (h : ∀ e ∈ args, Meets f pending ctx.scope [e] (expr resolve ctx .value e)) :
    Meets f pending ctx.scope args (conversion resolve ctx e t args) := by
  unfold conversion
  split
  · exact Moves.meets (by grind)
  · exact (h _ (List.mem_singleton_self _)).bind (by grind)
  · rw [List.forall_mem_cons, List.forall_mem_cons] at h
    exact meets_bind h.1 fun _ => meets_bind h.2.1 fun _ => (meets_exprs h.2.2).bind fun _ => by grind

omit hr in
/-- A built-in procedure reads its one argument, and refuses any other number of them. -/
theorem meets_builtin (e : Expr) (b : Builtin)
    (h : ∀ e ∈ args, ∀ reading, Meets f pending ctx.scope [e] (expr resolve ctx reading e)) :
    Meets f pending ctx.scope args (builtin resolve ctx e b args) := by
  unfold builtin
  split
  case h_1 arg =>
    have hvalue := h arg (List.mem_singleton_self _) .value
    have htype := h arg (List.mem_singleton_self _) (.type none)
    split
    · exact hvalue.bind fun x => moves_lengthOf
    · exact htype.bind fun x => moves_measureOf
    · exact htype.bind fun x => moves_measureOf
    · exact htype.bind fun x => moves_allocated
    · exact hvalue.bind fun x => moves_asserted
    · exact hvalue.bind fun x => moves_bind (moves_assign x arg _ _) fun _ => moves_pure _
    · exact hvalue.bind fun x => moves_bind (moves_assign x arg _ _) fun _ => moves_pure _
  case h_2 => exact (refuses_fail _ _ _).meets (moves_fail rfl)

omit hr in
theorem meets_types (h : ∀ e ∈ es, Meets f pending ctx.scope [e] (expr resolve ctx (.type none) e)) :
    Meets f pending ctx.scope es (types resolve ctx es) := by
  induction es with
  | nil => unfold types; exact (moves_pure _).meets
  | cons e rest ih =>
    rw [List.forall_mem_cons] at h
    unfold types
    exact meets_bind h.1 fun _ => (ih h.2).bind fun _ => moves_pure _

omit hr in
theorem meets_recordFields (form : RecordForm) {fields : List Field} (scan : FieldScan)
    (h : ∀ f' ∈ fields, Meets f pending ctx.scope [f'.type] (expr resolve ctx (.type none) f'.type)) :
    Meets f pending ctx.scope (fields.map Field.type) (recordFields resolve ctx form fields scan) := by
  induction fields generalizing scan with
  | nil => unfold recordFields; exact (moves_pure _).meets
  | cons field rest ih =>
    obtain ⟨names, type, exposes⟩ := field
    rw [List.forall_mem_cons] at h
    unfold recordFields
    exact meets_bind h.1 fun t => (moves_addFields _ _ _ _ _).bindMeets fun scan => ih scan h.2

omit hr in
theorem meets_baseOf {base : Option Expr}
    (h : ∀ e ∈ base, Meets f pending ctx.scope [e] (expr resolve ctx (.type none) e)) :
    Meets f pending ctx.scope base.toList (baseOf resolve ctx base) := by
  cases base with
  | none => unfold baseOf; exact (moves_pure _).meets
  | some e =>
    unfold baseOf
    exact (h e rfl).bind fun x => moves_enumBase

omit hr in
theorem meets_valueOf (name : Ident) (standard : Int128) {value : Option Expr}
    (h : ∀ e ∈ value, Meets f pending ctx.scope [e] (expr resolve ctx .value e)) :
    Meets f pending ctx.scope value.toList (valueOf resolve ctx name standard value) := by
  cases value with
  | none => unfold valueOf; exact (moves_pure _).meets
  | some e =>
    unfold valueOf
    exact (h e rfl).bind fun x => moves_memberValue

omit hr in
theorem meets_enumMembers (kind : Kind) (t : TypeId) {members : List Member} (scan : MemberScan)
    (h : ∀ m ∈ members, ∀ e ∈ m.value, Meets f pending ctx.scope [e] (expr resolve ctx .value e)) :
    Meets f pending ctx.scope (members.filterMap Member.value) (enumMembers resolve ctx kind t members scan) := by
  induction members generalizing scan with
  | nil => unfold enumMembers; exact (moves_pure _).meets
  | cons m rest ih =>
    obtain ⟨name, value⟩ := m
    rw [List.forall_mem_cons] at h
    unfold enumMembers
    have hread := meets_bind (meets_valueOf name scan.next h.1) fun v =>
      (moves_addMember kind t name v scan).bindMeets fun scan => ih scan h.2
    refine hread.subset ?_
    cases value <;> simp

omit hr in
theorem meets_parameters (scope : Option ScopeId) {fields : List Field}
    (h : ∀ f' ∈ fields, Meets f pending ctx.scope [f'.type] (expr resolve ctx (.type none) f'.type)) :
    Meets f pending ctx.scope (fields.map Field.type) (parameters resolve ctx scope fields) := by
  induction fields with
  | nil => unfold parameters; exact (moves_pure _).meets
  | cons field rest ih =>
    obtain ⟨names, type, exposes⟩ := field
    rw [List.forall_mem_cons] at h
    unfold parameters
    refine meets_bind h.1 fun t => ?_
    split
    · exact moves_addParams.bindMeets fun _ => (ih h.2).bind fun _ => moves_pure _
    · exact (ih h.2).bind fun _ => moves_pure _

omit hr in
theorem meets_signature (scope : Option ScopeId) (sig : Signature)
    (hp : ∀ f' ∈ sig.params, Meets f pending ctx.scope [f'.type] (expr resolve ctx (.type none) f'.type))
    (hs : ∀ e ∈ sig.results, Meets f pending ctx.scope [e] (expr resolve ctx (.type none) e)) :
    Meets f pending ctx.scope (sig.params.map Field.type ++ sig.results) (signature resolve ctx scope sig) := by
  obtain ⟨node, params, results⟩ := sig
  unfold signature
  exact meets_bind (meets_parameters scope hp) fun ps => (meets_types hs).bind fun rs =>
    moves_bind (moves_newProc ps rs) fun t => moves_bind (moves_annotate _ _) fun _ => moves_pure _

/-! ## All expressions -/

omit hr in
theorem meets_call (reading : Reading) (n : Node) {callee : Expr}
    (hcallee : Meets f pending ctx.scope [callee] (expr resolve ctx .value callee))
    (h : ∀ e ∈ args, ∀ reading, Meets f pending ctx.scope [e] (expr resolve ctx reading e)) :
    Meets f pending ctx.scope (callee :: args) (expr resolve ctx reading (.call n callee args)) := by
  have hvalues : ∀ e ∈ args, Meets f pending ctx.scope [e] (expr resolve ctx .value e) := fun e he => h e he .value
  have hexprs := meets_exprs hvalues
  have hfinish (x : Operand) : Moves (Founds f pending []) (finishValue reading (.call n callee args) x) :=
    moves_finishValue
  unfold expr
  refine meets_bind hcallee fun g => ?_
  dsimp only
  split
  case h_1 => exact hexprs.bind fun _ => hfinish _
  case h_2 => exact (meets_conversion _ _ hvalues).bind hfinish
  case h_3 => exact (meets_printed hvalues).bind fun _ => hfinish _
  case h_4 b _ _ => exact (meets_builtin _ b h).bind hfinish
  case h_5 =>
    refine moves_arena.bindMeets fun a => ?_
    split
    case h_1 params results _ =>
      have harguments := (meets_arguments params hvalues).bind fun _ =>
        moves_bind (moves_resultOf (R := Founds f pending []) (.call n callee args) results) hfinish
      split
      · exact (moves_report rfl).bindMeets fun _ => harguments
      · exact harguments
    case h_2 => exact hexprs.bind fun _ => moves_bind (moves_typeText _) fun _ => moves_bind (moves_fail rfl) hfinish

/-- The members of an enum are read between its allocation and its completion. -/
theorem meets_enum (reading : Reading) (n : Node) {base : Option Expr} {members : List Member}
    (hbase : ∀ e ∈ base, Meets f pending ctx.scope [e] (expr resolve ctx (.type none) e))
    (hm : ∀ m ∈ members, ∀ e ∈ m.value, Meets f pending ctx.scope [e] (expr resolve ctx .value e)) :
    Meets f pending ctx.scope (base.toList ++ members.filterMap Member.value)
      (expr resolve ctx reading (.enum n base members)) where
  moves := moves_expr hr.moves ctx reading (.enum n base members)
  typed {s x u} hrun hs hu e he y hy hmentions := by
    have hfirst := meets_baseOf hbase
    have hsecond (kind : Kind) (t : TypeId) := meets_enumMembers kind t ⟨[], .zero⟩ hm
    have hnew (t : TypeId) : Moves (Founds f pending []) (newType (.enum t [])) := moves_newType rfl rfl
    have hdone (t : TypeId) : Moves (Founds f pending []) (typeOperand (.enum n base members) t) := moves_typeOperand
    have hlog (kind : Kind) (t : TypeId) := (hsecond kind t).moves.log
    unfold expr at hrun
    obtain ⟨t, s₁, hbased, hrun⟩ := hrun.bind hfirst.moves.log fun _ => by grind
    have hrun := hrun.readArena
    obtain ⟨id, s₂, hallocated, hrun⟩ := hrun.bind (log_newType _) fun _ => by grind
    obtain ⟨scan, s₃, hread, hrun⟩ := hrun.bind (hlog _ _) fun _ => by grind
    obtain ⟨_, s₄, hfilled, hrun⟩ := hrun.bind (log_onStore _) fun _ => by grind
    have hs₂ := (hfirst.moves.ok hbased.run).trans ((hnew t).ok hallocated.run)
    have hs₃ := (hsecond _ _).moves.ok hread.run
    have hu' := (hdone id).ok hrun.run
    have hsteady : s₃.Steady f := by
      cases hfilled.run
      exact Arena.Steady.trans (s₃.store.steady_modifyType _ _) (hu'.steady.trans hu)
    refine hu'.grows.isSome_type ?_
    have htyped : (s₃.store.arena.entity y).type.isSome := by
      rcases List.mem_append.mp he with he | he
      · have hsteady₁ : s₁.Steady f := ((hnew t).ok hallocated.run).steady.trans (hs₃.steady.trans hsteady)
        exact (((hnew t).ok hallocated.run).trans hs₃).grows.isSome_type
          (hfirst.typed hbased hs hsteady₁ e he y hy hmentions)
      · exact (hsecond _ _).typed hread (hs.later hs₂.toRecounts (by simp)) hsteady e he y (hs₂.decls ▸ hy) hmentions
    cases hfilled.run
    rwa [Arena.entity, Store.entity?_modifyType]

/-- Every declared entity that an expression mentions has a type once the expression was read without an error. -/
theorem meets_expr (ctx : Context) (reading : Reading) (e : Expr) :
    Meets f pending ctx.scope [e] (expr resolve ctx reading e) := by
  induction e using Expr.induction generalizing ctx reading with
  | h e ih =>
    cases e with
    | name n => exact meets_name hr reading n
    | select n base field => exact meets_select hr reading n field (ih base (by simp) ctx .value)
    | literal n v =>
      refine .of_children ?_ (by simp) (by simp)
      unfold expr
      exact moves_finishValue.meets
    | paren n inner =>
      refine .of_children ?_ (by simp) (by simp)
      unfold expr
      exact (ih inner (by simp) ctx reading).bind fun x => moves_bind (moves_annotate _ _) fun _ => moves_pure _
    | unary n op operand =>
      refine .of_children ?_ (by simp) (by simp)
      unfold expr
      exact (ih operand (by simp) ctx .value).bind fun x =>
        moves_bind moves_unary fun _ => moves_finishValue
    | binary n op left right =>
      refine .of_children ?_ (by simp) (by simp)
      unfold expr
      exact meets_bind (ih left (by simp) ctx .value) fun x =>
        (ih right (by simp) ctx .value).bind fun y =>
          moves_bind moves_binary fun _ => moves_finishValue
    | call n callee args =>
      refine .of_children ?_ (by simp) (by simp)
      exact meets_call reading n (ih callee (by simp) ctx .value) fun e he reading =>
        ih e (by simp [he]) ctx reading
    | pointer n elem =>
      refine .of_children ?_ (by simp) (by simp)
      unfold expr
      exact (ih elem (by simp) ctx.indirect (.type none)).bind fun t =>
        moves_bind (moves_newPointer t.type) fun _ => moves_typeOperand
    | array n count elem =>
      refine .of_children ?_ (by simp) (by simp)
      unfold expr
      exact meets_bind (ih count (by simp) ctx .value) fun x =>
        moves_arrayCount.bindMeets fun length =>
          (ih elem (by simp) ctx (.type none)).bind fun t =>
            moves_bind (moves_newType rfl rfl) fun _ => moves_typeOperand
    | slice n elem =>
      refine .of_children ?_ (by simp) (by simp)
      unfold expr
      exact (ih elem (by simp) ctx.indirect (.type none)).bind fun t =>
        moves_bind (moves_newType rfl rfl) fun _ => moves_typeOperand
    | record n form fields =>
      refine .of_children ?_ (by simp) (by simp)
      unfold expr
      exact (meets_recordFields form ⟨[], []⟩ fun f hf => ih f.type (List.mem_map_of_mem hf) ctx (.type none)).bind
        fun scan => moves_bind (moves_newType rfl rfl) fun _ => moves_typeOperand
    | enum n base members =>
      refine .of_children ?_ (by simp) (by simp)
      refine meets_enum hr reading n (fun e he => ih e (List.mem_append_left _ (by simpa using he)) ctx (.type none))
        fun m hm e he => ih e (List.mem_append_right _ (List.mem_filterMap.mpr ⟨m, hm, he⟩)) ctx .value
    | proc n sig =>
      refine .of_children ?_ (by simp) (by simp)
      unfold expr
      exact (meets_signature none sig (fun f hf => ih f.type (List.mem_append_left _ (List.mem_map_of_mem hf)) ctx _)
        fun e he => ih e (List.mem_append_right _ he) ctx _).bind fun t => moves_typeOperand

end

end Check

end Statics
