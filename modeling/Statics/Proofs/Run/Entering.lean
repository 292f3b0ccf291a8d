import Statics.Proofs.Run.Declarations

/-!
# Steps of entering declarations

Declarations of every sort are entered by the same steps: entities are made, each of them is bound and waits for its
declaration, and something may be reported. `Roll.Step` says what a step does. What all steps keep holds after a
declaration was entered, also where that stops: `Decl.Enters.upholds`.
-/

namespace Statics

/-- The kind of the entities that are made for a declaration. -/
def Declaration.kind : Declaration → EntityKind
  | .constant .. => .constant none
  | .vars .. => .var .plain
  | .type .. => .typeName
  | .proc _ d => .procedure ⟨none, d.tags, d.foreignName.map Token.text, d.linkName.map Token.text⟩

/-- The entity that is made for a name. -/
def Declaration.entity (d : Declaration) (name : Ident) : Entity := .fresh d.kind name.token (some name.id)

/-- Whether a constant has a value. -/
def Declaration.isComplete : Declaration → Bool
  | .constant _ _ value => value.isSome
  | _ => true

/-- The names that are bound when a declaration is entered. Imports come later. -/
def Decl.names : Decl → List Ident
  | .vars d => d.names
  | .consts d => d.names
  | .type d => [d.name]
  | .proc d => [d.name]
  | .imported _ => []

/-- What is kept of a declaration for the first use of a name. -/
inductive Decl.Keeps (scope : ScopeId) : Decl → Ident → Declaration → Prop
  | vars (d : VarDecl) (name : Ident) (es : List EntityId) : Keeps scope (.vars d) name (.vars scope es d.type d.values)
  | constant (d : ConstDecl) {name : Ident} {value : Option Expr}
      (h : ∀ init ∈ value, (name, init) ∈ d.names.zip d.values) :
      Keeps scope (.consts d) name (.constant scope d.type value)
  | type (d : TypeDecl) : Keeps scope (.type d) d.name (.type scope d.type)
  | proc (d : ProcDecl) : Keeps scope (.proc d) d.name (.proc scope d)

/-- How far entering a declaration has come: the entities that were made last, what they wait for, all that were made,
what is kept for its first use, the names that were bound, and whether something was reported. -/
structure Roll where
  entries : List (Ident × EntityId)
  decl : Declaration
  made : List EntityId
  kept : Pending
  bound : List Ident
  faulty : Bool

/-- Nothing was entered yet. -/
def Roll.blank (scope : ScopeId) : Roll := ⟨[], .vars scope [] none [], [], [], [], false⟩

/-- The declaration at hand may be kept for an entity. Of what is kept for a name, `K` holds. -/
structure Roll.Keeps (r : Roll) (K : Ident → Declaration → Prop) (e : EntityId) : Prop where
  name : ∃ name, (name, e) ∈ r.entries ∧ K name r.decl
  vars : r.decl.variables ⊆ r.entries.map Prod.snd
  own : r.decl.kind = .var .plain → e ∈ r.decl.variables
  value : r.faulty = false → r.decl.isComplete

/-- One step of entering declarations in a scope. -/
inductive Roll.Step (scope : ScopeId) (K : Ident → Declaration → Prop) : Roll → Pass → Roll → Pass → Prop
  | report {r : Roll} {s : Pass} (token : Token) {p : Problem} (hp : p.category.isFlow = false) :
    Step scope K r s { r with faulty := true } ((Check.report token p).after s)
  | hoist {r : Roll} {s : Pass} (id : NodeId) : Step scope K r s r { s with hoisted := id :: s.hoisted }
  | make {r : Roll} {s t : Pass} {e : EntityId} (name : Ident) (d : Declaration)
      (h : Check.newEntity (d.entity name) s = .ok e t) :
    Step scope K r s { r with entries := [(name, e)], decl := d, made := r.made ++ [e] } t
  | makeAll {r : Roll} {s t : Pass} {names : List Ident} {es : List EntityId} (type : Option Expr) (values : List Expr)
      (h : Check.newVariables names s = .ok es t) :
    Step scope K r s { r with entries := names.zip es, decl := .vars scope es type values, made := r.made ++ es } t
  | await {r : Roll} {s : Pass} {e : EntityId} (h : r.Keeps K e) :
    Step scope K r s { r with kept := (e, r.decl) :: r.kept } { s with decls := (e, r.decl) :: s.decls }
  | bind {r : Roll} {s : Pass} {name : Ident} {e : EntityId} (h : (name, e) ∈ r.entries) :
    Step scope K r s { r with bound := r.bound ++ [name] } ((Check.bind scope (some name) e).after s)

/-- A step goes along a relation that allows all of them, but for keeping declarations. -/
theorem Roll.Step.along {scope : ScopeId} {K : Ident → Declaration → Prop} {r r' : Roll} {s t : Pass}
    {R : Pass → Pass → Prop} [Binds R] [Prepares R] (h : Step scope K r s r' t)
    (hawait : ∀ {e}, r.Keeps K e → R s { s with decls := (e, r.decl) :: s.decls }) : R s t := by
  cases h with
  | report token hp => exact (Check.moves_report hp).along s
  | hoist id => exact Prepares.hoist s id
  | make name d hnew =>
    cases hnew
    exact Prepares.newWaiting s _ rfl
  | makeAll type values hnew => exact Check.moves_newVariables.ok hnew
  | await h => exact hawait h
  | bind => exact Check.moves_bindIdent.along s

/-- The routines that enter a declaration, and which entities their results are. -/
inductive Decl.Enters (scope : ScopeId) : {α : Type} → Decl → (α → List EntityId) → Check α → Prop
  | vars (d : VarDecl) : Enters scope (.vars d) id (Check.declareGlobals d scope)
  | consts (d : ConstDecl) : Enters scope (.consts d) id (Check.declareConstants d scope)
  | type (d : TypeDecl) : Enters scope (.type d) (fun e => [e]) (Check.declareType d scope)
  | proc (d : ProcDecl) : Enters scope (.proc d) (fun e => [e]) (Check.declareProc d scope)

namespace Check

variable {α β : Type} {I : Roll → Pass → Prop} {r r' : Roll} {x : Check α} {f : α → Check β} {P : α → Roll → Prop}
  {Q : β → Roll → Prop} {scope : ScopeId} {K : Ident → Declaration → Prop}

/-- `I` holds of some roll after every run from a state where it holds of `r`, and `P` of the result if the run
completes. -/
def Upholds (I : Roll → Pass → Prop) (r : Roll) (x : Check α) (P : α → Roll → Prop) : Prop :=
  ∀ s, I r s → (∃ r', I r' (x.after s)) ∧ ∀ a t, x s = .ok a t → ∃ r', I r' t ∧ P a r'

theorem upholds_pure {a : α} (h : P a r) : Upholds I r (pure a) P := by
  refine fun s hs => ⟨⟨r, hs⟩, fun b t hrun => ?_⟩
  cases hrun
  exact ⟨r, hs, h⟩

theorem Upholds.bind (hx : Upholds I r x P) (hf : ∀ a r', P a r' → Upholds I r' (f a) Q) : Upholds I r (x >>= f) Q := by
  intro s hs
  refine runs_bind (S := fun t => ∃ r', I r' t) (hx s hs).1 fun a t hrun => ?_
  obtain ⟨r', hr', ha⟩ := (hx s hs).2 a t hrun
  exact hf a r' ha t hr'

section

variable (hI : ∀ {r s r' t}, Roll.Step scope K r s r' t → I r s → I r' t)

include hI

theorem upholds_step {y : Check β} (hx : ∀ s, Roll.Step scope K r s r' (x.after s)) (hy : Upholds I r' y Q) :
    Upholds I r (x >>= fun _ => y) Q := by
  refine Upholds.bind (P := fun _ r₁ => r₁ = r') (fun s hs => ?_) fun _ _ h => h ▸ hy
  have hr' := hI (hx s) hs
  exact ⟨⟨r', hr'⟩, fun a t hrun => ⟨r', after_of_ok hrun ▸ hr', rfl⟩⟩

theorem upholds_make {f : EntityId → Check β} (name : Ident) (D : Declaration)
    (hf : ∀ e, Upholds I { r with entries := [(name, e)], decl := D, made := r.made ++ [e] } (f e) Q) :
    Upholds I r (newEntity (D.entity name) >>= f) Q := by
  refine Upholds.bind (P := fun e r₁ => r₁ = { r with entries := [(name, e)], decl := D, made := r.made ++ [e] })
    (fun s hs => ?_) fun e _ h => h ▸ hf e
  refine ⟨⟨_, hI (.make name D rfl) hs⟩, fun e t hrun => ⟨_, hI (.make name D hrun) hs, rfl⟩⟩

/-- What a single entity waits for is kept, and the entity is bound. -/
theorem upholds_lodge {y : Check β} {name : Ident} {e : EntityId} (he : (name, e) ∈ r.entries) (hK : K name r.decl)
    (hvars : r.decl.variables = []) (hkind : r.decl.kind ≠ .var .plain) (hvalue : r.faulty = false → r.decl.isComplete)
    (hy : Upholds I { r with kept := (e, r.decl) :: r.kept, bound := r.bound ++ [name] } y Q) :
    Upholds I r (await e r.decl >>= fun _ => Check.bind scope (some name) e >>= fun _ => y) Q :=
  upholds_step hI (fun _ => .await ⟨⟨name, he, hK⟩, by simp [hvars], fun h => absurd h hkind, hvalue⟩)
    (upholds_step hI (fun _ => .bind he) hy)

theorem upholds_bindGlobals {y : Check β} {d : Declaration} {entries : List (Ident × EntityId)} (hr : r.decl = d)
    (hentries : entries ⊆ r.entries) (hK : ∀ name, K name d) (hvars : d.variables = r.entries.map Prod.snd)
    (hvalue : d.isComplete) (hy : Upholds I { r with
      kept := (entries.map fun p => (p.2, d)).reverse ++ r.kept, bound := r.bound ++ entries.map Prod.fst } y Q) :
    Upholds I r (bindGlobals scope d entries >>= fun _ => y) Q := by
  subst hr
  induction entries generalizing r with
  | nil => simpa [bindGlobals] using hy
  | cons p rest ih =>
    have hp : (p.1, p.2) ∈ r.entries := hentries List.mem_cons_self
    simp only [bindGlobals, bind_assoc]
    refine upholds_step hI (fun _ => .bind hp)
      (upholds_step hI (fun _ => .await ⟨⟨p.1, hp, hK _⟩, ?_, fun _ => ?_, fun _ => hvalue⟩) ?_)
    · simp [hvars]
    · exact hvars ▸ List.mem_map_of_mem hp
    · exact ih (fun _ hq => hentries (List.mem_cons_of_mem _ hq)) hK hvars hvalue (by simpa using hy)

theorem upholds_enterConstants {type : Option Expr} {names : List Ident} {values : List Expr}
    (hK : ∀ name value, (∀ init ∈ value, (name, init) ∈ names.zip values) → K name (.constant scope type value)) :
    Upholds I r (enterConstants scope type names values) fun es r' => r'.made = r.made ++ es ∧
      r'.bound = r.bound ++ names ∧ (r'.kept.map Prod.fst).Perm (es ++ r.kept.map Prod.fst) := by
  induction names generalizing r values with
  | nil =>
    cases values with
    | nil => exact upholds_pure (by simp)
    | cons extra _ => exact upholds_step hI (fun _ => .report _ rfl) (upholds_pure (by simp))
  | cons name names ih =>
    refine upholds_make hI name (.constant scope type values.head?) fun e => ?_
    have hrest (b : Bool) (hb : b = false → values.isEmpty = false) : Upholds I { r with
        entries := [(name, e)], decl := .constant scope type values.head?, made := r.made ++ [e], faulty := b } (do
          await e (.constant scope type values.head?)
          let _ ← Check.bind scope (some name) e
          return e :: (← enterConstants scope type names values.tail)) fun es r' => r'.made = r.made ++ es ∧
        r'.bound = r.bound ++ name :: names ∧ (r'.kept.map Prod.fst).Perm (es ++ r.kept.map Prod.fst) := by
      refine upholds_lodge hI (by simp) (hK _ _ fun init hi => ?_) rfl (by simp [Declaration.kind]) (fun hf => ?_)
        (Upholds.bind (ih fun name' value hvalue => hK name' value fun init hi => ?_) fun es r' hr' => upholds_pure ?_)
      · cases values <;> simp_all
      · cases values <;> simp_all [Declaration.isComplete]
      · cases values <;> simp_all
      · obtain ⟨hmade, hbound, hkept⟩ := hr'
        exact ⟨by simp [hmade], by simp [hbound], hkept.trans List.perm_middle⟩
    split
    case isTrue => exact upholds_step hI (fun _ => .report _ rfl) (hrest true (by simp))
    case isFalse hsome => exact hrest r.faulty fun _ => by simpa using hsome

end

theorem newVariables_ok (names : List Ident) (s : Pass) :
    ∃ es t, newVariables names s = .ok es t ∧ es.length = names.length := by
  induction names generalizing s with
  | nil => exact ⟨[], s, rfl, rfl⟩
  | cons name rest ih =>
    obtain ⟨es, t, hrest, hlength⟩ :=
      ih { s with store := (s.store.newEntity (.fresh (.var .plain) name.token name.id)).2 }
    exact ⟨_, t, bind_eq_ok.mpr ⟨_, _, rfl, bind_eq_ok.mpr ⟨es, t, hrest, rfl⟩⟩, by simp [hlength]⟩

end Check

namespace Decl.Enters

open Check

variable {α : Type} {d : Decl} {ids : α → List EntityId} {x : Check α} {scope : ScopeId} (h : d.Enters scope ids x)

include h

/-- What every step keeps holds after a declaration was entered. If that completes, the names are bound in order, and
all entities that were made wait. -/
theorem upholds {I : Roll → Pass → Prop}
    (hI : ∀ {r s r' t}, Roll.Step scope (d.Keeps scope) r s r' t → I r s → I r' t) :
    Upholds I (.blank scope) x fun a r =>
      r.made = ids a ∧ r.bound = d.names ∧ (r.kept.map Prod.fst).Perm (ids a) := by
  cases h with
  | vars d =>
    have hrest (r : Roll) (hr : r.made = [] ∧ r.bound = [] ∧ r.kept = []) : Upholds I r (do
        let entities ← newVariables d.names
        bindGlobals scope (.vars scope entities d.type d.values) (d.names.zip entities)
        return entities) fun es r' => r'.made = es ∧ r'.bound = d.names ∧ (r'.kept.map Prod.fst).Perm es := by
      refine Upholds.bind (P := fun es r' => es.length = d.names.length ∧ r' = { r with
        entries := d.names.zip es, decl := .vars scope es d.type d.values, made := es }) (fun s hs => ?_) ?_
      · obtain ⟨es, t, hrun, hlength⟩ := newVariables_ok d.names s
        have ht := hI (.makeAll d.type d.values hrun) hs
        rw [hr.1] at ht
        refine ⟨⟨_, after_of_ok hrun ▸ ht⟩, fun es' t' hrun' => ?_⟩
        cases hrun.symm.trans hrun'
        exact ⟨_, ht, hlength, rfl⟩
      · rintro es _ ⟨hlength, rfl⟩
        refine upholds_bindGlobals hI rfl (List.Subset.refl _)
          (fun name => .vars d name es) ?_ rfl (upholds_pure ⟨rfl, ?_, ?_⟩)
        · exact (List.map_snd_zip (Nat.le_of_eq hlength)).symm
        · simp [hr.2.1, List.map_fst_zip (Nat.le_of_eq hlength.symm)]
        · simp [hr.2.2, Function.comp_def, List.map_snd_zip (Nat.le_of_eq hlength), List.reverse_perm]
    unfold declareGlobals
    split
    · exact upholds_step hI (fun _ => .report _ rfl) (hrest _ ⟨rfl, rfl, rfl⟩)
    · exact hrest _ ⟨rfl, rfl, rfl⟩
  | consts d =>
    have henter : Upholds I (.blank scope) (enterConstants scope d.type d.names d.values) fun es r =>
        r.made = es ∧ r.bound = d.names ∧ (r.kept.map Prod.fst).Perm es := by
      simpa [Roll.blank] using upholds_enterConstants (r := .blank scope) hI fun _ _ => .constant d
    unfold declareConstants
    split
    · exact upholds_step hI (fun _ => .hoist _) henter
    · exact henter
  | type d =>
    refine upholds_step hI (fun _ => .hoist _) (upholds_make hI d.name (.type scope d.type) fun e => ?_)
    exact upholds_lodge hI (by simp) (.type d) rfl (by simp [Declaration.kind]) (fun _ => rfl)
      (upholds_pure ⟨rfl, rfl, .refl _⟩)
  | proc d =>
    refine upholds_make hI d.name (.proc scope d) fun e => ?_
    exact upholds_lodge hI (by simp) (.proc d) rfl (by simp [Declaration.kind]) (fun _ => rfl)
      (upholds_pure ⟨rfl, rfl, .refl _⟩)

theorem traced : Traced x := by
  have hmoves : Moves LogGrows x := by
    cases h with
    | vars d =>
      unfold declareGlobals
      grind
    | consts d =>
      unfold declareConstants
      grind
    | type d =>
      unfold declareType
      grind
    | proc d =>
      unfold declareProc
      grind
  exact hmoves.traced

/-- What every step keeps relates the states before and after. -/
theorem moves {R : Pass → Pass → Prop} {I : Pass → Roll → Pass → Prop}
    (hstep : ∀ {s r t r' u}, Roll.Step scope (d.Keeps scope) r t r' u → I s r t → I s r' u)
    (hstart : ∀ s, I s (.blank scope) s) (hend : ∀ {s r t}, I s r t → R s t) : Moves R x where
  along s := by
    obtain ⟨⟨r, hr⟩, -⟩ := h.upholds (hstep (s := s)) s (hstart s)
    exact hend hr
  traced := h.traced

theorem moves_along {R : Pass → Pass → Prop} [Binds R] [Prepares R]
    (hawait : ∀ {r s e}, Roll.Keeps r (d.Keeps scope) e → R s { s with decls := (e, r.decl) :: s.decls }) : Moves R x :=
  h.moves (I := fun s _ t => R s t) (fun hstep hst => Reports.trans hst (hstep.along hawait)) Reports.refl id

end Decl.Enters

end Statics
