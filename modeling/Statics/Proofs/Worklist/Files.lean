import Statics.Proofs.Declared

/-!
# Entered declarations

The file level first enters the declarations of all files, each for a new entity, and only then checks them. `Lists
new s t` says which declarations were entered, and `Check.registered_collectFiles` that these are all procedures of
the files.
-/

namespace Statics

variable {e : EntityId} {x : Entity} {τ : Ty} {es : List EntityId}

/-! ## What is open -/

/-- An entity without a type. -/
def Arena.Untyped (a : Arena) (e : EntityId) : Prop := ∃ x, a.entity? e = some x ∧ x.type = none

/-- A named type without a base. -/
def Arena.OpenName (a : Arena) (t : TypeId) : Prop := ∃ τ, a.type? t = some τ ∧ τ.isOpenName

theorem Arena.Untyped.type_eq_none {a : Arena} (h : a.Untyped e) : (a.entity e).type = none := by
  obtain ⟨x, hx, htype⟩ := h
  simp [Arena.entity, hx, htype]

theorem Arena.untyped_of_spares {a b : Arena} (h : a.Spares (fun _ type => type = none) b) (he : b.Untyped e) :
    a.Untyped e := by
  obtain ⟨y, hy, htype⟩ := he
  obtain ⟨x, hx, -, heq⟩ := h e y hy htype
  exact ⟨x, hx, heq.trans htype⟩

namespace Store

theorem untyped_newEntity (s : Store) (h : (s.newEntity x).2.arena.Untyped e) :
    s.arena.Untyped e ∨ e = (s.newEntity x).1 := by
  obtain ⟨y, hy, htype⟩ := h
  rw [entity?_newEntity] at hy
  split at hy
  case isTrue he => exact .inr he
  case isFalse => exact .inl ⟨y, hy, htype⟩

theorem untyped_newType (s : Store) (h : (s.newType τ).2.arena.Untyped e) : s.arena.Untyped e := by
  obtain ⟨x, hx, htype⟩ := h
  have hsame : ∀ e, (s.newType τ).2.arena.entity? e = s.arena.entity? e := entity?_congr rfl rfl rfl
  exact ⟨x, (hsame e).symm.trans hx, htype⟩

theorem openName_newType (s : Store) {u : TypeId} (h : (s.newType τ).2.arena.OpenName u) :
    s.arena.OpenName u ∨ u = (s.newType τ).1 ∧ τ.isOpenName := by
  obtain ⟨σ, hσ, hopen⟩ := h
  rw [type?_newType] at hσ
  split at hσ
  case isTrue hu =>
    cases hσ
    exact .inr ⟨hu, hopen⟩
  case isFalse => exact .inl ⟨σ, hσ, hopen⟩

end Store

/-! ## Entities that are entered without a type -/

/-- The entities in `es` were entered, and nothing else was opened. -/
structure Opens (es : List EntityId) (s t : Pass) : Prop where
  grows : s.Grows t
  untyped : ∀ e, t.store.arena.Untyped e → s.store.arena.Untyped e ∨ e ∈ es
  names : ∀ u, t.store.arena.OpenName u → s.store.arena.OpenName u

namespace Opens

variable {es es' : List EntityId} {s t u : Pass}

theorem trans (h : Opens es s t) (h' : Opens es' t u) : Opens (es ++ es') s u where
  grows := h.grows.trans h'.grows
  untyped e he := by
    rcases h'.untyped e he with he | he
    · exact (h.untyped e he).imp_right (List.mem_append_left es')
    · exact .inr (List.mem_append_right es he)
  names u hu := h.names u (h'.names u hu)

/-- Nothing is entered after some entities. -/
theorem still (h : Opens es s t) (h' : Opens [] t u) : Opens es s u := List.append_nil es ▸ h.trans h'

/-- What was entered before has a type after. -/
theorem settled (h : Opens es s t) (h' : Opens [] t u) (htyped : ∀ e ∈ es, (u.store.arena.entity e).type.isSome) :
    Opens [] s u where
  grows := h.grows.trans h'.grows
  untyped e he := by
    refine ((h.still h').untyped e he).imp_right fun hmem => ?_
    simpa [he.type_eq_none] using htyped e hmem
  names := (h.still h').names

theorem of_entities (hg : s.Grows t) (he : ∀ e, t.store.arena.Untyped e → s.store.arena.Untyped e)
    (ht : ∀ u, t.store.arena.type? u = s.store.arena.type? u) : Opens [] s t :=
  ⟨hg, fun e h => .inl (he e h), fun u ⟨τ, hτ, hopen⟩ => ⟨τ, (ht u).symm.trans hτ, hopen⟩⟩

theorem of_store_eq (hg : s.Grows t) (h : t.store = s.store) : Opens [] s t :=
  of_entities hg (fun e he => h ▸ he) fun u => by rw [h]

theorem of_spares (hg : s.Grows t) (h : s.store.arena.Spares (fun _ type => type = none) t.store.arena)
    (ht : ∀ u, t.store.arena.type? u = s.store.arena.type? u) : Opens [] s t :=
  of_entities hg (fun _ => Arena.untyped_of_spares h) ht

theorem newTyped (s : Pass) (hx : x.type.isSome) : Opens [] s { s with store := (s.store.newEntity x).2 } := by
  refine of_spares (.of_store (.newEntity s.store x)) (s.store.spares_newEntity fun hnone => ?_)
    (Store.type?_congr rfl rfl rfl)
  simp [hnone] at hx

theorem newType (s : Pass) (hτ : τ.isOpenName = false) : Opens [] s { s with store := (s.store.newType τ).2 } :=
  ⟨.of_store (.newType s.store τ), fun _ he => .inl (s.store.untyped_newType he),
    fun _ hu => (s.store.openName_newType hu).resolve_right fun h => by simp [hτ] at h⟩

instance : ReadsFiles (Opens []) where
  refl s := of_store_eq (.refl s) rfl
  trans h h' := h.still h'
  report s d hd hk := of_store_eq (Reports.report s d hd hk) rfl
  refer s id e := of_store_eq (Remarks.refer s id e) rfl
  define s id e := of_store_eq (Remarks.define s id e) rfl
  markUsed s e := of_spares (Remarks.markUsed s e) (s.store.spares_markUsed e) (s.store.type?_markUsed e)
  openScope s parent kind := of_spares (Supplies.openScope s parent kind) (s.store.spares_openScope parent kind)
    (s.store.type?_openScope parent kind)
  noteScope s id scope := of_store_eq (Supplies.noteScope s id scope) rfl
  bind s scope e := of_spares (Binds.bind s scope e) (s.store.spares_bind scope e) (s.store.type?_bind scope e)
  newEntity s _ hx := newTyped s (Bool.and_eq_true_iff.mp hx).1
  newPointer s _ := newType s rfl
  newTuple s _ := newType s rfl
  newProc s _ _ := newType s rfl
  openFile s files := of_store_eq (ReadsFiles.openFile s files) rfl
  newImport s _ _ _ := newTyped s rfl
  addImport s e := of_store_eq (ReadsFiles.addImport s e) rfl
  warn s d hd := of_store_eq (ReadsFiles.warn s d hd) rfl

instance : Observes (Opens []) where
  annotate s id note := of_store_eq (Observes.annotate s id note) rfl

theorem newEntity (h : Check.newEntity x s = .ok e t) : Opens [e] s t := by
  obtain ⟨rfl, rfl⟩ := Check.newEntity_ok h
  have hsame : ∀ u, (s.store.newEntity x).2.arena.type? u = s.store.arena.type? u := Store.type?_congr rfl rfl rfl
  exact ⟨.of_store (.newEntity s.store x), fun e he => (s.store.untyped_newEntity he).imp_right List.mem_singleton.mpr,
    fun u ⟨τ, hτ, hopen⟩ => ⟨τ, (hsame u).symm.trans hτ, hopen⟩⟩

end Opens

/-! ## Entering declarations -/

/-- The procedures among some declarations. -/
def procsOf (decls : List (EntityId × Declaration)) : List ProcDecl :=
  decls.filterMap fun
    | (_, .proc _ d) => some d
    | _ => none

theorem procsOf_append (decls decls' : Pending) :
    procsOf (decls ++ decls') = procsOf decls ++ procsOf decls' := List.filterMap_append

theorem Pass.Grows.isSome_entity {s t : Pass} (h : s.Grows t) (he : (s.store.arena.entity? e).isSome) :
    (t.store.arena.entity? e).isSome := by
  obtain ⟨x, hx⟩ := Option.isSome_iff_exists.mp he
  obtain ⟨y, hy, -⟩ := h.store.toExtends.entities e x hx
  simp [hy]

theorem Pass.Grows.entity_eq_none {s t : Pass} (h : s.Grows t) (he : t.store.arena.entity? e = none) :
    s.store.arena.entity? e = none := by
  refine Option.not_isSome_iff_eq_none.mp fun hsome => ?_
  simpa [he] using h.isSome_entity hsome

/-- The entities in `es` were entered, all of them new, and nothing was checked. -/
structure Allots (es : List EntityId) (s t : Pass) : Prop extends Opens es s t where
  queue : t.queue = s.queue
  links : t.links = s.links
  keys : es.Nodup
  fresh : ∀ e ∈ es, s.store.arena.entity? e = none ∧ (t.store.arena.entity? e).isSome

namespace Allots

variable {es es' : List EntityId} {s t u : Pass}

theorem of_eq (h : Opens [] s t) (hq : t.queue = s.queue) (hl : t.links = s.links) : Allots [] s t :=
  ⟨h, hq, hl, by simp, by simp⟩

/-- What is entered second was not there when what was entered first was. -/
theorem trans (h : Allots es s t) (h' : Allots es' t u) : Allots (es ++ es') s u where
  toOpens := h.toOpens.trans h'.toOpens
  queue := h'.queue.trans h.queue
  links := h'.links.trans h.links
  keys := by
    refine List.nodup_append.mpr ⟨h.keys, h'.keys, fun e he e' he' heq => ?_⟩
    have hsome := (h.fresh e he).2
    rw [heq, (h'.fresh e' he').1] at hsome
    simp at hsome
  fresh := List.forall_mem_append.mpr ⟨fun e he => ⟨(h.fresh e he).1, h'.grows.isSome_entity (h.fresh e he).2⟩,
    fun e he => ⟨h.grows.entity_eq_none (h'.fresh e he).1, (h'.fresh e he).2⟩⟩

theorem perm (h : Allots es s t) (hperm : es.Perm es') : Allots es' s t :=
  { h with
    untyped := fun e he => (h.untyped e he).imp_right hperm.mem_iff.mp
    keys := hperm.nodup h.keys
    fresh := fun e he => h.fresh e (hperm.mem_iff.mpr he) }

end Allots

/-- The declarations in `new` were entered, for new entities, and nothing was checked. -/
structure Lists (new : List (EntityId × Declaration)) (s t : Pass) : Prop extends Allots (new.map Prod.fst) s t where
  decls : t.decls = new ++ s.decls

namespace Lists

variable {new new' : Pending} {s t u : Pass}

theorem of_eq (h : Opens [] s t) (hd : t.decls = s.decls) (hq : t.queue = s.queue) (hl : t.links = s.links) :
    Lists [] s t := ⟨.of_eq h hq hl, hd⟩

theorem trans (h : Lists new s t) (h' : Lists new' t u) : Lists (new' ++ new) s u where
  toAllots := by
    rw [List.map_append]
    exact (h.toAllots.trans h'.toAllots).perm List.perm_append_comm
  decls := by rw [h'.decls, h.decls, List.append_assoc]

/-- Nothing is entered after some declarations. -/
theorem still (h : Lists new s t) (h' : Lists [] t u) : Lists new s u := h.trans h'

/-- Nothing is entered before some declarations. -/
theorem later (h : Lists [] s t) (h' : Lists new t u) : Lists new s u := List.append_nil new ▸ h.trans h'

instance : ReadsFiles (Lists []) := .of_idle (fun h _ hst => of_eq h hst.decls hst.queue hst.links) trans

/-- An entity was entered, and its declaration after it. -/
theorem await (h : Allots [e] s t) (hd : t.decls = s.decls) (d : Declaration) :
    Lists [(e, d)] s { t with decls := (e, d) :: t.decls } :=
  { h with
    toOpens := h.toOpens.still (.of_store_eq (Enters.await t (e, d)) rfl)
    decls := by rw [hd, List.singleton_append] }

end Lists

namespace Check

variable {s t : Pass} {scope : ScopeId}

theorem allots_newEntity (h : newEntity x s = .ok e t) : Allots [e] s t ∧ t.decls = s.decls := by
  have hopens := Opens.newEntity h
  obtain ⟨rfl, rfl⟩ := newEntity_ok h
  refine ⟨⟨hopens, rfl, rfl, by simp, fun e he => ?_⟩, rfl⟩
  obtain rfl := List.mem_singleton.mp he
  exact ⟨s.store.entity?_fresh x, by simp [Store.entity?_newEntity]⟩

theorem lists_hoist {id : NodeId} (h : hoist id s = .ok () t) : Lists [] s t := by
  cases h
  exact .of_eq (.of_store_eq (Prepares.hoist s id) rfl) rfl rfl rfl

theorem lists_declareProc {d : ProcDecl} (h : declareProc d scope s = .ok e t) : Lists [(e, .proc scope d)] s t := by
  obtain ⟨e, s₁, hnew, h⟩ := bind_eq_ok.mp h
  obtain ⟨_, s₂, hawait, h⟩ := bind_eq_ok.mp h
  obtain ⟨_, s₃, hbind, h⟩ := bind_eq_ok.mp h
  cases h
  cases hawait
  obtain ⟨hallots, hdecls⟩ := allots_newEntity hnew
  exact (Lists.await hallots hdecls _).still (moves_bindIdent.ok hbind)

/-- Declarations of the entities in `es` were entered, and `procs` are the procedures among them. -/
def Registered (es : List EntityId) (procs : List ProcDecl) (s t : Pass) : Prop :=
  ∃ new, Lists new s t ∧ (procsOf new).Perm procs ∧ (new.map Prod.fst).Perm es

theorem Registered.trans {es' : List EntityId} {procs procs' : List ProcDecl} {u : Pass} (h : Registered es procs s t)
    (h' : Registered es' procs' t u) : Registered (es ++ es') (procs ++ procs') s u := by
  obtain ⟨new, hnew, hprocs, hperm⟩ := h
  obtain ⟨new', hnew', hprocs', hperm'⟩ := h'
  refine ⟨new' ++ new, hnew.trans hnew', ?_, ?_⟩
  · rw [procsOf_append]
    exact List.perm_append_comm.trans (hprocs.append hprocs')
  · rw [List.map_append]
    exact List.perm_append_comm.trans (hperm.append hperm')

theorem registered_nil (h : Lists [] s t) : Registered [] [] s t := ⟨[], h, .refl _, .refl _⟩

theorem allots_newVariables {names : List Ident} (h : newVariables names s = .ok es t) :
    Allots es s t ∧ t.decls = s.decls ∧ es.length = names.length := by
  induction names generalizing s es with
  | nil =>
    cases h
    exact ⟨.of_eq (Reports.refl _) rfl rfl, rfl, rfl⟩
  | cons name names ih =>
    obtain ⟨e, s₁, hnew, h⟩ := bind_eq_ok.mp h
    obtain ⟨es', s₂, hes, h⟩ := bind_eq_ok.mp h
    cases h
    obtain ⟨hallots, hdecls⟩ := allots_newEntity hnew
    obtain ⟨hrest, hdecls', hlength⟩ := ih hes
    exact ⟨hallots.trans hrest, hdecls'.trans hdecls, by simp [hlength]⟩

/-! ## The declarations of files -/

end Check

/-- The procedure that a statement declares, if it does. -/
def Stmt.ownProcs : Stmt → List ProcDecl
  | .decl (.proc d) => [d]
  | _ => []

/-- The procedures that files declare. -/
def fileProcs (files : List File) : List ProcDecl := files.flatMap fun file => file.decls.flatMap Stmt.ownProcs

namespace Check

theorem procsOf_of_keeps {decl : Decl} {name : Ident} {d : Declaration} (h : decl.Keeps scope name d) (e : EntityId) :
    procsOf [(e, d)] = (Stmt.decl decl).ownProcs := by
  cases h <;> rfl

theorem registered_step {r r' : Roll} {u : Pass} {K : Ident → Declaration → Prop} (h : Roll.Step scope K r t r' u)
    (ht : Allots r.made s t ∧ t.decls = r.kept ++ s.decls ∧ ∀ p ∈ r.kept, ∃ name, K name p.2) :
    Allots r'.made s u ∧ u.decls = r'.kept ++ s.decls ∧ ∀ p ∈ r'.kept, ∃ name, K name p.2 := by
  obtain ⟨hallots, hdecls, hkept⟩ := ht
  have hquiet {u : Pass} (hu : Lists [] t u) :
      Allots r.made s u ∧ u.decls = r.kept ++ s.decls ∧ ∀ p ∈ r.kept, ∃ name, K name p.2 :=
    ⟨by simpa using hallots.trans hu.toAllots, hu.decls.trans hdecls, hkept⟩
  cases h with
  | report token hp => exact hquiet ((moves_report hp).along t)
  | hoist id => exact hquiet (lists_hoist rfl)
  | make name d hnew =>
    obtain ⟨hnew, hsame⟩ := allots_newEntity hnew
    exact ⟨hallots.trans hnew, hsame.trans hdecls, hkept⟩
  | makeAll type values hnew =>
    obtain ⟨hnew, hsame, -⟩ := allots_newVariables hnew
    exact ⟨hallots.trans hnew, hsame.trans hdecls, hkept⟩
  | @await e h =>
    obtain ⟨name, -, hK⟩ := h.name
    have hawait := hallots.trans (.of_eq (.of_store_eq (Enters.await t (e, r.decl)) rfl) rfl rfl)
    exact ⟨by simpa using hawait, by simp [hdecls], List.forall_mem_cons.mpr ⟨⟨name, hK⟩, hkept⟩⟩
  | bind => exact hquiet (moves_bindIdent.along t)

/-- A declaration is entered for all entities that are made. -/
theorem registered_enters {α : Type} {decl : Decl} {ids : α → List EntityId} {x : Check α} {a : α}
    (hx : decl.Enters scope ids x) (h : x s = .ok a t) : Registered (ids a) (Stmt.decl decl).ownProcs s t := by
  obtain ⟨r, ⟨hallots, hdecls, hkept⟩, hmade, -, hperm⟩ := (hx.upholds registered_step s
    ⟨.of_eq (Reports.refl s) rfl rfl, rfl, by simp [Roll.blank]⟩).2 a t h
  refine ⟨r.kept, ⟨(hmade ▸ hallots).perm hperm.symm, hdecls⟩, ?_, hperm⟩
  have hprocs (p : EntityId × Declaration) (hp : p ∈ r.kept) : procsOf [p] = (Stmt.decl decl).ownProcs := by
    obtain ⟨name, hk⟩ := hkept p hp
    exact procsOf_of_keeps hk p.1
  cases hx with
  | proc d =>
    obtain ⟨p, hp⟩ := List.length_eq_one_iff.mp (by simpa using hperm.length_eq)
    rw [hp, hprocs p (by simp [hp])]
  | _ =>
    refine .of_eq (List.filterMap_eq_nil_iff.mpr fun p hp => ?_)
    simpa [procsOf, Stmt.ownProcs] using hprocs p hp

theorem registered_collectDecl {stmt : Stmt} (h : collectDecl scope stmt s = .ok es t) :
    Registered es stmt.ownProcs s t := by
  unfold collectDecl at h
  split at h
  case h_1 d => exact registered_enters (.vars d) h
  case h_2 d => exact registered_enters (.consts d) h
  case h_3 d =>
    obtain ⟨e, s₁, hdeclare, h⟩ := bind_eq_ok.mp h
    cases h
    exact (registered_enters (.type d) hdeclare :)
  case h_4 d =>
    obtain ⟨e, s₁, hdeclare, h⟩ := bind_eq_ok.mp h
    cases h
    exact (registered_enters (.proc d) hdeclare :)
  case h_5 =>
    cases h
    exact registered_nil (Reports.refl s)
  case h_6 _ _ _ hproc _ =>
    obtain ⟨_, s₁, hreport, h⟩ := bind_eq_ok.mp h
    cases h
    have hprocs : stmt.ownProcs = [] := by
      unfold Stmt.ownProcs
      split
      · exact absurd rfl (hproc _)
      · rfl
    rw [hprocs]
    exact registered_nil ((moves_report rfl).ok hreport)

theorem registered_collectDecls {stmts : List Stmt} (h : collectDecls scope stmts s = .ok es t) :
    Registered es (stmts.flatMap Stmt.ownProcs) s t := by
  induction stmts generalizing s es with
  | nil =>
    cases h
    exact registered_nil (Reports.refl _)
  | cons stmt rest ih =>
    obtain ⟨here, s₁, hhere, h⟩ := bind_eq_ok.mp h
    obtain ⟨there, s₂, hthere, h⟩ := bind_eq_ok.mp h
    cases h
    exact (registered_collectDecl hhere).trans (ih hthere)

/-! ## The files that are open -/

theorem isSome_lookup_map (files : List (String × ScopeId)) (path : String) (scope : ScopeId) (p : String) :
    ((files.map fun q => if q.1 == path then (path, scope) else q).lookup p).isSome = (files.lookup p).isSome := by
  induction files with
  | nil => rfl
  | cons q rest ih =>
    obtain ⟨name, f⟩ := q
    rw [List.map_cons]
    by_cases hname : name = path
    · subst hname
      rw [if_pos (by simp), List.lookup_cons, List.lookup_cons]
      split
      · rfl
      · exact ih
    · rw [if_neg (by simpa using hname), List.lookup_cons, List.lookup_cons]
      split
      · rfl
      · exact ih

theorem isSome_lookup_insertFile (files : List (String × ScopeId)) (path : String) (scope : ScopeId) :
    ((insertFile files path scope).lookup path).isSome ∧
      ∀ p, (files.lookup p).isSome → ((insertFile files path scope).lookup p).isSome := by
  unfold insertFile
  split
  case isTrue hsome =>
    refine ⟨?_, fun p hp => ?_⟩
    · rw [isSome_lookup_map]
      exact hsome
    · rw [isSome_lookup_map]
      exact hp
  case isFalse =>
    refine ⟨by simp [List.lookup_append], fun p hp => ?_⟩
    simp [List.lookup_append, hp]

end Check

/-- The files that are open stay. -/
def KeepsFiles (s t : Pass) : Prop := t.files = s.files

instance : Enters KeepsFiles where
  toBinds := .of_still (R := Pass.Grows) (fun _ hst => hst.files) (fun h h' => h'.trans h) fun _ _ _ _ => rfl
  newWaiting _ _ _ := rfl
  hoist _ _ := rfl
  await _ _ := rfl

namespace Check

theorem lookup_openFiles {files : List File} (h : openFiles files s = .ok () t) :
    (∀ file ∈ files, (t.files.lookup file.path).isSome) ∧ ∀ path, (s.files.lookup path).isSome →
    (t.files.lookup path).isSome := by
  induction files generalizing s with
  | nil =>
    cases h
    exact ⟨by simp, fun _ h => h⟩
  | cons file rest ih =>
    obtain ⟨hrest, hkept⟩ := ih (rest_of_ok rfl (rest_of_ok rfl h))
    obtain ⟨hown, hold⟩ := isSome_lookup_insertFile s.files file.path (s.store.openScope .global .file).1
    exact ⟨List.forall_mem_cons.mpr ⟨hkept _ hown, hrest⟩, fun path hpath => hkept _ (hold path hpath)⟩

/-- All procedures of files that are open are entered. -/
theorem registered_collectFiles {files : List File} (h : collectFiles files s = .ok es t)
    (hfiles : ∀ file ∈ files, (s.files.lookup file.path).isSome) : Registered es (fileProcs files) s t := by
  induction files generalizing s es with
  | nil =>
    cases h
    exact registered_nil (Reports.refl _)
  | cons file rest ih =>
    rw [List.forall_mem_cons] at hfiles
    replace h := rest_of_ok rfl h
    obtain ⟨scope, hscope⟩ := Option.isSome_iff_exists.mp hfiles.1
    rw [hscope] at h
    obtain ⟨here, s₁, hhere, h⟩ := bind_eq_ok.mp h
    obtain ⟨there, s₂, hthere, h⟩ := bind_eq_ok.mp h
    cases h
    have hkept : KeepsFiles s s₁ := moves_collectDecls.ok hhere
    refine (registered_collectDecls hhere).trans (ih hthere fun f hf => ?_)
    rw [hkept]
    exact hfiles.2 f hf

end Check

end Statics
