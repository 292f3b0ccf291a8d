import Mathlib.Data.List.Forall2
import Statics.Proofs.Validity.Programs

/-!
# All or nothing

`using` binds the members of an import or of an enum, or new variables for the fields of a record, in the scope where
it stands. It looks for a collision first and binds afterwards. The two passes over the members agree on what
collides, since binding a member changes no name and takes no name but its own: `Store.Gains` says what the bindings
add up to.
-/

namespace Statics

/-! ## Members and their names -/

namespace Arena

/-- What the name of a member stands for in a scope already. -/
def taken? (a : Arena) (scope : ScopeId) (m : EntityId) : Option EntityId :=
  if (a.entity m).name = discard then none else a.lookupLocal scope (a.entity m).name

/-- The members that have a name. -/
def named (a : Arena) (members : List EntityId) : List EntityId :=
  members.filter fun m => (a.entity m).name ≠ discard

theorem named_cons (a : Arena) (m : EntityId) (rest : List EntityId) :
    a.named (m :: rest) = a.named [m] ++ a.named rest := by
  rw [named, named, named, ← List.filter_append, List.singleton_append]

/-- No two members have the same name. -/
def Distinct (a : Arena) (members : List EntityId) : Prop := ((a.named members).map fun m => (a.entity m).name).Nodup

end Arena

/-! ## Bindings that are added -/

namespace Store

/-- A scope binds more names, after those that it bound before. Entities that are bound may get it as their home, and
nothing else changes. -/
structure Gains (s t : Store) (scope : ScopeId) (added : List (String × EntityId)) : Prop where
  bound : ∀ c, s.arena.scope? scope = some c →
    t.arena.scope? scope = some { c with bindings := ⟨c.bindings.entries ++ added⟩ }
  scopes : ∀ h, h ≠ scope → t.arena.scope? h = s.arena.scope? h
  types : ∀ u, t.arena.type? u = s.arena.type? u
  entities : ∀ e x, s.arena.entity? e = some x → t.arena.entity? e = some x ∨
    e ∈ added.map Prod.snd ∧ x.home = none ∧ t.arena.entity? e = some { x with home := some scope }
  id : t.current.id = s.current.id

/-- The bindings that are added are those of the members that have a name, in their order. -/
def Lists (s : Store) (Shown : EntityId → EntityId → Prop) (members : List EntityId)
    (added : List (String × EntityId)) : Prop :=
  List.Forall₂ (fun m p => p.1 = (s.arena.entity m).name ∧ Shown m p.2) (s.arena.named members) added

/-- A scope that may be written binds none of the names of some members. -/
structure Frees (s : Store) (scope : ScopeId) (members : List EntityId) : Prop where
  isLocal : scope.slab = s.current.id
  hasScope : s.arena.Has scope
  hasMembers : ∀ m ∈ members, s.arena.Has m
  distinct : s.arena.Distinct members
  free : ∀ m ∈ members, s.arena.taken? scope m = none

namespace Gains

variable {s t u : Store} {scope : ScopeId} {added added' : List (String × EntityId)} {e : EntityId}

theorem refl (s : Store) (scope : ScopeId) : s.Gains s scope [] := ⟨by simp, by simp, by simp, by simp, rfl⟩

section

variable (h : s.Gains t scope added)

include h

theorem trans (h' : t.Gains u scope added') : s.Gains u scope (added ++ added') where
  bound c hc := by simp [h'.bound _ (h.bound c hc)]
  scopes g hg := (h'.scopes g hg).trans (h.scopes g hg)
  types v := (h'.types v).trans (h.types v)
  entities e x hx := by
    rcases h.entities e x hx with hx | ⟨he, hhome, hx⟩
    · grind [h'.entities e x hx]
    · grind [h'.entities e _ hx]
  id := h'.id.trans h.id

/-- An entity stays as it was, but for its home. -/
theorem entity? {x : Entity} (hx : s.arena.entity? e = some x) :
    ∃ home, t.arena.entity? e = some { x with home := home } := by
  rcases h.entities e x hx with hx' | ⟨-, -, hx'⟩
  · exact ⟨x.home, hx'⟩
  · exact ⟨some scope, hx'⟩

theorem entity (he : s.arena.Has e) :
    t.arena.Has e ∧ ∃ home, t.arena.entity e = { s.arena.entity e with home := home } := by
  obtain ⟨x, hx⟩ := Option.isSome_iff_exists.mp he
  obtain ⟨home, hx'⟩ := h.entity? hx
  exact ⟨by simp [Arena.Has, hx'], home, by rw [Arena.entity_eq hx, Arena.entity_eq hx']⟩

theorem name (he : s.arena.Has e) : (t.arena.entity e).name = (s.arena.entity e).name := by
  obtain ⟨-, home, he⟩ := h.entity he
  rw [he]
  rfl

theorem named {members : List EntityId} (hmembers : ∀ m ∈ members, s.arena.Has m) :
    t.arena.named members = s.arena.named members :=
  List.filter_congr fun m hm => by rw [h.name (hmembers m hm)]

end

/-- Binding a member whose name is free. -/
theorem bind (hlocal : scope.slab = s.current.id) (hfree : s.arena.taken? scope e = none) :
    s.Gains (s.bind scope e).2 scope ((s.arena.named [e]).map fun m => ((s.arena.entity m).name, m)) := by
  by_cases hname : (s.arena.entity e).name = discard
  · have hstay : (s.bind scope e).2 = s := by grind [Store.bind_eq, Store.Takes]
    simpa [Arena.named, hname, hstay] using refl s scope
  · have htakes : s.Takes scope e := ⟨hname, by simpa [Arena.taken?, hname] using hfree, hlocal⟩
    have hnamed : s.arena.named [e] = [e] := by simp [Arena.named, hname]
    rw [hnamed]
    refine ⟨by grind [Bindings.insert], by grind, by grind, fun e' x hx => ?_, by grind⟩
    rw [Store.entity?_bind, hx]
    split
    case isTrue heq =>
      cases hhome : x.home with
      | none => exact .inr ⟨by simp [heq.2.2], rfl, by simp [hhome]⟩
      | some home => exact .inl (by rw [Option.map_some, hhome, Option.some_or, ← hhome])
    case isFalse => exact .inl rfl

/-- After the first member the names of the others are still free. -/
theorem frees {m : EntityId} {rest : List EntityId} {Shown : EntityId → EntityId → Prop} (h : s.Gains t scope added)
    (hlists : s.Lists Shown [m] added) (hfrees : s.Frees scope (m :: rest)) : t.Frees scope rest := by
  have hhas (m' : EntityId) (hm' : m' ∈ rest) : s.arena.Has m' := hfrees.hasMembers m' (List.mem_cons_of_mem m hm')
  have hdistinct := hfrees.distinct
  rw [Arena.Distinct, Arena.named_cons, List.map_append, List.nodup_append] at hdistinct
  refine ⟨hfrees.isLocal.trans h.id.symm, ?_, fun m' hm' => (h.entity (hhas m' hm')).1, ?_, fun m' hm' => ?_⟩
  · obtain ⟨c, hc⟩ := Option.isSome_iff_exists.mp hfrees.hasScope
    simp [Arena.Has, h.bound c hc]
  · rw [Arena.Distinct, h.named hhas, List.map_congr_left fun m' hm' => ?_]
    · exact hdistinct.2.1
    · exact h.name (hhas m' (List.mem_of_mem_filter hm'))
  · obtain ⟨c, hc⟩ := Option.isSome_iff_exists.mp hfrees.hasScope
    have hnew (p : String × EntityId) (hp : p ∈ added) (hname : (s.arena.entity m').name ≠ discard) :
        p.1 ≠ (s.arena.entity m').name := by
      have hm' : m' ∈ s.arena.named rest := List.mem_filter.mpr ⟨hm', by simpa using hname⟩
      have hm : m ∈ s.arena.named [m] ∧ p.1 = (s.arena.entity m).name := by
        by_cases hdiscard : (s.arena.entity m).name = discard
        · simp_all [Lists, Arena.named]
        · grind [Lists, Arena.named, List.forall₂_cons_left_iff, List.forall₂_nil_left_iff]
      rw [hm.2]
      exact hdistinct.2.2 _ (List.mem_map_of_mem hm.1) _ (List.mem_map_of_mem hm')
    have hfree := hfrees.free m' (List.mem_cons_of_mem m hm')
    grind [Arena.taken?, Arena.lookupLocal, Arena.scope_eq hc, Arena.scope_eq (h.bound c hc), h.name (hhas m' hm'),
      Bindings.get?, List.lookup_eq_none_iff]

end Gains

/-- What is shown for a member does not depend on what was bound before and after it. -/
def Stays (scope : ScopeId) (Shown : Store → Store → EntityId → EntityId → Prop) : Prop :=
  ∀ ⦃s t u w : Store⦄ ⦃added added' m e⦄, Shown t u m e → s.Gains t scope added → u.Gains w scope added' →
    s.arena.Has m → Shown s w m e

variable {s t u w : Store} {scope : ScopeId} {members : List EntityId} {added added' added'' : List (String × EntityId)}
  {Shown : Store → Store → EntityId → EntityId → Prop} {step : Store → EntityId → Store}

theorem Lists.between (hstays : Stays scope Shown) (h : t.Lists (Shown t u) members added)
    (hst : s.Gains t scope added') (huw : u.Gains w scope added'')
    (hhas : ∀ m ∈ members, s.arena.Has m) : s.Lists (Shown s w) members added := by
  rw [Lists, hst.named hhas] at h
  have hall : ∀ m ∈ s.arena.named members, s.arena.Has m := fun m hm => hhas m (List.mem_of_mem_filter hm)
  exact ((List.forall₂_and_left _ _).mpr ⟨hall, h⟩).imp fun m p ⟨hm, hname, hp⟩ =>
    ⟨hname.trans (hst.name hm), hstays hp hst huw hm⟩

/-- Members are bound in their order if all their names are free, when each of them is bound so. -/
theorem gains_foldl (hstays : Stays scope Shown)
    (hstep : ∀ {s : Store} {m}, scope.slab = s.current.id → s.arena.taken? scope m = none →
      ∃ added, s.Gains (step s m) scope added ∧ s.Lists (Shown s (step s m)) [m] added)
    (h : s.Frees scope members) :
    ∃ added, s.Gains (members.foldl step s) scope added ∧ s.Lists (Shown s (members.foldl step s)) members added := by
  induction members generalizing s with
  | nil => exact ⟨[], .refl s scope, .nil⟩
  | cons m rest ih =>
    obtain ⟨added, hfirst, hlists⟩ := hstep h.isLocal (h.free m List.mem_cons_self)
    obtain ⟨added', hrest, hlists'⟩ := ih (hfirst.frees hlists h)
    refine ⟨added ++ added', hfirst.trans hrest, ?_⟩
    rw [Lists, Arena.named_cons]
    refine List.rel_append (hlists.between hstays (.refl s scope) hrest fun m' hm' => ?_) ?_
    · exact h.hasMembers m' (List.mem_singleton.mp hm' ▸ List.mem_cons_self)
    · exact hlists'.between hstays hfirst (.refl _ scope) fun m' hm' => h.hasMembers m' (List.mem_cons_of_mem m hm')

end Store

namespace Check

variable {s : Pass} {scope : ScopeId} {owner : EntityId} {members fields : List EntityId}

theorem bindAll_eq : bindAll scope members s =
    .ok () { s with store := members.foldl (fun st m => (st.bind scope m).2) s.store } := by
  induction members generalizing s with
  | nil => rfl
  | cons m rest ih => exact ih

/-- Binds a new variable for one field. -/
def exposeField (scope : ScopeId) (owner : EntityId) (s : Store) (f : EntityId) : Store :=
  ((s.newEntity (exposedField owner (s.arena.entity f))).2.bind scope
    (s.newEntity (exposedField owner (s.arena.entity f))).1).2

theorem bindFields_eq : bindFields scope owner fields s =
    .ok () { s with store := fields.foldl (exposeField scope owner) s.store } := by
  induction fields generalizing s with
  | nil => rfl
  | cons f rest ih => exact ih

/-- An anonymous variable that stands for a field of another variable. -/
structure StandsFor (x : Entity) (owner : EntityId) (field : Entity) : Prop where
  type : ∀ u, field.type = some u → x.type = some u
  through : x.through = some owner
  kind : ∃ info, x.kind = .var info ∧ info.anonymous ∧ ∀ info', field.kind = .var info' →
    info.fieldIndex = info'.fieldIndex

/-- An entity is new, and a variable that stands for a field. -/
def Shows (owner : EntityId) (s t : Store) (f e : EntityId) : Prop :=
  s.arena.entity? e = none ∧ ∃ x, t.arena.entity? e = some x ∧ StandsFor x owner (s.arena.entity f)

theorem stays_shows : Store.Stays scope (Shows owner) := by
  intro s t u w added added' f e ⟨hnew, x, hx, hstands⟩ hst huw hf
  obtain ⟨-, home, hfield⟩ := hst.entity hf
  obtain ⟨home', hx'⟩ := huw.entity? hx
  rw [hfield] at hstands
  refine ⟨?_, _, hx', hstands.type, hstands.through, hstands.kind⟩
  by_contra hold
  have hhas := (hst.entity (Option.isSome_iff_ne_none.mpr hold)).1
  simp [Arena.Has, hnew] at hhas

theorem gains_exposeField {s : Store} {f : EntityId} (hlocal : scope.slab = s.current.id)
    (hfree : s.arena.taken? scope f = none) : ∃ added, s.Gains (exposeField scope owner s f) scope added ∧
      s.Lists (Shows owner s (exposeField scope owner s f)) [f] added := by
  unfold exposeField
  generalize hx : exposedField owner (s.arena.entity f) = x
  have hname : x.name = (s.arena.entity f).name := hx ▸ rfl
  have hnew : s.Gains (s.newEntity x).2 scope [] := ⟨by simp, by simp, by simp, by grind, rfl⟩
  have hentity : (s.newEntity x).2.arena.entity (s.newEntity x).1 = x := Arena.entity_eq (by grind)
  have hlookup (name : String) : (s.newEntity x).2.arena.lookupLocal scope name = s.arena.lookupLocal scope name := by
    simp [Arena.lookupLocal, Arena.scope]
  have hbind : (s.newEntity x).2.Gains _ scope _ := .bind (e := (s.newEntity x).1) hlocal (by
    simpa [Arena.taken?, hentity, hname, hlookup] using hfree)
  refine ⟨_, hnew.trans hbind, ?_⟩
  by_cases hdiscard : (s.arena.entity f).name = discard
  · simp [Store.Lists, Arena.named, hentity, hname, hdiscard]
  · have htakes : (s.newEntity x).2.Takes scope (s.newEntity x).1 := by grind [Store.Takes, Arena.taken?]
    have hread : ((s.newEntity x).2.bind scope (s.newEntity x).1).2.arena.entity? (s.newEntity x).1 =
        some { x with home := x.home.or (some scope) } := by grind [Store.newEntity]
    have hstands : StandsFor { x with home := x.home.or (some scope) } owner (s.arena.entity f) := by
      subst hx
      refine ⟨fun u hu => by simp [exposedField, Entity.typed, hu], rfl, ⟨_, rfl, rfl, fun info hinfo => ?_⟩⟩
      simp [Entity.var?, hinfo]
    have hshows : Shows owner s _ f _ := ⟨s.entity?_fresh x, _, hread, hstands⟩
    simpa [Store.Lists, Arena.named, hentity, hname, hdiscard] using hshows

/-! ## All or none -/

/-- Either no name of a member is taken, and then all members that have a name are bound in order; or one is, and then
the first of them is reported and nothing else changes. -/
inductive AllOrNone (s : Pass) (scope : ScopeId) (source : String) (token : Token) (members : List EntityId)
    (Shown : Store → Store → EntityId → EntityId → Prop) : EStateM.Result TooManyErrors Pass Unit → Prop where
  | all {t : Store} {added : List (String × EntityId)} (hfree : ∀ m ∈ members, s.store.arena.taken? scope m = none)
    (hgains : s.store.Gains t scope added) (hlists : s.store.Lists (Shown s.store t) members added) :
    AllOrNone s scope source token members Shown (.ok () { s with store := t })
  | none {before rest : List EntityId} {m previous : EntityId} {r : EStateM.Result TooManyErrors Pass Unit}
    (hmembers : members = before ++ m :: rest) (hbefore : ∀ m' ∈ before, s.store.arena.taken? scope m' = none)
    (hm : s.store.arena.taken? scope m = some previous)
    (hstate : stateOf r = { s with collector := (stateOf r).collector })
    (hlog : (s.logged (stateOf r)).map LogEntry.diagnostic =
      [(Problem.usingCollision source (s.store.arena.entity m).name
      (s.store.arena.entity previous).token.pos).error token]) : AllOrNone s scope source token members Shown r

theorem stateOf_report (hroom : ¬ s.collector.isFatal) (token : Token) (p : Problem) :
    stateOf (report token p s) = { s with collector :=
      { s.collector with
        count := s.collector.count + 1
        last := some (p.error token).pos
        log := s.collector.log ++ [⟨p.error token, s.collector.last != some (p.error token).pos⟩] } } := by
  simp only [report, emit, Collector.report, hroom]
  split <;> grind [stateOf]

/-- What binds members one by one after a look for collisions binds all or none. -/
theorem allOrNone_foldl {Shown : Store → Store → EntityId → EntityId → Prop} {step : Store → EntityId → Store}
    (hroom : ¬ s.collector.isFatal) (hlocal : scope.slab = s.store.current.id) (hscope : s.store.arena.Has scope)
    (hmembers : ∀ m ∈ members, s.store.arena.Has m) (hdistinct : s.store.arena.Distinct members)
    (hstays : Store.Stays scope Shown)
    (hstep : ∀ {s : Store} {m}, scope.slab = s.current.id → s.arena.taken? scope m = none →
      ∃ added, s.Gains (step s m) scope added ∧ s.Lists (Shown s (step s m)) [m] added) {x : Check Unit}
    (hx : x s = .ok () { s with store := members.foldl step s.store }) (source : String) (token : Token) :
    AllOrNone s scope source token members Shown ((match collision? s.store.arena scope members with
      | some (name, previous) => report token (.usingCollision source name (s.store.arena.entity previous).token.pos)
      | none => x) s) := by
  have htaken (m : EntityId) : (if ((s.store.arena.entity m).name == discard) = true then none else
      (s.store.arena.lookupLocal scope (s.store.arena.entity m).name).map fun previous =>
        ((s.store.arena.entity m).name, previous)) =
      (s.store.arena.taken? scope m).map fun previous => ((s.store.arena.entity m).name, previous) := by
    grind [Arena.taken?]
  cases hcollision : collision? s.store.arena scope members with
  | some p =>
    simp only [collision?, htaken] at hcollision
    obtain ⟨before, m, rest, hsplit, hm, hbefore⟩ := List.findSome?_eq_some_iff.mp hcollision
    obtain ⟨previous, hprevious, rfl⟩ := Option.map_eq_some_iff.mp hm
    refine .none hsplit (fun m' hm' => by simpa using hbefore m' hm') hprevious ?_ ?_ <;> rw [stateOf_report hroom]
    simp [Pass.logged]
  | none =>
    have hfree : ∀ m ∈ members, s.store.arena.taken? scope m = none := by
      simp only [collision?, htaken] at hcollision
      simpa using hcollision
    obtain ⟨added, hgains, hlists⟩ := Store.gains_foldl hstays hstep ⟨hlocal, hscope, hmembers, hdistinct, hfree⟩
    show AllOrNone _ _ _ _ _ _ (x s)
    rw [hx]
    exact .all hfree hgains hlists

end Check

open Check in
/-- In every state of a check, `using` binds all members that have a name in a scope of the pass, or none: the members
of an import or of an enum themselves, and new variables for the fields of a record. -/
theorem using_all_or_nothing (config : Config) (files : List File) : Program.Throughout config files fun s =>
    ¬ s.collector.isFatal → ∀ scope : ScopeId, scope.slab = s.store.current.id → s.store.arena.Has scope →
      (∀ source token members,
        ((∃ h, members = (s.store.arena.scope h).bindings.entities) ∨ ∃ t, s.store.arena.members? t = some members) →
          s.store.arena.Distinct members →
            AllOrNone s scope source token members (fun _ _ m e => e = m)
              (exposeMembers scope source token members s)) ∧
      ∀ owner token fields,
        s.store.arena.fields? (s.store.arena.pointee ((s.store.arena.entity owner).type.getD .invalid)) = some fields →
          s.store.arena.Distinct fields →
            AllOrNone s scope (s.store.arena.entity owner).name token fields (Shows owner)
              (exposeVariable scope owner token s) := by
  refine (Program.throughout_valid config files).imp fun s hs hroom scope hlocal hscope => ⟨?_, ?_⟩
  · intro source token members hsource hdistinct
    have hmembers : ∀ m ∈ members, s.store.arena.Has m := by
      rcases hsource with ⟨h, rfl⟩ | ⟨t, hmembers⟩
      · exact fun m hm => hs.intact.has_of_bound hm
      · exact fun m hm => hs.intact.has_of_members? hmembers hm
    have hstays : Store.Stays scope fun _ _ m e => e = m := fun _ _ _ _ _ _ _ _ h _ _ _ => h
    exact allOrNone_foldl hroom hlocal hscope hmembers hdistinct hstays
      (fun hlocal hfree => ⟨_, .bind hlocal hfree, by simp [Store.Lists]⟩) bindAll_eq source token
  · intro owner token fields hfields hdistinct
    have hbasics : s.store.arena.HasBasics := hs.intact.basics
    have hvalid := hbasics.isInvalid_eq_false
      (t := s.store.arena.pointee ((s.store.arena.entity owner).type.getD .invalid)) fun hbase => by
        simp [Arena.fields?, hbase] at hfields
    unfold exposeVariable
    have hread (f : Arena → Check Unit) : (arena >>= f) s = f s.store.arena s := rfl
    simp only [hread, hvalid, hfields, Bool.false_eq_true, if_false]
    exact allOrNone_foldl hroom hlocal hscope (fun f hf => (hs.intact.isField_of_fields? hfields hf).has) hdistinct
      stays_shows gains_exposeField bindFields_eq _ token

end Statics
