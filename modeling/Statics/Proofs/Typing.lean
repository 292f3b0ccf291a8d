import Statics.Proofs.Validity.Programs

/-!
# What has which type

Two things hold in every state of a program. Untyped types and tuples are types of operands alone: nothing but the
truth values and `nil` is declared with one, and no other type is built from one
(`untyped_types_stay_in_expressions`). And a constant has a value of the sort and in the range of its type, whether it
is an operand, is remembered for an expression or was declared (`constants_well_typed`).
-/

namespace Statics

/-! ## Types that others are built from -/

namespace Arena

variable {a b : Arena} {τ : Ty} {v : View}

/-- The types that a type is built from: that of what it points to or consists of, those of its fields, members,
parameters and results, and the base of a name or an enum. -/
def constituents (a : Arena) : Ty → List TypeId
  | .basic _ => []
  | .named _ base _ => base.toList
  | .pointer t | .array _ t | .slice t => [t]
  | .record _ fields => fields.filterMap fun f => (a.entity f).type
  | .enum base members => base :: members.filterMap fun m => (a.entity m).type
  | .tuple items => items
  | .proc params results => params ++ results

/-- The types of fields are settled. -/
theorem settled_of_isField (hv : v.Intact) {fields : List EntityId} (hfields : ∀ f ∈ fields, v.IsField f) {t : TypeId}
    (ht : t ∈ fields.filterMap fun f => (v.arena.entity f).type) : v.Settled t := by
  obtain ⟨f, hf, htype⟩ := List.mem_filterMap.mp ht
  obtain ⟨x, hx⟩ := Option.isSome_iff_exists.mp (hfields f hf).has
  rw [entity, show v.arena.entity? f = some x from hx, Option.getD_some] at htype
  exact (hv.entities f x hx).type t htype (hfields f hf).not_literal

/-- Valid types are built from settled ones. -/
theorem settled_of_mem_constituents (hv : v.Intact) (hτ : τ.Valid v) {t : TypeId} (ht : t ∈ v.arena.constituents τ) :
    v.Settled t := by
  cases τ with
  | basic => cases ht
  | named _ base =>
    obtain ⟨σ, hσ, hsettled, -⟩ := hτ.2 t (Option.mem_toList.mp ht)
    exact ⟨σ, hσ, hsettled⟩
  | pointer u => exact List.mem_singleton.mp ht ▸ hτ
  | array _ u => exact List.mem_singleton.mp ht ▸ hτ
  | slice u => exact List.mem_singleton.mp ht ▸ hτ
  | record _ fields => exact settled_of_isField hv hτ ht
  | enum base members =>
    rcases List.mem_cons.mp ht with rfl | ht
    · exact hτ.1
    · exact settled_of_isField hv hτ.2 ht
  | tuple items => exact hτ t ht
  | proc params results =>
    rcases List.mem_append.mp ht with ht | ht
    · exact hτ.1 t ht
    · exact hτ.2 t ht

/-- What a valid type is built from stays when slabs grow, since its fields have their types. -/
theorem constituents_extend (hτ : τ.Valid v) (hext : v.arena.Extends b) :
    b.constituents τ = v.arena.constituents τ := by
  have hfields {fields : List EntityId} (h : ∀ f ∈ fields, v.IsField f) :
      (fields.filterMap fun f => (b.entity f).type) = fields.filterMap fun f => (v.arena.entity f).type := by
    refine List.filterMap_congr fun f hf => ?_
    obtain ⟨t, ht⟩ := Option.isSome_iff_exists.mp (h f hf).typed
    rw [ht, hext.entity_type ht]
  cases τ with
  | record _ fields => exact hfields hτ
  | enum base members => exact congrArg (base :: ·) (hfields hτ.2)
  | _ => rfl

/-- Only the truth values and `nil` have untyped types, nothing has a tuple as its type, and no type is built from
such a one. -/
structure KeepsSettled (a : Arena) : Prop where
  entities : ∀ e x t, a.entity? e = some x → x.type = some t → e ∉ Universe.literals → a.Settled t
  constituents : ∀ u τ, a.type? u = some τ → ∀ t ∈ a.constituents τ, a.Settled t

end Arena

theorem View.Intact.keepsSettled {v : View} (hv : v.Intact) : v.arena.KeepsSettled :=
  ⟨fun e x t hx ht he => (hv.entities e x hx).type t ht he,
    fun u τ hτ _ ht => Arena.settled_of_mem_constituents hv (hv.types u τ hτ) ht⟩

theorem Program.Merges.keepsSettled {config : Config} {files : List File} {passes : List Pass} {p : Program}
    (h : Merges config files passes p) : p.arena.KeepsSettled := by
  have hvalid := h.holds_ends (throughout_valid config files)
  refine ⟨fun e y t hy ht he => ?_, fun u τ hτ t ht => ?_⟩
  · obtain ⟨s, hs, x, hx, hxy⟩ := h.exists_entity hy
    have htype : x.type = some t := by
      rcases hxy with rfl | rfl
      · exact ht
      · exact ht
    exact ((hvalid s hs).intact.keepsSettled.entities e x t hx htype he).extend (h.extends_ends hs)
  · obtain ⟨s, hs, hread⟩ := h.exists_type hτ
    have hintact := (hvalid s hs).intact
    rw [Arena.constituents_extend (v := s.view) (hintact.types u τ hread) (h.extends_ends hs)] at ht
    exact (hintact.keepsSettled.constituents u τ hread t ht).extend (h.extends_ends hs)

/-- In every state of a check, only the truth values and `nil` are declared with an untyped type, nothing is declared
with a tuple, and no type is built from an untyped one or a tuple. -/
theorem untyped_types_stay_in_expressions (config : Config) (files : List File) :
    Program.Throughout config files (fun s => s.store.arena.KeepsSettled) ∧
      (∀ n, (Program.stage config files n).arena.KeepsSettled) ∧ (checkFiles config files).arena.KeepsSettled := by
  refine ⟨(Program.throughout_valid config files).imp fun s hs => hs.intact.keepsSettled, fun n => ?_, ?_⟩
  · obtain ⟨passes, hmerges⟩ := Program.merges_stage config files n
    exact hmerges.keepsSettled
  · obtain ⟨passes, hmerges⟩ := Program.merges_checkFiles config files
    exact hmerges.keepsSettled

/-! ## Constants -/

/-- A value is one that constants of a type can have: of the sort of its kind and in its range, and for an enum an
integer. -/
structure Arena.TypesConstant (a : Arena) (t : TypeId) (v : Constant) : Prop where
  integer : ∀ k, a.kind? t = some k → k.isInteger → ∃ i : Int128, v = .int i ∧ k.holds i.toInt
  float : ∀ k, a.kind? t = some k → k.isFloat → ∃ x, v = .float x
  boolean : ∀ k, a.kind? t = some k → k.isBoolean → ∃ x, v = .bool x
  string : ∀ k, a.kind? t = some k → k.isString → ∃ x, v = .str x
  enum : ∀ base members, a.base t = .enum base members → ∃ i : Int128, v = .int i

/-- Exactly the constants have a value, and it is one of their type. -/
def Note.TypedIn (a : Arena) (n : Note) : Prop :=
  (n.mode = .constant ↔ n.constant?.isSome) ∧ ∀ v, n.constant? = some v → a.TypesConstant n.type v

namespace Constant.Fits

attribute [local simp] Kind.isBoolean Kind.isInteger Kind.isFloat Kind.isString

variable {k : Kind} {v : Constant} (h : v.Fits k)

include h

theorem integer (hk : k.isInteger) : ∃ i : Int128, v = .int i ∧ k.holds i.toInt := by
  cases v with
  | int i => exact ⟨i, rfl, h.2⟩
  | bool x => cases k <;> simp [Fits] at h hk
  | float x => cases k <;> simp [Fits] at h hk
  | str x => cases k <;> simp [Fits] at h hk

theorem float (hk : k.isFloat) : ∃ x, v = .float x := by
  cases v with
  | float x => exact ⟨x, rfl⟩
  | int i =>
    have hint := h.1
    cases k <;> simp at hint hk
  | bool x => cases k <;> simp [Fits] at h hk
  | str x => cases k <;> simp [Fits] at h hk

theorem boolean (hk : k.isBoolean) : ∃ x, v = .bool x := by
  cases v with
  | bool x => exact ⟨x, rfl⟩
  | int i =>
    have hint := h.1
    cases k <;> simp at hint hk
  | float x => cases k <;> simp [Fits] at h hk
  | str x => cases k <;> simp [Fits] at h hk

theorem string (hk : k.isString) : ∃ x, v = .str x := by
  cases v with
  | str x => exact ⟨x, rfl⟩
  | int i =>
    have hint := h.1
    cases k <;> simp at hint hk
  | float x => cases k <;> simp [Fits] at h hk
  | bool x => cases k <;> simp [Fits] at h hk

end Constant.Fits

theorem Arena.Suits.typesConstant {a : Arena} {t : TypeId} {v : Constant} (h : a.Suits t v) : a.TypesConstant t v := by
  have hkind {k : Kind} (hk : a.kind? t = some k) : v.Fits k := by
    rw [Suits] at h
    rw [kind?] at hk
    split at hk
    · cases hk
      simpa only [*] using h
    · cases hk
  refine ⟨fun k hk => (hkind hk).integer, fun k hk => (hkind hk).float, fun k hk => (hkind hk).boolean,
    fun k hk => (hkind hk).string, fun base members hbase => ?_⟩
  rw [Suits, hbase] at h
  exact h

theorem Note.Valid.typedIn {v : View} {n : Note} (h : n.Valid v) : n.TypedIn v.arena :=
  ⟨h.constant, fun c hc => (h.suits c hc).fits.typesConstant⟩

/-- A constant that was declared has a value of its type. -/
def Arena.TypesDeclared (a : Arena) : Prop :=
  ∀ e x v, a.entity? e = some x → x.kind = .constant (some v) → ∃ t, x.type = some t ∧ a.TypesConstant t v

namespace Check

variable {s t : Pass} {ctx : Context}

theorem Delivers.typedIn {x : Check Operand} (h : Delivers s x) (hs : s.Valid) {y : Operand} (hrun : x s = .ok y t) :
    y.note.TypedIn t.store.arena :=
  ((h hs).2 y t hrun).typedIn

end Check

open Check in
/-- Constants are well typed in a state: those that are remembered, those that were declared, and those that evaluating,
combining, converting or assigning operands gives from there. -/
structure Pass.TypesConstants (s : Pass) : Prop where
  noted : ∀ p ∈ s.notes.types.entries, p.2.TypedIn s.store.arena
  declared : s.store.arena.TypesDeclared
  evaluated : ∀ resolve, resolve = demand ∨ (∃ pending ⊆ s.decls, resolve = demandFrom pending) → ∀ ctx, ctx.Valid s →
    ∀ e x t, expr resolve ctx .value e s = .ok x t → x.note.TypedIn t.store.arena
  combined : ∀ token op x y id, x.Valid s → y.Valid s → ∀ z t, binary token op x y id s = .ok z t →
    z.note.TypedIn t.store.arena
  converted : ∀ x target token, x.Valid s → s.view.Has target → ∀ z t, convertUntyped x target token s = .ok z t →
    z.note.TypedIn t.store.arena
  assigned : ∀ x e place purpose, x.Valid s → (∀ u, place = some u → s.view.Has u) → ∀ z t,
    assign x e place purpose s = .ok z t → z.note.TypedIn t.store.arena

theorem View.Intact.typesDeclared {v : View} (hv : v.Intact) : v.arena.TypesDeclared := by
  intro e x c hx hc
  obtain ⟨t, ht, hsuits⟩ := (hv.entities e x hx).value c hc
  exact ⟨t, ht, hsuits.fits.typesConstant⟩

theorem Pass.Valid.typesConstants {s : Pass} (hs : s.Valid) : s.TypesConstants where
  noted p hp := (hs.noted p hp).typedIn
  declared := hs.intact.typesDeclared
  evaluated resolve hresolve _ hctx e _ _ hrun :=
    ((Check.checks_expr resolve e).value (Check.answers_resolver hresolve) hctx).typedIn hs hrun
  combined _ _ _ _ _ hx hy _ _ hrun := (Check.delivers_binary hx hy).typedIn hs hrun
  converted _ _ _ hx ht _ _ hrun := (Check.delivers_convertUntyped hx ht).typedIn hs hrun
  assigned _ _ _ _ hx hplace _ _ hrun :=
    Check.Delivers.typedIn ((Check.yields_assign hx hplace).imp fun _ _ _ h => h.1) hs hrun

theorem Program.Merges.typesConstants {config : Config} {files : List File} {passes : List Pass} {p : Program}
    (h : Merges config files passes p) :
    p.arena.TypesDeclared ∧ ∀ q ∈ p.notes.types.entries, q.2.TypedIn p.arena := by
  have hvalid := h.holds_ends (throughout_valid config files)
  refine ⟨fun e y v hy hv => ?_, fun q hq => ?_⟩
  · obtain ⟨s, hs, x, hx, hxy⟩ := h.exists_entity hy
    have hsame : y.kind = x.kind ∧ y.type = x.type := by
      rcases hxy with rfl | rfl
      · exact ⟨rfl, rfl⟩
      · exact ⟨rfl, rfl⟩
    obtain ⟨t, ht, hsuits⟩ := ((hvalid s hs).intact.entities e x hx).value v (hsame.1 ▸ hv)
    exact ⟨t, hsame.2.trans ht, ((hvalid s hs).intact.suits_extend (h.extends_ends hs) hsuits.fits).typesConstant⟩
  · obtain ⟨s, hs, hmem⟩ := h.exists_entry Annotations.types (fun _ _ => rfl) hq
    have hnote := (hvalid s hs).noted q hmem
    refine ⟨hnote.constant, fun c hc => ?_⟩
    exact ((hvalid s hs).intact.suits_extend (h.extends_ends hs) (hnote.suits c hc).fits).typesConstant

/-- Exactly the constants have values, of the sort and in the range of their types: in every valid state, and so on
the way through every check and in what its passes are put together to. -/
theorem constants_well_typed (config : Config) (files : List File) :
    (∀ s : Pass, s.Valid → s.TypesConstants) ∧ Program.Throughout config files Pass.TypesConstants ∧
      (∀ n, (Program.stage config files n).arena.TypesDeclared ∧
        ∀ q ∈ (Program.stage config files n).notes.types.entries, q.2.TypedIn (Program.stage config files n).arena) ∧
      (checkFiles config files).arena.TypesDeclared ∧
        ∀ q ∈ (checkFiles config files).notes.types.entries, q.2.TypedIn (checkFiles config files).arena := by
  refine ⟨fun s hs => hs.typesConstants, (Program.throughout_valid config files).imp fun s hs => hs.typesConstants,
    fun n => ?_, ?_⟩
  · obtain ⟨passes, hmerges⟩ := Program.merges_stage config files n
    exact hmerges.typesConstants
  · obtain ⟨passes, hmerges⟩ := Program.merges_checkFiles config files
    exact hmerges.typesConstants

end Statics
