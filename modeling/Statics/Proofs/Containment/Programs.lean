import Statics.Proofs.Completion.Programs

/-!
# Containment in accepted programs

The universe has a layout, every clean pass keeps it, and the arena of an accepted program has what its passes have.
So its types are ordered, and containment is acyclic unless a type was completed inside the declaration of another one
that it leads back from.
-/

namespace Statics

variable {id : Nat} {config : Config}

/-! ## Clean passes -/

namespace Program.Runs

variable {config : Config} {files : List File} {s : Pass} {passes : List Pass}

theorem atRest (h : Runs config files s passes) : s.AtRest := by
  have hmoves : Check.Moves (Keeps Pass.AtRest) (Check.fileLevel config files) := Check.moves_fileLevel config files
  refine hmoves.clean h.fileLevel ⟨?_, ?_, ?_, List.nil_subset _, fun _ h => h.elim, ?_⟩
  · simp [Pass.HasRoom, Pass.start, Collector.empty, Collector.isFatal]
  · simp [Store.Stacked, Pass.start, Universe.store_slabs.1]
  · simp [Pass.Declared, Pass.start]
  · simpa only [Pass.start] using Universe.layout

end Program.Runs

/-- A slab without types may be put on top. -/
theorem Arena.Layout.empty {slabs : List Slab} (h : Arena.Layout ⟨slabs⟩ [] 0) (hid : ∀ slab ∈ slabs, slab.id < id) :
    (Store.arena ⟨.empty id, slabs⟩).Layout [] 0 :=
  h.light (.of_eq (Store.type?_empty hid) (Store.entity?_empty hid))

theorem CleanJob.atRest {frozen : List Slab} {b : Body} {s : Pass} (h : CleanJob config frozen id b s)
    (hl : Arena.Layout ⟨frozen⟩ [] 0) (hid : ∀ slab ∈ frozen, slab.id < id) : s.AtRest := by
  obtain ⟨links, collector, hcount, hclean⟩ := h
  have hmoves : Check.Moves (Keeps Pass.AtRest) (Check.bodyAndNested config b) := Check.moves_bodyAndNested config b
  refine hmoves.clean hclean ⟨?_, hid, ?_, List.nil_subset _, fun _ h => h.elim, hl.empty hid⟩
  · simp [Pass.HasRoom, Pass.start, Collector.isFatal, hcount]
  · simp [Pass.Declared, Pass.start]

/-! ## The order of types -/

/-- What is put together from arenas with a layout is ordered. -/
theorem Arena.Gathers.ordered {b : Arena} {arenas : List Arena} (h : b.Gathers arenas)
    (hl : ∀ a ∈ arenas, a.Layout [] 0) : b.Ordered where
  bases {t base} hb := by
    obtain ⟨a, ha, hsome⟩ := h.types hb.isName.isSome
    have hx := h.toExtends a ha
    rw [hx.hasBase_iff hsome] at hb
    have hbase := ((hl a ha).types t hsome).bases hb
    rw [hx.isName_iff hbase.1]
    exact hbase.2
  before {base t base'} hn hholds hb hp := by
    obtain ⟨a, ha, hsome⟩ := h.types hholds.isSome
    have hx := h.toExtends a ha
    have hlayout := hl a ha
    rw [hlayout.toClosed.holds_iff hx hsome] at hholds
    rw [hx.isName_iff hsome] at hn
    rw [hx.hasBase_iff hholds.isName.isSome] at hb
    rw [hlayout.toClosed.parts_eq hx ((hlayout.types t hholds.isName.isSome).bases hb).1] at hp
    exact ((hlayout.types base hsome).closed hn hholds hb hp).imp_right
      fun ⟨hbefore, p, hpi, hpb⟩ => ⟨hbefore, p, hx.isIndirect hpi, hpb⟩

theorem Program.Accepted.ordered {files : List File} (h : (checkFiles config files).Accepted) :
    (checkFiles config files).arena.Ordered := by
  obtain ⟨s, passes, hruns⟩ := h.runs
  have hrest : ∀ r ∈ s :: passes, r.AtRest := List.forall_mem_cons.mpr
    ⟨hruns.atRest, hruns.forall_jobs fun _ _ _ hid _ job => job.atRest hruns.atRest.layout hid⟩
  obtain ⟨rfl, hmerges⟩ := hruns.merges
  refine hmerges.gathers.ordered fun a ha => ?_
  obtain ⟨r, hr, rfl⟩ := List.mem_map.mp ha
  exact (hrest r hr).layout

open Relation in
/-- In an accepted program, named types do not contain themselves by value, exactly if no type leads to one that was
completed inside its own declaration, behind a pointer or slice. -/
theorem accepted_containment_acyclic_iff {config : Config} {files : List File}
    (h : (checkFiles config files).Accepted) :
    (∀ t, ¬ TransGen (checkFiles config files).arena.Contains t t) ↔
      ∀ u t, (checkFiles config files).arena.CompletedInside u t →
        ¬ TransGen (checkFiles config files).arena.Contains t u :=
  h.ordered.acyclic_iff

/-! Two records that hold one another. The first also has a pointer to the second in front, so the second is completed
inside it. -/

namespace PointerFirst

open Builder in
/-- The declarations `type A struct {p: ^B, q: B}` and `type B struct {a: A}`. -/
def decls : Build (List Stmt) := do
  let p ← field ["p"] (← pointer (← name "B")) false
  let q ← field ["q"] (← name "B") false
  let first ← typeDecl "A" (← record .struct [p, q])
  let a ← field ["a"] (← name "A") false
  let second ← typeDecl "B" (← record .struct [a])
  return [first, second]

/-- One file with these declarations. -/
def files : List File := Builder.single decls

/-- The program is accepted, and each name stands for a record that has the other name among its parts. -/
theorem spec : (checkFiles .standard files).Accepted ∧
      (checkFiles .standard files).arena.type ⟨0, 23⟩ = .named "A" (some ⟨0, 27⟩) ⟨0, 29⟩ ∧
      (checkFiles .standard files).arena.type ⟨0, 24⟩ = .named "B" (some ⟨0, 25⟩) ⟨0, 30⟩ ∧
      ⟨0, 24⟩ ∈ (checkFiles .standard files).arena.parts ⟨0, 27⟩ ∧
      ⟨0, 23⟩ ∈ (checkFiles .standard files).arena.parts ⟨0, 25⟩ := by
  decide +kernel

theorem accepted : (checkFiles .standard files).Accepted := spec.1

open Relation in
/-- The first record contains itself. -/
theorem cycle : TransGen (checkFiles .standard files).arena.Contains ⟨0, 23⟩ ⟨0, 23⟩ := by
  obtain ⟨-, hfirst, hsecond, hq, ha⟩ := spec
  exact .tail (.single ⟨_, ⟨_, _, hfirst⟩, .part hq (.self hsecond)⟩) ⟨_, ⟨_, _, hsecond⟩, .part ha (.self hfirst)⟩

end PointerFirst

open Relation in
theorem accepted_containment_acyclic_iff_pointer_first :
    (checkFiles .standard PointerFirst.files).Accepted ∧
      ¬ ∀ u t, (checkFiles .standard PointerFirst.files).arena.CompletedInside u t →
        ¬ TransGen (checkFiles .standard PointerFirst.files).arena.Contains t u :=
  ⟨PointerFirst.accepted, fun h =>
    (accepted_containment_acyclic_iff PointerFirst.accepted).mpr h _ PointerFirst.cycle⟩

open Relation in
/-- A program is accepted although a named type in it contains itself by value. -/
theorem accepted_type_contains_itself :
    (checkFiles .standard PointerFirst.files).Accepted ∧
      ∃ t, TransGen (checkFiles .standard PointerFirst.files).arena.Contains t t :=
  ⟨PointerFirst.accepted, _, PointerFirst.cycle⟩

/-- Whether a file is accepted depends on the order of its declarations: two records that hold one another are let
through if the one with the pointer in front comes first, and are a cycle if it comes second. -/
theorem acceptance_depends_on_order :
    ∃ decls decls' : List Stmt, decls.Perm decls' ∧ (checkFiles .standard [⟨"m", decls⟩]).Accepted ∧
      (checkFiles .standard [⟨"m", decls'⟩]).stop = none ∧ ¬ (checkFiles .standard [⟨"m", decls'⟩]).Accepted :=
  ⟨(PointerFirst.decls (.start "m")).1, (PointerFirst.decls (.start "m")).1.reverse, (List.reverse_perm _).symm,
    by decide +kernel⟩

end Statics
