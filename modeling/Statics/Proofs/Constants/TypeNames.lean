import Statics.Proofs.Constants.Programs

/-!
# Type names of accepted programs

In an accepted program each type name stands for a name of its own, and that name has a base which is no name again.
The base is a real type wherever the type expression builds one. Where the expression refers to another type instead,
the base may be invalid without a report. Then the notes tell why: the expression was noted with a type that is
invalid, or with one that had no base yet, as its own type expression was noted no earlier.
-/

namespace Statics

/-- In an accepted program every declared type name stands for a name with a base, which is no name itself. The base is
invalid only if the type expression was left open. -/
theorem accepted_type_names_resolved_unless_open {config : Config} {files : List File}
    (h : (checkFiles config files).Accepted) (e : EntityId) (x : Entity)
    (hx : (checkFiles config files).arena.entity? e = some x) (hk : x.kind = .typeName) (hd : x.ident.isSome) :
    ∃ t name base, x.type = some t ∧ (checkFiles config files).arena.type? t = some (.named name (some base) e) ∧
      (checkFiles config files).arena.IsProper base ∧
      ((checkFiles config files).arena.type? base = some (.basic .invalid) →
        LeftOpen files (checkFiles config files).arena (checkFiles config files).notes [] x) := by
  obtain ⟨s, passes, hruns⟩ := h.runs
  obtain ⟨r, hr, hslab, y, hy, hxy⟩ := hruns.maker hx
  obtain ⟨hkind, htype, hkeeps⟩ := Entity.keeps_of_used hxy
  have hr' := hruns.tallied_all r hr
  have hfollows : r.store.Follows e y := ⟨hslab, hy, .inr ⟨hkind.trans hk, hkeeps.ident ▸ hd⟩⟩
  have htyped : y.type.isSome := htype ▸ h.typed hx
  have haccounts := (hr'.typed hfollows htyped).resolve_left List.not_mem_nil
  exact (haccounts.2 (hkind.trans hk)).retain (hruns.retains hr) (fun _ he => .inl he) hkeeps

/-! A type name that stands for a record with a pointer to it. The pointer is read while the record has no base yet. -/

namespace AliasBehindPointer

open Builder in
/-- One file with `type A struct {p: ^B}` and `type B A`. -/
def files : List File := single do
  let p ← field ["p"] (← pointer (← name "B")) false
  let first ← typeDecl "A" (← record .struct [p])
  let second ← typeDecl "B" (← name "A")
  return [first, second]

/-- What the second type name is in the end: it stands for a name of its own. -/
def second : Entity :=
  { Entity.typed .typeName ⟨"B", ⟨"m", 8, 1⟩, ⟨22, 1⟩⟩ (some 6) ⟨0, 24⟩ with home := some ⟨0, 1⟩, used := true }

/-- The program is accepted, and its second type name has an invalid base. -/
theorem spec : (checkFiles .standard files).Accepted ∧
      (checkFiles .standard files).arena.entity? ⟨0, 30⟩ = some second ∧
      (checkFiles .standard files).arena.type? ⟨0, 24⟩ = some (.named "B" (some .invalid) ⟨0, 30⟩) ∧
      (checkFiles .standard files).arena.type? .invalid = some (.basic .invalid) := by
  decide +kernel

theorem accepted : (checkFiles .standard files).Accepted := spec.1

theorem entity_second : (checkFiles .standard files).arena.entity? ⟨0, 30⟩ = some second := spec.2.1

theorem type_second : (checkFiles .standard files).arena.type? ⟨0, 24⟩ = some (.named "B" (some .invalid) ⟨0, 30⟩) :=
  spec.2.2.1

theorem type_invalid : (checkFiles .standard files).arena.type? .invalid = some (.basic .invalid) := spec.2.2.2

end AliasBehindPointer

theorem accepted_type_names_resolved_unless_open_behind_pointer :
    (checkFiles .standard AliasBehindPointer.files).Accepted ∧
      LeftOpen AliasBehindPointer.files (checkFiles .standard AliasBehindPointer.files).arena
        (checkFiles .standard AliasBehindPointer.files).notes [] AliasBehindPointer.second := by
  refine ⟨AliasBehindPointer.accepted, ?_⟩
  obtain ⟨t, name, base, ht, htype, -, hopen⟩ := accepted_type_names_resolved_unless_open AliasBehindPointer.accepted
    ⟨0, 30⟩ AliasBehindPointer.second AliasBehindPointer.entity_second rfl rfl
  cases ht
  cases AliasBehindPointer.type_second.symm.trans htype
  exact hopen AliasBehindPointer.type_invalid

/-- A program is accepted although a type name in it stands for a name with an invalid base. -/
theorem accepted_type_name_over_invalid :
    (checkFiles .standard AliasBehindPointer.files).Accepted ∧
      ∃ e x t name, (checkFiles .standard AliasBehindPointer.files).arena.entity? e = some x ∧ x.kind = .typeName ∧
        x.ident.isSome ∧ x.type = some t ∧
        (checkFiles .standard AliasBehindPointer.files).arena.type? t = some (.named name (some .invalid) e) :=
  ⟨AliasBehindPointer.accepted, _, _, _, _, AliasBehindPointer.entity_second, rfl, rfl, rfl,
    AliasBehindPointer.type_second⟩

end Statics
