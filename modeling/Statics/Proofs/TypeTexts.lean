import Statics.Proofs.Identity

/-!
# Identical types read the same

Comparing types goes as deep as there are types, while texts stop after a number of levels. Wherever the text stops,
it does so at the same level in both types, so the two have one text.
-/

namespace Statics

namespace Arena

variable {a : Arena}

theorem map_eq_of_forall₂ {α β : Type} {R : α → α → Prop} {f : α → β} (hf : ∀ x y, R x y → f x = f y) {xs ys : List α}
    (h : List.Forall₂ R xs ys) : xs.map f = ys.map f := by
  rw [← List.forall₂_eq_eq_eq, List.forall₂_map_left_iff, List.forall₂_map_right_iff]
  exact h.imp hf

/-- The texts of two fields agree when those of their types do. -/
theorem FieldsMatch.fieldText_eq {R : TypeId → TypeId → Prop} {text : TypeId → String}
    (htext : ∀ t u, R t u → text t = text u) (f g : EntityId)
    (h : a.FieldsMatch R f g) : a.fieldText text f = a.fieldText text g := by
  obtain ⟨hname, hexposed, t, u, ht, hu, htu⟩ := h
  rw [fieldText, fieldText, hname, hexposed, ht, hu, Option.map_some, Option.map_some, htext t u htu]

/-- Types that are identical to some depth have one text, cut off at any level. -/
theorem typeTextWithin_eq {n m : Nat} {x y : TypeId} (h : a.identicalWithin m x y) :
    a.typeTextWithin n x = a.typeTextWithin n y := by
  induction n generalizing m x y with
  | zero => rfl
  | succ n ih =>
    cases m with
    | zero => rw [beq_iff_eq.mp h]
    | succ m =>
      rcases identicalWithin_succ_iff.mp h with rfl | hmatch
      · rfl
      · have hparts (t u : TypeId) (htu : a.identicalWithin m t u) : a.typeTextWithin n t = a.typeTextWithin n u :=
          ih htu
        rw [typeTextWithin, typeTextWithin]
        generalize a.type x = σ, a.type y = τ at hmatch
        cases hmatch with
        | basic k => rfl
        | pointer h => simp only [hparts _ _ h]
        | array count h => simp only [hparts _ _ h]
        | slice h => simp only [hparts _ _ h]
        | record form h => simp only [map_eq_of_forall₂ (FieldsMatch.fieldText_eq hparts) h]
        | tuple h => simp only [map_eq_of_forall₂ hparts h]
        | proc h h' => simp only [map_eq_of_forall₂ hparts h, map_eq_of_forall₂ hparts h']

end Arena

/-- Types that are identical have the same text, however deep they are. -/
theorem identical_types_have_one_text (a : Arena) (x y : TypeId) (h : a.identical x y) : a.typeText x = a.typeText y :=
  Arena.typeTextWithin_eq h

/-- Two towers of forty pointers each, which are deeper than the text. -/
theorem identical_towers_have_one_text :
    let a : Arena :=
      ⟨[{ Slab.empty 0 with types := #[.basic .int, .basic .int] ++ (Array.range 80).map fun i => .pointer ⟨0, i⟩ }]⟩
    a.identical ⟨0, 80⟩ ⟨0, 81⟩ ∧ a.typeText ⟨0, 80⟩ = a.typeText ⟨0, 81⟩ :=
  have h := by decide +kernel
  ⟨h, identical_types_have_one_text _ _ _ h⟩

end Statics
