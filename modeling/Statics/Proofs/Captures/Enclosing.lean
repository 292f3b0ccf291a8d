import Statics.Proofs.Captures.Homes

/-!
# Scopes of enclosing procedures

The chain of a scope leads out to the global one. A signature scope on the way is where a procedure ends, so the first
of them tells which procedure a scope belongs to. Going out to a scope leaves a procedure exactly if that scope
belongs to another one (`Ends.leavesProcedure_iff`), and blocks between a scope and the home of a variable do not count
(`Ends.encloses_iff`).
-/

namespace Statics

variable {fuel : Nat} {g h inner outer : ScopeId}

namespace Arena

variable {a : Arena}

/-- The scopes on the way out of a scope, down to one without a parent. -/
inductive Walk (a : Arena) : ScopeId → List ScopeId → Prop where
  | last {f : ScopeId} : (a.scope f).parent = none → Walk a f [f]
  | out {f p : ScopeId} {rest : List ScopeId} : (a.scope f).parent = some p → Walk a p rest → Walk a f (f :: rest)

/-- The way out of a scope ends: the last scope of its chain has no parent. -/
def Ends (a : Arena) (f : ScopeId) : Prop := ((a.chain f).getLast?.map fun r => (a.scope r).parent) = some none

instance (f : ScopeId) : Decidable (a.Ends f) := inferInstanceAs (Decidable (_ = _))

/-- The signature scope of the procedure that a scope belongs to, if there is one. -/
def procedureOf? (a : Arena) (f : ScopeId) : Option ScopeId :=
  (a.chain f).find? fun c => (a.scope c).kind == .signature

/-- A scope is a local scope around another, of another procedure. -/
structure Encloses (a : Arena) (outer inner : ScopeId) : Prop where
  around : outer ∈ a.chain inner
  isLocal : (a.scope outer).kind.isFileLevel = false
  procedure : a.procedureOf? outer ≠ a.procedureOf? inner

instance (outer inner : ScopeId) : Decidable (a.Encloses outer inner) :=
  decidable_of_iff (outer ∈ a.chain inner ∧ (a.scope outer).kind.isFileLevel = false ∧
    a.procedureOf? outer ≠ a.procedureOf? inner) ⟨fun h => ⟨h.1, h.2.1, h.2.2⟩,
      fun h => ⟨h.around, h.isLocal, h.procedure⟩⟩

namespace Walk

variable {f : ScopeId} {way : List ScopeId}

theorem unique (h : a.Walk f way) {way' : List ScopeId} (h' : a.Walk f way') : way = way' := by
  induction h generalizing way' with
  | last hparent =>
    cases h' with
    | last => rfl
    | out hparent' => simp [hparent] at hparent'
  | out hparent _ ih =>
    cases h' with
    | last hparent' => simp [hparent] at hparent'
    | out hparent' hrest =>
      rw [hparent] at hparent'
      cases hparent'
      rw [ih hrest]

/-- From a scope on the way, the way goes on as from there. -/
theorem suffix {before rest : List ScopeId} (h : a.Walk f (before ++ g :: rest)) : a.Walk g (g :: rest) := by
  induction before generalizing f with
  | nil =>
    cases h with
    | last hparent => exact .last hparent
    | out hparent hrest => exact .out hparent hrest
  | cons c before ih =>
    rw [List.cons_append] at h
    generalize hway : c :: (before ++ g :: rest) = way at h
    cases h with
    | last => simp at hway
    | out _ hrest =>
      obtain ⟨rfl, rfl⟩ := List.cons.inj hway
      exact ih hrest

theorem nodup (h : a.Walk f way) : way.Nodup := by
  induction h with
  | last => simp
  | @out f p rest hparent hrest ih =>
    refine List.nodup_cons.mpr ⟨fun hmem => ?_, ih⟩
    -- The way from the second occurrence would be shorter than that from the first.
    obtain ⟨before, after, rfl⟩ := List.append_of_mem hmem
    have heq := (Walk.out hparent hrest).unique hrest.suffix
    have hlength := congrArg List.length heq
    simp at hlength
    omega

theorem chainWithin_eq (h : a.Walk f way) (hfuel : way.length ≤ fuel) : a.chainWithin fuel (some f) = way := by
  induction h generalizing fuel with
  | last hparent =>
    obtain ⟨fuel, rfl⟩ := Nat.exists_eq_add_of_lt hfuel
    cases hn : 0 + fuel <;> simp [chainWithin, hparent]
  | out hparent _ ih =>
    cases fuel with
    | zero => simp at hfuel
    | succ fuel => simp only [chainWithin, hparent, ih (by simpa using hfuel)]

end Walk

theorem length_chainWithin_le (a : Arena) (fuel : Nat) (f : Option ScopeId) : (a.chainWithin fuel f).length ≤ fuel := by
  fun_induction chainWithin a fuel f <;> simp_all

theorem walk_chainWithin (h : ((a.chainWithin fuel (some f)).getLast?.map fun r => (a.scope r).parent) = some none) :
    a.Walk f (a.chainWithin fuel (some f)) := by
  induction fuel generalizing f with
  | zero => simp [chainWithin] at h
  | succ fuel ih =>
    rw [chainWithin] at h ⊢
    cases hparent : (a.scope f).parent with
    | none =>
      have hnil : a.chainWithin fuel none = [] := by cases fuel <;> rfl
      rw [hnil]
      exact .last hparent
    | some p =>
      rw [hparent] at h
      refine .out hparent (ih ?_)
      cases hchain : a.chainWithin fuel (some p) with
      | nil => simp [hchain, hparent] at h
      | cons c rest => simpa [hchain] using h

theorem Ends.walk (h : a.Ends f) : a.Walk f (a.chain f) := walk_chainWithin h

theorem Walk.chain_eq {way : List ScopeId} (h : a.Walk g way) (hle : way.length ≤ (a.chain f).length) :
    a.chain g = way :=
  h.chainWithin_eq (Nat.le_trans hle (length_chainWithin_le a _ _))

/-- The chain of a scope is the way to a scope around it, and the chain of that one. -/
theorem Ends.split (h : a.Ends inner) (hmem : outer ∈ a.chain inner) :
    ∃ before, a.chain inner = before ++ a.chain outer ∧ outer ∉ before ∧ ∃ rest, a.chain outer = outer :: rest := by
  obtain ⟨before, rest, heq⟩ := List.append_of_mem hmem
  have hwalk := h.walk
  have hnodup := hwalk.nodup
  rw [heq] at hwalk hnodup
  have hchain : a.chain outer = outer :: rest := by
    refine hwalk.suffix.chain_eq (f := inner) ?_
    rw [heq]
    simp
  refine ⟨before, by rw [hchain, heq], fun hmem => ?_, rest, hchain⟩
  exact (List.nodup_append.mp hnodup).2.2 outer hmem outer (by simp) rfl

theorem Ends.ends_of_mem (h : a.Ends inner) (hmem : outer ∈ a.chain inner) : a.Ends outer := by
  obtain ⟨before, heq, -, rest, hchain⟩ := h.split hmem
  rw [Ends, heq, hchain] at h
  rw [Ends, hchain]
  simpa using h

/-- Going out to a scope leaves a procedure exactly if the scope belongs to another one. -/
theorem Ends.leavesProcedure_iff (h : a.Ends inner) (hmem : outer ∈ a.chain inner) :
    a.leavesProcedure inner outer ↔ a.Encloses outer inner := by
  obtain ⟨before, heq, hnot, rest, hchain⟩ := h.split hmem
  have hnodup := h.walk.nodup
  have htake : (a.chain inner).takeWhile (· != outer) = before := by
    rw [heq, hchain]
    refine List.takeWhile_append_of_pos ?_ |>.trans ?_
    · intro c hc
      simp only [bne_iff_ne, ne_eq]
      rintro rfl
      exact hnot hc
    · simp
  have hfind : a.procedureOf? inner =
      (before.find? fun c => (a.scope c).kind == .signature).or (a.procedureOf? outer) := by
    rw [procedureOf?, procedureOf?, heq, List.find?_append]
  have hprocedure : a.procedureOf? outer ≠ a.procedureOf? inner ↔
      before.any fun c => (a.scope c).kind == .signature := by
    rw [hfind]
    cases hfound : before.find? fun c => (a.scope c).kind == .signature with
    | none => simpa using hfound
    | some g =>
      have hg := List.mem_of_find?_eq_some hfound
      have hany : before.any fun c => (a.scope c).kind == .signature :=
        List.any_eq_true.mpr ⟨g, hg, List.find?_some (p := fun c => (a.scope c).kind == .signature) hfound⟩
      refine iff_of_true (fun hsame => ?_) hany
      rw [Option.some_or] at hsame
      have hg' := List.mem_of_find?_eq_some (show (a.chain outer).find? _ = some g from hsame)
      rw [heq] at hnodup
      exact (List.nodup_append.mp hnodup).2.2 g hg g hg' rfl
  rw [leavesProcedure, htake, Bool.and_eq_true, Bool.not_eq_true', ← hprocedure]
  exact ⟨fun ⟨hlocal, hne⟩ => ⟨hmem, hlocal, hne⟩, fun h => ⟨h.isLocal, h.procedure⟩⟩

theorem Ends.chain_parent {p : ScopeId} (h : a.Ends f) (hparent : (a.scope f).parent = some p) :
    a.chain f = f :: a.chain p ∧ a.Ends p := by
  have hwalk := h.walk
  have hlast := h
  rw [Ends] at hlast
  generalize hchain : a.chain f = way at hwalk hlast
  cases hwalk with
  | last hnone => simp [hparent] at hnone
  | @out _ q rest hparent' hrest =>
    obtain rfl : p = q := by simpa [hparent] using hparent'
    have hrest' : a.chain p = rest := hrest.chain_eq (f := f) (by simp [hchain])
    refine ⟨by rw [hrest'], ?_⟩
    rw [Ends, hrest']
    cases hrest <;> simpa using hlast

theorem Ends.mem_chain (h : a.Ends f) : f ∈ a.chain f := by
  have hwalk := h.walk
  generalize a.chain f = way at hwalk
  cases hwalk <;> simp

/-- Blocks belong to the procedure around them. -/
theorem Within.procedureOf?_eq (hw : a.Within f h) (hends : a.Ends f) :
    h ∈ a.chain f ∧ a.procedureOf? h = a.procedureOf? f := by
  induction hw with
  | here f => exact ⟨hends.mem_chain, rfl⟩
  | out hkind hparent _ ih =>
    obtain ⟨hchain, hends⟩ := hends.chain_parent hparent
    obtain ⟨hmem, hprocedure⟩ := ih hends
    refine ⟨by simp [hchain, hmem], ?_⟩
    rw [hprocedure, procedureOf?, procedureOf?, hchain, List.find?_cons_of_neg (by simp [hkind])]

theorem isFileLevel_iff : a.IsFileLevel f ↔ (a.scope f).kind.isFileLevel := by
  unfold IsFileLevel scope
  cases a.scope? f <;> simp [Scope.blank, ScopeKind.isFileLevel]

instance (f : ScopeId) : Decidable (a.IsFileLevel f) := decidable_of_iff _ isFileLevel_iff.symm

/-- A variable is found in a scope of a procedure strictly around exactly if its home is in one, unless its home is at
file level. -/
theorem Ends.encloses_iff (hends : a.Ends inner) (hmem : f ∈ a.chain inner) (hhome : a.Within f h ∨ a.IsFileLevel h) :
    a.Encloses f inner ↔ a.Encloses h inner ∨ a.IsFileLevel h ∧ a.Encloses f inner := by
  by_cases hfile : a.IsFileLevel h
  · refine ⟨fun henc => .inr ⟨hfile, henc⟩, ?_⟩
    rintro (henc | ⟨-, henc⟩)
    · rw [isFileLevel_iff, henc.isLocal] at hfile
      cases hfile
    · exact henc
  · have hw := hhome.resolve_right hfile
    obtain ⟨hmem', hprocedure⟩ := hw.procedureOf?_eq (hends.ends_of_mem hmem)
    have hlocal : (a.scope f).kind.isFileLevel = false := by
      cases hw with
      | here => simpa [isFileLevel_iff] using hfile
      | out hkind => rw [hkind]; rfl
    have haround : h ∈ a.chain inner := by
      obtain ⟨before, heq, -⟩ := hends.split hmem
      rw [heq]
      exact List.mem_append_right _ hmem'
    constructor
    · intro henc
      exact .inl ⟨haround, by simpa [isFileLevel_iff] using hfile, hprocedure ▸ henc.procedure⟩
    · rintro (henc | ⟨hfile', -⟩)
      · exact ⟨hmem, hlocal, hprocedure ▸ henc.procedure⟩
      · exact absurd hfile' hfile

end Arena

end Statics
