import Statics.Proofs.Run.Clear

/-!
# What is reported for a category

`Check.Flags c x ds` says that every run of `x` logs exactly the diagnostics `ds` of the category `c`, or the first of
them if it stops. It composes along a sequence, so what a routine reports for a category is read off its parts.

Only jumps, returns and what follows `else` are reported for their control flow. The expressions and the declarations
in a statement never are, whatever state they start from: the relation `Unflagged` allows every report but these.
-/

namespace Statics

/-- The diagnostics of a category that were logged on the way from one state to a later one. -/
def Pass.flagged (c : Category) (s t : Pass) : List Diagnostic :=
  ((s.logged t).map LogEntry.diagnostic).filter (·.category == c)

theorem LogGrows.flagged_eq {s t u : Pass} (c : Category) (h : LogGrows s t) (h' : LogGrows t u) :
    s.flagged c u = s.flagged c t ++ t.flagged c u := by simp [Pass.flagged, h.logged_eq h']

theorem Pass.flagged_of_collector_eq {s t : Pass} (c : Category) (h : t.collector = s.collector) :
    s.flagged c t = [] := by simp [Pass.flagged, Pass.logged, h]

namespace Check

variable {α β : Type} {c : Category}

/-- Every run of a step logs exactly the given diagnostics of a category, in this order, or the first of them if it
stops. -/
structure Flags (c : Category) (x : Check α) (ds : List Diagnostic) : Prop where
  log : ∀ s, LogGrows s (x.after s)
  starts : ∀ s : Pass, s.flagged c (x.after s) <+: ds
  completes : ∀ (s : Pass) a t, x s = .ok a t → s.flagged c t = ds

/-! ## Sequences and primitive steps -/

theorem Flags.bind {x : Check α} {f : α → Check β} {ds es : List Diagnostic} (hx : Flags c x ds)
    (hf : ∀ a, Flags c (f a) es) : Flags c (x >>= f) (ds ++ es) where
  log s := by
    have hlog := hx.log s
    cases hs : x s with
    | ok a t =>
      rw [after_of_ok hs] at hlog
      rw [after_bind hs]
      exact hlog.trans ((hf a).log t)
    | error e t => rwa [after_bind_of_error hs, ← after_of_error hs]
  starts s := by
    have hlog := hx.log s
    cases hs : x s with
    | ok a t =>
      rw [after_of_ok hs] at hlog
      rw [after_bind hs, hlog.flagged_eq c ((hf a).log t), hx.completes s a t hs]
      exact (List.prefix_append_right_inj _).mpr ((hf a).starts t)
    | error e t =>
      have h := hx.starts s
      rw [after_of_error hs] at h
      rw [after_bind_of_error hs]
      exact h.trans (List.prefix_append _ _)
  completes s b u h := by
    obtain ⟨a, t, hs, ht⟩ := bind_eq_ok.mp h
    have hlog := hx.log s
    have hlog' := (hf a).log t
    rw [after_of_ok hs] at hlog
    rw [after_of_ok ht] at hlog'
    rw [hlog.flagged_eq c hlog', hx.completes s a t hs, (hf a).completes t b u ht]

theorem flags_of_collector {x : Check α} (h : ∀ s, (x.after s).collector = s.collector) : Flags c x [] where
  log s := .of_collector_eq (h s)
  starts s := by simp [Pass.flagged_of_collector_eq c (h s)]
  completes s a t hs := by
    have h := h s
    rw [after_of_ok hs] at h
    exact Pass.flagged_of_collector_eq c h

/-- An error is logged, unless there were too many before. -/
theorem flags_emit {d : Diagnostic} (hd : d.isError) : Flags c (emit d) ([d].filter (·.category == c)) where
  log s := along_emit (.report s d hd)
  starts s := by
    by_cases hfatal : s.collector.isFatal
    · have hrun : (emit d).after s = s := by simp [after, emit, Collector.report, hfatal]
      simp [hrun, Pass.flagged_of_collector_eq c rfl]
    · have hlog : ((emit d).after s).collector.log = s.collector.log ++ [⟨d, s.collector.last != some d.pos⟩] := by
        unfold after emit Collector.report
        grind
      simp [Pass.flagged, Pass.logged, hlog]
  completes s a t hs := by
    have hlog : t.collector.log = s.collector.log ++ [⟨d, s.collector.last != some d.pos⟩] := by
      unfold emit Collector.report at hs
      grind
    simp [Pass.flagged, Pass.logged, hlog]

/-- A report logs its problem. -/
theorem flags_report (token : Token) (p : Problem) :
    Flags c (report token p) ([p.error token].filter (·.category == c)) := flags_emit rfl

theorem flags_report_of_ne {token : Token} {p : Problem} (h : p.category ≠ c) : Flags c (report token p) [] := by
  simpa [Problem.error, Diagnostic.about, h] using flags_report (c := c) token p

theorem flags_pure (a : α) : Flags c (pure a : Check α) [] := flags_of_collector fun _ => rfl

end Check

/-! ## Runs that report no jump -/

/-- The log grows, but by no report about control flow. -/
structure Unflagged (s t : Pass) : Prop where
  log : LogGrows s t
  flagged : s.flagged .illegalControlFlow t = []

namespace Unflagged

variable {s t u : Pass}

theorem of_collector_eq (h : t.collector = s.collector) : Unflagged s t :=
  ⟨.of_collector_eq h, Pass.flagged_of_collector_eq _ h⟩

theorem trans (h : Unflagged s t) (h' : Unflagged t u) : Unflagged s u :=
  ⟨h.log.trans h'.log, by rw [h.log.flagged_eq _ h'.log, h.flagged, h'.flagged, List.append_nil]⟩

theorem report (s : Pass) (d : Diagnostic) (hd : d.isError) (hk : d.category.isFlow = false) :
    Unflagged s { s with collector := (s.collector.report d).1 } where
  log := .report s d hd
  flagged := by
    have hne : (d.category == .illegalControlFlow) = false := hk
    unfold Collector.report
    split
    · exact Pass.flagged_of_collector_eq _ rfl
    · simp [Pass.flagged, Pass.logged, hne]

instance : Binds Unflagged := .of_still (R := LogGrows) (fun _ hst => of_collector_eq hst.collector) trans report

instance : Demands Unflagged where
  annotate _ _ _ := of_collector_eq rfl
  newType _ _ _ _ := of_collector_eq rfl
  fillEnum _ _ _ _ _ h := ⟨h.log, h.flagged⟩
  settle _ _ _ _ _ := of_collector_eq rfl
  claimSymbol _ _ := of_collector_eq rfl
  stopNamed _ _ _ _ _ h := ⟨h.log, h.flagged⟩
  fillNamed _ _ _ _ _ h := ⟨h.log, h.flagged⟩
  record _ _ := of_collector_eq rfl
  claimLink _ _ := of_collector_eq rfl
  enqueue _ _ := of_collector_eq rfl

instance : Enters Unflagged where
  newWaiting _ _ _ := of_collector_eq rfl
  await _ _ := of_collector_eq rfl
  hoist _ _ := of_collector_eq rfl

instance : DeclaresLocals Unflagged where
  expr ctx reading e _ := Check.moves_expr Check.moves_demand ctx reading e
  demand ctx e _ := Check.moves_demand ctx e
  locals ctx d _ := Check.moves_localVariables (Check.moves_expr Check.moves_demand ctx) d

end Unflagged

/-- What never reports a jump flags nothing. -/
theorem Check.Moves.flags {α : Type} {x : Check α} (hx : Moves Unflagged x) : Flags .illegalControlFlow x [] where
  log s := (hx.along s).log
  starts s := by simp [(hx.along s).flagged]
  completes _ _ _ hs := (hx.ok hs).flagged

end Statics
