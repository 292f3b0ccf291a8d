import Statics.Proofs.Run.Statements

/-!
# Runs without a report

The log of a pass only grows, and every error in it is counted. So what a completed run logged is what its parts logged,
one after the other, and a run that logged nothing of some sort is made of parts that did not either.
-/

namespace Statics

variable {s t u : Pass}

namespace LogGrows

theorem logged_eq (h : LogGrows s t) (h' : LogGrows t u) : s.logged u = s.logged t ++ t.logged u := by
  obtain ⟨new, hlog, -⟩ := h
  obtain ⟨newer, hlog', -⟩ := h'
  simp [Pass.logged, hlog, hlog']

theorem count_eq (h : LogGrows s t) :
    t.collector.count = s.collector.count + (s.logged t).countP fun entry => entry.diagnostic.isError := by
  obtain ⟨new, hlog, hcount, -⟩ := h
  simp [Pass.logged, hlog, hcount]

/-- Errors do not go away, so a pass that has too many keeps having too many. -/
theorem isFatal (h : LogGrows s t) (hs : s.collector.isFatal) : t.collector.isFatal := by
  obtain ⟨new, -, hcount, hcap⟩ := h
  simp only [Collector.isFatal, decide_eq_true_eq] at hs ⊢
  omega

end LogGrows

/-! ## Relations that do not look at what is entered -/

section

variable {R R' : Pass → Pass → Prop} (himp : ∀ {s t}, R s t → LogGrows s t → s.Idle t → R' s t)
  (htrans : ∀ {s t u}, R' s t → R' t u → R' s u)

include himp htrans

/-- Notes are allowed by what follows from a relation that allows them, where nothing else changes but the log. -/
theorem Observes.of_idle [Observes R] : Observes R' :=
  .of_still (fun h hst => himp h (.of_collector_eq hst.collector) hst.toIdle) htrans fun s d hd hk =>
    himp (Reports.report s d hd hk) (.report s d hd) ⟨rfl, rfl, rfl, rfl, rfl, rfl⟩

/-- So is what is allocated and bound. -/
theorem Binds.of_idle [Binds R] : Binds R' :=
  .of_still (fun h hst => himp h (.of_collector_eq hst.collector) hst.toIdle) htrans fun s d hd hk =>
    himp (Reports.report s d hd hk) (.report s d hd) ⟨rfl, rfl, rfl, rfl, rfl, rfl⟩

/-- So is what reading files does. -/
theorem ReadsFiles.of_idle [ReadsFiles R] : ReadsFiles R' where
  toBinds := .of_idle himp htrans
  openFile s files := himp (ReadsFiles.openFile s files) (AllowsAll.openFile s files) ⟨rfl, rfl, rfl, rfl, rfl, rfl⟩
  newImport s info token ident := himp (ReadsFiles.newImport s info token ident)
    (AllowsAll.newImport s info token ident) ⟨rfl, rfl, rfl, rfl, rfl, rfl⟩
  addImport s e := himp (ReadsFiles.addImport s e) (AllowsAll.addImport s e) ⟨rfl, rfl, rfl, rfl, rfl, rfl⟩
  warn s d hd := himp (ReadsFiles.warn s d hd) (.warn s d hd) ⟨rfl, rfl, rfl, rfl, rfl, rfl⟩

end

namespace Check

variable {α β : Type} {P : LogEntry → Prop}

@[grind ←]
theorem log_onStore (f : Store → Store) : Moves LogGrows (onStore f) :=
  .of_ok (fun _ _ => rfl) fun _ => ⟨_, _, rfl, .of_collector_eq rfl⟩

@[grind ←]
theorem log_newType (t : Ty) : Moves LogGrows (newType t) :=
  .of_ok (fun _ _ => rfl) fun _ => ⟨_, _, rfl, .of_collector_eq rfl⟩

/-- A step completes, with a result and a state, and logs nothing that satisfies `P`. -/
structure Clear (P : LogEntry → Prop) (x : Check α) (s : Pass) (a : α) (t : Pass) : Prop where
  run : x s = .ok a t
  silent : ∀ entry ∈ s.logged t, ¬ P entry

/-- A clear sequence is a clear first step and a clear rest. -/
theorem Clear.bind {x : Check α} {f : α → Check β} {b : β} (h : Clear P (x >>= f) s b u) (hx : Moves LogGrows x)
    (hf : ∀ a, Moves LogGrows (f a)) : ∃ a t, Clear P x s a t ∧ Clear P (f a) t b u := by
  obtain ⟨a, t, hs, ht⟩ := bind_eq_ok.mp h.run
  have hlog := (hx.ok hs).logged_eq ((hf a).ok ht)
  refine ⟨a, t, ⟨hs, fun entry he => ?_⟩, ⟨ht, fun entry he => ?_⟩⟩
  · exact h.silent entry (by simp [hlog, he])
  · exact h.silent entry (by simp [hlog, he])

/-- Where both conditions are found together, they are one. -/
theorem Clear.split {x : Check α} {f : α → Check β} {b : β} (h : Clear P (x >>= f) s b u)
    (hlog : Moves LogGrows x ∧ ∀ a, Moves LogGrows (f a)) : ∃ a t, Clear P x s a t ∧ Clear P (f a) t b u :=
  h.bind hlog.1 hlog.2

theorem Clear.of_pure {x a : α} (h : Clear P (pure x) s a t) : x = a ∧ s = t := by
  cases h.run
  exact ⟨rfl, rfl⟩

theorem Clear.read {f : Pass → Check β} {b : β} (h : Clear P (get >>= f) s b t) : Clear P (f s) s b t :=
  ⟨h.run, h.silent⟩

theorem Clear.readEntity {e : EntityId} {f : Entity → Check β} {b : β} (h : Clear P (entity e >>= f) s b t) :
    Clear P (f (s.store.arena.entity e)) s b t := ⟨h.run, h.silent⟩

theorem Clear.readArena {f : Arena → Check β} {b : β} (h : Clear P (arena >>= f) s b t) :
    Clear P (f s.store.arena) s b t := ⟨h.run, h.silent⟩

/-- What was reported was logged. -/
theorem not_clear_report {token : Token} {p : Problem} (hp : ∀ listed, P ⟨p.error token, listed⟩) {a : Unit} :
    ¬ Clear P (report token p) s a t := by
  rintro ⟨hrun, hsilent⟩
  unfold report emit Collector.report at hrun
  split at hrun
  · rename_i collector hc
    cases hrun
    split at hc
    · simp at hc
    · simp only [Prod.mk.injEq] at hc
      obtain ⟨rfl, -⟩ := hc
      exact hsilent ⟨p.error token, s.collector.last != some (p.error token).pos⟩ (by simp [Pass.logged]) (hp _)
  · cases hrun

end Check

end Statics
