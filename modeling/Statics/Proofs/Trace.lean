import Statics.Program

/-!
# What passes tell one another

All passes share the collected diagnostics and the link names, and nothing else. A pass never looks at them: it tells
them what it found, in a sequence of events, and goes on unless an event stops it. `Check.Traced x` says this of a
step `x`: from a given state it has one result, one state of its own to leave, and one sequence of events; the shared
tables only decide how far it gets.
-/

namespace Statics

/-! ## Events -/

/-- What a step tells the tables that all passes share. -/
inductive Event where
  | error (token : Token) (p : Problem)
  | importRepeated (token : Token)
  | claim (link : Token) (pos : Pos)

namespace Shared

/-- Takes an error. -/
def report (h : Shared) (d : Diagnostic) : EStateM.Result TooManyErrors Shared Unit :=
  match h.collector.report d with
  | (collector, .ok ()) => .ok () { h with collector := collector }
  | (collector, .error stop) => .error stop { h with collector := collector }

/-- Takes an event, and stops when that passes the cap. -/
def take : Event → EStateM TooManyErrors Shared Unit
  | .error token p, h => h.report (p.error token)
  | .importRepeated token, h => .ok () { h with collector := h.collector.warn (Problem.importRepeated.warning token) }
  | .claim link pos, h =>
    let claimed := { h with links := h.links ++ [(link.text, pos)] }
    match h.links.lookup link.text with
    | some first => claimed.report (linkClash link first)
    | none => .ok () claimed

/-- Takes events in order, up to one that stops. -/
def takeAll : List Event → EStateM TooManyErrors Shared Unit
  | [] => pure ()
  | event :: rest => do
    take event
    takeAll rest

theorem takeAll_append (events events' : List Event) :
    takeAll (events ++ events') = (do takeAll events; takeAll events') := by
  induction events with
  | nil => rfl
  | cons event rest ih => simp only [List.cons_append, takeAll, ih, bind_assoc]

end Shared

/-! ## What events do to the collector -/

namespace Collector

theorem isFatal_iff (c : Collector) : c.isFatal ↔ c.cap < c.count := decide_eq_true_iff

/-- What a collector took is an error, or the warning that an import comes again. -/
def FromPasses (c : Collector) : Prop :=
  ∀ entry ∈ c.log, entry.diagnostic.isError ∨ ∃ token, entry.diagnostic = Problem.importRepeated.warning token

/-- From one collector to another by some events, up to a stop if there is one. -/
structure Takes (c c' : Collector) (stop : Option TooManyErrors) : Prop where
  cap : c'.cap = c.cap
  count_le : c.count ≤ c.cap + 1 → c'.count ≤ c'.cap + 1
  fatal : c.isFatal → c'.isFatal ∧ c'.count = c.count
  stops : ∀ e, stop = some e → c'.isFatal ∧ e.count = c'.count
  goes : stop = none → ¬ c.isFatal → ¬ c'.isFatal
  fromPasses : c.FromPasses → c'.FromPasses

theorem Takes.refl (c : Collector) : c.Takes c none where
  cap := rfl
  count_le h := h
  fatal h := ⟨h, rfl⟩
  stops := by simp
  goes _ h := h
  fromPasses h := h

/-- The first stop counts: once the cap is passed, the number of errors stays. -/
theorem Takes.trans {c c' c'' : Collector} {stop stop' : Option TooManyErrors} (h : c.Takes c' stop)
    (h' : c'.Takes c'' stop') : c.Takes c'' (stop.or stop') where
  cap := h'.cap.trans h.cap
  count_le hle := h'.count_le (h.count_le hle)
  fatal hc := ⟨(h'.fatal (h.fatal hc).1).1, (h'.fatal (h.fatal hc).1).2.trans (h.fatal hc).2⟩
  stops e he := by
    cases stop with
    | none => exact h'.stops e he
    | some e' =>
      obtain ⟨hfatal, hcount⟩ := h.stops e' rfl
      cases he
      exact ⟨(h'.fatal hfatal).1, hcount.trans (h'.fatal hfatal).2.symm⟩
  goes hstop hc := by
    obtain ⟨rfl, rfl⟩ := Option.or_eq_none_iff.mp hstop
    exact h'.goes rfl (h.goes rfl hc)
  fromPasses hc := h'.fromPasses (h.fromPasses hc)

end Collector

/-- Why a result is a stop, if it is one. -/
def stopOf {σ α : Type} : EStateM.Result TooManyErrors σ α → Option TooManyErrors
  | .ok _ _ => none
  | .error stop _ => some stop

/-- The state of a result. -/
def stateOf {σ α : Type} : EStateM.Result TooManyErrors σ α → σ
  | .ok _ s => s
  | .error _ s => s

namespace Shared

/-- A collector with one more error. -/
def withError (h : Shared) (d : Diagnostic) : Shared :=
  { h with collector :=
      { h.collector with
        count := h.collector.count + 1
        last := some d.pos
        log := h.collector.log ++ [⟨d, h.collector.last != some d.pos⟩] } }

theorem report_of_fatal {h : Shared} (hfatal : h.collector.isFatal) (d : Diagnostic) :
    h.report d = .error ⟨h.collector.count⟩ h := by
  simp [report, Collector.report, hfatal]

theorem report_of_room {h : Shared} (hroom : ¬ h.collector.isFatal) (d : Diagnostic) :
    h.report d = if (h.withError d).collector.isFatal then .error ⟨h.collector.count + 1⟩ (h.withError d)
      else .ok () (h.withError d) := by
  simp only [report, Collector.report, hroom, withError]
  split <;> grind

theorem takes_report (h : Shared) {d : Diagnostic} (hd : d.isError) :
    h.collector.Takes (stateOf (h.report d)).collector (stopOf (h.report d)) := by
  by_cases hfatal : h.collector.isFatal
  · rw [report_of_fatal hfatal]
    exact ⟨rfl, id, fun h => ⟨h, rfl⟩, by simp [stopOf, stateOf, hfatal], by simp [stopOf], id⟩
  · have hstate : stateOf (h.report d) = h.withError d := by
      rw [report_of_room hfatal]
      split <;> rfl
    rw [hstate]
    refine ⟨rfl, fun _ => ?_, fun h => absurd h hfatal, ?_, ?_, ?_⟩
    · simp only [Collector.isFatal, decide_eq_true_eq] at hfatal
      simp only [withError]
      omega
    · intro e he
      rw [report_of_room hfatal] at he
      split at he
      case isTrue hpast =>
        cases he
        exact ⟨hpast, rfl⟩
      case isFalse => cases he
    · intro hstop _
      rw [report_of_room hfatal] at hstop
      split at hstop
      case isTrue => cases hstop
      case isFalse hroom => exact hroom
    · intro hp entry hentry
      simp only [withError, List.mem_append, List.mem_singleton] at hentry
      rcases hentry with hentry | rfl
      · exact hp entry hentry
      · exact .inl hd

theorem takes_take (event : Event) (h : Shared) :
    h.collector.Takes (stateOf (take event h)).collector (stopOf (take event h)) := by
  cases event with
  | error token p => exact takes_report h rfl
  | importRepeated token =>
    refine ⟨rfl, id, fun h => ⟨h, rfl⟩, by simp [take, stopOf], fun _ h => h, fun hp entry hentry => ?_⟩
    simp only [take, stateOf, Collector.warn, List.mem_append, List.mem_singleton] at hentry
    rcases hentry with hentry | rfl
    · exact hp entry hentry
    · exact .inr ⟨token, rfl⟩
  | claim link pos =>
    simp only [take]
    split
    · exact takes_report { h with links := h.links ++ [(link.text, pos)] } rfl
    · exact .refl h.collector

theorem takes_takeAll (events : List Event) (h : Shared) :
    h.collector.Takes (stateOf (takeAll events h)).collector (stopOf (takeAll events h)) := by
  induction events generalizing h with
  | nil => exact .refl h.collector
  | cons event rest ih =>
    have hfirst := takes_take event h
    simp only [takeAll, Bind.bind, EStateM.bind]
    cases htake : take event h with
    | ok _ h₁ =>
      rw [htake] at hfirst
      exact hfirst.trans (ih h₁)
    | error stop h₁ =>
      rw [htake] at hfirst
      exact hfirst

end Shared

namespace Pass

/-- What a pass shares with the others. -/
def shared (s : Pass) : Shared := ⟨s.links, s.collector⟩

/-- The same pass among others. -/
def sharing (s : Pass) (h : Shared) : Pass := { s with links := h.links, collector := h.collector }

@[simp]
theorem sharing_shared (s : Pass) : s.sharing s.shared = s := rfl

@[simp]
theorem shared_sharing (s : Pass) (h : Shared) : (s.sharing h).shared = h := rfl

@[simp]
theorem sharing_sharing (s : Pass) (h h' : Shared) : (s.sharing h).sharing h' = s.sharing h' := rfl

end Pass

/-! ## Traced steps -/

namespace Check

variable {α β : Type} {x : Check α} {f : α → Check β}

/-- A run from `s` that has the result `a`, leaves `t` as its own state and tells `events`, among any other passes. -/
def Tells (x : Check α) (s : Pass) (a : α) (t : Pass) (events : List Event) : Prop :=
  ∀ h, match Shared.takeAll events h with
    | .ok _ h' => x (s.sharing h) = .ok a (t.sharing h')
    | .error stop h' => ∃ u : Pass, x (s.sharing h) = .error stop (u.sharing h')

/-- A step whose runs do not depend on what the passes share, but for how far they get. -/
def Traced (x : Check α) : Prop := ∀ s, ∃ a t events, Tells x s a t events

/-- The same outcome among other passes. -/
def among (h : Shared) : EStateM.Result TooManyErrors Pass α → EStateM.Result TooManyErrors Pass α
  | .ok a t => .ok a (t.sharing h)
  | .error stop t => .error stop (t.sharing h)

theorem Tells.bind {s t u : Pass} {a : α} {b : β} {events events' : List Event} (hx : Tells x s a t events)
    (hf : Tells (f a) t b u events') : Tells (x >>= f) s b u (events ++ events') := by
  intro h
  have hfirst := hx h
  rw [Shared.takeAll_append]
  simp only [Bind.bind, EStateM.bind]
  cases htake : Shared.takeAll events h with
  | ok _ h' =>
    simp only [htake] at hfirst
    simpa only [hfirst] using hf h'
  | error stop h' =>
    simp only [htake] at hfirst
    obtain ⟨v, hv⟩ := hfirst
    exact ⟨v, by rw [hv]⟩

/-- A step that completes, and leaves alone what is shared. -/
theorem traced_of_ok (hok : ∀ s, ∃ a t, x s = .ok a t) (hown : ∀ s h, x (Pass.sharing s h) = among h (x s)) :
    Traced x := by
  intro s
  obtain ⟨a, t, hs⟩ := hok s
  refine ⟨a, t, [], fun h => ?_⟩
  rw [hown, hs]
  rfl

theorem traced_bind (hx : Traced x) (hf : ∀ a, Traced (f a)) : Traced (x >>= f) := by
  intro s
  obtain ⟨a, t, events, hx⟩ := hx s
  obtain ⟨b, u, events', hf⟩ := hf a t
  exact ⟨b, u, events ++ events', hx.bind hf⟩

/-- The state may be looked at, except for what is shared. -/
theorem traced_read {f : Pass → Check β} (hown : ∀ s h, f (Pass.sharing s h) = f s) (hf : ∀ s, Traced (f s)) :
    Traced (get >>= f) := by
  intro s
  obtain ⟨b, t, events, hs⟩ := hf s s
  refine ⟨b, t, events, fun h => ?_⟩
  have hread : (get >>= f) (s.sharing h) = f s (s.sharing h) := by
    rw [← hown s h]
    rfl
  rw [hread]
  exact hs h

/-- What a run does to the collector is what its events do to it. -/
theorem Traced.takes (hx : Traced x) (s : Pass) : s.collector.Takes (stateOf (x s)).collector (stopOf (x s)) := by
  obtain ⟨a, t, events, htells⟩ := hx s
  have hs := htells s.shared
  have htakes := Shared.takes_takeAll events s.shared
  rw [Pass.sharing_shared] at hs
  cases htake : Shared.takeAll events s.shared with
  | ok _ h =>
    simp only [htake] at hs htakes
    rw [hs]
    exact htakes
  | error stop h =>
    simp only [htake] at hs htakes
    obtain ⟨u, hu⟩ := hs
    rw [hu]
    exact htakes

/-- A run that stops has too many errors. -/
theorem Traced.fatal (hx : Traced x) {s t : Pass} {stop : TooManyErrors} (h : x s = .error stop t) :
    t.collector.isFatal := by
  have htakes := hx.takes s
  rw [h] at htakes
  exact (htakes.stops stop rfl).1

/-- A run that completes does not pass the cap. -/
theorem Traced.room (hx : Traced x) {s t : Pass} {a : α} (h : x s = .ok a t) (hroom : ¬ s.collector.isFatal) :
    ¬ t.collector.isFatal := by
  have htakes := hx.takes s
  rw [h] at htakes
  exact htakes.goes rfl hroom

/-- Tells one event. -/
def tell (event : Event) : Check Unit := fun s =>
  match Shared.take event s.shared with
  | .ok _ h => .ok () (s.sharing h)
  | .error stop h => .error stop (s.sharing h)

theorem traced_tell (event : Event) : Traced (tell event) := by
  intro s
  refine ⟨(), s, [event], fun h => ?_⟩
  have htake : Shared.takeAll [event] h = Shared.take event h := by
    simp only [Shared.takeAll, bind_pure_unit]
  rw [htake]
  unfold tell
  cases hevent : Shared.take event h with
  | ok _ h' => simp only [Pass.shared_sharing, hevent, Pass.sharing_sharing]
  | error stop h' => exact ⟨s, by simp only [Pass.shared_sharing, hevent, Pass.sharing_sharing]⟩

theorem report_eq_tell (token : Token) (p : Problem) : report token p = tell (.error token p) := by
  funext s
  simp only [report, emit, tell, Shared.take, Shared.report, Pass.shared]
  cases s.collector.report (p.error token) with
  | mk collector result => cases result <;> rfl

theorem warn_eq_tell (token : Token) : warn token .importRepeated = tell (.importRepeated token) := rfl

theorem reserveLink_eq_tell (link : Token) (pos : Pos) : reserveLink link pos = tell (.claim link pos) := by
  funext s
  have hread : reserveLink link pos s = (match s.links.lookup link.text with
      | some first => emit (linkClash link first)
      | none => pure ()) { s with links := s.links ++ [(link.text, pos)] } := rfl
  rw [hread]
  simp only [tell, Shared.take, Pass.shared]
  cases s.links.lookup link.text with
  | none => rfl
  | some first =>
    simp only [emit, Shared.report]
    cases s.collector.report (linkClash link first) with
    | mk collector result => cases result <;> rfl

end Check

end Statics
