import CommonUtils.Logger.Ledger

namespace CommonUtils.Logger

universe u v

variable {τ μ : Type u} {ι : Type v} {P : ι → LogPolicy (Thread τ) (Entry τ μ)}

structure Lifecycle (s : State P) : Prop where
  closing : s.destructor ≠ .notStarted → ∀ t, s.calls (.thread t) = none
  stopped : s.queue.stop = true → s.destructor ≠ .notStarted
  drains : s.queue.Drains
  joined : s.destructor = .joinTimer ∨ s.destructor = .done → s.queue.consumer = .returned
  awake : s.queue.Stranded →
    (∃ c e, s.calls c = some (.notifyOne e)) ∨ s.destructor = .notifyAll

variable [DecidableEq τ]

namespace Lifecycle

variable {s : State P} {c : Caller τ}

omit [DecidableEq τ] in
theorem start (P : ι → LogPolicy (Thread τ) (Entry τ μ)) : Lifecycle (start P) where
  closing := fun started => absurd rfl started
  stopped := nofun
  drains := .start
  joined := by rintro (here | here) <;> cases here
  awake := fun stranded => absurd stranded Mailbox.not_stranded_start

theorem move (inv : Lifecycle s) (call : Option (Call τ μ))
    (quiet : ∀ e, s.calls c ≠ some (.notifyOne e))
    (lives : ∀ t, c = .thread t → s.destructor = .notStarted) : Lifecycle (s.setCall c call) := by
  refine ⟨?_, inv.stopped, inv.drains, inv.joined, ?_⟩
  · intro started t
    have other : Caller.thread t ≠ c := fun same => started (lives t same.symm)
    simp only [State.setCall, Function.update_of_ne other]
    exact inv.closing started t
  · intro stranded
    rcases inv.awake stranded with ⟨c', e, notifying⟩ | notifying
    · have other : c' ≠ c := by
        intro same
        subst same
        exact quiet e notifying
      refine .inl ⟨c', e, ?_⟩
      simp only [State.setCall, Function.update_of_ne other]
      exact notifying
    · exact .inr notifying

omit [DecidableEq τ] in
theorem lives_of_call (inv : Lifecycle s) {call : Call τ μ} (mine : s.calls c = some call) :
    ∀ t, c = .thread t → s.destructor = .notStarted := by
  intro t same
  subst same
  by_contra started
  rw [inv.closing started t] at mine
  cases mine

theorem push (inv : Lifecycle s) (ledger : Ledger s) {e : Entry τ μ}
    (mine : s.calls c = some (.push e)) :
    Lifecycle { s.setCall c (some (.notifyOne e)) with
      queue := s.queue.push e
      entered := s.entered ++ [e] } := by
  have producer := ledger.pushes c e mine
  have live := inv.lives_of_call mine _ producer
  have running : s.queue.stop = false := by
    apply Bool.eq_false_iff.mpr
    intro stopped
    exact inv.stopped stopped live
  refine ⟨fun started => absurd live started, inv.stopped, inv.drains.push running e,
    inv.joined, ?_⟩
  intro _
  exact .inl ⟨c, e, Function.update_self _ _ _⟩

omit [DecidableEq τ] in
theorem notify (inv : Lifecycle s) : Lifecycle (s.setQueue s.queue.notify) :=
  ⟨inv.closing, inv.stopped, inv.drains.notify,
    fun late => Mailbox.notified_eq_returned.mpr (inv.joined late),
    fun stranded => absurd stranded (Mailbox.not_stranded_notify _)⟩

theorem notifyOne (inv : Lifecycle s) {e : Entry τ μ} (mine : s.calls c = some (.notifyOne e)) :
    Lifecycle { s.setCall c none with
      queue := s.queue.notify
      returned := s.returned ++ [e] } := by
  have notified := inv.notify
  refine ⟨?_, notified.stopped, notified.drains, notified.joined,
    fun stranded => absurd stranded (Mailbox.not_stranded_notify _)⟩
  intro started t
  by_cases me : .thread t = c
  · subst me
    exact Function.update_self _ _ _
  · simp only [State.setCall, Function.update_of_ne me]
    exact inv.closing started t

omit [DecidableEq τ] in
theorem resume (inv : Lifecycle s) {d : Delivery τ μ} (working : s.queue.consumer = .working d)
    (consumer : Consumer (Delivery τ μ)) (awake : consumer ≠ .waiting)
    (goes_on : consumer ≠ .returned) : Lifecycle (s.setQueue (s.queue.resume consumer)) := by
  refine ⟨inv.closing, inv.stopped, .resume goes_on, ?_,
    fun stranded => absurd stranded (Mailbox.not_stranded_resume awake)⟩
  intro late
  rw [inv.joined late] at working
  cases working

omit [DecidableEq τ] in
theorem take (inv : Lifecycle s) (entering : s.queue.consumer = .entering)
    (work : Entry τ μ → Delivery τ μ) : Lifecycle (s.setQueue (s.queue.take work)) := by
  refine ⟨inv.closing, ?_, .take _ _, ?_,
    fun stranded => absurd stranded (Mailbox.not_stranded_take _ _)⟩
  · intro stopped
    rw [State.setQueue, Mailbox.stop_take] at stopped
    exact inv.stopped stopped
  · intro late
    rw [inv.joined late] at entering
    cases entering

theorem step [DecidableEq ι] {s' : State P} {a : Action P} (inv : Lifecycle s) (ledger : Ledger s)
    (allowed : Allowed s a) (taken : Logger.step s a = some s') : Lifecycle s' := by
  cases step_takes taken with
  | addPolicy | timer | destroyPolicy | policy =>
      exact ⟨inv.closing, inv.stopped, inv.drains, inv.joined, inv.awake⟩
  | log t message absent =>
      have moved := inv.move (some (.push ⟨s.logged.length, t, message⟩)) (by rw [absent]; nofun)
        fun _ _ => allowed
      exact ⟨moved.closing, moved.stopped, moved.drains, moved.joined, moved.awake⟩
  | flush t absent => exact inv.move _ (by rw [absent]; nofun) fun _ _ => allowed
  | push c e mine free => exact inv.push ledger mine
  | notifyOne c e mine => exact inv.notifyOne mine
  | lock c owed mine free =>
      have moved := inv.move (some (.next owed 0)) (by rw [mine]; nofun) (inv.lives_of_call mine)
      exact ⟨moved.closing, moved.stopped, moved.drains, moved.joined, moved.awake⟩
  | flushPolicy c owed i p state mine here begun =>
      have moved := inv.move (some (.inside owed i)) (by rw [mine]; nofun) (inv.lives_of_call mine)
      exact ⟨moved.closing, moved.stopped, moved.drains, moved.joined, moved.awake⟩
  | flushReturned c owed i mine =>
      exact inv.move _ (by rw [mine]; nofun) (inv.lives_of_call mine)
  | flushed c owed i mine last =>
      have moved := inv.move none (by rw [mine]; nofun) (inv.lives_of_call mine)
      exact ⟨moved.closing, moved.stopped, moved.drains, moved.joined, moved.awake⟩
  | take entering free => exact inv.take entering _
  | write e i p state working here begun =>
      have resumed := inv.resume working (.working ⟨e, i, true⟩) nofun nofun
      exact ⟨resumed.closing, resumed.stopped, resumed.drains, resumed.joined, resumed.awake⟩
  | writeReturned e i p working here returned => exact inv.resume working _ nofun nofun
  | delivered e i working last => exact inv.resume working _ nofun nofun
  | spurious waiting => exact inv.notify
  | timerFlush absent =>
      have moved := inv.move (c := .timerTask) (some (.lock s.returned)) (by rw [absent]; nofun)
        nofun
      exact ⟨moved.closing, moved.stopped, moved.drains, moved.joined, moved.awake⟩
  | destroy pc =>
      refine ⟨fun _ => allowed, fun _ => nofun, inv.drains, ?_, ?_⟩
      · rintro (late | late) <;> cases late
      · intro stranded
        rcases inv.awake stranded with notifying | notifying
        · exact .inl notifying
        · rw [pc] at notifying
          cases notifying
  | setStop pc free =>
      refine ⟨fun _ => inv.closing (by rw [pc]; nofun), fun _ => nofun, inv.drains.setStop, ?_,
        fun _ => .inr rfl⟩
      rintro (late | late) <;> cases late
  | notifyAll pc =>
      have notified := inv.notify
      refine ⟨fun _ => inv.closing (by rw [pc]; nofun), fun _ => nofun, notified.drains, ?_,
        fun stranded => absurd stranded (Mailbox.not_stranded_notify _)⟩
      rintro (late | late) <;> cases late
  | joinThread pc returned =>
      refine ⟨fun _ => inv.closing (by rw [pc]; nofun), fun _ => nofun, inv.drains,
        fun _ => returned, ?_⟩
      rintro ⟨asleep, _⟩
      rw [returned] at asleep
      cases asleep
  | joinTimer pc returned =>
      have joined := inv.joined (.inl pc)
      refine ⟨fun _ => inv.closing (by rw [pc]; nofun), fun _ => nofun, inv.drains,
        fun _ => joined, ?_⟩
      rintro ⟨asleep, _⟩
      rw [joined] at asleep
      cases asleep

end Lifecycle

end CommonUtils.Logger
