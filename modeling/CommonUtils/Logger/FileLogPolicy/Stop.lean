import CommonUtils.Logger.FileLogPolicy.Shutdown

namespace CommonUtils.Logger.FileLogPolicy

variable {τ μ : Type*}

structure StopInv (s : State τ μ) : Prop where
  entry : ∀ t call, s.callers t = some call → call.pc = .setStop → call.op = .destroy
  stopped : s.stopThread = true → ∃ t call, s.callers t = some call ∧ call.op = .destroy
  returned : s.writer = .returned → s.stopThread = true
  woken : s.writer = .testStop → s.queueBuffers ≠ [] ∨ s.stopThread = true
  popping : s.writer = .pop → s.queueBuffers ≠ []

variable [DecidableEq τ]

namespace StopInv

variable {s s' : State τ μ}

omit [DecidableEq τ] in
theorem start : StopInv (start τ μ) where
  entry := by intro t call here; cases here
  stopped := by intro other; cases other
  returned := by intro other; cases other
  woken := by intro other; cases other
  popping := by intro other; cases other

theorem callerStep {t : τ} {call : Call μ} (inv : StopInv s) (mine : s.callers t = some call)
    (taken : s.callerStep t call = some s') : StopInv s' := by
  have frame := callerFrame_of_callerStep taken
  rcases frame.callers with ⟨call', callers, _, follows⟩
  have others : ∀ u, u ≠ t → s'.callers u = s.callers u := by
    intro u different
    rw [callers, Function.update_of_ne different]
  have longer : s.queueBuffers ≠ [] → s'.queueBuffers ≠ [] := by
    rcases frame.queue with same | ⟨i, longer⟩
    · rw [same]
      exact id
    · rw [longer]
      intro _
      exact List.append_ne_nil_of_right_ne_nil _ (List.cons_ne_nil _ _)
  have raised : s.stopThread = true → s'.stopThread = true := by
    rcases frame.stop with same | ⟨_, raised⟩
    · rw [same]
      exact id
    · exact fun _ => raised
  have writer : ∀ w : Writer, w ≠ .lockQueue → s'.writer = w → s.writer = w := by
    intro w other now
    rcases frame.writer with same | notified
    · rw [← same, now]
    · rw [notified] at now
      cases pc : s.writer <;> rw [pc] at now <;> first | exact now | exact absurd now.symm other
  refine ⟨?_, ?_, ?_, ?_, ?_⟩
  · intro u c here
    by_cases me : u = t
    · subst me
      rw [callers, Function.update_self] at here
      exact fun other => absurd other (follows c here).entered
    · rw [others u me] at here
      exact inv.entry u c here
  · intro now
    have stays : call.op = .destroy → ∃ u c, s'.callers u = some c ∧ c.op = .destroy := by
      intro destroy
      rcases (quiet_of_callerStep destroy taken).1 with ⟨c, here, destroy', _⟩
      exact ⟨t, c, here, destroy'⟩
    rcases frame.stop with same | ⟨setting, _⟩
    · rw [same] at now
      rcases inv.stopped now with ⟨u, c, here, destroy⟩
      by_cases me : u = t
      · subst me
        rw [mine] at here
        cases here
        exact stays destroy
      · exact ⟨u, c, by rw [others u me, here], destroy⟩
    · exact stays (inv.entry t call mine setting)
  · exact fun now => raised (inv.returned (writer _ (by decide) now))
  · exact fun now => (inv.woken (writer _ (by decide) now)).imp longer raised
  · exact fun now => longer (inv.popping (writer _ (by decide) now))

omit [DecidableEq τ] in
theorem writerStep (inv : StopInv s) (taken : s.writerStep = some s') : StopInv s' := by
  have moves : ∀ {X : State τ μ} (w : Writer), X.callers = s.callers → X.stopThread = s.stopThread →
      (w = .returned → s.stopThread = true) →
      (w = .testStop → X.queueBuffers ≠ [] ∨ s.stopThread = true) →
      (w = .pop → X.queueBuffers ≠ []) → StopInv (X.setWriter w) := by
    intro X w callers stop returned woken popping
    rw [← stop] at returned woken
    refine ⟨?_, ?_, returned, woken, popping⟩
    · intro t call here
      exact inv.entry t call (by rw [← callers]; exact here)
    · intro now
      have before : s.stopThread = true := by rw [← stop]; exact now
      rcases inv.stopped before with ⟨t, call, here, destroy⟩
      exact ⟨t, call, (congrFun callers t).trans here, destroy⟩
  have away : ∀ {X : State τ μ} (w : Writer), X.callers = s.callers → X.stopThread = s.stopThread →
      w ≠ .returned → w ≠ .testStop → w ≠ .pop → StopInv (X.setWriter w) := by
    intro X w callers stop first second third
    exact moves w callers stop (fun other => absurd other first) (fun other => absurd other second)
      fun other => absurd other third
  cases pc : s.writer <;> simp only [State.writerStep, pc] at taken
  case predicate =>
    cases taken
    split
    · rename_i woken
      exact moves (X := s) .testStop rfl rfl (by intro other; cases other) (fun _ => woken)
        (by intro other; cases other)
    · exact away (X := s) .sleep rfl rfl (by decide) (by decide) (by decide)
  case testStop =>
    split at taken <;> cases taken
    · rename_i both
      exact moves (X := s.setMutexQueue none) .returned rfl rfl (fun _ => both.1)
        (by intro other; cases other) (by intro other; cases other)
    · rename_i not
      refine moves (X := s) .pop rfl rfl (by intro other; cases other)
        (by intro other; cases other) fun _ => ?_
      rcases inv.woken pc with some | stopped
      · exact some
      · exact fun empty => not ⟨stopped, empty⟩
  case iterate i k n =>
    split at taken
    · rcases Option.map_eq_some_iff.mp taken with ⟨message, _, rfl⟩
      exact away (X := s.print message) _ rfl rfl (by intro other; cases other)
        (by intro other; cases other) (by intro other; cases other)
    · cases taken
      exact away (X := s) _ rfl rfl (by intro other; cases other)
        (by intro other; cases other) (by intro other; cases other)
  case lockQueue | pop | begin | lockBuffer =>
    split at taken <;> cases taken
    exact away _ rfl rfl (by intro other; cases other) (by intro other; cases other)
      (by intro other; cases other)
  case waiting | returned => cases taken
  all_goals
    cases taken
    exact away _ rfl rfl (by intro other; cases other) (by intro other; cases other)
      (by intro other; cases other)

theorem step {a : Action τ μ} (inv : StopInv s) (taken : FileLogPolicy.step s a = some s') :
    StopInv s' := by
  cases step_takes taken with
  | call t op absent =>
      refine ⟨?_, ?_, inv.returned, inv.woken, inv.popping⟩
      · intro u c here
        by_cases me : u = t
        · subst me
          simp only [State.enter, State.setCaller, Function.update_self, Option.some.injEq] at here
          subst here
          cases op <;> intro place <;> first | rfl | cases place
        · simp only [State.enter, State.setCaller, Function.update_of_ne me] at here
          exact inv.entry u c here
      · intro now
        rcases inv.stopped now with ⟨u, c, here, destroy⟩
        have different : u ≠ t := by
          intro me
          rw [me, absent] at here
          cases here
        exact ⟨u, c, (Function.update_of_ne different _ _).trans here, destroy⟩
  | caller t call mine taken => exact inv.callerStep mine taken
  | writer taken => exact inv.writerStep taken
  | spurious waiting =>
      exact ⟨inv.entry, inv.stopped, (by intro other; cases other), (by intro other; cases other),
        (by intro other; cases other)⟩

theorem of_reachable (reached : (machine τ μ).Reachable s) : StopInv s :=
  reached.invariant .start fun _ _ _ inv _ taken => inv.step taken

omit [DecidableEq τ] in
theorem writer_ne_returned (inv : StopInv s) (idle : s.idle) : s.writer ≠ .returned := by
  intro returned
  rcases inv.stopped (inv.returned returned) with ⟨t, call, here, _⟩
  rw [idle t] at here
  cases here

end StopInv

end CommonUtils.Logger.FileLogPolicy
