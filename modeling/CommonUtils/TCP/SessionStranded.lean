import CommonUtils.TCP.SessionWrite

namespace CommonUtils.TCP.SessionWrite

/-- What is queued has its one operation. -/
def Served (s : State) : Prop := s.writeQueue ≠ [] → s.outstanding.length = 1

def Fails : Action → Prop
  | .asyncWrite _ false _ => True
  | _ => False

def Action.data : Action → List Data
  | .sentData data => [data]
  | _ => []

theorem Inv.served_iff {s : State} (inv : Inv s) : Served s ↔ s.failedAt = none := by
  rcases inv.inFlight with ⟨idle, empty, live, _⟩ |
    ⟨front, rest, transferred, queue, op, _, live, _⟩ |
    ⟨front, rest, transferred, queue, idle, closed, _⟩
  · simp [Served, empty, live]
  · simp [Served, op, live]
  · simp [Served, queue, idle, closed]

theorem doWrite_failedAt {s s' : State} (ran : s.doWrite = some s') :
    s'.failedAt = s.failedAt := by
  unfold State.doWrite at ran
  split at ran <;> cases ran
  rfl

theorem writeSucceeded_failedAt {s s' : State} {now : Int}
    (ran : s.writeSucceeded now = some s') : s'.failedAt = s.failedAt := by
  unfold State.writeSucceeded at ran
  split at ran
  · cases ran
  · dsimp only at ran
    split at ran
    · cases ran
      rfl
    · rcases Option.map_eq_some_iff.mp ran with ⟨writing, started, rfl⟩
      exact (doWrite_failedAt started).trans rfl

/-- Only a completion with an error changes whether a write has failed. -/
theorem failedAt_step {s s' : State} {a : Action} (taken : step s a = some s') :
    s'.failedAt = none ↔ s.failedAt = none ∧ ¬ Fails a := by
  cases a with
  | sentData data =>
      have same : s'.failedAt = s.failedAt := by
        simp only [step, State.sentData] at taken
        split at taken
        · cases taken
          rfl
        · exact (doWrite_failedAt taken).trans rfl
      simp [same, Fails]
  | transfer i count =>
      have same : s'.failedAt = s.failedAt := by
        simp only [step] at taken
        split at taken
        · cases taken
        · split at taken <;> cases taken
          rfl
      simp [same, Fails]
  | close =>
      cases taken
      simp [State.close, Fails]
  | asyncWrite i success now =>
      simp only [step] at taken
      split at taken
      · cases taken
      · cases success with
        | false =>
            cases taken
            simp [State.writeFailed, State.close, Fails]
        | true =>
            simp only [↓reduceIte] at taken
            split at taken
            · have same := writeSucceeded_failedAt taken
              simp [same, Fails]
            · cases taken

/-- In just the runs in which no write fails every queued message has its operation. -/
theorem served_iff_never_fails (now : Int) (as : List Action) :
    (machine now).AllStates Served (start now) as ↔
      (machine now).AllSteps (fun _ a => ¬ Fails a) (start now) as := by
  apply Machine.allStates_iff_allSteps (I := Inv) (fun s a s' inv _ taken => inv.step taken)
  · intro s a s' inv _ served taken
    have live := inv.served_iff.mp served
    rw [(inv.step taken).served_iff, failedAt_step taken]
    simp [live]
  · exact .start now
  · exact (Inv.start now).served_iff.mpr rfl
  · exact Machine.allSteps_true _ _

theorem Inv.stranded_step {s s' : State} {a : Action} (inv : Inv s) (failed : s.failedAt ≠ none)
    (taken : SessionWrite.step s a = some s') :
    s'.failedAt ≠ none ∧ s'.writeQueue = s.writeQueue ++ a.data ∧ s'.wire = s.wire := by
  rcases inv.inFlight with ⟨_, _, live, _⟩ | ⟨_, _, _, _, _, _, live, _⟩ |
    ⟨front, rest, transferred, queue, idle, closed, wire⟩
  · exact absurd live failed
  · exact absurd live failed
  · cases a with
    | sentData data =>
        simp only [SessionWrite.step, State.sentData, queue] at taken
        cases taken
        simp [closed, queue, Action.data]
    | transfer i count => simp [SessionWrite.step, idle] at taken
    | asyncWrite i success now => simp [SessionWrite.step, idle] at taken
    | close =>
        cases taken
        simp [State.close, closed, Action.data]

/-- After a failure all data of later `SentData` calls stays in the queue. -/
theorem Inv.stranded_run {s s' : State} {as : List Action} (inv : Inv s)
    (failed : s.failedAt ≠ none) (now : Int) (ran : (machine now).runFrom s as = some s') :
    s'.outstanding = [] ∧ s'.writeQueue = s.writeQueue ++ as.flatMap Action.data ∧
      s'.wire = s.wire := by
  induction as generalizing s with
  | nil =>
      cases ran
      rcases inv.inFlight with ⟨idle, _, _, _⟩ | ⟨_, _, _, _, _, _, live, _⟩ |
        ⟨_, _, _, _, idle, _, _⟩
      · exact ⟨idle, by simp, rfl⟩
      · exact absurd live failed
      · exact ⟨idle, by simp, rfl⟩
  | cons a as ih =>
      rcases Machine.runFrom_cons_eq_some_iff.mp ran with ⟨next, taken, rest⟩
      have step := inv.stranded_step failed taken
      have later := ih (inv.step taken) step.1 rest
      refine ⟨later.1, ?_, later.2.2.trans step.2.2⟩
      rw [later.2.1, step.2.1, List.flatMap_cons, List.append_assoc]

/-- Two messages, the write of the first fails, and a third is sent. -/
def strandedRun : List Action :=
  [.sentData [1], .sentData [2], .close, .asyncWrite 0 false 5, .sentData [3]]

/-- And so it stays, whatever comes after. -/
theorem stranded : ∃ s, (machine 0).run strandedRun = some s ∧
    s.writeQueue = [[1], [2], [3]] ∧ s.outstanding = [] ∧ ¬ Served s ∧
      ∀ as s', (machine 0).runFrom s as = some s' → s'.outstanding = [] ∧
        s'.writeQueue = s.writeQueue ++ as.flatMap Action.data ∧ s'.wire = s.wire := by
  have reached := (machine 0).reachable_of_run strandedRun rfl
  have inv : Inv _ := reached.invariant (.start 0) fun _ _ _ inv _ taken => inv.step taken
  refine ⟨_, rfl, rfl, rfl, by unfold Served; decide, fun as s' ran => ?_⟩
  exact inv.stranded_run (by decide) 0 ran

end CommonUtils.TCP.SessionWrite
