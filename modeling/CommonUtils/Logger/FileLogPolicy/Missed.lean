import CommonUtils.Logger.FileLogPolicy.Shutdown

/-! The last notification. `stop_thread_` is raised and `notify_all` called outside
`mutex_queue_`, so that a writer between its test and its sleep misses both. -/

namespace CommonUtils.Logger.FileLogPolicy

variable {τ μ : Type*}

def Joining (d : τ) (s : State τ μ) : Prop :=
  ∃ call, s.callers d = some call ∧ call.op = .destroy ∧ call.pc = .join

/-- The destructor is in `join` and the writer is asleep un-notified, or about to fall
asleep on a test that it made before. -/
def Missed (d : τ) (s : State τ μ) : Prop :=
  Joining d s ∧ (s.writer = .waiting ∨ s.writer = .sleep)

/-- `notify_all` runs between the writer's test and its sleep. -/
def Overtaken (s : State τ μ) : Action τ μ → Prop
  | .caller t => s.writer = .sleep ∧ ∃ call, s.callers t = some call ∧ call.pc = .notifyAll
  | _ => False

def Stopping (d : τ) (s : State τ μ) : Prop :=
  ∃ call, s.callers d = some call ∧ call.op = .destroy ∧
    (call.pc ≠ .setStop → s.stopThread = true)

theorem Stopping.stopped {d : τ} {s : State τ μ} (stopping : Stopping d s) (joining : Joining d s) :
    s.stopThread = true := by
  rcases stopping with ⟨call, mine, _, stopped⟩
  rcases joining with ⟨call', mine', _, join⟩
  rw [mine] at mine'
  cases mine'
  exact stopped (by rw [join]; simp)

theorem awake_of_writerStep {s s' : State τ μ} (stop : s.stopThread = true)
    (awake : ¬ (s.writer = .waiting ∨ s.writer = .sleep)) (taken : s.writerStep = some s') :
    ¬ (s'.writer = .waiting ∨ s'.writer = .sleep) := by
  rw [not_or] at awake
  cases pc : s.writer <;> simp only [State.writerStep, pc] at taken
  case predicate =>
    cases taken
    simp [State.setWriter, stop]
  case iterate =>
    split at taken
    · rcases Option.map_eq_some_iff.mp taken with ⟨message, _, rfl⟩
      simp [State.setWriter]
    · cases taken
      simp [State.setWriter]
  case lockQueue | testStop | pop | begin | lockBuffer =>
    split at taken <;> cases taken <;> simp [State.setWriter]
  case sleep => exact absurd pc awake.2
  case waiting | returned => cases taken
  all_goals
    cases taken
    simp [State.setWriter]

variable [DecidableEq τ]

/-- `join` is reached through `notify_all` only. -/
theorem notified_of_callerStep {s s' : State τ μ} {d : τ} {call next : Call μ}
    (taken : s.callerStep d call = some s') (here : s'.callers d = some next)
    (join : next.pc = .join) : call.pc = .notifyAll ∧ s'.writer = s.writer.notified := by
  rcases call with ⟨op, mutex, pc⟩
  cases pc <;> simp only [State.callerStep] at taken
  case notifyAll =>
    cases taken
    exact ⟨rfl, rfl⟩
  case lockBuffer | pushBack | lockQueue | join =>
    split at taken <;> cases taken
    simp only [State.setCaller, Function.update_self, Option.some.injEq] at here
    subst here
    cases join
  case test | nextTest =>
    split at taken <;> cases taken
    simp only [State.setCaller, Function.update_self, Option.some.injEq] at here
    subst here
    simp only at join
    split at join <;> cases join
  case nextBound =>
    cases taken
    simp only [State.setCaller, Function.update_self, Option.some.injEq] at here
    subst here
    simp only at join
    split at join <;> cases join
  case clearFlag =>
    split at taken <;> cases taken
    simp only [State.setCaller, Function.update_self, Option.some.injEq] at here
    subst here
    cases op <;> cases join
  case select | notifyOne =>
    cases taken
    simp only [State.setCaller, Function.update_self, Option.some.injEq] at here
    subst here
    cases op <;> cases join
  case unlockBuffer =>
    cases taken
    cases op with
    | write | flush => simp [State.finish, State.setCaller] at here
    | destroy =>
        simp only [State.finish, State.setCaller, Function.update_self, Option.some.injEq] at here
        subst here
        cases join
  case closed => cases taken
  all_goals
    cases taken
    simp only [State.setCaller, Function.update_self, Option.some.injEq] at here
    subst here
    cases join

namespace Stopping

variable {d : τ} {s s' : State τ μ}

theorem callerStep {call : Call μ} (stopping : Stopping d s) (mine : s.callers d = some call)
    (taken : s.callerStep d call = some s') : Stopping d s' := by
  rcases stopping with ⟨call', mine', destroy, stopped⟩
  rw [mine] at mine'
  cases mine'
  have frame := callerFrame_of_callerStep taken
  rcases (quiet_of_callerStep destroy taken).1 with ⟨next, here, destroy', _⟩
  refine ⟨next, here, destroy', fun _ => ?_⟩
  rcases frame.stop with same | ⟨_, raised⟩
  · by_cases first : call.pc = .setStop
    · rcases call with ⟨op, mutex, pc⟩
      cases first
      simp only [State.callerStep] at taken
      cases taken
      rfl
    · rw [same, stopped first]
  · exact raised

theorem step {a : Action τ μ} (stopping : Stopping d s) (allowed : Shutdown d a)
    (taken : FileLogPolicy.step s a = some s') : Stopping d s' := by
  rcases stopping with ⟨call, mine, destroy, stopped⟩
  cases step_takes taken with
  | call t op absent => cases allowed
  | caller t own here taken =>
      cases allowed
      exact callerStep ⟨call, mine, destroy, stopped⟩ here taken
  | writer taken =>
      have frame := writerFrame_of_writerStep taken
      exact ⟨call, by rw [frame.callers, mine], destroy, by rwa [frame.stop]⟩
  | spurious waiting => exact ⟨call, mine, destroy, stopped⟩

/-- The notification is missed exactly where it overtakes the writer. -/
theorem missed_iff {a : Action τ μ} (stopping : Stopping d s) (allowed : Shutdown d a)
    (good : ¬ Missed d s) (taken : FileLogPolicy.step s a = some s') :
    ¬ Missed d s' ↔ ¬ Overtaken s a := by
  cases step_takes taken with
  | call t op absent => cases allowed
  | caller t call mine taken =>
      cases allowed
      rcases stopping with ⟨own, here, destroy, _⟩
      cases mine.symm.trans here
      rw [not_iff_not]
      constructor
      · intro missed
        rcases missed with ⟨⟨next, here, _, join⟩, asleep⟩
        rcases notified_of_callerStep taken here join with ⟨notifying, notified⟩
        refine ⟨?_, call, mine, notifying⟩
        rw [notified] at asleep
        cases pc : s.writer <;> rw [pc] at asleep <;>
          rcases asleep with same | same <;> first | rfl | cases same
      · intro overtaken
        rcases overtaken with ⟨asleep, call', mine', notifying⟩
        rw [mine] at mine'
        cases mine'
        rcases call with ⟨op, mutex, pc⟩
        cases notifying
        simp only [State.callerStep] at taken
        cases taken
        refine ⟨⟨_, Function.update_self _ _ _, destroy, rfl⟩, .inr ?_⟩
        simp [State.setCaller, State.notify, State.setWriter, asleep, Writer.notified]
  | writer taken =>
      refine iff_of_true ?_ id
      intro missed
      rcases missed with ⟨joining, asleep⟩
      have frame := writerFrame_of_writerStep taken
      have before : Joining d s := by rwa [Joining, frame.callers] at joining
      have awake : ¬ (s.writer = .waiting ∨ s.writer = .sleep) :=
        fun asleep => good ⟨before, asleep⟩
      exact awake_of_writerStep (stopping.stopped before) awake taken asleep
  | spurious waiting =>
      refine iff_of_true ?_ id
      simp [Missed, State.setWriter]

end Stopping

/-- From any state, the destructor passes through no missed notification exactly if it
never overtakes the writer with it. -/
theorem never_missed_iff_never_overtaken (d : τ) (s : State τ μ) (as : List (Action τ μ))
    (shutdown : ∀ a ∈ as, Shutdown d a) :
    (machine τ μ).AllStates (fun s => ¬ Missed d s) (s.enter d .destroy) as ↔
      (machine τ μ).AllSteps (fun s a => ¬ Overtaken s a) (s.enter d .destroy) as := by
  have begun : Stopping d (s.enter d .destroy) := by
    refine ⟨_, Function.update_self _ _ _, rfl, ?_⟩
    intro other
    exact absurd rfl other
  apply Machine.allStates_iff_allSteps (I := Stopping d) (A := fun _ a => Shutdown d a)
  · exact fun s a s' stopping allowed taken => stopping.step allowed taken
  · exact fun s a s' stopping allowed good taken => stopping.missed_iff allowed good taken
  · exact begun
  · intro missed
    rcases missed.1 with ⟨call, mine, _, join⟩
    simp only [State.enter, State.setCaller, Function.update_self, Option.some.injEq] at mine
    subst mine
    cases join
  · exact Machine.allSteps_of_forall _ fun a member _ => shutdown a member

/-- The writer tests its condition, finds nothing, and the destructor of a policy
with an empty buffer goes by before it falls asleep. -/
def overtakingRun : List (Action Unit Nat) :=
  [.writer, .writer, .caller (), .caller (), .caller (), .caller (), .caller (), .caller (),
    .caller (), .writer]

theorem shutdown_overtakingRun : ∀ a ∈ overtakingRun, Shutdown () a := by
  simp [overtakingRun, Shutdown]

theorem never_missed_iff_never_overtaken_run :
    (machine Unit Nat).AllStates (fun s => ¬ Missed () s) ((start Unit Nat).enter () .destroy)
        overtakingRun ↔
      (machine Unit Nat).AllSteps (fun s a => ¬ Overtaken s a)
        ((start Unit Nat).enter () .destroy) overtakingRun :=
  never_missed_iff_never_overtaken () (start Unit Nat) overtakingRun shutdown_overtakingRun

def NeverAsleepInJoin (τ μ : Type*) [DecidableEq τ] : Prop :=
  ∀ (d : τ) (s s' : State τ μ), (machine τ μ).Reachable s → s.idle →
    During d (s.enter d .destroy) s' → ¬ (Joining d s' ∧ s'.writer = .waiting)

theorem asleep_in_join : ¬ NeverAsleepInJoin Unit Nat := by
  intro never
  have along : (machine Unit Nat).AllSteps (fun _ a => Shutdown () a)
      ((start Unit Nat).enter () .destroy) overtakingRun :=
    Machine.allSteps_of_forall _ fun a member _ => shutdown_overtakingRun a member
  exact never () (start Unit Nat) _ .origin (fun _ => rfl)
    (Machine.reachFrom_of_run .origin along rfl) ⟨⟨_, rfl, rfl, rfl⟩, rfl⟩

end CommonUtils.Logger.FileLogPolicy
