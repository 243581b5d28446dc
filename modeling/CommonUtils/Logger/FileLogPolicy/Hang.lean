import CommonUtils.Logger.FileLogPolicy.Shutdown

namespace CommonUtils.Logger.FileLogPolicy

variable {τ μ : Type*}

/-- The current buffer holds messages, no other buffer is marked empty and none is on
its way to be: `NextBuffer` would look for ever. -/
structure Clogged (s : State τ μ) : Prop where
  full : s.buffers s.currentBuffer ≠ []
  flags : ∀ i < bufferCount, i ≠ s.currentBuffer → s.bufferIsEmpty i = false
  queue : s.queueBuffers = []
  writer : s.writer.popped = none ∨ s.writer = .setFlag s.currentBuffer

/-- `current_buffer_` or an entry of the queue is no index of a buffer, or the ring
is clogged. -/
def Hangs (s : State τ μ) : Prop :=
  bufferCount ≤ s.currentBuffer ∨ (∃ i ∈ s.awaiting, bufferCount ≤ i) ∨ Clogged s

structure Marking (s : State τ μ) : Prop where
  flags : ∀ i < bufferCount, i ≠ s.currentBuffer → s.bufferIsEmpty i = false
  writer : s.writer.popped = none

def HungAt (s : State τ μ) (call : Call μ) : Prop :=
  match call.pc with
  | .setStop | .readMutex => bufferCount ≤ s.currentBuffer ∨ Clogged s
  | .lockBuffer => call.mutex = s.currentBuffer ∧ (bufferCount ≤ s.currentBuffer ∨ Clogged s)
  | .select | .lockQueue | .readIndex => call.mutex = s.currentBuffer ∧ Clogged s
  | .test i | .enqueue i => i = s.currentBuffer ∧ call.mutex = s.currentBuffer ∧ Clogged s
  | .readFlag => Marking s
  | .clearFlag i => i = s.currentBuffer ∧ Marking s
  | .nextRead | .nextTest _ | .nextBound | .nextAdd | .nextStore _ =>
      s.writer.popped = none ∧ ∀ i < bufferCount, s.bufferIsEmpty i = false
  | _ => False

theorem Clogged.writerStep {s s' : State τ μ} (clogged : Clogged s)
    (taken : s.writerStep = some s') : Clogged s' := by
  have full := clogged.full
  have flags := clogged.flags
  have queue := clogged.queue
  have place := clogged.writer
  cases pc : s.writer <;> rw [pc] at place <;> simp only [State.writerStep, pc] at taken
  case lockQueue =>
    split at taken <;> cases taken
    exact ⟨full, flags, queue, .inl rfl⟩
  case predicate =>
    cases taken
    refine ⟨full, flags, queue, .inl ?_⟩
    simp only [State.setWriter]
    split <;> rfl
  case testStop =>
    split at taken <;> cases taken <;> exact ⟨full, flags, queue, .inl rfl⟩
  case pop =>
    rw [queue] at taken
    cases taken
  case sleep | unlockBuffer | flushFile =>
    cases taken
    exact ⟨full, flags, queue, .inl rfl⟩
  case setFlag i =>
    rcases place with other | same
    · cases other
    · cases same
      cases taken
      refine ⟨full, ?_, queue, .inl rfl⟩
      intro j small different
      exact (Function.update_of_ne different _ _).trans (flags j small different)
  case waiting | returned => cases taken
  all_goals
    rcases place with other | other <;> cases other

theorem idle_of_writerStep {s s' : State τ μ} (outside : s.writer.holds .queue = false)
    (popped : s.writer.popped = none) (taken : s.writerStep = some s') :
    s'.writer.popped = none ∧ s'.bufferIsEmpty = s.bufferIsEmpty := by
  cases pc : s.writer <;> rw [pc] at outside popped <;> simp only [State.writerStep, pc] at taken
  case lockQueue =>
    split at taken <;> cases taken
    exact ⟨rfl, rfl⟩
  case unlockBuffer | flushFile =>
    cases taken
    exact ⟨rfl, rfl⟩
  case waiting | returned => cases taken
  case predicate | sleep | testStop | pop => cases outside
  all_goals cases popped

structure Hung (d : τ) (s : State τ μ) : Prop where
  locks : LockInv s
  call : ∃ call, s.callers d = some call ∧ call.op = .destroy ∧ HungAt s call

namespace Hung

variable {d : τ} {s s' : State τ μ}

theorem not_destroyed (hung : Hung d s) : ¬ s.destroyed d := by
  intro destroyed
  rcases destroyed with ⟨call, mine, _, closed⟩
  rcases hung.call with ⟨call', mine', _, place⟩
  rw [mine] at mine'
  cases mine'
  rw [HungAt, closed] at place
  exact place

variable [DecidableEq τ]

theorem callerStep {call : Call μ} (locks : LockInv s) (mine : s.callers d = some call)
    (destroy : call.op = .destroy) (place : HungAt s call) (locks' : LockInv s')
    (taken : s.callerStep d call = some s') : Hung d s' := by
  have goes : ∀ (X : State τ μ) (k : Nat) (pc : Pc),
      HungAt (X.setCaller d (some ⟨.destroy, k, pc⟩)) ⟨.destroy, k, pc⟩ →
        LockInv (X.setCaller d (some ⟨.destroy, k, pc⟩)) →
          Hung d (X.setCaller d (some ⟨.destroy, k, pc⟩)) := by
    intro X k pc place locks
    exact ⟨locks, _, Function.update_self _ _ _, rfl, place⟩
  rcases call with ⟨op, mutex, pc⟩
  cases destroy
  cases pc <;> simp only [State.callerStep] at taken <;> simp only [HungAt] at place
  case setStop =>
    cases taken
    apply goes _ _ _ _ locks'
    rcases place with beyond | clogged
    · exact .inl beyond
    · exact .inr { clogged with }
  case readMutex =>
    cases taken
    exact goes _ _ _ ⟨rfl, place.imp id fun clogged => { clogged with }⟩ locks'
  case lockBuffer =>
    split at taken <;> cases taken
    rename_i enabled
    apply goes _ _ _ _ locks'
    rcases place with ⟨same, beyond | clogged⟩
    · exact absurd enabled.1 (by omega)
    · exact ⟨same, { clogged with }⟩
  case select | readIndex =>
    cases taken
    exact goes _ _ _ ⟨rfl, place.1, { place.2 with }⟩ locks'
  case test i =>
    split at taken <;> cases taken
    rcases place with ⟨rfl, same, clogged⟩
    have full : Op.queues (.destroy : Op μ) (s.buffers s.currentBuffer) = true := by
      simpa [Op.queues] using clogged.full
    simp only [full, if_pos] at locks' ⊢
    exact goes _ _ _ ⟨same, { clogged with }⟩ locks'
  case lockQueue =>
    split at taken <;> cases taken
    exact goes _ _ _ ⟨place.1, { place.2 with }⟩ locks'
  case enqueue i =>
    cases taken
    rcases place with ⟨rfl, same, clogged⟩
    apply goes _ _ _ _ locks'
    refine ⟨clogged.flags, ?_⟩
    apply clogged.writer.resolve_right
    intro flagging
    have outside := locks.writer_outside (m := .buffer mutex) mine
      (by simp [Call.holds, Call.holdsBuffer])
    rw [flagging, same] at outside
    simp [Writer.holds] at outside
  case readFlag =>
    cases taken
    exact goes _ _ _ ⟨rfl, { place with }⟩ locks'
  case clearFlag i =>
    split at taken <;> cases taken
    rcases place with ⟨rfl, marking⟩
    apply goes _ _ _ _ locks'
    refine ⟨marking.writer, ?_⟩
    intro i small
    by_cases same : i = s.currentBuffer
    · simp [State.setFlag, State.setCaller, same]
    · simpa [State.setFlag, State.setCaller, same] using marking.flags i small same
  case nextRead | nextAdd | nextStore =>
    cases taken
    exact goes _ _ _ place locks'
  case nextBound =>
    cases taken
    split at locks'
    · rw [if_pos ‹_›]
      exact goes _ _ _ place locks'
    · rw [if_neg ‹_›]
      exact goes _ _ _ place locks'
  case nextTest i =>
    split at taken <;> cases taken
    rename_i small
    simp only [place.2 i small] at locks' ⊢
    exact goes _ _ _ place locks'

omit [DecidableEq τ] in
theorem frame (hung : Hung d s) (locks' : LockInv s') (callers : s'.callers = s.callers)
    (current : s'.currentBuffer = s.currentBuffer) (clogged : Clogged s → Clogged s')
    (still : s.writer.holds .queue = false → s.writer.popped = none →
      s'.writer.popped = none ∧ s'.bufferIsEmpty = s.bufferIsEmpty) : Hung d s' := by
  rcases hung.call with ⟨call, mine, destroy, place⟩
  refine ⟨locks', call, by rw [callers, mine], destroy, ?_⟩
  have outside : call.holds .queue = true → s.writer.holds .queue = false :=
    fun held => hung.locks.writer_outside mine held
  rcases call with ⟨op, mutex, pc⟩
  cases destroy
  cases pc <;> simp only [HungAt] at place ⊢
  case setStop | readMutex =>
    rw [current]
    exact place.imp id clogged
  case lockBuffer =>
    rw [current]
    exact ⟨place.1, place.2.imp id clogged⟩
  case select | lockQueue | readIndex =>
    rw [current]
    exact ⟨place.1, clogged place.2⟩
  case test | enqueue =>
    rw [current]
    exact ⟨place.1, place.2.1, clogged place.2.2⟩
  case readFlag =>
    rcases still (outside rfl) place.writer with ⟨writer, flags⟩
    refine ⟨?_, writer⟩
    rw [flags, current]
    exact place.flags
  case clearFlag i =>
    rcases still (outside rfl) place.2.writer with ⟨writer, flags⟩
    rw [current]
    refine ⟨place.1, ?_, writer⟩
    rw [flags, current]
    exact place.2.flags
  case nextRead | nextTest | nextBound | nextAdd | nextStore =>
    rcases still (outside rfl) place.1 with ⟨writer, flags⟩
    rw [flags]
    exact ⟨writer, place.2⟩

theorem step {a : Action τ μ} (hung : Hung d s) (allowed : Shutdown d a)
    (taken : FileLogPolicy.step s a = some s') : Hung d s' := by
  have locks' := hung.locks.step taken
  rcases hung.call with ⟨call, mine, destroy, place⟩
  cases step_takes taken with
  | call t op absent => cases allowed
  | caller t own here taken =>
      cases allowed
      cases here.symm.trans mine
      exact callerStep hung.locks mine destroy place locks' taken
  | writer taken =>
      have frame := writerFrame_of_writerStep taken
      exact hung.frame locks' frame.callers frame.current
        (fun clogged => clogged.writerStep taken)
        fun outside popped => idle_of_writerStep outside popped taken
  | spurious waiting =>
      exact hung.frame locks' rfl rfl
        (fun clogged => ⟨clogged.full, clogged.flags, clogged.queue, .inl rfl⟩)
        fun _ _ => ⟨rfl, rfl⟩

end Hung

variable [DecidableEq τ]

structure Astray (d : τ) (i : Nat) (s : State τ μ) : Prop where
  inv : WriterInv s
  joins : Joins d s
  entry : i ∈ s.awaiting

theorem Astray.step {d : τ} {i : Nat} {s s' : State τ μ} {a : Action τ μ} (astray : Astray d i s)
    (beyond : bufferCount ≤ i) (allowed : Shutdown d a)
    (taken : FileLogPolicy.step s a = some s') : Astray d i s' := by
  have inv := astray.inv.step taken
  have entry := astray.entry
  rcases shutdown_cases astray.joins allowed taken with ⟨joins, written | quiet⟩
  · refine ⟨inv, joins, ?_⟩
    rcases awaiting_of_writerStep written with same | ⟨j, k, n, pc, shorter⟩
    · rwa [same]
    · have small := astray.inv.inside j (by rw [pc]; rfl)
      rw [shorter] at entry
      apply (List.mem_cons.mp entry).resolve_left
      omega
  · exact ⟨inv, joins, quiet.mem_awaiting entry⟩

/-- A destructor begun in such a state does not return. -/
theorem not_destroyed_of_hangs {d : τ} {s s' : State τ μ} (inv : WriterInv s) (idle : s.idle)
    (hangs : Hangs s) (reached : During d (s.enter d .destroy) s') : ¬ s'.destroyed d := by
  have hung : (bufferCount ≤ s.currentBuffer ∨ Clogged s) → ¬ s'.destroyed d := by
    intro place
    have hung : Hung d s' := by
      apply reached.invariant (I := Hung d)
      · exact ⟨inv.locks.step (step_enter idle), _, Function.update_self _ _ _, rfl,
          place.imp id fun clogged => { clogged with }⟩
      · exact fun s a s' hung allowed taken => hung.step allowed taken
    exact hung.not_destroyed
  rcases hangs with beyond | ⟨i, entry, beyond⟩ | clogged
  · exact hung (.inl beyond)
  · intro destroyed
    have astray : Astray d i s' := by
      apply reached.invariant (I := Astray d i)
      · exact ⟨inv.step (step_enter idle), joins_of_enter d s, entry⟩
      · exact fun s a s' astray allowed taken => astray.step beyond allowed taken
    have entry := astray.entry
    rw [State.awaiting, if_pos ((astray.joins.returned destroyed).1)] at entry
    cases entry
  · exact hung (.inr clogged)

end CommonUtils.Logger.FileLogPolicy
