import CommonUtils.Logger.FileLogPolicy.Locks

namespace CommonUtils.Logger.FileLogPolicy

variable {τ μ : Type*} [DecidableEq τ]

@[simp] theorem State.setCaller_setCaller (s : State τ μ) (t : τ) (c c' : Option (Call μ)) :
    (s.setCaller t c).setCaller t c' = s.setCaller t c' := by
  simp [State.setCaller]

theorem callerStep_setCaller (s : State τ μ) (t : τ) (c : Option (Call μ)) (call : Call μ) :
    (s.setCaller t c).callerStep t call = s.callerStep t call := by
  rcases call with ⟨op, mutex, pc⟩
  cases pc
  case unlockBuffer =>
    cases op <;> simp [State.callerStep, State.finish, State.setCaller, State.setMutexBuffer]
  case test | nextTest =>
    simp only [State.callerStep, State.setCaller_setCaller]
    rfl
  all_goals
    simp [State.callerStep, State.setCaller, State.setMutexBuffer, State.append,
      State.setMutexQueue, State.enqueue, State.setFlag, State.setCurrent, State.notify,
      State.setWriter, State.flushFile]

theorem runFrom_caller (s : State τ μ) (t : τ) (call : Call μ) (as : List (Action τ μ)) :
    (machine τ μ).runFrom (s.setCaller t (some call)) (.caller t :: as) =
      (s.callerStep t call).bind fun s' => (machine τ μ).runFrom s' as := by
  rw [Machine.runFrom_cons, ← callerStep_setCaller s t (some call)]
  simp [machine, step, State.setCaller]

def following (i : Nat) : Nat := if i + 1 > 15 then 0 else i + 1

section

variable (s : State τ μ) (t : τ) (op : Op μ) (k : Nat)

theorem choose_run (keeps : op.keepsQueue = true) (small : s.currentBuffer < bufferCount)
    (free : s.mutexBuffers s.currentBuffer = none) (full : s.buffers s.currentBuffer ≠ []) :
    (machine τ μ).runFrom (s.setCaller t (some ⟨op, k, .readMutex⟩))
        (List.replicate 4 (.caller t)) =
      some ((s.setMutexBuffer s.currentBuffer (some (.caller t))).setCaller t
        (some ⟨op, s.currentBuffer, .lockQueue⟩)) := by
  have select : op.afterSelect s.currentBuffer = .test s.currentBuffer := by
    cases op <;> first | rfl | cases keeps
  have queues : op.queues (s.buffers s.currentBuffer) = true := by
    cases op <;> first | simpa [Op.queues] using full | cases keeps
  simp [List.replicate_succ, runFrom_caller, State.callerStep, State.setMutexBuffer, small, free,
    select, queues]

theorem queue_run (free : s.mutexQueue = none) (small : s.currentBuffer < bufferCount) :
    (machine τ μ).runFrom (s.setCaller t (some ⟨op, k, .lockQueue⟩))
        (List.replicate 5 (.caller t)) =
      some ((((s.setMutexQueue (some (.caller t))).enqueue s.currentBuffer).setFlag
        s.currentBuffer false).setCaller t (some ⟨op, k, op.afterClear⟩)) := by
  simp [List.replicate_succ, runFrom_caller, State.callerStep, State.setMutexQueue, State.enqueue,
    State.setFlag, small, free]

def State.marked (s : State τ μ) (t : τ) : State τ μ :=
  (((s.setMutexBuffer s.currentBuffer (some (.caller t))).setMutexQueue
    (some (.caller t))).enqueue s.currentBuffer).setFlag s.currentBuffer false

theorem marked_run (keeps : op.keepsQueue = true) (small : s.currentBuffer < bufferCount)
    (free : s.mutexBuffers s.currentBuffer = none) (full : s.buffers s.currentBuffer ≠ [])
    (freeQueue : s.mutexQueue = none) :
    (machine τ μ).runFrom (s.setCaller t (some ⟨op, k, .readMutex⟩))
        (List.replicate 9 (.caller t)) =
      some ((s.marked t).setCaller t (some ⟨op, s.currentBuffer, .nextRead⟩)) := by
  have clear : op.afterClear = .nextRead := by
    cases op <;> first | rfl | cases keeps
  have chosen := choose_run s t op k keeps small free full
  have queued := queue_run (s.setMutexBuffer s.currentBuffer (some (.caller t))) t op
    s.currentBuffer freeQueue small
  rw [clear] at queued
  exact Machine.runFrom_trans chosen queued

def turnSteps (τ μ : Type*) (t : τ) (i : Nat) : List (Action τ μ) :=
  List.replicate (if i + 1 > 15 then 4 else 5) (.caller t)

theorem turn_run (small : s.currentBuffer < bufferCount)
    (marked : s.bufferIsEmpty s.currentBuffer = false) :
    (machine τ μ).runFrom (s.setCaller t (some ⟨op, k, .nextRead⟩))
        (turnSteps τ μ t s.currentBuffer) =
      some ((s.setCurrent (following s.currentBuffer)).setCaller t
        (some ⟨op, k, .nextRead⟩)) := by
  by_cases last : 15 < s.currentBuffer + 1 <;>
    simp [turnSteps, following, last, List.replicate_succ, runFrom_caller, State.callerStep,
      State.setCurrent, small, marked]

theorem notify_run (keeps : op.keepsQueue = true) (small : s.currentBuffer < bufferCount)
    (vacant : s.bufferIsEmpty s.currentBuffer = true) :
    (machine τ μ).runFrom (s.setCaller t (some ⟨op, k, .nextRead⟩))
        (List.replicate 4 (.caller t)) =
      some ((s.notify.setMutexQueue none).setCaller t (some ⟨op, k, .unlockBuffer⟩)) := by
  have notify : op.afterNotify = .unlockQueue := by
    cases op <;> first | rfl | cases keeps
  simp [List.replicate_succ, runFrom_caller, State.callerStep, State.setMutexQueue, State.notify,
    State.setWriter, small, vacant, notify]

def State.turned (s : State τ μ) (t : τ) : State τ μ :=
  (s.marked t).setCurrent (following s.currentBuffer)

def turnedSteps (τ μ : Type*) (t : τ) (i : Nat) : List (Action τ μ) :=
  List.replicate 9 (.caller t) ++ turnSteps τ μ t i

theorem turned_run (keeps : op.keepsQueue = true) (small : s.currentBuffer < bufferCount)
    (free : s.mutexBuffers s.currentBuffer = none) (full : s.buffers s.currentBuffer ≠ [])
    (freeQueue : s.mutexQueue = none) :
    (machine τ μ).runFrom (s.setCaller t (some ⟨op, k, .readMutex⟩))
        (turnedSteps τ μ t s.currentBuffer) =
      some ((s.turned t).setCaller t (some ⟨op, s.currentBuffer, .nextRead⟩)) := by
  have marked := marked_run s t op k keeps small free full freeQueue
  apply Machine.runFrom_trans marked
  exact turn_run (s.marked t) t op s.currentBuffer small (Function.update_self _ _ _)

end

def State.wrote (s : State τ μ) (m : μ) : State τ μ :=
  { s.append s.currentBuffer [m] with
    written := s.written ++ [m]
    returned := s.returned ++ [m] }

def State.flushed (s : State τ μ) : State τ μ :=
  (((s.enqueue s.currentBuffer).setFlag s.currentBuffer false).setCurrent
    (following s.currentBuffer)).notify

def writeSteps (t : τ) (m : μ) : List (Action τ μ) :=
  .call t (.write m) :: List.replicate 7 (.caller t)

theorem write_run (s : State τ μ) (t : τ) (m : μ) (absent : s.callers t = none)
    (small : s.currentBuffer < bufferCount) (free : s.mutexBuffers s.currentBuffer = none)
    (room : (s.buffers s.currentBuffer).length + 1 < bufferSize) :
    (machine τ μ).runFrom s (writeSteps t m) = some (s.wrote m) := by
  have callers : Function.update s.callers t none = s.callers := by
    rw [← absent, Function.update_eq_self]
  have mutexes : Function.update s.mutexBuffers s.currentBuffer none = s.mutexBuffers := by
    rw [← free, Function.update_eq_self]
  have below : ¬ bufferSize ≤ (s.buffers s.currentBuffer).length + 1 := by omega
  simp [writeSteps, List.replicate_succ, Machine.runFrom_cons, machine, step, absent, State.enter,
    State.setCaller, Op.entry, State.callerStep, State.setMutexBuffer, small, free, Op.afterSelect,
    State.append, State.wrote, Op.messages, Op.queues, below, State.finish, callers, mutexes]

theorem flush_call (s : State τ μ) (t : τ) (absent : s.callers t = none) :
    (machine τ μ).runFrom s [.call t .flush] =
      some (s.setCaller t (some ⟨.flush, 0, .readMutex⟩)) := by
  simp [Machine.runFrom_cons, machine, step, absent, State.enter, Op.messages, State.setCaller,
    Op.entry]

def flushSteps (τ μ : Type*) (t : τ) (i : Nat) : List (Action τ μ) :=
  [.call t .flush] ++ turnedSteps τ μ t i ++ List.replicate 4 (.caller t) ++ [.caller t]

theorem flush_run (s : State τ μ) (t : τ) (absent : s.callers t = none)
    (small : s.currentBuffer < bufferCount) (next : following s.currentBuffer < bufferCount)
    (free : s.mutexBuffers s.currentBuffer = none) (freeQueue : s.mutexQueue = none)
    (full : s.buffers s.currentBuffer ≠ [])
    (different : following s.currentBuffer ≠ s.currentBuffer)
    (vacant : s.bufferIsEmpty (following s.currentBuffer) = true) :
    (machine τ μ).runFrom s (flushSteps τ μ t s.currentBuffer) = some s.flushed := by
  have callers : Function.update s.callers t none = s.callers := by
    rw [← absent, Function.update_eq_self]
  have mutexes : Function.update s.mutexBuffers s.currentBuffer none = s.mutexBuffers := by
    rw [← free, Function.update_eq_self]
  have turned := turned_run s t .flush 0 rfl small free full freeQueue
  have empty : (s.turned t).bufferIsEmpty (s.turned t).currentBuffer = true :=
    (Function.update_of_ne different _ _).trans vacant
  have notified := notify_run (s.turned t) t .flush s.currentBuffer rfl next empty
  have entered := Machine.runFrom_trans (flush_call s t absent) turned
  apply Machine.runFrom_trans (Machine.runFrom_trans entered notified)
  rw [runFrom_caller]
  simp [State.callerStep, State.finish, State.turned, State.marked, State.flushed, State.setCaller,
    State.setMutexBuffer, State.setMutexQueue, State.notify, State.setWriter, State.setCurrent,
    State.setFlag, State.enqueue, callers, mutexes, freeQueue]

def starved (τ : Type*) (k : Nat) : State τ Nat :=
  { start τ Nat with
    buffers := fun i => if i < k then [i] else []
    bufferIsEmpty := fun i => decide (k ≤ i)
    currentBuffer := k
    queueBuffers := List.range k
    written := List.range k
    pushed := List.range k
    returned := List.range k }

def WriterAndFlusher (w f : τ) : Action τ μ → Prop
  | .call t (.write _) => t = w
  | .call t .flush => t = f
  | .call _ .destroy => False
  | _ => True

instance (w f : τ) : (a : Action τ μ) → Decidable (WriterAndFlusher w f a)
  | .call t (.write _) => inferInstanceAs (Decidable (t = w))
  | .call t .flush => inferInstanceAs (Decidable (t = f))
  | .call _ .destroy => isFalse id
  | .caller _ | .writer | .spurious => isTrue trivial

def starveSteps (w f : τ) : Nat → List (Action τ Nat)
  | 0 => []
  | k + 1 => starveSteps w f k ++ (writeSteps w k ++ flushSteps τ Nat f k)

omit [DecidableEq τ] in
theorem flushed_starved {k : Nat} (below : k < 15) :
    ((starved τ k).wrote k).flushed = starved τ (k + 1) := by
  have next : following k = k + 1 := if_neg (by omega)
  have buffers : Function.update (starved τ k).buffers k [k] = (starved τ (k + 1)).buffers := by
    funext i
    by_cases same : i = k
    · simp [starved, same]
    · have less : i < k + 1 ↔ i < k := by omega
      simp only [starved, Function.update_of_ne same, less]
  have flags : Function.update (starved τ k).bufferIsEmpty k false =
      (starved τ (k + 1)).bufferIsEmpty := by
    funext i
    by_cases same : i = k
    · simp [starved, same]
    · have more : k + 1 ≤ i ↔ k ≤ i := by omega
      simp only [starved, Function.update_of_ne same, more]
  have empty : (starved τ k).buffers k = [] := if_neg (Nat.lt_irrefl k)
  have current : (starved τ k).currentBuffer = k := rfl
  simp only [State.flushed, State.wrote, State.append, current, empty, List.nil_append, buffers,
    State.enqueue, State.setFlag, flags, next]
  simp [starved, State.setCurrent, State.notify, State.setWriter, List.range_succ,
    Writer.notified, start]

theorem round_run (w f : τ) {k : Nat} (below : k < 15) :
    (machine τ Nat).runFrom (starved τ k) (writeSteps w k ++ flushSteps τ Nat f k) =
      some (starved τ (k + 1)) := by
  have next : following k = k + 1 := if_neg (by omega)
  have small : k < bufferCount := Nat.lt_trans below (by decide)
  have small' : following k < bufferCount := by
    rw [next]
    exact Nat.succ_lt_succ below
  have different : following k ≠ k := by omega
  have full : ((starved τ k).wrote k).buffers k ≠ [] := by
    simp [starved, State.wrote, State.append]
  have vacant : ((starved τ k).wrote k).bufferIsEmpty (following k) = true := by
    simp [starved, State.wrote, State.append, next]
  have wrote := write_run (starved τ k) w k rfl small rfl (by simp [starved, bufferSize])
  have flushed := flush_run ((starved τ k).wrote k) f rfl small small' rfl rfl full different vacant
  rw [flushed_starved below] at flushed
  exact Machine.runFrom_trans wrote flushed

theorem starve_run (w f : τ) {k : Nat} (below : k ≤ 15) :
    (machine τ Nat).run (starveSteps w f k) = some (starved τ k) := by
  induction k with
  | zero =>
      rw [Machine.run, starveSteps, Machine.runFrom_nil]
      simp [starved, machine, start]
  | succ k ih => exact Machine.runFrom_trans (ih (by omega)) (round_run w f (by omega))

end CommonUtils.Logger.FileLogPolicy
