import CommonUtils.Library.MutexTable
import CommonUtils.Logger.FileLogPolicy.Model

namespace CommonUtils.Logger.FileLogPolicy

open MutexTable

variable {τ μ : Type*}

inductive Mutex where
  | queue
  | buffer (i : Nat)
  deriving DecidableEq

/-- `Flush` is inside `mutex_queue_` during `NextBuffer`. -/
def Op.keepsQueue : Op μ → Bool
  | .write _ => false
  | .flush | .destroy => true

namespace Call

def holdsQueue (call : Call μ) : Bool :=
  match call.pc with
  | .readIndex | .enqueue _ | .readFlag | .clearFlag _ | .releaseQueue | .unlockQueue => true
  | .nextRead | .nextTest _ | .nextBound | .nextAdd | .nextStore _ | .notifyOne =>
      call.op.keepsQueue
  | _ => false

def holdsBuffer (call : Call μ) : Bool :=
  match call.pc with
  | .setStop | .readMutex | .lockBuffer | .notifyAll | .join | .closed => false
  | _ => true

def holds (call : Call μ) : Mutex → Bool
  | .queue => call.holdsQueue
  | .buffer i => call.holdsBuffer && i == call.mutex

end Call

def Writer.holds : Writer → Mutex → Bool
  | .predicate, .queue | .sleep, .queue | .testStop, .queue | .pop, .queue
  | .releaseQueue _, .queue => true
  | .clear i _, .buffer j | .setFlag i, .buffer j | .unlockBuffer i, .buffer j => j == i
  | _, _ => false

theorem Writer.holds_notified (w : Writer) (m : Mutex) : w.notified.holds m = w.holds m := by
  cases w <;> rfl

def HeldBy (call : Option (Call μ)) (m : Mutex) : Prop := ∃ c, call = some c ∧ c.holds m = true

@[simp] theorem heldBy_some (call : Call μ) (m : Mutex) :
    HeldBy (some call) m ↔ call.holds m = true := by
  simp [HeldBy]

@[simp] theorem heldBy_none (m : Mutex) : ¬ HeldBy (none : Option (Call μ)) m := by
  simp [HeldBy]

namespace State

def owner (s : State τ μ) : Mutex → Option (Owner τ)
  | .queue => s.mutexQueue
  | .buffer i => s.mutexBuffers i

def inside (s : State τ μ) : Owner τ → Mutex → Prop
  | .caller t, m => HeldBy (s.callers t) m
  | .writer, m => s.writer.holds m = true

end State

def LocksAgree (s : State τ μ) : Prop := Agree s.owner s.inside

theorem owner_setMutexQueue (s : State τ μ) (o : Option (Owner τ)) :
    (s.setMutexQueue o).owner = Function.update s.owner .queue o := by
  funext m
  cases m <;> simp [State.owner, State.setMutexQueue]

theorem owner_setMutexBuffer (s : State τ μ) (i : Nat) (o : Option (Owner τ)) :
    (s.setMutexBuffer i o).owner = Function.update s.owner (.buffer i) o := by
  funext m
  cases m with
  | queue => simp [State.owner, State.setMutexBuffer]
  | buffer j => simp [State.owner, State.setMutexBuffer, Function.update_apply]

namespace LocksAgree

theorem start : LocksAgree (start τ μ) := by
  intro m o
  cases m <;> cases o <;>
    simp [State.owner, State.inside, FileLogPolicy.start, Writer.holds]

variable {s X : State τ μ}

section Callers

variable [DecidableEq τ] {t : τ} {call : Call μ} {call' : Option (Call μ)}

theorem inside_setCaller (callers : X.callers = s.callers)
    (writer : ∀ m, X.writer.holds m = s.writer.holds m) (o : Owner τ) (m : Mutex) :
    (X.setCaller t call').inside o m ↔
      if o = .caller t then HeldBy call' m else s.inside o m := by
  cases o with
  | writer => simp [State.inside, State.setCaller, writer]
  | caller u =>
      by_cases same : u = t
      · subst same
        simp [State.inside, State.setCaller]
      · simp [State.inside, State.setCaller, callers, same]

theorem keep (agree : LocksAgree s) (callers : X.callers = s.callers)
    (writer : ∀ m, X.writer.holds m = s.writer.holds m) (owner : X.owner = s.owner)
    (same : ∀ m, HeldBy call' m ↔ HeldBy (s.callers t) m) : LocksAgree (X.setCaller t call') := by
  apply Agree.keep agree owner
  intro o m
  rw [inside_setCaller callers writer]
  split
  · rename_i me
    subst me
    rw [same, State.inside]
  · rfl

theorem acquire (agree : LocksAgree s) (mine : s.callers t = some call)
    (callers : X.callers = s.callers) (writer : X.writer = s.writer) {m : Mutex}
    (free : s.owner m = none) (owner : X.owner = Function.update s.owner m (some (.caller t)))
    (enters : ∀ m', HeldBy call' m' ↔ call.holds m' = true ∨ m' = m) :
    LocksAgree (X.setCaller t call') := by
  apply Agree.acquire agree free owner
  intro o m'
  rw [inside_setCaller callers fun m => by rw [writer]]
  split
  · rename_i me
    subst me
    rw [enters, State.inside, mine, heldBy_some]
    simp
  · rename_i other
    simp [other]

theorem release (agree : LocksAgree s) (mine : s.callers t = some call)
    (callers : X.callers = s.callers) (writer : X.writer = s.writer) {m : Mutex}
    (held : call.holds m = true) (owner : X.owner = Function.update s.owner m none)
    (leaves : ∀ m', HeldBy call' m' ↔ call.holds m' = true ∧ m' ≠ m) :
    LocksAgree (X.setCaller t call') := by
  have inside : s.inside (.caller t) m := by rwa [State.inside, mine, heldBy_some]
  apply Agree.release agree inside owner
  intro o m'
  rw [inside_setCaller callers fun m => by rw [writer]]
  split
  · rename_i me
    subst me
    rw [leaves, State.inside, mine, heldBy_some]
    simp
  · rename_i other
    simp [other]

theorem keep_goto (agree : LocksAgree s) (mine : s.callers t = some call)
    (callers : X.callers = s.callers) (writer : ∀ m, X.writer.holds m = s.writer.holds m)
    (owner : X.owner = s.owner) {pc : Pc}
    (queue : { call with pc := pc }.holdsQueue = call.holdsQueue)
    (buffer : { call with pc := pc }.holdsBuffer = call.holdsBuffer) :
    LocksAgree (X.goto t call pc) := by
  apply agree.keep callers writer owner
  intro m
  rw [mine, heldBy_some, heldBy_some]
  cases m with
  | queue => rw [Call.holds, Call.holds, queue]
  | buffer i => rw [Call.holds, Call.holds, buffer]

theorem callerStep {s' : State τ μ} (agree : LocksAgree s) (mine : s.callers t = some call)
    (writes : call.pc = .releaseQueue → call.op.keepsQueue = false)
    (taken : s.callerStep t call = some s') : LocksAgree s' := by
  rcases call with ⟨op, mutex, pc⟩
  cases pc <;> simp only [State.callerStep] at taken
  case setStop =>
    cases taken
    exact agree.keep_goto mine rfl (fun _ => rfl) rfl rfl rfl
  case readMutex =>
    cases taken
    apply agree.keep rfl (fun _ => rfl) rfl
    intro m
    rw [mine]
    cases m <;> simp [Call.holds, Call.holdsQueue, Call.holdsBuffer]
  case lockBuffer =>
    split at taken <;> cases taken
    rename_i enabled
    have free : s.owner (.buffer mutex) = none := enabled.2
    apply agree.acquire (X := s.setMutexBuffer mutex (some (.caller t))) mine rfl rfl free
      (owner_setMutexBuffer s mutex _)
    intro m
    cases m <;> simp [Call.holds, Call.holdsQueue, Call.holdsBuffer]
  case select =>
    cases taken
    apply agree.keep_goto mine rfl (fun _ => rfl) rfl <;> cases op <;> rfl
  case pushBack i =>
    split at taken <;> cases taken
    exact agree.keep_goto mine rfl (fun _ => rfl) rfl rfl rfl
  case selectSize | readIndex | readFlag | nextRead | nextAdd | enqueue | nextStore =>
    cases taken
    exact agree.keep_goto mine rfl (fun _ => rfl) rfl rfl rfl
  case test i =>
    split at taken <;> cases taken
    apply agree.keep_goto mine rfl (fun _ => rfl) rfl <;> split <;> rfl
  case lockQueue =>
    split at taken <;> cases taken
    rename_i free
    apply agree.acquire (X := s.setMutexQueue (some (.caller t))) (m := .queue) mine rfl rfl free
      (owner_setMutexQueue s _)
    intro m
    cases m <;> simp [Call.holds, Call.holdsQueue, Call.holdsBuffer]
  case clearFlag i =>
    split at taken <;> cases taken
    apply agree.keep_goto mine rfl (fun _ => rfl) rfl <;> cases op <;> rfl
  case releaseQueue =>
    cases taken
    have write := writes rfl
    apply agree.release (X := s.setMutexQueue none) (m := .queue) mine rfl rfl rfl
      (owner_setMutexQueue s none)
    intro m
    cases m <;> simp [Call.holds, Call.holdsQueue, Call.holdsBuffer, write]
  case nextTest i =>
    split at taken <;> cases taken
    apply agree.keep_goto mine rfl (fun _ => rfl) rfl <;> split <;> rfl
  case nextBound =>
    cases taken
    apply agree.keep_goto mine rfl (fun _ => rfl) rfl <;> split <;> rfl
  case notifyOne =>
    cases taken
    apply agree.keep_goto (X := s.notify) mine rfl (Writer.holds_notified s.writer) rfl <;>
      cases op <;> rfl
  case unlockQueue =>
    cases taken
    apply agree.release (X := s.setMutexQueue none) (m := .queue) mine rfl rfl rfl
      (owner_setMutexQueue s none)
    intro m
    cases m <;> simp [Call.holds, Call.holdsQueue, Call.holdsBuffer]
  case unlockBuffer =>
    cases taken
    have leaves : ∀ m, Call.holds ⟨op, mutex, .unlockBuffer⟩ m = true ↔ m = .buffer mutex := by
      intro m
      cases m <;> simp [Call.holds, Call.holdsQueue, Call.holdsBuffer]
    have held := (leaves (.buffer mutex)).mpr rfl
    have left : LocksAgree ((s.setMutexBuffer mutex none).setCaller t none) := by
      apply agree.release (X := s.setMutexBuffer mutex none) mine rfl rfl held
        (owner_setMutexBuffer s mutex none)
      simp [leaves]
    cases op with
    | write message => exact left
    | flush => exact left
    | destroy =>
        apply agree.release (X := s.setMutexBuffer mutex none) mine rfl rfl held
          (owner_setMutexBuffer s mutex none)
        intro m
        rw [leaves]
        cases m <;> simp [Call.holds, Call.holdsQueue, Call.holdsBuffer]
  case notifyAll =>
    cases taken
    exact agree.keep_goto (X := s.notify) mine rfl (Writer.holds_notified s.writer) rfl rfl rfl
  case join =>
    split at taken <;> cases taken
    exact agree.keep_goto mine rfl (fun _ => rfl) rfl rfl rfl
  case closed => cases taken

end Callers

section Writer

variable {w : Writer}

theorem keep_writer (agree : LocksAgree s) (callers : X.callers = s.callers)
    (owner : X.owner = s.owner) (same : ∀ m, w.holds m = s.writer.holds m) :
    LocksAgree (X.setWriter w) := by
  apply Agree.keep agree owner
  intro o m
  cases o with
  | writer => simp [State.inside, State.setWriter, same]
  | caller u => simp [State.inside, State.setWriter, callers]

theorem acquire_writer (agree : LocksAgree s) (callers : X.callers = s.callers) {m : Mutex}
    (free : s.owner m = none) (owner : X.owner = Function.update s.owner m (some .writer))
    (enters : ∀ m', w.holds m' = true ↔ s.writer.holds m' = true ∨ m' = m) :
    LocksAgree (X.setWriter w) := by
  apply Agree.acquire agree free owner
  intro o m'
  cases o with
  | writer => simp [State.inside, State.setWriter, enters]
  | caller u => simp [State.inside, State.setWriter, callers]

theorem release_writer (agree : LocksAgree s) (callers : X.callers = s.callers) {m : Mutex}
    (held : s.writer.holds m = true) (owner : X.owner = Function.update s.owner m none)
    (leaves : ∀ m', w.holds m' = true ↔ s.writer.holds m' = true ∧ m' ≠ m) :
    LocksAgree (X.setWriter w) := by
  have inside : s.inside .writer m := held
  apply Agree.release agree inside owner
  intro o m'
  cases o with
  | writer => simp [State.inside, State.setWriter, leaves]
  | caller u => simp [State.inside, State.setWriter, callers]

theorem writerStep {s' : State τ μ} (agree : LocksAgree s) (taken : s.writerStep = some s') :
    LocksAgree s' := by
  cases pc : s.writer <;> simp only [State.writerStep, pc] at taken
  case lockQueue =>
    split at taken <;> cases taken
    rename_i free
    apply agree.acquire_writer (X := s.setMutexQueue (some .writer)) (m := .queue) rfl free
      (owner_setMutexQueue s _)
    intro m
    cases m <;> simp [Writer.holds, pc]
  case predicate =>
    cases taken
    apply agree.keep_writer rfl rfl
    intro m
    split <;> cases m <;> simp [Writer.holds, pc]
  case sleep =>
    cases taken
    apply agree.release_writer (X := s.setMutexQueue none) (m := .queue) rfl (by rw [pc]; rfl)
      (owner_setMutexQueue s none)
    intro m
    cases m <;> simp [Writer.holds, pc]
  case waiting => cases taken
  case testStop =>
    split at taken <;> cases taken
    · apply agree.release_writer (X := s.setMutexQueue none) (m := .queue) rfl (by rw [pc]; rfl)
        (owner_setMutexQueue s none)
      intro m
      cases m <;> simp [Writer.holds, pc]
    · apply agree.keep_writer rfl rfl
      intro m
      cases m <;> simp [Writer.holds, pc]
  case pop =>
    split at taken <;> cases taken
    apply agree.keep_writer rfl rfl
    intro m
    cases m <;> simp [Writer.holds, pc]
  case releaseQueue i =>
    cases taken
    apply agree.release_writer (X := s.setMutexQueue none) (m := .queue) rfl (by rw [pc]; rfl)
      (owner_setMutexQueue s none)
    intro m
    cases m <;> simp [Writer.holds, pc]
  case begin i =>
    split at taken <;> cases taken
    apply agree.keep_writer rfl rfl
    intro m
    cases m <;> simp [Writer.holds, pc]
  case iterate i k n =>
    split at taken
    · rcases Option.map_eq_some_iff.mp taken with ⟨m, _, rfl⟩
      apply agree.keep_writer rfl rfl
      intro m
      cases m <;> simp [Writer.holds, pc]
    · cases taken
      apply agree.keep_writer rfl rfl
      intro m
      cases m <;> simp [Writer.holds, pc]
  case lockBuffer i n =>
    split at taken <;> cases taken
    rename_i free
    apply agree.acquire_writer (X := s.setMutexBuffer i (some .writer)) (m := .buffer i) rfl free
      (owner_setMutexBuffer s i _)
    intro m
    cases m <;> simp [Writer.holds, pc]
  case clear i n | setFlag i =>
    cases taken
    apply agree.keep_writer rfl rfl
    intro m
    cases m <;> simp [Writer.holds, pc]
  case unlockBuffer i =>
    cases taken
    apply agree.release_writer (X := s.setMutexBuffer i none) (m := .buffer i) rfl
      (by rw [pc]; simp [Writer.holds]) (owner_setMutexBuffer s i none)
    intro m
    cases m <;> simp [Writer.holds, pc]
  case flushFile =>
    cases taken
    apply agree.keep_writer rfl rfl
    intro m
    cases m <;> simp [Writer.holds, pc]
  case returned => cases taken

end Writer

end LocksAgree

variable [DecidableEq τ]

structure Follows (s : State τ μ) (call next : Call μ) : Prop where
  op : next.op = call.op
  entered : next.pc ≠ .setStop
  writes : next.pc = .releaseQueue → next.op.keepsQueue = false
  joined : next.pc = .closed → call.pc = .join ∧ s.writer = .returned

structure CallerFrame (t : τ) (call : Call μ) (s s' : State τ μ) : Prop where
  callers : ∃ call', s'.callers = Function.update s.callers t call' ∧
    (call.op = .destroy → call' ≠ none) ∧ ∀ next, call' = some next → Follows s call next
  writer : s'.writer = s.writer ∨ s'.writer = s.writer.notified
  buffers : s'.buffers = s.buffers ∨ ∃ i < bufferCount,
    s'.buffers = Function.update s.buffers i (s.buffers i ++ call.op.messages)
  queue : s'.queueBuffers = s.queueBuffers ∨ ∃ i, s'.queueBuffers = s.queueBuffers ++ [i]
  stop : s'.stopThread = s.stopThread ∨ call.pc = .setStop ∧ s'.stopThread = true
  file : s'.file = s.file
  disk : s'.disk = s.disk ∨ s'.disk = s'.file
  written : s'.written = s.written

omit [DecidableEq τ] in
theorem Follows.plain {s : State τ μ} {op : Op μ} {mutex mutex' : Nat} {pc pc' : Pc}
    (elsewhere : pc' ≠ .setStop ∧ pc' ≠ .releaseQueue ∧ pc' ≠ .closed) :
    Follows s ⟨op, mutex, pc⟩ ⟨op, mutex', pc'⟩ :=
  ⟨rfl, elsewhere.1, fun other => absurd other elsewhere.2.1,
    fun other => absurd other elsewhere.2.2⟩

theorem goes_on {s : State τ μ} {callers : τ → Option (Call μ)} {t : τ} {call next : Call μ}
    (follows : Follows s call next) : ∃ call', Function.update callers t (some next) =
      Function.update callers t call' ∧ (call.op = .destroy → call' ≠ none) ∧
        ∀ next, call' = some next → Follows s call next := by
  refine ⟨some next, rfl, fun _ => Option.some_ne_none _, ?_⟩
  intro other same
  cases same
  exact follows

theorem callerFrame_of_callerStep {s s' : State τ μ} {t : τ} {call : Call μ}
    (taken : s.callerStep t call = some s') : CallerFrame t call s s' := by
  rcases call with ⟨op, mutex, pc⟩
  cases pc <;> simp only [State.callerStep] at taken
  case setStop =>
    cases taken
    exact ⟨goes_on (.plain (by simp)), .inl rfl, .inl rfl, .inl rfl, .inr ⟨rfl, rfl⟩,
      rfl, .inl rfl, rfl⟩
  case pushBack i =>
    split at taken <;> cases taken
    exact ⟨goes_on (.plain (by simp)), .inl rfl, .inr ⟨i, ‹_›, rfl⟩, .inl rfl,
      .inl rfl, rfl, .inl rfl, rfl⟩
  case enqueue i =>
    cases taken
    exact ⟨goes_on (.plain (by simp)), .inl rfl, .inl rfl, .inr ⟨i, rfl⟩,
      .inl rfl, rfl, .inl rfl, rfl⟩
  case notifyAll =>
    cases taken
    exact ⟨goes_on (.plain (by simp)), .inr rfl, .inl rfl, .inl rfl, .inl rfl, rfl, .inl rfl, rfl⟩
  case notifyOne =>
    cases taken
    refine ⟨goes_on (.plain ?_), .inr rfl, .inl rfl, .inl rfl, .inl rfl, rfl, .inl rfl, rfl⟩
    cases op <;> simp [Op.afterNotify]
  case select =>
    cases taken
    refine ⟨goes_on (.plain ?_), .inl rfl, .inl rfl, .inl rfl, .inl rfl, rfl, .inl rfl, rfl⟩
    cases op <;> simp [Op.afterSelect]
  case lockBuffer | lockQueue =>
    split at taken <;> cases taken
    exact ⟨goes_on (.plain (by simp)), .inl rfl, .inl rfl, .inl rfl, .inl rfl, rfl, .inl rfl, rfl⟩
  case test | nextTest =>
    split at taken <;> cases taken
    refine ⟨goes_on (.plain ?_), .inl rfl, .inl rfl, .inl rfl, .inl rfl, rfl, .inl rfl, rfl⟩
    split <;> simp
  case nextBound =>
    cases taken
    refine ⟨goes_on (.plain ?_), .inl rfl, .inl rfl, .inl rfl, .inl rfl, rfl, .inl rfl, rfl⟩
    split <;> simp
  case clearFlag =>
    split at taken <;> cases taken
    refine ⟨goes_on ⟨rfl, ?_, ?_, ?_⟩, .inl rfl, .inl rfl, .inl rfl, .inl rfl, rfl, .inl rfl,
      rfl⟩ <;>
      cases op <;> simp [Op.afterClear, Op.keepsQueue]
  case join =>
    split at taken <;> cases taken
    rename_i returned
    exact ⟨goes_on ⟨rfl, by simp, by simp, fun _ => ⟨rfl, returned⟩⟩, .inl rfl, .inl rfl, .inl rfl,
      .inl rfl, rfl, .inr rfl, rfl⟩
  case unlockBuffer =>
    cases taken
    cases op with
    | write | flush =>
        exact ⟨⟨none, rfl, by simp, by simp⟩, .inl rfl, .inl rfl, .inl rfl,
          .inl rfl, rfl, .inl rfl, rfl⟩
    | destroy =>
        exact ⟨goes_on (.plain (by simp)), .inl rfl, .inl rfl, .inl rfl,
          .inl rfl, rfl, .inl rfl, rfl⟩
  case closed => cases taken
  all_goals
    cases taken
    exact ⟨goes_on (.plain (by simp)), .inl rfl, .inl rfl, .inl rfl, .inl rfl, rfl, .inl rfl, rfl⟩

theorem step_spurious {s : State τ μ} (waiting : s.writer = .waiting) :
    step s .spurious = some s.notify := by
  rw [step, if_pos waiting, State.notify, waiting]
  rfl

structure WriterFrame (s s' : State τ μ) : Prop where
  callers : s'.callers = s.callers
  current : s'.currentBuffer = s.currentBuffer
  stop : s'.stopThread = s.stopThread
  written : s'.written = s.written
  pushed : s'.pushed = s.pushed
  returned : s'.returned = s.returned

omit [DecidableEq τ] in
theorem writerFrame_of_writerStep {s s' : State τ μ} (taken : s.writerStep = some s') :
    WriterFrame s s' := by
  cases pc : s.writer <;> simp only [State.writerStep, pc] at taken
  case iterate =>
    split at taken
    · rcases Option.map_eq_some_iff.mp taken with ⟨message, _, rfl⟩
      constructor <;> rfl
    · cases taken
      constructor <;> rfl
  case lockQueue | testStop | pop | begin | lockBuffer =>
    split at taken <;> cases taken <;> constructor <;> rfl
  case waiting | returned => cases taken
  all_goals
    cases taken
    constructor <;> rfl

structure LockInv (s : State τ μ) : Prop where
  agree : LocksAgree s
  writes : ∀ t call, s.callers t = some call → call.pc = .releaseQueue →
    call.op.keepsQueue = false

namespace LockInv

omit [DecidableEq τ] in
theorem start : LockInv (start τ μ) :=
  ⟨.start, by intro t call here; cases here⟩

theorem step {s s' : State τ μ} {a : Action τ μ} (inv : LockInv s)
    (taken : FileLogPolicy.step s a = some s') : LockInv s' := by
  cases step_takes taken with
  | call t op absent =>
      constructor
      · have entered : LocksAgree (s.setCaller t (some ⟨op, 0, op.entry⟩)) := by
          apply inv.agree.keep rfl (fun _ => rfl) rfl
          intro m
          rw [absent]
          cases op <;> cases m <;>
            simp [Op.entry, Call.holds, Call.holdsQueue, Call.holdsBuffer]
        exact entered
      · intro u call here place
        by_cases same : u = t
        · subst same
          simp only [State.enter, State.setCaller, Function.update_self, Option.some.injEq] at here
          subst here
          cases op <;> cases place
        · simp only [State.enter, State.setCaller, Function.update_of_ne same] at here
          exact inv.writes u call here place
  | caller t call mine taken =>
      refine ⟨inv.agree.callerStep mine (inv.writes t call mine) taken, ?_⟩
      rcases (callerFrame_of_callerStep taken).callers with ⟨call', callers, _, follows⟩
      intro u other here place
      rw [callers] at here
      by_cases same : u = t
      · subst same
        rw [Function.update_self] at here
        exact (follows other here).writes place
      · rw [Function.update_of_ne same] at here
        exact inv.writes u other here place
  | writer taken =>
      refine ⟨inv.agree.writerStep taken, ?_⟩
      rw [(writerFrame_of_writerStep taken).callers]
      exact inv.writes
  | spurious waiting =>
      refine ⟨?_, inv.writes⟩
      apply inv.agree.keep_writer rfl rfl
      intro m
      cases m <;> simp [Writer.holds, waiting]

omit [DecidableEq τ] in
theorem writer_outside {s : State τ μ} (inv : LockInv s) {t : τ} {call : Call μ} {m : Mutex}
    (mine : s.callers t = some call) (held : call.holds m = true) : s.writer.holds m = false := by
  by_contra inside
  rw [Bool.not_eq_false] at inside
  have writer : s.inside .writer m := inside
  have caller : s.inside (.caller t) m := by rwa [State.inside, mine, heldBy_some]
  cases inv.agree.exclusive writer caller

end LockInv

end CommonUtils.Logger.FileLogPolicy
