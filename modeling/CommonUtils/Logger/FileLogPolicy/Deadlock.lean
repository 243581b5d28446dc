import CommonUtils.Logger.FileLogPolicy.Trap

namespace CommonUtils.Logger.FileLogPolicy

variable {τ μ : Type*}

/-- What closes the trap. A call marks the last buffer while one that spins, or is to
spin inside the queue mutex, blocks the writer or the writer is not served; a `Write` gives
the queue mutex back over a full ring while the writer needs its buffer mutex or is not
served; the owner of the buffer mutex that the writer needs is to wait for the queue mutex
of one that spins over a full ring. -/
def Closing (s : State τ μ) : Action τ μ → Prop
  | .caller t => ∃ call, s.callers t = some call ∧
      match call.pc with
      | .clearFlag i => (∀ j < bufferCount, j ≠ i → s.bufferIsEmpty j = false) ∧
          ((∃ u, s.spins u ∧ (s.blocks u ∨ s.unserved)) ∨
            call.op.keepsQueue = true ∧ (s.blocks t ∨ s.unserved))
      | .releaseQueue => s.full ∧ (s.needs (.buffer call.mutex) ∨ s.unserved)
      | .test i => s.full ∧ call.op.queues (s.buffers i) = true ∧
          s.needs (.buffer call.mutex) ∧ ∃ u, s.spins u ∧ s.mutexQueue = some (.caller u)
      | _ => False
  | _ => False

section Callers

variable [DecidableEq τ] {s X : State τ μ} {t : τ} {call : Call μ} {o : Option (Call μ)}

/-- A step of `t` that goes from `s` to `X` but for the call: no flag is set, the writer needs
what it needed and is notified if it was to be, and nobody begins to spin or to wait for the
queue mutex. -/
structure Harmless (s X : State τ μ) (call : Call μ) (o : Option (Call μ)) : Prop where
  callers : X.callers = s.callers
  full : X.full → s.full
  needs : X.needs = s.needs
  writer : X.writer = s.writer ∧ call.pc ≠ .notifyOne ∨ X.writer = s.writer.notified
  next : ∀ c, o = some c → c.op = call.op ∧ c.pc ≠ .lockQueue ∧
    (c.pc.spinning = true → call.pc.spinning = true ∧ c.mutex = call.mutex)
  ends : o = none → call.op ≠ .destroy

omit [DecidableEq τ] in
theorem Harmless.out {op : Op μ} {mutex mutex' : Nat} {pc pc' : Pc}
    (callers : X.callers = s.callers) (full : X.full → s.full) (needs : X.needs = s.needs)
    (writer : X.writer = s.writer ∧ pc ≠ .notifyOne ∨ X.writer = s.writer.notified)
    (place : pc'.spinning = false ∧ pc' ≠ .lockQueue) :
    Harmless s X ⟨op, mutex, pc⟩ (some ⟨op, mutex', pc'⟩) := by
  refine ⟨callers, full, needs, writer, ?_, by intro none; cases none⟩
  intro c same
  cases same
  refine ⟨rfl, place.2, ?_⟩
  intro spinning
  rw [place.1] at spinning
  cases spinning

omit [DecidableEq τ] in
theorem Harmless.turn {op : Op μ} {mutex : Nat} {pc pc' : Pc} (callers : X.callers = s.callers)
    (full : X.full → s.full) (needs : X.needs = s.needs) (writer : X.writer = s.writer)
    (spinning : pc.spinning = true) (place : pc' ≠ .lockQueue) :
    Harmless s X ⟨op, mutex, pc⟩ (some ⟨op, mutex, pc'⟩) := by
  refine ⟨callers, full, needs, .inl ⟨writer, ?_⟩, ?_, by intro none; cases none⟩
  · intro same
    cases same
    cases spinning
  · intro c same
    cases same
    exact ⟨rfl, place, fun _ => ⟨spinning, rfl⟩⟩

namespace State

theorem callers_self (X : State τ μ) (t : τ) (o : Option (Call μ)) :
    (X.setCaller t o).callers t = o := Function.update_self _ _ _

theorem unserved_back (mine : s.callers t = some call) (callers : X.callers = s.callers)
    (writer : X.writer = s.writer ∧ call.pc ≠ .notifyOne ∨ X.writer = s.writer.notified)
    (next : ∀ c, o = some c → c.op = call.op) (ends : o = none → call.op ≠ .destroy)
    (unserved : (X.setCaller t o).unserved) : s.unserved := by
  have here : (X.setCaller t o).writer = X.writer := rfl
  rw [State.unserved, here] at unserved
  rcases unserved with returned | ⟨waiting, nobody⟩
  · left
    rcases writer with ⟨same, _⟩ | notified
    · rw [← same, returned]
    · rw [returned] at notified
      cases pc : s.writer <;> rw [pc] at notified <;> first | rfl | cases notified
  · rcases writer with ⟨same, quiet⟩ | notified
    · refine .inr ⟨by rw [← same, waiting], ?_⟩
      intro u c there
      by_cases me : u = t
      · subst me
        cases mine.symm.trans there
        refine ⟨quiet, ?_⟩
        cases goes : o with
        | none => exact ends goes
        | some c =>
            rw [← next c goes]
            exact (nobody u c ((callers_self X u o).trans goes)).2
      · exact nobody u c ((Function.update_of_ne me _ _).trans (by rw [callers, there]))
    · rw [waiting] at notified
      cases pc : s.writer <;> rw [pc] at notified <;> cases notified

theorem relayed_back (callers : X.callers = s.callers) (needs : X.needs = s.needs)
    (next : ∀ c, o = some c → c.pc ≠ .lockQueue) (relayed : (X.setCaller t o).relayed) :
    s.relayed := by
  rcases relayed with ⟨u, c, there, pc, needed⟩
  have different : u ≠ t := by
    intro me
    subst me
    exact next c ((callers_self X u o).symm.trans there) pc
  have stays : X.callers u = some c := (Function.update_of_ne different _ _).symm.trans there
  have same : X.needs (.buffer c.mutex) = s.needs (.buffer c.mutex) := by rw [needs]
  exact ⟨u, c, by rw [← callers, stays], pc, same.mp needed⟩

end State

theorem Caught.back (mine : s.callers t = some call) (harmless : Harmless s X call o)
    {c c' : Call μ} (caught : Caught (X.setCaller t o) c) (spinning : c'.pc.spinning = true)
    (op : c.op = c'.op) (mutex : c.mutex = c'.mutex) : Caught s c' := by
  rcases caught with ⟨before, trapped⟩
  have same : ∀ m, c.holds m = true ↔ c'.holds m = true := by
    intro m
    rw [holds_of_spinning before, holds_of_spinning spinning, op, mutex]
  refine ⟨spinning, ?_⟩
  rcases trapped with ⟨m, needed, held⟩ | ⟨held, relayed⟩ | unserved
  · refine .inl ⟨m, ?_, (same m).mp held⟩
    rw [← harmless.needs]
    exact needed
  · exact .inr (.inl ⟨(same _).mp held, State.relayed_back harmless.callers harmless.needs
      (fun c goes => (harmless.next c goes).2.1) relayed⟩)
  · exact .inr (.inr (State.unserved_back mine harmless.callers harmless.writer
      (fun c goes => (harmless.next c goes).1) harmless.ends unserved))

/-- A harmless step closes no trap. -/
theorem back (locks : LockInv s) (mine : s.callers t = some call)
    (harmless : Harmless s X call o)
    (trapped : X.full ∧ ∃ u c, (X.setCaller t o).callers u = some c ∧
      Caught (X.setCaller t o) c) : Stuck s := by
  rw [stuck_iff locks]
  rcases trapped with ⟨all, u, c, here, caught⟩
  refine ⟨harmless.full all, ?_⟩
  by_cases me : u = t
  · subst me
    have goes : o = some c := (State.callers_self X u o).symm.trans here
    rcases harmless.next c goes with ⟨op, _, still⟩
    rcases still caught.1 with ⟨before, mutex⟩
    exact ⟨u, call, mine, caught.back mine harmless before op mutex⟩
  · have there : X.callers u = some c := (Function.update_of_ne me _ _).symm.trans here
    exact ⟨u, c, by rw [← harmless.callers, there], caught.back mine harmless caught.1 rfl rfl⟩

omit [DecidableEq τ] in
theorem needs_enqueue (queued : s.queueBuffers ≠ [] ∨ s.writer.popped ≠ none) (i : Nat) :
    (s.enqueue i).needs = s.needs := by
  have head : s.queueBuffers ≠ [] → (s.queueBuffers ++ [i]).head? = s.queueBuffers.head? :=
    List.head?_append_of_ne_nil _
  have next : (s.enqueue i).next = s.next := by
    cases pc : s.writer <;> rw [pc] at queued <;>
      simp only [State.next, State.enqueue, pc]
    case lockQueue | predicate | sleep | waiting | testStop | pop | unlockBuffer | flushFile =>
      exact head (queued.resolve_right fun other => other rfl)
  funext m
  cases m with
  | queue => rfl
  | buffer j =>
      show ((s.enqueue i).next = some j) = (s.next = some j)
      rw [next]

end Callers

section Closing

variable [DecidableEq τ] {s : State τ μ} {t : τ} {call : Call μ}

/-- A call that is to wait for the queue mutex closes the trap between one that spins inside it
and the writer. -/
theorem closed_by_test {i : Nat} (locks : LockInv s) (mine : s.callers t = some call)
    (pc : call.pc = .test i) (queues : call.op.queues (s.buffers i) = true)
    (trapped : s.full ∧ ∃ u c, (s.goto t call .lockQueue).callers u = some c ∧
      Caught (s.goto t call .lockQueue) c) : Stuck s ∨ Closing s (.caller t) := by
  rcases trapped with ⟨full, u, c, here, spinning, trapped⟩
  have different : u ≠ t := by
    intro me
    subst me
    cases (State.callers_self s u _).symm.trans here
    cases spinning
  have there : s.callers u = some c := (Function.update_of_ne different _ _).symm.trans here
  have stuck : ((∃ m, s.needs m ∧ c.holds m = true) ∨ c.holds .queue = true ∧ s.relayed ∨
      s.unserved) → Stuck s := fun caught =>
    (stuck_iff locks).mpr ⟨full, u, c, there, spinning, caught⟩
  rcases trapped with needed | ⟨held, w, d, place, waits, next⟩ | unserved
  · exact .inl (stuck (.inl needed))
  · by_cases me : w = t
    · subst me
      cases (State.callers_self s w _).symm.trans place
      refine .inr ⟨call, mine, ?_⟩
      rw [pc]
      refine ⟨full, queues, next, u, ⟨c, there, spinning⟩, ?_⟩
      have owned : s.owner .queue = some (.caller u) := by
        rw [locks.agree, State.inside, there, heldBy_some, held]
      exact owned
    · have stays : s.callers w = some d := (Function.update_of_ne me _ _).symm.trans place
      exact .inl (stuck (.inr (.inl ⟨held, w, d, stays, waits, next⟩)))
  · refine .inl (stuck (.inr (.inr ?_)))
    apply State.unserved_back (X := s) mine rfl (.inl ⟨rfl, by simp [pc]⟩) _ _ unserved
    · rintro d ⟨⟩
      rfl
    · simp

/-- A call that marks the last buffer closes the trap on one that spins, or begins to spin
itself inside the queue mutex. -/
theorem closed_by_clearFlag {i : Nat} (locks : LockInv s) (mine : s.callers t = some call)
    (pc : call.pc = .clearFlag i)
    (trapped : (s.setFlag i false).full ∧
      ∃ u c, ((s.setFlag i false).goto t call call.op.afterClear).callers u = some c ∧
        Caught ((s.setFlag i false).goto t call call.op.afterClear) c) :
    Stuck s ∨ Closing s (.caller t) := by
  rcases trapped with ⟨full, u, c, here, spinning, trapped⟩
  have others : ∀ j < bufferCount, j ≠ i → s.bufferIsEmpty j = false := by
    intro j small different
    have marked := full j small
    simpa [State.setFlag, different] using marked
  have place : call.op.afterClear ≠ .lockQueue := by
    cases call.op <;> simp [Op.afterClear]
  have before : (∃ m, s.needs m ∧ c.holds m = true) ∨ c.holds .queue = true ∧ s.relayed ∨
      s.unserved := by
    rcases trapped with needed | ⟨held, relayed⟩ | unserved
    · exact .inl needed
    · refine .inr (.inl ⟨held, ?_⟩)
      apply State.relayed_back (X := s.setFlag i false) rfl rfl _ relayed
      rintro d ⟨⟩
      exact place
    · refine .inr (.inr ?_)
      apply State.unserved_back (X := s.setFlag i false) mine rfl
        (.inl ⟨rfl, by simp [pc]⟩) _ _ unserved
      · rintro d ⟨⟩
        rfl
      · simp
  refine .inr ⟨_, mine, ?_⟩
  rw [pc]
  refine ⟨others, ?_⟩
  -- the call that spins is another one, or the one that has just marked the last buffer
  by_cases me : u = t
  · subst me
    cases (State.callers_self (s.setFlag i false) u _).symm.trans here
    have keeps : call.op.keepsQueue = true := by
      cases op : call.op with
      | write message =>
          rw [op] at spinning
          cases spinning
      | flush => rfl
      | destroy => rfl
    have held : ∀ m, Call.holds { call with pc := call.op.afterClear } m = true →
        call.holds m = true := by
      intro m held
      rcases (holds_of_spinning spinning m).mp held with ⟨rfl, _⟩ | rfl
      · simp [Call.holds, Call.holdsQueue, pc]
      · simp [Call.holds, Call.holdsBuffer, pc]
    refine .inr ⟨keeps, ?_⟩
    rw [blocks_iff locks mine, or_assoc]
    rcases before with ⟨m, needed, inside⟩ | ⟨inside, relayed⟩ | unserved
    · exact .inl ⟨m, needed, held m inside⟩
    · exact .inr (.inl ⟨held _ inside, relayed⟩)
    · exact .inr (.inr unserved)
  · have there : s.callers u = some c := (Function.update_of_ne me _ _).symm.trans here
    exact .inl ((caught_iff locks).mpr ⟨u, c, there, spinning, before⟩)

theorem closed_by_releaseQueue (locks : LockInv s) (mine : s.callers t = some call)
    (pc : call.pc = .releaseQueue)
    (trapped : s.full ∧ ∃ u c, ((s.setMutexQueue none).goto t call .nextRead).callers u = some c ∧
      Caught ((s.setMutexQueue none).goto t call .nextRead) c) :
    Stuck s ∨ Closing s (.caller t) := by
  rcases trapped with ⟨full, u, c, here, spinning, trapped⟩
  have before : (∃ m, s.needs m ∧ c.holds m = true) ∨ c.holds .queue = true ∧ s.relayed ∨
      s.unserved := by
    rcases trapped with needed | ⟨held, relayed⟩ | unserved
    · exact .inl needed
    · refine .inr (.inl ⟨held, ?_⟩)
      apply State.relayed_back (X := s.setMutexQueue none) rfl rfl _ relayed
      rintro d ⟨⟩
      simp
    · refine .inr (.inr ?_)
      apply State.unserved_back (X := s.setMutexQueue none) mine rfl
        (.inl ⟨rfl, by simp [pc]⟩) _ _ unserved
      · rintro d ⟨⟩
        rfl
      · simp
  by_cases me : u = t
  · subst me
    cases (State.callers_self (s.setMutexQueue none) u _).symm.trans here
    have write := locks.writes u call mine pc
    have outside : Call.holds { call with pc := .nextRead } .queue = false := by
      simp [Call.holds, Call.holdsQueue, write]
    refine .inr ⟨call, mine, ?_⟩
    rw [pc]
    refine ⟨full, ?_⟩
    rcases before with ⟨m, needed, inside⟩ | ⟨inside, _⟩ | unserved
    · rcases (holds_of_spinning rfl m).mp inside with ⟨rfl, _⟩ | rfl
      · rw [outside] at inside
        cases inside
      · exact .inl needed
    · rw [outside] at inside
      cases inside
    · exact .inr unserved
  · have there : s.callers u = some c := (Function.update_of_ne me _ _).symm.trans here
    exact .inl ((stuck_iff locks).mpr ⟨full, u, c, there, spinning, before⟩)

theorem closed_by_callerStep {s' : State τ μ} (locks : LockInv s) (locks' : LockInv s')
    (queue : QueueInv s) (mine : s.callers t = some call)
    (taken : s.callerStep t call = some s') (stuck : Stuck s') :
    Stuck s ∨ Closing s (.caller t) := by
  have trapped := (stuck_iff locks').mp stuck
  rcases call with ⟨op, mutex, pc⟩
  cases pc <;> simp only [State.callerStep] at taken
  case setStop =>
    cases taken
    exact .inl (back (X := { s with stopThread := true }) locks mine
      (.out rfl id rfl (.inl ⟨rfl, by simp⟩) (by simp [Pc.spinning])) trapped)
  case readMutex | selectSize | readIndex | readFlag =>
    cases taken
    exact .inl (back locks mine
          (.out rfl id rfl (.inl ⟨rfl, by simp⟩) (by simp [Pc.spinning])) trapped)
  case lockBuffer =>
    split at taken <;> cases taken
    exact .inl (back (X := s.setMutexBuffer mutex (some (.caller t))) locks mine
      (.out rfl id rfl (.inl ⟨rfl, by simp⟩) (by simp [Pc.spinning])) trapped)
  case select =>
    cases taken
    exact .inl (back locks mine (.out rfl id rfl (.inl ⟨rfl, by simp⟩)
      (by cases op <;> simp [Op.afterSelect, Pc.spinning])) trapped)
  case pushBack i =>
    split at taken <;> cases taken
    exact .inl (back (X := s.append i op.messages) locks mine
      (.out rfl id rfl (.inl ⟨rfl, by simp⟩) (by simp [Pc.spinning])) trapped)
  case lockQueue =>
    split at taken <;> cases taken
    exact .inl (back (X := s.setMutexQueue (some (.caller t))) locks mine
      (.out rfl id rfl (.inl ⟨rfl, by simp⟩) (by simp [Pc.spinning])) trapped)
  case join =>
    split at taken <;> cases taken
    exact .inl (back (X := s.flushFile) locks mine
      (.out rfl id rfl (.inl ⟨rfl, by simp⟩) (by simp [Pc.spinning])) trapped)
  case test i =>
    split at taken <;> cases taken
    cases queues : op.queues (s.buffers i) <;> rw [queues] at trapped
    · exact .inl (back locks mine
          (.out rfl id rfl (.inl ⟨rfl, by simp⟩) (by simp [Pc.spinning])) trapped)
    · exact closed_by_test locks mine rfl queues trapped
  case enqueue i =>
    cases taken
    have needs := needs_enqueue (queue.full trapped.1) i
    exact .inl (back (X := s.enqueue i) locks mine
      (.out rfl id needs (.inl ⟨rfl, by simp⟩) (by simp [Pc.spinning])) trapped)
  case clearFlag i =>
    split at taken <;> cases taken
    exact closed_by_clearFlag locks mine rfl trapped
  case releaseQueue =>
    cases taken
    exact closed_by_releaseQueue locks mine rfl trapped
  case nextRead | nextAdd =>
    cases taken
    exact .inl (back locks mine (.turn rfl id rfl rfl rfl (by simp)) trapped)
  case nextStore i =>
    cases taken
    exact .inl (back (X := s.setCurrent i) locks mine (.turn rfl id rfl rfl rfl (by simp)) trapped)
  case nextBound =>
    cases taken
    exact .inl (back locks mine (.turn rfl id rfl rfl rfl (by split <;> simp)) trapped)
  case nextTest i =>
    split at taken <;> cases taken
    exact .inl (back locks mine (.turn rfl id rfl rfl rfl (by split <;> simp)) trapped)
  case notifyOne =>
    cases taken
    exact .inl (back (X := s.notify) locks mine (.out rfl id (needs_notify s) (.inr rfl)
      (by cases op <;> simp [Op.afterNotify, Pc.spinning])) trapped)
  case unlockQueue =>
    cases taken
    exact .inl (back (X := s.setMutexQueue none) locks mine
      (.out rfl id rfl (.inl ⟨rfl, by simp⟩) (by simp [Pc.spinning])) trapped)
  case unlockBuffer =>
    cases taken
    cases op with
    | write message | flush =>
        exact .inl (back (X := s.setMutexBuffer mutex none) (o := none) locks mine
          ⟨rfl, id, rfl, .inl ⟨rfl, by simp⟩, by simp, by simp⟩ trapped)
    | destroy =>
        exact .inl (back (X := s.setMutexBuffer mutex none) locks mine
          (.out rfl id rfl (.inl ⟨rfl, by simp⟩) (by simp [Pc.spinning])) trapped)
  case notifyAll =>
    cases taken
    exact .inl (back (X := s.notify) locks mine
      (.out rfl id (needs_notify s) (.inr rfl) (by simp [Pc.spinning])) trapped)
  case closed => cases taken

end Closing

theorem queue_of_idle {s s' : State τ μ} (queue : QueueInv s) (taken : s.writerStep = some s')
    (idle : s'.writer = .returned ∨ s'.writer = .waiting) : s'.queueBuffers = [] := by
  have asleep := queue.sleep
  cases pc : s.writer <;> simp only [State.writerStep, pc] at taken asleep
  case sleep =>
    cases taken
    exact asleep trivial
  case testStop =>
    split at taken <;> cases taken
    · rename_i ended
      exact ended.2
    · rcases idle with other | other <;> cases other
  case predicate =>
    cases taken
    simp only [State.setWriter] at idle
    split at idle <;> rcases idle with other | other <;> cases other
  case iterate =>
    split at taken
    · rcases Option.map_eq_some_iff.mp taken with ⟨message, _, rfl⟩
      rcases idle with other | other <;> cases other
    · cases taken
      rcases idle with other | other <;> cases other
  case lockQueue | pop | begin | lockBuffer =>
    split at taken <;> cases taken
    rcases idle with other | other <;> cases other
  case waiting | returned => cases taken
  all_goals
    cases taken
    rcases idle with other | other <;> cases other

theorem served_of_writerStep {s s' : State τ μ} (queue : QueueInv s) (queue' : QueueInv s')
    (full : s'.full) (taken : s.writerStep = some s') : ¬ s'.unserved := by
  intro unserved
  have idle := unserved.imp id And.left
  have empty := queue_of_idle queue taken idle
  have popped := (queue'.full full).resolve_left fun some => some empty
  rcases idle with returned | waiting
  · rw [returned] at popped
    exact popped rfl
  · rw [waiting] at popped
    exact popped rfl

theorem stuck_of_writerStep {s s' : State τ μ} (inv : WriterInv s) (locks' : LockInv s')
    (queue : QueueInv s) (taken : s.writerStep = some s') (stuck : Stuck s') : Stuck s := by
  have locks := inv.locks
  rcases (stuck_iff locks').mp stuck with ⟨all, u, c, here, spinning, trapped⟩
  have callers := (writerFrame_of_writerStep taken).callers
  have mine : s.callers u = some c := by rw [← callers, here]
  have served := served_of_writerStep queue (queue.writerStep locks inv.inside taken) all taken
  have before : s.full →
      (s'.writer.holds .queue = false → s'.writer.wantsQueue = true →
        s.writer.wantsQueue = true) →
      (∀ i, s'.next = some i → s.next = some i) → Stuck s := by
    intro full queue next
    refine (stuck_iff locks).mpr ⟨full, u, c, mine, spinning, ?_⟩
    rcases trapped with ⟨m, needed, held⟩ | ⟨held, w, d, place, waits, needed⟩ | unserved
    · refine .inl ⟨m, ?_, held⟩
      cases m with
      | queue => exact queue (locks'.writer_outside here held) needed
      | buffer i => exact next i needed
    · exact .inr (.inl ⟨held, w, d, by rw [← callers, place], waits, next _ needed⟩)
    · exact absurd unserved served
  cases pc : s.writer <;> simp only [State.writerStep, pc] at taken
  case lockQueue | begin =>
    split at taken <;> cases taken
    exact before all (by intro _ other; cases other) fun i next => by rwa [State.next, pc]
  case predicate =>
    cases taken
    apply before all
    · intro outside
      simp only [State.setWriter] at outside
      split at outside <;> cases outside
    · intro i next
      rw [State.next, pc]
      split at next <;> exact next
  case sleep | flushFile =>
    cases taken
    exact before all (by rw [pc]; exact fun _ _ => rfl) fun i next => by rwa [State.next, pc]
  case releaseQueue =>
    cases taken
    exact before all (by intro _ other; cases other) fun i next => by rwa [State.next, pc]
  case unlockBuffer =>
    cases taken
    exact before all (by rw [pc]; exact fun _ _ => rfl) fun i next => by rwa [State.next, pc]
  case clear =>
    cases taken
    exact before all (by intro _ other; cases other) (by intro i other; cases other)
  case testStop =>
    split at taken <;> cases taken
    · exact before all (by intro _ other; cases other) (by intro i other; cases other)
    · exact before all (by intro _ other; cases other) fun i next => by rwa [State.next, pc]
  case pop =>
    split at taken <;> cases taken
    rename_i i rest queued
    exact before all (by intro _ other; cases other) fun j next => by rwa [State.next, pc, queued]
  case iterate i k n =>
    split at taken
    · rcases Option.map_eq_some_iff.mp taken with ⟨message, _, rfl⟩
      exact before all (by intro _ other; cases other) fun i next => by rwa [State.next, pc]
    · cases taken
      exact before all (by intro _ other; cases other) fun i next => by rwa [State.next, pc]
  case lockBuffer =>
    split at taken <;> cases taken
    exact before all (by intro _ other; cases other) (by intro i other; cases other)
  case setFlag i =>
    cases taken
    have marked := all i (inv.inside i (by rw [pc]; rfl))
    simp [State.setWriter, State.setFlag] at marked
  case waiting | returned => cases taken

section Closed

variable [DecidableEq τ] {s s' : State τ μ}

/-- What a call other than that of `t` is caught in holds it over a step of `t` that leaves the
needs of the writer alone. -/
theorem Caught.stays {X : State τ μ} {t : τ} {call next c : Call μ} (caught : Caught s c)
    (mine : s.callers t = some call) (callers : X.callers = s.callers) (needs : X.needs = s.needs)
    (writer : X.writer = s.writer) (place : call.pc ≠ .lockQueue)
    (goes : next.pc ≠ .notifyOne ∧ next.op = call.op) : Caught (X.setCaller t (some next)) c := by
  refine ⟨caught.1, ?_⟩
  rcases caught.2 with ⟨m, needed, held⟩ | ⟨held, w, d, there, waits, needed⟩ | unserved
  · refine .inl ⟨m, ?_, held⟩
    rw [← needs] at needed
    exact needed
  · refine .inr (.inl ⟨held, w, d, ?_, waits, ?_⟩)
    · have different : w ≠ t := by
        intro me
        subst me
        cases mine.symm.trans there
        exact place waits
      exact (Function.update_of_ne different _ _).trans (by rw [callers, there])
    · have same : X.needs (.buffer d.mutex) = s.needs (.buffer d.mutex) := by rw [needs]
      exact same.mpr needed
  · refine .inr (.inr ?_)
    rcases unserved with returned | ⟨waiting, nobody⟩
    · exact .inl (writer.trans returned)
    · refine .inr ⟨writer.trans waiting, ?_⟩
      intro u other there
      by_cases me : u = t
      · subst me
        cases (State.callers_self X u _).symm.trans there
        rw [goes.2]
        exact ⟨goes.1, (nobody u call mine).2⟩
      · rw [← callers] at nobody
        exact nobody u other ((Function.update_of_ne me _ _).symm.trans there)

theorem stuck_of_closing {a : Action τ μ} (locks : LockInv s) (locks' : LockInv s')
    (closing : Closing s a) (taken : step s a = some s') : Stuck s' := by
  rw [stuck_iff locks']
  cases a with
  | call | writer | spurious => cases closing
  | caller t =>
      rcases closing with ⟨call, mine, closes⟩
      simp only [step, mine] at taken
      have different : ∀ {u c}, call.pc.spinning = false → s.callers u = some c →
          c.pc.spinning = true → u ≠ t := by
        intro u c still here spinning me
        subst me
        cases mine.symm.trans here
        rw [still] at spinning
        cases spinning
      rcases call with ⟨op, mutex, pc⟩
      cases pc <;> simp only at closes
      case clearFlag i =>
        rcases closes with ⟨others, trapped⟩
        simp only [State.callerStep] at taken
        split at taken <;> cases taken
        have goes : op.afterClear ≠ .notifyOne := by
          cases op <;> simp [Op.afterClear]
        constructor
        · intro j small
          by_cases same : j = i
          · simp [State.setFlag, State.setCaller, same]
          · simpa [State.setFlag, State.setCaller, same] using others j small same
        · rcases trapped with trapped | ⟨keeps, trapped⟩
          · rcases (caught_iff locks).mp trapped with ⟨u, c, here, caught⟩
            refine ⟨u, c, (Function.update_of_ne (different rfl here caught.1) _ _).trans here, ?_⟩
            exact caught.stays (X := s.setFlag i false) mine rfl rfl rfl (by simp) ⟨goes, rfl⟩
          · rw [blocks_iff locks mine, or_assoc] at trapped
            have spinning : op.afterClear.spinning = true := by
              cases op <;> first | rfl | cases keeps
            have inside : ∀ m, Call.holds ⟨op, mutex, .clearFlag i⟩ m = true →
                Call.holds ⟨op, mutex, op.afterClear⟩ m = true := by
              intro m held
              rw [holds_of_spinning spinning]
              cases m with
              | queue => exact .inl ⟨rfl, keeps⟩
              | buffer j =>
                  have same : j = mutex := by simpa [Call.holds, Call.holdsBuffer] using held
                  exact .inr (congrArg Mutex.buffer same)
            have caught : Caught s ⟨op, mutex, op.afterClear⟩ := by
              refine ⟨spinning, ?_⟩
              rcases trapped with ⟨m, needed, held⟩ | ⟨held, relayed⟩ | unserved
              · exact .inl ⟨m, needed, inside m held⟩
              · exact .inr (.inl ⟨inside _ held, relayed⟩)
              · exact .inr (.inr unserved)
            refine ⟨t, _, State.callers_self (s.setFlag i false) t _, ?_⟩
            exact caught.stays (X := s.setFlag i false) mine rfl rfl rfl (by simp) ⟨goes, rfl⟩
      case releaseQueue =>
        cases taken
        have caught : Caught s ⟨op, mutex, .nextRead⟩ := by
          refine ⟨rfl, ?_⟩
          rcases closes.2 with needed | unserved
          · exact .inl ⟨.buffer mutex, needed, (holds_of_spinning rfl _).mpr (.inr rfl)⟩
          · exact .inr (.inr unserved)
        refine ⟨closes.1, t, _, State.callers_self (s.setMutexQueue none) t _, ?_⟩
        exact caught.stays (X := s.setMutexQueue none) mine rfl rfl rfl (by simp) ⟨by simp, rfl⟩
      case test i =>
        rcases closes with ⟨full, queues, needed, u, ⟨c, here, spinning⟩, owned⟩
        simp only [State.callerStep] at taken
        split at taken <;> cases taken
        have owned' : s.owner .queue = some (.caller u) := owned
        rw [locks.agree, State.inside, here, heldBy_some] at owned'
        refine ⟨full, u, c, (Function.update_of_ne (different rfl here spinning) _ _).trans here,
          spinning, .inr (.inl ⟨owned', t, _, State.callers_self s t _, rfl, needed⟩)⟩

theorem stuck_or_closing {a : Action τ μ} (inv : WriterInv s) (queue : QueueInv s)
    (stuck : Stuck s') (taken : step s a = some s') : Stuck s ∨ Closing s a := by
  have locks' := inv.locks.step taken
  cases step_takes taken with
  | call t op absent =>
      rw [stuck_iff locks'] at stuck
      rcases stuck with ⟨full, u, c, here, spinning, trapped⟩
      have entry : op.entry.spinning = false ∧ op.entry ≠ .lockQueue := by
        cases op <;> simp [Op.entry, Pc.spinning]
      have other : ∀ {w d}, (s.enter t op).callers w = some d →
          d.pc ≠ op.entry → s.callers w = some d := by
        intro w d there place
        by_cases me : w = t
        · subst me
          cases (State.callers_self s w _).symm.trans there
          exact absurd rfl place
        · exact (Function.update_of_ne me _ _).symm.trans there
      have mine := other here (by
        intro same
        rw [same, entry.1] at spinning
        cases spinning)
      refine .inl ((stuck_iff inv.locks).mpr ⟨full, u, c, mine, spinning, ?_⟩)
      rcases trapped with needed | ⟨held, w, d, place, waits, needed⟩ | unserved
      · exact .inl needed
      · have stays := other place (by rw [waits]; exact entry.2.symm)
        exact .inr (.inl ⟨held, w, d, stays, waits, needed⟩)
      · refine .inr (.inr (unserved.imp id fun idle => ⟨idle.1, ?_⟩))
        intro w d there
        have different : w ≠ t := by
          intro me
          subst me
          rw [absent] at there
          cases there
        exact idle.2 w d ((Function.update_of_ne different _ _).trans there)
  | caller t call mine taken => exact closed_by_callerStep inv.locks locks' queue mine taken stuck
  | writer taken => exact .inl (stuck_of_writerStep inv locks' queue taken stuck)
  | spurious waiting =>
      rw [stuck_iff locks'] at stuck
      rcases stuck with ⟨full, u, c, here, spinning, trapped⟩
      refine .inl ((stuck_iff inv.locks).mpr ⟨full, u, c, here, spinning, ?_⟩)
      have needs : (s.setWriter .lockQueue).needs = s.needs := by
        rw [← needs_notify s, State.notify, waiting]
        rfl
      rcases trapped with ⟨m, needed, held⟩ | ⟨held, w, d, place, waits, needed⟩ | unserved
      · rw [needs] at needed
        exact .inl ⟨m, needed, held⟩
      · have same : (s.setWriter .lockQueue).needs (.buffer d.mutex) =
            s.needs (.buffer d.mutex) := by rw [needs]
        exact .inr (.inl ⟨held, w, d, place, waits, same.mp needed⟩)
      · rcases unserved with other | ⟨other, _⟩ <;> cases other

end Closed

variable [DecidableEq τ]

/-- A run passes through no trap exactly if none of its steps closes one. -/
theorem never_stuck_iff_never_closing (as : List (Action τ μ)) :
    (machine τ μ).AllStates (fun s => ¬ Stuck s) (start τ μ) as ↔
      (machine τ μ).AllSteps (fun s a => ¬ Closing s a) (start τ μ) as := by
  apply Machine.allStates_iff_allSteps (I := fun s => WriterInv s ∧ QueueInv s)
    (A := fun _ _ => True)
  · exact fun s a s' ⟨inv, queue⟩ _ taken => ⟨inv.step taken, queue.step inv taken⟩
  · intro s a s' ⟨inv, queue⟩ _ good taken
    constructor
    · intro free closing
      exact free (stuck_of_closing inv.locks (inv.locks.step taken) closing taken)
    · intro kept stuck
      exact (stuck_or_closing inv queue stuck taken).elim good kept
  · exact ⟨.start, .start⟩
  · intro stuck
    cases stuck.1 0 (by decide)
  · exact Machine.allSteps_true _ _

/-- The ring is full but for the last buffer and the writer has not run; `Flush` queues
the last and spins inside the queue mutex. -/
def trappingSteps : List (Action Bool Nat) :=
  writeSteps false 15 ++ [.call true .flush] ++ turnedSteps Bool Nat true 15

theorem trapping_run : ∃ s, (machine Bool Nat).runFrom (starved Bool 15) trappingSteps = some s ∧
    Stuck s := by
  have trapped : ((machine Bool Nat).runFrom (starved Bool 15) trappingSteps).any (fun s =>
      decide (s.callers true = some ⟨.flush, 15, .nextRead⟩ ∧ s.writer = .lockQueue ∧
        s.mutexQueue = some (.caller true) ∧ ∀ i < bufferCount, s.bufferIsEmpty i = false)) =
      true := by
    decide +kernel
  rcases Option.any_eq_true _ _ |>.mp trapped with ⟨s, ran, facts⟩
  rcases of_decide_eq_true facts with ⟨spinning, writer, owned, full⟩
  refine ⟨s, ran, full, true, ⟨_, spinning, rfl⟩, .inl ⟨.queue, ?_, .owns owned⟩⟩
  rw [State.needs, writer]
  rfl

theorem deadlocks_in_nextBuffer : ¬ ∀ s : State Bool Nat,
    (machine Bool Nat).ReachUnder (fun _ a => WriterAndFlusher false true a) s → ¬ Stuck s := by
  intro free
  have starved := starve_run false true (Nat.le_refl 15)
  rcases trapping_run with ⟨s, ran, stuck⟩
  have allowed : ∀ a ∈ starveSteps false true 15 ++ trappingSteps,
      WriterAndFlusher false true a := by
    decide +kernel
  have reached := Machine.reachFrom_of_run .origin
    (Machine.allSteps_of_forall _ fun a member _ => allowed a member)
    (Machine.runFrom_trans starved ran)
  exact free s reached stuck

end CommonUtils.Logger.FileLogPolicy
