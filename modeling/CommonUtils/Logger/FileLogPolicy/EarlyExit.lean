import CommonUtils.Logger.FileLogPolicy.Exclusive
import CommonUtils.Logger.FileLogPolicy.Hang
import CommonUtils.Logger.FileLogPolicy.Rounds
import CommonUtils.Logger.FileLogPolicy.Stop
import Mathlib.Algebra.GroupWithZero.Nat
import Mathlib.Algebra.Order.BigOperators.Group.List
import Mathlib.Algebra.Order.Group.Nat

namespace CommonUtils.Logger.FileLogPolicy

variable {τ μ : Type*}

def Writer.rank (buffers : Nat → List μ) : Writer → Nat
  | .returned => 0
  | .pop => 1
  | .testStop => 2
  | .predicate => 3
  | .lockQueue => 4
  | .waiting | .flushFile => 5
  | .sleep | .unlockBuffer _ => 6
  | .setFlag _ => 7
  | .clear _ _ => 8
  | .lockBuffer _ _ => 9
  | .iterate _ k n => 10 + (n - k)
  | .begin i => 11 + (buffers i).length
  | .releaseQueue i => 12 + (buffers i).length

def State.rank (s : State τ μ) : Nat :=
  s.writer.rank s.buffers + (s.queueBuffers.map fun i => (s.buffers i).length + 12).sum

theorem rank_of_writerStep {s s' : State τ μ} (stop : s.stopThread = true)
    (taken : s.writerStep = some s') : s'.rank < s.rank := by
  cases pc : s.writer <;> simp only [State.writerStep, pc] at taken
  case clear i n =>
    cases taken
    have shorter : (s.queueBuffers.map fun j =>
        (Function.update s.buffers i [] j).length + 12).sum ≤
          (s.queueBuffers.map fun j => (s.buffers j).length + 12).sum := by
      apply List.sum_le_sum
      intro j _
      by_cases same : j = i
      · simp [same]
      · simp [same]
    simp only [State.rank, State.setWriter, State.clear, Writer.rank, pc]
    omega
  case predicate =>
    cases taken
    simp [State.rank, State.setWriter, Writer.rank, pc, stop]
  case iterate i k n =>
    split at taken
    · rcases Option.map_eq_some_iff.mp taken with ⟨message, _, rfl⟩
      simp [State.rank, State.setWriter, State.print, Writer.rank, pc]
      omega
    · cases taken
      simp [State.rank, State.setWriter, Writer.rank, pc]
      omega
  case pop =>
    split at taken <;> cases taken
    rename_i i rest queue
    simp [State.rank, State.setWriter, Writer.rank, pc, queue]
    omega
  case testStop =>
    split at taken <;> cases taken <;>
      simp [State.rank, State.setWriter, Writer.rank, pc, State.setMutexQueue]
  case lockQueue | begin | lockBuffer =>
    split at taken <;> cases taken
    simp [State.rank, State.setWriter, Writer.rank, pc, State.setMutexQueue, State.setMutexBuffer]
  case waiting | returned => cases taken
  all_goals
    cases taken
    simp [State.rank, State.setWriter, Writer.rank, pc, State.setMutexQueue, State.setMutexBuffer,
      State.setFlag, State.flushFile]

theorem Clogged.of_writerStep {s s' : State τ μ} (clogged : Clogged s')
    (inside : ∀ i, s.writer.entered = some i → i < bufferCount)
    (taken : s.writerStep = some s') : Clogged s := by
  have full := clogged.full
  have flags := clogged.flags
  have queue := clogged.queue
  have place := clogged.writer
  cases pc : s.writer <;> simp only [State.writerStep, pc] at taken
  case lockQueue | testStop =>
    split at taken <;> cases taken <;> exact ⟨full, flags, queue, .inl (by rw [pc]; rfl)⟩
  case predicate | sleep | unlockBuffer | flushFile =>
    cases taken
    exact ⟨full, flags, queue, .inl (by rw [pc]; rfl)⟩
  case setFlag i =>
    cases taken
    have same : i = s.currentBuffer := by
      by_contra different
      have marked := flags i (inside i (by rw [pc]; rfl)) different
      simp [State.setWriter, State.setFlag] at marked
    subst same
    refine ⟨full, ?_, queue, .inr pc⟩
    intro j small different
    exact (Function.update_of_ne different _ _).symm.trans (flags j small different)
  case clear i n =>
    cases taken
    rcases place with other | same
    · cases other
    · have here : i = s.currentBuffer := by injection same
      subst here
      exact absurd (Function.update_self _ _ _) full
  case iterate =>
    split at taken
    · rcases Option.map_eq_some_iff.mp taken with ⟨message, _, rfl⟩
      rcases place with other | other <;> cases other
    · cases taken
      rcases place with other | other <;> cases other
  case waiting | returned => cases taken
  case pop | begin | lockBuffer =>
    split at taken <;> cases taken
    rcases place with other | other <;> cases other
  case releaseQueue =>
    cases taken
    rcases place with other | other <;> cases other

section

variable [DecidableEq τ]

structure Leaving (d : τ) (origin s : State τ μ) : Prop where
  inv : WriterInv s
  stop : StopInv s
  stopped : s.stopThread = true
  callers : s.callers = Function.update (fun _ => none) d (some ⟨.destroy, 0, .readMutex⟩)
  inside : ∀ i ∈ s.awaiting, i < bufferCount
  ended : s.writer = .returned → s.queueBuffers = []
  clogged : Clogged s → Clogged origin
  current : s.currentBuffer = origin.currentBuffer
  ledger : s.file ++ s.plan = origin.file ++ origin.plan

namespace Leaving

variable {d : τ} {origin s s' : State τ μ}

theorem writerStep (leaving : Leaving d origin s) (taken : s.writerStep = some s') :
    Leaving d origin s' := by
  have frame := writerFrame_of_writerStep taken
  have inv : WriterInv s' := leaving.inv.step (a := .writer) taken
  refine ⟨inv, leaving.stop.writerStep taken, ?_, ?_, ?_, ?_, ?_, ?_, ?_⟩
  · rw [frame.stop, leaving.stopped]
  · rw [frame.callers, leaving.callers]
  · intro i member
    apply leaving.inside
    rcases awaiting_of_writerStep taken with same | ⟨j, _, _, _, longer⟩
    · rwa [← same]
    · rw [longer]
      exact List.mem_cons_of_mem _ member
  · intro returned
    cases pc : s.writer <;> simp only [State.writerStep, pc] at taken
    case testStop =>
      split at taken <;> cases taken
      · rename_i both
        exact both.2
      · cases returned
    case predicate =>
      cases taken
      simp only [State.setWriter, leaving.stopped, or_true, if_pos] at returned
      cases returned
    case iterate =>
      split at taken
      · rcases Option.map_eq_some_iff.mp taken with ⟨message, _, rfl⟩
        cases returned
      · cases taken
        cases returned
    case lockQueue | pop | begin | lockBuffer =>
      split at taken <;> cases taken
      cases returned
    case waiting | returned => cases taken
    all_goals
      cases taken
      cases returned
  · exact fun clogged => leaving.clogged (clogged.of_writerStep leaving.inv.inside taken)
  · rw [frame.current, leaving.current]
  · rw [plan_of_writerStep taken, leaving.ledger]

theorem wake (leaving : Leaving d origin s) (waiting : s.writer = .waiting) :
    Leaving d origin s.notify := by
  have woken := step_spurious waiting
  have quiet : Quiet s s.notify := ⟨rfl, rfl, .inr rfl, .inl rfl⟩
  have awaiting : s.notify.awaiting = s.awaiting := by
    simp [State.awaiting, State.notify, State.setWriter, Writer.notified, Writer.atHand, waiting]
  refine ⟨leaving.inv.step woken, leaving.stop.step woken, leaving.stopped, leaving.callers, ?_, ?_,
    ?_, leaving.current, ?_⟩
  · rw [awaiting]
    exact leaving.inside
  · intro returned
    exact leaving.ended (quiet.returned.mp returned)
  · intro clogged
    apply leaving.clogged
    exact ⟨clogged.full, clogged.flags, clogged.queue, .inl (by rw [waiting]; rfl)⟩
  · rw [← leaving.ledger, State.plan, State.plan, quiet.ahead, awaiting]
    rfl

theorem free (leaving : Leaving d origin s) {m : Mutex} (outside : s.writer.holds m = false) :
    s.owner m = none := by
  apply leaving.inv.locks.agree.free_of_nobody
  intro o
  cases o with
  | writer =>
      rw [State.inside, outside]
      exact Bool.false_ne_true
  | caller t =>
      rw [State.inside, leaving.callers]
      by_cases same : t = d
      · subst same
        rw [Function.update_self, heldBy_some]
        cases m <;> simp [Call.holds, Call.holdsQueue, Call.holdsBuffer]
      · rw [Function.update_of_ne same]
        exact heldBy_none m

theorem progress (leaving : Leaving d origin s) (awake : s.writer ≠ .waiting)
    (there : s.writer ≠ .returned) : ∃ s', s.writerStep = some s' := by
  cases pc : s.writer
  case lockQueue =>
    have free : s.mutexQueue = none := leaving.free (m := .queue) (by rw [pc]; rfl)
    exact ⟨_, by simp only [State.writerStep, pc, if_pos free]; rfl⟩
  case lockBuffer i n =>
    have free : s.mutexBuffers i = none := leaving.free (m := .buffer i) (by rw [pc]; rfl)
    exact ⟨_, by simp only [State.writerStep, pc, if_pos free]; rfl⟩
  case waiting => exact absurd pc awake
  case returned => exact absurd pc there
  case pop =>
    rcases List.exists_cons_of_ne_nil (leaving.stop.popping pc) with ⟨i, rest, queue⟩
    exact ⟨_, by simp only [State.writerStep, pc, queue]; rfl⟩
  case begin i =>
    have small := leaving.inside i (by simp [State.awaiting, Writer.atHand, pc])
    exact ⟨_, by simp only [State.writerStep, pc, if_pos small]; rfl⟩
  case iterate i k n =>
    by_cases more : k < n
    · have bounds := leaving.inv.counted i n (by rw [pc]; exact if_pos rfl)
      have found := List.getElem?_eq_getElem (Nat.lt_of_lt_of_le more bounds.2)
      exact ⟨_, by simp only [State.writerStep, pc, if_pos more, found]; rfl⟩
    · exact ⟨_, by simp only [State.writerStep, pc, if_neg more]; rfl⟩
  case testStop =>
    by_cases both : s.stopThread = true ∧ s.queueBuffers = []
    · exact ⟨_, by simp only [State.writerStep, pc, if_pos both]; rfl⟩
    · exact ⟨_, by simp only [State.writerStep, pc, if_neg both]; rfl⟩
  all_goals exact ⟨_, by simp only [State.writerStep, pc]; rfl⟩

omit [DecidableEq τ] in
theorem rank_wake (waiting : s.writer = .waiting) : s.notify.rank < s.rank := by
  simp [State.rank, State.notify, State.setWriter, Writer.notified, Writer.rank, waiting]

/-- Left alone the writer empties the queue and leaves. -/
theorem drain (leaving : Leaving d origin s) :
    ∃ s', During d s s' ∧ Leaving d origin s' ∧ s'.writer = .returned := by
  induction rank : s.rank using Nat.strong_induction_on generalizing s with
  | _ n ih =>
      by_cases there : s.writer = .returned
      · exact ⟨s, .origin, leaving, there⟩
      have next : ∃ s' a, Shutdown d a ∧ step s a = some s' ∧ Leaving d origin s' ∧
          s'.rank < s.rank := by
        by_cases waiting : s.writer = .waiting
        · exact ⟨_, .spurious, trivial, step_spurious waiting, leaving.wake waiting,
            rank_wake waiting⟩
        · rcases leaving.progress waiting there with ⟨s', taken⟩
          exact ⟨s', .writer, trivial, taken, leaving.writerStep taken,
            rank_of_writerStep leaving.stopped taken⟩
      rcases next with ⟨s', a, allowed, taken, leaving', less⟩
      rcases ih s'.rank (by omega) leaving' rfl with ⟨last, reached, done⟩
      have first : During d s s' := .step a .origin allowed taken
      exact ⟨last, first.trans reached, done⟩

end Leaving

theorem reach_of_run {d : τ} {s s' : State τ μ} {as : List (Action τ μ)}
    (own : ∀ a ∈ as, a = .caller d) (ran : (machine τ μ).runFrom s as = some s') :
    During d s s' := by
  apply Machine.reachFrom_of_run .origin _ ran
  apply Machine.allSteps_of_forall
  intro a member _
  rw [own a member]
  rfl

theorem reach_of_replicate {d : τ} {s s' : State τ μ} {n : Nat}
    (ran : (machine τ μ).runFrom s (List.replicate n (.caller d)) = some s') :
    During d s s' :=
  reach_of_run (fun _ member => List.eq_of_mem_replicate member) ran

theorem following_small {i : Nat} (small : i < bufferCount) : following i < bufferCount := by
  unfold bufferCount at small ⊢
  unfold following
  split <;> omega

theorem following_reaches {i j : Nat} (small : i < bufferCount) (small' : j < bufferCount) :
    ∃ n, following^[n] i = j := by
  have all : ∀ i < bufferCount, ∀ j < bufferCount, ∃ n < bufferCount, following^[n] i = j := by
    decide +kernel
  rcases all i small j small' with ⟨n, _, reaches⟩
  exact ⟨n, reaches⟩

theorem turns_reach (s : State τ μ) (d : τ) (op : Op μ) (k : Nat) {n : Nat}
    (small : s.currentBuffer < bufferCount)
    (vacant : s.bufferIsEmpty (following^[n] s.currentBuffer) = true) :
    ∃ c < bufferCount, s.bufferIsEmpty c = true ∧
      During d (s.setCaller d (some ⟨op, k, .nextRead⟩))
        ((s.setCurrent c).setCaller d (some ⟨op, k, .nextRead⟩)) := by
  induction n generalizing s with
  | zero => exact ⟨s.currentBuffer, small, vacant, .origin⟩
  | succ n ih =>
      by_cases here : s.bufferIsEmpty s.currentBuffer = true
      · exact ⟨s.currentBuffer, small, here, .origin⟩
      · rw [Bool.not_eq_true] at here
        have small' := following_small small
        rcases ih (s.setCurrent (following s.currentBuffer)) small' vacant with
          ⟨c, inside, flag, reached⟩
        have turned := turn_run s d op k small here
        exact ⟨c, inside, flag, (reach_of_replicate turned).trans reached⟩

theorem skip_run (s : State τ μ) (d : τ) (k : Nat) (small : s.currentBuffer < bufferCount)
    (free : s.mutexBuffers s.currentBuffer = none) (empty : s.buffers s.currentBuffer = []) :
    (machine τ μ).runFrom (s.setCaller d (some ⟨.destroy, k, .readMutex⟩))
        (List.replicate 4 (.caller d)) =
      some ((s.setMutexBuffer s.currentBuffer (some (.caller d))).setCaller d
        (some ⟨.destroy, s.currentBuffer, .unlockBuffer⟩)) := by
  simp [List.replicate_succ, runFrom_caller, State.callerStep, State.setMutexBuffer, small, free,
    Op.afterSelect, Op.queues, empty]

theorem join_run (s : State τ μ) (d : τ) (k : Nat) (returned : s.writer = .returned) :
    (machine τ μ).runFrom (s.setCaller d (some ⟨.destroy, k, .unlockBuffer⟩))
        (List.replicate 3 (.caller d)) =
      some ((s.setMutexBuffer k none).notify.flushFile.setCaller d
        (some ⟨.destroy, k, .closed⟩)) := by
  simp [List.replicate_succ, runFrom_caller, State.callerStep, State.finish, State.setMutexBuffer,
    State.notify, State.setWriter, State.flushFile, Writer.notified, returned]

theorem joined {d : τ} {s X : State τ μ} {k : Nat} (returned : X.writer = .returned)
    (reached : During d s (X.setCaller d (some ⟨.destroy, k, .unlockBuffer⟩))) :
    ∃ s', During d s s' ∧ s'.destroyed d ∧ s'.file = X.file :=
  ⟨_, reached.trans (reach_of_replicate (join_run X d k returned)),
    ⟨_, Function.update_self _ _ _, rfl, rfl⟩, rfl⟩

theorem Leaving.finish {d : τ} {origin s : State τ μ} (leaving : Leaving d origin s)
    (returned : s.writer = .returned) (small : origin.currentBuffer < bufferCount)
    (passable : ¬ Clogged origin) : ∃ s', During d s s' ∧ s'.destroyed d ∧ s'.file = s.file := by
  have mine : s.callers d = some ⟨.destroy, 0, .readMutex⟩ := by
    rw [leaving.callers, Function.update_self]
  have here : s.setCaller d (some ⟨.destroy, 0, .readMutex⟩) = s := by
    rw [State.setCaller, ← mine, Function.update_eq_self]
  have small' : s.currentBuffer < bufferCount := by rwa [leaving.current]
  have free : s.mutexBuffers s.currentBuffer = none :=
    leaving.free (m := .buffer s.currentBuffer) (by rw [returned]; rfl)
  have freeQueue : s.mutexQueue = none := leaving.free (m := .queue) (by rw [returned]; rfl)
  by_cases empty : s.buffers s.currentBuffer = []
  · have skipped := skip_run s d 0 small' free empty
    rw [here] at skipped
    exact joined (X := s.setMutexBuffer s.currentBuffer (some (.caller d))) returned
      (reach_of_replicate skipped)
  · have flag : ∃ j < bufferCount, j ≠ s.currentBuffer ∧ s.bufferIsEmpty j = true := by
      by_contra none
      apply passable
      apply leaving.clogged
      refine ⟨empty, ?_, leaving.ended returned, .inl (by rw [returned]; rfl)⟩
      intro j inside different
      by_contra vacant
      rw [Bool.not_eq_false] at vacant
      exact none ⟨j, inside, different, vacant⟩
    rcases flag with ⟨j, inside, different, vacant⟩
    rcases following_reaches small' inside with ⟨n, reaches⟩
    have marked := marked_run s d .destroy 0 rfl small' free empty freeQueue
    rw [here] at marked
    have vacant' : (s.marked d).bufferIsEmpty (following^[n] s.currentBuffer) = true := by
      rw [reaches]
      exact (Function.update_of_ne different _ _).trans vacant
    rcases turns_reach (s.marked d) d .destroy s.currentBuffer small' vacant' with
      ⟨c, inside', empty', turned⟩
    have notified := notify_run ((s.marked d).setCurrent c) d .destroy s.currentBuffer rfl inside'
      empty'
    have reached := (reach_of_replicate marked).trans turned
    apply joined (X := ((s.marked d).setCurrent c).notify.setMutexQueue none)
    · show s.writer.notified = .returned
      rw [returned]
      rfl
    · exact reached.trans (reach_of_replicate notified)

def State.stopping (s : State τ μ) (d : τ) : State τ μ :=
  { s.enter d .destroy with stopThread := true }.goto d ⟨.destroy, 0, .setStop⟩ .readMutex

theorem leaving_of_stopping {d : τ} {s : State τ μ} (inv : WriterInv s) (stop : StopInv s)
    (idle : s.idle) (inside : ∀ i ∈ s.awaiting, i < bufferCount) :
    During d (s.enter d .destroy) (s.stopping d) ∧ Leaving d s (s.stopping d) := by
  have begun : step s (.call d .destroy) = some (s.enter d .destroy) := step_enter idle
  have taken : step (s.enter d .destroy) (.caller d) = some (s.stopping d) := by
    simp [step, State.enter, State.setCaller, State.callerStep, Op.entry, State.stopping]
  refine ⟨.step (.caller d) .origin rfl taken, (inv.step begun).step taken,
    (stop.step begun).step taken, rfl, ?_, inside, ?_, ?_, rfl, rfl⟩
  · have nobody : s.callers = fun _ => none := funext idle
    simp [State.stopping, State.enter, State.setCaller, nobody]
  · exact fun returned => absurd returned (stop.writer_ne_returned idle)
  · exact fun clogged => { clogged with }

/-- The writer may see the stop flag and leave before the destructor looks at the
current buffer: then the file ends where the writer's plan does. -/
theorem early_exit {d : τ} {s : State τ μ} (inv : WriterInv s) (stop : StopInv s) (idle : s.idle)
    (passable : ¬ Hangs s) : ∃ s', During d (s.enter d .destroy) s' ∧ s'.destroyed d ∧
      s'.file = s.file ++ s.plan := by
  have small : s.currentBuffer < bufferCount := by
    by_contra beyond
    exact passable (.inl (Nat.le_of_not_lt beyond))
  have inside : ∀ i ∈ s.awaiting, i < bufferCount := by
    intro i member
    by_contra beyond
    exact passable (.inr (.inl ⟨i, member, Nat.le_of_not_lt beyond⟩))
  -- the writer runs to its end alone before the destructor goes on
  rcases leaving_of_stopping inv stop idle inside with ⟨begun, leaving⟩
  rcases leaving.drain with ⟨last, drained, left, returned⟩
  rcases left.finish returned small fun clogged => passable (.inr (.inr clogged)) with
    ⟨s', finished, destroyed, file⟩
  refine ⟨s', (begun.trans drained).trans finished, destroyed, ?_⟩
  have nothing : last.plan = [] := by
    rw [State.plan, State.awaiting, if_pos returned, Collect.collect_nil]
  rw [file, ← left.ledger, nothing, List.append_nil]

omit [DecidableEq τ] in
theorem onItsWay_of_ready {s : State τ μ} (ring : RingInv .ready s) (there : s.writer ≠ .returned)
    (empty : s.buffers s.currentBuffer = []) : OnItsWay s := by
  have progress := ring.progress
  constructor
  · intro i n counted
    cases pc : s.writer <;> rw [pc] at counted progress <;>
      simp only [Writer.counted, Option.ite_none_right_eq_some, Option.some.injEq] at counted
    case iterate j k m =>
      rcases counted with ⟨rfl, rfl⟩
      exact progress.2.symm
    case lockBuffer j m | clear j m =>
      rcases counted with ⟨rfl, rfl⟩
      exact progress.symm
    all_goals cases counted
  · intro i _ some
    have busy : i ∈ s.busy := by
      by_contra other
      apply some
      rw [RingInv.unwritten_of_not_busy other]
      by_cases current : i = s.currentBuffer
      · rw [current, empty]
      · exact ring.empty i other fun ready => current ready.2
    rw [State.awaiting, if_neg there]
    rcases List.mem_append.mp busy with taken | queued
    · rw [Option.mem_toList] at taken
      apply List.mem_append_left
      cases pc : s.writer <;> rw [pc] at taken progress
      case lockBuffer j n | clear j n =>
        cases taken
        apply absurd _ some
        rw [State.unwritten, pc, progress]
        simp [Writer.done]
      case setFlag j =>
        cases taken
        apply absurd _ some
        rw [State.unwritten, pc, progress, List.drop_nil]
      case releaseQueue | begin | iterate =>
        cases taken
        exact List.mem_singleton_self _
      all_goals cases taken
    · exact List.mem_append_right _ queued

omit [DecidableEq τ] in
theorem busy_of_awaiting {s : State τ μ} {i : Nat} (member : i ∈ s.awaiting) : i ∈ s.busy := by
  rw [State.awaiting] at member
  split at member
  · cases member
  · rcases List.mem_append.mp member with hand | queued
    · apply RingInv.popped_mem
      cases pc : s.writer <;> rw [pc] at hand
      case releaseQueue | begin | iterate => exact congrArg some (List.mem_singleton.mp hand).symm
      all_goals cases hand
    · exact List.mem_append_right _ queued

/-- In an orderly run the condition is that the current buffer is empty. -/
theorem onItsWay_or_hangs_iff {s : State τ μ} (reached : (machine τ μ).ReachUnder Exclusive s)
    (idle : s.idle) : OnItsWay s ∨ Hangs s ↔ s.buffers s.currentBuffer = [] := by
  have orderly : OrderlyInv s := .of_reachable (fun _ _ allowed => allowed) reached
  have there := (StopInv.of_reachable (reached.mono fun _ _ _ => trivial)).writer_ne_returned idle
  have ring := orderly.ready_of_idle idle
  have current := ring.ready rfl
  constructor
  · intro either
    by_contra full
    rcases either with way | beyond | ⟨i, entry, beyond⟩ | clogged
    · have unwritten := RingInv.unwritten_of_not_busy current
      have queued := way.queued s.currentBuffer ring.current (by rwa [unwritten])
      exact current (busy_of_awaiting queued)
    · have small := ring.current
      omega
    · have small := ring.inside i (busy_of_awaiting entry)
      omega
    · have nothing : s.busy = [] := by
        rcases clogged.writer with none | flagging
        · rw [State.busy, none, clogged.queue]
          rfl
        · exact absurd (RingInv.popped_mem (by rw [flagging]; rfl)) current
      have other : ∃ i < bufferCount, i ≠ s.currentBuffer := by
        by_cases zero : s.currentBuffer = 0
        · exact ⟨1, by decide, by omega⟩
        · exact ⟨0, by decide, by omega⟩
      rcases other with ⟨i, small, different⟩
      have busy := (ring.flag_iff (by decide) small).mp (clogged.flags i small different)
      rw [nothing] at busy
      cases busy
  · exact fun empty => .inl (onItsWay_of_ready ring there empty)

theorem drains_iff (d : τ) (s : State τ μ) (reached : (machine τ μ).Reachable s) (idle : s.idle) :
    Drains d s ↔ OnItsWay s ∨ Hangs s := by
  have inv := WriterInv.of_reachable reached
  have stop := StopInv.of_reachable reached
  have inside : ¬ Hangs s → ∀ i ∈ s.awaiting, i < bufferCount := by
    intro passable i member
    by_contra beyond
    exact passable (.inr (.inl ⟨i, member, Nat.le_of_not_lt beyond⟩))
  constructor
  · intro drains
    by_cases passable : Hangs s
    · exact .inr passable
    · rcases early_exit inv stop idle passable with ⟨s', during, destroyed, file⟩
      rcases drains s' during destroyed with ⟨all, perm, _⟩
      have same : s.plan = s.due := by
        rw [file] at all
        exact List.append_cancel_left all
      rw [← same] at perm
      exact .inl (onItsWay_of_plan inv (inside passable) perm)
  · intro either s' during destroyed
    have passable : ¬ Hangs s := fun hangs => not_destroyed_of_hangs inv idle hangs during destroyed
    have way := either.resolve_right passable
    rcases drained_of_onItsWay inv idle way during destroyed with ⟨file, disk⟩
    exact ⟨file, way.due_perm inv (inside passable), disk⟩

/-- A message flushed and not yet written when the destructor begins. -/
theorem drains_iff_flushed : ∃ s : State Unit Nat, s.queueBuffers = [0] ∧ s.buffers 0 = [7] ∧
    (Drains () s ↔ OnItsWay s ∨ Hangs s) ∧ Drains () s := by
  have reached : (machine Unit Nat).ReachUnder Exclusive _ :=
    Machine.reachFrom_of_runGuarded (writeSteps () 7 ++ flushSteps Unit Nat () 0) .origin rfl
  have exact_drains := drains_iff () _ (reached.mono fun _ _ _ => trivial) fun _ => rfl
  have empty := (onItsWay_or_hangs_iff reached fun _ => rfl).mpr rfl
  exact ⟨_, rfl, rfl, exact_drains, exact_drains.mpr empty⟩

instance (d : τ) : (a : Action τ μ) → Decidable (Shutdown d a)
  | .caller t => inferInstanceAs (Decidable (t = d))
  | .writer | .spurious => isTrue trivial
  | .call _ _ => isFalse id

/-- The destructor raises the stop flag, the writer starts and leaves at once, and only
then the destructor queues the buffer. -/
def leavingSteps : List (Action Unit Nat) :=
  [.caller (), .writer, .writer, .writer] ++ turnedSteps Unit Nat () 0 ++
    List.replicate 7 (.caller ())

theorem leaves_last_buffer : ¬ ∀ s : State Unit Nat,
    (machine Unit Nat).Reachable s → s.idle → Drains () s := by
  intro drains
  have wrote := write_run (start Unit Nat) () 7 rfl (by decide) rfl (by decide)
  have left : (((machine Unit Nat).runFrom (((start Unit Nat).wrote 7).enter () .destroy)
      leavingSteps).any fun s => decide (s.file = [] ∧
        s.callers () = some ⟨.destroy, 0, .closed⟩)) = true := by
    decide +kernel
  rcases Option.any_eq_true _ _ |>.mp left with ⟨s, ran, facts⟩
  rcases of_decide_eq_true facts with ⟨empty, closed⟩
  have allowed : ∀ a ∈ leavingSteps, Shutdown () a := by decide +kernel
  have during : During () (((start Unit Nat).wrote 7).enter () .destroy) s := by
    apply Machine.reachFrom_of_run .origin _ ran
    apply Machine.allSteps_of_forall
    exact fun a member _ => allowed a member
  have all := (drains _ (Machine.reachable_of_run _ wrote) (fun _ => rfl) s during
    ⟨_, closed, rfl, rfl⟩).1
  rw [empty] at all
  cases all

end

end CommonUtils.Logger.FileLogPolicy
