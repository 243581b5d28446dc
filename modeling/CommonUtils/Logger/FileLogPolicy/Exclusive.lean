import CommonUtils.Logger.FileLogPolicy.Locks
import CommonUtils.Logger.FileLogPolicy.Ring
import Mathlib.Data.Fintype.Basic

/-! Runs in which calls do not overlap: a call enters with its buffer mutex only when no
other call is still at work on the current buffer, and marks that buffer only when no
other is left in `NextBuffer`. There the ring stays in order. -/

namespace CommonUtils.Logger.FileLogPolicy

variable {τ μ : Type*}

namespace Pc

/-- From the buffer mutex taken to the last look at `current_buffer_`. -/
def touching : Pc → Bool
  | .setStop | .readMutex | .lockBuffer | .notifyOne | .unlockQueue | .unlockBuffer | .notifyAll
  | .join | .closed => false
  | _ => true

def looking : Pc → Bool
  | .nextRead | .nextTest _ => true
  | _ => false

/-- Whether a call moves the ring, rather than being about to find it settled. -/
def worksIn (phase : Phase) (pc : Pc) : Bool :=
  pc.touching && (decide (phase = .rotating) || !pc.looking)

def Fits (current : Nat) (phase : Phase) : Pc → Prop
  | .select | .selectSize | .lockQueue | .readIndex => phase = .ready
  | .pushBack i | .test i | .enqueue i => phase = .ready ∧ i = current
  | .readFlag => phase = .queued
  | .clearFlag i => phase = .queued ∧ i = current
  | .releaseQueue | .nextBound => phase = .rotating
  | .nextTest i => i = current
  | .nextAdd => phase = .rotating ∧ current + 1 < bufferCount
  | .nextStore i => phase = .rotating ∧ i < bufferCount
  | _ => True

def Quiet (current : Nat) (phase : Phase) (pc : Pc) : Prop :=
  pc.worksIn phase = false ∧ pc.Fits current phase

theorem quiet_of_not_touching {pc : Pc} (outside : pc.touching = false) (current : Nat)
    (phase : Phase) : pc.Quiet current phase := by
  refine ⟨by rw [worksIn, outside, Bool.false_and], ?_⟩
  cases pc <;> trivial

theorem not_touching_of_rotating {pc : Pc} (idle : pc.worksIn .rotating = false) :
    pc.touching = false := by
  simpa [worksIn] using idle

theorem Quiet.change {pc : Pc} {current : Nat} {phase phase' : Phase}
    (idle : pc.worksIn .ready = false) (fits : pc.Fits current phase)
    (other : phase' ≠ .rotating) : pc.Quiet current phase' := by
  have idle' : pc.worksIn phase' = false := by
    simpa [worksIn, other] using idle
  refine ⟨idle', ?_⟩
  cases pc <;> trivial

end Pc

namespace State

def touches (s : State τ μ) (t : τ) : Bool := (s.callers t).any fun call => call.pc.touching

def works (s : State τ μ) (t : τ) : Bool :=
  (s.callers t).any fun call =>
    call.pc.touching && !(call.pc.looking && s.bufferIsEmpty s.currentBuffer)

def worksIn (s : State τ μ) (phase : Phase) (t : τ) : Bool :=
  (s.callers t).any fun call => call.pc.worksIn phase

def enters (s : State τ μ) (t : τ) : Bool := (s.callers t).any fun call => call.pc == .lockBuffer

def marks (s : State τ μ) (t : τ) : Bool :=
  (s.callers t).any fun call => match call.pc with
    | .clearFlag _ => true
    | _ => false

end State

/-- No call is at work on the current buffer when another takes its buffer mutex,
and none is left in `NextBuffer` when another marks its buffer. -/
def Exclusive (s : State τ μ) : Action τ μ → Prop
  | .caller t =>
      (s.enters t = true → ∀ u, s.works u = false) ∧
        (s.marks t = true → ∀ u, s.touches u = true → u = t)
  | _ => True

instance decidableExclusive [DecidableEq τ] [Fintype τ] (s : State τ μ) :
    (a : Action τ μ) → Decidable (Exclusive s a)
  | .caller t =>
      inferInstanceAs (Decidable ((s.enters t = true → ∀ u, s.works u = false) ∧
        (s.marks t = true → ∀ u, s.touches u = true → u = t)))
  | .call _ _ | .writer | .spurious => isTrue trivial

theorem Call.holds_queue_of_queued {call : Call μ} {current : Nat}
    (fits : call.pc.Fits current .queued) (working : call.pc.worksIn .queued = true) :
    call.holds .queue = true := by
  rcases call with ⟨op, mutex, pc⟩
  cases pc <;>
    simp_all [Pc.Fits, Pc.worksIn, Pc.touching, Pc.looking, Call.holds, Call.holdsQueue]

structure InPhase (phase : Phase) (s : State τ μ) : Prop where
  ring : RingInv phase s
  fits : ∀ t call, s.callers t = some call → call.pc.Fits s.currentBuffer phase
  alone : ∀ t u, s.worksIn phase t = true → s.worksIn phase u = true → t = u
  turning : phase ≠ .ready → ∃ t, s.worksIn phase t = true

namespace InPhase

theorem start : InPhase .ready (start τ μ) where
  ring := .start
  fits := by intro t call here; cases here
  alone := by intro t u here; cases here
  turning := by intro other; exact absurd rfl other

variable [DecidableEq τ] {phase phase' : Phase} {s X : State τ μ} {t : τ} {call : Call μ}

theorem worksIn_setCaller (phase : Phase) (call' : Option (Call μ))
    (callers : X.callers = s.callers) (u : τ) : (X.setCaller t call').worksIn phase u =
      if u = t then call'.any fun c => c.pc.worksIn phase else s.worksIn phase u := by
  by_cases same : u = t
  · subst same
    simp [State.worksIn, State.setCaller]
  · simp [State.worksIn, State.setCaller, callers, same]

theorem goto (X : State τ μ) (pc : Pc) (callers : X.callers = s.callers)
    (others : ∀ u c, u ≠ t → s.callers u = some c → c.pc.Quiet X.currentBuffer phase)
    (ring : RingInv phase X) (fits : pc.Fits X.currentBuffer phase)
    (turning : phase ≠ .ready → pc.worksIn phase = true) : InPhase phase (X.goto t call pc) := by
  refine ⟨{ ring with }, ?_, ?_, ?_⟩
  · intro u other here
    by_cases same : u = t
    · subst same
      simp only [State.setCaller, Function.update_self, Option.some.injEq] at here
      subst here
      exact fits
    · simp only [State.setCaller, Function.update_of_ne same, callers] at here
      exact (others u other same here).2
  · have mine : ∀ u, (X.goto t call pc).worksIn phase u = true → u = t := by
      intro u working
      rw [worksIn_setCaller phase _ callers] at working
      by_contra different
      rw [if_neg different, State.worksIn, Option.any_eq_true] at working
      rcases working with ⟨c, here, moves⟩
      rw [(others u c different here).1] at moves
      cases moves
    intro u u' working working'
    rw [mine u working, mine u' working']
  · intro other
    refine ⟨t, ?_⟩
    rw [worksIn_setCaller phase _ callers, if_pos rfl]
    exact turning other

theorem pass (inv : InPhase phase s) (idle : s.worksIn phase t = false)
    (callers : X.callers = s.callers) (current : X.currentBuffer = s.currentBuffer)
    (ring : RingInv phase X) {call' : Option (Call μ)}
    (quiet : ∀ c, call' = some c → c.pc.Quiet s.currentBuffer phase) :
    InPhase phase (X.setCaller t call') := by
  have same : ∀ u, (X.setCaller t call').worksIn phase u = s.worksIn phase u := by
    intro u
    rw [worksIn_setCaller phase _ callers]
    split
    · rename_i me
      rw [me, idle]
      cases call' with
      | none => rfl
      | some c => exact (quiet c rfl).1
    · rfl
  refine ⟨{ ring with }, ?_, ?_, ?_⟩
  · intro u other here
    have fits : other.pc.Fits s.currentBuffer phase := by
      by_cases me : u = t
      · subst me
        simp only [State.setCaller, Function.update_self] at here
        exact (quiet other here).2
      · simp only [State.setCaller, Function.update_of_ne me, callers] at here
        exact inv.fits u other here
    rw [← current] at fits
    exact fits
  · intro u u' working working'
    rw [same] at working working'
    exact inv.alone u u' working working'
  · intro other
    rcases inv.turning other with ⟨u, working⟩
    exact ⟨u, by rw [same, working]⟩

theorem pass_goto (inv : InPhase phase s) (X : State τ μ) (idle : s.worksIn phase t = false)
    (callers : X.callers = s.callers) (current : X.currentBuffer = s.currentBuffer)
    (ring : RingInv phase X) (call : Call μ) {pc : Pc} (quiet : pc.Quiet s.currentBuffer phase) :
    InPhase phase (X.goto t call pc) := by
  apply inv.pass idle callers current ring
  intro c same
  cases same
  exact quiet

omit [DecidableEq τ] in
theorem worksIn_eq (mine : s.callers t = some call) :
    s.worksIn phase t = call.pc.worksIn phase := by
  rw [State.worksIn, mine, Option.any_some]

omit [DecidableEq τ] in
theorem others (inv : InPhase phase s) (mine : s.callers t = some call)
    (working : call.pc.worksIn phase = true) :
    ∀ u c, u ≠ t → s.callers u = some c → c.pc.Quiet s.currentBuffer phase := by
  intro u c different here
  refine ⟨?_, inv.fits u c here⟩
  by_contra moves
  rw [Bool.not_eq_false] at moves
  apply different
  exact inv.alone u t (by rw [worksIn_eq here, moves]) (by rw [worksIn_eq mine, working])

omit [DecidableEq τ] in
theorem outside (inv : InPhase .rotating s) (mine : s.callers t = some call)
    (working : call.pc.touching = true) (current : Nat) (phase : Phase) :
    ∀ u c, u ≠ t → s.callers u = some c → c.pc.Quiet current phase := by
  intro u c different here
  have quiet := inv.others mine (by simpa [Pc.worksIn] using working) u c different here
  exact Pc.quiet_of_not_touching (Pc.not_touching_of_rotating quiet.1) current phase

omit [DecidableEq τ] in
theorem vacant (inv : InPhase phase s) (settled : phase ≠ .rotating) :
    s.bufferIsEmpty s.currentBuffer = true := by
  by_contra marked
  rw [Bool.not_eq_true, inv.ring.flags _ inv.ring.current] at marked
  cases phase with
  | ready => exact inv.ring.ready rfl marked.1
  | queued => exact marked.2 ⟨rfl, rfl⟩
  | rotating => exact settled rfl

omit [DecidableEq τ] in
theorem ready_of_not_works (inv : InPhase phase s) (nobody : ∀ u, s.works u = false) :
    RingInv .ready s := by
  cases phase with
  | ready => exact inv.ring
  | queued =>
      rcases inv.turning (by decide) with ⟨u, working⟩
      rw [State.worksIn, Option.any_eq_true] at working
      rcases working with ⟨c, here, moves⟩
      have rests := nobody u
      simp_all [State.works, Pc.worksIn]
  | rotating =>
      rcases inv.turning (by decide) with ⟨u, working⟩
      rw [State.worksIn, Option.any_eq_true] at working
      rcases working with ⟨c, here, moves⟩
      have rests := nobody u
      apply inv.ring.settle
      simp_all [State.works, Pc.worksIn]

omit [DecidableEq τ] in
theorem quiet_of_not_works (inv : InPhase phase s) (nobody : ∀ u, s.works u = false) :
    ∀ u c, u ≠ t → s.callers u = some c → c.pc.Quiet s.currentBuffer .ready := by
  intro u c _ here
  apply Pc.Quiet.change _ (inv.fits u c here) (by decide)
  have rests := nobody u
  rw [State.works, here, Option.any_some] at rests
  rw [Pc.worksIn]
  grind

theorem callerStep {s' : State τ μ} (inv : InPhase phase s) (mine : s.callers t = some call)
    (entering : call.pc = .lockBuffer → ∀ u, s.works u = false)
    (marking : ∀ i, call.pc = .clearFlag i → ∀ u, s.touches u = true → u = t)
    (taken : s.callerStep t call = some s') : ∃ phase', InPhase phase' s' := by
  have fits := inv.fits t call mine
  have others := inv.others mine
  have idle : call.pc.worksIn phase = false → s.worksIn phase t = false := by
    intro idle
    rw [worksIn_eq mine, idle]
  have ring := inv.ring
  have quietly : ∀ {pc : Pc}, pc.touching = false → pc.Quiet s.currentBuffer phase :=
    fun outside => Pc.quiet_of_not_touching outside _ _
  rcases call with ⟨op, mutex, pc⟩
  cases pc <;> simp only [State.callerStep] at taken
  case setStop =>
    cases taken
    exact ⟨phase, inv.pass_goto { s with stopThread := true } (idle rfl) rfl rfl { ring with } _
      (quietly rfl)⟩
  case readMutex =>
    cases taken
    exact ⟨phase, inv.pass_goto s (idle rfl) rfl rfl ring _ (quietly rfl)⟩
  case lockBuffer =>
    split at taken <;> cases taken
    -- here the call enters: with nobody at work the ring is ready
    have nobody := entering rfl
    have ready := inv.ready_of_not_works nobody
    exact ⟨.ready, goto (s.setMutexBuffer mutex (some (.caller t))) .select rfl
      (inv.quiet_of_not_works nobody) { ready with } rfl fun other => absurd rfl other⟩
  case select =>
    cases taken
    cases fits
    refine ⟨.ready, goto s (op.afterSelect s.currentBuffer) rfl (others rfl) ring ?_
      fun other => absurd rfl other⟩
    cases op <;> exact ⟨rfl, rfl⟩
  case pushBack i =>
    split at taken <;> cases taken
    rcases fits with ⟨rfl, rfl⟩
    exact ⟨.ready, goto _ .selectSize rfl (others rfl) (ring.push op.messages) rfl
      fun other => absurd rfl other⟩
  case selectSize =>
    cases taken
    cases fits
    exact ⟨.ready, goto s (.test s.currentBuffer) rfl (others rfl) ring ⟨rfl, rfl⟩
      fun other => absurd rfl other⟩
  case test i =>
    split at taken <;> cases taken
    rcases fits with ⟨rfl, rfl⟩
    refine ⟨.ready, goto s _ rfl (others rfl) ring ?_ fun other => absurd rfl other⟩
    split
    · rfl
    · trivial
  case lockQueue =>
    split at taken <;> cases taken
    cases fits
    exact ⟨.ready, goto (s.setMutexQueue (some (.caller t))) .readIndex rfl (others rfl)
      { ring with } rfl fun other => absurd rfl other⟩
  case readIndex =>
    cases taken
    cases fits
    exact ⟨.ready, goto s (.enqueue s.currentBuffer) rfl (others rfl) ring ⟨rfl, rfl⟩
      fun other => absurd rfl other⟩
  case enqueue i =>
    cases taken
    rcases fits with ⟨rfl, rfl⟩
    refine ⟨.queued, goto _ .readFlag rfl ?_ ring.enqueue rfl fun _ => rfl⟩
    intro u c different here
    have quiet := others rfl u c different here
    exact Pc.Quiet.change quiet.1 quiet.2 (by decide)
  case readFlag =>
    cases taken
    cases fits
    exact ⟨.queued, goto s (.clearFlag s.currentBuffer) rfl (others rfl) ring ⟨rfl, rfl⟩
      fun _ => rfl⟩
  case clearFlag i =>
    split at taken <;> cases taken
    rcases fits with ⟨rfl, rfl⟩
    refine ⟨.rotating, goto _ op.afterClear rfl ?_ ring.clearFlag ?_ fun _ => ?_⟩
    · intro u c different here
      apply Pc.quiet_of_not_touching
      by_contra touching
      apply different
      apply marking _ rfl
      have here' : s.callers u = some c := here
      simpa [State.touches, here'] using touching
    · cases op <;> trivial
    · cases op <;> rfl
  case releaseQueue =>
    cases taken
    cases fits
    exact ⟨.rotating, goto (s.setMutexQueue none) .nextRead rfl (others rfl) { ring with } trivial
      fun _ => rfl⟩
  case nextRead =>
    cases taken
    by_cases rotating : phase = .rotating
    · subst rotating
      exact ⟨.rotating, goto s (.nextTest s.currentBuffer) rfl (others rfl) ring rfl fun _ => rfl⟩
    · have rests : ∀ i, (Pc.nextTest i).worksIn phase = false := by
        intro i
        simp [Pc.worksIn, rotating, Pc.looking]
      exact ⟨phase, inv.pass_goto s (idle (rests 0)) rfl rfl ring _ ⟨rests _, rfl⟩⟩
  case nextTest i =>
    split at taken <;> cases taken
    cases fits
    by_cases rotating : phase = .rotating
    · subst rotating
      split
      · rename_i vacant
        exact ⟨.ready, goto s .notifyOne rfl (inv.outside mine rfl _ _) (ring.settle vacant) trivial
          fun other => absurd rfl other⟩
      · exact ⟨.rotating, goto s .nextBound rfl (others rfl) ring rfl fun _ => rfl⟩
    · rw [if_pos (inv.vacant rotating)]
      have rests : (Pc.nextTest s.currentBuffer).worksIn phase = false := by
        simp [Pc.worksIn, rotating, Pc.looking]
      exact ⟨phase, inv.pass_goto s (idle rests) rfl rfl ring _ (quietly rfl)⟩
  case nextBound =>
    cases taken
    cases fits
    split
    · exact ⟨.rotating, goto s (.nextStore 0) rfl (others rfl) ring ⟨rfl, by decide⟩ fun _ => rfl⟩
    · rename_i below
      exact ⟨.rotating, goto s .nextAdd rfl (others rfl) ring ⟨rfl, Nat.lt_of_not_ge below⟩
        fun _ => rfl⟩
  case nextAdd =>
    cases taken
    rcases fits with ⟨rfl, small⟩
    exact ⟨.rotating, goto s (.nextStore (s.currentBuffer + 1)) rfl (others rfl) ring ⟨rfl, small⟩
      fun _ => rfl⟩
  case nextStore i =>
    cases taken
    rcases fits with ⟨rfl, small⟩
    exact ⟨.rotating, goto _ .nextRead rfl (inv.outside mine rfl _ _) (ring.setCurrent small)
      trivial fun _ => rfl⟩
  case notifyOne =>
    cases taken
    refine ⟨phase, inv.pass_goto s.notify (idle rfl) rfl rfl ring.notify _ (quietly ?_)⟩
    cases op <;> rfl
  case unlockQueue =>
    cases taken
    exact ⟨phase, inv.pass_goto (s.setMutexQueue none) (idle rfl) rfl rfl { ring with } _
      (quietly rfl)⟩
  case unlockBuffer =>
    cases taken
    have left : InPhase phase ((s.setMutexBuffer mutex none).setCaller t none) := by
      apply inv.pass (X := s.setMutexBuffer mutex none) (idle rfl) rfl rfl { ring with }
      intro c same
      cases same
    cases op with
    | write message => exact ⟨phase, { left.ring with }, left.fits, left.alone, left.turning⟩
    | flush => exact ⟨phase, left⟩
    | destroy =>
        exact ⟨phase, inv.pass_goto (s.setMutexBuffer mutex none) (idle rfl) rfl rfl
          { ring with } _ (quietly rfl)⟩
  case notifyAll =>
    cases taken
    exact ⟨phase, inv.pass_goto s.notify (idle rfl) rfl rfl ring.notify _ (quietly rfl)⟩
  case join =>
    split at taken <;> cases taken
    exact ⟨phase, inv.pass_goto s.flushFile (idle rfl) rfl rfl { ring with } _ (quietly rfl)⟩
  case closed => cases taken

omit [DecidableEq τ] in
theorem frame (inv : InPhase phase s) (X : State τ μ) (callers : X.callers = s.callers)
    (current : X.currentBuffer = s.currentBuffer) (ring : RingInv phase X) : InPhase phase X := by
  have worksIn : ∀ t, X.worksIn phase t = s.worksIn phase t := by
    intro t
    rw [State.worksIn, callers]
    rfl
  refine ⟨ring, ?_, ?_, ?_⟩
  · rw [callers, current]
    exact inv.fits
  · intro t u
    rw [worksIn, worksIn]
    exact inv.alone t u
  · intro other
    rcases inv.turning other with ⟨t, working⟩
    exact ⟨t, by rw [worksIn, working]⟩

omit [DecidableEq τ] in
theorem not_queued_of_writer (inv : InPhase phase s) (locks : LockInv s)
    (inside : s.writer.holds .queue = true) : phase ≠ .queued := by
  intro queued
  subst queued
  rcases inv.turning (by decide) with ⟨t, working⟩
  rw [State.worksIn, Option.any_eq_true] at working
  rcases working with ⟨call, here, moves⟩
  have held := Call.holds_queue_of_queued (inv.fits t call here) moves
  rw [locks.writer_outside here held] at inside
  cases inside

omit [DecidableEq τ] in
theorem writerStep {s' : State τ μ} (inv : InPhase phase s) (locks : LockInv s)
    (taken : s.writerStep = some s') : InPhase phase s' := by
  have ring := inv.ring
  have progress := ring.progress
  cases pc : s.writer <;> simp only [State.writerStep, pc] at taken
  case lockQueue =>
    split at taken <;> cases taken
    have moved := ring.idle (w := .predicate) (by rw [pc]; rfl) rfl trivial
    exact inv.frame _ rfl rfl { moved with }
  case predicate =>
    cases taken
    refine inv.frame _ rfl rfl (ring.idle (by rw [pc]; rfl) ?_ ?_)
    · split <;> rfl
    · split <;> trivial
  case sleep =>
    cases taken
    have moved := ring.idle (w := .waiting) (by rw [pc]; rfl) rfl trivial
    exact inv.frame _ rfl rfl { moved with }
  case waiting => cases taken
  case testStop =>
    split at taken <;> cases taken
    · have moved := ring.idle (w := .returned) (by rw [pc]; rfl) rfl trivial
      exact inv.frame _ rfl rfl { moved with }
    · exact inv.frame _ rfl rfl (ring.idle (by rw [pc]; rfl) rfl trivial)
  case pop =>
    split at taken
    · cases taken
    · rename_i i rest queue
      cases taken
      have marked := inv.not_queued_of_writer locks (by rw [pc]; rfl)
      exact inv.frame _ rfl rfl (ring.pop marked pc queue)
  case releaseQueue i =>
    cases taken
    have moved : RingInv phase (s.setWriter (.begin i)) :=
      ring.move (by rw [pc]; rfl) (by rw [pc]; intro; rfl) trivial
    exact inv.frame _ rfl rfl { moved with }
  case begin i =>
    split at taken <;> cases taken
    refine inv.frame _ rfl rfl (ring.move (by rw [pc]; rfl) ?_ ⟨Nat.zero_le _, rfl⟩)
    intro j
    rw [pc]
    simp [Writer.done]
  case iterate i k n =>
    rw [pc] at progress
    split at taken
    · rename_i more
      rcases Option.map_eq_some_iff.mp taken with ⟨m, found, rfl⟩
      exact inv.frame _ rfl rfl (ring.print pc more found)
    · rename_i none
      cases taken
      have ended : k = n := by
        have bound := progress.1
        omega
      refine inv.frame _ rfl rfl (ring.move (by rw [pc]; rfl) ?_ progress.2)
      intro j
      rw [pc, ended]
      rfl
  case lockBuffer i n =>
    split at taken <;> cases taken
    rw [pc] at progress
    have moved : RingInv phase (s.setWriter (.clear i n)) :=
      ring.move (by rw [pc]; rfl) (by rw [pc]; intro; rfl) progress
    exact inv.frame _ rfl rfl { moved with }
  case clear i n =>
    cases taken
    exact inv.frame _ rfl rfl (ring.clear pc)
  case setFlag i =>
    cases taken
    exact inv.frame _ rfl rfl (ring.setFlag pc)
  case unlockBuffer i =>
    cases taken
    have moved := ring.idle (w := .flushFile) (by rw [pc]; rfl) rfl trivial
    exact inv.frame _ rfl rfl { moved with }
  case flushFile =>
    cases taken
    have moved := ring.idle (w := .lockQueue) (by rw [pc]; rfl) rfl trivial
    exact inv.frame _ rfl rfl { moved with }
  case returned => cases taken

end InPhase

structure OrderlyInv (s : State τ μ) : Prop where
  locks : LockInv s
  phase : ∃ phase, InPhase phase s

variable [DecidableEq τ]

namespace OrderlyInv

theorem step {s s' : State τ μ} {a : Action τ μ} (inv : OrderlyInv s) (exclusive : Exclusive s a)
    (taken : FileLogPolicy.step s a = some s') : OrderlyInv s' := by
  refine ⟨inv.locks.step taken, ?_⟩
  rcases inv.phase with ⟨phase, inPhase⟩
  cases step_takes taken with
  | call t op absent =>
      have entered : InPhase phase (s.setCaller t (some ⟨op, 0, op.entry⟩)) := by
        apply inPhase.pass (by simp [State.worksIn, absent]) rfl rfl inPhase.ring
        intro c same
        cases same
        apply Pc.quiet_of_not_touching
        cases op <;> rfl
      exact ⟨phase, { entered.ring with }, entered.fits, entered.alone, entered.turning⟩
  | caller t call mine taken =>
      apply inPhase.callerStep mine _ _ taken
      · intro place
        apply exclusive.1
        simp [State.enters, mine, place]
      · intro i place
        apply exclusive.2
        simp [State.marks, mine, place]
  | writer taken => exact ⟨phase, inPhase.writerStep inv.locks taken⟩
  | spurious waiting =>
      have woken := inPhase.ring.idle (w := .lockQueue) (by rw [waiting]; rfl) rfl trivial
      exact ⟨phase, inPhase.frame _ rfl rfl woken⟩

theorem of_reachable {guard : State τ μ → Action τ μ → Prop}
    (exclusive : ∀ s a, guard s a → Exclusive s a) {s : State τ μ}
    (reached : (machine τ μ).ReachUnder guard s) : OrderlyInv s := by
  apply reached.invariant (I := OrderlyInv) ⟨.start, .ready, .start⟩
  intro s a s' inv allowed taken
  exact inv.step (exclusive s a allowed) taken

omit [DecidableEq τ] in
theorem ready_of_idle {s : State τ μ} (inv : OrderlyInv s) (idle : ∀ t, s.callers t = none) :
    RingInv .ready s := by
  rcases inv.phase with ⟨phase, inPhase⟩
  apply inPhase.ready_of_not_works
  intro t
  rw [State.works, idle t]
  rfl

end OrderlyInv

end CommonUtils.Logger.FileLogPolicy
