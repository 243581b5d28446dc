import CommonUtils.Logger.FileLogPolicy.Rounds
import CommonUtils.Logger.FileLogPolicy.Writer

/-! The trap in `NextBuffer`: a call that spins over a full ring while the writer, which
alone frees a buffer, waits for a mutex behind that call or for a notification that nobody
is about to give. In any other state over a full ring the writer or a call in its way goes
on. -/

namespace CommonUtils.Logger.FileLogPolicy

variable {τ μ : Type*}

namespace Pc

def spinning : Pc → Bool
  | .nextRead | .nextTest _ | .nextBound | .nextAdd | .nextStore _ => true
  | _ => false

def marking : Pc → Bool
  | .readFlag | .clearFlag _ => true
  | _ => false

end Pc

def Call.awaits (call : Call μ) : Option Mutex :=
  match call.pc with
  | .lockBuffer => some (.buffer call.mutex)
  | .lockQueue => some .queue
  | _ => none

def Writer.wantsQueue : Writer → Bool
  | .lockQueue | .sleep | .waiting | .unlockBuffer _ | .flushFile => true
  | _ => false

namespace State

variable (s : State τ μ)

def next : Option Nat :=
  match s.writer with
  | .releaseQueue i | .begin i | .iterate i _ _ | .lockBuffer i _ => some i
  | .clear _ _ | .setFlag _ | .returned => none
  | _ => s.queueBuffers.head?

/-- The mutexes that the writer has to take before it can free a buffer. -/
def needs : Mutex → Prop
  | .queue => s.writer.wantsQueue = true
  | .buffer i => s.next = some i

def spins (t : τ) : Prop := ∃ call, s.callers t = some call ∧ call.pc.spinning = true

/-- `t` owns the mutex, or the owner waits for one behind `t`. -/
inductive Behind (t : τ) : Mutex → Prop
  | owns {m : Mutex} (owned : s.owner m = some (.caller t)) : Behind t m
  | waits {m m' : Mutex} {u : τ} {call : Call μ} (owned : s.owner m = some (.caller u))
      (mine : s.callers u = some call) (awaits : call.awaits = some m')
      (behind : Behind t m') : Behind t m

def blocks (t : τ) : Prop := ∃ m, s.needs m ∧ s.Behind t m

/-- The writer has returned, or waits with no call in progress that is to notify it. -/
def unserved : Prop :=
  s.writer = .returned ∨ s.writer = .waiting ∧
    ∀ u call, s.callers u = some call → call.pc ≠ .notifyOne ∧ call.op ≠ .destroy

def full : Prop := ∀ i < bufferCount, s.bufferIsEmpty i = false

end State

/-- A call spins over a full ring, and the writer frees no buffer before it goes on. -/
def Stuck (s : State τ μ) : Prop := s.full ∧ ∃ t, s.spins t ∧ (s.blocks t ∨ s.unserved)

namespace State

def relayed (s : State τ μ) : Prop :=
  ∃ u call, s.callers u = some call ∧ call.pc = .lockQueue ∧ s.next = some call.mutex

/-- A mutex is behind `t` at one remove at most: who waits for a buffer mutex owns none. -/
theorem behind_iff {s : State τ μ} (locks : LockInv s) {t : τ} {m : Mutex} :
    s.Behind t m ↔ s.owner m = some (.caller t) ∨ s.owner .queue = some (.caller t) ∧
      ∃ u call, s.owner m = some (.caller u) ∧ s.callers u = some call ∧ call.pc = .lockQueue := by
  have held : ∀ {u call m}, s.owner m = some (.caller u) → s.callers u = some call →
      call.holds m = true := by
    intro u call m owned mine
    rwa [locks.agree m, State.inside, mine, heldBy_some] at owned
  constructor
  · intro behind
    induction behind with
    | owns owned => exact .inl owned
    | @waits m m' u call owned mine awaits behind ih =>
        rcases call with ⟨op, mutex, pc⟩
        have inside := held owned mine
        cases pc <;> cases awaits
        case lockBuffer.refl => cases m <;> cases inside
        case lockQueue.refl =>
          refine .inr ⟨?_, u, _, owned, mine, rfl⟩
          rcases ih with owned | ⟨owned, _⟩ <;> exact owned
  · rintro (owned | ⟨queue, u, call, owned, mine, pc⟩)
    · exact .owns owned
    · refine .waits owned mine ?_ (.owns queue)
      rw [Call.awaits, pc]

end State

def Caught (s : State τ μ) (call : Call μ) : Prop :=
  call.pc.spinning = true ∧ ((∃ m, s.needs m ∧ call.holds m = true) ∨
    call.holds .queue = true ∧ s.relayed ∨ s.unserved)

theorem blocks_iff {s : State τ μ} (locks : LockInv s) {t : τ} {call : Call μ}
    (mine : s.callers t = some call) : s.blocks t ↔
      (∃ m, s.needs m ∧ call.holds m = true) ∨ call.holds .queue = true ∧ s.relayed := by
  have same : ∀ {u call}, s.callers u = some call → ∀ m, s.owner m = some (.caller u) ↔
      call.holds m = true := by
    intro u call here m
    rw [locks.agree m, State.inside, here, heldBy_some]
  simp only [State.blocks, State.behind_iff locks, same mine]
  constructor
  · rintro ⟨m, needed, held | ⟨held, u, other, owned, here, pc⟩⟩
    · exact .inl ⟨m, needed, held⟩
    · refine .inr ⟨held, u, other, here, pc, ?_⟩
      have inside := (same here m).mp owned
      cases m with
      | queue => simp [Call.holds, Call.holdsQueue, pc] at inside
      | buffer i =>
          have mutex : i = other.mutex := by simpa [Call.holds, Call.holdsBuffer, pc] using inside
          rw [← mutex]
          exact needed
  · rintro (⟨m, needed, held⟩ | ⟨held, u, other, here, pc, next⟩)
    · exact ⟨m, needed, .inl held⟩
    · refine ⟨.buffer other.mutex, next, .inr ⟨held, u, other, ?_, here, pc⟩⟩
      rw [same here]
      simp [Call.holds, Call.holdsBuffer, pc]

theorem caught_iff {s : State τ μ} (locks : LockInv s) :
    (∃ t, s.spins t ∧ (s.blocks t ∨ s.unserved)) ↔
      ∃ t call, s.callers t = some call ∧ Caught s call := by
  constructor
  · rintro ⟨t, ⟨call, mine, spinning⟩, trapped⟩
    rw [blocks_iff locks mine, or_assoc] at trapped
    exact ⟨t, call, mine, spinning, trapped⟩
  · rintro ⟨t, call, mine, spinning, trapped⟩
    rw [← or_assoc, ← blocks_iff locks mine] at trapped
    exact ⟨t, ⟨call, mine, spinning⟩, trapped⟩

theorem stuck_iff {s : State τ μ} (locks : LockInv s) :
    Stuck s ↔ s.full ∧ ∃ t call, s.callers t = some call ∧ Caught s call := by
  rw [Stuck, caught_iff locks]

/-- What a spinning call is inside does not depend on where in the loop it is. -/
theorem holds_of_spinning {op : Op μ} {mutex : Nat} {pc : Pc} (spinning : pc.spinning = true)
    (m : Mutex) : Call.holds ⟨op, mutex, pc⟩ m = true ↔
      m = .queue ∧ op.keepsQueue = true ∨ m = .buffer mutex := by
  cases pc
  case nextRead | nextTest | nextBound | nextAdd | nextStore =>
    cases m <;> simp [Call.holds, Call.holdsQueue, Call.holdsBuffer]
  all_goals cases spinning

theorem needs_notify (s : State τ μ) : s.notify.needs = s.needs := by
  cases pc : s.writer <;> funext m <;> cases m <;>
    simp [State.needs, State.next, State.notify, State.setWriter, Writer.notified,
      Writer.wantsQueue, pc]

theorem holds_of_marking {call : Call μ} (marking : call.pc.marking = true) :
    call.holds .queue = true := by
  rcases call with ⟨op, mutex, pc⟩
  cases pc <;> first | rfl | cases marking

structure QueueInv (s : State τ μ) : Prop where
  full : s.full → s.queueBuffers ≠ [] ∨ s.writer.popped ≠ none
  marks : ∀ t call, s.callers t = some call → call.pc.marking = true → s.queueBuffers ≠ []
  sleep : s.writer = .sleep → s.queueBuffers = []

namespace QueueInv

variable {s s' : State τ μ}

theorem start : QueueInv (start τ μ) where
  full := by
    intro all
    cases all 0 (by decide)
  marks := by
    intro t call here
    cases here
  sleep := by
    intro other
    cases other

theorem writerStep (inv : QueueInv s) (locks : LockInv s)
    (inside : ∀ i, s.writer.entered = some i → i < bufferCount)
    (taken : s.writerStep = some s') : QueueInv s' := by
  have callers := (writerFrame_of_writerStep taken).callers
  have still : s'.queueBuffers = s.queueBuffers →
      ∀ t call, s'.callers t = some call → call.pc.marking = true → s'.queueBuffers ≠ [] := by
    intro same t call here marking
    rw [callers] at here
    rw [same]
    exact inv.marks t call here marking
  have moved : (s'.full → s'.queueBuffers ≠ [] ∨ s'.writer.popped ≠ none) →
      s'.queueBuffers = s.queueBuffers → s'.writer ≠ .sleep → QueueInv s' :=
    fun queued same awake => ⟨queued, still same, fun asleep => absurd asleep awake⟩
  have full := inv.full
  cases pc : s.writer <;> simp only [State.writerStep, pc] at taken full
  case pop =>
    split at taken <;> cases taken
    refine ⟨fun _ => .inr (Option.some_ne_none _), ?_, by intro other; cases other⟩
    intro t call here marking
    have outside := locks.writer_outside here (holds_of_marking marking)
    rw [pc] at outside
    cases outside
  case predicate =>
    cases taken
    refine ⟨?_, still rfl, ?_⟩
    · intro all
      exact .inl ((full all).resolve_right fun other => other rfl)
    · intro asleep
      simp only [State.setWriter] at asleep ⊢
      split at asleep
      · cases asleep
      · rename_i idle
        exact not_not.mp fun some => idle (.inl some)
  case setFlag i =>
    cases taken
    refine moved ?_ rfl (by simp [State.setWriter])
    intro all
    have marked := all i (inside i (by rw [pc]; rfl))
    simp [State.setWriter, State.setFlag] at marked
  case iterate =>
    split at taken
    · rcases Option.map_eq_some_iff.mp taken with ⟨message, _, rfl⟩
      exact moved (fun _ => .inr (Option.some_ne_none _)) rfl (by simp [State.setWriter])
    · cases taken
      exact moved (fun _ => .inr (Option.some_ne_none _)) rfl (by simp [State.setWriter])
  case begin | lockBuffer =>
    split at taken <;> cases taken
    exact moved (fun _ => .inr (Option.some_ne_none _)) rfl (by simp [State.setWriter])
  case releaseQueue | clear =>
    cases taken
    exact moved (fun _ => .inr (Option.some_ne_none _)) rfl (by simp [State.setWriter])
  case lockQueue | testStop =>
    split at taken <;> cases taken <;>
      exact moved (fun all => .inl ((full all).resolve_right fun other => other rfl)) rfl
        (by simp [State.setWriter])
  case waiting | returned => cases taken
  case sleep | unlockBuffer | flushFile =>
    cases taken
    exact moved (fun all => .inl ((full all).resolve_right fun other => other rfl)) rfl
      (by simp [State.setWriter])

variable [DecidableEq τ] {t : τ} {call : Call μ}

theorem marks_of_callerStep (taken : s.callerStep t call = some s') :
    (s'.bufferIsEmpty = s.bufferIsEmpty ∨ call.pc.marking = true) ∧
      (s'.queueBuffers = s.queueBuffers ∨ call.holds .queue = true ∧ s'.queueBuffers ≠ []) ∧
      ∀ next, s'.callers t = some next → next.pc.marking = true →
        call.pc.marking = true ∨ s'.queueBuffers ≠ [] := by
  have elsewhere : ∀ {op : Op μ} {mutex : Nat} {pc : Pc} {callers : τ → Option (Call μ)},
      pc.marking = false → ∀ next, Function.update callers t (some ⟨op, mutex, pc⟩) t =
        some next → next.pc.marking = true → call.pc.marking = true ∨ s'.queueBuffers ≠ [] := by
    intro op mutex pc callers out next here marking
    rw [Function.update_self] at here
    cases here
    rw [out] at marking
    cases marking
  rcases call with ⟨op, mutex, pc⟩
  cases pc <;> simp only [State.callerStep] at taken
  case enqueue i =>
    cases taken
    have some : s.queueBuffers ++ [i] ≠ [] := by simp
    exact ⟨.inl rfl, .inr ⟨rfl, some⟩, fun _ _ _ => .inr some⟩
  case readFlag =>
    cases taken
    exact ⟨.inl rfl, .inl rfl, fun _ _ _ => .inl rfl⟩
  case clearFlag i =>
    split at taken <;> cases taken
    exact ⟨.inr rfl, .inl rfl, fun _ _ _ => .inl rfl⟩
  case unlockBuffer =>
    cases taken
    refine ⟨.inl (by cases op <;> rfl), .inl (by cases op <;> rfl), ?_⟩
    cases op with
    | write | flush =>
        intro next here
        simp [State.finish, State.setCaller] at here
    | destroy => exact elsewhere rfl
  case lockBuffer | pushBack | lockQueue | join =>
    split at taken <;> cases taken
    exact ⟨.inl rfl, .inl rfl, elsewhere rfl⟩
  case test | nextTest =>
    split at taken <;> cases taken
    exact ⟨.inl rfl, .inl rfl, elsewhere (by split <;> rfl)⟩
  case nextBound =>
    cases taken
    exact ⟨.inl rfl, .inl rfl, elsewhere (by split <;> rfl)⟩
  case select | notifyOne =>
    cases taken
    exact ⟨.inl rfl, .inl rfl, elsewhere (by cases op <;> rfl)⟩
  case closed => cases taken
  all_goals
    cases taken
    exact ⟨.inl rfl, .inl rfl, elsewhere rfl⟩

theorem callerStep (inv : QueueInv s) (locks : LockInv s) (mine : s.callers t = some call)
    (taken : s.callerStep t call = some s') : QueueInv s' := by
  have frame := callerFrame_of_callerStep taken
  rcases marks_of_callerStep taken with ⟨flags, queue, marked⟩
  have longer : s.queueBuffers ≠ [] → s'.queueBuffers ≠ [] := by
    rcases queue with same | ⟨_, some⟩
    · rw [same]
      exact id
    · exact fun _ => some
  have popped : s'.writer.popped = s.writer.popped := by
    rcases frame.writer with same | notified
    · rw [same]
    · rw [notified]
      cases s.writer <;> rfl
  constructor
  · intro full
    rw [popped]
    rcases flags with same | marking
    · unfold State.full at full
      rw [same] at full
      exact (inv.full full).imp longer id
    · exact .inl (longer (inv.marks t call mine marking))
  · intro u other here marking
    by_cases me : u = t
    · subst me
      rcases marked other here marking with before | some
      · exact longer (inv.marks u call mine before)
      · exact some
    · rcases frame.callers with ⟨_, callers, _⟩
      rw [callers, Function.update_of_ne me] at here
      exact longer (inv.marks u other here marking)
  · intro asleep
    have before : s.writer = .sleep := by
      rcases frame.writer with same | notified
      · rw [← same, asleep]
      · rw [asleep] at notified
        cases pc : s.writer <;> rw [pc] at notified <;> first | rfl | cases notified
    rcases queue with same | ⟨held, _⟩
    · rw [same]
      exact inv.sleep before
    · have outside := locks.writer_outside mine held
      rw [before] at outside
      cases outside

theorem step {a : Action τ μ} (inv : QueueInv s) (writer : WriterInv s)
    (taken : FileLogPolicy.step s a = some s') : QueueInv s' := by
  cases step_takes taken with
  | call t op absent =>
      refine ⟨inv.full, ?_, inv.sleep⟩
      intro u other here marking
      by_cases me : u = t
      · subst me
        simp only [State.enter, State.setCaller, Function.update_self, Option.some.injEq] at here
        subst here
        cases op <;> cases marking
      · simp only [State.enter, State.setCaller, Function.update_of_ne me] at here
        exact inv.marks u other here marking
  | caller t call mine taken => exact inv.callerStep writer.locks mine taken
  | writer taken => exact inv.writerStep writer.locks writer.inside taken
  | spurious waiting =>
      refine ⟨?_, inv.marks, by intro other; cases other⟩
      intro full
      have either := inv.full full
      rw [waiting] at either
      exact .inl (either.resolve_right fun other => other rfl)

end QueueInv

section Progress

variable {s : State τ μ}

/-- The call of `u` is in the writer's way, or is to notify it, and goes on: it neither spins
nor waits for a mutex. -/
def State.clears (s : State τ μ) (u : τ) : Prop :=
  ∃ call, s.callers u = some call ∧ (s.blocks u ∨ call.pc = .notifyOne) ∧
    call.pc.spinning = false ∧ ∀ m, call.awaits = some m → s.owner m = none

theorem awaits_of_holds {call : Call μ} (held : call.holds .queue = true) : call.awaits = none := by
  rcases call with ⟨op, mutex, pc⟩
  cases pc <;> first | rfl | cases held

theorem clears_of_owner (locks : LockInv s) (full : s.full) (free : ¬ Stuck s) {m : Mutex}
    {o : Owner τ} (needed : s.needs m) (owned : s.owner m = some o)
    (outside : ∀ m, s.writer.holds m = false) : ∃ u, s.clears u := by
  have caller : ∀ {m o}, s.owner m = some o → ∃ u call, o = .caller u ∧
      s.callers u = some call ∧ call.holds m = true := by
    intro m o owned
    rw [locks.agree] at owned
    cases o with
    | writer =>
        have inside : s.writer.holds m = true := owned
        rw [outside] at inside
        cases inside
    | caller u =>
        rcases owned with ⟨call, mine, held⟩
        exact ⟨u, call, rfl, mine, held⟩
  have still : ∀ {u call}, s.callers u = some call → s.blocks u → call.pc.spinning = false := by
    intro u call mine blocks
    by_contra spinning
    rw [Bool.not_eq_false] at spinning
    exact free ⟨full, u, ⟨call, mine, spinning⟩, .inl blocks⟩
  rcases caller owned with ⟨u, call, rfl, mine, held⟩
  have blocks : s.blocks u := ⟨m, needed, .owns owned⟩
  by_cases goes : ∀ m', call.awaits = some m' → s.owner m' = none
  · exact ⟨u, call, mine, .inl blocks, still mine blocks, goes⟩
  · push Not at goes
    rcases goes with ⟨m', awaits, taken⟩
    rcases Option.ne_none_iff_exists'.mp taken with ⟨o', owned'⟩
    rcases caller owned' with ⟨v, other, rfl, here, held'⟩
    have behind : s.blocks v := ⟨m, needed, .waits owned mine awaits (.owns owned')⟩
    have queue : m' = .queue := by
      rcases call with ⟨op, mutex, pc⟩
      cases pc <;> cases awaits
      case lockBuffer.refl => cases m <;> cases held
      case lockQueue.refl => rfl
    subst queue
    refine ⟨v, other, here, .inl behind, still here behind, ?_⟩
    simp [awaits_of_holds held']

/-- Over a full ring that is no trap the writer goes on, or else a call does that is in its
way or is to notify it. -/
theorem goes_on_of_not_stuck (inv : WriterInv s) (queue : QueueInv s) (full : s.full)
    (spins : ∃ t, s.spins t) (free : ¬ Stuck s)
    (stays : ∀ u call, s.callers u = some call → call.op ≠ .destroy)
    (inside : ∀ i, s.writer = .begin i → i < bufferCount) :
    s.writerStep.isSome = true ∨ ∃ u, s.clears u := by
  have served : ¬ s.unserved := by
    intro unserved
    rcases spins with ⟨t, spins⟩
    exact free ⟨full, t, spins, .inr unserved⟩
  have counted := inv.counted
  have queued := queue.full full
  cases pc : s.writer <;> simp only [pc] at counted queued
  case lockQueue =>
    cases owned : s.mutexQueue with
    | none => exact .inl (by simp [State.writerStep, pc, owned])
    | some o =>
        refine .inr (clears_of_owner inv.locks full free (m := .queue) ?_ owned ?_)
        · simp [State.needs, Writer.wantsQueue, pc]
        · simp [Writer.holds, pc]
  case lockBuffer i n =>
    cases owned : s.mutexBuffers i with
    | none => exact .inl (by simp [State.writerStep, pc, owned])
    | some o =>
        refine .inr (clears_of_owner inv.locks full free (m := .buffer i) ?_ owned ?_)
        · simp [State.needs, State.next, pc]
        · simp [Writer.holds, pc]
  case waiting =>
    by_cases notifies : ∃ u call, s.callers u = some call ∧ call.pc = .notifyOne
    · rcases notifies with ⟨u, call, mine, place⟩
      exact .inr ⟨u, call, mine, .inr place, by rw [place]; rfl, by simp [Call.awaits, place]⟩
    · push Not at notifies
      exact absurd (.inr ⟨pc, fun u call mine => ⟨notifies u call mine, stays u call mine⟩⟩) served
  case returned => exact absurd (.inl pc) served
  case pop =>
    rcases List.exists_cons_of_ne_nil (queued.resolve_right fun other => other rfl) with
      ⟨i, rest, some⟩
    exact .inl (by simp [State.writerStep, pc, some])
  case begin i => exact .inl (by simp [State.writerStep, pc, inside i pc])
  case iterate i k n =>
    have length := (counted i n (by simp [Writer.counted])).2
    left
    simp only [State.writerStep, pc]
    split
    · simp
      omega
    · rfl
  case testStop => exact .inl (by simp only [State.writerStep, pc]; split <;> rfl)
  all_goals exact .inl (by simp [State.writerStep, pc])

end Progress

end CommonUtils.Logger.FileLogPolicy
