import CommonUtils.Logger.FileLogPolicy.Locks
import CommonUtils.Logger.FileLogPolicy.Ring

namespace CommonUtils.Logger.FileLogPolicy

variable {τ μ : Type*}

namespace Writer

def entered : Writer → Option Nat
  | .iterate i _ _ | .lockBuffer i _ | .clear i _ | .setFlag i => some i
  | _ => none

theorem entered_notified (w : Writer) : w.notified.entered = w.entered := by
  cases w <;> rfl

def counted (i : Nat) : Writer → Option Nat
  | .iterate j _ n | .lockBuffer j n | .clear j n => if i = j then some n else none
  | _ => none

theorem entered_of_counted {w : Writer} {i n : Nat} (counted : w.counted i = some n) :
    w.entered = some i := by
  cases w <;> simp_all [Writer.counted, Writer.entered]

theorem done_of_not_counted {w : Writer} {i : Nat} (none : w.counted i = none) : w.done i = 0 := by
  cases w <;> simp_all [Writer.counted, Writer.done]

theorem counted_notified (w : Writer) (i : Nat) : w.notified.counted i = w.counted i := by
  cases w <;> rfl

end Writer

structure WriterInv (s : State τ μ) : Prop where
  locks : LockInv s
  inside : ∀ i, s.writer.entered = some i → i < bufferCount
  beyond : ∀ i, bufferCount ≤ i → s.buffers i = []
  counted : ∀ i n, s.writer.counted i = some n →
    s.writer.done i ≤ n ∧ n ≤ (s.buffers i).length

theorem entered_of_writerStep {s s' : State τ μ}
    (inside : ∀ i, s.writer.entered = some i → i < bufferCount)
    (taken : s.writerStep = some s') : ∀ i, s'.writer.entered = some i → i < bufferCount := by
  intro i now
  cases pc : s.writer <;> simp only [State.writerStep, pc] at taken
  case begin j =>
    split at taken <;> cases taken
    cases now
    assumption
  case iterate j k n =>
    have small := inside j (by rw [pc]; rfl)
    split at taken
    · rcases Option.map_eq_some_iff.mp taken with ⟨message, _, rfl⟩
      cases now
      exact small
    · cases taken
      cases now
      exact small
  case lockBuffer j n =>
    split at taken <;> cases taken
    cases now
    exact inside i (by rw [pc]; rfl)
  case clear j n =>
    cases taken
    cases now
    exact inside i (by rw [pc]; rfl)
  case predicate =>
    cases taken
    simp only [State.setWriter] at now
    split at now <;> cases now
  case lockQueue | testStop | pop => split at taken <;> cases taken <;> cases now
  case sleep | releaseQueue | setFlag | unlockBuffer | flushFile =>
    cases taken
    cases now
  case waiting | returned => cases taken

theorem buffers_of_writerStep {s s' : State τ μ} (taken : s.writerStep = some s') :
    s'.buffers = s.buffers ∨
      ∃ i n, s.writer = .clear i n ∧ s'.writer = .setFlag i ∧
        s'.buffers = Function.update s.buffers i [] := by
  cases pc : s.writer <;> simp only [State.writerStep, pc] at taken
  case clear i n =>
    cases taken
    exact .inr ⟨i, n, rfl, rfl, rfl⟩
  case iterate =>
    split at taken
    · rcases Option.map_eq_some_iff.mp taken with ⟨message, _, rfl⟩
      exact .inl rfl
    · cases taken
      exact .inl rfl
  case lockQueue | testStop | pop | begin | lockBuffer =>
    split at taken <;> cases taken <;> exact .inl rfl
  case predicate | sleep | releaseQueue | setFlag | unlockBuffer | flushFile =>
    cases taken
    exact .inl rfl
  case waiting | returned => cases taken

theorem counted_of_writerStep {s s' : State τ μ}
    (counted : ∀ i n, s.writer.counted i = some n →
      s.writer.done i ≤ n ∧ n ≤ (s.buffers i).length)
    (taken : s.writerStep = some s') : ∀ i n, s'.writer.counted i = some n →
      s'.writer.done i ≤ n ∧ n ≤ (s'.buffers i).length := by
  intro i n now
  have before := counted i n
  cases pc : s.writer <;> simp only [State.writerStep, pc] at taken before
  case begin j =>
    split at taken <;> cases taken
    simp only [State.setWriter, Writer.counted] at now ⊢
    split at now <;> cases now
    rename_i same
    subst same
    simp [Writer.done]
  case iterate j k m =>
    simp only [Writer.counted, Writer.done] at before
    split at taken
    · rename_i more
      rcases Option.map_eq_some_iff.mp taken with ⟨message, _, rfl⟩
      simp only [State.setWriter, Writer.counted, State.print, Writer.done] at now ⊢
      split at now <;> cases now
      rename_i same
      rw [if_pos same] at before ⊢
      exact ⟨more, (before rfl).2⟩
    · cases taken
      simp only [State.setWriter, Writer.counted, Writer.done] at now ⊢
      by_cases same : i = j
      · rw [if_pos same] at now before ⊢
        cases now
        exact ⟨Nat.le_refl _, (before rfl).2⟩
      · rw [if_neg same] at now
        cases now
  case lockBuffer j m =>
    split at taken <;> cases taken
    exact before now
  case predicate =>
    cases taken
    simp only [State.setWriter] at now
    split at now <;> cases now
  case lockQueue | testStop | pop => split at taken <;> cases taken <;> cases now
  case sleep | releaseQueue | clear | setFlag | unlockBuffer | flushFile =>
    cases taken
    cases now
  case waiting | returned => cases taken

variable [DecidableEq τ]

namespace WriterInv

omit [DecidableEq τ] in
theorem start : WriterInv (start τ μ) where
  locks := .start
  inside := by intro i other; cases other
  beyond := by intro i _; rfl
  counted := by intro i n other; cases other

variable {s s' : State τ μ}

omit [DecidableEq τ] in
theorem frame (inv : WriterInv s) (locks : LockInv s')
    (writer : s'.writer = s.writer ∨ s'.writer = s.writer.notified)
    (beyond : ∀ i, bufferCount ≤ i → s'.buffers i = [])
    (longer : ∀ i, (s.buffers i).length ≤ (s'.buffers i).length) : WriterInv s' := by
  have entered : s'.writer.entered = s.writer.entered := by
    rcases writer with same | notified
    · rw [same]
    · rw [notified, Writer.entered_notified]
  have counted : ∀ i, s'.writer.counted i = s.writer.counted i := by
    intro i
    rcases writer with same | notified
    · rw [same]
    · rw [notified, Writer.counted_notified]
  have done : ∀ i, s'.writer.done i = s.writer.done i := by
    intro i
    rcases writer with same | notified
    · rw [same]
    · rw [notified, Writer.done_notified]
  refine ⟨locks, ?_, beyond, ?_⟩
  · rw [entered]
    exact inv.inside
  · intro i n now
    rw [counted] at now
    rw [done]
    have before := inv.counted i n now
    exact ⟨before.1, Nat.le_trans before.2 (longer i)⟩

theorem callerStep {t : τ} {call : Call μ} (inv : WriterInv s) (locks : LockInv s')
    (taken : s.callerStep t call = some s') : WriterInv s' := by
  have frame := callerFrame_of_callerStep taken
  apply inv.frame locks frame.writer
  · intro i outside
    rcases frame.buffers with same | ⟨j, small, pushed⟩
    · rw [same, inv.beyond i outside]
    · have different : i ≠ j := by omega
      rw [pushed, Function.update_of_ne different, inv.beyond i outside]
  · intro i
    rcases frame.buffers with same | ⟨j, small, pushed⟩
    · exact Nat.le_of_eq (by rw [same])
    · by_cases here : i = j
      · subst here
        rw [pushed, Function.update_self, List.length_append]
        exact Nat.le_add_right _ _
      · exact Nat.le_of_eq (by rw [pushed, Function.update_of_ne here])

theorem step {a : Action τ μ} (inv : WriterInv s) (taken : FileLogPolicy.step s a = some s') :
    WriterInv s' := by
  have locks := inv.locks.step taken
  cases step_takes taken with
  | call t op absent => exact { inv with locks }
  | caller t call mine taken => exact inv.callerStep locks taken
  | writer taken =>
      refine ⟨locks, entered_of_writerStep inv.inside taken, ?_,
        counted_of_writerStep inv.counted taken⟩
      intro i outside
      rcases buffers_of_writerStep taken with same | ⟨j, n, _, _, cleared⟩
      · rw [same, inv.beyond i outside]
      · rw [cleared, Function.update_apply, inv.beyond i outside, ite_self]
  | spurious waiting =>
      apply inv.frame locks (.inr _) inv.beyond fun _ => Nat.le_refl _
      rw [waiting]
      rfl

omit [DecidableEq τ] in
theorem done_le (inv : WriterInv s) (i : Nat) : s.writer.done i ≤ (s.buffers i).length := by
  cases counted : s.writer.counted i with
  | none =>
      rw [Writer.done_of_not_counted counted]
      exact Nat.zero_le _
  | some n =>
      have bounds := inv.counted i n counted
      exact Nat.le_trans bounds.1 bounds.2

theorem of_reachable {guard : State τ μ → Action τ μ → Prop}
    (reached : (machine τ μ).ReachUnder guard s) : WriterInv s :=
  reached.invariant .start fun _ _ _ inv _ taken => inv.step taken

end WriterInv

end CommonUtils.Logger.FileLogPolicy
