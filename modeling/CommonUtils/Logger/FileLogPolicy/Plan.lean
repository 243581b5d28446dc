import CommonUtils.Library.Collect
import CommonUtils.Logger.FileLogPolicy.Writer

namespace CommonUtils.Logger.FileLogPolicy

open Collect

variable {τ μ : Type*}

def Writer.atHand : Writer → List Nat
  | .releaseQueue i | .begin i | .iterate i _ _ => [i]
  | _ => []

namespace State

variable (s : State τ μ)

def awaiting : List Nat :=
  if s.writer = .returned then [] else s.writer.atHand ++ s.queueBuffers

def ahead : Nat → List μ :=
  match s.writer with
  | .iterate i k n => Function.update s.buffers i (((s.buffers i).take n).drop k)
  | .lockBuffer i _ | .clear i _ => Function.update s.buffers i []
  | _ => s.buffers

def plan : List μ := collect s.ahead s.awaiting

/-- The unwritten messages of the buffers at the writer, queued and current, in this
order, each once. -/
def due : List μ := collect s.unwritten (s.awaiting ++ [s.currentBuffer])

end State

/-- Every unwritten message is in a buffer that the writer is to write, and the writer
counted all messages of the buffer at hand. -/
structure OnItsWay (s : State τ μ) : Prop where
  counted : ∀ i n, s.writer.counted i = some n → (s.buffers i).length = n
  queued : ∀ i < bufferCount, s.unwritten i ≠ [] → i ∈ s.awaiting

variable {s s' : State τ μ}

theorem awaiting_of_writerStep (taken : s.writerStep = some s') : s'.awaiting = s.awaiting ∨
    ∃ i k n, s.writer = .iterate i k n ∧ s.awaiting = i :: s'.awaiting := by
  cases pc : s.writer <;> simp only [State.writerStep, pc] at taken
  case iterate i k n =>
    split at taken
    · rcases Option.map_eq_some_iff.mp taken with ⟨message, _, rfl⟩
      left
      simp [State.awaiting, State.setWriter, State.print, Writer.atHand, pc]
    · cases taken
      right
      exact ⟨i, k, n, rfl, by simp [State.awaiting, State.setWriter, Writer.atHand, pc]⟩
  case lockQueue | begin | lockBuffer =>
    split at taken <;> cases taken
    left
    simp [State.awaiting, State.setWriter, State.setMutexQueue, State.setMutexBuffer,
      Writer.atHand, pc]
  case testStop =>
    split at taken <;> cases taken
    · rename_i both
      left
      simp [State.awaiting, State.setWriter, Writer.atHand, both.2, pc]
    · left
      simp [State.awaiting, State.setWriter, Writer.atHand, pc]
  case pop =>
    split at taken <;> cases taken
    rename_i i rest queue
    left
    simp [State.awaiting, State.setWriter, Writer.atHand, queue, pc]
  case predicate =>
    cases taken
    left
    split <;> simp [State.awaiting, State.setWriter, Writer.atHand, pc]
  case waiting | returned => cases taken
  all_goals
    cases taken
    left
    simp [State.awaiting, State.setWriter, State.setMutexQueue, State.clear, State.setFlag,
      State.setMutexBuffer, State.flushFile, Writer.atHand, pc]

theorem plan_of_iterate {i k n : Nat} (pc : s.writer = .iterate i k n) :
    s.plan = ((s.buffers i).take n).drop k ++
      collect (Function.update s.buffers i []) s.queueBuffers := by
  simp [State.plan, State.awaiting, State.ahead, Writer.atHand, pc, collect_cons]

theorem plan_of_writerStep (taken : s.writerStep = some s') :
    s'.file ++ s'.plan = s.file ++ s.plan := by
  cases pc : s.writer <;> simp only [State.writerStep, pc] at taken
  case lockQueue =>
    split at taken <;> cases taken
    simp [State.plan, State.awaiting, State.ahead, State.setWriter, State.setMutexQueue,
      Writer.atHand, pc]
  case predicate =>
    cases taken
    split <;> simp [State.plan, State.awaiting, State.ahead, State.setWriter, Writer.atHand, pc]
  case sleep | releaseQueue | setFlag | unlockBuffer | flushFile =>
    cases taken
    simp [State.plan, State.awaiting, State.ahead, State.setWriter, State.setMutexQueue,
      State.setFlag, State.setMutexBuffer, State.flushFile, Writer.atHand, pc]
  case testStop =>
    split at taken <;> cases taken
    · rename_i both
      simp [State.plan, State.awaiting, State.ahead, State.setWriter, State.setMutexQueue,
        Writer.atHand, pc, both.2]
    · simp [State.plan, State.awaiting, State.ahead, State.setWriter, Writer.atHand, pc]
  case pop =>
    split at taken <;> cases taken
    rename_i i rest queue
    simp [State.plan, State.awaiting, State.ahead, State.setWriter, Writer.atHand, pc, queue]
  case begin i =>
    split at taken <;> cases taken
    simp [State.plan, State.awaiting, State.ahead, State.setWriter, Writer.atHand, pc]
  case iterate i k n =>
    split at taken
    · rcases Option.map_eq_some_iff.mp taken with ⟨message, found, rfl⟩
      rename_i more
      have next : ((s.buffers i).take n).drop k =
          message :: ((s.buffers i).take n).drop (k + 1) := by
        have found' : ((s.buffers i).take n)[k]? = some message := by
          rw [List.getElem?_take_of_lt more, found]
        rcases List.getElem?_eq_some_iff.mp found' with ⟨inside, same⟩
        rw [List.drop_eq_getElem_cons inside, same]
      calc
        ((s.print message).setWriter (.iterate i (k + 1) n)).file ++
            ((s.print message).setWriter (.iterate i (k + 1) n)).plan =
          s.file ++ [message] ++ (((s.buffers i).take n).drop (k + 1) ++
            collect (Function.update s.buffers i []) s.queueBuffers) := by
          rw [plan_of_iterate (i := i) (k := k + 1) (n := n) rfl]
          rfl
        _ = s.file ++ s.plan := by
          rw [plan_of_iterate pc, next]
          simp only [List.append_assoc, List.cons_append, List.nil_append]
    · cases taken
      rename_i ended
      have nothing : ((s.buffers i).take n).drop k = [] := by
        rw [List.drop_eq_nil_iff, List.length_take]
        omega
      rw [plan_of_iterate pc, nothing]
      simp [State.plan, State.awaiting, State.ahead, State.setWriter, Writer.atHand]
  case lockBuffer i n =>
    split at taken <;> cases taken
    simp [State.plan, State.awaiting, State.ahead, State.setWriter, State.setMutexBuffer,
      Writer.atHand, pc]
  case clear i n =>
    cases taken
    simp [State.plan, State.awaiting, State.ahead, State.setWriter, State.clear, Writer.atHand,
      pc]
  case waiting | returned => cases taken

namespace OnItsWay

theorem ahead_eq (way : OnItsWay s) : s.ahead = s.unwritten := by
  have counted := way.counted
  funext i
  cases pc : s.writer <;> rw [pc] at counted <;>
    simp only [State.ahead, State.unwritten, Writer.done, pc, List.drop_zero]
  case iterate j k n =>
    by_cases same : i = j
    · subst same
      have all := counted i n (if_pos rfl)
      rw [Function.update_self, if_pos rfl, ← all, List.take_length]
    · rw [Function.update_of_ne same, if_neg same, List.drop_zero]
  case lockBuffer j n | clear j n =>
    by_cases same : i = j
    · subst same
      have all := counted i n (if_pos rfl)
      rw [Function.update_self, if_pos rfl, ← all, List.drop_length]
    · rw [Function.update_of_ne same, if_neg same, List.drop_zero]

theorem nothing (way : OnItsWay s) (inv : WriterInv s) {i : Nat} (outside : i ∉ s.awaiting) :
    s.unwritten i = [] := by
  by_cases small : i < bufferCount
  · by_contra some
    exact outside (way.queued i small some)
  · rw [State.unwritten, inv.beyond i (by omega), List.drop_nil]

theorem due_eq (way : OnItsWay s) (inv : WriterInv s) : s.due = s.plan := by
  rw [State.due, collect_append_singleton, State.plan, way.ahead_eq]
  split
  · rw [List.append_nil]
  · rename_i outside
    rw [way.nothing inv outside, List.append_nil]

theorem due_perm (way : OnItsWay s) (inv : WriterInv s)
    (inside : ∀ i ∈ s.awaiting, i < bufferCount) : s.due.Perm s.held := by
  have all : ∀ i, (if i ∈ s.awaiting then s.unwritten i else []) = s.unwritten i := by
    intro i
    split
    · rfl
    · rename_i outside
      exact (way.nothing inv outside).symm
  have perm := collect_perm (List.nodup_range (n := bufferCount)) s.unwritten
    fun i member => List.mem_range.mpr (inside i member)
  simp only [all] at perm
  rw [way.due_eq inv, State.plan, way.ahead_eq]
  exact perm

theorem frame (way : OnItsWay s) (buffers : s'.buffers = s.buffers)
    (done : ∀ i, s'.writer.done i = s.writer.done i)
    (counted : ∀ i n, s'.writer.counted i = some n → s.writer.counted i = some n)
    (awaiting : ∀ i ∈ s.awaiting, i ∈ s'.awaiting) : OnItsWay s' := by
  constructor
  · intro i n now
    rw [buffers]
    exact way.counted i n (counted i n now)
  · intro i small some
    rw [State.unwritten, buffers, done] at some
    exact awaiting i (way.queued i small some)

theorem quiet (way : OnItsWay s) (buffers : s'.buffers = s.buffers)
    (before : ∀ i, s.writer.counted i = none) (after : ∀ i, s'.writer.counted i = none)
    (awaiting : ∀ i ∈ s.awaiting, i ∈ s'.awaiting) : OnItsWay s' := by
  apply way.frame buffers _ _ awaiting
  · intro i
    rw [Writer.done_of_not_counted (before i), Writer.done_of_not_counted (after i)]
  · intro i n other
    rw [after] at other
    cases other

theorem writerStep (way : OnItsWay s) (taken : s.writerStep = some s') :
    OnItsWay s' := by
  have kept : (∀ i k n, s.writer ≠ .iterate i k n) → ∀ i ∈ s.awaiting, i ∈ s'.awaiting := by
    intro elsewhere i member
    rcases awaiting_of_writerStep taken with same | ⟨j, k, n, pc, _⟩
    · rwa [same]
    · exact absurd pc (elsewhere j k n)
  cases pc : s.writer <;> simp only [State.writerStep, pc] at taken
  case predicate =>
    cases taken
    refine way.quiet rfl (by rw [pc]; exact fun _ => rfl) ?_ (kept (by simp [pc]))
    intro i
    simp only [State.setWriter]
    split <;> rfl
  case lockQueue | testStop | pop =>
    split at taken <;> cases taken <;>
      exact way.quiet rfl (by rw [pc]; exact fun _ => rfl) (fun _ => rfl) (kept (by simp [pc]))
  case sleep | releaseQueue | setFlag | unlockBuffer | flushFile =>
    cases taken
    exact way.quiet rfl (by rw [pc]; exact fun _ => rfl) (fun _ => rfl) (kept (by simp [pc]))
  case begin i =>
    split at taken <;> cases taken
    constructor
    · intro j n now
      simp only [State.setWriter, Writer.counted, Option.ite_none_right_eq_some,
        Option.some.injEq] at now
      rcases now with ⟨rfl, rfl⟩
      rfl
    · intro j small some
      have some' : s.unwritten j ≠ [] := by
        simpa [State.unwritten, State.setWriter, Writer.done, pc] using some
      exact kept (by simp [pc]) j (way.queued j small some')
  case iterate i k n =>
    split at taken
    · rename_i more
      rcases Option.map_eq_some_iff.mp taken with ⟨message, found, rfl⟩
      constructor
      · intro j m now
        apply way.counted j m
        rw [pc]
        exact now
      · intro j small some
        have some' : s.unwritten j ≠ [] := by
          intro nothing
          apply some
          simp only [State.unwritten, pc, Writer.done, State.setWriter, State.print,
            List.drop_eq_nil_iff] at nothing ⊢
          by_cases same : j = i
          · rw [if_pos same] at nothing ⊢
            omega
          · rw [if_neg same] at nothing ⊢
            exact nothing
        simpa [State.awaiting, Writer.atHand, State.setWriter, State.print, pc] using
          way.queued j small some'
    · rename_i ended
      cases taken
      have all := way.counted i n (by rw [pc]; exact if_pos rfl)
      constructor
      · intro j m now
        apply way.counted j m
        rw [pc]
        exact now
      · intro j small some
        have different : j ≠ i := by
          intro same
          subst same
          apply some
          simp only [State.unwritten, State.setWriter, Writer.done, if_pos, List.drop_eq_nil_iff]
          exact Nat.le_of_eq all
        have some' : s.unwritten j ≠ [] := by
          simpa [State.unwritten, State.setWriter, Writer.done, pc, different] using some
        simpa [State.awaiting, Writer.atHand, State.setWriter, pc, different] using
          way.queued j small some'
  case lockBuffer i n =>
    split at taken <;> cases taken
    refine way.frame rfl ?_ ?_ (kept (by simp [pc]))
    · rw [pc]
      exact fun _ => rfl
    · rw [pc]
      exact fun _ _ now => now
  case clear i n =>
    cases taken
    constructor
    · intro j m other
      cases other
    · intro j small some
      have different : j ≠ i := by
        intro same
        subst same
        apply some
        simp [State.unwritten, State.setWriter, State.clear]
      have some' : s.unwritten j ≠ [] := by
        simpa [State.unwritten, State.setWriter, State.clear, Writer.done, pc, different] using some
      exact kept (by simp [pc]) j (way.queued j small some')
  case waiting | returned => cases taken

end OnItsWay

theorem length_ahead_le (i : Nat) : (s.ahead i).length ≤ (s.unwritten i).length := by
  cases pc : s.writer <;>
    simp only [State.ahead, State.unwritten, Writer.done, pc, List.drop_zero, Nat.le_refl]
  case iterate j k n =>
    by_cases same : i = j
    · subst same
      rw [Function.update_self, if_pos rfl, List.length_drop, List.length_drop, List.length_take]
      omega
    · exact Nat.le_of_eq (by rw [Function.update_of_ne same, if_neg same, List.drop_zero])
  case lockBuffer j n | clear j n =>
    by_cases same : i = j
    · subst same
      rw [Function.update_self]
      exact Nat.zero_le _
    · exact Nat.le_of_eq (by rw [Function.update_of_ne same, if_neg same, List.drop_zero])

theorem onItsWay_of_plan (inv : WriterInv s) (inside : ∀ i ∈ s.awaiting, i < bufferCount)
    (complete : s.plan.Perm s.held) : OnItsWay s := by
  have perm := collect_perm (List.nodup_range (n := bufferCount)) s.ahead
    fun i member => List.mem_range.mpr (inside i member)
  have shorter : ∀ i ∈ List.range bufferCount,
      (if i ∈ s.awaiting then s.ahead i else []).length ≤ (s.unwritten i).length := by
    intro i _
    split
    · exact length_ahead_le i
    · exact Nat.zero_le _
  have lengths := length_eq_of_flatMap shorter (perm.symm.trans complete).length_eq
  constructor
  · intro i n counted
    have bounds := inv.counted i n counted
    have small := inv.inside i (Writer.entered_of_counted counted)
    have length := lengths i (List.mem_range.mpr small)
    cases pc : s.writer <;> rw [pc] at counted bounds
    case iterate j k m =>
      simp only [Writer.counted, Option.ite_none_right_eq_some, Option.some.injEq] at counted
      rcases counted with ⟨rfl, rfl⟩
      have member : i ∈ s.awaiting := by simp [State.awaiting, Writer.atHand, pc]
      simp only [if_pos member, State.ahead, State.unwritten, Writer.done, pc, if_pos,
        Function.update_self, List.length_drop, List.length_take] at length bounds
      omega
    case lockBuffer j m | clear j m =>
      simp only [Writer.counted, Option.ite_none_right_eq_some, Option.some.injEq] at counted
      rcases counted with ⟨rfl, rfl⟩
      simp only [State.ahead, State.unwritten, Writer.done, pc, if_pos, Function.update_self,
        ite_self, List.length_drop, List.length_nil] at length bounds
      omega
    all_goals cases counted
  · intro i small some
    have length := lengths i (List.mem_range.mpr small)
    by_contra outside
    rw [if_neg outside] at length
    exact some (List.length_eq_zero_iff.mp length.symm)

end CommonUtils.Logger.FileLogPolicy
