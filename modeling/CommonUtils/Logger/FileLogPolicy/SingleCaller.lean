import CommonUtils.Logger.FileLogPolicy.Intact
import CommonUtils.Logger.FileLogPolicy.Writer

namespace CommonUtils.Logger.FileLogPolicy

variable {τ μ : Type*}

/-- Nobody but `w` calls anything, and `w` calls `Write` and `Flush`. -/
def SingleCaller (w : τ) : Action τ μ → Prop
  | .call t (.write _) | .call t .flush => t = w
  | .call _ .destroy => False
  | .caller _ | .writer | .spurious => True

/-- The ring between two calls. Busy are the buffer that the writer has popped, until its
flag is set back, and the queued ones. -/
structure RingInOrder (s : State τ μ) : Prop where
  distinct : s.busy.Nodup
  inside : ∀ i ∈ s.busy, i < bufferCount
  flags : ∀ i < bufferCount, s.bufferIsEmpty i = false ↔ i ∈ s.busy
  current : s.currentBuffer < bufferCount ∧ s.currentBuffer ∉ s.busy
  vacant : ∀ i < bufferCount, s.bufferIsEmpty i = true → i ≠ s.currentBuffer → s.buffers i = []
  segments : s.busy.flatMap s.buffers ++ s.buffers s.currentBuffer <:+ s.written

theorem SingleCaller.oneWriter {w : τ} {a : Action τ μ} (allowed : SingleCaller w a) :
    OneWriter w a := by
  cases a with
  | call t op =>
      cases op with
      | write m => exact allowed
      | flush => trivial
      | destroy => exact allowed
  | caller | writer | spurious => trivial

def Printed (s : State τ μ) : Prop := ∀ i, (s.buffers i).take (s.writer.done i) <:+ s.file

namespace Printed

variable {s s' : State τ μ}

theorem of_nothing (nothing : ∀ i, s.writer.done i = 0) : Printed s := by
  intro i
  rw [nothing, List.take_zero]
  exact List.nil_suffix

theorem print (printed : Printed s) {i k n : Nat} {m : μ} (writer : s.writer = .iterate i k n)
    (found : (s.buffers i)[k]? = some m) :
    Printed ((s.print m).setWriter (.iterate i (k + 1) n)) := by
  intro j
  simp only [State.setWriter, State.print, Writer.done]
  by_cases same : j = i
  · subst same
    rcases printed j with ⟨earlier, file⟩
    rw [writer, Writer.done, if_pos rfl] at file
    refine ⟨earlier, ?_⟩
    rw [if_pos rfl, List.take_add_one, found, Option.toList_some, ← List.append_assoc, file]
  · rw [if_neg same, List.take_zero]
    exact List.nil_suffix

theorem writerStep (printed : Printed s) (inv : WriterInv s) (taken : s.writerStep = some s') :
    Printed s' := by
  cases pc : s.writer <;> simp only [State.writerStep, pc] at taken
  case iterate i k n =>
    split at taken
    · rcases Option.map_eq_some_iff.mp taken with ⟨m, found, rfl⟩
      exact printed.print pc found
    · rename_i none
      cases taken
      have bounds := inv.counted i n (by rw [pc]; exact if_pos rfl)
      rw [pc, Writer.done, if_pos rfl] at bounds
      have ended : k = n := by omega
      intro j
      have before := printed j
      rwa [pc, ended] at before
  case lockBuffer i n =>
    split at taken <;> cases taken
    intro j
    have before := printed j
    rwa [pc] at before
  case begin i =>
    split at taken <;> cases taken
    exact of_nothing fun j => ite_self 0
  case predicate =>
    cases taken
    apply of_nothing
    intro j
    simp only [State.setWriter]
    split <;> rfl
  case lockQueue | testStop | pop =>
    split at taken <;> cases taken <;> exact of_nothing fun j => rfl
  case sleep | releaseQueue | clear | setFlag | unlockBuffer | flushFile =>
    cases taken
    exact of_nothing fun j => rfl
  case waiting | returned => cases taken

variable [DecidableEq τ]

theorem callerStep {t : τ} {call : Call μ} (printed : Printed s) (inv : WriterInv s)
    (taken : s.callerStep t call = some s') : Printed s' := by
  have frame := callerFrame_of_callerStep taken
  intro i
  have done : s'.writer.done i = s.writer.done i := by
    rcases frame.writer with same | notified
    · rw [same]
    · rw [notified, Writer.done_notified]
  have kept : (s'.buffers i).take (s.writer.done i) = (s.buffers i).take (s.writer.done i) := by
    rcases frame.buffers with same | ⟨j, small, pushed⟩
    · rw [same]
    · by_cases here : i = j
      · subst here
        rw [pushed, Function.update_self, List.take_append_of_le_length (inv.done_le i)]
      · rw [pushed, Function.update_of_ne here]
  rw [done, kept, frame.file]
  exact printed i

theorem step {a : Action τ μ} (printed : Printed s) (inv : WriterInv s)
    (taken : FileLogPolicy.step s a = some s') : Printed s' := by
  cases step_takes taken with
  | call t op absent => exact printed
  | caller t call mine taken => exact printed.callerStep inv taken
  | writer taken => exact printed.writerStep inv taken
  | spurious waiting => exact of_nothing fun i => rfl

theorem of_reachable {guard : State τ μ → Action τ μ → Prop}
    (reached : (machine τ μ).ReachUnder guard s) : Printed s := by
  have both : WriterInv s ∧ Printed s := by
    apply reached.invariant (I := fun s => WriterInv s ∧ Printed s)
    · exact ⟨.start, of_nothing fun i => rfl⟩
    · exact fun s a s' both _ taken => ⟨both.1.step taken, both.2.step both.1 taken⟩
  exact both.2

end Printed

/-- The busy buffers and the current one hold the last messages that were pushed, those of
the first one that are in the file already included. -/
theorem RingInv.segments {s : State τ μ} (ring : RingInv .ready s) (printed : Printed s) :
    s.busy.flatMap s.buffers ++ s.buffers s.currentBuffer <:+ s.pushed := by
  have front : s.busy.flatMap s.buffers <:+ s.file ++ s.busy.flatMap s.unwritten := by
    cases popped : s.writer.popped with
    | none =>
        have same : s.busy.flatMap s.unwritten = s.busy.flatMap s.buffers := by
          apply List.flatMap_congr
          intro i _
          exact unwritten_of_not_popped (by simp [popped])
        rw [same]
        exact List.suffix_append _ _
    | some i =>
        have nodup := ring.nodup
        rw [busy_of_popped popped, List.nodup_cons] at nodup
        have queue : s.queueBuffers.flatMap s.unwritten = s.queueBuffers.flatMap s.buffers := by
          apply List.flatMap_congr
          intro j member
          apply unwritten_of_not_popped
          rw [popped]
          intro same
          cases same
          exact nodup.1 member
        rcases printed i with ⟨earlier, file⟩
        refine ⟨earlier, ?_⟩
        rw [busy_of_popped popped, List.flatMap_cons, List.flatMap_cons, queue]
        calc
          earlier ++ (s.buffers i ++ s.queueBuffers.flatMap s.buffers) =
              earlier ++ ((s.buffers i).take (s.writer.done i) ++ s.unwritten i ++
                s.queueBuffers.flatMap s.buffers) := by
            rw [State.unwritten, List.take_append_drop]
          _ = s.file ++ (s.unwritten i ++ s.queueBuffers.flatMap s.buffers) := by
            rw [← file]
            simp only [List.append_assoc]
  rcases front with ⟨earlier, same⟩
  refine ⟨earlier, ?_⟩
  rw [ring.ledger, pending_of_not_busy (ring.ready rfl), ← List.append_assoc, same,
    List.append_assoc]

def Alone (w : τ) (s : State τ μ) : Prop := ∀ t call, s.callers t = some call → t = w

namespace Alone

variable {w : τ} {s s' : State τ μ}

theorem start (w : τ) : Alone w (start τ μ) := by
  intro t call here
  cases here

theorem exclusive (alone : Alone w s) (a : Action τ μ) : Exclusive s a := by
  cases a with
  | caller t =>
      constructor
      · intro enters u
        rcases Option.any_eq_true _ _ |>.mp enters with ⟨call, mine, place⟩
        cases here : s.callers u with
        | none =>
            rw [State.works, here]
            rfl
        | some c =>
            have same : u = t := (alone u c here).trans (alone t call mine).symm
            rw [same, mine] at here
            cases here
            have pc : call.pc = .lockBuffer := eq_of_beq place
            rw [same, State.works, mine, Option.any_some, pc]
            rfl
      · intro marks u touches
        rcases Option.any_eq_true _ _ |>.mp marks with ⟨call, mine, _⟩
        rcases Option.any_eq_true _ _ |>.mp touches with ⟨c, here, _⟩
        exact (alone u c here).trans (alone t call mine).symm
  | call | writer | spurious => trivial

theorem idle (alone : Alone w s) (between : s.callers w = none) (t : τ) : s.callers t = none := by
  by_contra busy
  rcases Option.ne_none_iff_exists'.mp busy with ⟨call, here⟩
  rw [alone t call here, between] at here
  cases here

variable [DecidableEq τ]

theorem update (alone : Alone w s) {t : τ} {call : Option (Call μ)} (mine : t = w)
    (callers : s'.callers = Function.update s.callers t call) : Alone w s' := by
  intro u c here
  by_cases same : u = t
  · exact same.trans mine
  · rw [callers, Function.update_of_ne same] at here
    exact alone u c here

theorem step {a : Action τ μ} (alone : Alone w s) (allowed : SingleCaller w a)
    (taken : FileLogPolicy.step s a = some s') : Alone w s' := by
  cases step_takes taken with
  | call t op absent =>
      have mine : t = w := by
        cases op with
        | write m | flush => exact allowed
        | destroy => exact allowed.elim
      exact alone.update mine rfl
  | caller t call mine taken =>
      rcases (callerFrame_of_callerStep taken).callers with ⟨call', callers, _⟩
      exact alone.update (alone t call mine) callers
  | writer taken =>
      rw [Alone, (writerFrame_of_writerStep taken).callers]
      exact alone
  | spurious waiting => exact alone

theorem of_reachable (reached : (machine τ μ).ReachUnder (fun _ a => SingleCaller w a) s) :
    Alone w s :=
  reached.invariant (.start w) fun _ _ _ alone allowed taken => alone.step allowed taken

end Alone

variable [DecidableEq τ]

theorem exclusive_of_single {w : τ} {s : State τ μ}
    (reached : (machine τ μ).ReachUnder (fun _ a => SingleCaller w a) s) :
    (machine τ μ).ReachUnder (fun s a => Exclusive s a ∧ OneWriter w a) s := by
  apply reached.under (I := Alone w) (.start w)
  · exact fun s a s' alone allowed taken => alone.step allowed taken
  · exact fun s a alone allowed => ⟨alone.exclusive a, allowed.oneWriter⟩

theorem ring_between_calls (w : τ) (s : State τ μ)
    (reached : (machine τ μ).ReachUnder (fun _ a => SingleCaller w a) s)
    (between : s.callers w = none) : RingInOrder s := by
  have exclusive := exclusive_of_single reached
  have inOrder : InOrder w s := .of_reachable (fun s a both => both.2.writesFrom) exclusive
  have orderly : OrderlyInv s := .of_reachable (fun s a both => both.1) exclusive
  have ring : RingInv .ready s := orderly.ready_of_idle ((Alone.of_reachable reached).idle between)
  have flags : ∀ i < bufferCount, s.bufferIsEmpty i = false ↔ i ∈ s.busy :=
    fun i small => ring.flag_iff (by decide) small
  refine ⟨ring.nodup, ring.inside, flags, ⟨ring.current, ring.ready rfl⟩, ?_, ?_⟩
  · intro i small vacant other
    have outside : i ∉ s.busy := by
      rw [← flags i small, vacant]
      exact Bool.noConfusion
    exact ring.empty i outside fun ready => other ready.2
  · rw [inOrder.written, InOrder.announced_none between, List.append_nil]
    exact ring.segments (.of_reachable reached)

instance (w : τ) : (a : Action τ μ) → Decidable (SingleCaller w a)
  | .call t (.write _) | .call t .flush => inferInstanceAs (Decidable (t = w))
  | .call _ .destroy => isFalse id
  | .caller _ | .writer | .spurious => isTrue trivial

def singleRun : List (Action Unit Nat) :=
  [.writer, .writer, .writer] ++ writeSteps () 7 ++ flushSteps Unit Nat () 0 ++
    List.replicate 7 .writer ++ writeSteps () 8

theorem ring_between_calls_twice :
    ∃ s : State Unit Nat, s.file = [7] ∧ s.busy.flatMap s.buffers = [7] ∧
      s.buffers s.currentBuffer = [8] ∧ RingInOrder s := by
  have held : ((machine Unit Nat).runFrom (start Unit Nat) singleRun).any (fun s =>
      decide (s.callers () = none ∧ s.file = [7] ∧ s.busy.flatMap s.buffers = [7] ∧
        s.buffers s.currentBuffer = [8])) = true := by
    decide +kernel
  rcases Option.any_eq_true _ _ |>.mp held with ⟨s, ran, facts⟩
  rcases of_decide_eq_true facts with ⟨between, file, busy, current⟩
  have allowed : ∀ a ∈ singleRun, SingleCaller () a := by
    decide +kernel
  have reached := Machine.reachFrom_of_run .origin
    (Machine.allSteps_of_forall _ fun a member _ => allowed a member) ran
  exact ⟨s, file, busy, current, ring_between_calls () s reached between⟩

end CommonUtils.Logger.FileLogPolicy
