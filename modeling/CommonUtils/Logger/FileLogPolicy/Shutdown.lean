import CommonUtils.Logger.FileLogPolicy.Plan

namespace CommonUtils.Logger.FileLogPolicy

open Collect

variable {τ μ : Type*}

def Shutdown (d : τ) : Action τ μ → Prop
  | .caller t => t = d
  | .writer | .spurious => True
  | .call _ _ => False

namespace State

def idle (s : State τ μ) : Prop := ∀ t, s.callers t = none

def destroyed (s : State τ μ) (d : τ) : Prop :=
  ∃ call, s.callers d = some call ∧ call.op = .destroy ∧ call.pc = .closed

end State

def Joins (d : τ) (s : State τ μ) : Prop :=
  ∃ call, s.callers d = some call ∧ call.op = .destroy ∧
    (call.pc = .closed → s.writer = .returned ∧ s.disk = s.file)

theorem Joins.returned {d : τ} {s : State τ μ} (joins : Joins d s) (destroyed : s.destroyed d) :
    s.writer = .returned ∧ s.disk = s.file := by
  rcases destroyed with ⟨call, mine, _, closed⟩
  rcases joins with ⟨call', mine', _, returned⟩
  rw [mine] at mine'
  cases mine'
  exact returned closed

structure Quiet (s s' : State τ μ) : Prop where
  file : s'.file = s.file
  buffers : s'.buffers = s.buffers
  writer : s'.writer = s.writer ∨ s'.writer = s.writer.notified
  queue : s'.queueBuffers = s.queueBuffers ∨ ∃ i, s'.queueBuffers = s.queueBuffers ++ [i]

namespace Quiet

variable {s s' : State τ μ}

theorem returned (quiet : Quiet s s') : s'.writer = .returned ↔ s.writer = .returned := by
  rcases quiet.writer with same | notified
  · rw [same]
  · rw [notified]
    cases s.writer <;> simp [Writer.notified]

theorem awaiting (quiet : Quiet s s') :
    s'.awaiting = s.awaiting ∨ ∃ i, s'.awaiting = s.awaiting ++ [i] := by
  have atHand : s'.writer.atHand = s.writer.atHand := by
    rcases quiet.writer with same | notified
    · rw [same]
    · rw [notified]
      cases s.writer <;> rfl
  by_cases ended : s.writer = .returned
  · rw [State.awaiting, State.awaiting, if_pos ended, if_pos (quiet.returned.mpr ended)]
    exact .inl rfl
  · rw [State.awaiting, State.awaiting, if_neg ended, if_neg (mt quiet.returned.mp ended), atHand]
    rcases quiet.queue with same | ⟨i, longer⟩
    · exact .inl (by rw [same])
    · exact .inr ⟨i, by rw [longer, List.append_assoc]⟩

theorem mem_awaiting (quiet : Quiet s s') {i : Nat} (member : i ∈ s.awaiting) :
    i ∈ s'.awaiting := by
  rcases quiet.awaiting with same | ⟨j, longer⟩
  · rwa [same]
  · rw [longer]
    exact List.mem_append_left _ member

theorem ahead (quiet : Quiet s s') : s'.ahead = s.ahead := by
  rcases quiet.writer with same | notified
  · rw [State.ahead, State.ahead, same, quiet.buffers]
  · rw [State.ahead, State.ahead, notified, quiet.buffers]
    cases s.writer <;> rfl

theorem onItsWay (quiet : Quiet s s') (way : OnItsWay s) : OnItsWay s' := by
  apply way.frame quiet.buffers _ _ fun i member => quiet.mem_awaiting member
  · intro i
    rcases quiet.writer with same | notified
    · rw [same]
    · rw [notified, Writer.done_notified]
  · intro i n now
    rcases quiet.writer with same | notified
    · rwa [same] at now
    · rwa [notified, Writer.counted_notified] at now

theorem plan (quiet : Quiet s s') (way : OnItsWay s) (inv : WriterInv s) : s'.plan = s.plan := by
  rw [State.plan, State.plan, quiet.ahead]
  rcases quiet.awaiting with same | ⟨j, longer⟩
  · rw [same]
  · rw [longer, collect_append_singleton]
    split
    · rw [List.append_nil]
    · rename_i outside
      rw [way.ahead_eq, way.nothing inv outside, List.append_nil]

end Quiet

variable [DecidableEq τ]

abbrev During (d : τ) : State τ μ → State τ μ → Prop :=
  (machine τ μ).ReachFrom fun _ a => Shutdown d a

/-- However the destructor ends, all that the buffers held is in the file, in order, and the
file on the disk. -/
def Drains (d : τ) (s : State τ μ) : Prop :=
  ∀ s', During d (s.enter d .destroy) s' → s'.destroyed d →
    s'.file = s.file ++ s.due ∧ s.due.Perm s.held ∧ s'.disk = s'.file

theorem quiet_of_callerStep {s s' : State τ μ} {d : τ} {call : Call μ}
    (destroy : call.op = .destroy) (taken : s.callerStep d call = some s') :
    Joins d s' ∧ Quiet s s' := by
  have frame := callerFrame_of_callerStep taken
  rcases frame.callers with ⟨call', callers, stays, follows⟩
  rcases Option.ne_none_iff_exists'.mp (stays destroy) with ⟨next, rfl⟩
  have onward := follows next rfl
  refine ⟨⟨next, ?_, ?_, ?_⟩, frame.file, ?_, frame.writer, frame.queue⟩
  · rw [callers, Function.update_self]
  · rw [onward.op, destroy]
  · intro last
    rcases onward.joined last with ⟨join, returned⟩
    rw [State.callerStep, join] at taken
    simp only [returned, if_true, Option.some.injEq] at taken
    subst taken
    exact ⟨returned, rfl⟩
  · rcases frame.buffers with same | ⟨i, _, pushed⟩
    · exact same
    · rw [pushed, destroy, Op.messages, List.append_nil, Function.update_eq_self]

theorem shutdown_cases {d : τ} {s s' : State τ μ} {a : Action τ μ} (joins : Joins d s)
    (allowed : Shutdown d a) (taken : step s a = some s') :
    Joins d s' ∧ (s.writerStep = some s' ∨ Quiet s s') := by
  rcases joins with ⟨call, mine, destroy, closed⟩
  cases step_takes taken with
  | call t op absent => cases allowed
  | caller t own here taken =>
      cases allowed
      cases here.symm.trans mine
      rcases quiet_of_callerStep destroy taken with ⟨joins, quiet⟩
      exact ⟨joins, .inr quiet⟩
  | writer taken =>
      refine ⟨⟨call, ?_, destroy, ?_⟩, .inl taken⟩
      · rw [(writerFrame_of_writerStep taken).callers, mine]
      · intro last
        have none : s.writerStep = none := by rw [State.writerStep, (closed last).1]
        rw [none] at taken
        cases taken
  | spurious waiting =>
      have notified : s.notify = s.setWriter .lockQueue := by
        rw [State.notify, waiting]
        rfl
      rw [← notified]
      refine ⟨⟨call, mine, destroy, ?_⟩, .inr ⟨rfl, rfl, .inr rfl, .inl rfl⟩⟩
      intro last
      rw [(closed last).1] at waiting
      cases waiting

theorem joins_of_enter (d : τ) (s : State τ μ) : Joins d (s.enter d .destroy) := by
  refine ⟨_, Function.update_self _ _ _, rfl, ?_⟩
  intro other
  cases other

structure Draining (d : τ) (origin s : State τ μ) : Prop where
  inv : WriterInv s
  joins : Joins d s
  way : OnItsWay s
  ledger : s.file ++ s.plan = origin.file ++ origin.plan

theorem Draining.step {d : τ} {origin s s' : State τ μ} {a : Action τ μ}
    (draining : Draining d origin s) (allowed : Shutdown d a)
    (taken : FileLogPolicy.step s a = some s') : Draining d origin s' := by
  have inv := draining.inv.step taken
  rcases shutdown_cases draining.joins allowed taken with ⟨joins, written | quiet⟩
  · refine ⟨inv, joins, draining.way.writerStep written, ?_⟩
    rw [plan_of_writerStep written, draining.ledger]
  · refine ⟨inv, joins, quiet.onItsWay draining.way, ?_⟩
    rw [quiet.file, quiet.plan draining.way draining.inv, draining.ledger]

theorem step_enter {d : τ} {s : State τ μ} (idle : s.idle) :
    step s (.call d .destroy) = some (s.enter d .destroy) := by
  simp [step, idle d]

/-- What is on its way when the destructor begins is in the file when it returns. -/
theorem drained_of_onItsWay {d : τ} {s s' : State τ μ} (inv : WriterInv s) (idle : s.idle)
    (way : OnItsWay s) (reached : During d (s.enter d .destroy) s')
    (destroyed : s'.destroyed d) : s'.file = s.file ++ s.due ∧ s'.disk = s'.file := by
  have draining : Draining d s s' := by
    apply reached.invariant (I := Draining d s)
    · exact ⟨inv.step (step_enter idle), joins_of_enter d s, ⟨way.counted, way.queued⟩, rfl⟩
    · exact fun s a s' draining allowed taken => draining.step allowed taken
  rcases draining.joins.returned destroyed with ⟨returned, flushed⟩
  have nothing : s'.plan = [] := by
    rw [State.plan, State.awaiting, if_pos returned, collect_nil]
  refine ⟨?_, flushed⟩
  calc
    s'.file = s'.file ++ s'.plan := by rw [nothing, List.append_nil]
    _ = s.file ++ s.due := by rw [draining.ledger, way.due_eq inv]

end CommonUtils.Logger.FileLogPolicy
