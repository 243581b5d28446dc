import CommonUtils.Library.Collect
import CommonUtils.Logger.FileLogPolicy.Exclusive
import CommonUtils.Logger.FileLogPolicy.Rounds
import Mathlib.Data.Fintype.Basic
import Mathlib.Data.List.Perm.Subperm

namespace CommonUtils.Logger.FileLogPolicy

variable {τ μ : Type*}

/-- Only `w` calls `Write`, and nobody destroys the policy. -/
def OneWriter (w : τ) : Action τ μ → Prop
  | .call t (.write _) => t = w
  | .call _ .destroy => False
  | _ => True

def WritesFrom (w : τ) : Action τ μ → Prop
  | .call t (.write _) => t = w
  | _ => True

theorem OneWriter.writesFrom {w : τ} {a : Action τ μ} (allowed : OneWriter w a) :
    WritesFrom w a := by
  cases a with
  | call t op =>
      cases op with
      | write m => exact allowed
      | flush | destroy => trivial
  | caller | writer | spurious => trivial

/-- Nothing is lost, duplicated or reordered: the file holds the first messages in
`Write` order, a message whose `Write` has returned is in the file or in a buffer
from which it is still to be written, and a buffer about to be cleared holds no
message that is not written. -/
structure Intact (s : State τ μ) : Prop where
  ordered : s.file <+: s.written
  kept : s.returned.Subperm (s.file ++ s.held)
  cleared : ∀ i n, s.writer = .clear i n → s.unwritten i = []

def Pc.beforePush : Pc → Bool
  | .setStop | .readMutex | .lockBuffer | .select | .pushBack _ => true
  | _ => false

namespace State

def announced (s : State τ μ) (w : τ) : List μ :=
  match s.callers w with
  | some call => if call.pc.beforePush then call.op.messages else []
  | none => []

def settling (s : State τ μ) (w : τ) : List μ :=
  match s.callers w with
  | some call => if call.pc.beforePush then [] else call.op.messages
  | none => []

end State

structure InOrder (w : τ) (s : State τ μ) : Prop where
  written : s.written = s.pushed ++ s.announced w
  pushed : s.pushed = s.returned ++ s.settling w
  others : ∀ t call, t ≠ w → s.callers t = some call → call.op.messages = []

variable [DecidableEq τ]

inductive MessageEffect (s s' : State τ μ) (t : τ) (call : Call μ) : Prop
  | moves (c : Call μ) (callers : s'.callers = Function.update s.callers t (some c))
      (op : c.op = call.op)
      (stage : call.op.messages ≠ [] → c.pc.beforePush = call.pc.beforePush)
      (pushed : s'.pushed = s.pushed) (returned : s'.returned = s.returned)
  | pushes (c : Call μ) (callers : s'.callers = Function.update s.callers t (some c))
      (op : c.op = call.op) (before : call.pc.beforePush = true) (after : c.pc.beforePush = false)
      (pushed : s'.pushed = s.pushed ++ call.op.messages) (returned : s'.returned = s.returned)
  | returns (callers : s'.callers = Function.update s.callers t none)
      (after : call.pc.beforePush = false) (pushed : s'.pushed = s.pushed)
      (returned : s'.returned = s.returned ++ call.op.messages)

theorem messageEffect_of_callerStep {s s' : State τ μ} {t : τ} {call : Call μ}
    (taken : s.callerStep t call = some s') : MessageEffect s s' t call := by
  rcases call with ⟨op, mutex, pc⟩
  cases pc <;> simp only [State.callerStep] at taken
  case setStop | readMutex | selectSize | readIndex | enqueue | readFlag | releaseQueue | nextRead
      | nextAdd | nextStore | unlockQueue | notifyAll =>
    cases taken
    exact .moves _ rfl rfl (fun _ => rfl) rfl rfl
  case lockBuffer | lockQueue | join =>
    split at taken <;> cases taken
    exact .moves _ rfl rfl (fun _ => rfl) rfl rfl
  case pushBack i =>
    split at taken <;> cases taken
    exact .pushes _ rfl rfl rfl rfl rfl rfl
  case select =>
    cases taken
    refine .moves _ rfl rfl ?_ rfl rfl
    cases op with
    | write m => exact fun _ => rfl
    | flush | destroy => exact fun some => absurd rfl some
  case notifyOne =>
    cases taken
    refine .moves _ rfl rfl (fun _ => ?_) rfl rfl
    cases op <;> rfl
  case test | nextTest =>
    split at taken <;> cases taken
    refine .moves _ rfl rfl (fun _ => ?_) rfl rfl
    split <;> rfl
  case clearFlag =>
    split at taken <;> cases taken
    refine .moves _ rfl rfl (fun _ => ?_) rfl rfl
    cases op <;> rfl
  case nextBound =>
    cases taken
    refine .moves _ rfl rfl (fun _ => ?_) rfl rfl
    split <;> rfl
  case unlockBuffer =>
    cases taken
    cases op with
    | write m => exact .returns rfl rfl rfl rfl
    | flush => exact .returns rfl rfl rfl (List.append_nil _).symm
    | destroy => exact .moves _ rfl rfl (fun some => absurd rfl some) rfl rfl
  case closed => cases taken

namespace InOrder

omit [DecidableEq τ] in
theorem start (w : τ) : InOrder w (start τ μ) :=
  ⟨rfl, rfl, by intro t call _ here; cases here⟩

variable {w t : τ} {s s' : State τ μ} {call : Call μ}

omit [DecidableEq τ] in
theorem announced_congr (same : s'.callers w = s.callers w) : s'.announced w = s.announced w := by
  rw [State.announced, same]
  rfl

omit [DecidableEq τ] in
theorem settling_congr (same : s'.callers w = s.callers w) : s'.settling w = s.settling w := by
  rw [State.settling, same]
  rfl

omit [DecidableEq τ] in
theorem frame (inv : InOrder w s) (callers : s'.callers = s.callers)
    (written : s'.written = s.written) (pushed : s'.pushed = s.pushed)
    (returned : s'.returned = s.returned) : InOrder w s' := by
  have same : s'.callers w = s.callers w := by rw [callers]
  refine ⟨?_, ?_, ?_⟩
  · rw [written, pushed, announced_congr same, inv.written]
  · rw [pushed, returned, settling_congr same, inv.pushed]
  · rw [callers]
    exact inv.others

omit [DecidableEq τ] in
theorem announced_some (here : s.callers w = some call) :
    s.announced w = if call.pc.beforePush then call.op.messages else [] := by
  rw [State.announced, here]

omit [DecidableEq τ] in
theorem settling_some (here : s.callers w = some call) :
    s.settling w = if call.pc.beforePush then [] else call.op.messages := by
  rw [State.settling, here]

omit [DecidableEq τ] in
theorem announced_none (here : s.callers w = none) : s.announced w = [] := by
  rw [State.announced, here]

omit [DecidableEq τ] in
theorem settling_none (here : s.callers w = none) : s.settling w = [] := by
  rw [State.settling, here]

theorem writer_step (inv : InOrder w s) (mine : s.callers w = some call)
    (written : s'.written = s.written) (effect : MessageEffect s s' w call) : InOrder w s' := by
  have ahead := inv.written
  have behind := inv.pushed
  rw [announced_some mine] at ahead
  rw [settling_some mine] at behind
  have others : ∀ call', s'.callers = Function.update s.callers w call' →
      ∀ t c, t ≠ w → s'.callers t = some c → c.op.messages = [] := by
    intro call' callers t c different here
    rw [callers, Function.update_of_ne different] at here
    exact inv.others t c different here
  cases effect with
  | moves c callers op stage pushed returned =>
      have here : s'.callers w = some c := by rw [callers, Function.update_self]
      refine ⟨?_, ?_, others _ callers⟩
      · rw [written, pushed, announced_some here, op, ahead]
        by_cases none : call.op.messages = []
        · simp [none]
        · rw [stage none]
      · rw [pushed, returned, settling_some here, op, behind]
        by_cases none : call.op.messages = []
        · simp [none]
        · rw [stage none]
  | pushes c callers op before after pushed returned =>
      have here : s'.callers w = some c := by rw [callers, Function.update_self]
      rw [if_pos before] at ahead behind
      refine ⟨?_, ?_, others _ callers⟩
      · rw [written, pushed, announced_some here, after, ahead]
        simp
      · rw [pushed, returned, settling_some here, after, op, behind]
        simp
  | returns callers after pushed returned =>
      have here : s'.callers w = none := by rw [callers, Function.update_self]
      rw [after] at ahead behind
      refine ⟨?_, ?_, others _ callers⟩
      · rw [written, pushed, announced_none here, ahead]
        simp
      · rw [pushed, returned, settling_none here, behind]
        simp

theorem other_step (inv : InOrder w s) (different : t ≠ w) (mine : s.callers t = some call)
    (written : s'.written = s.written) (effect : MessageEffect s s' t call) : InOrder w s' := by
  have nothing := inv.others t call different mine
  have keeps : ∀ call', s'.callers = Function.update s.callers t call' →
      (∀ c, call' = some c → c.op = call.op) → s'.pushed = s.pushed →
        s'.returned = s.returned → InOrder w s' := by
    intro call' callers op pushed returned
    have same : s'.callers w = s.callers w := by
      rw [callers, Function.update_of_ne (Ne.symm different)]
    refine ⟨?_, ?_, ?_⟩
    · rw [written, pushed, announced_congr same, inv.written]
    · rw [pushed, returned, settling_congr same, inv.pushed]
    · intro u c other here
      rw [callers] at here
      by_cases me : u = t
      · subst me
        rw [Function.update_self] at here
        rw [op c here, nothing]
      · rw [Function.update_of_ne me] at here
        exact inv.others u c other here
  cases effect with
  | moves c callers op stage pushed returned =>
      apply keeps _ callers _ pushed returned
      intro c' same
      cases same
      exact op
  | pushes c callers op before after pushed returned =>
      rw [nothing, List.append_nil] at pushed
      apply keeps _ callers _ pushed returned
      intro c' same
      cases same
      exact op
  | returns callers after pushed returned =>
      rw [nothing, List.append_nil] at returned
      apply keeps _ callers _ pushed returned
      intro c same
      cases same

theorem enter (inv : InOrder w s) {op : Op μ} (absent : s.callers t = none)
    (allowed : WritesFrom w (.call t op)) :
    InOrder w (s.enter t op) := by
  have early : op.entry.beforePush = true := by cases op <;> rfl
  by_cases me : t = w
  · subst me
    have ahead := inv.written
    have behind := inv.pushed
    rw [announced_none absent, List.append_nil] at ahead
    rw [settling_none absent] at behind
    have here : (s.enter t op).callers t = some ⟨op, 0, op.entry⟩ := Function.update_self _ _ _
    refine ⟨?_, ?_, ?_⟩
    · rw [announced_some here, if_pos early]
      simp only [State.enter, State.setCaller, ahead]
    · rw [settling_some here, if_pos early]
      exact behind
    · intro u c different here
      simp only [State.enter, State.setCaller, Function.update_of_ne different] at here
      exact inv.others u c different here
  · have nothing : op.messages = [] := by
      cases op with
      | write m => exact absurd allowed me
      | flush | destroy => rfl
    have same : (s.enter t op).callers w = s.callers w :=
      Function.update_of_ne (Ne.symm me) _ _
    refine ⟨?_, ?_, ?_⟩
    · rw [announced_congr same]
      simp only [State.enter, nothing, List.append_nil]
      exact inv.written
    · rw [settling_congr same]
      exact inv.pushed
    · intro u c different here
      by_cases mine : u = t
      · subst mine
        simp only [State.enter, State.setCaller, Function.update_self, Option.some.injEq] at here
        subst here
        exact nothing
      · simp only [State.enter, State.setCaller, Function.update_of_ne mine] at here
        exact inv.others u c different here

end InOrder

theorem InOrder.step {w : τ} {s s' : State τ μ} {a : Action τ μ} (inv : InOrder w s)
    (allowed : WritesFrom w a) (taken : FileLogPolicy.step s a = some s') : InOrder w s' := by
  cases step_takes taken with
  | call t op absent => exact inv.enter absent allowed
  | caller t call mine taken =>
      have written := (callerFrame_of_callerStep taken).written
      have effect := messageEffect_of_callerStep taken
      by_cases me : t = w
      · subst me
        exact inv.writer_step mine written effect
      · exact inv.other_step me mine written effect
  | writer taken =>
      have frame := writerFrame_of_writerStep taken
      exact inv.frame frame.callers frame.written frame.pushed frame.returned
  | spurious waiting => exact inv.frame rfl rfl rfl rfl

theorem InOrder.of_reachable {guard : State τ μ → Action τ μ → Prop} {w : τ}
    (writes : ∀ s a, guard s a → WritesFrom w a) {s : State τ μ}
    (reached : (machine τ μ).ReachUnder guard s) : InOrder w s := by
  apply reached.invariant (I := InOrder w) (.start w)
  intro s a s' inv allowed taken
  exact inv.step (writes s a allowed) taken

omit [DecidableEq τ] in
theorem RingInv.pending_perm {phase : Phase} {s : State τ μ} (ring : RingInv phase s) :
    s.pending.Perm s.held := by
  have outside : ∀ i, i ∉ s.busy → i ≠ s.currentBuffer → s.unwritten i = [] := by
    intro i idle different
    rw [RingInv.unwritten_of_not_busy idle]
    exact ring.empty i idle fun ready => different ready.2
  unfold State.pending State.held
  split
  · rename_i busy
    rw [List.append_nil]
    apply Collect.flatMap_perm ring.nodup List.nodup_range
    · exact fun i member => List.mem_range.mpr (ring.inside i member)
    · intro i _ idle
      apply outside i idle
      intro same
      rw [same] at idle
      exact idle busy
  · rename_i idle
    rw [← List.flatMap_singleton s.unwritten s.currentBuffer, ← List.flatMap_append]
    apply Collect.flatMap_perm _ List.nodup_range
    · intro i member
      rw [List.mem_append, List.mem_singleton] at member
      rw [List.mem_range]
      rcases member with busy | same
      · exact ring.inside i busy
      · rw [same]
        exact ring.current
    · intro i _ other
      rw [List.mem_append, List.mem_singleton, not_or] at other
      exact outside i other.1 other.2
    · rw [List.nodup_append]
      refine ⟨ring.nodup, List.nodup_singleton _, ?_⟩
      intro i first j second same
      rw [List.mem_singleton] at second
      rw [same, second] at first
      exact idle first

theorem intact_of_exclusive (w : τ) (s : State τ μ)
    (reached : (machine τ μ).ReachUnder (fun s a => Exclusive s a ∧ OneWriter w a) s) :
    Intact s := by
  have orderly : OrderlyInv s := .of_reachable (fun s a both => both.1) reached
  have inOrder : InOrder w s := .of_reachable (fun s a both => both.2.writesFrom) reached
  rcases orderly.phase with ⟨phase, inPhase⟩
  have ring := inPhase.ring
  refine ⟨?_, ?_, ?_⟩
  · rw [inOrder.written, ring.ledger, List.append_assoc]
    exact List.prefix_append _ _
  · have returned : s.returned <+: s.file ++ s.pending := by
      rw [← ring.ledger, inOrder.pushed]
      exact List.prefix_append _ _
    have perm : (s.file ++ s.pending).Perm (s.file ++ s.held) := ring.pending_perm.append_left _
    exact returned.sublist.subperm.trans perm.subperm
  · intro i n clearing
    have progress := ring.progress
    rw [clearing] at progress
    rw [State.unwritten, clearing, Writer.done, if_pos rfl, progress, List.drop_length]

instance (w : τ) : (a : Action τ μ) → Decidable (OneWriter w a)
  | .call t (.write _) => inferInstanceAs (Decidable (t = w))
  | .call _ .destroy => isFalse id
  | .call _ .flush | .caller _ | .writer | .spurious => isTrue trivial

def flushedRun : List (Action Bool Nat) :=
  [.writer, .writer, .writer] ++ writeSteps false 7 ++ flushSteps Bool Nat true 0 ++
    List.replicate 7 .writer

theorem intact_of_exclusive_flushed :
    ∃ s : State Bool Nat, s.file = [7] ∧ s.returned = [7] ∧ Intact s :=
  ⟨_, rfl, rfl, intact_of_exclusive false _
    (Machine.reachFrom_of_runGuarded flushedRun .origin rfl)⟩

/-- The ring is full but for the last buffer. The writer takes the first buffer to
its end; `Flush` queues the last and goes round to the first, `Write` appends to it
and returns, and the writer clears it. -/
def losingSteps : List (Action Bool Nat) :=
  writeSteps false 15 ++ List.replicate 8 .writer ++ [.call true .flush] ++
    turnedSteps Bool Nat true 15 ++ writeSteps false 16 ++ [.writer, .writer]

theorem losing_run : ∃ s, (machine Bool Nat).runFrom (starved Bool 15) losingSteps = some s ∧
    16 ∈ s.returned ∧ 16 ∉ s.file ++ s.held := by
  have lost : ((machine Bool Nat).runFrom (starved Bool 15) losingSteps).any
      (fun s => decide (16 ∈ s.returned ∧ 16 ∉ s.file ++ s.held)) = true := by
    decide +kernel
  rcases Option.any_eq_true _ _ |>.mp lost with ⟨s, ran, facts⟩
  exact ⟨s, ran, of_decide_eq_true facts⟩

theorem loses_returned_message : ¬ ∀ s : State Bool Nat,
    (machine Bool Nat).ReachUnder (fun _ a => WriterAndFlusher false true a) s → Intact s := by
  intro intact
  have starved := starve_run false true (Nat.le_refl 15)
  rcases losing_run with ⟨s, ran, returned, missing⟩
  have allowed : ∀ a ∈ starveSteps false true 15 ++ losingSteps, WriterAndFlusher false true a := by
    decide +kernel
  have reached := Machine.reachFrom_of_run .origin
    (Machine.allSteps_of_forall _ fun a member _ => allowed a member)
    (Machine.runFrom_trans starved ran)
  exact missing ((intact s reached).kept.subset returned)

end CommonUtils.Logger.FileLogPolicy
