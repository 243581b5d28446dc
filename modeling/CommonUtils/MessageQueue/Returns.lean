import CommonUtils.Library.Progress
import CommonUtils.MessageQueue.Wakeup

namespace CommonUtils.MessageQueue

variable {κ μ : Type*} [Fintype κ] [DecidableEq κ]

def State.callers (s : State κ μ) : Finset κ := {k | s.consumers k ≠ .idle}

def State.active (s : State κ μ) : Finset κ := s.callers \ s.cond

/-- A call, a notification and a spurious wakeup each let a thread go on once. -/
def allowance : Action κ μ → Nat
  | .push _ woken => woken.elim 1 fun _ => 2
  | .pop _ | .spurious _ => 2
  | .empty _ => 1
  | .consumer _ => 0

def calls : List (Action κ μ) → Nat
  | [] => 0
  | .pop _ :: as => calls as + 1
  | _ :: as => calls as

def pushed : List (Action κ μ) → List μ
  | [] => []
  | .push msg _ :: as => msg :: pushed as
  | _ :: as => pushed as

def Roomy (cfg : Config) (s : State κ μ) : Action κ μ → Prop
  | .push _ _ => s.queue.currentMessageCount < cfg.maxMessageCount
  | _ => True

instance (cfg : Config) (s : State κ μ) : (a : Action κ μ) → Decidable (Roomy cfg s a)
  | .push _ _ => inferInstanceAs (Decidable (_ < _))
  | .pop _ | .consumer _ | .empty _ | .spurious _ => .isTrue trivial

def AtRest (cfg : Config) (s : State κ μ) : Prop := ∀ k, step cfg s (.consumer k) = none

instance (cfg : Config) (s : State κ μ) : Decidable (AtRest cfg s) :=
  inferInstanceAs (Decidable (∀ k, step cfg s (.consumer k) = none))

structure Served (s : State κ μ) (as : List (Action κ μ)) (s' : State κ μ) : Prop where
  handed : s'.popped.map Numbered.message = s.popped.map Numbered.message ++
    (s.queue.queue.map Numbered.message ++ pushed as).take (s.callers.card + calls as)
  left : s'.queue.queue.map Numbered.message =
    (s.queue.queue.map Numbered.message ++ pushed as).drop (s.callers.card + calls as)
  waiting : s'.callers.card =
    s.callers.card + calls as - (s.queue.queue.length + (pushed as).length)

variable {cfg : Config} {s s' : State κ μ} {k : κ} {a : Action κ μ}

omit [DecidableEq κ] in
theorem mem_callers : k ∈ s.callers ↔ s.consumers k ≠ .idle := by
  simp [State.callers]

theorem mem_active : k ∈ s.active ↔ s.consumers k ≠ .idle ∧ k ∉ s.cond := by
  rw [State.active, Finset.mem_sdiff, mem_callers]

theorem callers_idle (k : κ) : (s.setConsumer k .idle).callers = s.callers.erase k := by
  ext j
  rw [Finset.mem_erase, mem_callers, mem_callers]
  by_cases same : j = k <;> simp [State.setConsumer, same]

theorem callers_busy (k : κ) {pc : Consumer} (busy : pc ≠ .idle) :
    (s.setConsumer k pc).callers = insert k s.callers := by
  ext j
  rw [Finset.mem_insert, mem_callers, mem_callers]
  by_cases same : j = k <;> simp [State.setConsumer, same, busy]

theorem consumer_cases (inv : WakeInv s) (taken : step cfg s (.consumer k) = some s') :
    k ∈ s.active ∧
      ((∃ msg rest, s.queue.pop = some (msg, rest) ∧
          s' = { s.setConsumer k .idle with queue := rest, popped := s.popped ++ [msg] }) ∨
        s' = { s.setConsumer k .waiting with cond := insert k s.cond }) := by
  have section_cases (ran : s.popSection k = some s') :
      (∃ msg rest, s.queue.pop = some (msg, rest) ∧
          s' = { s.setConsumer k .idle with queue := rest, popped := s.popped ++ [msg] }) ∨
        s' = { s.setConsumer k .waiting with cond := insert k s.cond } := by
    unfold State.popSection at ran
    split at ran
    · rcases Option.map_eq_some_iff.mp ran with ⟨⟨msg, rest⟩, popped, rfl⟩
      exact .inl ⟨msg, rest, popped, rfl⟩
    · cases ran
      exact .inr rfl
  simp only [step] at taken
  split at taken
  case h_1 entering =>
    refine ⟨mem_active.mpr ⟨by rw [entering]; simp, ?_⟩, section_cases taken⟩
    intro asleep
    rw [inv.sleeping k asleep] at entering
    cases entering
  case h_2 waiting =>
    split at taken
    case isTrue => cases taken
    case isFalse awake =>
      exact ⟨mem_active.mpr ⟨by rw [waiting]; simp, awake⟩, section_cases taken⟩
  case h_3 => cases taken

theorem active_wake {rest : Finset κ} (woken : WaitSet.wake s.cond k = some rest) :
    (s.callers \ rest).card ≤ s.active.card + 1 := by
  rcases WaitSet.wake_eq_some.mp woken with ⟨-, rfl⟩
  have more : s.callers \ s.cond.erase k ⊆ insert k s.active := by
    intro j member
    rw [Finset.mem_sdiff, Finset.mem_erase, not_and_or, not_not] at member
    rw [Finset.mem_insert, State.active, Finset.mem_sdiff]
    rcases member.2 with same | awake
    · exact .inl same
    · exact .inr ⟨member.1, awake⟩
  exact (Finset.card_le_card more).trans (Finset.card_insert_le _ _)

/-- Each step of a consumer is the last before it sleeps again or returns. -/
theorem active_falls (inv : WakeInv s) (taken : step cfg s a = some s') :
    s'.active.card < s.active.card + allowance a := by
  cases a with
  | push msg woken =>
      rcases Option.bind_eq_some_iff.mp taken with ⟨pushed, ran, rest⟩
      split at rest
      · rcases Option.map_eq_some_iff.mp rest with ⟨cond, notified, rfl⟩
        cases woken with
        | none =>
            rcases WaitSet.notifyOne_none.mp notified with ⟨nobody, rfl⟩
            have same : (s.afterPush cfg msg pushed.queue ∅).active = s.active := by
              rw [State.active, State.active, nobody]
              rfl
            rw [same]
            exact Nat.lt_succ_self _
        | some k => exact Nat.lt_succ_of_le (active_wake notified)
      · cases woken with
        | none =>
            cases rest
            exact Nat.lt_succ_self _
        | some k => cases rest
  | pop k =>
      simp only [step] at taken
      split at taken <;> cases taken
      have more : (s.setConsumer k .entering).active ⊆ insert k s.active := by
        rw [State.active, callers_busy k (by simp)]
        intro j member
        rcases Finset.mem_sdiff.mp member with ⟨inside, awake⟩
        rw [Finset.mem_insert, State.active, Finset.mem_sdiff]
        exact (Finset.mem_insert.mp inside).imp_right fun before => ⟨before, awake⟩
      have fewer := (Finset.card_le_card more).trans (Finset.card_insert_le _ _)
      exact Nat.lt_succ_of_le fewer
  | consumer k =>
      rcases consumer_cases inv taken with ⟨active, ⟨msg, rest, ran, rfl⟩ | rfl⟩
      · have fewer : (s.setConsumer k .idle).active = s.active.erase k := by
          rw [State.active, callers_idle, Finset.erase_sdiff_comm]
          rfl
        exact (congrArg Finset.card fewer).trans_lt (Finset.card_erase_lt_of_mem active)
      · have inside : insert k s.callers = s.callers :=
          Finset.insert_eq_of_mem (mem_callers.mpr (mem_active.mp active).1)
        have fewer : (s.setConsumer k .waiting).callers \ insert k s.cond = s.active.erase k := by
          rw [callers_busy k (by simp), inside, Finset.sdiff_insert]
          rfl
        exact (congrArg Finset.card fewer).trans_lt (Finset.card_erase_lt_of_mem active)
  | empty answer =>
      simp only [step] at taken
      split at taken <;> cases taken
      exact Nat.lt_succ_self _
  | spurious k =>
      rcases Option.map_eq_some_iff.mp taken with ⟨rest, woken, rfl⟩
      exact Nat.lt_succ_of_le (active_wake woken)

omit [Fintype κ] in
theorem messages_step (room : Roomy cfg s a) (taken : step cfg s a = some s') :
    (s'.popped ++ s'.queue.queue).map Numbered.message =
      (s.popped ++ s.queue.queue).map Numbered.message ++ pushed [a] := by
  cases a with
  | push msg woken =>
      rcases Option.bind_eq_some_iff.mp taken with ⟨after, ran, rest⟩
      rw [MessageQueue.push, if_neg (not_le.mpr room)] at ran
      cases ran
      rcases Option.map_eq_some_iff.mp rest with ⟨cond, notified, rfl⟩
      simp [State.afterPush, pushed]
  | consumer k =>
      cases step_effect taken with
      | pop _ msg rest ready ran => simp [(pop_cases ran).1, pushed]
      | other _ _ queue pushes popped =>
          rw [queue, popped]
          exact (List.append_nil _).symm
  | pop k | empty answer | spurious k =>
      cases step_effect taken with
      | other _ _ queue pushes popped =>
          rw [queue, popped]
          exact (List.append_nil _).symm

theorem callers_step (inv : WakeInv s) (taken : step cfg s a = some s') :
    s'.popped.length + s'.callers.card = s.popped.length + s.callers.card + calls [a] := by
  cases a with
  | push msg woken =>
      rcases Option.bind_eq_some_iff.mp taken with ⟨after, ran, rest⟩
      split at rest
      · rcases Option.map_eq_some_iff.mp rest with ⟨cond, notified, rfl⟩
        rfl
      · cases woken <;> cases rest
        rfl
  | pop k =>
      simp only [step] at taken
      split at taken <;> cases taken
      rename_i idle
      have outside : k ∉ s.callers := fun inside => mem_callers.mp inside idle
      rw [callers_busy k (by simp), Finset.card_insert_of_notMem outside]
      rfl
  | consumer k =>
      rcases consumer_cases inv taken with ⟨active, ⟨msg, rest, ran, rfl⟩ | rfl⟩
      · have inside := mem_callers.mpr (mem_active.mp active).1
        have fewer := Finset.card_erase_add_one inside
        have left : (s.setConsumer k .idle).callers.card = (s.callers.erase k).card :=
          congrArg Finset.card (callers_idle k)
        rw [State.callers] at left ⊢
        simp only [calls, List.length_append, List.length_singleton] at left ⊢
        omega
      · have inside : insert k s.callers = s.callers :=
          Finset.insert_eq_of_mem (mem_callers.mpr (mem_active.mp active).1)
        have same : (s.setConsumer k .waiting).callers.card = s.callers.card :=
          congrArg Finset.card ((callers_busy k (by simp)).trans inside)
        exact congrArg (s.popped.length + ·) same
  | empty answer =>
      simp only [step] at taken
      split at taken <;> cases taken
      rfl
  | spurious k =>
      rcases Option.map_eq_some_iff.mp taken with ⟨rest, woken, rfl⟩
      rfl

omit [DecidableEq κ] in
theorem Served.of_kept {as : List (Action κ μ)} (finished : s'.callers = ∅ ∨ s'.queue.queue = [])
    (messages : (s'.popped ++ s'.queue.queue).map Numbered.message =
      (s.popped ++ s.queue.queue).map Numbered.message ++ pushed as)
    (callers : s'.popped.length + s'.callers.card =
      s.popped.length + s.callers.card + calls as) : Served s as s' := by
  have lengths := congrArg List.length messages
  rw [List.map_append, List.map_append, List.append_assoc] at messages
  simp only [List.length_append, List.length_map] at lengths
  rcases finished with none | empty
  · rw [none, Finset.card_empty] at callers
    rw [← List.take_append_drop (s.callers.card + calls as)
      (s.queue.queue.map Numbered.message ++ pushed as), ← List.append_assoc] at messages
    rcases List.append_inj messages (by simp; omega) with ⟨handed, left⟩
    exact ⟨handed, left, by rw [none, Finset.card_empty]; omega⟩
  · rw [empty, List.length_nil] at lengths
    rw [empty, List.map_nil, List.append_nil] at messages
    have few : (s.queue.queue.map Numbered.message ++ pushed as).length ≤
        s.callers.card + calls as := by
      rw [List.length_append, List.length_map]
      omega
    refine ⟨?_, ?_, by omega⟩
    · rw [List.take_of_length_le few, messages]
    · rw [List.drop_of_length_le few, empty, List.map_nil]

omit [Fintype κ] [DecidableEq κ] in
theorem calls_cons (a : Action κ μ) (as : List (Action κ μ)) :
    calls (a :: as) = calls [a] + calls as := by
  cases a <;> simp [calls, Nat.add_comm]

omit [Fintype κ] [DecidableEq κ] in
theorem pushed_cons (a : Action κ μ) (as : List (Action κ μ)) :
    pushed (a :: as) = pushed [a] ++ pushed as := by
  cases a <;> rfl

theorem run_keeps {as : List (Action κ μ)} (inv : WakeInv s)
    (roomy : (machine cfg κ μ).AllSteps (Roomy cfg) s as)
    (ran : (machine cfg κ μ).runFrom s as = some s') :
    (s'.popped ++ s'.queue.queue).map Numbered.message =
        (s.popped ++ s.queue.queue).map Numbered.message ++ pushed as ∧
      s'.popped.length + s'.callers.card = s.popped.length + s.callers.card + calls as := by
  induction as generalizing s with
  | nil =>
      cases ran
      exact ⟨(List.append_nil _).symm, rfl⟩
  | cons a as ih =>
      rcases Machine.runFrom_cons_eq_some_iff.mp ran with ⟨next, taken, rest⟩
      have now := roomy next taken
      rcases ih (inv.step taken) now.2 rest with ⟨messages, callers⟩
      have first := callers_step inv taken
      rw [messages, messages_step now.1 taken, pushed_cons a as, calls_cons a as,
        List.append_assoc]
      exact ⟨rfl, by omega⟩

theorem idle_or_empty (inv : WakeInv s) (rest : AtRest cfg s) :
    s.callers = ∅ ∨ s.queue.queue = [] := by
  have asleep : s.callers ⊆ s.cond := by
    intro k inside
    by_contra awake
    have stuck := rest k
    have ready : s.popSection k ≠ none := by
      unfold State.popSection
      split
      case isTrue ready =>
        rw [Ne, Option.map_eq_none_iff]
        exact pop_ne_none inv.count ready
      case isFalse => simp
    cases pc : s.consumers k with
    | idle => exact mem_callers.mp inside pc
    | entering => exact ready (by simpa [step, pc] using stuck)
    | waiting => exact ready (by simpa [step, pc, awake] using stuck)
  rcases inv.covered with ⟨woken, exactly, covered⟩
  have nobody : woken = ∅ := by
    rw [Finset.eq_empty_iff_forall_notMem]
    intro k awake
    have waiting := (exactly k).mp awake
    exact waiting.2 (asleep (mem_callers.mpr (by rw [waiting.1]; simp)))
  by_cases none : s.cond = ∅
  · exact .inl (Finset.subset_empty.mp (none ▸ asleep))
  · have enough := covered none
    rw [nobody, inv.count, Finset.card_empty] at enough
    exact .inr (List.length_eq_zero_iff.mp (by omega))

/-- However the threads go on, those inside `pop` are at rest after a bounded number of steps for
each call, notification and spurious wakeup, and the messages have gone to them in order. -/
theorem pops_return (cfg : Config) (s : State κ μ) (reached : (machine cfg κ μ).Reachable s)
    (as : List (Action κ μ)) (s' : State κ μ) (ran : (machine cfg κ μ).runFrom s as = some s') :
    as.length ≤ s.active.card + (as.map allowance).sum ∧
      ((machine cfg κ μ).AllSteps (Roomy cfg) s as → AtRest cfg s' → Served s as s') := by
  have inv : WakeInv s := reached.invariant .start fun _ _ _ inv _ taken => inv.step taken
  have always := (machine cfg κ μ).allSteps_true s as
  constructor
  · have falls : ∀ s a s', WakeInv s → True → (machine cfg κ μ).step s a = some s' →
        s'.active.card < s.active.card + allowance a :=
      fun _ _ _ inv _ taken => active_falls inv taken
    have bounded := Machine.length_le_remaining (fun _ _ _ inv _ taken => WakeInv.step inv taken)
      falls inv always ran
    omega
  · intro roomy rest
    have inv' : WakeInv s' :=
      Machine.runFrom_invariant (fun _ _ _ inv _ taken => inv.step taken) inv always ran
    rcases run_keeps inv roomy ran with ⟨messages, callers⟩
    exact .of_kept (idle_or_empty inv' rest) messages callers

def servingRun : List (Action Bool Nat) :=
  [.pop false, .consumer false, .pop true, .consumer true, .push 7 (some true)]

theorem pops_return_two : ∃ s s' : State Bool Nat, s.callers.card = 2 ∧ s.active.card = 1 ∧
    Served s [.push 8 (some false), .consumer false, .consumer true] s' :=
  ⟨_, _, by decide, by decide,
    (pops_return ⟨2, false⟩ _ (Machine.reachable_of_run servingRun rfl)
      [.push 8 (some false), .consumer false, .consumer true] _ rfl).2
      (Machine.allSteps_of_runGuarded _ rfl) (by decide)⟩

end CommonUtils.MessageQueue
