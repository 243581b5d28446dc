import CommonUtils.MessageQueue.Model

namespace CommonUtils.MessageQueue

variable {κ μ : Type*}

def Asleep (s : State κ μ) (k : κ) : Prop := s.consumers k = .waiting ∧ k ∈ s.cond

def Woken (s : State κ μ) (k : κ) : Prop := s.consumers k = .waiting ∧ k ∉ s.cond

/-- While a consumer sleeps there are at most as many messages as woken consumers,
and none at all where every consumer inside `pop` sleeps. -/
structure NoLostWakeup (s : State κ μ) : Prop where
  enough : ∀ k, Asleep s k → ∃ woken : Finset κ,
    (∀ j, j ∈ woken ↔ Woken s j) ∧ s.queue.currentMessageCount ≤ woken.card
  nothing_left : (∃ k, Asleep s k) → (∀ k, s.consumers k ≠ .idle → Asleep s k) →
    s.queue.queue = []

theorem push_count {cfg : Config} {q : MessageQueue μ} {msg : μ} {pushed : Pushed μ}
    (count : q.currentMessageCount = q.queue.length) (ran : q.push cfg msg = some pushed) :
    pushed.queue.currentMessageCount = pushed.queue.queue.length ∧
      pushed.queue.currentMessageCount ≤ q.currentMessageCount + 1 ∧
        (pushed.notifies = false → pushed.queue = q) := by
  rcases push_cases ran with ⟨oldest, rest, content, notifies, same⟩ | ⟨_, same⟩ |
    ⟨notifies, same⟩
  · rw [content, List.length_cons] at count
    rw [same, notifies]
    refine ⟨?_, by dsimp only; omega, by simp⟩
    simp [count]
  · rw [same]
    exact ⟨count, Int.le_add_one (le_refl _), fun _ => rfl⟩
  · rw [same, notifies]
    refine ⟨?_, le_refl _, by simp⟩
    simp [count]

theorem pop_count {q rest : MessageQueue μ} {msg : μ}
    (count : q.currentMessageCount = q.queue.length) (ran : q.pop = some (msg, rest)) :
    rest.currentMessageCount = rest.queue.length ∧
      rest.currentMessageCount = q.currentMessageCount - 1 := by
  rcases pop_cases ran with ⟨content, less⟩
  rw [content, List.length_cons] at count
  refine ⟨?_, less⟩
  rw [less, count]
  omega

structure WakeInv (s : State κ μ) : Prop where
  count : s.queue.currentMessageCount = s.queue.queue.length
  sleeping : ∀ k ∈ s.cond, s.consumers k = .waiting
  covered : ∃ woken : Finset κ, (∀ k, k ∈ woken ↔ Woken s k) ∧
    WaitSet.Covered s.cond woken s.queue.currentMessageCount

namespace WakeInv

variable [DecidableEq κ] {cfg : Config} {s s' : State κ μ} {k : κ}

omit [DecidableEq κ] in
theorem start : WakeInv (MessageQueue.start κ μ) where
  count := rfl
  sleeping := by intro k member; exact absurd member (Finset.notMem_empty k)
  covered := ⟨∅, by intro k; simp [Woken, MessageQueue.start], .of_nonpos (le_refl _)⟩

omit [DecidableEq κ] in
theorem apart {woken : Finset κ} (exactly : ∀ k, k ∈ woken ↔ Woken s k) :
    Disjoint s.cond woken := by
  rw [Finset.disjoint_left]
  intro k asleep awake
  exact ((exactly k).mp awake).2 asleep

theorem push (inv : WakeInv s) {msg : μ} {woken : Option κ}
    (taken : step cfg s (.push msg woken) = some s') : WakeInv s' := by
  rcases inv.covered with ⟨awake, exactly, covered⟩
  rcases Option.bind_eq_some_iff.mp taken with ⟨pushed, ran, rest⟩
  rcases push_count inv.count ran with ⟨count, more, dropped⟩
  split at rest
  · rcases Option.map_eq_some_iff.mp rest with ⟨cond, notified, rfl⟩
    refine ⟨count, ?_, woken.toFinset ∪ awake, ?_, covered.notifyOne (apart exactly) more notified⟩
    · exact fun k member => inv.sleeping k (WaitSet.notifyOne_subset notified member)
    · intro k
      rw [Finset.mem_union, exactly]
      cases woken with
      | none =>
          rcases WaitSet.notifyOne_none.mp notified with ⟨nobody, rfl⟩
          simp [Woken, State.afterPush, nobody]
      | some t =>
          rcases WaitSet.notifyOne_some.mp notified with ⟨sleeps, rfl⟩
          have waiting := inv.sleeping t sleeps
          by_cases same : k = t
          · simp [Woken, State.afterPush, same, waiting]
          · simp [Woken, State.afterPush, same]
  · rename_i quiet
    rw [Bool.not_eq_true] at quiet
    cases woken with
    | some t => cases rest
    | none =>
        cases rest
        refine ⟨count, inv.sleeping, awake, exactly, ?_⟩
        rw [State.afterPush, dropped quiet]
        exact covered

theorem popSection (inv : WakeInv s) (here : s.consumers k = .entering ∨ Woken s k)
    (taken : s.popSection k = some s') : WakeInv s' := by
  rcases inv.covered with ⟨awake, exactly, covered⟩
  have outside : k ∉ s.cond := by
    intro asleep
    rcases here with entering | woken
    · rw [inv.sleeping k asleep] at entering
      cases entering
    · exact woken.2 asleep
  unfold State.popSection at taken
  split at taken
  · rcases Option.map_eq_some_iff.mp taken with ⟨⟨msg, rest⟩, ran, rfl⟩
    rcases pop_count inv.count ran with ⟨count, less⟩
    refine ⟨count, ?_, awake.erase k, ?_, ?_⟩
    · intro j asleep
      have different : j ≠ k := fun same => outside (same ▸ asleep)
      simp only [State.setConsumer, Function.update_of_ne different]
      exact inv.sleeping j asleep
    · intro j
      rw [Finset.mem_erase, exactly]
      by_cases same : j = k
      · simp [Woken, State.setConsumer, same]
      · simp [Woken, State.setConsumer, same]
    · simp only [State.setConsumer, less]
      exact covered.take k
  · rename_i idle
    cases taken
    refine ⟨inv.count, ?_, awake.erase k, ?_, .of_nonpos ?_⟩
    · intro j member
      by_cases same : j = k
      · simp [State.setConsumer, same]
      · simp only [State.setConsumer, Function.update_of_ne same]
        exact inv.sleeping j ((Finset.mem_insert.mp member).resolve_left same)
    · intro j
      rw [Finset.mem_erase, exactly]
      by_cases same : j = k
      · simp [Woken, State.setConsumer, same]
      · simp [Woken, State.setConsumer, same]
    · simpa [ready, State.setConsumer] using idle

theorem enter (inv : WakeInv s) (idle : s.consumers k = .idle) :
    WakeInv (s.setConsumer k .entering) := by
  rcases inv.covered with ⟨awake, exactly, covered⟩
  refine ⟨inv.count, ?_, awake, ?_, covered⟩
  · intro j asleep
    have waiting := inv.sleeping j asleep
    have different : j ≠ k := by
      intro same
      rw [same, idle] at waiting
      cases waiting
    simp only [State.setConsumer, Function.update_of_ne different, waiting]
  · intro j
    rw [exactly]
    by_cases same : j = k
    · simp [Woken, State.setConsumer, same, idle]
    · simp [Woken, State.setConsumer, same]

theorem spurious (inv : WakeInv s) {rest : Finset κ} (woken : WaitSet.wake s.cond k = some rest) :
    WakeInv { s with cond := rest } := by
  rcases inv.covered with ⟨awake, exactly, covered⟩
  refine ⟨inv.count, ?_, insert k awake, ?_, covered.wake woken⟩
  · exact fun j asleep => inv.sleeping j (WaitSet.wake_subset woken asleep)
  · intro j
    rcases WaitSet.wake_eq_some.mp woken with ⟨sleeps, rfl⟩
    have waiting := inv.sleeping k sleeps
    rw [Finset.mem_insert, exactly]
    by_cases same : j = k
    · simp [Woken, same, waiting]
    · simp [Woken, same]

theorem step {a : Action κ μ} (inv : WakeInv s) (taken : MessageQueue.step cfg s a = some s') :
    WakeInv s' := by
  cases a with
  | push msg woken => exact inv.push taken
  | pop k =>
      simp only [MessageQueue.step] at taken
      split at taken <;> cases taken
      exact inv.enter ‹_›
  | consumer k =>
      simp only [MessageQueue.step] at taken
      split at taken
      · exact inv.popSection (.inl ‹_›) taken
      · rename_i waiting
        split at taken
        · cases taken
        · exact inv.popSection (.inr ⟨waiting, ‹_›⟩) taken
      · cases taken
  | empty answer =>
      simp only [MessageQueue.step] at taken
      split at taken <;> cases taken
      exact inv
  | spurious k =>
      rcases Option.map_eq_some_iff.mp taken with ⟨rest, woken, rfl⟩
      exact inv.spurious woken

end WakeInv

variable [DecidableEq κ]

theorem no_lost_wakeup (cfg : Config) (s : State κ μ) (reached : (machine cfg κ μ).Reachable s) :
    NoLostWakeup s := by
  have inv : WakeInv s := reached.invariant .start fun _ _ _ inv _ taken => inv.step taken
  rcases inv.covered with ⟨woken, exactly, covered⟩
  constructor
  · intro k asleep
    exact ⟨woken, exactly, covered (Finset.ne_empty_of_mem asleep.2)⟩
  · intro some all
    rcases some with ⟨k, asleep⟩
    have nobody : woken = ∅ := by
      rw [Finset.eq_empty_iff_forall_notMem]
      intro j awake
      have waiting := (exactly j).mp awake
      exact waiting.2 (all j (by rw [waiting.1]; simp)).2
    have enough := covered (Finset.ne_empty_of_mem asleep.2)
    rw [nobody, inv.count, Finset.card_empty] at enough
    exact List.length_eq_zero_iff.mp (by omega)

/-- Two consumers sleep; one push wakes the first, and the second sleeps on. -/
theorem no_lost_wakeup_two : ∃ s : State (Fin 2) Nat, Asleep s 1 ∧ Woken s 0 ∧
    s.queue.currentMessageCount = 1 ∧ NoLostWakeup s :=
  ⟨_, ⟨rfl, by decide⟩, ⟨rfl, by decide⟩, rfl, no_lost_wakeup ⟨1, false⟩ _
    (Machine.reachable_of_run
      [.pop 0, .consumer 0, .pop 1, .consumer 1, .push 7 (some 0)] rfl)⟩

end CommonUtils.MessageQueue
