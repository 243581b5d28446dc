import CommonUtils.ThreadPool.Model

/-! Wakeups on the shared condition variable. `notify_one` of `enqueue` is meant
for a worker, but a producer waiting for space sleeps on the same variable and
may swallow it. -/

namespace CommonUtils.ThreadPool

variable {n : Nat} {ρ T : Type*}

def WorkerAsleep (s : State n ρ T) (w : Fin n) : Prop :=
  s.workers w = .waiting ∧ .inl w ∈ s.condition

/-- Work is queued in a live pool, every worker sleeps un-notified (so none runs a
task or is about to notify) and no producer still has its notification to send. -/
structure Stuck (s : State n ρ T) : Prop where
  live : s.stopPool = false
  queued : s.tasks ≠ []
  workers : ∀ w, WorkerAsleep s w
  producers : ∀ p, s.producers p ≠ .notifying

def NeverStuck (cfg : Config) (ρ T : Type*) [DecidableEq ρ] : Prop :=
  ∀ s, (machine cfg ρ T).Reachable s → ¬ Stuck s

/-- The step is the last pending `notify_one`, fired with work queued and every
worker asleep, and it wakes a producer. -/
def Swallowed (s : State n ρ T) : Action n ρ T → Prop
  | .producerNotify p (some (.inr _)) =>
      s.stopPool = false ∧ s.tasks ≠ [] ∧ (∀ w, WorkerAsleep s w) ∧
        ∀ other, other ≠ p → s.producers other ≠ .notifying
  | _ => False

theorem worker_awake_of_update {s : State n ρ T} {w : Fin n} {pc : Worker T}
    (awake : pc ≠ .waiting) {s' : State n ρ T}
    (moved : s'.workers = Function.update s.workers w pc) : ¬ ∀ v, WorkerAsleep s' v := by
  intro asleep
  have stays := (asleep w).1
  rw [moved, Function.update_self] at stays
  exact awake stays

theorem worker_awake_of_erased {s : State n ρ T} {w : Fin n}
    (erased : .inl w ∉ s.condition) : ¬ ∀ v, WorkerAsleep s v :=
  fun asleep => erased (asleep w).2

variable [DecidableEq ρ]

/-- After a swallowed notification nobody is left to take the queued work. -/
theorem stuck_of_swallowed {cfg : Config} {s s' : State cfg.threadsNum ρ T}
    {a : Action cfg.threadsNum ρ T} (swallowed : Swallowed s a) (taken : step cfg s a = some s') :
    Stuck s' := by
  cases step_takes taken with
  | producerNotify p woken rest pc notified =>
      match woken, swallowed, notified with
      | some (.inr q), ⟨live, queued, asleep, others⟩, notified =>
          obtain ⟨_, rfl⟩ := WaitSet.notifyOne_some.mp notified
          refine ⟨live, queued, fun w => ⟨(asleep w).1, ?_⟩, fun other => ?_⟩
          · exact Finset.mem_erase.mpr ⟨Sum.inl_ne_inr, (asleep w).2⟩
          · by_cases same : other = p
            · simp [State.setProducer, same]
            · simpa [State.setProducer, same] using others other same
  | _ => exact swallowed.elim

theorem not_stuck_of_step {cfg : Config} (workers : 0 < cfg.threadsNum)
    {s s' : State cfg.threadsNum ρ T} {a : Action cfg.threadsNum ρ T} (good : ¬ Stuck s)
    (kept : ¬ Swallowed s a) (taken : step cfg s a = some s') : ¬ Stuck s' := by
  rintro ⟨live, queued, asleep, quiet⟩
  cases step_takes taken with
  | enqueue p task idle =>
      refine good ⟨live, queued, asleep, fun q pending => ?_⟩
      have same : q ≠ p := by rintro rfl; simp [idle] at pending
      exact quiet q (by simpa [State.setProducer, same] using pending)
  | throwStopped p task pc stopped => simp [State.throwStopped, State.setProducer, stopped] at live
  | push p task ready space => exact quiet p (by simp [State.setProducer])
  | block p task ready full =>
      refine good ⟨live, queued, fun w => ⟨(asleep w).1, ?_⟩, fun q pending => ?_⟩
      · simpa [State.sleep, State.setProducer] using (asleep w).2
      · have same : q ≠ p := by
          rintro rfl
          rcases ready with ⟨pc, _⟩ | ⟨pc, _⟩ <;> simp [pc] at pending
        exact quiet q (by simpa [State.setProducer, State.sleep, same] using pending)
  | producerNotify p woken rest pc notified =>
      have others : ∀ q, q ≠ p → s.producers q ≠ .notifying := by
        intro q different pending
        exact quiet q (by simpa [State.setProducer, different] using pending)
      have before : ∀ w, WorkerAsleep s w := fun w =>
        ⟨(asleep w).1, WaitSet.notifyOne_subset notified (asleep w).2⟩
      match woken with
      | none =>
          obtain ⟨_, rfl⟩ := WaitSet.notifyOne_none.mp notified
          exact worker_awake_of_erased (w := ⟨0, workers⟩) (by simp) asleep
      | some (.inl w) =>
          obtain ⟨_, rfl⟩ := WaitSet.notifyOne_some.mp notified
          exact worker_awake_of_erased (w := w) (by simp) asleep
      | some (.inr q) => exact kept ⟨live, queued, before, others⟩
  | exit w ready empty stopped => exact worker_awake_of_update (by simp) rfl asleep
  | sleep w ready empty live => exact queued empty
  | dequeue w task rest ready queued => exact worker_awake_of_update (by simp) rfl asleep
  | execute w index task pc => exact worker_awake_of_update (by simp) rfl asleep
  | workerNotify w woken rest pc notified => exact worker_awake_of_update (by simp) rfl asleep
  | spurious x rest woken =>
      exact good ⟨live, queued, fun w => ⟨(asleep w).1, WaitSet.wake_subset woken (asleep w).2⟩,
        quiet⟩
  | destroy pc => simp at live
  | notifyAll pc => exact worker_awake_of_erased (w := ⟨0, workers⟩) (by simp) asleep
  | joinWorker i inside pc exited => exact good ⟨live, queued, asleep, quiet⟩
  | joined i all pc => exact good ⟨live, queued, asleep, quiet⟩

/-- A run passes through no stuck state exactly if none of its steps lets a
producer swallow the last notification that queued work still has. -/
theorem never_stuck_iff_never_swallowed (cfg : Config) (workers : 0 < cfg.threadsNum)
    (as : List (Action cfg.threadsNum ρ T)) :
    (machine cfg ρ T).AllStates (fun s => ¬ Stuck s) (start cfg.threadsNum ρ T) as ↔
      (machine cfg ρ T).AllSteps (fun s a => ¬ Swallowed s a) (start cfg.threadsNum ρ T) as := by
  apply Machine.allStates_iff_allSteps (I := fun _ => True) (A := fun _ _ => True)
  · exact fun _ _ _ _ _ _ => trivial
  · intro s a s' _ _ good taken
    exact ⟨fun free swallowed => free (stuck_of_swallowed swallowed taken),
      fun kept => not_stuck_of_step workers good kept taken⟩
  · trivial
  · exact fun stuck => stuck.queued rfl
  · exact Machine.allSteps_true _ _

theorem never_stuck_iff_never_swallowed_one :
    (machine ⟨1, 1⟩ (Fin 2) Nat).AllStates (fun s => ¬ Stuck s) (start 1 (Fin 2) Nat)
        [.enqueue 0 7, .producer 0, .producerNotify 0 none] ↔
      (machine ⟨1, 1⟩ (Fin 2) Nat).AllSteps (fun s a => ¬ Swallowed s a) (start 1 (Fin 2) Nat)
        [.enqueue 0 7, .producer 0, .producerNotify 0 none] :=
  never_stuck_iff_never_swallowed ⟨1, 1⟩ (by decide) _

/-- One worker and room for one task: the second producer blocks on the full queue
and takes the notification of the first, finds no space and sleeps again. -/
def swallowingRun : List (Action 1 (Fin 2) Nat) :=
  [.worker 0, .enqueue 0 7, .producer 0, .enqueue 1 8, .producer 1,
    .producerNotify 0 (some (.inr 1)), .producer 1]

theorem stuck_with_one_worker : ¬ NeverStuck ⟨1, 1⟩ (Fin 2) Nat := by
  intro never
  refine never _ (Machine.reachable_of_run swallowingRun rfl) ⟨rfl, ?_, ?_, ?_⟩
  · exact List.cons_ne_nil _ _
  · intro w
    have only : w = 0 := Subsingleton.elim _ _
    subst only
    exact ⟨rfl, by decide⟩
  · decide

end CommonUtils.ThreadPool
