import CommonUtils.Library.Progress
import CommonUtils.ThreadPool.Late

/-! `~ThreadPool` returns: whichever thread goes on, however notifications and spurious wakeups
fall, the workers drain the queue and leave, and the joins come to an end. The tasks return. -/

namespace CommonUtils.ThreadPool

variable {n : Nat} {ρ T : Type*}

def Worker.remaining : Worker T → Nat
  | .running _ _ => 3
  | .finishing => 2
  | .entering | .waiting => 1
  | .exited => 0

def Destructor.remaining (n : Nat) : Destructor → Nat
  | .notStarted => n + 3
  | .notifying => n + 2
  | .joining i => n - i + 1
  | .done => 0

def State.remaining (s : State n ρ T) : Nat :=
  3 * s.tasks.length + Machine.total (fun _ => Worker.remaining) s.workers + s.condition.card +
    s.destructor.remaining n

def Finished (s : State n ρ T) : Prop :=
  s.destructor = .done ∧ ∀ k < s.accepted.length, k ∈ s.executed.map Prod.snd

theorem remaining_of_ready {s : State n ρ T} {w : Fin n} (ready : WorkerReady s w) :
    (s.workers w).remaining = 1 := by
  rcases ready with pc | ⟨pc, _⟩ <;> rw [pc] <;> rfl

variable {cfg : Config} [DecidableEq ρ] {s s' : State cfg.threadsNum ρ T}
variable {a : Action cfg.threadsNum ρ T}

theorem begun_step (begun : s.destructor ≠ .notStarted) (taken : step cfg s a = some s') :
    s'.destructor ≠ .notStarted := by
  cases step_takes taken with
  | destroy pc => exact absurd pc begun
  | notifyAll pc | joinWorker i inside pc exited | joined i all pc => nofun
  | _ => exact begun

theorem remaining_falls (shutdown : Shutdown s) (begun : s.destructor ≠ .notStarted)
    (allowed : CallersDone s a) (taken : step cfg s a = some s') : s'.remaining < s.remaining := by
  have idle := shutdown.producers begun
  have stopped := shutdown.stopped.mpr begun
  have moves (w : Fin cfg.threadsNum) (pc : Worker T) :=
    Machine.total_update (fun _ => Worker.remaining) s.workers w pc
  cases step_takes taken with
  | enqueue p task _ => exact absurd allowed begun
  | throwStopped p task pc _ =>
      rw [idle p] at pc
      cases pc
  | push p task ready space => exact absurd (idle p) (Shutdown.busy_of_ready ready)
  | block p task ready full => exact absurd (idle p) (Shutdown.busy_of_ready ready)
  | producerNotify p woken rest pc notified =>
      rw [idle p] at pc
      cases pc
  | exit w ready empty _ =>
      have moved := moves w .exited
      rw [remaining_of_ready ready] at moved
      simp only [State.remaining, State.setWorker, Worker.remaining] at moved ⊢
      omega
  | sleep w ready empty live =>
      rw [stopped] at live
      cases live
  | dequeue w task rest ready queued =>
      have moved := moves w (.running s.dequeued.length task)
      rw [remaining_of_ready ready] at moved
      simp only [State.remaining, State.setWorker, Worker.remaining, queued,
        List.length_cons] at moved ⊢
      omega
  | execute w index task pc =>
      have moved := moves w .finishing
      rw [pc] at moved
      simp only [State.remaining, State.setWorker, Worker.remaining] at moved ⊢
      omega
  | workerNotify w woken rest pc notified =>
      have moved := moves w .entering
      have fewer := Finset.card_le_card (WaitSet.notifyOne_subset notified)
      rw [pc] at moved
      simp only [State.remaining, State.setWorker, Worker.remaining] at moved ⊢
      omega
  | spurious x rest woken =>
      rcases WaitSet.wake_eq_some.mp woken with ⟨asleep, rfl⟩
      have fewer := Finset.card_erase_lt_of_mem asleep
      simp only [State.remaining]
      omega
  | destroy pc => exact absurd pc begun
  | notifyAll pc =>
      simp only [State.remaining, pc, Destructor.remaining, Finset.card_empty]
      omega
  | joinWorker i inside pc exited =>
      simp only [State.remaining, pc, Destructor.remaining]
      omega
  | joined i all pc =>
      simp only [State.remaining, pc, Destructor.remaining]
      omega

theorem worker_moves (awake : s.condition = ∅) (w : Fin cfg.threadsNum)
    (inside : s.workers w ≠ .exited) : ∃ a, CallersDone s a ∧ (step cfg s a).isSome := by
  cases pc : s.workers w with
  | entering => exact ⟨.worker w, trivial, by simp [step, pc]⟩
  | waiting => exact ⟨.worker w, trivial, by simp [step, pc, awake]⟩
  | running index task => exact ⟨.worker w, trivial, by simp [step, pc]⟩
  | finishing =>
      exact ⟨.workerNotify w none, trivial, by simp [step, pc, awake, WaitSet.notifyOne]⟩
  | exited => exact absurd pc inside

theorem destructor_moves (shutdown : Shutdown s) (begun : s.destructor ≠ .notStarted)
    (unfinished : s.destructor ≠ .done) : ∃ a, CallersDone s a ∧ (step cfg s a).isSome := by
  cases pc : s.destructor with
  | notStarted => exact absurd pc begun
  | notifying => exact ⟨.notifyAll, trivial, by simp [step, pc]⟩
  | joining i =>
      have awake := shutdown.awake (by rw [pc]; trivial)
      by_cases inside : i < cfg.threadsNum
      · by_cases exited : s.workers ⟨i, inside⟩ = .exited
        · exact ⟨.join, trivial, by simp [step, pc, inside, exited]⟩
        · exact worker_moves awake _ exited
      · exact ⟨.join, trivial, by simp [step, pc, inside]⟩
  | done => exact absurd pc unfinished

/-- `~ThreadPool` returns, whatever the schedule, and every task accepted has been executed. -/
theorem destructor_returns (cfg : Config) (workers : 0 < cfg.threadsNum)
    (s : State cfg.threadsNum ρ T)
    (reached : (machine cfg ρ T).ReachUnder CallersDone s) (begun : s.destructor ≠ .notStarted) :
    (machine cfg ρ T).Finishes CallersDone (fun _ => 0) Finished s.remaining s := by
  have inv : Joined cfg s ∧ Shutdown s := by
    apply reached.invariant (I := fun s => Joined cfg s ∧ Shutdown s)
    · exact ⟨.start cfg ρ T, .start _ ρ T⟩
    · rintro s a s' ⟨joined, shutdown⟩ allowed taken
      exact ⟨joined.step taken, shutdown.step allowed taken⟩
  apply Machine.finishes (I := fun s => (Joined cfg s ∧ Shutdown s) ∧ s.destructor ≠ .notStarted)
  · rintro s a s' ⟨⟨joined, shutdown⟩, begun⟩ allowed taken
    exact ⟨⟨joined.step taken, shutdown.step allowed taken⟩, begun_step begun taken⟩
  · rintro s a s' ⟨⟨_, shutdown⟩, begun⟩ allowed taken
    exact remaining_falls shutdown begun allowed taken
  · rintro s ⟨⟨joined, shutdown⟩, begun⟩ short
    apply destructor_moves shutdown begun
    intro done
    have exited : ∀ w, s.workers w = .exited := fun w => shutdown.joined w (by rw [done]; trivial)
    have empty : s.tasks = [] := (shutdown.exited ⟨0, workers⟩ (exited ⟨0, workers⟩)).2
    exact short ⟨done, fun k => (joined.ledger.drained empty exited k).mpr⟩
  · exact ⟨inv, begun⟩

def stoppingRun : List (Action 1 (Fin 1) Nat) :=
  [.enqueue (Fin.last 0) 7, .producer (Fin.last 0), .producerNotify (Fin.last 0) none, .destroy]

theorem destructor_returns_one_task : ∃ s : State 1 (Fin 1) Nat, s.tasks = [7] ∧
    (machine ⟨1, 1⟩ (Fin 1) Nat).Finishes CallersDone (fun _ => 0) Finished s.remaining s :=
  ⟨_, rfl, destructor_returns ⟨1, 1⟩ (by decide) _
    (Machine.reachFrom_of_runGuarded stoppingRun .origin rfl) nofun⟩

end CommonUtils.ThreadPool
