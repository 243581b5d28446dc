import CommonUtils.ThreadPool.Wakeup

namespace CommonUtils.ThreadPool

variable {n : Nat} {ρ T : Type*}

/-- What the caller of the pool promises: the destructor starts when no `enqueue`
is in progress, and none begins afterwards. -/
def CallersDone (s : State n ρ T) : Action n ρ T → Prop
  | .destroy => ∀ p, s.producers p = .idle
  | .enqueue _ _ => s.destructor = .notStarted
  | _ => True

structure Ledger (cfg : Config) (s : State cfg.threadsNum ρ T) : Prop where
  accepted : s.accepted = s.dequeued.map Prod.snd ++ s.tasks
  count : s.curTaskNum = s.tasks.length
  bound : s.curTaskNum ≤ cfg.maxTaskNum
  running : ∀ w k task, s.workers w = .running k task →
    s.dequeued[k]? = some (w, task) ∧ k ∉ s.executed.map Prod.snd
  taken : ∀ w k task, s.dequeued[k]? = some (w, task) →
    (w, k) ∈ s.executed ∨ s.workers w = .running k task
  executed : ∀ w k, (w, k) ∈ s.executed → ∃ task, s.dequeued[k]? = some (w, task)
  once : (s.executed.map Prod.snd).Nodup

namespace Ledger

theorem start (cfg : Config) (room : 0 ≤ cfg.maxTaskNum) :
    Ledger cfg (ThreadPool.start cfg.threadsNum ρ T) where
  accepted := rfl
  count := rfl
  bound := room
  running := by intro w k task pc; cases pc
  taken := by intro w k task present; simp [ThreadPool.start] at present
  executed := by intro w k present; cases present
  once := List.nodup_nil

variable {cfg : Config} {s s' : State cfg.threadsNum ρ T}

theorem frame (ledger : Ledger cfg s) (tasks : s'.tasks = s.tasks)
    (count : s'.curTaskNum = s.curTaskNum) (accepted : s'.accepted = s.accepted)
    (dequeued : s'.dequeued = s.dequeued) (executed : s'.executed = s.executed)
    (running : ∀ w k task, s'.workers w = .running k task ↔ s.workers w = .running k task) :
    Ledger cfg s' where
  accepted := by rw [accepted, dequeued, tasks]; exact ledger.accepted
  count := by rw [count, tasks]; exact ledger.count
  bound := by rw [count]; exact ledger.bound
  running := by
    intro w k task pc
    rw [dequeued, executed]
    exact ledger.running w k task ((running w k task).mp pc)
  taken := by
    intro w k task present
    rw [dequeued] at present
    rw [executed, running]
    exact ledger.taken w k task present
  executed := by
    intro w k present
    rw [executed] at present
    rw [dequeued]
    exact ledger.executed w k present
  once := by rw [executed]; exact ledger.once

theorem running_update {w : Fin n} {pc : Worker T} {workers : Fin n → Worker T}
    (before : ∀ k task, workers w ≠ .running k task) (after : ∀ k task, pc ≠ .running k task)
    (v : Fin n) (k : Nat) (task : T) :
    Function.update workers w pc v = .running k task ↔ workers v = .running k task := by
  by_cases same : v = w
  · subst same
    simp [before, after]
  · simp [same]

theorem not_running_of_ready {w : Fin n} {s : State n ρ T} (ready : WorkerReady s w) (k : Nat)
    (task : T) : s.workers w ≠ .running k task := by
  rcases ready with pc | ⟨pc, _⟩ <;> simp [pc]

theorem push (ledger : Ledger cfg s) (task : T) (space : s.curTaskNum < cfg.maxTaskNum)
    (tasks : s'.tasks = s.tasks ++ [task]) (count : s'.curTaskNum = s.curTaskNum + 1)
    (accepted : s'.accepted = s.accepted ++ [task]) (dequeued : s'.dequeued = s.dequeued)
    (executed : s'.executed = s.executed) (workers : s'.workers = s.workers) :
    Ledger cfg s' where
  accepted := by rw [accepted, dequeued, tasks, ledger.accepted, List.append_assoc]
  count := by rw [count, tasks, ledger.count]; simp
  bound := by rw [count]; omega
  running := by rw [workers, dequeued, executed]; exact ledger.running
  taken := by rw [workers, dequeued, executed]; exact ledger.taken
  executed := by rw [dequeued, executed]; exact ledger.executed
  once := by rw [executed]; exact ledger.once

theorem dequeue (ledger : Ledger cfg s) {w : Fin cfg.threadsNum} {task : T} {rest : List T}
    (ready : WorkerReady s w) (queued : s.tasks = task :: rest) :
    Ledger cfg { s.setWorker w (.running s.dequeued.length task) with
      tasks := rest
      curTaskNum := s.curTaskNum - 1
      dequeued := s.dequeued ++ [(w, task)] } where
  accepted := by simp [State.setWorker, ledger.accepted, queued]
  count := by
    have count := ledger.count
    simp only [queued, List.length_cons] at count
    simp only
    omega
  bound := by
    have bound := ledger.bound
    simp only
    omega
  running := by
    intro v k other pc
    by_cases same : v = w
    · subst same
      simp only [State.setWorker, Function.update_self, Worker.running.injEq] at pc
      obtain ⟨rfl, rfl⟩ := pc
      refine ⟨by simp, fun present => ?_⟩
      obtain ⟨⟨u, k⟩, member, rfl⟩ := List.mem_map.mp present
      obtain ⟨_, found⟩ := ledger.executed u _ member
      simp at found
    · simp only [State.setWorker, Function.update_of_ne same] at pc
      obtain ⟨found, fresh⟩ := ledger.running v k other pc
      exact ⟨by rw [List.getElem?_append_left (List.getElem?_eq_some_iff.mp found).1]; exact found,
        fresh⟩
  taken := by
    intro v k other present
    by_cases inside : k < s.dequeued.length
    · rw [List.getElem?_append_left inside] at present
      rcases ledger.taken v k other present with done | pc
      · exact .inl done
      · refine .inr ?_
        have different : v ≠ w := by
          rintro rfl
          exact not_running_of_ready ready k other pc
        simpa [State.setWorker, different] using pc
    · have last : k = s.dequeued.length := by
        have bound := (List.getElem?_eq_some_iff.mp present).1
        simp only [List.length_append, List.length_singleton] at bound
        omega
      subst last
      simp only [List.getElem?_concat_length, Option.some.injEq, Prod.mk.injEq] at present
      obtain ⟨rfl, rfl⟩ := present
      exact .inr (by simp [State.setWorker])
  executed := by
    intro v k member
    obtain ⟨other, found⟩ := ledger.executed v k member
    exact ⟨other, by
      rw [List.getElem?_append_left (List.getElem?_eq_some_iff.mp found).1]; exact found⟩
  once := ledger.once

theorem execute (ledger : Ledger cfg s) {w : Fin cfg.threadsNum} {index : Nat} {task : T}
    (pc : s.workers w = .running index task) :
    Ledger cfg { s.setWorker w .finishing with executed := s.executed ++ [(w, index)] } where
  accepted := ledger.accepted
  count := ledger.count
  bound := ledger.bound
  running := by
    intro v k other running
    have different : v ≠ w := by
      rintro rfl
      simp [State.setWorker] at running
    simp only [State.setWorker, Function.update_of_ne different] at running
    obtain ⟨found, fresh⟩ := ledger.running v k other running
    refine ⟨found, ?_⟩
    simp only [List.map_append, List.map_cons, List.map_nil, List.mem_append, List.mem_singleton,
      not_or]
    refine ⟨fresh, ?_⟩
    rintro rfl
    have mine := (ledger.running w k task pc).1
    rw [found] at mine
    exact different (Prod.mk.inj (Option.some.inj mine)).1
  taken := by
    intro v k other present
    rcases ledger.taken v k other present with done | running
    · exact .inl (List.mem_append_left _ done)
    · by_cases same : v = w
      · subst same
        rw [pc] at running
        obtain ⟨rfl, rfl⟩ := Worker.running.inj running
        exact .inl (by simp)
      · exact .inr (by simpa [State.setWorker, same] using running)
  executed := by
    intro v k member
    rcases List.mem_append.mp member with done | now
    · exact ledger.executed v k done
    · obtain ⟨rfl, rfl⟩ := Prod.mk.inj (List.mem_singleton.mp now)
      exact ⟨task, (ledger.running v k task pc).1⟩
  once := by
    simp only [List.map_append, List.map_cons, List.map_nil]
    exact List.nodup_append.mpr ⟨ledger.once, List.nodup_singleton _, by
      rintro k done _ now rfl
      rw [List.mem_singleton] at now
      subst now
      exact (ledger.running w k task pc).2 done⟩

variable [DecidableEq ρ]

theorem step {a : Action cfg.threadsNum ρ T} (ledger : Ledger cfg s)
    (taken : ThreadPool.step cfg s a = some s') : Ledger cfg s' := by
  cases step_takes taken with
  | push p task ready space => exact ledger.push task space rfl rfl rfl rfl rfl rfl
  | dequeue w task rest ready queued => exact ledger.dequeue ready queued
  | execute w index task pc => exact ledger.execute pc
  | exit w ready empty stopped =>
      exact ledger.frame rfl rfl rfl rfl rfl
        (running_update (not_running_of_ready ready) (by simp))
  | sleep w ready empty live =>
      exact ledger.frame rfl rfl rfl rfl rfl
        (running_update (not_running_of_ready ready) (by simp))
  | workerNotify w woken rest pc notified =>
      exact ledger.frame rfl rfl rfl rfl rfl (running_update (by simp [pc]) (by simp))
  | _ => exact ledger.frame rfl rfl rfl rfl rfl fun _ _ _ => Iff.rfl

end Ledger

def Destructor.joined : Destructor → Nat → Prop
  | .joining i, j => j < i
  | .done, _ => True
  | _, _ => False

def Destructor.notified : Destructor → Prop
  | .joining _ | .done => True
  | _ => False

structure Shutdown (s : State n ρ T) : Prop where
  stopped : s.stopPool = true ↔ s.destructor ≠ .notStarted
  producers : s.destructor ≠ .notStarted → ∀ p, s.producers p = .idle
  exited : ∀ w, s.workers w = .exited → s.stopPool = true ∧ s.tasks = []
  joined : ∀ w : Fin n, s.destructor.joined w → s.workers w = .exited
  awake : s.destructor.notified → s.condition = ∅

namespace Shutdown

theorem start (n : Nat) (ρ T : Type*) : Shutdown (ThreadPool.start n ρ T) where
  stopped := by simp [ThreadPool.start]
  producers := fun begun => absurd rfl begun
  exited := by intro w pc; cases pc
  joined := fun _ joined => joined.elim
  awake := fun notified => notified.elim

variable {s s' : State n ρ T}

theorem not_started_of_busy (shutdown : Shutdown s) {p : ρ} (busy : s.producers p ≠ .idle) :
    s.destructor = .notStarted := by
  by_contra begun
  exact busy (shutdown.producers begun p)

theorem live_of_not_started (shutdown : Shutdown s) (waiting : s.destructor = .notStarted) :
    s.stopPool = false := by
  have stopped := shutdown.stopped
  rw [waiting] at stopped
  simpa using stopped

theorem busy_of_ready {p : ρ} {task : T} (ready : ProducerReady s p task) :
    s.producers p ≠ .idle := by
  rcases ready with ⟨pc, _⟩ | ⟨pc, _⟩ <;> simp [pc]

theorem not_exited_of_ready {w : Fin n} (ready : WorkerReady s w) : s.workers w ≠ .exited := by
  rcases ready with pc | ⟨pc, _⟩ <;> simp [pc]

theorem of_not_started (waiting : s'.destructor = .notStarted) (live : s'.stopPool = false)
    (running : ∀ w, s'.workers w ≠ .exited) : Shutdown s' where
  stopped := by simp [waiting, live]
  producers := fun begun => absurd waiting begun
  exited := fun w pc => absurd pc (running w)
  joined := fun w joined => by rw [waiting] at joined; exact joined.elim
  awake := fun notified => by rw [waiting] at notified; exact notified.elim

theorem running_of_not_started (shutdown : Shutdown s) (waiting : s.destructor = .notStarted)
    (w : Fin n) : s.workers w ≠ .exited := by
  intro pc
  have stopped := (shutdown.exited w pc).1
  rw [shutdown.live_of_not_started waiting] at stopped
  cases stopped

theorem move (shutdown : Shutdown s) {w : Fin n} {pc : Worker T} (before : s.workers w ≠ .exited)
    (after : pc ≠ .exited) (workers : s'.workers = Function.update s.workers w pc)
    (stopPool : s'.stopPool = s.stopPool) (destructor : s'.destructor = s.destructor)
    (producers : s'.producers = s.producers) (tasks : s.tasks = [] → s'.tasks = [])
    (condition : s.condition = ∅ → s.destructor.notified → s'.condition = ∅) : Shutdown s' where
  stopped := by rw [stopPool, destructor]; exact shutdown.stopped
  producers := by rw [destructor, producers]; exact shutdown.producers
  exited := by
    intro v exited
    have different : v ≠ w := by
      rintro rfl
      rw [workers, Function.update_self] at exited
      exact after exited
    rw [workers, Function.update_of_ne different] at exited
    rw [stopPool]
    exact ⟨(shutdown.exited v exited).1, tasks (shutdown.exited v exited).2⟩
  joined := by
    intro v joined
    rw [destructor] at joined
    have exited := shutdown.joined v joined
    have different : v ≠ w := by
      rintro rfl
      exact before exited
    rw [workers, Function.update_of_ne different]
    exact exited
  awake := by
    intro notified
    rw [destructor] at notified
    exact condition (shutdown.awake notified) notified

theorem advance {destructor : Destructor} (shutdown : Shutdown s)
    (begun : s.destructor ≠ .notStarted) (more : destructor ≠ .notStarted)
    (condition : Finset (Waiter n ρ))
    (joined : ∀ w : Fin n, destructor.joined w → s.workers w = .exited)
    (awake : destructor.notified → condition = ∅) :
    Shutdown { s with condition, destructor } where
  stopped := by simp [shutdown.stopped.mpr begun, more]
  producers := fun _ => shutdown.producers begun
  exited := shutdown.exited
  joined := joined
  awake := awake

theorem empty_of_subset {x y : Finset (Waiter n ρ)} (smaller : x ⊆ y) (empty : y = ∅) : x = ∅ :=
  Finset.subset_empty.mp (empty ▸ smaller)

end Shutdown

namespace Shutdown

variable {cfg : Config} [DecidableEq ρ] {s s' : State cfg.threadsNum ρ T}

theorem step {a : Action cfg.threadsNum ρ T} (shutdown : Shutdown s) (allowed : CallersDone s a)
    (taken : ThreadPool.step cfg s a = some s') : Shutdown s' := by
  cases step_takes taken with
  | enqueue p task idle =>
      have waiting : s.destructor = .notStarted := allowed
      exact .of_not_started waiting (shutdown.live_of_not_started waiting)
        (shutdown.running_of_not_started waiting)
  | throwStopped p task pc stopped =>
      have waiting := shutdown.not_started_of_busy (p := p) (by simp [pc])
      rw [shutdown.live_of_not_started waiting] at stopped
      cases stopped
  | push p task ready space =>
      have waiting := shutdown.not_started_of_busy (busy_of_ready ready)
      exact .of_not_started waiting (shutdown.live_of_not_started waiting)
        (shutdown.running_of_not_started waiting)
  | block p task ready full =>
      have waiting := shutdown.not_started_of_busy (busy_of_ready ready)
      exact .of_not_started waiting (shutdown.live_of_not_started waiting)
        (shutdown.running_of_not_started waiting)
  | producerNotify p woken rest pc notified =>
      have waiting := shutdown.not_started_of_busy (p := p) (by simp [pc])
      exact .of_not_started waiting (shutdown.live_of_not_started waiting)
        (shutdown.running_of_not_started waiting)
  | exit w ready empty stopped =>
      refine { shutdown with exited := fun v _ => ⟨stopped, empty⟩, joined := fun v joined => ?_ }
      by_cases same : v = w
      · simp [State.setWorker, same]
      · simpa [State.setWorker, same] using shutdown.joined v joined
  | sleep w ready empty live =>
      refine shutdown.move (not_exited_of_ready ready) (by simp) rfl rfl rfl rfl id ?_
      intro _ notified
      have begun : s.destructor ≠ .notStarted := by rintro pc; rw [pc] at notified; exact notified
      rw [shutdown.stopped.mpr begun] at live
      cases live
  | dequeue w task rest ready queued =>
      exact shutdown.move (not_exited_of_ready ready) (by simp) rfl rfl rfl rfl
        (fun empty => by rw [queued] at empty; cases empty) fun empty _ => empty
  | execute w index task pc =>
      exact shutdown.move (w := w) (by simp [pc]) (by simp) rfl rfl rfl rfl id fun empty _ => empty
  | workerNotify w woken rest pc notified =>
      exact shutdown.move (w := w) (by simp [pc]) (by simp) rfl rfl rfl rfl id
        fun empty _ => empty_of_subset (WaitSet.notifyOne_subset notified) empty
  | spurious x rest woken =>
      exact { shutdown with
        awake := fun notified =>
          empty_of_subset (WaitSet.wake_subset woken) (shutdown.awake notified) }
  | destroy pc =>
      exact {
        stopped := by simp
        producers := fun _ => allowed
        exited := fun w exited => absurd exited (shutdown.running_of_not_started pc w)
        joined := fun w joined => joined.elim
        awake := fun notified => notified.elim }
  | notifyAll pc =>
      apply shutdown.advance (by simp [pc]) (by simp) ∅
      · exact fun w joined => absurd joined (Nat.not_lt_zero _)
      · exact fun _ => rfl
  | joinWorker i inside pc exited =>
      apply shutdown.advance (by simp [pc]) (by simp) s.condition
      · intro w joined
        rcases Nat.lt_succ_iff_lt_or_eq.mp joined with earlier | now
        · exact shutdown.joined w (by rw [pc]; exact earlier)
        · have same : w = ⟨i, inside⟩ := Fin.ext now
          rw [same]
          exact exited
      · exact fun _ => shutdown.awake (by rw [pc]; trivial)
  | joined i all pc =>
      apply shutdown.advance (by simp [pc]) (by simp) s.condition
      · exact fun w _ => shutdown.joined w (by rw [pc]; exact lt_of_lt_of_le w.isLt all)
      · exact fun _ => shutdown.awake (by rw [pc]; trivial)

end Shutdown

/-- What the pool promises about its tasks. `dequeued` numbers the tasks in the
order the workers took them. -/
structure RunsOnce (cfg : Config) (s : State cfg.threadsNum ρ T) : Prop where
  in_order : s.accepted = s.dequeued.map Prod.snd ++ s.tasks
  count : s.curTaskNum = s.tasks.length ∧ 0 ≤ s.curTaskNum ∧ s.curTaskNum ≤ cfg.maxTaskNum
  at_most_once : (s.executed.map Prod.snd).Nodup
  by_its_taker : ∀ w k, (w, k) ∈ s.executed → ∃ task, s.dequeued[k]? = some (w, task)
  in_hand : ∀ w k task, s.dequeued[k]? = some (w, task) →
    ((w, k) ∈ s.executed ↔ s.workers w ≠ .running k task)
  awake : s.destructor.notified → ∀ w, ¬ WorkerAsleep s w
  drained : s.destructor = .done → s.accepted.length = s.executed.length ∧
    ∀ k < s.accepted.length, k ∈ s.executed.map Prod.snd

theorem Ledger.drained {cfg : Config} {s : State cfg.threadsNum ρ T} (ledger : Ledger cfg s)
    (empty : s.tasks = []) (exited : ∀ w, s.workers w = .exited) :
    ∀ k, k ∈ s.executed.map Prod.snd ↔ k < s.accepted.length := by
  have all : s.accepted.length = s.dequeued.length := by simp [ledger.accepted, empty]
  intro k
  rw [all]
  constructor
  · intro member
    obtain ⟨⟨w, k⟩, present, rfl⟩ := List.mem_map.mp member
    obtain ⟨task, found⟩ := ledger.executed w k present
    exact (List.getElem?_eq_some_iff.mp found).1
  · intro inside
    rcases ledger.taken _ k _ (List.getElem?_eq_getElem inside) with done | running
    · exact List.mem_map_of_mem done
    · rw [exited] at running
      cases running

theorem Ledger.executed_length {cfg : Config} {s : State cfg.threadsNum ρ T}
    (ledger : Ledger cfg s) (empty : s.tasks = []) (exited : ∀ w, s.workers w = .exited) :
    s.accepted.length = s.executed.length := by
  have same : (s.executed.map Prod.snd).Perm (List.range s.accepted.length) := by
    rw [List.perm_ext_iff_of_nodup ledger.once List.nodup_range]
    intro k
    rw [ledger.drained empty exited, List.mem_range]
  simpa using same.length_eq.symm

variable [DecidableEq ρ]

theorem runs_once (cfg : Config) (workers : 0 < cfg.threadsNum) (room : 0 ≤ cfg.maxTaskNum)
    (s : State cfg.threadsNum ρ T) (reached : (machine cfg ρ T).ReachUnder CallersDone s) :
    RunsOnce cfg s := by
  obtain ⟨ledger, shutdown⟩ : Ledger cfg s ∧ Shutdown s := by
    apply reached.invariant (I := fun s => Ledger cfg s ∧ Shutdown s)
    · exact ⟨.start cfg room, .start _ ρ T⟩
    · rintro s a s' ⟨ledger, shutdown⟩ allowed taken
      exact ⟨ledger.step taken, shutdown.step allowed taken⟩
  refine ⟨ledger.accepted, ⟨ledger.count, ?_, ledger.bound⟩, ledger.once, ledger.executed,
    ?_, ?_, ?_⟩
  · rw [ledger.count]
    exact Int.natCast_nonneg _
  · intro w k task found
    constructor
    · intro done running
      exact (ledger.running w k task running).2 (List.mem_map_of_mem done)
    · exact (ledger.taken w k task found).resolve_right
  · intro notified w asleep
    have member := asleep.2
    rw [shutdown.awake notified] at member
    exact Finset.notMem_empty _ member
  · intro done
    have exited : ∀ w, s.workers w = .exited := fun w => shutdown.joined w (by rw [done]; trivial)
    have empty : s.tasks = [] := (shutdown.exited ⟨0, workers⟩ (exited ⟨0, workers⟩)).2
    exact ⟨ledger.executed_length empty exited, fun k => (ledger.drained empty exited k).mpr⟩

instance [Fintype ρ] [DecidableEq T] (s : State n ρ T) :
    (a : Action n ρ T) → Decidable (CallersDone s a)
  | .destroy => inferInstanceAs (Decidable (∀ p, s.producers p = .idle))
  | .enqueue _ _ => inferInstanceAs (Decidable (s.destructor = .notStarted))
  | .producer _ | .producerNotify _ _ | .worker _ | .workerNotify _ _ | .spurious _ | .notifyAll
  | .join => isTrue trivial

def drainingRun : List (Action 1 (Fin 1) Nat) :=
  let p : Fin 1 := Fin.last 0
  let w : Fin 1 := Fin.last 0
  [.worker w, .enqueue p 7, .producer p, .producerNotify p (some (.inl w)), .worker w, .worker w,
    .workerNotify w none, .worker w, .destroy, .notifyAll, .worker w, .join, .join]

theorem runs_once_one_worker :
    ∃ s : State 1 (Fin 1) Nat, s.destructor = .done ∧ s.accepted = [7] ∧ RunsOnce ⟨1, 1⟩ s :=
  ⟨_, rfl, rfl, runs_once ⟨1, 1⟩ (by decide) (by decide) _
    (Machine.reachFrom_of_runGuarded drainingRun .origin rfl)⟩

end CommonUtils.ThreadPool
