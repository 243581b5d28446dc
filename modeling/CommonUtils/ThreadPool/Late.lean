import CommonUtils.ThreadPool.Drain

/-! Tasks accepted too late. `enqueue` tests the stop flag before it waits for space and
not after, so that a producer that waits as the last worker leaves comes through for nobody. -/

namespace CommonUtils.ThreadPool

variable {n : Nat} {ρ T : Type*}

/-- No task is queued for workers that have all left their loop, and at the end of the
destructor every accepted task has been executed. -/
structure RunsAll (s : State n ρ T) : Prop where
  left : (∀ w, s.workers w = .exited) → s.tasks = []
  executed : s.destructor = .done → ∀ k < s.accepted.length, k ∈ s.executed.map Prod.snd

def Producer.waits : Producer T → Bool
  | .waiting _ => true
  | _ => false

/-- The last worker leaves its loop while a call of `enqueue`, its test of the stop flag behind
it, is still to append its task. -/
def Deserts (cfg : Config) (s : State cfg.threadsNum ρ T) : Action cfg.threadsNum ρ T → Prop
  | .worker w => WorkerReady s w ∧ s.stopPool = true ∧ s.tasks = [] ∧
      (∀ v, v ≠ w → s.workers v = .exited) ∧
        0 < cfg.maxTaskNum ∧ ∃ p, (s.producers p).waits = true
  | _ => False

/-- The configuration that a negative limit amounts to. -/
def Config.clamped (cfg : Config) : Config := { cfg with maxTaskNum := max 0 cfg.maxTaskNum }

structure Joined (cfg : Config) (s : State cfg.threadsNum ρ T) : Prop where
  ledger : Ledger cfg.clamped s
  exited : ∀ w : Fin cfg.threadsNum, s.destructor.joined w → s.workers w = .exited

namespace Joined

theorem start (cfg : Config) (ρ T : Type*) : Joined cfg (ThreadPool.start cfg.threadsNum ρ T) where
  ledger := .start cfg.clamped (le_max_left _ _)
  exited := fun _ joined => joined.elim

variable {cfg : Config} {s s' : State cfg.threadsNum ρ T}

theorem executed (inv : Joined cfg s) (empty : (∀ w, s.workers w = .exited) → s.tasks = [])
    (done : s.destructor = .done) : ∀ k < s.accepted.length, k ∈ s.executed.map Prod.snd := by
  have exited : ∀ w, s.workers w = .exited := by
    intro w
    apply inv.exited
    rw [done]
    trivial
  exact fun k => (inv.ledger.drained (empty exited) exited k).mpr

theorem runsAll_iff (inv : Joined cfg s) :
    RunsAll s ↔ ((∀ w, s.workers w = .exited) → s.tasks = []) :=
  ⟨RunsAll.left, fun empty => ⟨empty, inv.executed empty⟩⟩

theorem exited_of_update {w : Fin cfg.threadsNum} {pc : Worker T}
    (inv : Joined cfg s) (inside : s.workers w ≠ .exited)
    (workers : s'.workers = Function.update s.workers w pc)
    (destructor : s'.destructor = s.destructor) (v : Fin cfg.threadsNum)
    (joined : s'.destructor.joined v) : s'.workers v = .exited := by
  rw [destructor] at joined
  have before := inv.exited v joined
  have different : v ≠ w := by
    intro same
    rw [same] at before
    exact inside before
  rw [workers, Function.update_of_ne different]
  exact before

variable [DecidableEq ρ]

theorem producerSection_clamped (count : 0 ≤ s.curTaskNum) (p : ρ) (task : T) :
    s.producerSection cfg.clamped p task = s.producerSection cfg p task := by
  have space : s.curTaskNum < cfg.clamped.maxTaskNum ↔ s.curTaskNum < cfg.maxTaskNum := by
    simp only [Config.clamped]
    omega
  simp only [State.producerSection, space]

theorem step_clamped (ledger : Ledger cfg.clamped s) (a : Action cfg.threadsNum ρ T) :
    ThreadPool.step cfg.clamped s a = ThreadPool.step cfg s a := by
  have count : 0 ≤ s.curTaskNum := by
    rw [ledger.count]
    exact Int.natCast_nonneg _
  cases a with
  | producer p =>
      cases pc : s.producers p with
      | entering task =>
          simp only [ThreadPool.step, pc]
          exact congrArg
            (fun next => if s.stopPool then some (s.throwStopped p task) else some next)
            (producerSection_clamped count p task)
      | waiting task =>
          simp only [ThreadPool.step, pc]
          exact congrArg (fun next => if .inr p ∈ s.condition then none else some next)
            (producerSection_clamped count p task)
      | idle | notifying =>
          simp only [ThreadPool.step, pc]
          rfl
  | _ => rfl

theorem step {a : Action cfg.threadsNum ρ T} (inv : Joined cfg s)
    (taken : ThreadPool.step cfg s a = some s') : Joined cfg s' := by
  refine ⟨inv.ledger.step ((step_clamped inv.ledger a).trans taken), ?_⟩
  cases step_takes taken with
  | exit w ready empty stopped =>
      exact inv.exited_of_update (Shutdown.not_exited_of_ready ready) rfl rfl
  | sleep w ready empty live =>
      exact inv.exited_of_update (Shutdown.not_exited_of_ready ready) rfl rfl
  | dequeue w task rest ready queued =>
      exact inv.exited_of_update (Shutdown.not_exited_of_ready ready) rfl rfl
  | execute w index task pc => exact inv.exited_of_update (by simp [pc]) rfl rfl
  | workerNotify w woken rest pc notified => exact inv.exited_of_update (by simp [pc]) rfl rfl
  | destroy pc => exact fun w joined => joined.elim
  | notifyAll pc => exact fun w joined => absurd joined (Nat.not_lt_zero _)
  | joinWorker i inside pc exited =>
      intro w joined
      rcases Nat.lt_succ_iff_lt_or_eq.mp joined with earlier | now
      · exact inv.exited w (by rw [pc]; exact earlier)
      · have same : w = ⟨i, inside⟩ := Fin.ext now
        rw [same]
        exact exited
  | joined i all pc =>
      exact fun w _ => inv.exited w (by rw [pc]; exact lt_of_lt_of_le w.isLt all)
  | _ => exact inv.exited

end Joined

variable [DecidableEq ρ] {cfg : Config} {s s' : State cfg.threadsNum ρ T}

structure Closed (cfg : Config) (s : State cfg.threadsNum ρ T) : Prop where
  stopped : ∀ w, s.workers w = .exited → s.stopPool = true
  empty : (∀ w, s.workers w = .exited) → s.tasks = []
  quiet : (∀ w, s.workers w = .exited) → 0 < cfg.maxTaskNum →
    ∀ p, (s.producers p).waits = false

namespace Closed

omit [DecidableEq ρ] in
theorem start (workers : 0 < cfg.threadsNum) :
    Closed cfg (ThreadPool.start cfg.threadsNum ρ T) where
  stopped := by
    intro w exited
    cases exited
  empty := fun _ => rfl
  quiet := by
    intro exited
    cases exited ⟨0, workers⟩

omit [DecidableEq ρ] in
theorem move (closed : Closed cfg s) {w : Fin cfg.threadsNum} {pc : Worker T}
    (inside : pc ≠ .exited) (workers : s'.workers = Function.update s.workers w pc)
    (stopPool : s'.stopPool = s.stopPool) : Closed cfg s' := by
  have here : ¬ ∀ v, s'.workers v = .exited := by
    intro exited
    have mine := exited w
    rw [workers, Function.update_self] at mine
    exact inside mine
  refine ⟨?_, fun exited => absurd exited here, fun exited => absurd exited here⟩
  intro v exited
  rw [stopPool]
  by_cases same : v = w
  · subst same
    rw [workers, Function.update_self] at exited
    exact absurd exited inside
  · rw [workers, Function.update_of_ne same] at exited
    exact closed.stopped v exited

theorem moveProducer (closed : Closed cfg s) {p : ρ} {pc : Producer T}
    (elsewhere : pc.waits = false)
    (producers : s'.producers = Function.update s.producers p pc)
    (workers : s'.workers = s.workers) (stopPool : s'.stopPool = s.stopPool)
    (tasks : s'.tasks = s.tasks) : Closed cfg s' := by
  refine ⟨by rw [workers, stopPool]; exact closed.stopped,
    by rw [workers, tasks]; exact closed.empty, ?_⟩
  intro exited room q
  rw [workers] at exited
  rw [producers]
  by_cases same : q = p
  · subst same
    rw [Function.update_self]
    exact elsewhere
  · rw [Function.update_of_ne same]
    exact closed.quiet exited room q

omit [DecidableEq ρ] in
/-- Behind the last worker no call of `enqueue` comes to its wait for space. -/
theorem not_ready (closed : Closed cfg s) (workers : 0 < cfg.threadsNum)
    (room : 0 < cfg.maxTaskNum) (exited : ∀ w, s.workers w = .exited) (p : ρ) (task : T) :
    ¬ ProducerReady s p task := by
  rintro (⟨_, live⟩ | ⟨waiting, _⟩)
  · rw [closed.stopped _ (exited ⟨0, workers⟩)] at live
    cases live
  · have moved := closed.quiet exited room p
    rw [waiting] at moved
    cases moved

theorem step {a : Action cfg.threadsNum ρ T} (closed : Closed cfg s) (inv : Joined cfg s)
    (workers : 0 < cfg.threadsNum) (stays : ¬ Deserts cfg s a)
    (taken : ThreadPool.step cfg s a = some s') : Closed cfg s' := by
  cases step_takes taken with
  | enqueue p task idle => exact closed.moveProducer rfl rfl rfl rfl rfl
  | throwStopped p task pc stopped => exact closed.moveProducer rfl rfl rfl rfl rfl
  | producerNotify p woken rest pc notified => exact closed.moveProducer rfl rfl rfl rfl rfl
  | push p task ready space =>
      have count : 0 ≤ s.curTaskNum := by
        rw [inv.ledger.count]
        exact Int.natCast_nonneg _
      have inside : ¬ ∀ w, s.workers w = .exited := fun exited =>
        closed.not_ready workers (by omega) exited p task ready
      exact ⟨closed.stopped, fun exited => absurd exited inside,
        fun exited => absurd exited inside⟩
  | block p task ready full =>
      refine ⟨closed.stopped, closed.empty, ?_⟩
      intro exited room
      exact absurd ready (closed.not_ready workers room exited p task)
  | exit w ready empty stopped =>
      refine ⟨fun _ _ => stopped, fun _ => empty, ?_⟩
      intro exited room p
      by_contra waiting
      rw [Bool.not_eq_false] at waiting
      apply stays
      refine ⟨ready, stopped, empty, ?_, room, p, waiting⟩
      intro v different
      exact (Function.update_of_ne different _ _).symm.trans (exited v)
  | sleep w ready empty live => exact closed.move (by simp) rfl rfl
  | dequeue w task rest ready queued => exact closed.move (by simp) rfl rfl
  | execute w index task pc => exact closed.move (by simp) rfl rfl
  | workerNotify w woken rest pc notified => exact closed.move (by simp) rfl rfl
  | destroy pc => exact ⟨fun _ _ => rfl, closed.empty, closed.quiet⟩
  | spurious | notifyAll | joinWorker | joined =>
      exact ⟨closed.stopped, closed.empty, closed.quiet⟩

end Closed

/-- A pool with a worker leaves no accepted task behind, in any run in which the last worker
never leaves while a call of `enqueue` waits for space. -/
theorem runs_all_of_never_deserts (cfg : Config) (workers : 0 < cfg.threadsNum)
    (s : State cfg.threadsNum ρ T)
    (reached : (machine cfg ρ T).ReachUnder (fun s a => ¬ Deserts cfg s a) s) : RunsAll s := by
  have both : Joined cfg s ∧ Closed cfg s := by
    apply reached.invariant (I := fun s => Joined cfg s ∧ Closed cfg s)
    · exact ⟨.start cfg ρ T, .start workers⟩
    · rintro s a s' ⟨inv, closed⟩ stays taken
      exact ⟨inv.step taken, closed.step inv workers stays taken⟩
  exact both.1.runsAll_iff.mpr both.2.empty

def BegunBefore {n : Nat} (s : State n ρ T) : Action n ρ T → Prop
  | .enqueue _ _ => s.destructor = .notStarted
  | _ => True

/-- Where the last worker does leave so, the call that waits can append its task for nobody. -/
theorem not_runsAll_of_deserts {w : Fin cfg.threadsNum} (inv : Joined cfg s)
    (deserts : Deserts cfg s (.worker w)) (taken : step cfg s (.worker w) = some s') :
    ∃ s'', (machine cfg ρ T).ReachFrom BegunBefore s' s'' ∧ ¬ RunsAll s'' := by
  rcases deserts with ⟨ready, stopped, empty, others, room, p, waits⟩
  have gone : s' = s.setWorker w .exited := by
    cases step_takes taken with
    | exit => rfl
    | sleep _ _ _ live =>
        rw [stopped] at live
        cases live
    | dequeue _ _ _ _ queued =>
        rw [empty] at queued
        cases queued
    | execute _ index task pc => exact absurd pc (Ledger.not_running_of_ready ready index task)
  have exited : ∀ v, s'.workers v = .exited := by
    intro v
    rw [gone]
    by_cases same : v = w
    · subst same
      exact Function.update_self _ _ _
    · exact (Function.update_of_ne same _ _).trans (others v same)
  have space : s.curTaskNum < cfg.maxTaskNum := by
    rw [inv.ledger.count, empty]
    exact room
  -- the call that waits may wake at any time, with a notification or without
  have awake : ∃ rest, (machine cfg ρ T).ReachFrom BegunBefore s' { s' with condition := rest } ∧
      .inr p ∉ rest := by
    by_cases asleep : .inr p ∈ s'.condition
    · refine ⟨s'.condition.erase (.inr p), ?_, Finset.notMem_erase _ _⟩
      refine .step (.spurious (.inr p)) .origin trivial ?_
      show (WaitSet.wake s'.condition (.inr p)).map _ = _
      rw [WaitSet.wake, if_pos asleep]
      rfl
    · exact ⟨s'.condition, .origin, asleep⟩
  rcases awake with ⟨rest, woken, awake⟩
  obtain ⟨task, there⟩ : ∃ task, s'.producers p = .waiting task := by
    rw [gone]
    cases pc : s.producers p <;> rw [pc] at waits <;> cases waits
    exact ⟨_, pc⟩
  have taken' : step cfg { s' with condition := rest } (.producer p) =
      some ({ s' with condition := rest }.producerSection cfg p task) := by
    simp only [step, there, if_neg awake]
  refine ⟨_, .step (.producer p) woken trivial taken', ?_⟩
  intro runs
  have space' : s'.curTaskNum < cfg.maxTaskNum := by
    rw [gone]
    exact space
  have left := runs.left (by
    rw [State.producerSection, if_pos space']
    exact exited)
  rw [State.producerSection, if_pos space'] at left
  exact List.concat_ne_nil task s'.tasks (by simp at left)

instance {n : Nat} (s : State n ρ T) : (a : Action n ρ T) → Decidable (BegunBefore s a)
  | .enqueue _ _ => inferInstanceAs (Decidable (s.destructor = .notStarted))
  | .producer _ | .producerNotify _ _ | .worker _ | .workerNotify _ _ | .spurious _ | .destroy
  | .notifyAll | .join => isTrue trivial

def RunsAllAccepted (cfg : Config) (ρ T : Type*) [DecidableEq ρ] : Prop :=
  ∀ s, (machine cfg ρ T).ReachUnder BegunBefore s → RunsAll s

instance [Fintype ρ] [DecidableEq T] (cfg : Config) (s : State cfg.threadsNum ρ T) :
    (a : Action cfg.threadsNum ρ T) → Decidable (Deserts cfg s a)
  | .worker w => inferInstanceAs (Decidable
      ((s.workers w = .entering ∨ s.workers w = .waiting ∧ .inl w ∉ s.condition) ∧
        s.stopPool = true ∧ s.tasks = [] ∧ (∀ v, v ≠ w → s.workers v = .exited) ∧
          0 < cfg.maxTaskNum ∧ ∃ p, (s.producers p).waits = true))
  | .enqueue _ _ | .producer _ | .producerNotify _ _ | .workerNotify _ _ | .spurious _ | .destroy
  | .notifyAll | .join => isFalse id

def timelyRun : List (Action 1 (Fin 2) Nat) :=
  let p : Fin 2 := (Fin.last 0).castSucc
  let q : Fin 2 := Fin.last 1
  let w : Fin 1 := Fin.last 0
  [.enqueue p 7, .producer p, .enqueue q 8, .producer q, .destroy, .notifyAll, .worker w,
    .producer q, .worker w, .workerNotify w none, .worker w, .worker w, .workerNotify w none,
    .worker w, .join, .join]

theorem runs_all_of_never_deserts_timely : ∃ s : State 1 (Fin 2) Nat,
    s.destructor = .done ∧ s.accepted = [7, 8] ∧ RunsAll s :=
  ⟨_, rfl, rfl, runs_all_of_never_deserts ⟨1, 1⟩ (by decide) _
    (Machine.reachFrom_of_runGuarded timelyRun .origin rfl)⟩

/-- One worker and room for one task: the second producer waits for space through the
whole drain and appends its task for nobody. -/
def lateRun : List (Action 1 (Fin 2) Nat) :=
  let p : Fin 2 := (Fin.last 0).castSucc
  let q : Fin 2 := Fin.last 1
  let w : Fin 1 := Fin.last 0
  [.enqueue p 7, .producer p, .enqueue q 8, .producer q, .destroy, .notifyAll, .worker w,
    .worker w, .workerNotify w none, .worker w, .producer q, .join, .join]

theorem accepted_not_executed : ¬ RunsAllAccepted ⟨1, 1⟩ (Fin 2) Nat := by
  intro all
  have runs := all _ (Machine.reachFrom_of_runGuarded lateRun .origin rfl)
  exact absurd (runs.executed rfl 1 (by decide)) (by decide)

end CommonUtils.ThreadPool
