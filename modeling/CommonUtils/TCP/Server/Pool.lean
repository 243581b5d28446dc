import CommonUtils.TCP.Server.Lifetime

namespace CommonUtils.TCP.Server

open SessionManager (Id)

variable {τ σ δ : Type*}

/-- The pool in which an action calls `GetIOContext`, if it does. -/
def State.asked (s : State τ σ δ) (cfg : Config) (a : Action τ σ δ) : Option Pool :=
  if s.terminated then none else
  match a with
  | .construct =>
      if s.control = .unconstructed then
        some { s.pool with contexts := List.range cfg.poolSize }
      else none
  | .start =>
      if s.control = .ready then some { s.pool with running := !s.pool.contexts.isEmpty } else none
  | .acceptFailed =>
      if s.acceptor.pending ≠ [] ∧ s.pool.running = true ∧ s.acceptor.isStarted = true then
        some s.pool
      else none
  | .handleNewSession x =>
      if s.accepts x = .again ∧ s.acceptor.isStarted = true then some s.pool else none
  | _ => none

namespace Control

def stopping : Control → Bool
  | .closeAcceptor false | .stopContexts false | .join false | .clear false => true
  | _ => false

def closing : Control → Bool
  | .stopContexts _ | .join _ | .clear _ => true
  | _ => false

end Control

/-- A number of threads is asked for or reported. One more than the greatest that can be
reported wraps around. -/
def Config.HasContexts (cfg : Config) : Prop :=
  cfg.ioThreadCount ≠ 0 ∨
    cfg.hardwareConcurrency ≠ 0 ∧ cfg.hardwareConcurrency ≠ BitVec.allOnes 32

/-- `Start` is called when `Stop` was called before. -/
def Restarts (as : List (Action τ σ δ)) (a : Action τ σ δ) : Prop := a = .start ∧ .stop ∈ as

theorem Config.poolSize_ne_zero_iff (cfg : Config) : cfg.poolSize ≠ 0 ↔ cfg.HasContexts := by
  unfold Config.poolSize Config.HasContexts
  split
  · rename_i none
    have bound := cfg.hardwareConcurrency.isLt
    have halved : ((cfg.hardwareConcurrency + 1) / 2).toNat =
        (cfg.hardwareConcurrency.toNat + 1) % 2 ^ 32 / 2 := rfl
    have zero : cfg.hardwareConcurrency = 0 ↔ cfg.hardwareConcurrency.toNat = 0 :=
      BitVec.toNat_inj.symm
    have ones : cfg.hardwareConcurrency = BitVec.allOnes 32 ↔
        cfg.hardwareConcurrency.toNat = 2 ^ 32 - 1 := BitVec.toNat_inj.symm
    simp only [none, halved, ne_eq, zero, ones, not_true_eq_false, false_or]
    omega
  · rename_i some
    simp [some]

theorem touch_pool (s : State τ σ δ) (object : Object σ) : (s.touch object).pool = s.pool := by
  unfold State.touch
  split <;> rfl

variable [DecidableEq τ] [DecidableEq σ]

structure Stops (past : Prop) (s : State τ σ δ) : Prop where
  fresh : ¬ past → s.control.stopping = false
  alive : ¬ past → s.control ≠ .unconstructed → s.control.stopped = false → s.pool.contexts ≠ []
  empty : past → s.control.stopping = false → s.pool.contexts = []
  built : past → s.control ≠ .unconstructed
  closed : s.control.closing = true → s.acceptor.isStarted = false

namespace Stops

variable {cfg : Config} {s s' : State τ σ δ} {past : Prop}

omit [DecidableEq τ] [DecidableEq σ] in
theorem start (cfg : Config) (ownId : σ → Id) (created : σ → Int) (none : ¬ past) :
    Stops past (Server.start cfg τ δ ownId created) where
  fresh _ := rfl
  alive _ constructed := absurd rfl constructed
  empty some := absurd some none
  built some := absurd some none
  closed := Bool.noConfusion

omit [DecidableEq τ] [DecidableEq σ] in
theorem move {past' : Prop} (stops : Stops past s) (same : past' ↔ past)
    (constructed : s'.control = .unconstructed ↔ s.control = .unconstructed)
    (stopping : s'.control.stopping = s.control.stopping)
    (running : s'.control.stopped = false → s.control.stopped = false)
    (contexts : s'.pool.contexts = s.pool.contexts)
    (closed : s'.control.closing = true → s'.acceptor.isStarted = false) : Stops past' s' where
  fresh none := by
    rw [stopping]
    exact stops.fresh (mt same.mpr none)
  alive none built alive := by
    rw [contexts]
    exact stops.alive (mt same.mpr none) (mt constructed.mpr built) (running alive)
  empty some ended := by
    rw [stopping] at ended
    rw [contexts]
    exact stops.empty (same.mp some) ended
  built some := mt constructed.mp (stops.built (same.mp some))
  closed := closed

omit [DecidableEq τ] [DecidableEq σ] in
theorem keep {past' : Prop} (stops : Stops past s) (same : past' ↔ past)
    (control : s'.control = s.control) (contexts : s'.pool.contexts = s.pool.contexts)
    (started : s'.acceptor.isStarted = s.acceptor.isStarted) : Stops past' s' := by
  apply stops.move same
  · rw [control]
  · rw [control]
  · rw [control]
    exact id
  · exact contexts
  · rw [control, started]
    exact stops.closed

theorem step {a : Action τ σ δ} (stops : Stops past s)
    (taken : Server.step cfg s a = some s') : Stops (past ∨ .stop = a) s' := by
  cases (step_takes taken).2 with
  | construct context pool pc inside contexts running =>
      have none : ¬ (past ∨ (Action.stop : Action τ σ δ) = .construct) := by
        simpa using fun some => stops.built some pc
      refine ⟨fun _ => rfl, fun _ _ _ => ?_, fun some => absurd some none,
        fun some => absurd some none, Bool.noConfusion⟩
      rw [contexts]
      intro empty
      rw [List.range_eq_nil.mp empty] at inside
      exact Nat.not_lt_zero _ inside
  | start pool pending pc alive contexts running fed =>
      refine stops.move (by simp) Iff.rfl rfl id contexts ?_
      rw [pc]
      exact Bool.noConfusion
  | stop pc =>
      have called : past ∨ (Action.stop : Action τ σ δ) = .stop := .inr rfl
      exact ⟨fun none => absurd called none, fun none => absurd called none,
        fun _ => Bool.noConfusion, fun _ => Control.noConfusion, Bool.noConfusion⟩
  | destroy pc =>
      refine stops.move (by simp) ?_ ?_ ?_ rfl Bool.noConfusion <;>
        simp [pc, Control.stopping, Control.stopped]
  | closeAcceptor destroying pc =>
      have contexts := congrArg Pool.contexts (touch_pool s .acceptor)
      refine stops.move (by simp) ?_ ?_ ?_ contexts fun _ => rfl
      · simp [pc]
      · cases destroying <;> simp [pc, Control.stopping]
      · simp [pc, Control.stopped]
  | stopContexts destroying pc =>
      refine stops.move (by simp) ?_ ?_ ?_ rfl fun _ => stops.closed (by rw [pc]; rfl)
      · simp [pc]
      · cases destroying <;> simp [pc, Control.stopping]
      · simp [pc, Control.stopped]
  | join destroying pc out =>
      refine stops.move (by simp) ?_ ?_ ?_ rfl fun _ => stops.closed (by rw [pc]; rfl)
      · simp [pc]
      · cases destroying <;> simp [pc, Control.stopping]
      · simp [pc, Control.stopped]
  | clear destroying pc =>
      cases destroying with
      | true =>
          exact ⟨fun _ => rfl, fun _ _ => Bool.noConfusion, fun _ _ => rfl,
            fun _ => Control.noConfusion, Bool.noConfusion⟩
      | false =>
          have called : past := by
            by_contra none
            have fresh := stops.fresh none
            rw [pc] at fresh
            cases fresh
          exact ⟨fun none => absurd (.inl called) none, fun none => absurd (.inl called) none,
            fun _ _ => rfl, fun _ => Control.noConfusion, Bool.noConfusion⟩
  | destroySessions pc =>
      rw [State.closeAll_eq]
      refine stops.move (by simp) ?_ ?_ ?_ rfl Bool.noConfusion <;>
        simp [pc, Control.stopping, Control.stopped]
  | destroyAcceptor pc =>
      have contexts := congrArg Pool.contexts (touch_pool s .acceptor)
      refine stops.move (by simp) ?_ ?_ ?_ contexts Bool.noConfusion <;>
        simp [pc, Control.stopping, Control.stopped]
  | destroyPool pc =>
      exact ⟨fun _ => rfl, fun _ _ => Bool.noConfusion, fun _ _ => rfl,
        fun _ => Control.noConfusion, Bool.noConfusion⟩
  | call b manager on callable moved =>
      rw [State.closeAll_eq]
      exact stops.keep (by cases a <;> simp_all [Action.onRegistry]) rfl rfl rfl
  | closeRead x now pc running =>
      rw [State.close_eq]
      exact stops.keep (by simp) rfl rfl rfl
  | acceptFailed pool pending running contexts same fed =>
      exact stops.keep (by simp) rfl contexts rfl
  | acceptAgain x pool pending pc contexts same fed =>
      exact stops.keep (by simp) rfl contexts rfl
  | _ => exact stops.keep (by simp) rfl rfl rfl

theorem of_run {ownId : σ → Id} {created : σ → Int} {as : List (Action τ σ δ)}
    (ran : (machine cfg τ δ ownId created).run as = some s) : Stops (.stop ∈ as) s := by
  apply Machine.history_invariant (H := fun as s => Stops (Action.stop ∈ as) s) _ _ ran
  · exact .start cfg ownId created List.not_mem_nil
  · intro as s a s' stops taken
    simpa only [List.mem_append, List.mem_singleton] using stops.step taken

end Stops

theorem Lifetime.of_run {cfg : Config} {ownId : σ → Id} {created : σ → Int} {s : State τ σ δ}
    {as : List (Action τ σ δ)} (ran : (machine cfg τ δ ownId created).run as = some s) :
    Lifetime cfg s :=
  (Machine.reachable_of_run as ran).invariant (.start cfg ownId created)
    fun _ _ _ life _ taken => life.step taken

omit [DecidableEq τ] [DecidableEq σ] in
theorem contexts_of_handler {cfg : Config} {s : State τ σ δ} {past : Prop}
    (life : Lifetime cfg s) (stops : Stops past s) {x : σ} (handling : s.accepts x ≠ .idle)
    (started : s.acceptor.isStarted = true) : s.pool.contexts ≠ [] := by
  rcases life.handling x (.inl handling) with running | ⟨destroying, pc⟩
  · exact life.alive running
  · have closed := stops.closed (by rw [pc]; rfl)
    rw [closed] at started
    cases started

/-- Whenever a context is asked for there is one, exactly if the pool is built of some and
the server is not started again after a `Stop`. -/
theorem getIOContext_safe_iff (cfg : Config) (ownId : σ → Id) (created : σ → Int)
    (as : List (Action τ σ δ)) {s : State τ σ δ}
    (ran : (machine cfg τ δ ownId created).run as = some s) {a : Action τ σ δ} {pool : Pool}
    (asked : s.asked cfg a = some pool) :
    pool.contexts ≠ [] ↔ cfg.HasContexts ∧ ¬ Restarts as a := by
  have life := Lifetime.of_run ran
  have stops := Stops.of_run ran
  rw [← cfg.poolSize_ne_zero_iff, Restarts]
  have built : s.pool.contexts ≠ [] → cfg.poolSize ≠ 0 := by
    intro alive zero
    rw [life.contexts.resolve_left alive, zero] at alive
    exact alive rfl
  unfold State.asked at asked
  split at asked
  · cases asked
  cases a with
  | construct =>
      simp only at asked
      split at asked <;> cases asked
      simp
  | start =>
      simp only at asked
      split at asked <;> cases asked
      rename_i pc
      have inside := life.acceptor (by simp [pc])
      constructor
      · intro alive
        refine ⟨Nat.ne_zero_of_lt inside, fun restarts => ?_⟩
        exact alive (stops.empty restarts.2 (by rw [pc]; rfl))
      · rintro ⟨-, never⟩
        have unstopped : .stop ∉ as := fun stopped => never ⟨rfl, stopped⟩
        exact stops.alive unstopped (by simp [pc]) (by rw [pc]; rfl)
  | acceptFailed =>
      simp only at asked
      split at asked <;> cases asked
      rename_i waiting
      have alive := life.alive waiting.2.1
      simp [alive, built alive]
  | handleNewSession x =>
      simp only at asked
      split at asked <;> cases asked
      rename_i again
      have alive := contexts_of_handler life stops (by rw [again.1]; simp) again.2
      simp [alive, built alive]
  | _ => cases asked

theorem getIOContext_safe_started :
    ∃ pool : Pool, pool.contexts = [0] ∧ (pool.contexts ≠ [] ↔
      single.HasContexts ∧ ¬ Restarts ([.construct] : List (Action Unit Bool Nat)) .start) := by
  have ran : (machine single Unit Nat (fun _ : Bool => 0) fun _ => 0).run [.construct] =
      some _ := rfl
  refine ⟨{ contexts := [0], nextIOContextIndex := 1, running := true }, rfl, ?_⟩
  exact getIOContext_safe_iff single _ _ _ ran rfl

def unknown : Config where
  maxSessionCount := 1
  ioThreadCount := 0
  hardwareConcurrency := 0
  firstIndex := 0

def restartRun : List (Action Unit Bool Nat) :=
  [.construct, .start, .stop, .control, .control, .control, .control]

/-- A pool may be built of no context, and a stopped server has none left to start with. -/
theorem getIOContext_empty :
    ((start unknown Unit Nat (fun _ : Bool => 0) fun _ => 0).asked unknown .construct).map
        Pool.contexts = some [] ∧
      ¬ ∀ (cfg : Config) (as : List (Action Unit Bool Nat)) (s : State Unit Bool Nat)
        (a : Action Unit Bool Nat) (pool : Pool),
        (machine cfg Unit Nat (fun _ => 0) fun _ => 0).run as = some s →
          s.asked cfg a = some pool → pool.contexts ≠ [] := by
  refine ⟨rfl, ?_⟩
  intro always
  exact always single restartRun _ .start _ rfl rfl rfl

end CommonUtils.TCP.Server
