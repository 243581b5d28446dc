import CommonUtils.Library.Machine
import CommonUtils.Library.WaitSet
import Mathlib.Data.Fintype.Basic
import Mathlib.Logic.Function.Basic

/-! The thread pool, one step for each critical section, notification, wakeup and
task execution. Workers and producers sleep on the one condition variable. -/

namespace CommonUtils.ThreadPool

structure Config where
  threadsNum : Nat
  maxTaskNum : Int

inductive Worker (T : Type*) where
  | entering
  | waiting
  | running (index : Nat) (task : T)
  | finishing
  | exited
  deriving DecidableEq

inductive Producer (T : Type*) where
  | idle
  | entering (task : T)
  | waiting (task : T)
  | notifying
  deriving DecidableEq

inductive Destructor where
  | notStarted
  | notifying
  | joining (worker : Nat)
  | done
  deriving DecidableEq

abbrev Waiter (n : Nat) (ρ : Type*) := Fin n ⊕ ρ

/-- The fields of `ThreadPool`, the program counters of its threads and, last,
what has happened so far: tasks accepted, tasks dequeued with the worker that
took them, executions as (worker, dequeue number), and calls that threw. -/
structure State (n : Nat) (ρ T : Type*) where
  tasks : List T
  curTaskNum : Int
  stopPool : Bool
  condition : Finset (Waiter n ρ)
  workers : Fin n → Worker T
  producers : ρ → Producer T
  destructor : Destructor
  accepted : List T
  dequeued : List (Fin n × T)
  executed : List (Fin n × Nat)
  thrown : List (T × String)

inductive Action (n : Nat) (ρ T : Type*) where
  | enqueue (p : ρ) (task : T)
  | producer (p : ρ)
  | producerNotify (p : ρ) (woken : Option (Waiter n ρ))
  | worker (w : Fin n)
  | workerNotify (w : Fin n) (woken : Option (Waiter n ρ))
  | spurious (x : Waiter n ρ)
  | destroy
  | notifyAll
  | join
  deriving DecidableEq

variable {n : Nat} {ρ T : Type*} [DecidableEq ρ]

def start (n : Nat) (ρ T : Type*) : State n ρ T where
  tasks := []
  curTaskNum := 0
  stopPool := false
  condition := ∅
  workers := fun _ => .entering
  producers := fun _ => .idle
  destructor := .notStarted
  accepted := []
  dequeued := []
  executed := []
  thrown := []

namespace State

variable (s : State n ρ T)

def setWorker (w : Fin n) (pc : Worker T) : State n ρ T :=
  { s with workers := Function.update s.workers w pc }

def setProducer (p : ρ) (pc : Producer T) : State n ρ T :=
  { s with producers := Function.update s.producers p pc }

def sleep (x : Waiter n ρ) : State n ρ T := { s with condition := insert x s.condition }

/-- The worker's first critical section: the wait predicate, then the exit or the
dequeue. Run on entry and again after every wakeup. -/
def workerSection (w : Fin n) : State n ρ T :=
  match s.tasks with
  -- what is queued is run even after the stop
  | [] => if s.stopPool then s.setWorker w .exited else (s.setWorker w .waiting).sleep (.inl w)
  | task :: rest =>
      { s.setWorker w (.running s.dequeued.length task) with
        tasks := rest
        curTaskNum := s.curTaskNum - 1
        dequeued := s.dequeued ++ [(w, task)] }

/-- `enqueue` from its wait predicate on; the stop flag is not looked at again. -/
def producerSection (cfg : Config) (p : ρ) (task : T) : State n ρ T :=
  if s.curTaskNum < cfg.maxTaskNum then
    { s.setProducer p .notifying with
      tasks := s.tasks ++ [task]
      curTaskNum := s.curTaskNum + 1
      accepted := s.accepted ++ [task] }
  else (s.setProducer p (.waiting task)).sleep (.inr p)

def throwStopped (p : ρ) (task : T) : State n ρ T :=
  { s.setProducer p .idle with
    thrown := s.thrown ++ [(task, "Enqueue on stopped ThreadPool")] }

end State

open State in
def step (cfg : Config) (s : State cfg.threadsNum ρ T) :
    Action cfg.threadsNum ρ T → Option (State cfg.threadsNum ρ T)
  | .enqueue p task =>
      match s.producers p with
      | .idle => some (s.setProducer p (.entering task))
      | _ => none
  | .producer p =>
      match s.producers p with
      | .entering task =>
          if s.stopPool then some (s.throwStopped p task)
          else some (s.producerSection cfg p task)
      | .waiting task =>
          if .inr p ∈ s.condition then none else some (s.producerSection cfg p task)
      | _ => none
  | .producerNotify p woken =>
      match s.producers p with
      | .notifying =>
          (WaitSet.notifyOne s.condition woken).map fun rest =>
            { s.setProducer p .idle with condition := rest }
      | _ => none
  | .worker w =>
      match s.workers w with
      | .entering => some (s.workerSection w)
      | .waiting => if .inl w ∈ s.condition then none else some (s.workerSection w)
      | .running index _ =>
          some { s.setWorker w .finishing with executed := s.executed ++ [(w, index)] }
      | _ => none
  | .workerNotify w woken =>
      match s.workers w with
      | .finishing =>
          (WaitSet.notifyOne s.condition woken).map fun rest =>
            { s.setWorker w .entering with condition := rest }
      | _ => none
  | .spurious x => (WaitSet.wake s.condition x).map fun rest => { s with condition := rest }
  | .destroy =>
      match s.destructor with
      | .notStarted => some { s with stopPool := true, destructor := .notifying }
      | _ => none
  | .notifyAll =>
      match s.destructor with
      | .notifying => some { s with condition := ∅, destructor := .joining 0 }
      | _ => none
  | .join =>
      match s.destructor with
      | .joining i =>
          if inside : i < cfg.threadsNum then
            match s.workers ⟨i, inside⟩ with
            | .exited => some { s with destructor := .joining (i + 1) }
            | _ => none
          else some { s with destructor := .done }
      | _ => none

def machine (cfg : Config) (ρ T : Type*) [DecidableEq ρ] :
    Machine (State cfg.threadsNum ρ T) (Action cfg.threadsNum ρ T) where
  start := start cfg.threadsNum ρ T
  step := step cfg

def WorkerReady (s : State n ρ T) (w : Fin n) : Prop :=
  s.workers w = .entering ∨ s.workers w = .waiting ∧ .inl w ∉ s.condition

def ProducerReady (s : State n ρ T) (p : ρ) (task : T) : Prop :=
  s.producers p = .entering task ∧ s.stopPool = false ∨
    s.producers p = .waiting task ∧ .inr p ∉ s.condition

inductive Takes (cfg : Config) (s : State cfg.threadsNum ρ T) :
    Action cfg.threadsNum ρ T → State cfg.threadsNum ρ T → Prop
  | enqueue (p : ρ) (task : T) (idle : s.producers p = .idle) :
      Takes cfg s (.enqueue p task) (s.setProducer p (.entering task))
  | throwStopped (p : ρ) (task : T) (pc : s.producers p = .entering task)
      (stopped : s.stopPool = true) : Takes cfg s (.producer p) (s.throwStopped p task)
  | push (p : ρ) (task : T) (ready : ProducerReady s p task)
      (space : s.curTaskNum < cfg.maxTaskNum) :
      Takes cfg s (.producer p)
        { s.setProducer p .notifying with
          tasks := s.tasks ++ [task]
          curTaskNum := s.curTaskNum + 1
          accepted := s.accepted ++ [task] }
  | block (p : ρ) (task : T) (ready : ProducerReady s p task)
      (full : cfg.maxTaskNum ≤ s.curTaskNum) :
      Takes cfg s (.producer p) ((s.setProducer p (.waiting task)).sleep (.inr p))
  | producerNotify (p : ρ) (woken : Option (Waiter cfg.threadsNum ρ))
      (rest : Finset (Waiter cfg.threadsNum ρ)) (pc : s.producers p = .notifying)
      (notified : WaitSet.notifyOne s.condition woken = some rest) :
      Takes cfg s (.producerNotify p woken) { s.setProducer p .idle with condition := rest }
  | exit (w : Fin cfg.threadsNum) (ready : WorkerReady s w) (empty : s.tasks = [])
      (stopped : s.stopPool = true) : Takes cfg s (.worker w) (s.setWorker w .exited)
  | sleep (w : Fin cfg.threadsNum) (ready : WorkerReady s w) (empty : s.tasks = [])
      (live : s.stopPool = false) :
      Takes cfg s (.worker w) ((s.setWorker w .waiting).sleep (.inl w))
  | dequeue (w : Fin cfg.threadsNum) (task : T) (rest : List T) (ready : WorkerReady s w)
      (queued : s.tasks = task :: rest) :
      Takes cfg s (.worker w)
        { s.setWorker w (.running s.dequeued.length task) with
          tasks := rest
          curTaskNum := s.curTaskNum - 1
          dequeued := s.dequeued ++ [(w, task)] }
  | execute (w : Fin cfg.threadsNum) (index : Nat) (task : T)
      (pc : s.workers w = .running index task) :
      Takes cfg s (.worker w)
        { s.setWorker w .finishing with executed := s.executed ++ [(w, index)] }
  | workerNotify (w : Fin cfg.threadsNum) (woken : Option (Waiter cfg.threadsNum ρ))
      (rest : Finset (Waiter cfg.threadsNum ρ)) (pc : s.workers w = .finishing)
      (notified : WaitSet.notifyOne s.condition woken = some rest) :
      Takes cfg s (.workerNotify w woken) { s.setWorker w .entering with condition := rest }
  | spurious (x : Waiter cfg.threadsNum ρ) (rest : Finset (Waiter cfg.threadsNum ρ))
      (woken : WaitSet.wake s.condition x = some rest) :
      Takes cfg s (.spurious x) { s with condition := rest }
  | destroy (pc : s.destructor = .notStarted) :
      Takes cfg s .destroy { s with stopPool := true, destructor := .notifying }
  | notifyAll (pc : s.destructor = .notifying) :
      Takes cfg s .notifyAll { s with condition := ∅, destructor := .joining 0 }
  | joinWorker (i : Nat) (inside : i < cfg.threadsNum) (pc : s.destructor = .joining i)
      (exited : s.workers ⟨i, inside⟩ = .exited) :
      Takes cfg s .join { s with destructor := .joining (i + 1) }
  | joined (i : Nat) (all : cfg.threadsNum ≤ i) (pc : s.destructor = .joining i) :
      Takes cfg s .join { s with destructor := .done }

theorem workerSection_takes {cfg : Config} {s : State cfg.threadsNum ρ T}
    {w : Fin cfg.threadsNum} (ready : WorkerReady s w) :
    Takes cfg s (.worker w) (s.workerSection w) := by
  unfold State.workerSection
  cases queued : s.tasks with
  | nil =>
      cases stopped : s.stopPool
      · exact .sleep w ready queued stopped
      · exact .exit w ready queued stopped
  | cons task rest => exact .dequeue w task rest ready queued

theorem producerSection_takes {cfg : Config} {s : State cfg.threadsNum ρ T} {p : ρ} {task : T}
    (ready : ProducerReady s p task) :
    Takes cfg s (.producer p) (s.producerSection cfg p task) := by
  unfold State.producerSection
  split
  · exact .push p task ready ‹_›
  · exact .block p task ready (not_lt.mp ‹_›)

theorem step_takes {cfg : Config} {s s' : State cfg.threadsNum ρ T}
    {a : Action cfg.threadsNum ρ T} (taken : step cfg s a = some s') : Takes cfg s a s' := by
  cases a with
  | enqueue p task =>
      simp only [step] at taken
      split at taken <;> cases taken
      exact .enqueue p task ‹_›
  | producer p =>
      simp only [step] at taken
      split at taken
      · rename_i task pc
        split at taken <;> cases taken
        · exact .throwStopped p task pc ‹_›
        · exact producerSection_takes (.inl ⟨pc, Bool.eq_false_iff.mpr ‹_›⟩)
      · rename_i task pc
        split at taken <;> cases taken
        exact producerSection_takes (.inr ⟨pc, ‹_›⟩)
      · cases taken
  | producerNotify p woken =>
      simp only [step] at taken
      split at taken
      · obtain ⟨rest, notified, rfl⟩ := Option.map_eq_some_iff.mp taken
        exact .producerNotify p woken rest ‹_› notified
      · cases taken
  | worker w =>
      simp only [step] at taken
      split at taken
      · cases taken
        exact workerSection_takes (.inl ‹_›)
      · rename_i pc
        split at taken <;> cases taken
        exact workerSection_takes (.inr ⟨pc, ‹_›⟩)
      · rename_i index task pc
        cases taken
        exact .execute w index task pc
      · cases taken
  | workerNotify w woken =>
      simp only [step] at taken
      split at taken
      · obtain ⟨rest, notified, rfl⟩ := Option.map_eq_some_iff.mp taken
        exact .workerNotify w woken rest ‹_› notified
      · cases taken
  | spurious x =>
      obtain ⟨rest, woken, rfl⟩ := Option.map_eq_some_iff.mp taken
      exact .spurious x rest woken
  | destroy =>
      simp only [step] at taken
      split at taken <;> cases taken
      exact .destroy ‹_›
  | notifyAll =>
      simp only [step] at taken
      split at taken <;> cases taken
      exact .notifyAll ‹_›
  | join =>
      simp only [step] at taken
      split at taken
      · rename_i i pc
        split at taken
        · split at taken <;> cases taken
          exact .joinWorker i ‹_› pc ‹_›
        · cases taken
          exact .joined i (not_lt.mp ‹_›) pc
      · cases taken

end CommonUtils.ThreadPool
