import CommonUtils.Library.Machine
import CommonUtils.Library.WaitSet
import Mathlib.Logic.Function.Basic

/-! The message queue: the class itself, then its threads. Each critical section is
one step; a `pop` may wait on `cond_` across any number of other steps. -/

namespace CommonUtils

structure MessageQueue (μ : Type*) where
  queue : List μ
  currentMessageCount : Int
  deriving DecidableEq

namespace MessageQueue

structure Config where
  maxMessageCount : Int
  coverageMode : Bool

variable {μ κ : Type*}

def new : MessageQueue μ := ⟨[], 0⟩

/-- What `push` leaves behind: the queue, the line it printed and whether it
reached `cond_.notify_one()`. -/
structure Pushed (μ : Type*) where
  queue : MessageQueue μ
  printed : Option String
  notifies : Bool

/-- `push`. `none` is `queue_.pop()` on an empty container, which is undefined. -/
def push (cfg : Config) (q : MessageQueue μ) (msg : μ) : Option (Pushed μ) :=
  if cfg.maxMessageCount ≤ q.currentMessageCount then
    if cfg.coverageMode then
      match q.queue with
      | [] => none
      | _ :: rest =>
          -- the counter goes down for the dropped message and up for the new one
          some {
            queue := ⟨rest ++ [msg], q.currentMessageCount - 1 + 1⟩
            printed := some "MessageQueue is full, drop the oldest message."
            notifies := true }
    else
      some {
        queue := q
        printed := some "MessageQueue is full, drop the latest message."
        notifies := false }
  else
    some {
      queue := ⟨q.queue ++ [msg], q.currentMessageCount + 1⟩
      printed := none
      notifies := true }

def ready (q : MessageQueue μ) : Bool := 0 < q.currentMessageCount

/-- `pop` after its wait. `none` is `front()` on an empty container. -/
def pop (q : MessageQueue μ) : Option (μ × MessageQueue μ) :=
  match q.queue with
  | [] => none
  | msg :: rest => some (msg, ⟨rest, q.currentMessageCount - 1⟩)

def empty (q : MessageQueue μ) : Bool := q.currentMessageCount == 0

/-- A `push` replaces the oldest message, leaves the queue as it is, or appends. -/
theorem push_cases {cfg : Config} {q : MessageQueue μ} {msg : μ} {pushed : Pushed μ}
    (ran : q.push cfg msg = some pushed) :
    (∃ oldest rest, q.queue = oldest :: rest ∧ pushed.notifies = true ∧
        pushed.queue = ⟨rest ++ [msg], q.currentMessageCount - 1 + 1⟩) ∨
      pushed.notifies = false ∧ pushed.queue = q ∨
      pushed.notifies = true ∧
        pushed.queue = ⟨q.queue ++ [msg], q.currentMessageCount + 1⟩ := by
  unfold push at ran
  split at ran
  · split at ran
    · split at ran
      · cases ran
      · rename_i oldest rest content
        cases ran
        exact .inl ⟨oldest, rest, content, rfl, rfl⟩
    · cases ran
      exact .inr (.inl ⟨rfl, rfl⟩)
  · cases ran
    exact .inr (.inr ⟨rfl, rfl⟩)

/-- A line is printed exactly where a message is lost. -/
theorem printed_isSome_iff {cfg : Config} {q : MessageQueue μ} {msg : μ} {pushed : Pushed μ}
    (ran : q.push cfg msg = some pushed) :
    pushed.printed.isSome ↔ pushed.queue.queue ≠ q.queue ++ [msg] := by
  unfold push at ran
  split at ran
  · split at ran
    · split at ran
      · cases ran
      · rename_i oldest rest content
        cases ran
        rw [content]
        simp
    · cases ran
      simp
  · cases ran
    simp

theorem pop_cases {q rest : MessageQueue μ} {msg : μ} (ran : q.pop = some (msg, rest)) :
    q.queue = msg :: rest.queue ∧ rest.currentMessageCount = q.currentMessageCount - 1 := by
  unfold pop at ran
  split at ran
  · cases ran
  · rename_i content
    cases ran
    exact ⟨content, rfl⟩

theorem push_eq_none_iff {cfg : Config} {q : MessageQueue μ} {msg : μ} :
    q.push cfg msg = none ↔
      cfg.maxMessageCount ≤ q.currentMessageCount ∧ cfg.coverageMode = true ∧ q.queue = [] := by
  by_cases full : cfg.maxMessageCount ≤ q.currentMessageCount
  · cases mode : cfg.coverageMode <;> cases content : q.queue <;> simp [push, full, mode, content]
  · simp [push, full]

theorem pop_ne_none {q : MessageQueue μ} (count : q.currentMessageCount = q.queue.length)
    (ready : q.ready = true) : q.pop ≠ none := by
  have positive : 0 < q.currentMessageCount := of_decide_eq_true ready
  cases content : q.queue with
  | nil =>
      rw [content, List.length_nil, Int.natCast_zero] at count
      omega
  | cons oldest rest => simp [pop, content]

structure Numbered (μ : Type*) where
  number : Nat
  message : μ
  deriving DecidableEq

/-- What a `push` call met: whether the queue held `maxMessageCount` messages, and
the number of the oldest one. -/
structure PushRecord (μ : Type*) where
  message : μ
  full : Bool
  oldest : Option Nat
  deriving DecidableEq

inductive Consumer where
  | idle
  | entering
  | waiting
  deriving DecidableEq

/-- The queue, the sleepers on `cond_`, the threads inside `pop` and, last, the
`push` calls and the popped messages so far. -/
structure State (κ μ : Type*) where
  queue : MessageQueue (Numbered μ)
  cond : Finset κ
  consumers : κ → Consumer
  pushes : List (PushRecord μ)
  popped : List (Numbered μ)

inductive Action (κ μ : Type*) where
  | push (msg : μ) (woken : Option κ)
  | pop (k : κ)
  | consumer (k : κ)
  | empty (answer : Bool)
  | spurious (k : κ)
  deriving DecidableEq

variable [DecidableEq κ]

def start (κ μ : Type*) : State κ μ where
  queue := .new
  cond := ∅
  consumers := fun _ => .idle
  pushes := []
  popped := []

namespace State

variable (s : State κ μ)

def setConsumer (k : κ) (pc : Consumer) : State κ μ :=
  { s with consumers := Function.update s.consumers k pc }

def record (cfg : Config) (msg : μ) : PushRecord μ where
  message := msg
  full := (s.queue.queue.length : Int) == cfg.maxMessageCount
  oldest := s.queue.queue.head?.map Numbered.number

/-- The critical section of `pop`, run on entry and after every wakeup. -/
def popSection (k : κ) : Option (State κ μ) :=
  if s.queue.ready then
    s.queue.pop.map fun (msg, rest) =>
      { s.setConsumer k .idle with queue := rest, popped := s.popped ++ [msg] }
  else some { s.setConsumer k .waiting with cond := insert k s.cond }

def afterPush (cfg : Config) (msg : μ) (queue : MessageQueue (Numbered μ)) (cond : Finset κ) :
    State κ μ :=
  { s with queue := queue, cond := cond, pushes := s.pushes ++ [s.record cfg msg] }

end State

def step (cfg : Config) (s : State κ μ) : Action κ μ → Option (State κ μ)
  | .push msg woken =>
      (s.queue.push cfg ⟨s.pushes.length, msg⟩).bind fun pushed =>
        if pushed.notifies then
          (WaitSet.notifyOne s.cond woken).map fun rest => s.afterPush cfg msg pushed.queue rest
        else
          match woken with
          | none => some (s.afterPush cfg msg pushed.queue s.cond)
          | some _ => none
  | .pop k =>
      match s.consumers k with
      | .idle => some (s.setConsumer k .entering)
      | _ => none
  | .consumer k =>
      match s.consumers k with
      | .entering => s.popSection k
      | .waiting => if k ∈ s.cond then none else s.popSection k
      | .idle => none
  | .empty answer => if s.queue.empty = answer then some s else none
  | .spurious k => (WaitSet.wake s.cond k).map fun rest => { s with cond := rest }

def machine (cfg : Config) (κ μ : Type*) [DecidableEq κ] : Machine (State κ μ) (Action κ μ) where
  start := start κ μ
  step := step cfg

inductive Effect (cfg : Config) (s : State κ μ) : Action κ μ → State κ μ → Prop
  | push (msg : μ) (woken : Option κ) (pushed : MessageQueue.Pushed (Numbered μ))
      (cond : Finset κ) (ran : s.queue.push cfg ⟨s.pushes.length, msg⟩ = some pushed) :
      Effect cfg s (.push msg woken) (s.afterPush cfg msg pushed.queue cond)
  | pop (k : κ) (msg : Numbered μ) (rest : MessageQueue (Numbered μ))
      (ready : s.queue.ready = true) (ran : s.queue.pop = some (msg, rest)) :
      Effect cfg s (.consumer k)
        { s.setConsumer k .idle with queue := rest, popped := s.popped ++ [msg] }
  | other (a : Action κ μ) (s' : State κ μ) (queue : s'.queue = s.queue)
      (pushes : s'.pushes = s.pushes) (popped : s'.popped = s.popped) : Effect cfg s a s'

theorem popSection_effect {cfg : Config} {s s' : State κ μ} {k : κ}
    (ran : s.popSection k = some s') : Effect cfg s (.consumer k) s' := by
  unfold State.popSection at ran
  split at ran
  · obtain ⟨⟨msg, rest⟩, popped, rfl⟩ := Option.map_eq_some_iff.mp ran
    exact .pop k msg rest ‹_› popped
  · cases ran
    exact .other _ _ rfl rfl rfl

theorem step_effect {cfg : Config} {s s' : State κ μ} {a : Action κ μ}
    (taken : step cfg s a = some s') : Effect cfg s a s' := by
  cases a with
  | push msg woken =>
      obtain ⟨pushed, ran, rest⟩ := Option.bind_eq_some_iff.mp taken
      split at rest
      · obtain ⟨cond, _, rfl⟩ := Option.map_eq_some_iff.mp rest
        exact .push msg woken pushed cond ran
      · cases woken with
        | none =>
            cases rest
            exact .push msg none pushed s.cond ran
        | some k => cases rest
  | pop k =>
      simp only [step] at taken
      split at taken <;> cases taken
      exact .other _ _ rfl rfl rfl
  | consumer k =>
      simp only [step] at taken
      split at taken
      · exact popSection_effect taken
      · split at taken
        · cases taken
        · exact popSection_effect taken
      · cases taken
  | empty answer =>
      simp only [step] at taken
      split at taken <;> cases taken
      exact .other _ _ rfl rfl rfl
  | spurious k =>
      obtain ⟨rest, _, rfl⟩ := Option.map_eq_some_iff.mp taken
      exact .other _ _ rfl rfl rfl

end MessageQueue

end CommonUtils
