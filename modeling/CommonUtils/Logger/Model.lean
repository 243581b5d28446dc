import CommonUtils.Library.Machine
import CommonUtils.Library.Mailbox
import CommonUtils.Logger.LogPolicy
import Mathlib.Logic.Function.Basic

/-! `Logger` over any policies, one step for each critical section, each notification,
each call of a policy begun and each found returned. `queue_`, `stop_` and
`ProcessQueue` are a mailbox; only `Flush` keeps `mutex_` from one step to the next. -/

namespace CommonUtils.Logger

universe u v

/-- The threads in a call of the logger; `TimerTask` calls `Flush` as others do. -/
inductive Caller (τ : Type u) where
  | timerTask
  | thread (t : τ)
  deriving DecidableEq

/-- The threads in a call of a policy. `owner` lets go of the last reference to it. -/
inductive Thread (τ : Type u) where
  | processQueue
  | caller (c : Caller τ)
  | owner
  deriving DecidableEq

/-- What `Log` queues, with its caller and the number of the call: two calls with one
message differ. -/
structure Entry (τ μ : Type u) where
  number : Nat
  producer : τ
  message : μ
  deriving DecidableEq

/-- `ProcessQueue` at the policy numbered `index`, before or inside its `Write`. -/
structure Delivery (τ μ : Type u) where
  entry : Entry τ μ
  index : Nat
  inside : Bool
  deriving DecidableEq

/-- Where a call is. `owed` is what had been logged, the `Log` calls returned, when the
`Flush` call began. -/
inductive Call (τ μ : Type u) where
  | push (entry : Entry τ μ)
  | notifyOne (entry : Entry τ μ)
  | lock (owed : List (Entry τ μ))
  | next (owed : List (Entry τ μ)) (index : Nat)
  | inside (owed : List (Entry τ μ)) (index : Nat)
  deriving DecidableEq

inductive Timer where
  | test
  | sleep
  | flush
  | returned
  deriving DecidableEq

inductive Destructor where
  | notStarted
  | setStop
  | notifyAll
  | joinThread
  | joinTimer
  | done
  deriving DecidableEq

variable {τ μ : Type u} {ι : Type v}

/-- The fields of `Logger` with the calls in progress and its policies and, last, the
`Log` calls begun, the entries pushed, those whose `Log` has returned, the `Write`
calls begun and what the `Flush` calls that have returned owed. -/
structure State (P : ι → LogPolicy (Thread τ) (Entry τ μ)) where
  policies : List ι
  queue : Mailbox (Entry τ μ) (Delivery τ μ)
  mutex : Option (Caller τ)
  calls : Caller τ → Option (Call τ μ)
  timerTask : Timer
  destructor : Destructor
  policy : (p : ι) → (P p).State
  logged : List (Entry τ μ)
  entered : List (Entry τ μ)
  returned : List (Entry τ μ)
  writes : List (ι × Entry τ μ)
  flushed : List (Entry τ μ)

inductive Action (P : ι → LogPolicy (Thread τ) (Entry τ μ)) where
  | addPolicy (p : ι)
  | log (t : τ) (message : μ)
  | flush (t : τ)
  | caller (c : Caller τ)
  | processQueue
  | spurious
  | timerTask
  | destroy
  | destructor
  | destroyPolicy (p : ι)
  | policy (p : ι) (a : (P p).Action)

variable {P : ι → LogPolicy (Thread τ) (Entry τ μ)}

def start (P : ι → LogPolicy (Thread τ) (Entry τ μ)) : State P where
  policies := []
  queue := .start
  mutex := none
  calls := fun _ => none
  timerTask := .test
  destructor := .notStarted
  policy := fun p => (P p).start
  logged := []
  entered := []
  returned := []
  writes := []
  flushed := []

namespace State

variable (s : State P)

def setQueue (queue : Mailbox (Entry τ μ) (Delivery τ μ)) : State P := { s with queue }

def setTimer (timerTask : Timer) : State P := { s with timerTask }

def destructorStep : Option (State P) :=
  match s.destructor with
  | .notStarted => none
  | .setStop =>
      if s.mutex = none then
        some { s with queue := s.queue.setStop, destructor := .notifyAll }
      else none
  | .notifyAll => some { s with queue := s.queue.notify, destructor := .joinThread }
  | .joinThread =>
      match s.queue.consumer with
      | .returned => some { s with destructor := .joinTimer }
      | _ => none
  | .joinTimer =>
      match s.timerTask with
      | .returned => some { s with destructor := .done }
      | _ => none
  | .done => none

variable [DecidableEq τ]

def setCall (c : Caller τ) (call : Option (Call τ μ)) : State P :=
  { s with calls := Function.update s.calls c call }

def log (t : τ) (message : μ) : Option (State P) :=
  match s.calls (.thread t) with
  | none =>
      let entry := { number := s.logged.length, producer := t, message }
      some { s.setCall (.thread t) (some (.push entry)) with logged := s.logged ++ [entry] }
  | some _ => none

def flush (c : Caller τ) : Option (State P) :=
  match s.calls c with
  | none => some (s.setCall c (some (.lock s.returned)))
  | some _ => none

/-- `TimerTask`, which looks at `stop_` outside the mutex. -/
def timerStep : Option (State P) :=
  match s.timerTask with
  | .test => some (s.setTimer (if s.queue.stop then .returned else .sleep))
  -- the flag is not looked at again behind the sleep
  | .sleep => (s.flush .timerTask).map fun s => s.setTimer .flush
  | .flush =>
      match s.calls .timerTask with
      | none => some (s.setTimer .test)
      | some _ => none
  | .returned => none

variable [DecidableEq ι]

def setPolicy (p : ι) (state : (P p).State) : State P :=
  { s with policy := Function.update s.policy p state }

/-- The next step of a call: of `Log` behind its `FormatMessage`, or of `Flush`, which
gives `mutex_` back behind its loop over `policies_`. -/
def callStep (c : Caller τ) : Call τ μ → Option (State P)
  | .push e =>
      if s.mutex = none then
        some { s.setCall c (some (.notifyOne e)) with
          queue := s.queue.push e
          entered := s.entered ++ [e] }
      else none
  | .notifyOne e =>
      some { s.setCall c none with
        queue := s.queue.notify
        returned := s.returned ++ [e] }
  | .lock owed =>
      if s.mutex = none then some { s.setCall c (some (.next owed 0)) with mutex := some c }
      else none
  | .next owed i =>
      match s.policies[i]? with
      | some p =>
          ((P p).flush (s.policy p) (.caller c)).map fun state =>
            (s.setPolicy p state).setCall c (some (.inside owed i))
      | none => some { s.setCall c none with mutex := none, flushed := s.flushed ++ owed }
  | .inside owed i =>
      match s.policies[i]? with
      | some p =>
          if (P p).returned (s.policy p) (.caller c) then
            some (s.setCall c (some (.next owed (i + 1))))
          else none
      | none => none

def deliver (d : Delivery τ μ) : Option (State P) :=
  match s.policies[d.index]? with
  | some p =>
      if d.inside then
        if (P p).returned (s.policy p) .processQueue then
          some (s.setQueue (s.queue.resume (.working ⟨d.entry, d.index + 1, false⟩)))
        else none
      else
        ((P p).write (s.policy p) .processQueue d.entry).map fun state =>
          { s.setPolicy p state with
            queue := s.queue.resume (.working { d with inside := true })
            writes := s.writes ++ [(p, d.entry)] }
  | none => if d.inside then none else some (s.setQueue (s.queue.resume .entering))

def processQueue : Option (State P) :=
  match s.queue.consumer with
  | .entering =>
      if s.mutex = none then some (s.setQueue (s.queue.take fun e => ⟨e, 0, false⟩)) else none
  | .waiting => none
  | .working d => s.deliver d
  | .returned => none

end State

variable [DecidableEq τ] [DecidableEq ι]

def step (s : State P) : Action P → Option (State P)
  | .addPolicy p => some { s with policies := s.policies ++ [p] }
  | .log t message => s.log t message
  | .flush t => s.flush (.thread t)
  | .caller c =>
      match s.calls c with
      | some call => s.callStep c call
      | none => none
  | .processQueue => s.processQueue
  | .spurious =>
      match s.queue.consumer with
      | .waiting => some (s.setQueue s.queue.notify)
      | _ => none
  | .timerTask => s.timerStep
  | .destroy =>
      match s.destructor with
      | .notStarted => some { s with destructor := .setStop }
      | _ => none
  | .destructor => s.destructorStep
  | .destroyPolicy p =>
      match s.destructor with
      | .done => ((P p).destroy (s.policy p) .owner).map fun state => s.setPolicy p state
      | _ => none
  | .policy p a => ((P p).step (s.policy p) a).map fun state => s.setPolicy p state

def machine (P : ι → LogPolicy (Thread τ) (Entry τ μ)) : Machine (State P) (Action P) where
  start := start P
  step := step

/-- Everything a step can do, one case for each outcome. -/
inductive Takes (s : State P) : Action P → State P → Prop
  | addPolicy (p : ι) : Takes s (.addPolicy p) { s with policies := s.policies ++ [p] }
  | log (t : τ) (message : μ) (absent : s.calls (.thread t) = none) :
      Takes s (.log t message)
        { s.setCall (.thread t) (some (.push ⟨s.logged.length, t, message⟩)) with
          logged := s.logged ++ [⟨s.logged.length, t, message⟩] }
  | flush (t : τ) (absent : s.calls (.thread t) = none) :
      Takes s (.flush t) (s.setCall (.thread t) (some (.lock s.returned)))
  | push (c : Caller τ) (e : Entry τ μ) (mine : s.calls c = some (.push e))
      (free : s.mutex = none) :
      Takes s (.caller c)
        { s.setCall c (some (.notifyOne e)) with
          queue := s.queue.push e
          entered := s.entered ++ [e] }
  | notifyOne (c : Caller τ) (e : Entry τ μ) (mine : s.calls c = some (.notifyOne e)) :
      Takes s (.caller c)
        { s.setCall c none with
          queue := s.queue.notify
          returned := s.returned ++ [e] }
  | lock (c : Caller τ) (owed : List (Entry τ μ)) (mine : s.calls c = some (.lock owed))
      (free : s.mutex = none) :
      Takes s (.caller c) { s.setCall c (some (.next owed 0)) with mutex := some c }
  | flushPolicy (c : Caller τ) (owed : List (Entry τ μ)) (i : Nat) (p : ι) (state : (P p).State)
      (mine : s.calls c = some (.next owed i)) (here : s.policies[i]? = some p)
      (begun : (P p).flush (s.policy p) (.caller c) = some state) :
      Takes s (.caller c) ((s.setPolicy p state).setCall c (some (.inside owed i)))
  | flushReturned (c : Caller τ) (owed : List (Entry τ μ)) (i : Nat)
      (mine : s.calls c = some (.inside owed i)) :
      Takes s (.caller c) (s.setCall c (some (.next owed (i + 1))))
  | flushed (c : Caller τ) (owed : List (Entry τ μ)) (i : Nat)
      (mine : s.calls c = some (.next owed i)) (last : s.policies[i]? = none) :
      Takes s (.caller c) { s.setCall c none with mutex := none, flushed := s.flushed ++ owed }
  | take (entering : s.queue.consumer = .entering) (free : s.mutex = none) :
      Takes s .processQueue (s.setQueue (s.queue.take fun e => ⟨e, 0, false⟩))
  | write (e : Entry τ μ) (i : Nat) (p : ι) (state : (P p).State)
      (working : s.queue.consumer = .working ⟨e, i, false⟩) (here : s.policies[i]? = some p)
      (begun : (P p).write (s.policy p) .processQueue e = some state) :
      Takes s .processQueue
        { s.setPolicy p state with
          queue := s.queue.resume (.working ⟨e, i, true⟩)
          writes := s.writes ++ [(p, e)] }
  | writeReturned (e : Entry τ μ) (i : Nat) (p : ι)
      (working : s.queue.consumer = .working ⟨e, i, true⟩) (here : s.policies[i]? = some p)
      (returned : (P p).returned (s.policy p) .processQueue = true) :
      Takes s .processQueue (s.setQueue (s.queue.resume (.working ⟨e, i + 1, false⟩)))
  | delivered (e : Entry τ μ) (i : Nat) (working : s.queue.consumer = .working ⟨e, i, false⟩)
      (last : s.policies[i]? = none) :
      Takes s .processQueue (s.setQueue (s.queue.resume .entering))
  | spurious (waiting : s.queue.consumer = .waiting) :
      Takes s .spurious (s.setQueue s.queue.notify)
  | timer (timerTask : Timer) : Takes s .timerTask (s.setTimer timerTask)
  | timerFlush (absent : s.calls .timerTask = none) :
      Takes s .timerTask ((s.setCall .timerTask (some (.lock s.returned))).setTimer .flush)
  | destroy (pc : s.destructor = .notStarted) :
      Takes s .destroy { s with destructor := .setStop }
  | setStop (pc : s.destructor = .setStop) (free : s.mutex = none) :
      Takes s .destructor { s with queue := s.queue.setStop, destructor := .notifyAll }
  | notifyAll (pc : s.destructor = .notifyAll) :
      Takes s .destructor { s with queue := s.queue.notify, destructor := .joinThread }
  | joinThread (pc : s.destructor = .joinThread) (returned : s.queue.consumer = .returned) :
      Takes s .destructor { s with destructor := .joinTimer }
  | joinTimer (pc : s.destructor = .joinTimer) (returned : s.timerTask = .returned) :
      Takes s .destructor { s with destructor := .done }
  | destroyPolicy (p : ι) (state : (P p).State) (pc : s.destructor = .done)
      (begun : (P p).destroy (s.policy p) .owner = some state) :
      Takes s (.destroyPolicy p) (s.setPolicy p state)
  | policy (p : ι) (a : (P p).Action) (state : (P p).State)
      (taken : (P p).step (s.policy p) a = some state) :
      Takes s (.policy p a) (s.setPolicy p state)

theorem callStep_takes {s s' : State P} {c : Caller τ} {call : Call τ μ}
    (mine : s.calls c = some call) (taken : s.callStep c call = some s') :
    Takes s (.caller c) s' := by
  cases call with
  | push e =>
      simp only [State.callStep] at taken
      split at taken <;> cases taken
      exact .push c e mine ‹_›
  | notifyOne e =>
      cases taken
      exact .notifyOne c e mine
  | lock owed =>
      simp only [State.callStep] at taken
      split at taken <;> cases taken
      exact .lock c owed mine ‹_›
  | next owed i =>
      simp only [State.callStep] at taken
      split at taken
      · rename_i p here
        obtain ⟨state, begun, rfl⟩ := Option.map_eq_some_iff.mp taken
        exact .flushPolicy c owed i p state mine here begun
      · cases taken
        exact .flushed c owed i mine ‹_›
  | inside owed i =>
      simp only [State.callStep] at taken
      split at taken
      · split at taken <;> cases taken
        exact .flushReturned c owed i mine
      · cases taken

theorem processQueue_takes {s s' : State P} (taken : s.processQueue = some s') :
    Takes s .processQueue s' := by
  unfold State.processQueue at taken
  split at taken
  · split at taken <;> cases taken
    exact .take ‹_› ‹_›
  · cases taken
  · rename_i d working
    rcases d with ⟨e, i, inside⟩
    unfold State.deliver at taken
    cases inside <;> simp only [Bool.false_eq_true, if_false, if_true] at taken <;>
      split at taken
    · rename_i p here
      obtain ⟨state, begun, rfl⟩ := Option.map_eq_some_iff.mp taken
      exact .write e i p state working here begun
    · cases taken
      exact .delivered e i working ‹_›
    · split at taken <;> cases taken
      exact .writeReturned e i _ working ‹_› ‹_›
    · cases taken
  · cases taken

theorem timerStep_takes {s s' : State P} (taken : s.timerStep = some s') :
    Takes s .timerTask s' := by
  unfold State.timerStep at taken
  split at taken
  · cases taken
    exact .timer _
  · obtain ⟨called, begun, rfl⟩ := Option.map_eq_some_iff.mp taken
    unfold State.flush at begun
    split at begun <;> cases begun
    exact .timerFlush ‹_›
  · split at taken <;> cases taken
    exact .timer _
  · cases taken

theorem destructorStep_takes {s s' : State P} (taken : s.destructorStep = some s') :
    Takes s .destructor s' := by
  unfold State.destructorStep at taken
  split at taken
  · cases taken
  · split at taken <;> cases taken
    exact .setStop ‹_› ‹_›
  · cases taken
    exact .notifyAll ‹_›
  · split at taken <;> cases taken
    exact .joinThread ‹_› ‹_›
  · split at taken <;> cases taken
    exact .joinTimer ‹_› ‹_›
  · cases taken

theorem step_takes {s s' : State P} {a : Action P} (taken : step s a = some s') :
    Takes s a s' := by
  cases a with
  | addPolicy p =>
      cases taken
      exact .addPolicy p
  | log t message =>
      simp only [step, State.log] at taken
      split at taken <;> cases taken
      exact .log t message ‹_›
  | flush t =>
      simp only [step, State.flush] at taken
      split at taken <;> cases taken
      exact .flush t ‹_›
  | caller c =>
      simp only [step] at taken
      split at taken
      · exact callStep_takes ‹_› taken
      · cases taken
  | processQueue => exact processQueue_takes taken
  | spurious =>
      simp only [step] at taken
      split at taken <;> cases taken
      exact .spurious ‹_›
  | timerTask => exact timerStep_takes taken
  | destroy =>
      simp only [step] at taken
      split at taken <;> cases taken
      exact .destroy ‹_›
  | destructor => exact destructorStep_takes taken
  | destroyPolicy p =>
      simp only [step] at taken
      split at taken
      · obtain ⟨state, begun, rfl⟩ := Option.map_eq_some_iff.mp taken
        exact .destroyPolicy p state ‹_› begun
      · cases taken
  | policy p a =>
      obtain ⟨state, stepped, rfl⟩ := Option.map_eq_some_iff.mp taken
      exact .policy p a state stepped

end CommonUtils.Logger
