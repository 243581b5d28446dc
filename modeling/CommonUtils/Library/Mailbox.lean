import Mathlib.Data.List.Basic

/-! A queue with one consumer. Whoever pushes, or asks for a stop, does so inside the
mutex and notifies after it; the consumer sleeps while there is neither an item nor
a stop, and returns when it is stopped with nothing queued. -/

/-- `working` is the work the consumer makes of the item it has taken. -/
inductive Consumer (ω : Type*) where
  | entering
  | waiting
  | working (work : ω)
  | returned
  deriving DecidableEq

def Consumer.notified {ω : Type*} : Consumer ω → Consumer ω
  | .waiting => .entering
  | c => c

structure Mailbox (μ ω : Type*) where
  queue : List μ
  stop : Bool
  consumer : Consumer ω
  deriving DecidableEq

namespace Mailbox

variable {μ ω : Type*}

def start : Mailbox μ ω := ⟨[], false, .entering⟩

def push (b : Mailbox μ ω) (m : μ) : Mailbox μ ω := { b with queue := b.queue ++ [m] }

def setStop (b : Mailbox μ ω) : Mailbox μ ω := { b with stop := true }

def notify (b : Mailbox μ ω) : Mailbox μ ω := { b with consumer := b.consumer.notified }

/-- The consumer's critical section, from its wait predicate on. -/
def take (b : Mailbox μ ω) (work : μ → ω) : Mailbox μ ω :=
  match b.queue with
  | [] => { b with consumer := if b.stop then .returned else .waiting }
  | m :: rest => { b with queue := rest, consumer := .working (work m) }

def resume (b : Mailbox μ ω) (consumer : Consumer ω) : Mailbox μ ω := { b with consumer }

/-- Asleep un-notified with an item queued or the stop asked for. -/
def Stranded (b : Mailbox μ ω) : Prop :=
  b.consumer = .waiting ∧ (b.queue ≠ [] ∨ b.stop = true)

/-- What the consumer has in hand, then what is queued. `hand` reads the item off the
work made of it. -/
def backlog (b : Mailbox μ ω) (hand : ω → List μ) : List μ :=
  match b.consumer with
  | .working work => hand work ++ b.queue
  | _ => b.queue

structure Drains (b : Mailbox μ ω) : Prop where
  stopped : b.consumer = .returned → b.stop = true
  empty : b.consumer = .returned → b.queue = []

variable {b : Mailbox μ ω} {work : μ → ω} {hand : ω → List μ}

@[simp] theorem stop_take (b : Mailbox μ ω) (work : μ → ω) : (b.take work).stop = b.stop := by
  unfold take
  split <;> rfl

theorem notified_ne_waiting (c : Consumer ω) : c.notified ≠ .waiting := by
  cases c <;> nofun

theorem notified_eq_returned {c : Consumer ω} : c.notified = .returned ↔ c = .returned := by
  cases c <;> simp [Consumer.notified]

theorem notified_eq_working {c : Consumer ω} {w : ω} :
    c.notified = .working w ↔ c = .working w := by
  cases c <;> simp [Consumer.notified]

theorem not_stranded_start : ¬ (start : Mailbox μ ω).Stranded := by
  intro stranded
  cases stranded.1

theorem not_stranded_of_returned (returned : b.consumer = .returned) : ¬ b.Stranded := by
  rintro ⟨asleep, _⟩
  rw [returned] at asleep
  cases asleep

theorem not_stranded_notify (b : Mailbox μ ω) : ¬ b.notify.Stranded :=
  fun stranded => notified_ne_waiting _ stranded.1

theorem not_stranded_take (b : Mailbox μ ω) (work : μ → ω) : ¬ (b.take work).Stranded := by
  rintro ⟨asleep, cause⟩
  unfold take at asleep cause
  split at asleep
  · cases stopped : b.stop <;> simp_all
  · cases asleep

theorem not_stranded_resume {consumer : Consumer ω} (awake : consumer ≠ .waiting) :
    ¬ (b.resume consumer).Stranded := fun stranded => awake stranded.1

theorem backlog_working {w : ω} (working : b.consumer = .working w) :
    b.backlog hand = hand w ++ b.queue := by
  rw [backlog, working]

theorem backlog_idle (idle : ∀ w, b.consumer ≠ .working w) : b.backlog hand = b.queue := by
  unfold backlog
  split
  · exact absurd ‹_› (idle _)
  · rfl

theorem backlog_push (m : μ) : (b.push m).backlog hand = b.backlog hand ++ [m] := by
  unfold backlog push
  cases b.consumer <;> simp

@[simp] theorem backlog_notify : b.notify.backlog hand = b.backlog hand := by
  rcases b with ⟨queue, stop, consumer⟩
  cases consumer <;> rfl

theorem backlog_take (idle : ∀ w, b.consumer ≠ .working w) (takes : ∀ m, hand (work m) = [m]) :
    (b.take work).backlog hand = b.backlog hand := by
  rw [backlog_idle idle, take]
  cases queued : b.queue with
  | nil => cases stopped : b.stop <;> simp [backlog]
  | cons m rest => simp [backlog, takes]

namespace Drains

theorem start : Drains (start : Mailbox μ ω) := ⟨nofun, nofun⟩

theorem push (drains : Drains b) (live : b.stop = false) (m : μ) : Drains (b.push m) := by
  have awake : b.consumer ≠ .returned := by
    intro done
    rw [drains.stopped done] at live
    cases live
  exact ⟨fun done => absurd done awake, fun done => absurd done awake⟩

theorem setStop (drains : Drains b) : Drains b.setStop := ⟨fun _ => rfl, drains.empty⟩

theorem notify (drains : Drains b) : Drains b.notify :=
  ⟨fun done => drains.stopped (notified_eq_returned.mp done),
    fun done => drains.empty (notified_eq_returned.mp done)⟩

theorem take (b : Mailbox μ ω) (work : μ → ω) : Drains (b.take work) := by
  unfold Mailbox.take
  split
  · rename_i empty
    cases stopped : b.stop
    · exact ⟨nofun, nofun⟩
    · exact ⟨fun _ => rfl, fun _ => empty⟩
  · exact ⟨nofun, nofun⟩

theorem resume {consumer : Consumer ω} (goes_on : consumer ≠ .returned) :
    Drains (b.resume consumer) :=
  ⟨fun done => absurd done goes_on, fun done => absurd done goes_on⟩

end Drains

section Remaining

variable {item : Nat} {weight : ω → Nat}

def remaining (item : Nat) (weight : ω → Nat) (b : Mailbox μ ω) : Nat :=
  item * b.queue.length + match b.consumer with
    | .entering => 1
    | .working w => weight w
    | .waiting | .returned => 0

theorem remaining_of_entering (entering : b.consumer = .entering) :
    b.remaining item weight = item * b.queue.length + 1 := by
  rw [remaining, entering]

theorem remaining_of_working {w : ω} (working : b.consumer = .working w) :
    b.remaining item weight = item * b.queue.length + weight w := by
  rw [remaining, working]

theorem remaining_resume_working (b : Mailbox μ ω) (w : ω) :
    (b.resume (.working w)).remaining item weight = item * b.queue.length + weight w := rfl

theorem remaining_resume_entering (b : Mailbox μ ω) :
    (b.resume .entering).remaining item weight = item * b.queue.length + 1 := rfl

theorem remaining_setStop (b : Mailbox μ ω) :
    b.setStop.remaining item weight = b.remaining item weight := rfl

variable (item weight)

theorem remaining_push (b : Mailbox μ ω) (m : μ) :
    (b.push m).remaining item weight = b.remaining item weight + item := by
  simp only [remaining, push, List.length_append, List.length_singleton, Nat.mul_succ]
  omega

theorem remaining_notify_le (b : Mailbox μ ω) :
    b.notify.remaining item weight ≤ b.remaining item weight + 1 := by
  rcases b with ⟨queue, stop, consumer⟩
  cases consumer <;> simp [remaining, notify, Consumer.notified]

theorem remaining_take_lt (work : μ → ω) (entering : b.consumer = .entering)
    (fits : ∀ m, weight (work m) ≤ item) :
    (b.take work).remaining item weight < b.remaining item weight := by
  rw [remaining_of_entering entering, take]
  cases queued : b.queue with
  | nil => cases stopped : b.stop <;> simp [remaining]
  | cons m rest =>
      have fits := fits m
      simp only [remaining, List.length_cons, Nat.mul_succ]
      omega

end Remaining

end Mailbox
