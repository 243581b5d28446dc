import CommonUtils.TCP.SessionRead
import CommonUtils.TCP.SessionWrite

namespace CommonUtils.TCP.SessionActivity

/-- The two paths with the fields they share, and the time of the latest among the
construction and the completions without an error. -/
structure State where
  read : SessionRead.State
  write : SessionWrite.State
  latest : Int

inductive Action where
  | read (a : SessionRead.Action)
  | write (a : SessionWrite.Action)

def start (now : Int) : State where
  read := SessionRead.start now
  write := SessionWrite.start now
  latest := now

/-- `SystemClock` counts nanoseconds. -/
def seconds (clockTime : Int) : Int := clockTime * 1000000000

namespace State

variable (s : State)

def lastActiveTime : Int := s.write.lastActiveTime

def checkTimeout (clockTime now : Int) : Bool := now - s.lastActiveTime > seconds clockTime

def setRead (read : SessionRead.State) : State :=
  { s with
    read
    write := { s.write with
      lastActiveTime := read.lastActiveTime
      socketOpen := s.write.socketOpen && !read.closed } }

def setWrite (write : SessionWrite.State) : State :=
  { s with write, read := { s.read with lastActiveTime := write.lastActiveTime } }

/-- A closed socket gives no bytes; a completion can still be queued. -/
def readable : SessionRead.Action → Bool
  | .readSome _ => s.write.socketOpen
  | .asyncRead _ | .asyncReadError => true

end State

def Action.completion : Action → Option Int
  | .read (.asyncRead now) => some now
  | .write (.asyncWrite _ true now) => some now
  | _ => none

def next (endOfMessage : SessionRead.Data) (s : State) : Action → Option State
  | .read a =>
      if s.readable a then (SessionRead.step endOfMessage s.read a).map s.setRead else none
  | .write a => (SessionWrite.step s.write a).map s.setWrite

/-- The times of the completions do not decrease. -/
def step (endOfMessage : SessionRead.Data) (s : State) (a : Action) : Option State :=
  match a.completion with
  | none => next endOfMessage s a
  | some now =>
      if s.latest ≤ now then
        (next endOfMessage s a).map fun s' => { s' with latest := now }
      else none

def machine (endOfMessage : SessionRead.Data) (now : Int) : Machine State Action where
  start := start now
  step := step endOfMessage

/-- `CheckTimeout` says at every time from now on whether the session is idle. -/
def Exact (s : State) : Prop :=
  ∀ now ≥ s.latest, ∀ clockTime,
    s.checkTimeout clockTime now = true ↔ now - s.latest > seconds clockTime

/-- A write ends the queue and its time is not noted. -/
def Forgets (s : State) : Action → Prop
  | .write (.asyncWrite _ true now) =>
      s.write.writeQueue.length ≤ 1 ∧ s.lastActiveTime < now
  | _ => False

structure Inv (s : State) : Prop where
  shared : s.read.lastActiveTime = s.write.lastActiveTime
  past : s.lastActiveTime ≤ s.latest

theorem exact_iff {s : State} (inv : Inv s) : Exact s ↔ s.lastActiveTime = s.latest := by
  constructor
  · intro precise
    have now := precise s.latest (Int.le_refl _) 0
    rw [State.checkTimeout, decide_eq_true_eq, seconds] at now
    have past := inv.past
    omega
  · intro same now _ clockTime
    rw [State.checkTimeout, same, decide_eq_true_eq]

def refreshed (s : State) : Action → Int
  | .read (.asyncRead now) => now
  | .write (.asyncWrite _ true now) =>
      if s.write.writeQueue.length ≤ 1 then s.lastActiveTime else now
  | _ => s.lastActiveTime

theorem read_refreshes {endOfMessage : SessionRead.Data} {s : State} {a : SessionRead.Action}
    {read : SessionRead.State} (inv : Inv s)
    (taken : SessionRead.step endOfMessage s.read a = some read) :
    read.lastActiveTime = refreshed s (.read a) := by
  cases a with
  | readSome chunk =>
      simp only [SessionRead.step] at taken
      split at taken <;> cases taken
      exact inv.shared
  | asyncRead now =>
      simp only [SessionRead.step] at taken
      split at taken <;> cases taken
      dsimp only [SessionRead.State.asyncRead]
      split <;> rfl
  | asyncReadError =>
      simp only [SessionRead.step] at taken
      split at taken <;> cases taken
      exact inv.shared

theorem sentData_refreshes {w w' : SessionWrite.State} {data : SessionWrite.Data}
    (taken : w.sentData data = some w') : w'.lastActiveTime = w.lastActiveTime := by
  simp only [SessionWrite.State.sentData] at taken
  split at taken
  · cases taken
    rfl
  · simp only [SessionWrite.State.doWrite] at taken
    split at taken <;> cases taken
    rfl

theorem writeSucceeded_refreshes {w w' : SessionWrite.State} {now : Int}
    (taken : w.writeSucceeded now = some w') :
    w'.lastActiveTime = if w.writeQueue.length ≤ 1 then w.lastActiveTime else now := by
  unfold SessionWrite.State.writeSucceeded at taken
  cases queue : w.writeQueue with
  | nil => simp [queue] at taken
  | cons front rest =>
      cases rest with
      | nil =>
          simp only [queue, List.isEmpty_nil, ↓reduceIte, Option.some.injEq] at taken
          subst taken
          rfl
      | cons second later =>
          simp only [queue, SessionWrite.State.doWrite] at taken
          cases taken
          rfl

theorem write_refreshes {s : State} {a : SessionWrite.Action} {write : SessionWrite.State}
    (taken : SessionWrite.step s.write a = some write) :
    write.lastActiveTime = refreshed s (.write a) := by
  cases a with
  | sentData data => exact sentData_refreshes taken
  | close =>
      cases taken
      rfl
  | transfer op count =>
      simp only [SessionWrite.step] at taken
      split at taken
      · cases taken
      · split at taken <;> cases taken
        rfl
  | asyncWrite op success now =>
      simp only [SessionWrite.step] at taken
      split at taken
      · cases taken
      · cases success with
        | false =>
            cases taken
            rfl
        | true =>
            simp only [↓reduceIte] at taken
            split at taken
            · have noted := writeSucceeded_refreshes taken
              exact noted
            · cases taken

theorem next_refreshes {endOfMessage : SessionRead.Data} {s s' : State} {a : Action}
    (inv : Inv s) (taken : next endOfMessage s a = some s') :
    s'.lastActiveTime = refreshed s a ∧ s'.read.lastActiveTime = s'.write.lastActiveTime ∧
      s'.latest = s.latest := by
  cases a with
  | read a =>
      rw [next] at taken
      split at taken
      · rcases Option.map_eq_some_iff.mp taken with ⟨read, moved, rfl⟩
        exact ⟨read_refreshes inv moved, rfl, rfl⟩
      · cases taken
  | write a =>
      rcases Option.map_eq_some_iff.mp taken with ⟨write, moved, rfl⟩
      exact ⟨write_refreshes moved, rfl, rfl⟩

theorem step_effect {endOfMessage : SessionRead.Data} {s s' : State} {a : Action}
    (inv : Inv s) (taken : step endOfMessage s a = some s') :
    s'.lastActiveTime = refreshed s a ∧ s'.read.lastActiveTime = s'.write.lastActiveTime ∧
      match a.completion with
      | none => s'.latest = s.latest
      | some now => s.latest ≤ now ∧ s'.latest = now := by
  unfold step at taken
  cases completed : a.completion with
  | none =>
      rw [completed] at taken
      exact next_refreshes inv taken
  | some now =>
      simp only [completed] at taken
      split at taken
      · rcases Option.map_eq_some_iff.mp taken with ⟨moved, ran, rfl⟩
        have effect := next_refreshes inv ran
        exact ⟨effect.1, effect.2.1, ‹_›, rfl⟩
      · cases taken

theorem Inv.step {endOfMessage : SessionRead.Data} {s s' : State} {a : Action} (inv : Inv s)
    (taken : step endOfMessage s a = some s') : Inv s' := by
  have effect := step_effect inv taken
  have past := inv.past
  refine ⟨effect.2.1, ?_⟩
  rcases a with (_ | now | _) | (_ | _ | ⟨op, success, now⟩ | _)
  case write.asyncWrite =>
    cases success with
    | false =>
        simp only [refreshed, Action.completion] at effect
        omega
    | true =>
        simp only [refreshed, Action.completion] at effect
        split at effect <;> omega
  all_goals
    simp only [refreshed, Action.completion] at effect
    omega

theorem exact_step {endOfMessage : SessionRead.Data} {s s' : State} {a : Action} (inv : Inv s)
    (precise : Exact s) (taken : step endOfMessage s a = some s') :
    Exact s' ↔ ¬ Forgets s a := by
  have effect := step_effect inv taken
  have same := (exact_iff inv).mp precise
  rw [exact_iff (inv.step taken)]
  rcases a with (_ | now | _) | (_ | _ | ⟨op, success, now⟩ | _)
  case write.asyncWrite =>
    cases success with
    | false =>
        simp only [refreshed, Action.completion, Forgets, not_false_eq_true, iff_true] at effect ⊢
        omega
    | true =>
        simp only [refreshed, Action.completion, Forgets] at effect ⊢
        split at effect <;> omega
  all_goals
    simp only [refreshed, Action.completion, Forgets, not_false_eq_true, iff_true] at effect ⊢
    omega

/-- The activity of a session is tracked exactly in just those runs in which no write
that ends the queue comes later than what is noted. -/
theorem exact_iff_never_forgets (endOfMessage : SessionRead.Data) (now : Int)
    (as : List Action) :
    (machine endOfMessage now).AllStates Exact (start now) as ↔
      (machine endOfMessage now).AllSteps (fun s a => ¬ Forgets s a) (start now) as := by
  have initial : Inv (start now) := ⟨rfl, Int.le_refl _⟩
  exact Machine.allStates_iff_allSteps (I := Inv) (fun s a s' inv _ taken => inv.step taken)
    (fun s a s' inv _ precise taken => exact_step inv precise taken) initial
    ((exact_iff initial).mpr rfl) (Machine.allSteps_true _ _)

/-- One message sent, its write done 40 seconds later. -/
def oneWrite : List Action :=
  [.write (.sentData [1]), .write (.transfer 0 1), .write (.asyncWrite 0 true (seconds 40))]

/-- The session has just been active and yet counts as idle for 40 seconds. -/
theorem write_forgotten : ∃ s, (machine [10] 0).run oneWrite = some s ∧
    s.latest = seconds 40 ∧ s.checkTimeout 30 (seconds 40) = true ∧
      ¬ seconds 40 - s.latest > seconds 30 :=
  ⟨_, rfl, rfl, rfl, by decide⟩

end CommonUtils.TCP.SessionActivity
