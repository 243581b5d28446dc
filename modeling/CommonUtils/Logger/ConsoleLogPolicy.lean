import CommonUtils.Library.Mailbox
import CommonUtils.Logger.LogPolicy
import Mathlib.Logic.Function.Basic

namespace CommonUtils.Logger.ConsoleLogPolicy

universe u

inductive Call (μ : Type u) where
  | push (message : μ)
  | notifyOne
  | flush
  deriving DecidableEq

inductive Destructor where
  | notStarted
  | setStop
  | notifyAll
  | join
  | drain
  | done
  deriving DecidableEq

/-- The fields with the calls in progress, the lines on the console and, last, the
messages pushed so far. -/
structure State (τ μ : Type u) where
  messageQueue : Mailbox μ μ
  callers : τ → Option (Call μ)
  destructor : Destructor
  console : List μ
  pushed : List μ

inductive Action (τ : Type u) where
  | caller (t : τ)
  | processQueue
  | spurious
  | destructor

variable {τ μ : Type u}

def start (τ μ : Type u) : State τ μ where
  messageQueue := .start
  callers := fun _ => none
  destructor := .notStarted
  console := []
  pushed := []

namespace State

variable (s : State τ μ)

def print (m : μ) : State τ μ := { s with console := s.console ++ [m] }

/-- `ProcessQueue`: the critical section on the queue, or the line of the message in
hand, printed inside the mutex of the console. -/
def processQueue : Option (State τ μ) :=
  match s.messageQueue.consumer with
  | .entering => some { s with messageQueue := s.messageQueue.take id }
  | .waiting => none
  | .working m => some { s.print m with messageQueue := s.messageQueue.resume .entering }
  | .returned => none

/-- The destructor, which prints what is left when it has joined `ProcessQueue`. -/
def destructorStep : Option (State τ μ) :=
  match s.destructor with
  | .notStarted => none
  | .setStop => some { s with messageQueue := s.messageQueue.setStop, destructor := .notifyAll }
  | .notifyAll => some { s with messageQueue := s.messageQueue.notify, destructor := .join }
  | .join =>
      match s.messageQueue.consumer with
      | .returned => some { s with destructor := .drain }
      | _ => none
  | .drain =>
      match s.messageQueue.queue with
      | [] => some { s with destructor := .done }
      | m :: rest => some { s.print m with messageQueue := { s.messageQueue with queue := rest } }
  | .done => none

variable [DecidableEq τ]

def setCaller (t : τ) (call : Option (Call μ)) : State τ μ :=
  { s with callers := Function.update s.callers t call }

def enter (t : τ) (call : Call μ) : Option (State τ μ) :=
  match s.callers t with
  | none => some (s.setCaller t (some call))
  | some _ => none

def callerStep (t : τ) : Option (State τ μ) :=
  match s.callers t with
  | none => none
  | some (.push m) =>
      some { s.setCaller t (some .notifyOne) with
        messageQueue := s.messageQueue.push m
        pushed := s.pushed ++ [m] }
  | some .notifyOne => some { s.setCaller t none with messageQueue := s.messageQueue.notify }
  | some .flush => some (s.setCaller t none)

def destroy : Option (State τ μ) :=
  match s.destructor with
  | .notStarted => some { s with destructor := .setStop }
  | _ => none

end State

variable [DecidableEq τ]

def step (s : State τ μ) : Action τ → Option (State τ μ)
  | .caller t => s.callerStep t
  | .processQueue => s.processQueue
  | .spurious =>
      match s.messageQueue.consumer with
      | .waiting => some { s with messageQueue := s.messageQueue.notify }
      | _ => none
  | .destructor => s.destructorStep

def policy (τ μ : Type u) [DecidableEq τ] : LogPolicy τ μ where
  State := State τ μ
  Action := Action τ
  start := start τ μ
  write s t m := s.enter t (.push m)
  flush s t := s.enter t .flush
  destroy s _ := s.destroy
  returned s t := (s.callers t).isNone
  step := step

def State.announced (s : State τ μ) (t : τ) : List μ :=
  match s.callers t with
  | some (.push m) => [m]
  | _ => []

structure Inv (writer : τ) (use : Use) (written : List μ) (s : State τ μ) : Prop where
  written : written = s.pushed ++ s.announced writer
  pushed : s.pushed = s.console ++ s.messageQueue.backlog fun m => [m]
  alone : ∀ t, t ≠ writer → s.callers t = none ∨ s.callers t = some .flush
  quiet : use ≠ .writing → s.callers writer = none
  live : s.destructor ≠ .notStarted → use = .closed
  stopped : s.messageQueue.stop = true → s.destructor ≠ .notStarted
  drains : s.messageQueue.Drains
  joined : s.destructor = .drain ∨ s.destructor = .done → s.messageQueue.consumer = .returned
  awake : s.messageQueue.Stranded →
    s.callers writer = some .notifyOne ∨ s.destructor = .notifyAll

namespace Inv

variable {writer t : τ} {use : Use} {written : List μ} {s s' : State τ μ}

omit [DecidableEq τ] in
theorem start (writer : τ) : Inv writer .idle [] (start τ μ) where
  written := rfl
  pushed := rfl
  alone := fun _ _ => .inl rfl
  quiet := fun _ => rfl
  live := fun started => absurd rfl started
  stopped := nofun
  drains := .start
  joined := by rintro (here | here) <;> cases here
  awake := fun stranded => absurd stranded Mailbox.not_stranded_start

omit [DecidableEq τ] in
theorem announced_none (absent : s.callers t = none) : s.announced t = [] := by
  rw [State.announced, absent]

theorem enter {call : Call μ} (entered : s.enter t call = some s') :
    s.callers t = none ∧ s' = s.setCaller t (some call) := by
  unfold State.enter at entered
  split at entered <;> cases entered
  exact ⟨‹_›, rfl⟩

theorem write {m : μ} (inv : Inv writer .idle written s)
    (entered : s.enter writer (.push m) = some s') : Inv writer .writing (written ++ [m]) s' := by
  obtain ⟨absent, rfl⟩ := enter entered
  have live : s.destructor = .notStarted := by
    by_contra started
    cases inv.live started
  refine ⟨?_, inv.pushed, ?_, fun other => absurd rfl other, fun started => absurd live started,
    inv.stopped, inv.drains, inv.joined, ?_⟩
  · rw [inv.written, announced_none absent, List.append_nil]
    simp [State.setCaller, State.announced]
  · intro t different
    simpa [State.setCaller, different] using inv.alone t different
  · intro stranded
    rcases inv.awake stranded with calling | notifying
    · rw [absent] at calling
      cases calling
    · exact .inr notifying

theorem flush (different : t ≠ writer) (inv : Inv writer use written s)
    (entered : s.enter t .flush = some s') : Inv writer use written s' := by
  obtain ⟨absent, rfl⟩ := enter entered
  have same : (s.setCaller t (some .flush)).callers writer = s.callers writer :=
    Function.update_of_ne (Ne.symm different) _ _
  refine ⟨?_, inv.pushed, ?_, ?_, inv.live, inv.stopped, inv.drains, inv.joined, ?_⟩
  · rw [inv.written, State.announced, State.announced, same]
    rfl
  · intro u other
    by_cases me : u = t
    · subst me
      exact .inr (Function.update_self _ _ _)
    · simpa [State.setCaller, me] using inv.alone u other
  · rw [same]
    exact inv.quiet
  · rw [same]
    exact inv.awake

theorem is_writer (inv : Inv writer use written s) {call : Call μ} (here : s.callers t = some call)
    (writes : call ≠ .flush) : t = writer := by
  by_contra different
  rcases inv.alone t different with absent | flushing
  · rw [absent] at here
    cases here
  · rw [flushing] at here
    cases here
    exact writes rfl

omit [DecidableEq τ] in
theorem not_destroyed (inv : Inv writer use written s) {call : Call μ}
    (here : s.callers writer = some call) : s.destructor = .notStarted := by
  by_contra started
  have idle := inv.quiet (by rw [inv.live started]; nofun)
  rw [idle] at here
  cases here

theorem push {m : μ} (inv : Inv writer use written s) (here : s.callers writer = some (.push m)) :
    Inv writer use written { s.setCaller writer (some .notifyOne) with
      messageQueue := s.messageQueue.push m
      pushed := s.pushed ++ [m] } := by
  have live := inv.not_destroyed here
  have running : s.messageQueue.stop = false := by
    apply Bool.eq_false_iff.mpr
    intro stopped
    exact inv.stopped stopped live
  refine ⟨?_, ?_, ?_, ?_, inv.live, inv.stopped, inv.drains.push running m, ?_, ?_⟩
  · rw [inv.written, State.announced, here]
    simp [State.announced, State.setCaller]
  · rw [Mailbox.backlog_push, inv.pushed, List.append_assoc]
    rfl
  · intro u other
    simpa [State.setCaller, other] using inv.alone u other
  · intro other
    rw [inv.quiet other] at here
    cases here
  · intro late
    simp only [State.setCaller, live] at late
    rcases late with late | late <;> cases late
  · intro _
    exact .inl (Function.update_self _ _ _)

theorem notifyOne (inv : Inv writer use written s) (here : s.callers writer = some .notifyOne) :
    Inv writer use written { s.setCaller writer none with
      messageQueue := s.messageQueue.notify } := by
  have live := inv.not_destroyed here
  refine ⟨?_, ?_, ?_, fun _ => Function.update_self _ _ _, inv.live, inv.stopped,
    inv.drains.notify, ?_, fun stranded => absurd stranded (Mailbox.not_stranded_notify _)⟩
  · rw [inv.written, State.announced, here]
    simp [State.announced, State.setCaller]
  · rw [Mailbox.backlog_notify]
    exact inv.pushed
  · intro u other
    simpa [State.setCaller, other] using inv.alone u other
  · intro late
    simp only [State.setCaller, live] at late
    rcases late with late | late <;> cases late

theorem flushed (inv : Inv writer use written s) (here : s.callers t = some .flush) :
    Inv writer use written (s.setCaller t none) := by
  have keeps : ∀ u, (s.setCaller t none).callers u = s.callers u ∨
      (s.setCaller t none).callers u = none ∧ s.callers u = some .flush := by
    intro u
    by_cases me : u = t
    · subst me
      exact .inr ⟨Function.update_self _ _ _, here⟩
    · exact .inl (Function.update_of_ne me _ _)
  refine ⟨?_, inv.pushed, ?_, ?_, inv.live, inv.stopped, inv.drains, inv.joined, ?_⟩
  · rw [inv.written, State.announced, State.announced]
    rcases keeps writer with same | ⟨gone, before⟩
    · rw [same]
      rfl
    · rw [gone, before]
      rfl
  · intro u other
    rcases keeps u with same | ⟨gone, _⟩
    · rw [same]
      exact inv.alone u other
    · exact .inl gone
  · intro other
    rcases keeps writer with same | ⟨gone, _⟩
    · rw [same]
      exact inv.quiet other
    · exact gone
  · intro stranded
    rcases keeps writer with same | ⟨_, before⟩
    · rw [same]
      exact inv.awake stranded
    · rcases inv.awake stranded with calling | notifying
      · rw [before] at calling
        cases calling
      · exact .inr notifying

theorem callerStep (inv : Inv writer use written s) (taken : s.callerStep t = some s') :
    Inv writer use written s' := by
  unfold State.callerStep at taken
  split at taken <;> cases taken
  case h_2 m here =>
    obtain rfl := inv.is_writer here nofun
    exact inv.push here
  case h_3 here =>
    obtain rfl := inv.is_writer here nofun
    exact inv.notifyOne here
  case h_4 here => exact inv.flushed here

omit [DecidableEq τ] in
theorem processQueue (inv : Inv writer use written s) (taken : s.processQueue = some s') :
    Inv writer use written s' := by
  unfold State.processQueue at taken
  split at taken <;> cases taken
  case h_1 entering =>
    have idle : ∀ m, s.messageQueue.consumer ≠ .working m := by
      rw [entering]
      intro m busy
      cases busy
    refine ⟨inv.written, ?_, inv.alone, inv.quiet, inv.live, ?_, .take _ _, ?_, ?_⟩
    · rw [Mailbox.backlog_take idle fun _ => rfl]
      exact inv.pushed
    · rw [Mailbox.stop_take]
      exact inv.stopped
    · intro late
      rw [inv.joined late] at entering
      cases entering
    · exact fun stranded => absurd stranded (Mailbox.not_stranded_take _ _)
  case h_3 m working =>
    refine ⟨inv.written, ?_, inv.alone, inv.quiet, inv.live, inv.stopped, .resume ?_, ?_, ?_⟩
    · have pushed := inv.pushed
      rw [Mailbox.backlog, working] at pushed
      simpa [State.print, Mailbox.backlog, Mailbox.resume] using pushed
    · intro done
      cases done
    · intro late
      rw [inv.joined late] at working
      cases working
    · intro stranded
      cases stranded.1

omit [DecidableEq τ] in
theorem spurious (inv : Inv writer use written s) (asleep : s.messageQueue.consumer = .waiting) :
    Inv writer use written { s with messageQueue := s.messageQueue.notify } := by
  refine ⟨inv.written, ?_, inv.alone, inv.quiet, inv.live, inv.stopped, inv.drains.notify, ?_,
    fun stranded => absurd stranded (Mailbox.not_stranded_notify _)⟩
  · rw [Mailbox.backlog_notify]
    exact inv.pushed
  · intro late
    rw [inv.joined late] at asleep
    cases asleep

omit [DecidableEq τ] in
theorem destroy (inv : Inv writer .closed written s) (taken : s.destroy = some s') :
    Inv writer .closed written s' := by
  unfold State.destroy at taken
  split at taken <;> cases taken
  rename_i idle
  refine ⟨inv.written, inv.pushed, inv.alone, inv.quiet, fun _ => rfl, nofun, inv.drains, ?_, ?_⟩
  · rintro (late | late) <;> cases late
  · intro stranded
    rcases inv.awake stranded with calling | notifying
    · exact .inl calling
    · rw [idle] at notifying
      cases notifying

omit [DecidableEq τ] in
theorem destructorStep (inv : Inv writer use written s) (taken : s.destructorStep = some s') :
    Inv writer use written s' := by
  unfold State.destructorStep at taken
  have ended : s.destructor ≠ .notStarted → use = .closed := inv.live
  split at taken
  case h_1 => cases taken
  case h_2 here =>
    cases taken
    rw [here] at ended
    exact ⟨inv.written, inv.pushed, inv.alone, inv.quiet, fun _ => ended nofun, fun _ => nofun,
      inv.drains.setStop, nofun, fun _ => .inr rfl⟩
  case h_3 here =>
    cases taken
    rw [here] at ended
    refine ⟨inv.written, ?_, inv.alone, inv.quiet, fun _ => ended nofun, fun _ => nofun,
      inv.drains.notify, ?_, fun stranded => absurd stranded (Mailbox.not_stranded_notify _)⟩
    · rw [Mailbox.backlog_notify]
      exact inv.pushed
    · rintro (late | late) <;> cases late
  case h_4 here =>
    split at taken <;> cases taken
    rename_i returned
    rw [here] at ended
    refine ⟨inv.written, inv.pushed, inv.alone, inv.quiet, fun _ => ended nofun, fun _ => nofun,
      inv.drains, fun _ => returned,
      fun stranded => absurd stranded (Mailbox.not_stranded_of_returned returned)⟩
  case h_5 here =>
    have returned := inv.joined (.inl here)
    rw [inv.drains.empty returned] at taken
    cases taken
    rw [here] at ended
    refine ⟨inv.written, inv.pushed, inv.alone, inv.quiet, fun _ => ended nofun, fun _ => nofun,
      inv.drains, fun _ => returned,
      fun stranded => absurd stranded (Mailbox.not_stranded_of_returned returned)⟩
  case h_6 => cases taken

theorem step {a : Action τ} (inv : Inv writer use written s)
    (taken : ConsoleLogPolicy.step s a = some s') : Inv writer use written s' := by
  cases a with
  | caller t => exact inv.callerStep taken
  | processQueue => exact inv.processQueue taken
  | spurious =>
      simp only [ConsoleLogPolicy.step] at taken
      split at taken <;> cases taken
      exact inv.spurious ‹_›
  | destructor => exact inv.destructorStep taken

theorem keeps (writer : τ) : (policy τ μ).Keeps writer (fun _ _ => True) (Inv writer) where
  write := write
  finish := fun inv returned =>
    { inv with
      quiet := fun _ => Option.isNone_iff_eq_none.mp returned
      live := fun started => nomatch inv.live started }
  flush := flush
  step := fun inv _ taken => inv.step taken
  close := fun inv =>
    { inv with quiet := fun _ => inv.quiet nofun, live := fun _ => rfl }
  destroy := fun _ inv taken => inv.destroy taken

omit [DecidableEq τ] in
theorem console_le_written (inv : Inv writer use written s) : s.console <+: written := by
  rw [inv.written, inv.pushed, List.append_assoc]
  exact List.prefix_append _ _

omit [DecidableEq τ] in
theorem console_of_done (inv : Inv writer use written s) (done : s.destructor = .done) :
    s.console = written := by
  have returned := inv.joined (.inr done)
  have idle := inv.quiet (by rw [inv.live (by rw [done]; nofun)]; nofun)
  have empty : (s.messageQueue.backlog fun m => [m]) = [] := by
    rw [Mailbox.backlog, returned]
    exact inv.drains.empty returned
  rw [inv.written, inv.pushed, empty, announced_none idle, List.append_nil, List.append_nil]

end Inv

end CommonUtils.Logger.ConsoleLogPolicy
