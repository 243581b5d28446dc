import CommonUtils.Logger.Delivery
import CommonUtils.Logger.FileLogPolicy.Policy

/-! `Logger::Flush` is to force all buffered logs to be written. It asks each policy to
flush and waits for nothing: what is not written when it is called may still be in
`queue_`, in the hand of `ProcessQueue`, in a buffer of a `FileLogPolicy` or in the
buffer of its stream when it returns. -/

namespace CommonUtils.Logger

universe u v

variable {τ μ : Type u} {ι κ : Type v}

def Call.owes : Call τ μ → List (Entry τ μ)
  | .push _ => []
  | .notifyOne e => [e]
  | .lock owed | .next owed _ | .inside owed _ => owed

section Owed

variable {P : ι → LogPolicy (Thread τ) (Entry τ μ)}

structure Owed (s : State P) : Prop where
  returned : s.returned ⊆ s.entered
  calls : ∀ c call, s.calls c = some call → call.owes ⊆ s.entered
  flushed : s.flushed ⊆ s.entered

namespace Owed

variable {s : State P} {c : Caller τ}

theorem start (P : ι → LogPolicy (Thread τ) (Entry τ μ)) : Owed (start P) :=
  ⟨List.Subset.refl _, nofun, List.Subset.refl _⟩

variable [DecidableEq τ]

theorem move (owed : Owed s) (next : Option (Call τ μ))
    (entered : ∀ call, next = some call → call.owes ⊆ s.entered) : Owed (s.setCall c next) := by
  refine ⟨owed.returned, ?_, owed.flushed⟩
  intro c' call here
  by_cases me : c' = c
  · subst me
    simp only [State.setCall, Function.update_self] at here
    exact entered call here
  · simp only [State.setCall, Function.update_of_ne me] at here
    exact owed.calls c' call here

theorem goto (owed : Owed s) (next : Call τ μ) (entered : next.owes ⊆ s.entered) :
    Owed (s.setCall c (some next)) := by
  apply owed.move
  intro call here
  cases here
  exact entered

theorem push (owed : Owed s) {e : Entry τ μ} :
    Owed { s.setCall c (some (.notifyOne e)) with
      queue := s.queue.push e
      entered := s.entered ++ [e] } := by
  refine ⟨List.subset_append_of_subset_left _ owed.returned, ?_,
    List.subset_append_of_subset_left _ owed.flushed⟩
  intro c' call here
  by_cases me : c' = c
  · subst me
    simp only [State.setCall, Function.update_self, Option.some.injEq] at here
    subst here
    exact List.subset_append_right _ _
  · simp only [State.setCall, Function.update_of_ne me] at here
    exact List.subset_append_of_subset_left _ (owed.calls c' call here)

theorem step [DecidableEq ι] {s' : State P} {a : Action P} (owed : Owed s)
    (taken : Logger.step s a = some s') : Owed s' := by
  cases step_takes taken with
  | log t message absent =>
      have moved := owed.goto (c := .thread t) (.push ⟨s.logged.length, t, message⟩)
        (List.nil_subset _)
      exact ⟨moved.returned, moved.calls, moved.flushed⟩
  | flush t absent => exact owed.goto (.lock s.returned) owed.returned
  | push c e mine free => exact owed.push
  | notifyOne c e mine =>
      have moved := owed.move (c := c) none nofun
      exact ⟨List.append_subset.mpr ⟨owed.returned, owed.calls c _ mine⟩, moved.calls,
        moved.flushed⟩
  | lock c owes mine free =>
      have moved := owed.goto (c := c) (.next owes 0) (owed.calls c (.lock owes) mine)
      exact ⟨moved.returned, moved.calls, moved.flushed⟩
  | flushPolicy c owes i p state mine here begun =>
      have moved := owed.goto (c := c) (.inside owes i) (owed.calls c (.next owes i) mine)
      exact ⟨moved.returned, moved.calls, moved.flushed⟩
  | flushReturned c owes i mine =>
      exact owed.goto (.next owes (i + 1)) (owed.calls c (.inside owes i) mine)
  | flushed c owes i mine last =>
      have moved := owed.move (c := c) none nofun
      exact ⟨moved.returned, moved.calls,
        List.append_subset.mpr ⟨owed.flushed, owed.calls c _ mine⟩⟩
  | timerFlush absent =>
      have moved := owed.goto (c := .timerTask) (.lock s.returned) owed.returned
      exact ⟨moved.returned, moved.calls, moved.flushed⟩
  | _ => exact ⟨owed.returned, owed.calls, owed.flushed⟩

end Owed

end Owed

section Waiting

variable {P : ι → LogPolicy (Thread τ) (Entry τ μ)}

namespace State

def inHand [DecidableEq ι] (s : State P) (p : ι) : List (Entry τ μ) :=
  match s.queue.consumer with
  | .working d => if p ∈ s.policies.take (d.index + d.inside.toNat) then [] else [d.entry]
  | _ => []

theorem inHand_working [DecidableEq ι] {s : State P} {d : Delivery τ μ}
    (working : s.queue.consumer = .working d) (p : ι) : s.inHand p =
      if p ∈ s.policies.take (d.index + d.inside.toNat) then [] else [d.entry] := by
  rw [inHand, working]

theorem inHand_idle [DecidableEq ι] {s : State P} (idle : ∀ d, s.queue.consumer ≠ .working d)
    (p : ι) : s.inHand p = [] := by
  unfold inHand
  split
  · exact absurd ‹_› (idle _)
  · rfl

end State

variable [DecidableEq τ] [DecidableEq ι]

theorem Ledger.mem_received {s : State P} (ledger : Ledger s)
    {e : Entry τ μ} (entered : e ∈ s.entered) {p : ι} (added : p ∈ s.policies)
    (taken : e ∉ s.queue.queue) (handed : e ∉ s.inHand p) : e ∈ s.received p := by
  have written : (p, e) ∈ s.writes := by
    rcases ledger.handed with ⟨delivered, split, writes⟩
    rw [writes, List.mem_append]
    rw [split, List.mem_append] at entered
    rcases entered with before | after
    · left
      rw [rounds, List.mem_flatMap]
      exact ⟨e, before, List.mem_map.mpr ⟨p, added, rfl⟩⟩
    · right
      cases working : s.queue.consumer with
      | working d =>
          rw [State.backlog, Mailbox.backlog_working working, List.mem_append,
            List.mem_singleton] at after
          rcases after with same | queued
          · subst same
            rw [State.inHand_working working] at handed
            rw [begun_working working]
            exact List.mem_map.mpr ⟨p, by simpa using handed, rfl⟩
          · exact absurd queued taken
      | _ =>
          have idle : ∀ d, s.queue.consumer ≠ .working d := by
            rw [working]
            intro d busy
            cases busy
          rw [State.backlog, Mailbox.backlog_idle idle] at after
          exact absurd after taken
  rw [State.received, List.mem_map]
  exact ⟨(p, e), by simpa using written, rfl⟩

end Waiting

section Files

variable [DecidableEq τ] [DecidableEq ι] [DecidableEq κ]

/-- `FileLogPolicy` objects among policies of any other kind. -/
def withFiles (κ : Type v) (others : ι → LogPolicy (Thread τ) (Entry τ μ)) :
    κ ⊕ ι → LogPolicy (Thread τ) (Entry τ μ)
  | .inl _ => FileLogPolicy.policy (Thread τ) (Entry τ μ)
  | .inr i => others i

variable {others : ι → LogPolicy (Thread τ) (Entry τ μ)}

def State.file (s : State (withFiles κ others)) (f : κ) :
    FileLogPolicy.State (Thread τ) (Entry τ μ) :=
  s.policy (.inl f)

/-- Every policy has been handed the message, and every file has it on the disk. -/
structure Landed (s : State (withFiles κ others)) (e : Entry τ μ) : Prop where
  handed : ∀ p ∈ s.policies, e ∈ s.received p
  filed : ∀ f, .inl f ∈ s.policies → e ∈ (s.file f).disk

namespace State

variable (s : State (withFiles κ others))

def unfiled : κ ⊕ ι → List (Entry τ μ)
  | .inl f => (s.file f).unfiled .processQueue
  | .inr _ => []

/-- What waits for `p`: in `queue_`, in the hand of `ProcessQueue`, in a `Write` that has
not pushed it, in a buffer or in the stream. -/
def waiting (p : κ ⊕ ι) : List (Entry τ μ) := s.queue.queue ++ s.inHand p ++ s.unfiled p

end State

/-- Nothing waits whose `Log` has returned. -/
def Settled (s : State (withFiles κ others)) : Prop :=
  ∀ e ∈ s.returned, ∀ p ∈ s.policies, e ∉ s.waiting p

/-- The calls of a file do not overlap. -/
def Unraced (s : State (withFiles κ others)) : Action (withFiles κ others) → Prop
  | .policy (.inl f) a => FileLogPolicy.Exclusive (s.file f) a
  | _ => True

def Caller.flush {P : ι → LogPolicy (Thread τ) (Entry τ μ)} : Caller τ → Action P
  | .timerTask => .timerTask
  | .thread t => .flush t

/-- `c` calls `Flush`. Whenever it has returned, all that had been logged before has landed. -/
def Keeps (c : Caller τ) (s : State (withFiles κ others)) : Prop :=
  ∀ called s', Allowed s c.flush → Logger.step s c.flush = some called →
    called.calls c = some (.lock s.returned) →
      (machine (withFiles κ others)).ReachFrom (fun s a => Allowed s a ∧ Unraced s a) called s' →
        s'.calls c = none → ∀ e ∈ s.returned, Landed s' e

omit [DecidableEq τ] in
theorem handed_keeps (policy : LogPolicy (Thread τ) (Entry τ μ)) (e : Entry τ μ) :
    policy.Keeps .processQueue (fun _ _ => True) fun _ written _ => e ∈ written where
  write handed _ := List.mem_append_left _ handed
  finish handed _ := handed
  flush _ handed _ := handed
  step handed _ _ := handed
  close handed := handed
  destroy _ handed _ := handed

abbrev HoldsFiled (f : κ) (s : State (withFiles κ others)) : Prop :=
  Holds (.inl f) (fun _ written (file : FileLogPolicy.State _ _) =>
    FileLogPolicy.Filed .processQueue written file) s

section Step

variable {s s' : State (withFiles κ others)} {a : Action (withFiles κ others)} {e : Entry τ μ}

theorem filed_step (ledger : Ledger s) (lifecycle : Lifecycle s) (filed : ∀ f, HoldsFiled f s)
    (unraced : Unraced s a) (taken : Logger.step s a = some s') : ∀ f, HoldsFiled f s' := by
  intro f
  have keeps : (withFiles κ others (.inl f)).Keeps .processQueue FileLogPolicy.Exclusive
      fun _ written (file : FileLogPolicy.State _ _) =>
        FileLogPolicy.Filed .processQueue written file :=
    FileLogPolicy.Filed.keeps _
  apply Holds.step keeps ledger lifecycle (filed f) _ taken
  intro b same
  subst same
  exact unraced

theorem Landed.of_settled (ledger : Ledger s) (filed : ∀ f, HoldsFiled f s)
    (entered : e ∈ s.entered) (settled : ∀ p ∈ s.policies, e ∉ s.waiting p) : Landed s e := by
  have free : ∀ p ∈ s.policies, (e ∉ s.queue.queue ∧ e ∉ s.inHand p) ∧ e ∉ s.unfiled p := by
    intro p added
    have nowhere := settled p added
    rw [State.waiting, List.mem_append, List.mem_append, not_or, not_or] at nowhere
    exact nowhere
  have received : ∀ p ∈ s.policies, e ∈ s.received p := fun p added =>
    ledger.mem_received entered added (free p added).1.1 (free p added).1.2
  exact ⟨received, fun f added => (filed f).mem_disk (received _ added) (free _ added).2⟩

theorem Ledger.policies_step (ledger : Ledger s) (allowed : Allowed s a) (entered : e ∈ s.entered)
    (taken : Logger.step s a = some s') : s'.policies = s.policies := by
  cases step_takes taken with
  | addPolicy p =>
      rw [ledger.entered_nil allowed] at entered
      cases entered
  | _ => rfl

theorem Landed.step (ledger : Ledger s) (lifecycle : Lifecycle s) (filed : ∀ f, HoldsFiled f s)
    (allowed : Allowed s a) (entered : e ∈ s.entered) (landed : Landed s e)
    (taken : Logger.step s a = some s') : Landed s' e := by
  have policies := ledger.policies_step allowed entered taken
  constructor
  · intro p added
    rw [policies] at added
    exact Holds.step (handed_keeps _ e) ledger lifecycle (landed.handed p added)
      (fun _ _ => trivial) taken
  · intro f added
    rw [policies] at added
    have keeps : (withFiles κ others (.inl f)).Keeps .processQueue (fun _ _ => True)
        fun _ _ (file : FileLogPolicy.State _ _) => e ∈ file.disk ∧ file.disk <+: file.file :=
      FileLogPolicy.disk_keeps _ _
    have before : Holds (.inl f) (fun _ _ (file : FileLogPolicy.State _ _) =>
        e ∈ file.disk ∧ file.disk <+: file.file) s := ⟨landed.filed f added, (filed f).flushed⟩
    exact (Holds.step keeps ledger lifecycle before (fun _ _ => trivial) taken).1

theorem entered_step (entered : e ∈ s.entered) (taken : Logger.step s a = some s') :
    e ∈ s'.entered := by
  cases step_takes taken with
  | push c e' mine free => exact List.mem_append_left _ entered
  | _ => exact entered

end Step

structure Sound (s : State (withFiles κ others)) : Prop where
  ledger : Ledger s
  lifecycle : Lifecycle s
  owed : Owed s
  filed : ∀ f, HoldsFiled f s

namespace Sound

variable {s s' : State (withFiles κ others)} {a : Action (withFiles κ others)}

theorem start : Sound (start (withFiles κ others)) :=
  ⟨.start _, .start _, .start _, fun _ => FileLogPolicy.Filed.start _⟩

theorem step (sound : Sound s) (allowed : Allowed s a) (unraced : Unraced s a)
    (taken : Logger.step s a = some s') : Sound s' where
  ledger := sound.ledger.step allowed taken
  lifecycle := sound.lifecycle.step sound.ledger allowed taken
  owed := sound.owed.step taken
  filed := filed_step sound.ledger sound.lifecycle sound.filed unraced taken

theorem landed_run (sound : Sound s) {e : Entry τ μ} (entered : e ∈ s.entered)
    (landed : Landed s e)
    (reached : (machine (withFiles κ others)).ReachFrom
      (fun s a => Allowed s a ∧ Unraced s a) s s') : Landed s' e := by
  have all : Sound s' ∧ e ∈ s'.entered ∧ Landed s' e := by
    apply reached.invariant (I := fun s => Sound s ∧ e ∈ s.entered ∧ Landed s e)
    · exact ⟨sound, entered, landed⟩
    · rintro s a s' ⟨sound, entered, landed⟩ ⟨allowed, unraced⟩ taken
      exact ⟨sound.step allowed unraced taken, entered_step entered taken,
        landed.step sound.ledger sound.lifecycle sound.filed allowed entered taken⟩
  exact all.2.2

end Sound

theorem calls_of_flush {s called : State (withFiles κ others)} {t : τ}
    (begun : Logger.step s (.flush t) = some called) :
    called.calls (.thread t) = some (.lock s.returned) := by
  cases step_takes begun with
  | flush t absent => exact Function.update_self _ _ _

instance [DecidableEq μ] (s : State (withFiles κ others)) : Decidable (Settled s) :=
  inferInstanceAs (Decidable (∀ e ∈ s.returned, ∀ p ∈ s.policies, e ∉ s.waiting p))

end Files

section Runs

abbrev Files : Unit ⊕ Empty → LogPolicy (Thread Unit) (Entry Unit Nat) :=
  withFiles Unit fun i => i.elim

instance : Fintype (Thread Unit) where
  elems := {.processQueue, .caller .timerTask, .caller (.thread ()), .owner}
  complete := by
    rintro (_ | (_ | _) | _) <;> simp

instance (s : State Files) : (a : Action Files) → Decidable (Unraced s a)
  | .policy (.inl f) a => FileLogPolicy.decidableExclusive (s.file f) a
  | .policy (.inr i) _ => i.elim
  | .addPolicy _ | .log _ _ | .flush _ | .caller _ | .processQueue | .spurious | .timerTask
  | .destroy | .destructor | .destroyPolicy _ => isTrue trivial

def file (a : FileLogPolicy.Action (Thread Unit) (Entry Unit Nat)) : Action Files :=
  .policy (.inl ()) a

def writtenRun : List (Action Files) :=
  [.addPolicy (.inl ()), .log () 7, .caller (.thread ()), .caller (.thread ()), .processQueue,
      .processQueue] ++
    List.replicate 7 (file (.caller .processQueue)) ++
    [.processQueue, .flush (), .caller (.thread ()), .caller (.thread ())] ++
    List.replicate 19 (file (.caller (.caller (.thread ())))) ++
    [.caller (.thread ()), .caller (.thread ())] ++ List.replicate 13 (file .writer)

def idleFlush : List (Action Files) :=
  [.caller (.thread ()), .caller (.thread ())] ++
    List.replicate 5 (file (.caller (.caller (.thread ())))) ++
    [.caller (.thread ()), .caller (.thread ())]

def FlushReturns (s s' : State Files) : Prop :=
  Allowed s (.flush ()) ∧ ∃ called, step s (.flush ()) = some called ∧
    (machine Files).runGuarded (fun s a => Allowed s a ∧ Unraced s a) called idleFlush = some s' ∧
      s'.calls (.thread ()) = none

theorem Keeps.landed {s s' : State Files} (keeps : Keeps (.thread ()) s)
    (returns : FlushReturns s s') : ∀ e ∈ s.returned, Landed s' e := by
  rcases returns with ⟨allowed, called, begun, ran, returned⟩
  exact keeps called s' allowed begun (calls_of_flush begun)
    (Machine.reachFrom_of_runGuarded _ .origin ran) returned

theorem written_run : ∃ s s' : State Files,
    (machine Files).runGuarded (fun s a => Allowed s a ∧ Unraced s a)
        (machine Files).start writtenRun = some s ∧
      s.returned = [⟨0, (), 7⟩] ∧ Settled s ∧ FlushReturns s s' := by
  have ends : ((machine Files).runGuarded (fun s a => Allowed s a ∧ Unraced s a)
      (machine Files).start writtenRun).any (fun s =>
        decide (s.returned = [⟨0, (), 7⟩] ∧ Settled s ∧ Allowed s (.flush ())) &&
          (step s (.flush ())).any fun called =>
            ((machine Files).runGuarded (fun s a => Allowed s a ∧ Unraced s a) called
              idleFlush).any fun s' => decide (s'.calls (.thread ()) = none)) = true := by
    decide +kernel
  rcases Option.any_eq_true _ _ |>.mp ends with ⟨s, ran, facts⟩
  rcases Bool.and_eq_true_iff.mp facts with ⟨here, flush⟩
  rcases of_decide_eq_true here with ⟨logged, settled, allowed⟩
  rcases Option.any_eq_true _ _ |>.mp flush with ⟨called, begun, rest⟩
  rcases Option.any_eq_true _ _ |>.mp rest with ⟨s', returns, absent⟩
  exact ⟨s, s', ran, logged, settled, allowed, called, begun, returns, of_decide_eq_true absent⟩

def loggedRun : List (Action Files) :=
  [.addPolicy (.inl ()), .log () 7, .caller (.thread ()), .caller (.thread ())]

theorem emptyHanded_run : ∃ s s' : State Files,
    (machine Files).runGuarded (fun s a => Allowed s a ∧ Unraced s a)
        (machine Files).start loggedRun = some s ∧
      FlushReturns s s' ∧ s.returned = [⟨0, (), 7⟩] ∧ s'.policies = [.inl ()] ∧
        s'.received (.inl ()) = [] :=
  ⟨_, _, rfl, ⟨rfl, _, rfl, rfl, rfl⟩, rfl, rfl, rfl⟩

end Runs

end CommonUtils.Logger
