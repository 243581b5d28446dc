import CommonUtils.Logger.Returns

namespace CommonUtils.Logger

universe u v

namespace ConsoleLogPolicy

variable {τ μ : Type u}

def Call.remaining : Option (Call μ) → Nat
  | some (.push _) => 5
  | some .notifyOne => 2
  | some .flush => 1
  | none => 0

def Destructor.remaining : Destructor → Nat
  | .notStarted => 6
  | .setStop => 5
  | .notifyAll => 4
  | .join => 2
  | .drain => 1
  | .done => 0

def State.remaining [Fintype τ] [DecidableEq τ] (s : State τ μ) : Nat :=
  Machine.total (fun _ => Call.remaining) s.callers +
    s.messageQueue.remaining 2 (fun _ => 2) + s.destructor.remaining

def allowance : Action τ → Nat
  | .spurious => 2
  | .caller _ | .processQueue | .destructor => 0

def Stops (s : State τ μ) : Prop :=
  s.destructor = .notifyAll ∨ s.destructor = .join → s.messageQueue.stop = true

def Orderly (writer : τ) (use : Use) (written : List μ) (s : State τ μ) : Prop :=
  Inv writer use written s ∧ Stops s

def Printed (written : List μ) (s : State τ μ) : Prop :=
  s.destructor = .done ∧ s.console = written

variable [DecidableEq τ] {s s' : State τ μ} {t u : τ} {call : Call μ} {a : Action τ}

inductive Takes (s : State τ μ) : Action τ → State τ μ → Prop
  | push (t : τ) (m : μ) (mine : s.callers t = some (.push m)) :
      Takes s (.caller t)
        { s.setCaller t (some .notifyOne) with
          messageQueue := s.messageQueue.push m
          pushed := s.pushed ++ [m] }
  | notifyOne (t : τ) (mine : s.callers t = some .notifyOne) :
      Takes s (.caller t) { s.setCaller t none with messageQueue := s.messageQueue.notify }
  | flushed (t : τ) (mine : s.callers t = some .flush) : Takes s (.caller t) (s.setCaller t none)
  | take (entering : s.messageQueue.consumer = .entering) :
      Takes s .processQueue { s with messageQueue := s.messageQueue.take id }
  | print (m : μ) (working : s.messageQueue.consumer = .working m) :
      Takes s .processQueue { s.print m with messageQueue := s.messageQueue.resume .entering }
  | spurious (waiting : s.messageQueue.consumer = .waiting) :
      Takes s .spurious { s with messageQueue := s.messageQueue.notify }
  | setStop (pc : s.destructor = .setStop) :
      Takes s .destructor
        { s with messageQueue := s.messageQueue.setStop, destructor := .notifyAll }
  | notifyAll (pc : s.destructor = .notifyAll) :
      Takes s .destructor { s with messageQueue := s.messageQueue.notify, destructor := .join }
  | join (pc : s.destructor = .join) (returned : s.messageQueue.consumer = .returned) :
      Takes s .destructor { s with destructor := .drain }
  | drain (m : μ) (rest : List μ) (pc : s.destructor = .drain)
      (queued : s.messageQueue.queue = m :: rest) :
      Takes s .destructor
        { s.print m with messageQueue := { s.messageQueue with queue := rest } }
  | drained (pc : s.destructor = .drain) (empty : s.messageQueue.queue = []) :
      Takes s .destructor { s with destructor := .done }

theorem step_takes (taken : step s a = some s') : Takes s a s' := by
  cases a with
  | caller t =>
      simp only [step, State.callerStep] at taken
      split at taken <;> cases taken
      case h_2 m mine => exact .push t m mine
      case h_3 mine => exact .notifyOne t mine
      case h_4 mine => exact .flushed t mine
  | processQueue =>
      simp only [step, State.processQueue] at taken
      split at taken <;> cases taken
      case h_1 entering => exact .take entering
      case h_3 m working => exact .print m working
  | spurious =>
      simp only [step] at taken
      split at taken <;> cases taken
      exact .spurious ‹_›
  | destructor =>
      simp only [step, State.destructorStep] at taken
      split at taken
      case h_1 | h_6 => cases taken
      case h_2 pc =>
        cases taken
        exact .setStop pc
      case h_3 pc =>
        cases taken
        exact .notifyAll pc
      case h_4 pc =>
        split at taken <;> cases taken
        exact .join pc ‹_›
      case h_5 pc =>
        split at taken <;> cases taken
        · exact .drained pc ‹_›
        · exact .drain _ _ pc ‹_›

theorem Stops.step (stops : Stops s) (taken : ConsoleLogPolicy.step s a = some s') : Stops s' := by
  cases step_takes taken with
  | take entering => exact fun late => (Mailbox.stop_take _ _).trans (stops late)
  | setStop pc => exact fun _ => rfl
  | notifyAll pc => exact fun _ => stops (.inl pc)
  | join pc returned | drained pc empty => rintro (late | late) <;> cases late
  | _ => exact stops

theorem returned_of_enter (entered : s.enter t call = some s') (other : u ≠ t)
    (quiet : (s.callers u).isNone = true) : (s'.callers u).isNone = true := by
  rcases Inv.enter entered with ⟨_, rfl⟩
  simpa [State.setCaller, Function.update_of_ne other] using quiet

theorem enter_isSome (call : Call μ) (quiet : (s.callers t).isNone = true) :
    (s.enter t call).isSome := by
  simp [State.enter, Option.isNone_iff_eq_none.mp quiet]

theorem returned_of_step (taken : step s a = some s') (quiet : (s.callers u).isNone = true) :
    (s'.callers u).isNone = true := by
  have moved (t : τ) (call : Call μ) (mine : s.callers t = some call) (next : Option (Call μ)) :
      (Function.update s.callers t next u).isNone = true := by
    have other : u ≠ t := by
      intro same
      rw [same, mine] at quiet
      cases quiet
    rw [Function.update_of_ne other]
    exact quiet
  cases step_takes taken with
  | push t m mine => exact moved t _ mine _
  | notifyOne t mine => exact moved t _ mine _
  | flushed t mine => exact moved t _ mine _
  | _ => exact quiet

theorem destructor_moves {writer : τ} {written : List μ}
    (orderly : Orderly writer .closed written s) (unfinished : ¬ Printed written s) :
    s.destroy.isSome ∨ ∃ a, (step s a).isSome := by
  rcases orderly with ⟨inv, stops⟩
  cases pc : s.destructor with
  | notStarted => exact .inl (by simp [State.destroy, pc])
  | setStop => exact .inr ⟨.destructor, by simp [step, State.destructorStep, pc]⟩
  | notifyAll => exact .inr ⟨.destructor, by simp [step, State.destructorStep, pc]⟩
  | join =>
      right
      cases here : s.messageQueue.consumer with
      | entering | working m => exact ⟨.processQueue, by simp [step, State.processQueue, here]⟩
      | waiting =>
          rcases inv.awake ⟨here, .inr (stops (.inr pc))⟩ with calling | notifying
          · rw [inv.quiet (by simp)] at calling
            cases calling
          · rw [pc] at notifying
            cases notifying
      | returned => exact ⟨.destructor, by simp [step, State.destructorStep, pc, here]⟩
  | drain =>
      refine .inr ⟨.destructor, ?_⟩
      cases queued : s.messageQueue.queue <;> simp [step, State.destructorStep, pc, queued]
  | done => exact absurd ⟨pc, inv.console_of_done pc⟩ unfinished

omit [DecidableEq τ] in
theorem destroyed (begun : s.destroy = some s') :
    s.destructor = .notStarted ∧ s' = { s with destructor := .setStop } := by
  unfold State.destroy at begun
  split at begun <;> cases begun
  exact ⟨‹_›, rfl⟩

theorem keeps (writer : τ) : (policy τ μ).Keeps writer (fun _ _ => True) (Orderly writer) where
  write kept begun := by
    refine ⟨(Inv.keeps writer).write kept.1 begun, ?_⟩
    rcases Inv.enter begun with ⟨_, rfl⟩
    exact kept.2
  finish kept returned := ⟨(Inv.keeps writer).finish kept.1 returned, kept.2⟩
  flush other kept begun := by
    refine ⟨(Inv.keeps writer).flush other kept.1 begun, ?_⟩
    rcases Inv.enter begun with ⟨_, rfl⟩
    exact kept.2
  step kept allowed taken := ⟨(Inv.keeps writer).step kept.1 allowed taken, kept.2.step taken⟩
  close kept := ⟨(Inv.keeps writer).close kept.1, kept.2⟩
  destroy other kept begun := by
    refine ⟨(Inv.keeps writer).destroy other kept.1 begun, ?_⟩
    rcases destroyed begun with ⟨_, rfl⟩
    rintro (late | late) <;> cases late

section Falls

variable [Fintype τ]

theorem remaining_enter (entered : s.enter t call = some s') :
    s'.remaining = s.remaining + Call.remaining (some call) := by
  rcases Inv.enter entered with ⟨absent, rfl⟩
  have moved := Machine.total_update (fun _ => Call.remaining) s.callers t (some call)
  rw [absent] at moved
  simp only [State.remaining, State.setCaller, Call.remaining] at moved ⊢
  omega

theorem remaining_falls (taken : step s a = some s') :
    s'.remaining < s.remaining + allowance a := by
  have woken := Mailbox.remaining_notify_le 2 (fun _ => 2) s.messageQueue
  have moves (t : τ) (next : Option (Call μ)) :=
    Machine.total_update (fun _ => Call.remaining) s.callers t next
  cases step_takes taken with
  | push t m mine =>
      have moved := moves t (some .notifyOne)
      have queued := Mailbox.remaining_push 2 (fun _ => 2) s.messageQueue m
      rw [mine] at moved
      simp only [State.remaining, State.setCaller, Call.remaining] at moved ⊢
      omega
  | notifyOne t mine | flushed t mine =>
      have moved := moves t none
      rw [mine] at moved
      simp only [State.remaining, State.setCaller, Call.remaining] at moved ⊢
      omega
  | take entering =>
      have taken := Mailbox.remaining_take_lt 2 (fun _ => 2) id entering fun _ => le_rfl
      simp only [State.remaining]
      omega
  | print m working =>
      simp only [State.remaining, State.print, Mailbox.remaining_of_working working,
        Mailbox.remaining_resume_entering]
      omega
  | spurious waiting =>
      simp only [State.remaining, allowance]
      omega
  | setStop pc =>
      simp only [State.remaining, Mailbox.remaining_setStop, pc, Destructor.remaining]
      omega
  | notifyAll pc | join pc returned | drained pc empty =>
      simp only [State.remaining, pc, Destructor.remaining]
      omega
  | drain m rest pc queued =>
      simp only [State.remaining, State.print, Mailbox.remaining, queued, List.length_cons]
      omega

def prompt (τ μ : Type u) [DecidableEq τ] [Fintype τ] (writer : τ) :
    (policy τ μ).Prompt (Orderly writer) Printed 5 where
  remaining := State.remaining
  allowance := allowance
  started _ := rfl
  write_starts m quiet := enter_isSome (.push m) quiet
  write_costs entered := (remaining_enter entered).le
  write_others entered other quiet := returned_of_enter entered other quiet
  flush_starts quiet := enter_isSome .flush quiet
  flush_costs {s _ t} entered := by
    have costs : Call.remaining (some (.flush : Call μ)) ≤ 5 := Nat.le_of_ble_eq_true rfl
    exact (remaining_enter entered).le.trans (Nat.add_le_add_left costs _)
  flush_others entered other quiet := returned_of_enter entered other quiet
  destroy_falls {s _ t} begun := by
    rcases destroyed begun with ⟨pc, rfl⟩
    simp only [State.remaining, pc, Destructor.remaining]
    omega
  destroy_others begun quiet := by
    rcases destroyed begun with ⟨_, rfl⟩
    exact quiet
  step_falls taken := remaining_falls taken
  step_others taken quiet := returned_of_step taken quiet
  moves {s t} busy := by
    rcases Option.isSome_iff_exists.mp (Option.isNone_eq_false_iff.mp busy) with ⟨call, mine⟩
    refine ⟨.caller t, ?_⟩
    cases call <;> simp [policy, step, State.callerStep, mine]
  ends _ orderly short := destructor_moves orderly short

end Falls

end ConsoleLogPolicy

variable {τ μ : Type u} {κ : Type v} [DecidableEq τ] [DecidableEq κ] [Fintype κ]

abbrev onConsoles (κ : Type v) (τ μ : Type u) [DecidableEq τ] :
    κ → LogPolicy (Thread τ) (Entry τ μ) :=
  fun _ => ConsoleLogPolicy.policy (Thread τ) (Entry τ μ)

variable [Fintype (Thread τ)]

def consolesPrompt (κ : Type v) (τ μ : Type u) [DecidableEq τ] [Fintype (Thread τ)] (c : κ) :
    (onConsoles κ τ μ c).Prompt (ConsoleLogPolicy.Orderly Thread.processQueue)
      ConsoleLogPolicy.Printed 5 :=
  ConsoleLogPolicy.prompt _ _ Thread.processQueue

/-- The destructors have returned, and every console has printed what was logged, the messages of
one producer in the order it logged them. -/
structure AllPrinted (s : State (onConsoles κ τ μ)) : Prop where
  returned : s.destructor = .done ∧ ∀ c, (s.policy c).destructor = .done
  printed : ∀ c, (s.policy c).console = copies (s.added c) s.entered
  entered : ∀ t, s.entered.filter (fun e => e.producer = t) =
    s.logged.filter fun e => e.producer = t

/-- Whatever the schedule from where `stop_` is set, the destructors return and everything is
printed. -/
theorem all_printed (s : State (onConsoles κ τ μ))
    (reached : (machine (onConsoles κ τ μ)).ReachUnder Allowed s) (stopped : s.queue.stop = true) :
    (machine (onConsoles κ τ μ)).Finishes Closing (allowance (consolesPrompt κ τ μ)) AllPrinted
      (s.remaining (consolesPrompt κ τ μ)) s := by
  have returns := destructors_return (consolesPrompt κ τ μ)
    (fun _ => ⟨.start Thread.processQueue, by rintro (late | late) <;> cases late⟩)
    (fun _ => ConsoleLogPolicy.keeps Thread.processQueue) s reached stopped
  refine ⟨returns.short, ?_⟩
  intro as s' closing ran stuck
  rcases returns.ends as s' closing ran stuck with ⟨done, printed⟩
  have goes_on := Machine.reachFrom_of_run .origin closing ran
  have reached' := reached.trans (goes_on.mono fun _ _ closing => closing.allowed)
  rcases kept_of_reachable (fun _ _ allowed => allowed) reached' with ⟨ledger, lifecycle⟩
  refine ⟨⟨done, fun c => (printed c).1⟩, fun c => ?_, ?_⟩
  · rw [(printed c).2]
    exact ledger.received_of_returned lifecycle (lifecycle.joined (.inr done)) c
  · exact ledger.entered_of_closing lifecycle (by rw [done]; nofun)

instance : Fintype (Thread Bool) where
  elems := {.processQueue, .caller .timerTask, .caller (.thread false), .caller (.thread true),
    .owner}
  complete := by
    rintro (_ | (_ | _ | _) | _) <;> simp

def stoppedRun : List (Action (onConsoles Unit Bool Nat)) :=
  [.addPolicy (), .log false 7, .log true 8, .caller (.thread true), .caller (.thread true),
    .caller (.thread false), .caller (.thread false), .processQueue, .destroy, .destructor]

theorem all_printed_two : ∃ s : State (onConsoles Unit Bool Nat), s.queue.queue = [⟨0, false, 7⟩] ∧
    (machine (onConsoles Unit Bool Nat)).Finishes Closing
      (allowance (consolesPrompt Unit Bool Nat)) AllPrinted
      (s.remaining (consolesPrompt Unit Bool Nat)) s :=
  ⟨_, rfl, all_printed _ (Machine.reachFrom_of_runGuarded stoppedRun .origin rfl) rfl⟩

end CommonUtils.Logger
