import CommonUtils.Logger.Prompt

namespace CommonUtils.Logger

universe u v

variable {τ μ : Type u} {ι : Type v} {P : ι → LogPolicy (Thread τ) (Entry τ μ)}

/-- No call is made any more but those of the destructors. -/
def Closing (s : State P) : Action P → Prop
  | .addPolicy _ => False
  | a => Allowed s a

def handing (policies cost i : Nat) : Nat := (policies - i) * (cost + 2)

theorem handing_next {policies i : Nat} (cost : Nat) (inside : i < policies) :
    handing policies cost i = handing policies cost (i + 1) + (cost + 2) := by
  have split : policies - i = (policies - (i + 1)) + 1 := by omega
  rw [handing, handing, split, Nat.succ_mul]

section Remaining

variable (policies cost : Nat)

def Delivery.remaining : Delivery τ μ → Nat
  | ⟨_, i, false⟩ => handing policies cost i + 2
  | ⟨_, i, true⟩ => handing policies cost (i + 1) + 3

def Call.remaining : Option (Call τ μ) → Nat
  | some (.lock _) => handing policies cost 0 + 3
  | some (.next _ i) => handing policies cost i + 2
  | some (.inside _ i) => handing policies cost (i + 1) + 3
  | some (.notifyOne _) => 2
  | some (.push _) | none => 0

def Timer.remaining : Timer → Nat
  | .sleep => handing policies cost 0 + 6
  | .flush => 2
  | .test => 1
  | .returned => 0

end Remaining

def Destructor.remaining : Destructor → Nat
  | .notStarted => 6
  | .setStop => 5
  | .notifyAll => 4
  | .joinThread => 2
  | .joinTimer => 1
  | .done => 0

theorem Closing.allowed {s : State P} {a : Action P} (closing : Closing s a) : Allowed s a := by
  cases a with
  | addPolicy p => exact closing.elim
  | _ => exact closing

theorem only_timer {s : State P} (closing : ∀ t, s.calls (.thread t) = none) {c : Caller τ}
    {call : Call τ μ} (mine : s.calls c = some call) : c = .timerTask := by
  cases c with
  | timerTask => rfl
  | thread t =>
      rw [closing t] at mine
      cases mine

variable [DecidableEq τ] [DecidableEq ι]
variable {I : (p : ι) → Use → List (Entry τ μ) → (P p).State → Prop}
variable {ended : (p : ι) → List (Entry τ μ) → (P p).State → Prop} {cost : Nat}

theorem stop_step {s s' : State P} {a : Action P} (stopped : s.queue.stop = true)
    (taken : step s a = some s') : s'.queue.stop = true := by
  cases step_takes taken with
  | take entering free => exact (Mailbox.stop_take _ _).trans stopped
  | setStop pc free => rfl
  | _ => exact stopped

structure Standing (I : (p : ι) → Use → List (Entry τ μ) → (P p).State → Prop) (s : State P) :
    Prop where
  ledger : Ledger s
  lifecycle : Lifecycle s
  engaged : Engaged s
  holds : ∀ p, Holds p (I p) s

theorem Standing.step (prompt : ∀ p, (P p).Prompt (I p) (ended p) cost)
    (keeps : ∀ p, (P p).Keeps .processQueue (fun _ _ => True) (I p)) {s s' : State P}
    {a : Action P} (standing : Standing I s) (allowed : Allowed s a)
    (taken : Logger.step s a = some s') : Standing I s' where
  ledger := standing.ledger.step allowed taken
  lifecycle := standing.lifecycle.step standing.ledger allowed taken
  engaged := standing.engaged.step prompt taken
  holds p := Holds.step (keeps p) standing.ledger standing.lifecycle (standing.holds p)
    (fun _ _ => trivial) taken

section Moves

variable (prompt : ∀ p, (P p).Prompt (I p) (ended p) cost) {s : State P}

include prompt

theorem policy_moves {p : ι} {t : Thread τ} (busy : ¬ (P p).returned (s.policy p) t = true) :
    ∃ a, Closing s a ∧ (step s a).isSome := by
  rcases (prompt p).moves (t := t) (by simpa using busy) with ⟨a, enabled⟩
  exact ⟨.policy p a, trivial, by simpa [step] using enabled⟩

theorem holder_moves (engaged : Engaged s) {c : Caller τ} (holds : Call.holds (s.calls c)) :
    ∃ a, Closing s a ∧ (step s a).isSome := by
  cases mine : s.calls c with
  | none =>
      rw [mine] at holds
      exact holds.elim
  | some call =>
      cases call with
      | push | notifyOne | lock =>
          rw [mine] at holds
          exact holds.elim
      | next owed i =>
          refine ⟨.caller c, trivial, ?_⟩
          simp only [step, mine, State.callStep]
          cases here : s.policies[i]? with
          | none => rfl
          | some p =>
              have outside : ∀ p, ¬ s.inFlush c p := by
                rintro q ⟨owed', i', inside, _⟩
                rw [mine] at inside
                cases inside
              simpa using (prompt p).flush_starts (engaged.returned outside p)
      | inside owed i =>
          rcases engaged.inside c owed i mine with ⟨p, here⟩
          by_cases returned : (P p).returned (s.policy p) (.caller c) = true
          · exact ⟨.caller c, trivial, by simp [step, mine, State.callStep, here, returned]⟩
          · exact policy_moves prompt returned

theorem free_or_moves (engaged : Engaged s) :
    s.mutex = none ∨ ∃ a, Closing s a ∧ (step s a).isSome := by
  cases held : s.mutex with
  | none => exact .inl rfl
  | some c => exact .inr (holder_moves prompt engaged (engaged.holder c held))

theorem call_moves (engaged : Engaged s) {c : Caller τ} {call : Call τ μ}
    (mine : s.calls c = some call) : ∃ a, Closing s a ∧ (step s a).isSome := by
  cases call with
  | push e =>
      rcases free_or_moves prompt engaged with free | moves
      · exact ⟨.caller c, trivial, by simp [step, mine, State.callStep, free]⟩
      · exact moves
  | notifyOne e => exact ⟨.caller c, trivial, by simp [step, mine, State.callStep]⟩
  | lock owed =>
      rcases free_or_moves prompt engaged with free | moves
      · exact ⟨.caller c, trivial, by simp [step, mine, State.callStep, free]⟩
      · exact moves
  | next owed i =>
      apply holder_moves prompt engaged (c := c)
      rw [mine]
      trivial
  | inside owed i =>
      apply holder_moves prompt engaged (c := c)
      rw [mine]
      trivial

theorem thread_moves (stopped : s.queue.stop = true) (standing : Standing I s)
    (notified : s.destructor ≠ .notifyAll) (running : s.queue.consumer ≠ .returned) :
    ∃ a, Closing s a ∧ (step s a).isSome := by
  cases pc : s.queue.consumer with
  | entering =>
      rcases free_or_moves prompt standing.engaged with free | moves
      · exact ⟨.processQueue, trivial, by simp [step, State.processQueue, pc, free]⟩
      · exact moves
  | waiting =>
      rcases standing.lifecycle.awake ⟨pc, .inr stopped⟩ with ⟨c, e, mine⟩ | notifying
      · exact call_moves prompt standing.engaged mine
      · exact absurd notifying notified
  | working d =>
      rcases d with ⟨e, i, inside⟩
      cases here : s.policies[i]? with
      | none =>
          cases inside with
          | false =>
              exact ⟨.processQueue, trivial,
                by simp [step, State.processQueue, pc, State.deliver, here]⟩
          | true =>
              have below := standing.ledger.index _ pc rfl
              rw [List.getElem?_eq_none_iff] at here
              exact absurd below (not_lt.mpr here)
      | some p =>
          by_cases returned : (P p).returned (s.policy p) .processQueue = true
          · refine ⟨.processQueue, trivial, ?_⟩
            have starts := (prompt p).write_starts e returned
            simp only [step, State.processQueue, pc, State.deliver, here, returned]
            cases inside <;> simp [starts]
          · exact policy_moves prompt returned
  | returned => exact absurd pc running

theorem timer_moves (engaged : Engaged s) (running : s.timerTask ≠ .returned) :
    ∃ a, Closing s a ∧ (step s a).isSome := by
  cases pc : s.timerTask with
  | test => exact ⟨.timerTask, trivial, by simp [step, State.timerStep, pc]⟩
  | sleep =>
      have absent := engaged.timer (by simp [pc])
      exact ⟨.timerTask, trivial, by simp [step, State.timerStep, pc, State.flush, absent]⟩
  | flush =>
      cases mine : s.calls .timerTask with
      | none => exact ⟨.timerTask, trivial, by simp [step, State.timerStep, pc, mine]⟩
      | some call => exact call_moves prompt engaged mine
  | returned => exact absurd pc running

theorem destructor_moves (stopped : s.queue.stop = true) (standing : Standing I s)
    (unfinished : ¬ (s.destructor = .done ∧ ∀ p, ended p (s.received p) (s.policy p))) :
    ∃ a, Closing s a ∧ (step s a).isSome := by
  cases pc : s.destructor with
  | notStarted => exact absurd pc (standing.lifecycle.stopped stopped)
  | setStop =>
      rcases free_or_moves prompt standing.engaged with free | moves
      · exact ⟨.destructor, trivial, by simp [step, State.destructorStep, pc, free]⟩
      · exact moves
  | notifyAll => exact ⟨.destructor, trivial, by simp [step, State.destructorStep, pc]⟩
  | joinThread =>
      by_cases returned : s.queue.consumer = .returned
      · exact ⟨.destructor, trivial, by simp [step, State.destructorStep, pc, returned]⟩
      · exact thread_moves prompt stopped standing (by simp [pc]) returned
  | joinTimer =>
      by_cases returned : s.timerTask = .returned
      · exact ⟨.destructor, trivial, by simp [step, State.destructorStep, pc, returned]⟩
      · exact timer_moves prompt standing.engaged returned
  | done =>
      have left : ∃ p, ¬ ended p (s.received p) (s.policy p) := by
        by_contra all
        exact unfinished ⟨pc, fun p => by_contra fun short => all ⟨p, short⟩⟩
      rcases left with ⟨p, short⟩
      have closed : I p .closed (s.received p) (s.policy p) := by
        have now := standing.holds p
        rwa [Holds, State.use, if_pos pc] at now
      rcases (prompt p).ends .owner closed short with begins | ⟨a, enabled⟩
      · exact ⟨.destroyPolicy p, trivial, by simpa [step, pc] using begins⟩
      · exact ⟨.policy p a, trivial, by simpa [step] using enabled⟩

end Moves

variable [Fintype ι]

def State.remaining (prompt : ∀ p, (P p).Prompt (I p) (ended p) cost) (s : State P) : Nat :=
  s.queue.remaining (handing s.policies.length cost 0 + 2)
      (Delivery.remaining s.policies.length cost) +
    Call.remaining s.policies.length cost (s.calls .timerTask) +
    s.timerTask.remaining s.policies.length cost + s.destructor.remaining +
    Machine.total (fun p => (prompt p).remaining) s.policy

def allowance (prompt : ∀ p, (P p).Prompt (I p) (ended p) cost) : Action P → Nat
  | .spurious => 2
  | .policy p a => (prompt p).allowance a
  | _ => 0

section Falls

variable (prompt : ∀ p, (P p).Prompt (I p) (ended p) cost) {s s' : State P} {a : Action P}

omit [DecidableEq ι] in
theorem timer_falls (stopped : s.queue.stop = true)
    (taken : s.timerStep = some s') : s'.remaining prompt < s.remaining prompt := by
  rcases timer_cases taken with ⟨pc, rfl⟩ | ⟨pc, absent, rfl⟩ | ⟨pc, absent, rfl⟩
  · simp only [State.remaining, State.setTimer, stopped, pc, Timer.remaining, if_true]
    omega
  · simp only [State.remaining, State.setTimer, State.setCall, Function.update_self, pc, absent,
      Timer.remaining, Call.remaining]
    omega
  · simp only [State.remaining, State.setTimer, pc, Timer.remaining]
    omega

theorem remaining_falls (stopped : s.queue.stop = true) (ledger : Ledger s)
    (lifecycle : Lifecycle s) (closing : Closing s a) (taken : step s a = some s') :
    s'.remaining prompt < s.remaining prompt + allowance prompt a := by
  have begun := lifecycle.stopped stopped
  have nobody := lifecycle.closing begun
  have woken := Mailbox.remaining_notify_le (handing s.policies.length cost 0 + 2)
    (Delivery.remaining s.policies.length cost) s.queue
  have policies (p : ι) (state : (P p).State) :=
    Machine.total_update (fun p => (prompt p).remaining) s.policy p state
  cases step_takes taken with
  | addPolicy p => exact closing.elim
  | log t message absent => exact absurd closing begun
  | flush t absent => exact absurd closing begun
  | push c e mine free =>
      have mine' := ledger.pushes c e mine
      rw [mine', nobody] at mine
      cases mine
  | notifyOne c e mine =>
      obtain rfl := only_timer nobody mine
      simp only [State.remaining, State.setCall, Function.update_self, mine, Call.remaining]
      omega
  | lock c owed mine free =>
      obtain rfl := only_timer nobody mine
      simp only [State.remaining, State.setCall, Function.update_self, mine, Call.remaining]
      omega
  | flushPolicy c owed i p state mine here begun =>
      obtain rfl := only_timer nobody mine
      have next := handing_next cost (List.getElem?_eq_some_iff.mp here).1
      have costs := (prompt p).flush_costs begun
      have moved := policies p state
      simp only [State.remaining, State.setCall, State.setPolicy, Function.update_self, mine,
        Call.remaining]
      omega
  | flushReturned c owed i mine =>
      obtain rfl := only_timer nobody mine
      simp only [State.remaining, State.setCall, Function.update_self, mine, Call.remaining]
      omega
  | flushed c owed i mine last =>
      obtain rfl := only_timer nobody mine
      simp only [State.remaining, State.setCall, Function.update_self, mine, Call.remaining]
      omega
  | take entering free =>
      have taken := Mailbox.remaining_take_lt (handing s.policies.length cost 0 + 2)
        (Delivery.remaining s.policies.length cost) (fun e => ⟨e, 0, false⟩) entering
        fun _ => le_rfl
      simp only [State.remaining, State.setQueue]
      omega
  | write e i p state working here begun =>
      have next := handing_next cost (List.getElem?_eq_some_iff.mp here).1
      have costs := (prompt p).write_costs begun
      have moved := policies p state
      simp only [State.remaining, State.setPolicy, Mailbox.remaining_of_working working,
        Mailbox.remaining_resume_working, Delivery.remaining]
      omega
  | writeReturned e i p working here returned =>
      simp only [State.remaining, State.setQueue, Mailbox.remaining_of_working working,
        Mailbox.remaining_resume_working, Delivery.remaining]
      omega
  | delivered e i working last =>
      simp only [State.remaining, State.setQueue, Mailbox.remaining_of_working working,
        Mailbox.remaining_resume_entering, Delivery.remaining]
      omega
  | spurious waiting =>
      simp only [State.remaining, State.setQueue, allowance]
      omega
  | timer | timerFlush => exact timer_falls prompt stopped taken
  | destroy pc => exact absurd pc begun
  | setStop pc free =>
      simp only [State.remaining, Mailbox.remaining_setStop, pc, Destructor.remaining]
      omega
  | notifyAll pc =>
      simp only [State.remaining, pc, Destructor.remaining]
      omega
  | joinThread pc returned | joinTimer pc returned =>
      simp only [State.remaining, pc, Destructor.remaining]
      omega
  | destroyPolicy p state pc begun =>
      have falls := (prompt p).destroy_falls begun
      have moved := policies p state
      simp only [State.remaining, State.setPolicy]
      omega
  | policy p b state stepped =>
      have falls := (prompt p).step_falls stepped
      have moved := policies p state
      simp only [State.remaining, State.setPolicy, allowance]
      omega

end Falls

/-- Once `stop_` is set, `~Logger` returns on every schedule, and so do the destructors of the
policies behind it. -/
theorem destructors_return (prompt : ∀ p, (P p).Prompt (I p) (ended p) cost)
    (initial : ∀ p, I p .idle [] (P p).start)
    (keeps : ∀ p, (P p).Keeps .processQueue (fun _ _ => True) (I p)) (s : State P)
    (reached : (machine P).ReachUnder Allowed s) (stopped : s.queue.stop = true) :
    (machine P).Finishes Closing (allowance prompt)
      (fun s => s.destructor = .done ∧ ∀ p, ended p (s.received p) (s.policy p))
      (s.remaining prompt) s := by
  have now : Standing I s := by
    apply reached.invariant (I := Standing I)
    · exact ⟨.start P, .start P, .start prompt, initial⟩
    · exact fun s a s' standing allowed taken => standing.step prompt keeps allowed taken
  apply Machine.finishes (I := fun s => Standing I s ∧ s.queue.stop = true)
  · rintro s a s' ⟨standing, stopped⟩ closing taken
    exact ⟨standing.step prompt keeps closing.allowed taken, stop_step stopped taken⟩
  · rintro s a s' ⟨standing, stopped⟩ closing taken
    exact remaining_falls prompt stopped standing.ledger standing.lifecycle closing taken
  · rintro s ⟨standing, stopped⟩ short
    exact destructor_moves prompt stopped standing short
  · exact ⟨now, stopped⟩

end CommonUtils.Logger
