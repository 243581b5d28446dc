import CommonUtils.Logger.ConsoleLogPolicy
import CommonUtils.Logger.Lifecycle

/-! What a `Logger` does with a policy: `ProcessQueue` alone calls `Write`, and the
policy is destroyed only behind `~Logger`. So what a policy keeps by itself it keeps
in the logger, and the console prints what was logged. -/

namespace CommonUtils.Logger

universe u v

variable {τ μ : Type u} {ι : Type v} {P : ι → LogPolicy (Thread τ) (Entry τ μ)}

namespace State

variable [DecidableEq ι]

def received (s : State P) (p : ι) : List (Entry τ μ) :=
  (s.writes.filter fun w => w.1 = p).map Prod.snd

def added (s : State P) (p : ι) : Nat := s.policies.count p

def inWrite (s : State P) (p : ι) : Bool :=
  match s.queue.consumer with
  | .working d => d.inside && decide (s.policies[d.index]? = some p)
  | _ => false

def use (s : State P) (p : ι) : Use :=
  if s.destructor = .done then .closed else if s.inWrite p then .writing else .idle

theorem inWrite_working {s : State P} {e : Entry τ μ} {i : Nat} {inside : Bool}
    (working : s.queue.consumer = .working ⟨e, i, inside⟩) (p : ι) :
    s.inWrite p = (inside && decide (s.policies[i]? = some p)) := by
  rw [inWrite, working]

theorem inWrite_idle {s : State P} (idle : ∀ d, s.queue.consumer ≠ .working d) (p : ι) :
    s.inWrite p = false := by
  unfold inWrite
  split
  · exact absurd ‹_› (idle _)
  · rfl

theorem inWrite_notify (s : State P) (p : ι) :
    (s.setQueue s.queue.notify).inWrite p = s.inWrite p := by
  unfold inWrite setQueue Mailbox.notify
  cases s.queue.consumer <;> rfl

theorem inWrite_take (s : State P) (p : ι) :
    (s.setQueue (s.queue.take fun e => ⟨e, 0, false⟩)).inWrite p = false := by
  unfold inWrite setQueue Mailbox.take
  cases s.queue.queue with
  | nil => cases s.queue.stop <;> rfl
  | cons e rest => rfl

theorem use_congr {s s' : State P} {p : ι} (done : s'.destructor = .done ↔ s.destructor = .done)
    (writing : s'.inWrite p = s.inWrite p) : s'.use p = s.use p := by
  simp only [use, done, writing]

theorem use_idle {s : State P} {p : ι} (live : s.destructor ≠ .done)
    (outside : s.inWrite p = false) : s.use p = .idle := by
  simp [use, live, outside]

theorem use_writing {s : State P} {p : ι} (live : s.destructor ≠ .done)
    (inside : s.inWrite p = true) : s.use p = .writing := by
  simp [use, live, inside]

theorem received_append (s : State P) (p q : ι) (e : Entry τ μ) :
    { s with writes := s.writes ++ [(q, e)] }.received p =
      s.received p ++ if q = p then [e] else [] := by
  unfold received
  by_cases same : q = p <;> simp [same]

end State

variable [DecidableEq τ] [DecidableEq ι]

theorem kept_of_reachable {guard : State P → Action P → Prop}
    (weaker : ∀ s a, guard s a → Allowed s a) {s : State P}
    (reached : (machine P).ReachUnder guard s) : Ledger s ∧ Lifecycle s := by
  apply reached.invariant (I := fun s => Ledger s ∧ Lifecycle s) ⟨.start P, .start P⟩
  rintro s a s' ⟨ledger, lifecycle⟩ allowed taken
  exact ⟨ledger.step (weaker s a allowed) taken,
    lifecycle.step ledger (weaker s a allowed) taken⟩

omit [DecidableEq τ] [DecidableEq ι] in
theorem Lifecycle.not_done {s : State P} (lifecycle : Lifecycle s)
    (runs : s.queue.consumer ≠ .returned) : s.destructor ≠ .done :=
  fun done => runs (lifecycle.joined (.inr done))

section Use

variable {p : ι} {allowed : (P p).State → (P p).Action → Prop}
variable {I : Use → List (Entry τ μ) → (P p).State → Prop} {s s' : State P} {a : Action P}

/-- What holds of `p` in the state: how it is used, what it was handed, its own state. -/
def Holds (p : ι) (I : Use → List (Entry τ μ) → (P p).State → Prop) (s : State P) : Prop :=
  I (s.use p) (s.received p) (s.policy p)

omit [DecidableEq τ] in
theorem Holds.of_eq {use : Use} {received : List (Entry τ μ)} {state : (P p).State}
    (used : s.use p = use) (handed : s.received p = received) (stands : s.policy p = state)
    (kept : I use received state) : Holds p I s := by
  unfold Holds
  rw [used, handed, stands]
  exact kept

omit [DecidableEq τ] in
theorem Holds.frame (now : Holds p I s) (done : s'.destructor = .done ↔ s.destructor = .done)
    (writing : s'.inWrite p = s.inWrite p) (writes : s'.writes = s.writes)
    (same : s'.policy p = s.policy p) : Holds p I s' := by
  unfold Holds State.received at *
  rw [State.use_congr done writing, writes, same]
  exact now

omit [DecidableEq τ] in
theorem Holds.setPolicy (now : Holds p I s) {q : ι} {state : (P q).State}
    (kept : ∀ same : q = p, I (s.use p) (s.received p) (same ▸ state)) :
    Holds p I (s.setPolicy q state) := by
  by_cases same : q = p
  · subst same
    have here : (s.setPolicy q state).policy q = state := Function.update_self _ _ _
    unfold Holds
    rw [here]
    exact kept rfl
  · refine now.frame Iff.rfl rfl rfl ?_
    exact Function.update_of_ne (Ne.symm same) _ _

omit [DecidableEq τ] in
theorem Holds.write (now : Holds p I s) (keeps : (P p).Keeps .processQueue allowed I)
    (lifecycle : Lifecycle s) {e : Entry τ μ} {i : Nat} {q : ι} {state : (P q).State}
    (working : s.queue.consumer = .working ⟨e, i, false⟩) (here : s.policies[i]? = some q)
    (begun : (P q).write (s.policy q) .processQueue e = some state) :
    Holds p I { s.setPolicy q state with
      queue := s.queue.resume (.working ⟨e, i, true⟩)
      writes := s.writes ++ [(q, e)] } := by
  have live := lifecycle.not_done (by rw [working]; nofun)
  have idle := State.use_idle live (by rw [State.inWrite_working working p]; rfl)
  have kept : I .idle (s.received p) (s.policy p) := by
    rw [← idle]
    exact now
  have received := State.received_append s p q e
  by_cases same : q = p
  · subst same
    rw [if_pos rfl] at received
    refine Holds.of_eq (State.use_writing live ?_) received (Function.update_self _ _ _)
      (keeps.write kept begun)
    rw [State.inWrite_working rfl]
    simp [State.setPolicy, here]
  · rw [if_neg same, List.append_nil] at received
    refine Holds.of_eq (State.use_idle live ?_) received
      (Function.update_of_ne (Ne.symm same) _ _) kept
    rw [State.inWrite_working rfl]
    simpa [State.setPolicy, here] using same

omit [DecidableEq τ] in
theorem Holds.writeReturned (now : Holds p I s) (keeps : (P p).Keeps .processQueue allowed I)
    (lifecycle : Lifecycle s) {e : Entry τ μ} {i : Nat} {q : ι}
    (working : s.queue.consumer = .working ⟨e, i, true⟩) (here : s.policies[i]? = some q)
    (returned : (P q).returned (s.policy q) .processQueue = true) :
    Holds p I (s.setQueue (s.queue.resume (.working ⟨e, i + 1, false⟩))) := by
  have live := lifecycle.not_done (by rw [working]; nofun)
  by_cases same : q = p
  · subst same
    have writing := State.use_writing live (by
      rw [State.inWrite_working working q, here]
      simp)
    have kept : I .writing (s.received q) (s.policy q) := by
      rw [← writing]
      exact now
    exact Holds.of_eq (State.use_idle live rfl) rfl rfl (keeps.finish kept returned)
  · refine now.frame Iff.rfl ?_ rfl rfl
    rw [State.inWrite_working working, here]
    simp [same, State.inWrite, State.setQueue, Mailbox.resume]

theorem Holds.step (keeps : (P p).Keeps .processQueue allowed I) (ledger : Ledger s)
    (lifecycle : Lifecycle s) (now : Holds p I s) (permits : ∀ b, a = .policy p b →
      allowed (s.policy p) b) (taken : Logger.step s a = some s') : Holds p I s' := by
  cases step_takes taken with
  | addPolicy q =>
      refine now.frame Iff.rfl ?_ rfl rfl
      unfold State.inWrite
      cases working : s.queue.consumer with
      | working d =>
          cases inside : d.inside with
          | false => simp [inside]
          | true =>
              have below := ledger.index d working inside
              simp [inside, List.getElem?_append_left below]
      | _ => rfl
  | log | flush | push | lock | flushReturned | flushed | timer | timerFlush =>
      exact now.frame Iff.rfl rfl rfl rfl
  | notifyOne c e mine =>
      exact now.frame Iff.rfl (State.inWrite_notify s p) rfl rfl
  | spurious waiting =>
      exact now.frame Iff.rfl (State.inWrite_notify s p) rfl rfl
  | flushPolicy c owed i q state mine here begun =>
      refine Holds.frame (s := s.setPolicy q state) ?_ Iff.rfl rfl rfl rfl
      apply now.setPolicy
      intro same
      subst same
      exact keeps.flush (t := .caller c) nofun now begun
  | take entering free =>
      have before := State.inWrite_idle (by rw [entering]; nofun) p
      refine now.frame Iff.rfl ?_ rfl rfl
      rw [State.inWrite_take, before]
  | write e i q state working here begun =>
      exact now.write keeps lifecycle working here begun
  | writeReturned e i q working here returned =>
      exact now.writeReturned keeps lifecycle working here returned
  | delivered e i working last =>
      refine now.frame Iff.rfl ?_ rfl rfl
      rw [State.inWrite_working working]
      rfl
  | destroy pc =>
      refine now.frame ?_ rfl rfl rfl
      simp [pc]
  | setStop pc free =>
      refine now.frame ?_ rfl rfl rfl
      simp [pc]
  | notifyAll pc =>
      refine now.frame ?_ (State.inWrite_notify s p) rfl rfl
      simp [pc]
  | joinThread pc returned =>
      refine now.frame ?_ rfl rfl rfl
      simp [pc]
  | joinTimer pc returned =>
      have joined := lifecycle.joined (.inl pc)
      have idle : s.use p = .idle := by
        apply State.use_idle
        · rw [pc]
          nofun
        · apply State.inWrite_idle
          rw [joined]
          nofun
      unfold Holds at now
      rw [idle] at now
      exact keeps.close now
  | destroyPolicy q state pc begun =>
      apply now.setPolicy
      intro same
      subst same
      have ended : s.use q = .closed := if_pos pc
      unfold Holds at now
      rw [ended] at now ⊢
      exact keeps.destroy (t := .owner) nofun now begun
  | policy q b state stepped =>
      apply now.setPolicy
      intro same
      subst same
      exact keeps.step now (permits b rfl) stepped

theorem holds_of_reachable (initial : I .idle [] (P p).start)
    (keeps : (P p).Keeps .processQueue allowed I)
    {guard : State P → Action P → Prop} (weaker : ∀ s a, guard s a → Allowed s a)
    (permits : ∀ s b, guard s (.policy p b) → allowed (s.policy p) b)
    (reached : (machine P).ReachUnder guard s) : Holds p I s := by
  have both : (Ledger s ∧ Lifecycle s) ∧ Holds p I s := by
    apply reached.invariant (I := fun s => (Ledger s ∧ Lifecycle s) ∧ Holds p I s)
      ⟨⟨.start P, .start P⟩, initial⟩
    rintro s a s' ⟨⟨ledger, lifecycle⟩, now⟩ guarded taken
    have allowed := weaker s a guarded
    refine ⟨⟨ledger.step allowed taken, lifecycle.step ledger allowed taken⟩,
      now.step keeps ledger lifecycle ?_ taken⟩
    intro b same
    subst same
    exact permits s b guarded
  exact both.2

end Use

def copies {α : Type*} (n : Nat) (messages : List α) : List α :=
  messages.flatMap (List.replicate n)

@[simp] theorem copies_one {α : Type*} (messages : List α) : copies 1 messages = messages :=
  List.flatMap_singleton' messages

theorem copies_append {α : Type*} (n : Nat) (front back : List α) :
    copies n (front ++ back) = copies n front ++ copies n back := List.flatMap_append

section Handed

omit [DecidableEq τ]

theorem handed_map (policies : List ι) (p : ι) (e : Entry τ μ) :
    ((policies.map fun q => (q, e)).filter fun w => w.1 = p).map Prod.snd =
      List.replicate (policies.count p) e := by
  induction policies with
  | nil => rfl
  | cons q rest ih =>
      rw [List.map_cons, List.filter_cons, List.count_cons]
      by_cases same : q = p
      · simp [same, ih, List.replicate_succ]
      · simp [same, ih]

theorem handed_rounds (policies : List ι) (p : ι) (entries : List (Entry τ μ)) :
    ((rounds policies entries).filter fun w => w.1 = p).map Prod.snd =
      copies (policies.count p) entries := by
  induction entries with
  | nil => rfl
  | cons e rest ih =>
      rw [← List.singleton_append, rounds_append, rounds_single, List.filter_append,
        List.map_append, handed_map, ih, copies_append]
      simp [copies]

theorem handed_begun (policies : List ι) (queue : Mailbox (Entry τ μ) (Delivery τ μ)) (p : ι) :
    ((begun policies queue).filter fun w => w.1 = p).map Prod.snd <+:
      copies (policies.count p) (queue.backlog fun d => [d.entry]) := by
  cases working : queue.consumer with
  | working d =>
      rw [begun_working working, handed_map, Mailbox.backlog_working working, copies_append]
      apply List.IsPrefix.trans _ (List.prefix_append _ _)
      have fewer := (List.take_sublist (d.index + d.inside.toNat) policies).count_le p
      rw [copies, List.flatMap_singleton, List.prefix_replicate_iff, List.length_replicate]
      exact ⟨fewer, rfl⟩
  | _ =>
      rw [begun_idle (by rw [working]; nofun)]
      exact List.nil_prefix

end Handed

namespace Ledger

variable {s : State P}

/-- Every policy is handed the entries in the order of the queue, once for each time
it was added. -/
theorem received_prefix (ledger : Ledger s) (p : ι) :
    s.received p <+: copies (s.added p) s.entered := by
  rcases ledger.handed with ⟨delivered, entered, writes⟩
  rw [State.received, writes, List.filter_append, List.map_append, handed_rounds, entered,
    copies_append]
  exact (List.prefix_append_right_inj _).mpr (handed_begun _ _ _)

theorem received_of_returned (ledger : Ledger s) (lifecycle : Lifecycle s)
    (returned : s.queue.consumer = .returned) (p : ι) :
    s.received p = copies (s.added p) s.entered := by
  have idle : ∀ d, s.queue.consumer ≠ .working d := by
    rw [returned]
    nofun
  rcases ledger.handed with ⟨delivered, entered, writes⟩
  rw [State.backlog, Mailbox.backlog_idle idle, lifecycle.drains.empty returned,
    List.append_nil] at entered
  rw [State.received, writes, begun_idle idle, List.append_nil, handed_rounds, entered]
  rfl

omit [DecidableEq ι] in
theorem entered_prefix (ledger : Ledger s) (t : τ) :
    s.entered.filter (fun e => e.producer = t) <+: s.logged.filter fun e => e.producer = t := by
  rw [ledger.own t]
  exact List.prefix_append _ _

omit [DecidableEq ι] in
theorem entered_of_closing (ledger : Ledger s) (lifecycle : Lifecycle s)
    (closing : s.destructor ≠ .notStarted) (t : τ) :
    s.entered.filter (fun e => e.producer = t) = s.logged.filter fun e => e.producer = t := by
  rw [ledger.own t, State.announced, lifecycle.closing closing t]
  exact (List.append_nil _).symm

end Ledger

section Consoles

variable {κ : Type v} [DecidableEq κ]

/-- `ConsoleLogPolicy` objects among policies of any other kind. -/
def withConsoles (κ : Type v) (others : ι → LogPolicy (Thread τ) (Entry τ μ)) :
    κ ⊕ ι → LogPolicy (Thread τ) (Entry τ μ)
  | .inl _ => ConsoleLogPolicy.policy (Thread τ) (Entry τ μ)
  | .inr i => others i

variable {others : ι → LogPolicy (Thread τ) (Entry τ μ)}

def State.console (s : State (withConsoles κ others)) (c : κ) :
    ConsoleLogPolicy.State (Thread τ) (Entry τ μ) :=
  s.policy (.inl c)

/-- Everything logged goes through both queues once and in order, and no consumer
sleeps on work that nobody is about to notify it of. -/
structure Delivered (s : State (withConsoles κ others)) : Prop where
  ordered : ∀ t, s.entered.filter (fun e => e.producer = t) <+:
    s.logged.filter fun e => e.producer = t
  handed : ∀ p, s.received p <+: copies (s.added p) s.entered
  drained : s.destructor = .done →
    (∀ t, s.entered.filter (fun e => e.producer = t) = s.logged.filter fun e => e.producer = t) ∧
      ∀ p, s.received p = copies (s.added p) s.entered
  printing : ∀ c, (s.console c).console <+: s.received (.inl c)
  printed : ∀ c, s.destructor = .done → (s.console c).destructor = .done →
    (s.console c).console = copies (s.added (.inl c)) s.entered
  awake : s.queue.Stranded →
    (∃ c e, s.calls c = some (.notifyOne e)) ∨ s.destructor = .notifyAll
  consolesAwake : ∀ c, (s.console c).messageQueue.Stranded →
    (∃ t, (s.console c).callers t = some .notifyOne) ∨ (s.console c).destructor = .notifyAll

theorem delivered_once_in_order (s : State (withConsoles κ others))
    (reached : (machine (withConsoles κ others)).ReachUnder Allowed s) : Delivered s := by
  obtain ⟨ledger, lifecycle⟩ := kept_of_reachable (fun _ _ allowed => allowed) reached
  have consoles : ∀ c, ConsoleLogPolicy.Inv .processQueue (s.use (.inl c)) (s.received (.inl c))
      (s.console c) := by
    intro c
    have keeps : (ConsoleLogPolicy.policy (Thread τ) (Entry τ μ)).Keeps .processQueue
        (fun _ _ => True) (ConsoleLogPolicy.Inv .processQueue) := ConsoleLogPolicy.Inv.keeps _
    exact holds_of_reachable (p := .inl c) (ConsoleLogPolicy.Inv.start _) keeps
      (fun _ _ allowed => allowed) (fun _ _ _ => trivial) reached
  refine ⟨ledger.entered_prefix, ledger.received_prefix, ?_, ?_, ?_, lifecycle.awake, ?_⟩
  · intro done
    have joined := lifecycle.joined (.inr done)
    exact ⟨ledger.entered_of_closing lifecycle (by rw [done]; nofun),
      ledger.received_of_returned lifecycle joined⟩
  · exact fun c => (consoles c).console_le_written
  · intro c done closed
    rw [(consoles c).console_of_done closed]
    exact ledger.received_of_returned lifecycle (lifecycle.joined (.inr done)) _
  · intro c stranded
    rcases (consoles c).awake stranded with notifying | notifying
    · exact .inl ⟨_, notifying⟩
    · exact .inr notifying

end Consoles

abbrev Consoles : Unit ⊕ Empty → LogPolicy (Thread Bool) (Entry Bool Nat) :=
  withConsoles Unit fun i => i.elim

def console (a : ConsoleLogPolicy.Action (Thread Bool)) : Action Consoles := .policy (.inl ()) a

def consoleRun : List (Action Consoles) :=
  [.addPolicy (.inl ()), .log false 7, .log true 8] ++
    List.replicate 2 (.caller (.thread true)) ++ List.replicate 2 (.caller (.thread false)) ++
    [.processQueue, .processQueue, console (.caller .processQueue),
      console (.caller .processQueue), .processQueue, .processQueue, .destroy, .destructor,
      .destructor, .processQueue, .processQueue, console (.caller .processQueue),
      console (.caller .processQueue), .processQueue, .processQueue, .processQueue, .destructor,
      .timerTask, .destructor, .destroyPolicy (.inl ()), console .processQueue,
      console .processQueue, console .destructor, console .processQueue, console .processQueue,
      console .destructor, console .processQueue, console .destructor, console .destructor]

theorem delivered_once_in_order_run : ∃ s : State Consoles, s.destructor = .done ∧
    (s.console ()).destructor = .done ∧
    (s.console ()).console = [⟨1, true, 8⟩, ⟨0, false, 7⟩] ∧ Delivered s :=
  ⟨_, rfl, rfl, rfl, delivered_once_in_order _
    (Machine.reachFrom_of_runGuarded consoleRun .origin rfl)⟩

end CommonUtils.Logger
