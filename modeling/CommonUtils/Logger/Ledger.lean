import CommonUtils.Logger.Model
import Mathlib.Data.Fintype.Basic

namespace CommonUtils.Logger

universe u v

variable {τ μ : Type u} {ι : Type v} {P : ι → LogPolicy (Thread τ) (Entry τ μ)}

/-- The policies are all added before the first `Log`, no call runs during or after
`~Logger`. -/
def Allowed (s : State P) : Action P → Prop
  | .addPolicy _ => s.logged = []
  | .log _ _ | .flush _ => s.destructor = .notStarted
  | .destroy => ∀ t, s.calls (.thread t) = none
  | _ => True

instance [Fintype τ] (s : State P) : (a : Action P) → Decidable (Allowed s a)
  | .addPolicy _ => decidable_of_iff (s.logged.isEmpty = true) List.isEmpty_iff
  | .log _ _ | .flush _ => inferInstanceAs (Decidable (s.destructor = .notStarted))
  | .destroy => decidable_of_iff (∀ t, (s.calls (.thread t)).isNone = true)
      (forall_congr' fun _ => Option.isNone_iff_eq_none)
  | .caller _ | .processQueue | .spurious | .timerTask | .destructor | .destroyPolicy _
  | .policy _ _ => isTrue trivial

def Call.announces : Option (Call τ μ) → List (Entry τ μ)
  | some (.push e) => [e]
  | _ => []

/-- The `Write` calls that hand `entries` to all policies. -/
def rounds (policies : List ι) (entries : List (Entry τ μ)) : List (ι × Entry τ μ) :=
  entries.flatMap fun e => policies.map fun p => (p, e)

def begun (policies : List ι) (queue : Mailbox (Entry τ μ) (Delivery τ μ)) :
    List (ι × Entry τ μ) :=
  match queue.consumer with
  | .working d => (policies.take (d.index + d.inside.toNat)).map fun p => (p, d.entry)
  | _ => []

namespace State

def backlog (s : State P) : List (Entry τ μ) := s.queue.backlog fun d => [d.entry]

def announced (s : State P) (t : τ) : List (Entry τ μ) := Call.announces (s.calls (.thread t))

end State

structure Ledger [DecidableEq τ] (s : State P) : Prop where
  handed : ∃ delivered, s.entered = delivered ++ s.backlog ∧
    s.writes = rounds s.policies delivered ++ begun s.policies s.queue
  index : ∀ d, s.queue.consumer = .working d → d.inside = true → d.index < s.policies.length
  own : ∀ t, s.logged.filter (fun e => e.producer = t) =
    s.entered.filter (fun e => e.producer = t) ++ s.announced t
  pushes : ∀ c e, s.calls c = some (.push e) → c = .thread e.producer

theorem rounds_append (policies : List ι) (front back : List (Entry τ μ)) :
    rounds policies (front ++ back) = rounds policies front ++ rounds policies back :=
  List.flatMap_append

theorem rounds_single (policies : List ι) (e : Entry τ μ) :
    rounds policies [e] = policies.map fun p => (p, e) := List.flatMap_singleton _ _

theorem begun_working {policies : List ι} {queue : Mailbox (Entry τ μ) (Delivery τ μ)}
    {d : Delivery τ μ} (working : queue.consumer = .working d) : begun policies queue =
      (policies.take (d.index + d.inside.toNat)).map fun p => (p, d.entry) := by
  rw [begun, working]

theorem begun_idle {policies : List ι} {queue : Mailbox (Entry τ μ) (Delivery τ μ)}
    (idle : ∀ d, queue.consumer ≠ .working d) : begun policies queue = [] := by
  unfold begun
  split
  · exact absurd ‹_› (idle _)
  · rfl

theorem begun_take (policies : List ι) (queue : Mailbox (Entry τ μ) (Delivery τ μ)) :
    begun policies (queue.take fun e => ⟨e, 0, false⟩) = [] := by
  unfold Mailbox.take
  split
  · cases queue.stop <;> rfl
  · rw [begun_working rfl]
    rfl

theorem begun_notify (policies : List ι) (queue : Mailbox (Entry τ μ) (Delivery τ μ)) :
    begun policies queue.notify = begun policies queue := by
  rcases queue with ⟨queue, stop, consumer⟩
  cases consumer <;> rfl

variable [DecidableEq τ]

namespace Ledger

variable {s : State P} {c : Caller τ}

theorem start (P : ι → LogPolicy (Thread τ) (Entry τ μ)) : Ledger (start P) where
  handed := ⟨[], rfl, rfl⟩
  index := nofun
  own := fun _ => rfl
  pushes := nofun

theorem move (inv : Ledger s) (call : Option (Call τ μ))
    (same : Call.announces call = Call.announces (s.calls c)) : Ledger (s.setCall c call) := by
  refine ⟨inv.handed, inv.index, ?_, ?_⟩
  · intro t
    have announced : (s.setCall c call).announced t = s.announced t := by
      simp only [State.announced, State.setCall]
      by_cases me : .thread t = c
      · rw [me, Function.update_self, same]
      · rw [Function.update_of_ne me]
    rw [announced]
    exact inv.own t
  · intro c' e pushing
    by_cases me : c' = c
    · subst me
      simp only [State.setCall, Function.update_self] at pushing
      have before : Call.announces (s.calls c') = [e] := by
        rw [← same, pushing]
        rfl
      apply inv.pushes c' e
      unfold Call.announces at before
      split at before
      · cases before
        exact ‹_›
      · cases before
    · simp only [State.setCall, Function.update_of_ne me] at pushing
      exact inv.pushes c' e pushing

theorem log (inv : Ledger s) (t : τ) (message : μ) (absent : s.calls (.thread t) = none) :
    Ledger { s.setCall (.thread t) (some (.push ⟨s.logged.length, t, message⟩)) with
      logged := s.logged ++ [⟨s.logged.length, t, message⟩] } := by
  refine ⟨inv.handed, inv.index, ?_, ?_⟩
  · intro u
    simp only [List.filter_append, inv.own u, State.announced, State.setCall]
    by_cases me : u = t
    · subst me
      simp [absent, Call.announces]
    · have other : Caller.thread u ≠ .thread t := by
        intro same
        cases same
        exact me rfl
      rw [Function.update_of_ne other]
      simp [Ne.symm me]
  · intro c e pushing
    by_cases me : c = .thread t
    · subst me
      simp only [State.setCall, Function.update_self, Option.some.injEq, Call.push.injEq] at pushing
      rw [← pushing]
    · simp only [State.setCall, Function.update_of_ne me] at pushing
      exact inv.pushes c e pushing

theorem push (inv : Ledger s) {e : Entry τ μ} (mine : s.calls c = some (.push e)) :
    Ledger { s.setCall c (some (.notifyOne e)) with
      queue := s.queue.push e
      entered := s.entered ++ [e] } := by
  have producer := inv.pushes c e mine
  subst producer
  refine ⟨?_, inv.index, ?_, ?_⟩
  · rcases inv.handed with ⟨delivered, entered, writes⟩
    refine ⟨delivered, ?_, writes⟩
    rw [State.backlog, Mailbox.backlog_push, entered, List.append_assoc]
    rfl
  · intro t
    simp only [List.filter_append, State.announced, State.setCall]
    by_cases me : e.producer = t
    · subst me
      rw [inv.own, State.announced, mine]
      simp [Call.announces]
    · have other : Caller.thread t ≠ .thread e.producer := by
        intro same
        cases same
        exact me rfl
      rw [Function.update_of_ne other, inv.own, State.announced]
      simp [me]
  · intro c e' pushing
    by_cases me : c = .thread e.producer
    · subst me
      simp only [State.setCall, Function.update_self] at pushing
      cases pushing
    · simp only [State.setCall, Function.update_of_ne me] at pushing
      exact inv.pushes c e' pushing

theorem entered_nil (inv : Ledger s) (unlogged : s.logged = []) : s.entered = [] := by
  cases entered : s.entered with
  | nil => rfl
  | cons e rest =>
      have own := inv.own e.producer
      rw [unlogged, entered] at own
      simp at own

theorem addPolicy (inv : Ledger s) (unlogged : s.logged = []) (p : ι) :
    Ledger { s with policies := s.policies ++ [p] } := by
  have nothing := inv.entered_nil unlogged
  refine ⟨?_, ?_, inv.own, inv.pushes⟩
  · rcases inv.handed with ⟨delivered, entered, writes⟩
    rw [nothing, eq_comm, List.append_eq_nil_iff] at entered
    have idle : begun (s.policies ++ [p]) s.queue = begun s.policies s.queue := by
      have empty := entered.2
      unfold State.backlog Mailbox.backlog at empty
      unfold begun
      split
      · rename_i working
        rw [working] at empty
        cases empty
      · rfl
    refine ⟨delivered, ?_, ?_⟩
    · rw [nothing, entered.1]
      exact entered.2.symm
    · rw [idle, writes, entered.1]
      rfl
  · intro d working inside
    have below := inv.index d working inside
    rw [List.length_append]
    omega

theorem setQueue (inv : Ledger s) (queue : Mailbox (Entry τ μ) (Delivery τ μ))
    (backlog : (s.setQueue queue).backlog = s.backlog)
    (same : begun s.policies queue = begun s.policies s.queue)
    (index : ∀ d, queue.consumer = .working d → d.inside = true → d.index < s.policies.length) :
    Ledger (s.setQueue queue) := by
  refine ⟨?_, index, inv.own, inv.pushes⟩
  rcases inv.handed with ⟨delivered, entered, writes⟩
  refine ⟨delivered, ?_, ?_⟩
  · rw [backlog]
    exact entered
  · rw [State.setQueue, same]
    exact writes

theorem notify (inv : Ledger s) : Ledger (s.setQueue s.queue.notify) := by
  apply inv.setQueue _ Mailbox.backlog_notify (begun_notify _ _)
  intro d working
  exact inv.index d (Mailbox.notified_eq_working.mp working)

theorem take (inv : Ledger s) (entering : s.queue.consumer = .entering) :
    Ledger (s.setQueue (s.queue.take fun e => ⟨e, 0, false⟩)) := by
  have idle : ∀ d, s.queue.consumer ≠ .working d := by
    rw [entering]
    nofun
  apply inv.setQueue
  · exact Mailbox.backlog_take idle fun _ => rfl
  · rw [begun_take, begun_idle idle]
  · intro d working inside
    unfold Mailbox.take at working
    split at working
    · cases stopped : s.queue.stop <;> simp [stopped] at working
    · cases working
      cases inside

theorem write [DecidableEq ι] (inv : Ledger s) {e : Entry τ μ} {i : Nat} {p : ι}
    (state : (P p).State) (working : s.queue.consumer = .working ⟨e, i, false⟩)
    (here : s.policies[i]? = some p) :
    Ledger { s.setPolicy p state with
      queue := s.queue.resume (.working ⟨e, i, true⟩)
      writes := s.writes ++ [(p, e)] } := by
  refine ⟨?_, ?_, inv.own, inv.pushes⟩
  · rcases inv.handed with ⟨delivered, entered, writes⟩
    refine ⟨delivered, ?_, ?_⟩
    · rw [State.backlog, Mailbox.backlog_working working] at entered
      exact entered
    · rw [begun_working working] at writes
      rw [begun_working rfl, writes, List.append_assoc]
      simp [State.setPolicy, List.take_add_one, here]
  · intro d now inside
    cases now
    exact (List.getElem?_eq_some_iff.mp here).1

theorem writeReturned (inv : Ledger s) {e : Entry τ μ} {i : Nat}
    (working : s.queue.consumer = .working ⟨e, i, true⟩) :
    Ledger (s.setQueue (s.queue.resume (.working ⟨e, i + 1, false⟩))) := by
  apply inv.setQueue
  · rw [State.backlog, State.backlog, Mailbox.backlog_working working]
    rfl
  · rw [begun_working working, begun_working rfl]
    rfl
  · intro d now inside
    cases now
    cases inside

theorem delivered (inv : Ledger s) {e : Entry τ μ} {i : Nat}
    (working : s.queue.consumer = .working ⟨e, i, false⟩) (last : s.policies[i]? = none) :
    Ledger (s.setQueue (s.queue.resume .entering)) := by
  refine ⟨?_, nofun, inv.own, inv.pushes⟩
  rcases inv.handed with ⟨delivered, entered, writes⟩
  rw [State.backlog, Mailbox.backlog_working working] at entered
  rw [begun_working working] at writes
  refine ⟨delivered ++ [e], ?_, ?_⟩
  · rw [List.append_assoc]
    exact entered
  · have all : s.policies.take (i + false.toNat) = s.policies :=
      List.take_of_length_le (List.getElem?_eq_none_iff.mp last)
    rw [all] at writes
    rw [begun_idle (by nofun), rounds_append, rounds_single, List.append_nil]
    exact writes

theorem step [DecidableEq ι] {s' : State P} {a : Action P} (inv : Ledger s) (allowed : Allowed s a)
    (taken : Logger.step s a = some s') : Ledger s' := by
  cases step_takes taken with
  | addPolicy p => exact inv.addPolicy allowed p
  | log t message absent => exact inv.log t message absent
  | flush t absent =>
      apply inv.move
      rw [absent]
      rfl
  | push c e mine free => exact inv.push mine
  | notifyOne c e mine =>
      have moved := inv.move none (by rw [mine]; rfl)
      have notified := moved.notify
      exact ⟨notified.handed, notified.index, notified.own, notified.pushes⟩
  | lock c owed mine free =>
      have moved := inv.move (some (.next owed 0)) (by rw [mine]; rfl)
      exact ⟨moved.handed, moved.index, moved.own, moved.pushes⟩
  | flushPolicy c owed i p state mine here begun =>
      have moved := inv.move (some (.inside owed i)) (by rw [mine]; rfl)
      exact ⟨moved.handed, moved.index, moved.own, moved.pushes⟩
  | flushReturned c owed i mine => exact inv.move _ (by rw [mine]; rfl)
  | flushed c owed i mine last =>
      have moved := inv.move none (by rw [mine]; rfl)
      exact ⟨moved.handed, moved.index, moved.own, moved.pushes⟩
  | take entering free => exact inv.take entering
  | write e i p state working here begun => exact inv.write state working here
  | writeReturned e i p working here returned => exact inv.writeReturned working
  | delivered e i working last => exact inv.delivered working last
  | spurious waiting => exact inv.notify
  | timerFlush absent =>
      have moved := inv.move (some (.lock s.returned)) (by rw [absent]; rfl)
      exact ⟨moved.handed, moved.index, moved.own, moved.pushes⟩
  | notifyAll pc =>
      have notified := inv.notify
      exact ⟨notified.handed, notified.index, notified.own, notified.pushes⟩
  | timer | destroy | setStop | joinThread | joinTimer | destroyPolicy | policy =>
      exact ⟨inv.handed, inv.index, inv.own, inv.pushes⟩

end Ledger

end CommonUtils.Logger
