import CommonUtils.Library.Progress
import CommonUtils.Logger.Delivery

namespace CommonUtils.Logger

universe u v

/-- What a policy has to do is bounded. Each step brings it nearer to rest, but for what its
action allows for; a call adds at most `cost`; and short of the end of its destructor it is
never stuck. -/
structure LogPolicy.Prompt {τ μ : Type u} (policy : LogPolicy τ μ)
    (I : Use → List μ → policy.State → Prop) (ended : List μ → policy.State → Prop)
    (cost : Nat) where
  remaining : policy.State → Nat
  allowance : policy.Action → Nat
  started : ∀ t, policy.returned policy.start t = true
  write_starts : ∀ {s t} m, policy.returned s t = true → (policy.write s t m).isSome
  write_costs : ∀ {s s' t m}, policy.write s t m = some s' → remaining s' ≤ remaining s + cost
  write_others : ∀ {s s' t m u}, policy.write s t m = some s' → u ≠ t →
    policy.returned s u = true → policy.returned s' u = true
  flush_starts : ∀ {s t}, policy.returned s t = true → (policy.flush s t).isSome
  flush_costs : ∀ {s s' t}, policy.flush s t = some s' → remaining s' ≤ remaining s + cost
  flush_others : ∀ {s s' t u}, policy.flush s t = some s' → u ≠ t →
    policy.returned s u = true → policy.returned s' u = true
  destroy_falls : ∀ {s s' t}, policy.destroy s t = some s' → remaining s' < remaining s
  destroy_others : ∀ {s s' t u}, policy.destroy s t = some s' →
    policy.returned s u = true → policy.returned s' u = true
  step_falls : ∀ {s s' a}, policy.step s a = some s' → remaining s' < remaining s + allowance a
  step_others : ∀ {s s' a u}, policy.step s a = some s' →
    policy.returned s u = true → policy.returned s' u = true
  moves : ∀ {s t}, policy.returned s t = false → ∃ a, (policy.step s a).isSome
  ends : ∀ {written s} t, I .closed written s → ¬ ended written s →
    (policy.destroy s t).isSome ∨ ∃ a, (policy.step s a).isSome

variable {τ μ : Type u} {ι : Type v} {P : ι → LogPolicy (Thread τ) (Entry τ μ)}

def Call.holds : Option (Call τ μ) → Prop
  | some (.next _ _) | some (.inside _ _) => True
  | _ => False

def State.inFlush (s : State P) (c : Caller τ) (p : ι) : Prop :=
  ∃ owed i, s.calls c = some (.inside owed i) ∧ s.policies[i]? = some p

theorem timer_cases [DecidableEq τ] {s s' : State P} (taken : s.timerStep = some s') :
    s.timerTask = .test ∧ s' = s.setTimer (if s.queue.stop then .returned else .sleep) ∨
      s.timerTask = .sleep ∧ s.calls .timerTask = none ∧
        s' = (s.setTimer .flush).setCall .timerTask (some (.lock s.returned)) ∨
      s.timerTask = .flush ∧ s.calls .timerTask = none ∧ s' = s.setTimer .test := by
  unfold State.timerStep at taken
  split at taken
  · cases taken
    exact .inl ⟨‹_›, rfl⟩
  · rcases Option.map_eq_some_iff.mp taken with ⟨called, begun, rfl⟩
    unfold State.flush at begun
    split at begun <;> cases begun
    exact .inr (.inl ⟨‹_›, ‹_›, rfl⟩)
  · split at taken <;> cases taken
    exact .inr (.inr ⟨‹_›, ‹_›, rfl⟩)
  · cases taken

variable [DecidableEq ι]

theorem setPolicy_returned {s : State P} {q : ι} {state : (P q).State} {t : Thread τ}
    (kept : (P q).returned (s.policy q) t = true → (P q).returned state t = true) (p : ι)
    (quiet : (P p).returned (s.policy p) t = true) :
    (P p).returned ((s.setPolicy q state).policy p) t = true := by
  by_cases same : p = q
  · subst same
    simp only [State.setPolicy, Function.update_self]
    exact kept quiet
  · simp only [State.setPolicy, Function.update_of_ne same]
    exact quiet

structure Engaged (s : State P) : Prop where
  holder : ∀ c, s.mutex = some c → Call.holds (s.calls c)
  inside : ∀ c owed i, s.calls c = some (.inside owed i) → ∃ p, s.policies[i]? = some p
  timer : s.timerTask ≠ .flush → s.calls .timerTask = none
  write : ∀ p, (P p).returned (s.policy p) .processQueue = false → s.inWrite p = true
  flush : ∀ p c, (P p).returned (s.policy p) (.caller c) = false → s.inFlush c p

namespace Engaged

variable {s s' : State P}

theorem frame (engaged : Engaged s) (calls : s'.calls = s.calls) (mutex : s'.mutex = s.mutex)
    (policies : s'.policies = s.policies) (timerTask : s'.timerTask = s.timerTask)
    (others : ∀ p c, (P p).returned (s.policy p) (.caller c) = true →
      (P p).returned (s'.policy p) (.caller c) = true)
    (write : ∀ p, (P p).returned (s'.policy p) .processQueue = false → s'.inWrite p = true) :
    Engaged s' where
  holder := by rw [mutex, calls]; exact engaged.holder
  inside := by rw [policies, calls]; exact engaged.inside
  timer := by rw [timerTask, calls]; exact engaged.timer
  write := write
  flush := by
    intro p c busy
    have before : (P p).returned (s.policy p) (.caller c) = false := by
      by_contra quiet
      rw [others p c (by simpa using quiet)] at busy
      cases busy
    rw [State.inFlush, calls, policies]
    exact engaged.flush p c before

theorem setPolicy (engaged : Engaged s) {q : ι} {state : (P q).State}
    (others : ∀ t, (P q).returned (s.policy q) t = true → (P q).returned state t = true) :
    Engaged (s.setPolicy q state) := by
  refine engaged.frame rfl rfl rfl rfl (fun p c => setPolicy_returned (others _) p) ?_
  intro p busy
  apply engaged.write p
  by_contra quiet
  rw [setPolicy_returned (others _) p (by simpa using quiet)] at busy
  cases busy

variable [DecidableEq τ]

theorem move (engaged : Engaged s) (c : Caller τ) (call : Option (Call τ μ))
    (calls : s'.calls = Function.update s.calls c call) (policies : s'.policies = s.policies)
    (timerTask : s'.timerTask = s.timerTask) (inWrite : ∀ p, s'.inWrite p = s.inWrite p)
    (others : ∀ p t, t ≠ .caller c → (P p).returned (s.policy p) t = true →
      (P p).returned (s'.policy p) t = true)
    (mutex : ∀ c', s'.mutex = some c' → c' = c ∧ Call.holds call ∨ c' ≠ c ∧ s.mutex = some c')
    (inside : ∀ owed i, call = some (.inside owed i) → ∃ p, s.policies[i]? = some p)
    (timer : c = .timerTask → s.timerTask = .flush)
    (mine : ∀ p, (P p).returned (s'.policy p) (.caller c) = false →
      ∃ owed i, call = some (.inside owed i) ∧ s.policies[i]? = some p) : Engaged s' where
  holder := by
    intro c' held
    rw [calls]
    rcases mutex c' held with ⟨rfl, holds⟩ | ⟨other, before⟩
    · rw [Function.update_self]
      exact holds
    · rw [Function.update_of_ne other]
      exact engaged.holder c' before
  inside := by
    intro c' owed i here
    rw [policies]
    rw [calls] at here
    by_cases me : c' = c
    · subst me
      rw [Function.update_self] at here
      exact inside owed i here
    · rw [Function.update_of_ne me] at here
      exact engaged.inside c' owed i here
  timer := by
    intro idle
    rw [timerTask] at idle
    have other : Caller.timerTask ≠ c := fun same => idle (timer same.symm)
    rw [calls, Function.update_of_ne other]
    exact engaged.timer idle
  write := by
    intro p busy
    rw [inWrite]
    apply engaged.write p
    by_contra quiet
    rw [others p .processQueue nofun (by simpa using quiet)] at busy
    cases busy
  flush := by
    intro p c' busy
    rw [State.inFlush, calls, policies]
    by_cases me : c' = c
    · subst me
      rw [Function.update_self]
      exact mine p busy
    · rw [Function.update_of_ne me]
      apply engaged.flush p c'
      by_contra quiet
      rw [others p _ (by simpa using me) (by simpa using quiet)] at busy
      cases busy

omit [DecidableEq τ] in
theorem returned (engaged : Engaged s) {c : Caller τ} (outside : ∀ p, ¬ s.inFlush c p) (p : ι) :
    (P p).returned (s.policy p) (.caller c) = true := by
  by_contra busy
  exact outside p (engaged.flush p c (by simpa using busy))

omit [DecidableEq τ] [DecidableEq ι] in
theorem outside_of_not_holds {c : Caller τ} (free : ¬ Call.holds (s.calls c)) (p : ι) :
    ¬ s.inFlush c p := by
  rintro ⟨owed, i, here, _⟩
  rw [here] at free
  exact free trivial

theorem goto (engaged : Engaged s) (c : Caller τ) (call : Option (Call τ μ))
    (calls : s'.calls = Function.update s.calls c call) (policies : s'.policies = s.policies)
    (timerTask : s'.timerTask = s.timerTask) (inWrite : ∀ p, s'.inWrite p = s.inWrite p)
    (policy : s'.policy = s.policy) (mutex : s'.mutex = s.mutex)
    (free : ¬ Call.holds (s.calls c)) (stays : ∀ owed i, call ≠ some (.inside owed i))
    (timer : c = .timerTask → s.timerTask = .flush) : Engaged s' := by
  apply engaged.move c call calls policies timerTask inWrite _ _ _ timer
  · intro p busy
    rw [policy, engaged.returned (outside_of_not_holds free)] at busy
    cases busy
  · intro p t _ quiet
    rw [policy]
    exact quiet
  · intro c' held
    rw [mutex] at held
    refine .inr ⟨?_, held⟩
    intro same
    subst same
    exact free (engaged.holder c' held)
  · exact fun owed i here => absurd here (stays owed i)

end Engaged

variable [DecidableEq τ]

theorem flush_returned {s s' : State P} {c : Caller τ} {owed : List (Entry τ μ)} {i : Nat}
    (mine : s.calls c = some (.inside owed i)) (taken : step s (.caller c) = some s') :
    ∃ p, s.policies[i]? = some p ∧ (P p).returned (s.policy p) (.caller c) = true := by
  simp only [step, mine, State.callStep] at taken
  split at taken
  · split at taken
    · exact ⟨_, ‹_›, ‹_›⟩
    · cases taken
  · cases taken

section Step

variable {I : (p : ι) → Use → List (Entry τ μ) → (P p).State → Prop}
variable {ended : (p : ι) → List (Entry τ μ) → (P p).State → Prop} {cost : Nat}
variable {s s' : State P} {a : Action P}

omit [DecidableEq τ] in
theorem Engaged.start (prompt : ∀ p, (P p).Prompt (I p) (ended p) cost) : Engaged (start P) where
  holder := nofun
  inside := nofun
  timer := fun _ => rfl
  write p busy := by
    have quiet := (prompt p).started .processQueue
    rw [show (P p).returned (P p).start .processQueue = false from busy] at quiet
    cases quiet
  flush p c busy := by
    have quiet := (prompt p).started (.caller c)
    rw [show (P p).returned (P p).start (.caller c) = false from busy] at quiet
    cases quiet

theorem Engaged.timer_step (engaged : Engaged s) (taken : s.timerStep = some s') : Engaged s' := by
  rcases timer_cases taken with ⟨pc, rfl⟩ | ⟨pc, absent, rfl⟩ | ⟨pc, absent, rfl⟩
  · have absent := engaged.timer (by rw [pc]; nofun)
    exact ⟨engaged.holder, engaged.inside, fun _ => absent, engaged.write, engaged.flush⟩
  · have begun : Engaged (s.setTimer .flush) :=
      ⟨engaged.holder, engaged.inside, fun idle => absurd rfl idle, engaged.write, engaged.flush⟩
    refine begun.goto .timerTask (some (.lock s.returned)) rfl rfl rfl (fun _ => rfl) rfl rfl ?_
      nofun fun _ => rfl
    simp only [State.setTimer, absent]
    exact id
  · exact ⟨engaged.holder, engaged.inside, fun _ => absent, engaged.write, engaged.flush⟩

theorem Engaged.step (prompt : ∀ p, (P p).Prompt (I p) (ended p) cost) (engaged : Engaged s)
    (taken : Logger.step s a = some s') : Engaged s' := by
  have writing : (∀ d, s.queue.consumer = .working d → d.inside = false) → ∀ p,
      (P p).returned (s.policy p) .processQueue = true := by
    intro outside p
    by_contra busy
    have inWrite := engaged.write p (by simpa using busy)
    unfold State.inWrite at inWrite
    split at inWrite
    · simp [outside _ ‹_›] at inWrite
    · cases inWrite
  have calling {c : Caller τ} {call : Call τ μ} (mine : s.calls c = some call) :
      c = .timerTask → s.timerTask = .flush := by
    intro same
    subst same
    by_contra idle
    rw [engaged.timer idle] at mine
    cases mine
  cases step_takes taken with
  | addPolicy p =>
      refine ⟨engaged.holder, ?_, engaged.timer, ?_, ?_⟩
      · intro c owed i here
        rcases engaged.inside c owed i here with ⟨q, found⟩
        exact ⟨q, by rw [List.getElem?_append_left (List.getElem?_eq_some_iff.mp found).1, found]⟩
      · intro q busy
        have before := engaged.write q busy
        cases working : s.queue.consumer with
        | working d =>
            rcases d with ⟨e, i, inside⟩
            rw [State.inWrite_working working, Bool.and_eq_true, decide_eq_true_iff] at before
            rw [State.inWrite_working (e := e) (i := i) (by exact working), Bool.and_eq_true,
              decide_eq_true_iff]
            refine ⟨before.1, ?_⟩
            rw [List.getElem?_append_left (List.getElem?_eq_some_iff.mp before.2).1, before.2]
        | _ =>
            rw [State.inWrite_idle (by simp [working])] at before
            cases before
      · intro q c busy
        rcases engaged.flush q c busy with ⟨owed, i, here, found⟩
        exact ⟨owed, i, here,
          by rw [List.getElem?_append_left (List.getElem?_eq_some_iff.mp found).1, found]⟩
  | log t message absent =>
      refine engaged.goto (.thread t) (some (.push ⟨s.logged.length, t, message⟩)) rfl rfl rfl
        (fun _ => rfl) rfl rfl ?_ (by simp) (by simp)
      rw [absent]
      exact id
  | flush t absent =>
      refine engaged.goto (.thread t) (some (.lock s.returned)) rfl rfl rfl (fun _ => rfl) rfl rfl
        ?_ (by simp) (by simp)
      rw [absent]
      exact id
  | push c e mine free =>
      refine engaged.goto c (some (.notifyOne e)) rfl rfl rfl (fun _ => rfl) rfl rfl ?_ (by simp)
        (calling mine)
      rw [mine]
      exact id
  | notifyOne c e mine =>
      refine engaged.goto c none rfl rfl rfl (State.inWrite_notify s) rfl rfl ?_ (by simp)
        (calling mine)
      rw [mine]
      exact id
  | lock c owed mine free =>
      refine engaged.move c (some (.next owed 0)) rfl rfl rfl (fun _ => rfl) (fun _ _ _ => id) ?_
        (by simp) (calling mine) ?_
      · rintro c' ⟨⟩
        exact .inl ⟨rfl, trivial⟩
      · intro p busy
        have outside := engaged.returned (c := c) (Engaged.outside_of_not_holds (by
          rw [mine]
          exact id)) p
        cases outside.symm.trans busy
  | flushPolicy c owed i p state mine here begun =>
      refine engaged.move c (some (.inside owed i)) rfl rfl rfl (fun _ => rfl) ?_ ?_ ?_
        (calling mine) ?_
      · exact fun q t other => setPolicy_returned (fun quiet =>
          (prompt p).flush_others begun other quiet) q
      · exact fun c' held => (eq_or_ne c' c).imp (fun same => ⟨same, trivial⟩) fun other =>
          ⟨other, held⟩
      · rintro owed' i' ⟨⟩
        exact ⟨p, here⟩
      · intro q busy
        refine ⟨owed, i, rfl, ?_⟩
        by_cases same : q = p
        · rw [same, here]
        · simp only [State.setPolicy, State.setCall, Function.update_of_ne same] at busy
          rcases engaged.flush q c busy with ⟨owed', i', inside, _⟩
          rw [mine] at inside
          cases inside
  | flushReturned c owed i mine =>
      rcases flush_returned mine taken with ⟨p, here, returned⟩
      refine engaged.move c (some (.next owed (i + 1))) rfl rfl rfl (fun _ => rfl)
        (fun _ _ _ => id) ?_ (by simp) (calling mine) ?_
      · exact fun c' held => (eq_or_ne c' c).imp (fun same => ⟨same, trivial⟩) fun other =>
          ⟨other, held⟩
      · intro q busy
        rcases engaged.flush q c busy with ⟨owed', i', inside, found⟩
        rw [mine] at inside
        cases inside
        rw [here] at found
        cases found
        cases returned.symm.trans busy
  | flushed c owed i mine last =>
      refine engaged.move c none rfl rfl rfl (fun _ => rfl) (fun _ _ _ => id) (by simp) (by simp)
        (calling mine) ?_
      intro q busy
      rcases engaged.flush q c busy with ⟨owed', i', inside, found⟩
      rw [mine] at inside
      cases inside
  | take entering free =>
      refine engaged.frame rfl rfl rfl rfl (fun _ _ => id) ?_
      intro p busy
      have quiet := writing (by simp [entering]) p
      cases quiet.symm.trans busy
  | write e i p state working here begun =>
      refine engaged.frame rfl rfl rfl rfl ?_ ?_
      · intro q c
        have other : Thread.caller c ≠ .processQueue := by rintro ⟨⟩
        exact setPolicy_returned (fun quiet => (prompt p).write_others begun other quiet) q
      · intro q busy
        rw [State.inWrite_working rfl]
        by_cases same : q = p
        · simp [same, State.setPolicy, here]
        · simp only [State.setPolicy, Function.update_of_ne same] at busy
          have quiet := writing (by rw [working]; rintro d ⟨⟩; rfl) q
          cases quiet.symm.trans busy
  | writeReturned e i p working here returned =>
      refine engaged.frame rfl rfl rfl rfl (fun _ _ => id) ?_
      intro q busy
      have inWrite := engaged.write q busy
      rw [State.inWrite_working working, here] at inWrite
      have same : p = q := by simpa using inWrite
      subst same
      cases returned.symm.trans busy
  | delivered e i working last =>
      refine engaged.frame rfl rfl rfl rfl (fun _ _ => id) ?_
      intro p busy
      have quiet := writing (by rw [working]; rintro d ⟨⟩; rfl) p
      cases quiet.symm.trans busy
  | spurious waiting =>
      refine engaged.frame rfl rfl rfl rfl (fun _ _ => id) ?_
      intro p busy
      rw [State.inWrite_notify]
      exact engaged.write p busy
  | timer | timerFlush => exact engaged.timer_step taken
  | destroy pc => exact engaged.frame rfl rfl rfl rfl (fun _ _ => id) engaged.write
  | setStop pc free => exact engaged.frame rfl rfl rfl rfl (fun _ _ => id) engaged.write
  | notifyAll pc =>
      refine engaged.frame rfl rfl rfl rfl (fun _ _ => id) ?_
      intro p busy
      exact (State.inWrite_notify s p).trans (engaged.write p busy)
  | joinThread pc returned => exact engaged.frame rfl rfl rfl rfl (fun _ _ => id) engaged.write
  | joinTimer pc returned => exact engaged.frame rfl rfl rfl rfl (fun _ _ => id) engaged.write
  | destroyPolicy p state pc begun =>
      exact engaged.setPolicy fun t quiet => (prompt p).destroy_others begun quiet
  | policy p b state stepped =>
      exact engaged.setPolicy fun t quiet => (prompt p).step_others stepped quiet

end Step

end CommonUtils.Logger
