import CommonUtils.TCP.Server.Lifetime

/-! Exceptions of the message handler. It asks the socket for its peer with
`remote_endpoint()`, and nothing between the handler and `run` catches what that throws. -/

namespace CommonUtils.TCP.Server

open SessionManager (Id)

variable {τ σ δ : Type*}

def Read.asking : Read δ → Bool
  | .queued _ | .address _ | .port _ _ => true
  | .idle | .reading | .failed | .push _ _ _ | .finishing => false

def Exposed (s : State τ σ δ) (x : σ) : Prop :=
  (s.pool.running = true ∧ ∃ data, s.reads x = .queued data) ∨
    (∃ data, s.reads x = .address data) ∨ ∃ data ip, s.reads x = .port data ip

def Usable (s : State τ σ δ) (x : σ) : Prop :=
  (s.sockets x).isOpen = true ∧ (s.sockets x).connected = true

theorem remoteEndpoint_eq_none {s : State τ σ δ} {x : σ} :
    s.remoteEndpoint x = none ↔ ¬ Usable s x := by
  unfold State.remoteEndpoint Usable
  split <;> simp_all

/-- `x` loses its socket before the handler is done with it, or a frame that came before
its peer went is read after. -/
def Strikes (s : State τ σ δ) : Action τ σ δ → Prop
  | .disconnect x => Exposed s x
  | .closeSession id => ∃ x, s.closing (.removeSession id) = some x ∧ Exposed s x
  | .removeNext t => ∃ x, s.closing (.removeNext (.inl t)) = some x ∧ Exposed s x
  | .arrive x _ => s.pool.running = true ∧ (s.sockets x).connected = false
  | _ => False

structure Safe (s : State τ σ δ) : Prop where
  running : s.terminated = false
  usable : ∀ x, Exposed s x → Usable s x

theorem Safe.of {s s' : State τ σ δ} (safe : Safe s) (running : s'.terminated = false)
    (exposed : ∀ x, Exposed s' x → Exposed s x ∨ Usable s' x)
    (usable : ∀ x, Exposed s x → Usable s x → Usable s' x) : Safe s' := by
  refine ⟨running, ?_⟩
  intro x exposure
  rcases exposed x exposure with before | now
  · exact usable x before (safe.usable x before)
  · exact now

theorem Exposed.reads_ne_idle {s : State τ σ δ} {x : σ} (exposed : Exposed s x) :
    s.reads x ≠ .idle := by
  intro idle
  rcases exposed with ⟨_, data, pc⟩ | ⟨data, pc⟩ | ⟨data, ip, pc⟩ <;> rw [idle] at pc <;> cases pc

theorem Exposed.ne {s : State τ σ δ} {x y : σ} (exposed : Exposed s y)
    (unexposed : ¬ Exposed s x) : y ≠ x := by
  intro same
  rw [same] at exposed
  exact unexposed exposed

theorem not_exposed_of_halted {cfg : Config} {s : State τ σ δ} (life : Lifetime cfg s)
    (halted : s.control.halted = true)
    (later : ∀ destroying, s.control ≠ .join destroying ∧ s.control ≠ .clear destroying) (x : σ) :
    ¬ Exposed s x := by
  intro exposed
  rcases life.waiting x exposed.reads_ne_idle with running | ⟨destroying, pc | pc⟩
  · rw [life.halted halted] at running
    cases running
  · exact (later destroying).1 pc
  · exact (later destroying).2 pc

theorem strikes_iff_closing {s : State τ σ δ} {a : Action τ σ δ}
    {b : SessionManager.Action (τ ⊕ σ) σ δ} (on : a.onRegistry = some b) :
    Strikes s a ↔ ∃ x, s.closing b = some x ∧ Exposed s x := by
  cases a with
  | closeSession id | removeNext t =>
      cases on
      rfl
  | scan t now =>
      cases on
      simp [Strikes, State.closing]
  | _ => cases on

variable [DecidableEq σ]

theorem exposed_of_update {s t : State τ σ δ} {x y : σ} {pc : Read δ}
    (running : t.pool.running = s.pool.running) (reads : t.reads = Function.update s.reads x pc)
    (calm : Exposed t x → Exposed s x) (exposed : Exposed t y) : Exposed s y := by
  by_cases same : y = x
  · rw [same] at exposed ⊢
    exact calm exposed
  · simpa only [Exposed, running, reads, Function.update_of_ne same] using exposed

theorem not_exposed_of_update {s t : State τ σ δ} {x : σ} {pc : Read δ}
    (reads : t.reads = Function.update s.reads x pc) (resting : pc.asking = false) :
    ¬ Exposed t x := by
  intro exposed
  simp only [Exposed, reads, Function.update_self] at exposed
  rcases exposed with ⟨_, data, same⟩ | ⟨data, same⟩ | ⟨data, ip, same⟩ <;>
    rw [same] at resting <;> cases resting

theorem exposed_of_queued {s : State τ σ δ} {x y : σ} {data : δ}
    (exposed : Exposed (s.setRead x (.queued data)) y) :
    Exposed s y ∨ y = x ∧ s.pool.running = true := by
  by_cases same : y = x
  · right
    subst same
    refine ⟨rfl, ?_⟩
    rcases exposed with ⟨running, _⟩ | ⟨other, now⟩ | ⟨other, ip, now⟩
    · exact running
    · simp [State.setRead] at now
    · simp [State.setRead] at now
  · left
    simpa only [Exposed, State.setRead, Function.update_of_ne same] using exposed

variable [DecidableEq τ]

theorem safe_iff_not_strikes {cfg : Config} {s s' : State τ σ δ} {a : Action τ σ δ}
    (life : Lifetime cfg s) (safe : Safe s) (taken : step cfg s a = some s') :
    Safe s' ↔ ¬ Strikes s a := by
  rcases step_takes taken with ⟨alive, takes⟩
  have calm {b : Action τ σ δ} (not : ¬ Strikes s b) {t : State τ σ δ}
      (running : t.terminated = false) (exposed : ∀ x, Exposed t x → Exposed s x ∨ Usable t x)
      (usable : ∀ x, Exposed s x → Usable s x → Usable t x) : Safe t ↔ ¬ Strikes s b :=
    iff_of_true (safe.of running exposed usable) not
  have rests {b : Action τ σ δ} (not : ¬ Strikes s b) {t : State τ σ δ} {x : σ} {pc : Read δ}
      (alive : t.terminated = false) (running : t.pool.running = s.pool.running)
      (sockets : t.sockets = s.sockets) (reads : t.reads = Function.update s.reads x pc)
      (calmer : Exposed t x → Exposed s x) : Safe t ↔ ¬ Strikes s b := by
    refine calm not alive (fun y now => .inl (exposed_of_update running reads calmer now)) ?_
    intro y _ usable
    rwa [Usable, sockets]
  -- only the loss of a socket and a read behind it strike; every other step is calm
  cases takes with
  | construct context pool pc inside contexts running =>
      refine calm id alive (fun x exposed => .inl ?_) fun _ _ => id
      simpa only [Exposed, running] using exposed
  | start pool pending pc full contexts running fed =>
      refine calm id alive (fun x exposed => .inl ?_) fun _ _ => id
      rcases exposed with ⟨_, data, queued⟩ | handling
      · rcases life.waiting x (by rw [queued]; simp) with before | ⟨destroying, other | other⟩
        · exact .inl ⟨before, data, queued⟩
        · rw [pc] at other
          cases other
        · rw [pc] at other
          cases other
      · exact .inr handling
  | closeAcceptor destroying pc | destroyAcceptor pc =>
      unfold State.touch
      split <;> exact calm id alive (fun _ => .inl) fun _ _ => id
  | stopContexts destroying pc =>
      refine calm id alive (fun x exposed => .inl ?_) fun _ _ => id
      rcases exposed with ⟨running, _⟩ | handling
      · cases running
      · exact .inr handling
  | clear destroying pc =>
      refine calm id alive (fun x exposed => ?_) fun _ _ => id
      exact absurd rfl exposed.reads_ne_idle
  | destroySessions pc =>
      have unexposed := not_exposed_of_halted life (by rw [pc]; rfl) (by simp [pc])
      rw [State.closeAll_eq]
      exact calm id alive (fun _ => .inl) fun x exposed => absurd exposed (unexposed x)
  | accept x peer context pending manager filled running fresh added =>
      refine calm id alive (fun _ => .inl) fun y exposed usable => ?_
      have different : y ≠ x := exposed.ne fun now =>
        fresh (life.added x (.inr now.reads_ne_idle))
      simpa only [Usable, Function.update_of_ne different] using usable
  | acceptFailed pool pending running contexts same fed =>
      refine calm id alive (fun x exposed => .inl ?_) fun _ _ => id
      simpa only [Exposed, same] using exposed
  | startSession x pc =>
      exact rests id alive rfl rfl rfl fun now => absurd now (not_exposed_of_update rfl rfl)
  | acceptAgain x pool pending pc contexts same fed =>
      refine calm id alive (fun y exposed => .inl ?_) fun _ _ => id
      simpa only [Exposed, State.setAccept, same] using exposed
  | call a b manager on callable moved =>
      rw [strikes_iff_closing on, State.closeAll_eq]
      constructor
      · intro safe' struck
        rcases struck with ⟨x, closing, exposed⟩
        have usable := (safe'.usable x exposed).1
        simp [closing] at usable
      · intro unstruck
        refine safe.of alive (fun _ => .inl) fun x exposed usable => ?_
        have other : x ∉ (s.closing b).toList := fun member =>
          unstruck ⟨x, Option.mem_toList.mp member, exposed⟩
        simpa only [Usable, if_neg other] using usable
  | disconnect x =>
      constructor
      · intro safe' exposed
        have usable := (safe'.usable x exposed).2
        simp at usable
      · intro unexposed
        refine safe.of alive (fun _ => .inl) fun y exposed usable => ?_
        have different : y ≠ x := exposed.ne unexposed
        simpa only [Usable, Function.update_of_ne different] using usable
  | arrive x data pc isOpen =>
      constructor
      · intro safe' struck
        have usable := (safe'.usable x (.inl ⟨struck.1, data, by simp [State.setRead]⟩)).2
        simp only [State.setRead] at usable
        rw [struck.2] at usable
        cases usable
      · intro unstruck
        refine safe.of alive (fun y exposed => ?_) fun _ _ => id
        rcases exposed_of_queued exposed with before | ⟨rfl, running⟩
        · exact .inl before
        · refine .inr ⟨isOpen, ?_⟩
          by_contra gone
          exact unstruck ⟨running, Bool.not_eq_true _ ▸ gone⟩
  | fail x pc =>
      exact rests id alive rfl rfl rfl fun now => absurd now (not_exposed_of_update rfl rfl)
  | beginRead x now data pc running =>
      exact rests id alive rfl rfl rfl fun _ => .inl ⟨running, data, pc⟩
  | closeRead x now pc running =>
      rw [State.close_eq]
      refine calm id alive (fun y exposed => .inl ?_) fun y exposed usable => ?_
      · refine exposed_of_update ?_ (?_ : _ = Function.update s.reads x .idle) (fun now => ?_)
          exposed
        · rfl
        · rfl
        · exact absurd now (not_exposed_of_update rfl rfl)
      · have different : y ≠ x := by
          refine exposed.ne fun now => ?_
          rcases now with ⟨_, data, other⟩ | ⟨data, other⟩ | ⟨data, ip, other⟩ <;>
            rw [pc] at other <;> cases other
        simpa only [Usable, State.setRead, Function.update_of_ne different] using usable
  | getAddress x now data peer pc found =>
      exact rests id alive rfl rfl rfl fun _ => .inr (.inl ⟨data, pc⟩)
  | getPort x now data ip peer pc found =>
      exact rests id alive rfl rfl rfl fun now => absurd now (not_exposed_of_update rfl rfl)
  | throw x now pc missing =>
      have exposed : Exposed s x := .inr pc
      exact absurd (safe.usable x exposed) (remoteEndpoint_eq_none.mp missing)
  | push x now data ip port pc =>
      exact rests id alive rfl rfl rfl fun now => absurd now (not_exposed_of_update rfl rfl)
  | finish x now manager pc moved =>
      exact rests id alive rfl rfl rfl fun now => absurd now (not_exposed_of_update rfl rfl)
  | _ => exact calm id alive (fun _ => .inl) fun _ _ => id

/-- Left to the completions delivered so far, the threads let an exception escape. -/
def Doomed (M : Machine (State τ σ δ) (Action τ σ δ)) (s : State τ σ δ) : Prop :=
  ∃ as s', (∀ a ∈ as, ∃ x now, a = .asyncRead x now) ∧ M.runFrom s as = some s' ∧
    s'.terminated = true

section Run

theorem terminates (cfg : Config) {s : State τ σ δ} {x : σ} (alive : s.terminated = false)
    (pc : (∃ data, s.reads x = .address data) ∨ ∃ data ip, s.reads x = .port data ip)
    (missing : s.remoteEndpoint x = none) :
    step cfg s (.asyncRead x 0) = some { s with terminated := true } := by
  rcases pc with ⟨data, pc⟩ | ⟨data, ip, pc⟩ <;>
    simp [step, alive, State.asyncRead, pc, missing]

variable {cfg : Config} {ownId : σ → Id} {created : σ → Int}

theorem safe_of_reads {s s' : State τ σ δ} {as : List (Action τ σ δ)} (life : Lifetime cfg s)
    (safe : Safe s) (reads : ∀ a ∈ as, ∃ x now, a = .asyncRead x now)
    (ran : (machine cfg τ δ ownId created).runFrom s as = some s') : Safe s' := by
  induction as generalizing s with
  | nil =>
      cases ran
      exact safe
  | cons a as ih =>
      rcases Option.bind_eq_some_iff.mp ran with ⟨next, taken, rest⟩
      rcases reads a (by simp) with ⟨x, now, rfl⟩
      have taken : step cfg s (.asyncRead x now) = some next := taken
      exact ih (life.step taken) ((safe_iff_not_strikes life safe taken).mpr id)
        (fun b member => reads b (List.mem_cons_of_mem _ member)) rest

theorem doomed_iff_not_safe {s : State τ σ δ} (life : Lifetime cfg s) :
    Doomed (machine cfg τ δ ownId created) s ↔ ¬ Safe s := by
  constructor
  · intro doomed safe
    rcases doomed with ⟨as, s', reads, ran, terminated⟩
    rw [(safe_of_reads life safe reads ran).running] at terminated
    cases terminated
  · intro unsafe'
    by_cases alive : s.terminated = true
    · exact ⟨[], s, by simp, rfl, alive⟩
    · rw [Bool.not_eq_true] at alive
      have struck : ∃ x, Exposed s x ∧ ¬ Usable s x := by
        by_contra none
        apply unsafe'
        refine ⟨alive, fun x exposed => ?_⟩
        by_contra unusable
        exact none ⟨x, exposed, unusable⟩
      rcases struck with ⟨x, exposed, unusable⟩
      have missing := remoteEndpoint_eq_none.mpr unusable
      rcases exposed with ⟨running, data, pc⟩ | asked
      · have begun : step cfg s (.asyncRead x 0) = some (s.setRead x (.address data)) := by
          simp [step, alive, State.asyncRead, pc, running]
        have thrown := terminates cfg (s := s.setRead x (.address data)) alive
          (.inl ⟨data, Function.update_self _ _ _⟩) missing
        have rest := Option.bind_eq_some_iff.mpr ⟨_, thrown, rfl⟩
        exact ⟨[.asyncRead x 0, .asyncRead x 0], _, by simp,
          Option.bind_eq_some_iff.mpr ⟨_, begun, rest⟩, rfl⟩
      · have thrown := terminates cfg alive asked missing
        exact ⟨[.asyncRead x 0], _, by simp, Option.bind_eq_some_iff.mpr ⟨_, thrown, rfl⟩, rfl⟩

/-- A run dooms the server in no state exactly if none of its steps strikes a session. -/
theorem never_doomed_iff_never_struck (as : List (Action τ σ δ)) :
    (machine cfg τ δ ownId created).AllStates
        (fun s => ¬ Doomed (machine cfg τ δ ownId created) s) (start cfg τ δ ownId created) as ↔
      (machine cfg τ δ ownId created).AllSteps (fun s a => ¬ Strikes s a)
        (start cfg τ δ ownId created) as := by
  apply Machine.allStates_iff_allSteps (I := Lifetime cfg) (A := fun _ _ => True)
  · exact fun s a s' life _ taken => life.step taken
  · intro s a s' life _ good taken
    have taken : step cfg s a = some s' := taken
    rw [doomed_iff_not_safe life, not_not] at good
    rw [doomed_iff_not_safe (life.step taken), not_not]
    exact safe_iff_not_strikes life good taken
  · exact .start cfg ownId created
  · rw [doomed_iff_not_safe (.start cfg ownId created), not_not]
    refine ⟨rfl, fun x exposed => absurd rfl exposed.reads_ne_idle⟩
  · exact Machine.allSteps_true _ _

end Run

/-- A client sends a frame, and its session is closed before the handler runs. -/
def strikingRun : List (Action Unit Bool Nat) :=
  [.construct, .start, .accept false client, .handleNewSession false, .handleNewSession false,
    .handleNewSession false, .arrive false 7, .closeSession 1, .asyncRead false 0,
    .asyncRead false 0]

def NeverTerminated (τ σ δ : Type*) [DecidableEq τ] [DecidableEq σ] : Prop :=
  ∀ (cfg : Config) (ownId : σ → Id) (created : σ → Int) (s : State τ σ δ),
    (machine cfg τ δ ownId created).Reachable s → s.terminated = false

theorem terminated_after_close : ¬ NeverTerminated Unit Bool Nat := by
  intro never
  have survives := never single (fun _ => 0) (fun _ => 0) _
    (Machine.reachable_of_run strikingRun rfl)
  cases survives

end CommonUtils.TCP.Server
