import CommonUtils.TCP.Server.Model

namespace CommonUtils.TCP

namespace SessionManager

variable {τ σ δ : Type*} [DecidableEq τ] [DecidableEq σ]

structure Known (s : State τ σ δ) : Prop where
  registered : ∀ id x, s.sessions.lookup id = some x → x ∈ s.added
  inserting : ∀ t id x, s.threads t = .inserting id x → x ∈ s.added

theorem added_of_addSession {clockTime : Int} {s s' : State τ σ δ} {t : τ} {x : σ}
    (taken : step clockTime s (.addSession t x) = some s') : s'.added = s.added ++ [x] := by
  simp only [step] at taken
  split at taken <;> cases taken
  rfl

theorem added_eq {clockTime : Int} {s s' : State τ σ δ} {a : Action τ σ δ}
    (other : ∀ t x, a ≠ .addSession t x) (taken : step clockTime s a = some s') :
    s'.added = s.added := by
  have removed (id : Id) : (s.removeSession id).added = s.added := by
    unfold State.removeSession
    split <;> rfl
  cases a with
  | addSession t x => exact absurd rfl (other t x)
  | insert t | scan t now =>
      simp only [step] at taken
      split at taken <;> cases taken
      rfl
  | removeNext t =>
      simp only [step] at taken
      split at taken <;> cases taken
      · rfl
      · exact removed _
  | removeSession id =>
      cases taken
      exact removed id
  | unicast id data =>
      cases taken
      unfold State.unicast
      split <;> rfl
  | broadcast data | active x now =>
      cases taken
      rfl

namespace Known

variable {s s' : State τ σ δ}

omit [DecidableEq τ] [DecidableEq σ] in
theorem removeSession (known : Known s) (id : Id) : Known (s.removeSession id) := by
  unfold State.removeSession
  split
  · exact known
  · refine ⟨?_, known.inserting⟩
    intro other x present
    by_cases same : other = id
    · subst same
      rw [AList.lookup_erase] at present
      cases present
    · rw [AList.lookup_erase_ne same] at present
      exact known.registered other x present

omit [DecidableEq σ] in
theorem setThread (known : Known s) (t : τ) (pc : Thread σ)
    (notInserting : ∀ id x, pc ≠ .inserting id x) : Known (s.setThread t pc) := by
  refine ⟨known.registered, ?_⟩
  intro u id x now
  by_cases same : u = t
  · subst same
    simp only [State.setThread, Function.update_self] at now
    exact absurd now (notInserting id x)
  · simp only [State.setThread, Function.update_of_ne same] at now
    exact known.inserting u id x now

theorem step {clockTime : Int} {a : Action τ σ δ} (known : Known s)
    (taken : SessionManager.step clockTime s a = some s') : Known s' := by
  cases a with
  | addSession t x =>
      simp only [SessionManager.step] at taken
      split at taken <;> cases taken
      refine ⟨fun id y present => List.mem_append_left _ (known.registered id y present), ?_⟩
      intro u id y now
      by_cases same : u = t
      · subst same
        simp only [State.fetchAdd, State.setThread, Function.update_self,
          Thread.inserting.injEq] at now
        rw [← now.2]
        exact List.mem_append_right _ (List.mem_singleton_self x)
      · simp only [State.fetchAdd, State.setThread, Function.update_of_ne same] at now
        exact List.mem_append_left _ (known.inserting u id y now)
  | insert t =>
      simp only [SessionManager.step] at taken
      split at taken <;> cases taken
      rename_i id x pc
      have idle := known.setThread t .idle (by simp)
      refine ⟨?_, idle.inserting⟩
      intro other y present
      by_cases same : other = id
      · subst same
        simp only [State.insert, AList.lookup_insert, Option.some.injEq] at present
        rw [← present]
        exact known.inserting t _ x pc
      · simp only [State.insert, AList.lookup_insert_ne same] at present
        exact known.registered other y present
  | removeSession id =>
      cases taken
      exact known.removeSession id
  | unicast id data =>
      cases taken
      unfold State.unicast
      split <;> exact ⟨known.registered, known.inserting⟩
  | scan t now =>
      simp only [SessionManager.step] at taken
      split at taken <;> cases taken
      exact known.setThread t _ (by simp)
  | removeNext t =>
      simp only [SessionManager.step] at taken
      split at taken <;> cases taken
      · exact known.setThread t _ (by simp)
      · rename_i id seen rest pc
        have moved := (known.removeSession id).setThread t (.cleaning rest) (by simp)
        exact ⟨moved.registered, moved.inserting⟩
  | broadcast data | active x now =>
      cases taken
      exact ⟨known.registered, known.inserting⟩

end Known

end SessionManager

namespace Server

open SessionManager (Id)

variable {τ σ δ : Type*}

def Control.halted : Control → Bool
  | .ready | .closeAcceptor _ | .stopContexts _ => false
  | _ => true

def Control.stopped : Control → Bool
  | .destroySessions | .destroyAcceptor | .destroyPool | .destroyed => true
  | _ => false

structure Lifetime (cfg : Config) (s : State τ σ δ) : Prop where
  known : SessionManager.Known s.manager
  added : ∀ x, s.accepts x ≠ .idle ∨ s.reads x ≠ .idle → x ∈ s.manager.added
  handling : ∀ x, s.accepts x ≠ .idle ∨ (s.reads x).handling = true →
    s.pool.running = true ∨ ∃ destroying, s.control = .join destroying
  waiting : ∀ x, s.reads x ≠ .idle → s.pool.running = true ∨
    ∃ destroying, s.control = .join destroying ∨ s.control = .clear destroying
  halted : s.control.halted = true → s.pool.running = false
  alive : s.pool.running = true → s.pool.contexts ≠ []
  contexts : s.pool.contexts = [] ∨ s.pool.contexts = List.range cfg.poolSize
  stopped : s.control.stopped = true → s.pool.contexts = []
  placed : ∀ x ∈ s.manager.added, (s.sockets x).context < cfg.poolSize
  pending : ∀ context ∈ s.acceptor.pending, context < cfg.poolSize
  acceptor : s.control ≠ .unconstructed → s.acceptor.context < cfg.poolSize

namespace Lifetime

variable {cfg : Config} {s s' : State τ σ δ}

theorem handling_ne_idle {pc : Read δ} (handling : pc.handling = true) : pc ≠ .idle := by
  intro idle
  rw [idle] at handling
  cases handling

theorem context_of_alive (life : Lifetime cfg s) (alive : s.pool.contexts ≠ []) (context : Nat) :
    context ∈ s.pool.contexts ↔ context < cfg.poolSize := by
  rw [life.contexts.resolve_left alive, List.mem_range]

theorem start (cfg : Config) (ownId : σ → Id) (created : σ → Int) :
    Lifetime cfg (Server.start cfg τ δ ownId created) where
  known := by
    refine ⟨?_, ?_⟩
    · intro id x present
      simp [Server.start, SessionManager.start] at present
    · intro t id x pc
      cases pc
  added := by
    intro x busy
    rcases busy with busy | busy <;> exact absurd rfl busy
  handling := by
    intro x busy
    rcases busy with busy | busy
    · exact absurd rfl busy
    · cases busy
  waiting := fun x busy => absurd rfl busy
  halted := fun _ => rfl
  alive := by
    intro running
    cases running
  contexts := .inl rfl
  stopped := fun _ => rfl
  placed := by
    intro x member
    cases member
  pending := by
    intro context member
    cases member
  acceptor := fun constructed => absurd rfl constructed

variable [DecidableEq τ] [DecidableEq σ]

theorem registry {manager : SessionManager.State (τ ⊕ σ) σ δ}
    {a : SessionManager.Action (τ ⊕ σ) σ δ} (life : Lifetime cfg s)
    (other : ∀ t x, a ≠ .addSession t x)
    (moved : SessionManager.step clockTime s.manager a = some manager) :
    Lifetime cfg { s with manager := manager } := by
  have added := SessionManager.added_eq other moved
  refine { life with known := life.known.step moved, added := ?_, placed := ?_ }
  · simpa only [added] using life.added
  · simpa only [added] using life.placed

omit [DecidableEq τ] in
theorem setRead (life : Lifetime cfg s) {x : σ} {pc : Read δ}
    (handling : pc.handling = true →
      s.pool.running = true ∨ ∃ destroying, s.control = .join destroying)
    (waiting : s.pool.running = true ∨
      ∃ destroying, s.control = .join destroying ∨ s.control = .clear destroying)
    (added : x ∈ s.manager.added) : Lifetime cfg (s.setRead x pc) := by
  refine { life with added := ?_, handling := ?_, waiting := ?_ }
  · intro y busy
    by_cases same : y = x
    · rw [same]
      exact added
    · simp only [State.setRead, Function.update_of_ne same] at busy
      exact life.added y busy
  · intro y busy
    by_cases same : y = x
    · subst same
      simp only [State.setRead, Function.update_self] at busy
      rcases busy with accepting | reading
      · exact life.handling y (.inl accepting)
      · exact handling reading
    · simp only [State.setRead, Function.update_of_ne same] at busy
      exact life.handling y busy
  · intro y busy
    by_cases same : y = x
    · exact waiting
    · simp only [State.setRead, Function.update_of_ne same] at busy
      exact life.waiting y busy

omit [DecidableEq τ] in
theorem setAccept (life : Lifetime cfg s) {x : σ} (pc : Accept)
    (handling : s.pool.running = true ∨ ∃ destroying, s.control = .join destroying)
    (added : x ∈ s.manager.added) : Lifetime cfg (s.setAccept x pc) := by
  refine { life with added := ?_, handling := ?_ }
  · intro y busy
    by_cases same : y = x
    · rw [same]
      exact added
    · simp only [State.setAccept, Function.update_of_ne same] at busy
      exact life.added y busy
  · intro y busy
    by_cases same : y = x
    · exact handling
    · simp only [State.setAccept, Function.update_of_ne same] at busy
      exact life.handling y busy

omit [DecidableEq τ] in
theorem closeAll (life : Lifetime cfg s) (xs : List σ) : Lifetime cfg (s.closeAll xs) := by
  rw [State.closeAll_eq]
  refine { life with placed := ?_ }
  intro x member
  have placed := life.placed x member
  simp only
  split <;> exact placed

omit [DecidableEq τ] [DecidableEq σ] in
theorem touch (life : Lifetime cfg s) (object : Object σ) : Lifetime cfg (s.touch object) := by
  unfold State.touch
  split
  · exact life
  · exact { life with }

omit [DecidableEq τ] [DecidableEq σ] in
theorem fed (life : Lifetime cfg s) {pool : Pool} {pending : List Nat}
    (contexts : pool.contexts = s.pool.contexts) (running : pool.running = s.pool.running)
    (fed : ∀ context ∈ pending, context ∈ s.acceptor.pending ∨ context ∈ s.pool.contexts) :
    Lifetime cfg { s with pool, acceptor := { s.acceptor with pending } } := by
  refine { life with
    handling := ?_, waiting := ?_, halted := ?_, alive := ?_, contexts := ?_, stopped := ?_,
    pending := ?_ }
  · simpa only [running] using life.handling
  · simpa only [running] using life.waiting
  · simpa only [running] using life.halted
  · simpa only [running, contexts] using life.alive
  · simpa only [contexts] using life.contexts
  · simpa only [contexts] using life.stopped
  · intro context member
    rcases fed context member with old | new
    · exact life.pending context old
    · exact (life.context_of_alive (List.ne_nil_of_mem new) context).mp new

omit [DecidableEq τ] [DecidableEq σ] in
theorem advance (life : Lifetime cfg s) (control : Control)
    (before : ∀ destroying, s.control ≠ .join destroying ∧ s.control ≠ .clear destroying)
    (constructed : s.control ≠ .unconstructed)
    (halted : control.halted = true → s.pool.running = false)
    (stopped : control.stopped = true → s.pool.contexts = []) :
    Lifetime cfg { s with control := control } := by
  refine { life with
    handling := ?_, waiting := ?_, halted := halted, stopped := stopped,
    acceptor := fun _ => life.acceptor constructed }
  · intro x busy
    rcases life.handling x busy with running | ⟨destroying, pc⟩
    · exact .inl running
    · exact absurd pc (before destroying).1
  · intro x busy
    rcases life.waiting x busy with running | ⟨destroying, pc | pc⟩
    · exact .inl running
    · exact absurd pc (before destroying).1
    · exact absurd pc (before destroying).2

theorem accept (life : Lifetime cfg s) {x : σ} {peer : Endpoint} {context : Nat}
    {pending : List Nat} {manager : SessionManager.State (τ ⊕ σ) σ δ}
    (filled : s.acceptor.pending = context :: pending) (running : s.pool.running = true)
    (moved : SessionManager.step clockTime s.manager (.addSession (.inr x) x) = some manager) :
    Lifetime cfg { s.setAccept x .adding with
      acceptor := { s.acceptor with pending }
      sockets := Function.update s.sockets x { context, isOpen := true, connected := true }
      peers := Function.update s.peers x peer
      manager := manager } := by
  have added := SessionManager.added_of_addSession moved
  refine { life with
    known := life.known.step moved, added := ?_, handling := fun _ _ => .inl running,
    placed := ?_, pending := ?_ }
  · intro y busy
    rw [added]
    by_cases same : y = x
    · rw [same]
      exact List.mem_append_right _ (List.mem_singleton_self x)
    · simp only [State.setAccept, Function.update_of_ne same] at busy
      exact List.mem_append_left _ (life.added y busy)
  · intro y member
    by_cases same : y = x
    · subst same
      simp only [Function.update_self]
      exact life.pending context (by rw [filled]; exact List.mem_cons_self)
    · simp only [Function.update_of_ne same]
      simp only [added, List.mem_append, List.mem_singleton, same, or_false] at member
      exact life.placed y member
  · intro other member
    exact life.pending other (by rw [filled]; exact List.mem_cons_of_mem _ member)

omit [DecidableEq τ] [DecidableEq σ] in
/-- Between its last `join` and the next `Start` the server has no handlers. -/
theorem idle_of_halted (life : Lifetime cfg s) (halted : s.control.halted = true)
    (joined : ∀ destroying, s.control ≠ .join destroying) (x : σ) :
    s.accepts x = .idle ∧ (s.reads x).handling = false := by
  have quiet : ¬ (s.accepts x ≠ .idle ∨ (s.reads x).handling = true) := by
    intro busy
    rcases life.handling x busy with running | ⟨destroying, pc⟩
    · rw [life.halted halted] at running
      cases running
    · exact joined destroying pc
  rw [not_or, not_not, Bool.not_eq_true] at quiet
  exact quiet

theorem control (life : Lifetime cfg s) (taken : Takes cfg s .control s') :
    Lifetime cfg s' := by
  cases taken with
  | closeAcceptor destroying pc =>
      have constructed : s.control ≠ .unconstructed := by simp [pc]
      have touched := life.touch .acceptor
      have advanced := touched.advance (.stopContexts destroying)
        (by simp [State.touch_control, pc]) (by simp [State.touch_control, pc])
        (by simp [Control.halted]) (by simp [Control.stopped])
      exact { advanced with
        pending := life.pending
        acceptor := fun _ => life.acceptor constructed }
  | stopContexts destroying pc =>
      exact { life with
        handling := fun _ _ => .inr ⟨destroying, rfl⟩
        waiting := fun _ _ => .inr ⟨destroying, .inl rfl⟩
        halted := fun _ => rfl
        alive := by
          intro running
          cases running
        stopped := by
          intro stopped
          cases stopped
        acceptor := fun _ => life.acceptor (by simp [pc]) }
  | join destroying pc out =>
      refine { life with
        handling := ?_, waiting := fun _ _ => .inr ⟨destroying, .inr rfl⟩
        halted := fun _ => life.halted (by rw [pc]; rfl), stopped := ?_
        acceptor := fun _ => life.acceptor (by simp [pc]) }
      · intro x busy
        have member := life.added x (busy.imp id handling_ne_idle)
        rcases busy with accepting | reading
        · exact absurd (out x member).1 accepting
        · rw [(out x member).2] at reading
          cases reading
      · intro stopped
        cases stopped
  | clear destroying pc =>
      have halted : s.control.halted = true := by rw [pc]; rfl
      have idle := life.idle_of_halted halted (by simp [pc])
      exact { life with
        added := by
          intro x busy
          rcases busy with accepting | reading
          · exact absurd (idle x).1 accepting
          · exact absurd rfl reading
        handling := by
          intro x busy
          rcases busy with accepting | reading
          · exact absurd (idle x).1 accepting
          · cases reading
        waiting := fun x busy => absurd rfl busy
        halted := fun _ => life.halted halted
        alive := by
          intro running
          rw [life.halted halted] at running
          cases running
        contexts := .inl rfl
        stopped := fun _ => rfl
        pending := by
          intro context member
          cases member
        acceptor := fun _ => life.acceptor (by simp [pc]) }
  | destroySessions pc =>
      have closed := life.closeAll s.registered
      have advanced := closed.advance .destroyAcceptor
        (by simp [State.closeAll_eq, pc]) (by simp [State.closeAll_eq, pc])
        (fun _ => closed.halted (by rw [State.closeAll_eq, pc]; rfl))
        (fun _ => closed.stopped (by rw [State.closeAll_eq, pc]; rfl))
      rw [State.closeAll_eq] at advanced ⊢
      refine { advanced with known := ⟨?_, life.known.inserting⟩ }
      intro id x present
      simp at present
  | destroyAcceptor pc =>
      have touched := life.touch .acceptor
      exact touched.advance _ (by simp [State.touch_control, pc])
        (by simp [State.touch_control, pc])
        (fun _ => touched.halted (by rw [State.touch_control, pc]; rfl))
        (fun _ => touched.stopped (by rw [State.touch_control, pc]; rfl))
  | destroyPool pc =>
      have halted : s.pool.running = false := life.halted (by rw [pc]; rfl)
      have gone : s.pool.contexts = [] := life.stopped (by rw [pc]; rfl)
      have same : { s.pool with contexts := [] } = s.pool := by
        rw [← gone]
      rw [same]
      exact life.advance _ (by simp [pc]) (by simp [pc]) (fun _ => halted) (fun _ => gone)
  | call a b manager on callable moved => cases on

theorem step {a : Action τ σ δ} (life : Lifetime cfg s)
    (taken : Server.step cfg s a = some s') : Lifetime cfg s' := by
  cases (step_takes taken).2 with
  | construct context pool pc inside contexts running =>
      have halted : s.pool.running = false := life.halted (by rw [pc]; rfl)
      refine { life with
        handling := ?_, waiting := ?_, halted := fun _ => running.trans halted, alive := ?_
        contexts := .inr contexts, stopped := ?_, acceptor := fun _ => inside }
      · intro x busy
        rcases life.handling x busy with now | ⟨destroying, joining⟩
        · rw [halted] at now
          cases now
        · rw [pc] at joining
          cases joining
      · intro x busy
        rcases life.waiting x busy with now | ⟨destroying, joining | clearing⟩
        · rw [halted] at now
          cases now
        · rw [pc] at joining
          cases joining
        · rw [pc] at clearing
          cases clearing
      · intro now
        rw [running, halted] at now
        cases now
      · intro stopped
        cases stopped
  | start pool pending pc alive contexts running fed =>
      refine { life with
        handling := fun _ _ => .inl running, waiting := fun _ _ => .inl running, halted := ?_
        alive := fun _ => by rwa [contexts], contexts := by rw [contexts]; exact life.contexts
        stopped := ?_, pending := ?_ }
      · intro halted
        rw [pc] at halted
        cases halted
      · intro stopped
        rw [pc] at stopped
        cases stopped
      · intro context member
        rcases fed context member with old | new
        · exact life.pending context old
        · exact (life.context_of_alive alive context).mp new
  | stop pc =>
      exact life.advance _ (by simp [pc]) (by simp [pc]) (by simp [Control.halted])
        (by simp [Control.stopped])
  | destroy pc =>
      exact life.advance _ (by simp [pc]) (by simp [pc]) (by simp [Control.halted])
        (by simp [Control.stopped])
  | accept x peer context pending manager filled running fresh added =>
      exact life.accept filled running added
  | acceptFailed pool pending running contexts same fed => exact life.fed contexts same fed
  | insert x manager pc inserted =>
      have busy : s.accepts x ≠ .idle := by simp [pc]
      exact (life.registry (by simp) inserted).setAccept .starting (life.handling x (.inl busy))
        (by rw [SessionManager.added_eq (by simp) inserted]; exact life.added x (.inl busy))
  | startSession x pc =>
      have busy : s.accepts x ≠ .idle := by simp [pc]
      have moved := life.setAccept .again (life.handling x (.inl busy)) (life.added x (.inl busy))
      refine moved.setRead (by simp [Read.handling]) ?_ (life.added x (.inl busy))
      rcases life.handling x (.inl busy) with running | ⟨destroying, joining⟩
      · exact .inl running
      · exact .inr ⟨destroying, .inl joining⟩
  | acceptAgain x pool pending pc contexts same fed =>
      have busy : s.accepts x ≠ .idle := by simp [pc]
      exact (life.setAccept .idle (life.handling x (.inl busy))
        (life.added x (.inl busy))).fed contexts same fed
  | call a b manager on callable moved =>
      have other : ∀ t x, b ≠ .addSession t x := by
        intro t x same
        subst same
        cases a <;> cases on
      have closed := life.closeAll (s.closing b).toList
      rw [State.closeAll_eq] at closed ⊢
      exact closed.registry other moved
  | disconnect x =>
      refine { life with placed := ?_ }
      intro y member
      have placed := life.placed y member
      by_cases same : y = x
      · subst same
        simpa only [Function.update_self] using placed
      · simpa only [Function.update_of_ne same] using placed
  | arrive x data pc isOpen =>
      have busy : s.reads x ≠ .idle := by simp [pc]
      exact life.setRead (by simp [Read.handling]) (life.waiting x busy) (life.added x (.inr busy))
  | fail x pc =>
      have busy : s.reads x ≠ .idle := by simp [pc]
      exact life.setRead (by simp [Read.handling]) (life.waiting x busy) (life.added x (.inr busy))
  | beginRead x now data pc running =>
      have busy : s.reads x ≠ .idle := by simp [pc]
      exact life.setRead (fun _ => .inl running) (.inl running) (life.added x (.inr busy))
  | closeRead x now pc running =>
      have busy : s.reads x ≠ .idle := by simp [pc]
      have closed := life.closeAll [x]
      apply closed.setRead (by simp [Read.handling])
      · rw [State.closeAll_eq]
        exact .inl running
      · rw [State.closeAll_eq]
        exact life.added x (.inr busy)
  | getAddress x now data peer pc found =>
      have busy : s.reads x ≠ .idle := by simp [pc]
      exact life.setRead (fun _ => life.handling x (.inr (by rw [pc]; rfl))) (life.waiting x busy)
        (life.added x (.inr busy))
  | getPort x now data ip peer pc found =>
      have busy : s.reads x ≠ .idle := by simp [pc]
      exact life.setRead (fun _ => life.handling x (.inr (by rw [pc]; rfl))) (life.waiting x busy)
        (life.added x (.inr busy))
  | throw x now pc missing => exact { life with }
  | push x now data ip port pc =>
      have busy : s.reads x ≠ .idle := by simp [pc]
      have moved : Lifetime cfg (s.setRead x .finishing) :=
        life.setRead (fun _ => life.handling x (.inr (by rw [pc]; rfl))) (life.waiting x busy)
          (life.added x (.inr busy))
      exact { moved with }
  | finish x now manager pc moved =>
      have busy : s.reads x ≠ .idle := by simp [pc]
      exact (life.registry (by simp) moved).setRead (by simp [Read.handling]) (life.waiting x busy)
        (by rw [SessionManager.added_eq (by simp) moved]; exact life.added x (.inr busy))
  | _ => exact life.control (step_takes taken).2

end Lifetime

end Server

end CommonUtils.TCP
