import CommonUtils.TCP.Server.Lifetime

/-! The order of the teardown. `IOContextPool::Stop` destroys the contexts, and the
acceptor and the registered sessions outlive it. -/

namespace CommonUtils.TCP.Server

open SessionManager (Id)

variable {τ σ δ : Type*}

def State.lostBy (s : State τ σ δ) : Action τ σ δ → List (Object σ)
  | .control =>
      match s.control with
      | .closeAcceptor _ | .destroyAcceptor =>
          if s.acceptor.context ∈ s.pool.contexts then [] else [.acceptor]
      | .destroySessions => s.lost s.registered
      | _ => []
  | .closeSession id => s.lost (s.closing (.removeSession id)).toList
  | .removeNext t => s.lost (s.closing (.removeNext (.inl t))).toList
  | .asyncRead x _ =>
      match s.reads x with
      | .failed => if s.pool.running = true then s.lost [x] else []
      | _ => []
  | _ => []

def State.operates (s : State τ σ δ) : Prop :=
  match s.control with
  | .closeAcceptor _ | .destroyAcceptor => True
  | .destroySessions => s.registered ≠ []
  | _ => False

/-- The contexts are gone, and the server is stopped again, closes a registered session or
destroys its members. -/
def Dangles (s : State τ σ δ) : Action τ σ δ → Prop
  | .control => s.pool.contexts = [] ∧ s.operates
  | .closeSession id => s.pool.contexts = [] ∧ s.closing (.removeSession id) ≠ none
  | .removeNext t => s.pool.contexts = [] ∧ s.closing (.removeNext (.inl t)) ≠ none
  | _ => False

theorem mem_added_of_closing {s : State τ σ δ} (known : SessionManager.Known s.manager)
    {a : SessionManager.Action (τ ⊕ σ) σ δ} {x : σ} (closing : s.closing a = some x) :
    x ∈ s.manager.added := by
  cases a with
  | removeSession id => exact known.registered id x closing
  | removeNext t =>
      simp only [State.closing] at closing
      split at closing
      · exact known.registered _ x closing
      · cases closing
  | _ => cases closing

theorem mem_added_of_registered {s : State τ σ δ} (known : SessionManager.Known s.manager)
    {x : σ} (registered : x ∈ s.registered) : x ∈ s.manager.added := by
  rcases (SessionManager.mem_targets s.manager x).mp registered with ⟨id, found⟩
  exact known.registered id x found

namespace Lifetime

variable {cfg : Config} {s : State τ σ δ}

/-- Sessions are lost with all the contexts or not at all. -/
theorem lost_eq_nil (life : Lifetime cfg s) {xs : List σ}
    (added : ∀ x ∈ xs, x ∈ s.manager.added) :
    s.lost xs = [] ↔ ¬ (s.pool.contexts = [] ∧ xs ≠ []) := by
  by_cases gone : s.pool.contexts = []
  · simp [State.lost, gone]
  · refine iff_of_true ?_ fun lost => gone lost.1
    simp only [State.lost, List.map_eq_nil_iff, List.filter_eq_nil_iff, decide_eq_true_eq, not_not]
    intro x member
    exact (life.context_of_alive gone _).mpr (life.placed x (added x member))

theorem lost_closing_eq_nil (life : Lifetime cfg s) (a : SessionManager.Action (τ ⊕ σ) σ δ) :
    s.lost (s.closing a).toList = [] ↔ ¬ (s.pool.contexts = [] ∧ s.closing a ≠ none) := by
  rw [life.lost_eq_nil]
  · simp
  · exact fun x member => mem_added_of_closing life.known (Option.mem_toList.mp member)

theorem lostBy_eq_nil (life : Lifetime cfg s) (a : Action τ σ δ) :
    s.lostBy a = [] ↔ ¬ Dangles s a := by
  cases a with
  | control =>
      simp only [State.lostBy, Dangles, State.operates]
      cases pc : s.control with
      | closeAcceptor destroying | destroyAcceptor =>
          have constructed : s.control ≠ .unconstructed := by simp [pc]
          by_cases gone : s.pool.contexts = []
          · simp [gone]
          · have inside := (life.context_of_alive gone _).mpr (life.acceptor constructed)
            simp [gone, inside]
      | destroySessions =>
          exact life.lost_eq_nil fun x member => mem_added_of_registered life.known member
      | _ => simp
  | closeSession id => exact life.lost_closing_eq_nil _
  | removeNext t => exact life.lost_closing_eq_nil _
  | asyncRead x now =>
      refine iff_of_true ?_ id
      simp only [State.lostBy]
      split
      · rename_i failed
        split
        · rename_i running
          apply (life.lost_eq_nil _).mpr
          · exact fun lost => life.alive running lost.1
          · intro y member
            rw [List.mem_singleton.mp member]
            exact life.added x (.inr (by simp [failed]))
        · rfl
      · rfl
  | _ => exact iff_of_true rfl id

end Lifetime

theorem dangling_touch (s : State τ σ δ) :
    (s.touch .acceptor).dangling =
      s.dangling ++ if s.acceptor.context ∈ s.pool.contexts then [] else [.acceptor] := by
  unfold State.touch
  by_cases alive : s.acceptor.context ∈ s.pool.contexts
  · rw [if_pos (show s.contextOf .acceptor ∈ s.pool.contexts from alive), if_pos alive,
      List.append_nil]
  · rw [if_neg (show s.contextOf .acceptor ∉ s.pool.contexts from alive), if_neg alive]

variable [DecidableEq τ] [DecidableEq σ]

theorem dangling_of_step {cfg : Config} {s s' : State τ σ δ} {a : Action τ σ δ}
    (taken : step cfg s a = some s') : s'.dangling = s.dangling ++ s.lostBy a := by
  cases (step_takes taken).2 with
  | closeAcceptor destroying pc | destroyAcceptor pc =>
      simp only [State.lostBy, pc]
      exact dangling_touch s
  | stopContexts destroying pc | join destroying pc out | clear destroying pc | destroyPool pc =>
      simp [State.lostBy, pc]
  | destroySessions pc =>
      simp only [State.lostBy, pc]
      rw [State.closeAll_eq]
  | call a b manager on callable moved =>
      rw [State.closeAll_eq]
      cases a with
      | closeSession id | removeNext t =>
          cases on
          rfl
      | scan t now =>
          cases on
          simp [State.lostBy, State.closing, State.lost]
      | _ => cases on
  | closeRead x now pc running =>
      simp only [State.lostBy, pc, running, if_true]
      rw [State.close_eq]
      rfl
  | beginRead x now data pc running | getAddress x now data peer pc found
  | getPort x now data ip peer pc found | push x now data ip port pc
  | finish x now manager pc moved =>
      simp [State.lostBy, pc, State.setRead]
  | throw x now pc missing =>
      rcases pc with ⟨data, pc⟩ | ⟨data, ip, pc⟩ <;> simp [State.lostBy, pc]
  | _ => exact (List.append_nil _).symm

/-- The destructor does not get past the acceptor without operating on it. -/
def Torn (s : State τ σ δ) : Prop :=
  s.control = .destroyPool ∨ s.control = .destroyed → s.dangling ≠ []

theorem Torn.step {cfg : Config} {s s' : State τ σ δ} {a : Action τ σ δ} (torn : Torn s)
    (life : Lifetime cfg s) (taken : Server.step cfg s a = some s') : Torn s' := by
  intro late
  rw [dangling_of_step taken]
  by_cases before : s.control = .destroyPool ∨ s.control = .destroyed
  · simp [torn before]
  suffices dangles : Dangles s a by
    intro empty
    exact (life.lostBy_eq_nil a).mp (List.append_eq_nil_iff.mp empty).2 dangles
  cases (step_takes taken).2 with
  | destroyAcceptor pc => exact ⟨life.stopped (by rw [pc]; rfl), by simp [State.operates, pc]⟩
  | destroyPool pc => exact absurd (.inl pc) before
  | clear destroying pc => cases destroying <;> simp at late
  | construct | stop | destroy | closeAcceptor | stopContexts | join | destroySessions =>
      simp at late
  | closeRead x now pc running =>
      rw [State.close_eq] at late
      exact absurd late before
  | call b c manager on callable moved =>
      rw [State.closeAll_eq] at late
      exact absurd late before
  | _ => exact absurd late before

theorem torn_of_run {cfg : Config} {ownId : σ → Id} {created : σ → Int} {s : State τ σ δ}
    {as : List (Action τ σ δ)}
    (ran : (machine cfg τ δ ownId created).run as = some s) : Torn s := by
  have reached : Lifetime cfg s ∧ Torn s := by
    apply (Machine.reachable_of_run as ran).invariant (I := fun s => Lifetime cfg s ∧ Torn s)
    · refine ⟨.start cfg ownId created, fun late => ?_⟩
      rcases late with late | late <;> cases late
    · intro s a s' inv _ taken
      exact ⟨inv.1.step taken, inv.2.step inv.1 taken⟩
  exact reached.2

/-- A run operates on no acceptor or session whose context is gone exactly if, with the
contexts gone, it does not stop the server again, close a registered session or destroy
the server; no run to the end of the destructor is of that kind. -/
theorem never_dangling_iff_never_dangles (cfg : Config) (ownId : σ → Id) (created : σ → Int)
    (as : List (Action τ σ δ)) :
    ((machine cfg τ δ ownId created).AllStates (fun s => s.dangling = [])
        (start cfg τ δ ownId created) as ↔
      (machine cfg τ δ ownId created).AllSteps (fun s a => ¬ Dangles s a)
        (start cfg τ δ ownId created) as) ∧
    ∀ s, (machine cfg τ δ ownId created).run as = some s → s.control = .destroyed →
      s.dangling ≠ [] := by
  constructor
  · apply Machine.allStates_iff_allSteps (I := Lifetime cfg) (A := fun _ _ => True)
    · exact fun s a s' life _ taken => life.step taken
    · intro s a s' life _ good taken
      rw [dangling_of_step taken, good, List.nil_append]
      exact life.lostBy_eq_nil a
    · exact .start cfg ownId created
    · rfl
    · exact Machine.allSteps_true _ _
  · exact fun s ran destroyed => torn_of_run ran (.inr destroyed)

def teardownRun : List (Action Unit Bool Nat) :=
  [.construct, .start, .accept false client, .handleNewSession false, .handleNewSession false,
    .handleNewSession false, .destroy, .control, .control, .control, .control, .control, .control,
    .control]

def NeverDangling (τ σ δ : Type*) [DecidableEq τ] [DecidableEq σ] : Prop :=
  ∀ (cfg : Config) (ownId : σ → Id) (created : σ → Int) (s : State τ σ δ),
    (machine cfg τ δ ownId created).Reachable s → s.dangling = []

theorem dangling_after_stop : ¬ NeverDangling Unit Bool Nat := by
  intro never
  have kept := never single (fun _ => 0) (fun _ => 0) _
    (Machine.reachable_of_run teardownRun rfl)
  cases kept

end CommonUtils.TCP.Server
