import CommonUtils.TCP.SessionManager

/-! `CleanExpiredSession` step by step over the registry: the scan under the lock reads
the time anew for each session, the removals take the lock one by one, and completions
refresh sessions at any time. -/

namespace CommonUtils.TCP.SessionCleaning

open SessionManager (Id)

universe u v w

/-- An id to remove, with the session it meant and the time of its check. -/
structure Found (σ : Type*) where
  id : Id
  session : σ
  checked : Int

inductive Clean (σ : Type*) where
  | scanning (todo : List (Id × σ)) (found : List (Found σ))
  | removing (found : List (Found σ))

/-- The registry with the calls in progress and the holder of `sessionMutex_` and, last,
the sessions that cleaning has erased, with how long they had been idle then. -/
structure State (τ : Type u) (σ : Type v) (δ : Type w) where
  registry : SessionManager.State τ σ δ
  cleans : τ → Option (Clean σ)
  mutex : Option τ
  clock : Int
  erased : List (σ × Int)

/-- `clean t` is the next step of `CleanExpiredSession` in thread `t`, `active` a
completion that refreshes a session. -/
inductive Action (τ : Type u) (σ : Type v) (δ : Type w) where
  | addSession (t : τ) (session : σ)
  | insert (t : τ)
  | removeSession (id : Id)
  | unicast (id : Id) (data : δ)
  | broadcast (data : δ)
  | active (session : σ)
  | clean (t : τ)

variable {τ : Type u} {σ : Type v} {δ : Type w}

def start (τ : Type u) (δ : Type w) (ownId : σ → Id) (created : σ → Int) (now : Int) :
    State τ σ δ where
  registry := SessionManager.start τ δ ownId created
  cleans := fun _ => none
  mutex := none
  clock := now
  erased := []

variable [DecidableEq τ] [DecidableEq σ]

namespace State

variable (s : State τ σ δ)

def setRegistry (registry : SessionManager.State τ σ δ) : State τ σ δ := { s with registry }

def setClean (t : τ) (clean : Option (Clean σ)) : State τ σ δ :=
  { s with cleans := Function.update s.cleans t clean }

/-- A step of the registry; where it needs the lock, the lock is free. -/
def perform (clockTime : Int) (a : SessionManager.Action τ σ δ) : Option (State τ σ δ) :=
  (SessionManager.step clockTime s.registry a).map s.setRegistry

def locked (clockTime : Int) (a : SessionManager.Action τ σ δ) : Option (State τ σ δ) :=
  if s.mutex = none then s.perform clockTime a else none

def check (clockTime now : Int) (t : τ) (id : Id) (session : σ) (todo : List (Id × σ))
    (found : List (Found σ)) : State τ σ δ :=
  let expired := SessionManager.checkTimeout s.registry clockTime now session
  s.setClean t (some (.scanning todo (if expired then found ++ [⟨id, session, now⟩] else found)))

def removeNext (now : Int) (t : τ) (next : Found σ) (rest : List (Found σ)) : State τ σ δ :=
  { (s.setRegistry (s.registry.removeSession next.id)).setClean t (some (.removing rest)) with
    erased := s.erased ++ ((s.registry.sessions.lookup next.id).map fun x =>
      (x, now - s.registry.lastActiveTime x)).toList }

def clean (clockTime now : Int) (t : τ) : Option (State τ σ δ) :=
  match s.cleans t with
  | none =>
      match s.mutex, s.registry.threads t with
      | none, .idle =>
          let entries := s.registry.sessions.entries.map fun e => (e.1, e.2)
          some { s.setClean t (some (.scanning entries [])) with mutex := some t }
      | _, _ => none
  | some (.scanning ((id, session) :: todo) found) =>
      some (s.check clockTime now t id session todo found)
  | some (.scanning [] found) => some { s.setClean t (some (.removing found)) with mutex := none }
  | some (.removing (next :: rest)) =>
      if s.mutex = none then some (s.removeNext now t next rest) else none
  | some (.removing []) => some (s.setClean t none)

end State

def next (clockTime now : Int) (s : State τ σ δ) : Action τ σ δ → Option (State τ σ δ)
  | .addSession t session =>
      if (s.cleans t).isNone then s.perform clockTime (.addSession t session) else none
  | .insert t => s.locked clockTime (.insert t)
  | .removeSession id => s.locked clockTime (.removeSession id)
  | .unicast id data => s.locked clockTime (.unicast id data)
  | .broadcast data => s.locked clockTime (.broadcast data)
  | .active session => s.perform clockTime (.active session now)
  | .clean t => s.clean clockTime now t

def step (clockTime : Int) (s : State τ σ δ) (a : Int × Action τ σ δ) : Option (State τ σ δ) :=
  if s.clock ≤ a.1 then (next clockTime a.1 s a.2).map fun s' => { s' with clock := a.1 } else none

def machine (τ : Type u) (δ : Type w) [DecidableEq τ] (clockTime : Int) (ownId : σ → Id)
    (created : σ → Int) (now : Int) : Machine (State τ σ δ) (Int × Action τ σ δ) where
  start := start τ δ ownId created now
  step := step clockTime

/-- What cleaning has erased had been idle for more than `clockTime_`. -/
def IdleErased (clockTime : Int) (s : State τ σ δ) : Prop :=
  ∀ e ∈ s.erased, e.2 > clockTime

/-- The call is to remove a session that it did not check under the id, or that has been active
since its check. -/
def Clean.strikes (registry : SessionManager.State τ σ δ) : Option (Clean σ) → Prop
  | some (.removing (next :: _)) => ∃ x ∈ registry.sessions.lookup next.id,
      x ≠ next.session ∨ next.checked ≤ registry.lastActiveTime x
  | _ => False

def Strikes (s : State τ σ δ) : Int × Action τ σ δ → Prop
  | (_, .clean t) => Clean.strikes s.registry (s.cleans t)
  | _ => False

def Clean.found : Option (Clean σ) → List (Found σ)
  | none => []
  | some (.scanning _ found) => found
  | some (.removing found) => found

def Kept (clockTime clock : Int) (lastActiveTime : σ → Int) (f : Found σ) : Prop :=
  f.checked ≤ clock ∧
    (f.checked - lastActiveTime f.session > clockTime ∨ f.checked ≤ lastActiveTime f.session)

def Inv (clockTime : Int) (s : State τ σ δ) : Prop :=
  ∀ t, ∀ f ∈ Clean.found (s.cleans t), Kept clockTime s.clock s.registry.lastActiveTime f

theorem perform_effect {clockTime : Int} {s s' : State τ σ δ} {a : SessionManager.Action τ σ δ}
    (quiet : ∀ x now, a ≠ .active x now) (ran : s.perform clockTime a = some s') :
    s'.registry.lastActiveTime = s.registry.lastActiveTime ∧ s'.cleans = s.cleans ∧
      s'.erased = s.erased := by
  rcases Option.map_eq_some_iff.mp ran with ⟨registry, taken, rfl⟩
  exact ⟨SessionManager.step_lastActiveTime quiet taken, rfl, rfl⟩

theorem locked_effect {clockTime : Int} {s s' : State τ σ δ} {a : SessionManager.Action τ σ δ}
    (quiet : ∀ x now, a ≠ .active x now) (ran : s.locked clockTime a = some s') :
    s'.registry.lastActiveTime = s.registry.lastActiveTime ∧ s'.cleans = s.cleans ∧
      s'.erased = s.erased := by
  unfold State.locked at ran
  split at ran
  · exact perform_effect quiet ran
  · cases ran

theorem next_quiet {clockTime now : Int} {s s' : State τ σ δ} {a : Action τ σ δ}
    (not_active : ∀ x, a ≠ .active x) (not_clean : ∀ t, a ≠ .clean t)
    (ran : next clockTime now s a = some s') :
    s'.registry.lastActiveTime = s.registry.lastActiveTime ∧ s'.cleans = s.cleans ∧
      s'.erased = s.erased := by
  cases a with
  | addSession t x =>
      simp only [next] at ran
      split at ran
      · exact perform_effect (by simp) ran
      · cases ran
  | insert t => exact locked_effect (by simp) ran
  | removeSession id => exact locked_effect (by simp) ran
  | unicast id data => exact locked_effect (by simp) ran
  | broadcast data => exact locked_effect (by simp) ran
  | active x => exact absurd rfl (not_active x)
  | clean t => exact absurd rfl (not_clean t)

theorem next_active {clockTime now : Int} {s s' : State τ σ δ} {x : σ}
    (ran : next clockTime now s (.active x) = some s') :
    s'.registry.lastActiveTime = Function.update s.registry.lastActiveTime x now ∧
      s'.cleans = s.cleans ∧ s'.erased = s.erased := by
  simp only [next, State.perform, SessionManager.step, Option.map_some, Option.some.injEq] at ran
  subst ran
  exact ⟨rfl, rfl, rfl⟩

omit [DecidableEq σ] in
theorem clean_cases {clockTime now : Int} {s s' : State τ σ δ} {t : τ}
    (ran : s.clean clockTime now t = some s') :
    (s'.registry.lastActiveTime = s.registry.lastActiveTime ∧ s'.erased = s.erased ∧
      (∀ next rest, s.cleans t ≠ some (.removing (next :: rest))) ∧
      ∃ clean, s'.cleans = Function.update s.cleans t clean ∧
        ∀ f ∈ Clean.found clean, f ∈ Clean.found (s.cleans t) ∨
          f.checked = now ∧ now - s.registry.lastActiveTime f.session > clockTime) ∨
      ∃ next rest, s.cleans t = some (.removing (next :: rest)) ∧
        s' = s.removeNext now t next rest := by
  unfold State.clean at ran
  split at ran
  · rename_i idle
    split at ran <;> cases ran
    exact .inl ⟨rfl, rfl, by simp [idle], _, rfl, by simp [Clean.found]⟩
  · rename_i id session todo found scan
    cases ran
    refine .inl ⟨rfl, rfl, by simp [scan], _, rfl, ?_⟩
    intro f member
    rw [scan]
    simp only [Clean.found] at member ⊢
    split at member
    · rename_i expired
      rcases List.mem_append.mp member with old | new
      · exact .inl old
      · rw [List.mem_singleton.mp new]
        exact .inr ⟨rfl, of_decide_eq_true expired⟩
    · exact .inl member
  · rename_i found scan
    cases ran
    refine .inl ⟨rfl, rfl, by simp [scan], _, rfl, ?_⟩
    rw [scan]
    exact fun f member => .inl member
  · rename_i next rest removing
    split at ran <;> cases ran
    exact .inr ⟨next, rest, removing, rfl⟩
  · rename_i removing
    cases ran
    exact .inl ⟨rfl, rfl, by simp [removing], _, rfl, by simp [Clean.found]⟩

omit [DecidableEq σ] in
theorem removeNext_lastActiveTime (s : State τ σ δ) (now : Int) (t : τ) (next : Found σ)
    (rest : List (Found σ)) :
    (s.removeNext now t next rest).registry.lastActiveTime = s.registry.lastActiveTime :=
  SessionManager.removeSession_lastActiveTime _ _

omit [DecidableEq τ] [DecidableEq σ] in
theorem Kept.mono {clockTime clock now : Int} {lastActiveTime : σ → Int} {f : Found σ}
    (kept : Kept clockTime clock lastActiveTime f) (later : clock ≤ now) :
    Kept clockTime now lastActiveTime f := ⟨Int.le_trans kept.1 later, kept.2⟩

theorem Kept.active {clockTime clock now : Int} {lastActiveTime : σ → Int} {f : Found σ}
    (kept : Kept clockTime clock lastActiveTime f) (later : clock ≤ now) (x : σ) :
    Kept clockTime now (Function.update lastActiveTime x now) f := by
  refine ⟨Int.le_trans kept.1 later, ?_⟩
  by_cases same : f.session = x
  · rw [same, Function.update_self]
    exact .inr (Int.le_trans kept.1 later)
  · rw [Function.update_of_ne same]
    exact kept.2

section Steps

variable {clockTime now : Int} {s s' : State τ σ δ}

omit [DecidableEq σ] in
theorem clean_kept (inv : Inv clockTime s) (later : s.clock ≤ now) {t : τ}
    (ran : s.clean clockTime now t = some s') :
    ∀ u, ∀ f ∈ Clean.found (s'.cleans u), Kept clockTime now s'.registry.lastActiveTime f := by
  intro u f member
  rcases clean_cases ran with ⟨same, _, _, clean, cleans, found⟩ | ⟨next, rest, removing, rfl⟩
  · rw [cleans] at member
    rw [same]
    by_cases mine : u = t
    · subst mine
      rw [Function.update_self] at member
      rcases found f member with old | ⟨checked, idle⟩
      · exact (inv u f old).mono later
      · exact ⟨Int.le_of_eq checked, .inl (by rwa [checked])⟩
    · rw [Function.update_of_ne mine] at member
      exact (inv u f member).mono later
  · rw [removeNext_lastActiveTime]
    simp only [State.removeNext, State.setClean, State.setRegistry] at member
    by_cases mine : u = t
    · subst mine
      rw [Function.update_self] at member
      have old : f ∈ Clean.found (s.cleans u) := by
        rw [removing]
        exact List.mem_cons_of_mem _ member
      exact (inv u f old).mono later
    · rw [Function.update_of_ne mine] at member
      exact (inv u f member).mono later

theorem next_kept (inv : Inv clockTime s) (later : s.clock ≤ now) {a : Action τ σ δ}
    (ran : next clockTime now s a = some s') :
    ∀ t, ∀ f ∈ Clean.found (s'.cleans t), Kept clockTime now s'.registry.lastActiveTime f := by
  cases a with
  | active x =>
      have refreshed := next_active ran
      intro t f member
      rw [refreshed.2.1] at member
      rw [refreshed.1]
      exact (inv t f member).active later x
  | clean t => exact clean_kept inv later ran
  | _ =>
      have quiet := next_quiet (by simp) (by simp) ran
      intro t f member
      rw [quiet.2.1] at member
      rw [quiet.1]
      exact (inv t f member).mono later

theorem step_cases {a : Action τ σ δ} (taken : step clockTime s (now, a) = some s') :
    s.clock ≤ now ∧ ∃ moved, next clockTime now s a = some moved ∧
      s' = { moved with clock := now } := by
  unfold step at taken
  split at taken
  · rcases Option.map_eq_some_iff.mp taken with ⟨moved, ran, rfl⟩
    exact ⟨‹_›, moved, ran, rfl⟩
  · cases taken

theorem Inv.step (inv : Inv clockTime s) {a : Int × Action τ σ δ}
    (taken : step clockTime s a = some s') : Inv clockTime s' := by
  rcases step_cases taken with ⟨later, moved, ran, rfl⟩
  have kept := next_kept inv later ran
  exact kept

omit [DecidableEq σ] in
/-- A removal that does not strike is of a session that has been idle since its check. -/
theorem removeNext_idle (inv : Inv clockTime s) (later : s.clock ≤ now)
    (idle : IdleErased clockTime s) {t : τ} {next : Found σ} {rest : List (Found σ)}
    (removing : s.cleans t = some (.removing (next :: rest)))
    (calm : ∀ x ∈ s.registry.sessions.lookup next.id,
      x = next.session ∧ s.registry.lastActiveTime x < next.checked) :
    IdleErased clockTime (s.removeNext now t next rest) := by
  intro e member
  rcases List.mem_append.mp member with old | new
  · exact idle e old
  · cases found : s.registry.sessions.lookup next.id with
    | none =>
        rw [found] at new
        cases new
    | some x =>
        rw [found] at new
        rcases calm x found with ⟨same, quiet⟩
        rcases inv t next (by simp [removing, Clean.found]) with ⟨before, since⟩
        simp only [Option.map_some, Option.toList_some, List.mem_singleton] at new
        rw [new]
        rw [same] at quiet ⊢
        show now - _ > clockTime
        omega

theorem idle_step {a : Int × Action τ σ δ} (inv : Inv clockTime s)
    (idle : IdleErased clockTime s) (calm : ¬ Strikes s a)
    (taken : step clockTime s a = some s') : IdleErased clockTime s' := by
  rcases a with ⟨now, a⟩
  rcases step_cases taken with ⟨later, moved, ran, rfl⟩
  cases a with
  | active x => exact fun e member => idle e ((next_active ran).2.2 ▸ member)
  | clean t =>
      rcases clean_cases ran with ⟨_, erased, _⟩ | ⟨next, rest, removing, rfl⟩
      · exact fun e member => idle e (erased ▸ member)
      · apply removeNext_idle inv later idle removing
        intro x found
        rw [Strikes, removing] at calm
        by_contra active
        apply calm
        refine ⟨x, found, ?_⟩
        rw [not_and_or, Int.not_lt] at active
        exact active
  | _ =>
      have quiet := next_quiet (by simp) (by simp) ran
      exact fun e member => idle e (quiet.2.2 ▸ member)

end Steps

/-- Cleaning erases only idle sessions in every run in which no removal strikes a session that
has been active since its check or was not the one checked. -/
theorem idle_of_never_strikes (clockTime : Int) (ownId : σ → Id) (created : σ → Int) (now : Int)
    (s : State τ σ δ) (reached : (machine τ δ clockTime ownId created now).ReachUnder
      (fun s a => ¬ Strikes s a) s) : IdleErased clockTime s := by
  have both : Inv clockTime s ∧ IdleErased clockTime s := by
    apply reached.invariant (I := fun s => Inv clockTime s ∧ IdleErased clockTime s)
    · constructor
      · intro t f member
        cases member
      · intro e member
        cases member
    · rintro s a s' ⟨inv, idle⟩ calm taken
      exact ⟨inv.step taken, idle_step inv idle calm taken⟩
  exact both.2

instance (registry : SessionManager.State τ σ δ) :
    (clean : Option (Clean σ)) → Decidable (Clean.strikes registry clean)
  | some (.removing (next :: _)) => inferInstanceAs (Decidable
      (∃ x ∈ registry.sessions.lookup next.id,
        x ≠ next.session ∨ next.checked ≤ registry.lastActiveTime x))
  | some (.removing []) | some (.scanning _ _) | none => isFalse id

instance (s : State τ σ δ) : (a : Int × Action τ σ δ) → Decidable (Strikes s a)
  | (_, .clean t) => inferInstanceAs (Decidable (Clean.strikes s.registry (s.cleans t)))
  | (_, .addSession _ _) | (_, .insert _) | (_, .removeSession _) | (_, .unicast _ _)
  | (_, .broadcast _) | (_, .active _) => isFalse id

def idleRun : List (Int × Action Unit Unit Unit) :=
  [(0, .addSession () ()), (0, .insert ()), (40, .clean ()), (40, .clean ()), (41, .clean ()),
    (46, .clean ())]

theorem idle_of_never_strikes_idle : ∃ s : State Unit Unit Unit,
    s.registry.closed = [()] ∧ s.erased = [((), 46)] ∧ IdleErased 30 s :=
  ⟨_, rfl, rfl, idle_of_never_strikes 30 (fun _ => 0) (fun _ => 0) 0 _
    (Machine.reachFrom_of_runGuarded idleRun .origin rfl)⟩

/-- One session, found idle for 40 at 40, active at 45, removed at 46. -/
def struckRun : List (Int × Action Unit Unit Unit) :=
  [(0, .addSession () ()), (0, .insert ()), (40, .clean ()), (40, .clean ()), (41, .clean ()),
    (45, .active ()), (46, .clean ())]

/-- With a `clockTime_` of 30 the session is erased while it has been idle for 1. -/
theorem struck : ∃ s, (machine Unit Unit 30 (fun _ => 0) (fun _ => 0) 0).run struckRun = some s ∧
    s.registry.closed = [()] ∧ s.erased = [((), 1)] ∧ ¬ IdleErased 30 s := by
  refine ⟨_, rfl, rfl, rfl, fun idle => ?_⟩
  exact absurd (idle ((), 1) (List.mem_singleton_self _)) (by decide)

end CommonUtils.TCP.SessionCleaning
