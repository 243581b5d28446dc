import CommonUtils.TCP.SessionManager

namespace CommonUtils.TCP.SessionManager

variable {τ σ δ : Type*}

def Present (x : σ) (id : Id) (s : State τ σ δ) (_ : Action τ σ δ) : Prop :=
  s.sessions.lookup id = some x

def Absent (x : σ) (s : State τ σ δ) (_ : Action τ σ δ) : Prop :=
  ∀ id, s.sessions.lookup id ≠ some x

def Action.sent (id : Id) : Action τ σ δ → Option δ
  | .broadcast data => some data
  | .unicast other data => if other = id then some data else none
  | _ => none

/-- `x` is registered for the stretch `during` of the run, under one id and at no other
time, and the stretch is what it has heard. -/
structure Hears (M : Machine (State τ σ δ) (Action τ σ δ)) (x : σ) (id : Id)
    (before during after : List (Action τ σ δ)) (heard : List δ) : Prop where
  absent : M.AllTried (Absent x) M.start before
  present : ∀ s, M.run before = some s → M.AllTried (Present x id) s during
  gone : ∀ s, M.run (before ++ during) = some s → M.AllTried (Absent x) s after
  heard : heard = during.filterMap (Action.sent id)

section Steps

variable [DecidableEq τ] [DecidableEq σ] {clockTime : Int} {s s' : State τ σ δ}
  {a : Action τ σ δ}

omit [DecidableEq τ] [DecidableEq σ] in
theorem removeSession_enqueued (s : State τ σ δ) (id : Id) :
    (s.removeSession id).enqueued = s.enqueued := by
  unfold State.removeSession
  split <;> rfl

omit [DecidableEq τ] [DecidableEq σ] in
theorem removeSession_assigned (s : State τ σ δ) (id : Id) :
    (s.removeSession id).assigned = s.assigned := by
  unfold State.removeSession
  split <;> rfl

omit [DecidableEq τ] [DecidableEq σ] in
theorem registered_of_removeSession {gone id : Id} {x : σ}
    (present : (s.removeSession gone).sessions.lookup id = some x) :
    s.sessions.lookup id = some x := by
  rw [lookup_removeSession] at present
  split at present
  · cases present
  · exact present

omit [DecidableEq τ] in
theorem Inv.unicast_heard (inv : Inv s) (id : Id) (data : δ) {x : σ} :
    (∀ own, s.sessions.lookup own = some x → (s.unicast id data).enqueued x =
        s.enqueued x ++ ((Action.unicast id data : Action τ σ δ).sent own).toList) ∧
      ((∀ own, s.sessions.lookup own ≠ some x) →
        (s.unicast id data).enqueued x = s.enqueued x) := by
  have other {y : σ} (found : s.sessions.lookup id = some y) (different : x ≠ y) :
      (s.unicast id data).enqueued x = s.enqueued x := by
    simp only [State.unicast, found, sentData, Function.update_of_ne different]
  constructor
  · intro own registered
    by_cases same : id = own
    · subst same
      simp [State.unicast, registered, sentData, Action.sent]
    · simp only [Action.sent, if_neg same, Option.toList_none, List.append_nil]
      cases found : s.sessions.lookup id with
      | none => simp only [State.unicast, found]
      | some y =>
          apply other found
          rintro rfl
          apply same
          rw [← (inv.registered id x found).2, (inv.registered own x registered).2]
  · intro unregistered
    cases found : s.sessions.lookup id with
    | none => simp only [State.unicast, found]
    | some y =>
        apply other found
        rintro rfl
        exact unregistered id found

theorem Inv.heard_of_step (inv : Inv s) (taken : SessionManager.step clockTime s a = some s')
    (x : σ) :
    (∀ id, s.sessions.lookup id = some x →
        s'.enqueued x = s.enqueued x ++ (a.sent id).toList) ∧
      ((∀ id, s.sessions.lookup id ≠ some x) → s'.enqueued x = s.enqueued x) := by
  have quiet (same : s'.enqueued = s.enqueued) (silent : ∀ id, a.sent id = none) :
      (∀ id, s.sessions.lookup id = some x →
          s'.enqueued x = s.enqueued x ++ (a.sent id).toList) ∧
        ((∀ id, s.sessions.lookup id ≠ some x) → s'.enqueued x = s.enqueued x) := by
    rw [same]
    refine ⟨fun id _ => ?_, fun _ => rfl⟩
    rw [silent, Option.toList_none, List.append_nil]
  cases a with
  | addSession t y | insert t | scan t now =>
      simp only [SessionManager.step] at taken
      split at taken <;> cases taken
      exact quiet rfl fun _ => rfl
  | removeSession id =>
      cases taken
      exact quiet (removeSession_enqueued s id) fun _ => rfl
  | unicast id data =>
      cases taken
      exact inv.unicast_heard id data
  | broadcast data =>
      cases taken
      have sent := inv.broadcast_enqueued data x
      exact ⟨fun id present => sent.1 ⟨id, present⟩, sent.2⟩
  | removeNext t =>
      simp only [SessionManager.step] at taken
      split at taken <;> cases taken
      · exact quiet rfl fun _ => rfl
      · exact quiet (removeSession_enqueued s _) fun _ => rfl
  | active y now =>
      cases taken
      exact quiet rfl fun _ => rfl

theorem Inv.registered_of_step (inv : Inv s)
    (taken : SessionManager.step clockTime s a = some s') :
    (∀ id x, s'.sessions.lookup id = some x →
        s.sessions.lookup id = some x ∨ (id, x) ∈ s'.assigned ∧ (id, x) ∉ s.assigned) ∧
      (∀ id x, (id, x) ∈ s'.assigned →
        (id, x) ∈ s.assigned ∨ s'.sessions.lookup id = some x) ∧
      s.assigned ⊆ s'.assigned := by
  have kept (sessions : ∀ id x, s'.sessions.lookup id = some x → s.sessions.lookup id = some x)
      (assigned : s'.assigned = s.assigned) :
      (∀ id x, s'.sessions.lookup id = some x →
          s.sessions.lookup id = some x ∨ (id, x) ∈ s'.assigned ∧ (id, x) ∉ s.assigned) ∧
        (∀ id x, (id, x) ∈ s'.assigned →
          (id, x) ∈ s.assigned ∨ s'.sessions.lookup id = some x) ∧
        s.assigned ⊆ s'.assigned := by
    rw [assigned]
    exact ⟨fun id x present => .inl (sessions id x present), fun _ _ => .inl, List.Subset.refl _⟩
  cases a with
  | insert t =>
      simp only [SessionManager.step] at taken
      split at taken <;> cases taken
      rename_i id x pc
      have fresh := (inv.inserting t id x pc).2
      refine ⟨?_, ?_, List.subset_append_left _ _⟩
      · intro other y present
        by_cases same : other = id
        · subst same
          simp only [State.insert, AList.lookup_insert, Option.some.injEq] at present
          subst present
          exact .inr ⟨List.mem_append_right _ (List.mem_singleton_self _), fresh⟩
        · simp only [State.insert, AList.lookup_insert_ne same] at present
          exact .inl present
      · intro other y member
        rcases List.mem_append.mp member with old | new
        · exact .inl old
        · cases List.mem_singleton.mp new
          right
          simp only [State.insert, AList.lookup_insert]
  | addSession t y | scan t now =>
      simp only [SessionManager.step] at taken
      split at taken <;> cases taken
      exact kept (fun _ _ => id) rfl
  | removeSession id =>
      cases taken
      exact kept (fun _ _ => registered_of_removeSession) (removeSession_assigned s id)
  | unicast id data =>
      cases taken
      unfold State.unicast
      split <;> exact ⟨fun _ _ => .inl, fun _ _ => .inl, List.Subset.refl _⟩
  | removeNext t =>
      simp only [SessionManager.step] at taken
      split at taken <;> cases taken
      · exact kept (fun _ _ => id) rfl
      · exact kept (fun _ _ => registered_of_removeSession) (removeSession_assigned s _)
  | broadcast data | active y now =>
      cases taken
      exact kept (fun _ _ => id) rfl

theorem Inv.registered_before (inv : Inv s) (inv' : Inv s')
    (taken : SessionManager.step clockTime s a = some s') {id other : Id} {x : σ}
    (assigned : (id, x) ∈ s.assigned) (present : s'.sessions.lookup other = some x) :
    other = id ∧ s.sessions.lookup id = some x := by
  have moved := inv.registered_of_step taken
  have same : other = id := inv'.id_unique
    (inv'.issued other x (inv'.registered other x present).1)
    (inv'.issued id x (moved.2.2 assigned))
  subst same
  exact ⟨rfl, (moved.1 other x present).resolve_right fun new => new.2 assigned⟩

end Steps

inductive Stage (M : Machine (State τ σ δ) (Action τ σ δ)) (x : σ)
    (as : List (Action τ σ δ)) (s : State τ σ δ) : Prop
  | waiting (hears : ∀ id, Hears M x id as [] [] (s.enqueued x))
      (unassigned : ∀ id, (id, x) ∉ s.assigned)
  | listening (id : Id) (before during : List (Action τ σ δ)) (split : as = before ++ during)
      (hears : Hears M x id before during [] (s.enqueued x))
      (registered : s.sessions.lookup id = some x)
  | removed (id : Id) (before during after : List (Action τ σ δ))
      (split : as = before ++ during ++ after)
      (hears : Hears M x id before during after (s.enqueued x))
      (assigned : (id, x) ∈ s.assigned) (unregistered : ∀ id, s.sessions.lookup id ≠ some x)

section Run

variable [DecidableEq τ] [DecidableEq σ] {clockTime : Int} {ownId : σ → Id} {created : σ → Int}
  {s s' : State τ σ δ} {as : List (Action τ σ δ)} {a : Action τ σ δ} {x : σ}

theorem Hears.never (absent : (machine τ δ clockTime ownId created).AllTried (Absent x)
    (SessionManager.start τ δ ownId created) as) (id : Id) :
    Hears (machine τ δ clockTime ownId created) x id as [] [] [] :=
  ⟨absent, fun _ _ => trivial, fun _ _ => trivial, rfl⟩

theorem Stage.step (inv : Inv s) (inv' : Inv s')
    (ran : (machine τ δ clockTime ownId created).run as = some s)
    (taken : SessionManager.step clockTime s a = some s')
    (stage : Stage (machine τ δ clockTime ownId created) x as s) :
    Stage (machine τ δ clockTime ownId created) x (as ++ [a]) s' := by
  have heard := inv.heard_of_step taken x
  have moved := inv.registered_of_step taken
  cases stage with
  | waiting hears unassigned =>
      have absent : Absent x s a := fun id present =>
        unassigned id (inv.registered id x present).1
      have before := Machine.allTried_concat (hears 0).absent ran absent
      have silent : s'.enqueued x = [] := (heard.2 absent).trans (hears 0).heard
      -- only the insert of `x` begins its stretch, with nothing sent yet
      by_cases inserted : ∃ id, (id, x) ∈ s'.assigned
      · rcases inserted with ⟨id, assigned⟩
        have registered := (moved.2.1 id x assigned).resolve_left (unassigned id)
        refine .listening id (as ++ [a]) [] (List.append_nil _).symm ?_ registered
        rw [silent]
        exact .never before id
      · refine .waiting ?_ fun id assigned => inserted ⟨id, assigned⟩
        rw [silent]
        exact .never before
  | listening id before during split hears registered =>
      have own := (inv.registered id x registered).1
      have longer : Hears (machine τ δ clockTime ownId created) x id before (during ++ [a]) []
          (s'.enqueued x) := by
        refine ⟨hears.absent, ?_, fun _ _ => trivial, ?_⟩
        · intro origin first
          apply Machine.allTried_concat (hears.present origin first) _ registered
          rw [split, Machine.run, Machine.runFrom_append, ← Machine.run, first] at ran
          exact ran
        · rw [heard.1 id registered, hears.heard, List.filterMap_append]
          cases sent : a.sent id <;> simp [sent]
      have split' : as ++ [a] = before ++ (during ++ [a]) := by
        rw [split, List.append_assoc]
      -- the step may end the stretch, and what it sends is still of it
      by_cases kept : s'.sessions.lookup id = some x
      · exact .listening id before (during ++ [a]) split' longer kept
      · refine .removed id before (during ++ [a]) [] (by rw [split', List.append_nil]) longer
          (moved.2.2 own) ?_
        intro other present
        rcases inv.registered_before inv' taken own present with ⟨same, -⟩
        subst same
        exact kept present
  | removed id before during after split hears assigned unregistered =>
      refine .removed id before during (after ++ [a]) (by rw [split, List.append_assoc])
        ⟨hears.absent, hears.present, ?_, ?_⟩ (moved.2.2 assigned) ?_
      · intro closed left
        apply Machine.allTried_concat (hears.gone closed left) _ unregistered
        rw [split, Machine.run, Machine.runFrom_append, ← Machine.run, left] at ran
        exact ran
      · rw [heard.2 unregistered]
        exact hears.heard
      · intro other present
        rcases inv.registered_before inv' taken assigned present with ⟨-, before⟩
        exact unregistered id before

/-- In any run each session is given exactly what the calls of one unbroken stretch addressed to
it, in the order of the calls: the stretch in which it is registered. -/
theorem hears_one_stretch (clockTime : Int) (ownId : σ → Id) (created : σ → Int)
    (callers : (machine τ δ clockTime ownId created).AllSteps AddedOnce
      (SessionManager.start τ δ ownId created) as)
    (ran : (machine τ δ clockTime ownId created).run as = some s) (x : σ) :
    ∃ id before during after, as = before ++ during ++ after ∧
      Hears (machine τ δ clockTime ownId created) x id before during after (s.enqueued x) := by
  have stage : Inv s ∧ Stage (machine τ δ clockTime ownId created) x as s := by
    apply Machine.history_under (H := fun as s => Inv s ∧ Stage _ x as s) _ _ callers ran
    · refine ⟨.start ownId created, .waiting (.never trivial) ?_⟩
      intro id assigned
      cases assigned
    · rintro as s a s' ran ⟨inv, stage⟩ allowed taken
      have inv' := inv.step allowed taken
      exact ⟨inv', stage.step inv inv' ran taken⟩
  cases stage.2 with
  | waiting hears => exact ⟨0, as, [], [], by simp, hears 0⟩
  | listening id before during split hears =>
      exact ⟨id, before, during, [], by rw [split, List.append_nil], hears⟩
  | removed id before during after split hears => exact ⟨id, before, during, after, split, hears⟩

/-- The session that expires in `staleRun` hears one broadcast, the other a unicast too. -/
theorem hears_one_stretch_stale :
    ∃ s : State Bool Bool Nat, s.enqueued true = [7, 8] ∧ s.enqueued false = [7] ∧
      ∀ x, ∃ id before during after, staleRun = before ++ during ++ after ∧
        Hears (machine Bool Nat 30 (fun _ => 0) fun _ => 0) x id before during after
          (s.enqueued x) :=
  ⟨_, rfl, rfl, hears_one_stretch 30 _ _ (Machine.allSteps_of_runGuarded staleRun rfl) rfl⟩

end Run

end CommonUtils.TCP.SessionManager
