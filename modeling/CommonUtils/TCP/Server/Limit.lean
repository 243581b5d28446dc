import CommonUtils.TCP.Server.Model

namespace CommonUtils.TCP

namespace SessionManager

variable {τ σ δ : Type*} [DecidableEq σ]

def State.count (s : State τ σ δ) : Nat := s.sessions.keys.length

omit [DecidableEq σ] in
theorem count_removeSession_le (s : State τ σ δ) (id : Id) :
    (s.removeSession id).count ≤ s.count := by
  unfold State.removeSession
  split
  · exact le_refl _
  · simp only [State.count, AList.keys_erase]
    exact List.length_erase_le

variable [DecidableEq τ]

theorem count_insert (s : State τ σ δ) (t : τ) (id : Id) (x : σ) :
    (s.insert t id x).count = s.count + if (s.sessions.lookup id).isSome then 0 else 1 := by
  simp only [State.count, State.insert, State.setThread, AList.keys_insert, List.length_cons]
  by_cases present : (s.sessions.lookup id).isSome = true
  · have member : id ∈ s.sessions.keys := AList.mem_keys.mp (AList.lookup_isSome.mp present)
    have positive := List.length_pos_of_mem member
    rw [if_pos present, List.length_erase_of_mem member]
    omega
  · have absent : id ∉ s.sessions.keys := fun member =>
      present (AList.lookup_isSome.mpr (AList.mem_keys.mpr member))
    rw [if_neg present, List.erase_of_not_mem absent]

theorem count_le_of_step {clockTime : Int} {s s' : State τ σ δ} {a : Action τ σ δ}
    (other : ∀ t, a ≠ .insert t) (taken : step clockTime s a = some s') : s'.count ≤ s.count := by
  cases a with
  | insert t => exact absurd rfl (other t)
  | removeSession id =>
      cases taken
      exact count_removeSession_le s id
  | unicast id data =>
      cases taken
      unfold State.unicast
      split <;> exact le_refl _
  | removeNext t =>
      simp only [step] at taken
      split at taken <;> cases taken
      · exact le_refl _
      · exact count_removeSession_le s _
  | addSession t x | scan t now =>
      simp only [step] at taken
      split at taken <;> cases taken
      exact le_refl _
  | broadcast data | active x now =>
      cases taken
      exact le_refl _

end SessionManager

namespace Server

open SessionManager (Id)

variable {τ σ δ : Type*}

def Limited (cfg : Config) (s : State τ σ δ) : Prop := s.manager.count ≤ cfg.maxSessionCount

/-- An accepted session is given a new entry while the registry is full. -/
def Overfills (cfg : Config) (s : State τ σ δ) : Action τ σ δ → Prop
  | .handleNewSession x => s.accepts x = .adding ∧ cfg.maxSessionCount ≤ s.manager.count ∧
      ∃ id y, s.manager.threads (.inr x) = .inserting id y ∧ s.manager.sessions.lookup id = none
  | _ => False

variable [DecidableEq τ] [DecidableEq σ]

/-- An accept handler with an unused id makes the registry grow, and nothing else does. -/
theorem limited_iff_not_overfills {cfg : Config} {s s' : State τ σ δ} {a : Action τ σ δ}
    (good : Limited cfg s) (taken : step cfg s a = some s') :
    Limited cfg s' ↔ ¬ Overfills cfg s a := by
  have shrinks (smaller : s'.manager.count ≤ s.manager.count) (not : ¬ Overfills cfg s a) :
      Limited cfg s' ↔ ¬ Overfills cfg s a := by
    refine iff_of_true ?_ not
    simp only [Limited] at good ⊢
    omega
  have unfilled (x : σ) (pc : s.accepts x ≠ .adding) : ¬ Overfills cfg s (.handleNewSession x) :=
    fun overfills => pc overfills.1
  cases (step_takes taken).2 with
  | insert x manager pc inserted =>
      simp only [SessionManager.step] at inserted
      split at inserted
      · rename_i id y adding
        cases inserted
        have size := SessionManager.count_insert s.manager (.inr x) id y
        -- an id in use is overwritten, and the registry stays as large as it is
        cases found : s.manager.sessions.lookup id with
        | none =>
            rw [found] at size
            rw [← not_iff_not, not_not]
            simp only [Limited, size]
            constructor
            · intro beyond
              refine ⟨pc, ?_, id, y, adding, found⟩
              simp at beyond
              omega
            · intro overfills
              have full := overfills.2.1
              simp
              omega
        | some z =>
            rw [found] at size
            apply shrinks
            · exact Nat.le_of_eq size
            · intro overfills
              rcases overfills.2.2 with ⟨id', y', adding', vacant⟩
              rw [adding] at adding'
              cases adding'
              rw [found] at vacant
              cases vacant
      · cases inserted
  | startSession x pc => exact shrinks (le_refl _) (unfilled x (by simp [pc]))
  | acceptAgain x pool pending pc contexts same fed =>
      exact shrinks (le_refl _) (unfilled x (by simp [pc]))
  | closeAcceptor destroying pc | destroyAcceptor pc =>
      apply shrinks _ id
      simp only [State.touch]
      split <;> exact le_refl _
  | destroySessions pc => exact shrinks (Nat.zero_le _) id
  | accept x peer context pending manager filled running fresh added =>
      exact shrinks (SessionManager.count_le_of_step (by simp) added) id
  | finish x now manager pc moved =>
      exact shrinks (SessionManager.count_le_of_step (by simp) moved) id
  | call a b manager on callable moved =>
      cases a <;> cases on <;>
        exact shrinks (SessionManager.count_le_of_step (by simp) moved) id
  | closeRead x now pc running =>
      apply shrinks _ id
      rw [State.close_eq]
      exact le_refl _
  | _ => exact shrinks (le_refl _) id

/-- A run keeps to the limit exactly if it never gives an accepted session a new entry
while the registry is full. -/
theorem limited_iff_never_overfills (cfg : Config) (ownId : σ → Id) (created : σ → Int)
    (limit : 0 ≤ cfg.maxSessionCount) (as : List (Action τ σ δ)) :
    (machine cfg τ δ ownId created).AllStates (Limited cfg) (start cfg τ δ ownId created) as ↔
      (machine cfg τ δ ownId created).AllSteps (fun s a => ¬ Overfills cfg s a)
        (start cfg τ δ ownId created) as := by
  apply Machine.allStates_iff_allSteps (I := fun _ => True) (A := fun _ _ => True)
  · exact fun _ _ _ _ _ _ => trivial
  · exact fun s a s' _ _ good taken => limited_iff_not_overfills good taken
  · trivial
  · exact limit
  · exact Machine.allSteps_true _ _

/-- Two clients connect and stay. -/
def overfillingRun : List (Action Unit Bool Nat) :=
  [.construct, .start, .accept false client, .handleNewSession false, .handleNewSession false,
    .handleNewSession false, .accept true client, .handleNewSession true]

theorem limited_iff_never_overfills_single :
    (machine single Unit Nat (fun _ => 0) fun _ => 0).AllStates (Limited single)
        (start single Unit Nat (fun _ : Bool => 0) fun _ => 0) overfillingRun ↔
      (machine single Unit Nat (fun _ => 0) fun _ => 0).AllSteps
        (fun s a => ¬ Overfills single s a)
        (start single Unit Nat (fun _ : Bool => 0) fun _ => 0) overfillingRun :=
  limited_iff_never_overfills single _ _ (by decide) overfillingRun

def NeverOverfilled (τ σ δ : Type*) [DecidableEq τ] [DecidableEq σ] : Prop :=
  ∀ (cfg : Config) (ownId : σ → Id) (created : σ → Int), 0 ≤ cfg.maxSessionCount →
    ∀ s, (machine cfg τ δ ownId created).Reachable s → Limited cfg s

theorem overfilled : ¬ NeverOverfilled Unit Bool Nat := by
  intro never
  have limited : ((2 : Nat) : Int) ≤ 1 := never single (fun _ => 0) (fun _ => 0) (by decide) _
    (Machine.reachable_of_run overfillingRun rfl)
  exact absurd limited (by decide)

end Server

end CommonUtils.TCP
