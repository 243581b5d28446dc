import CommonUtils.TCP.SessionManager
import Mathlib.Data.List.Induction

namespace CommonUtils.TCP.SessionManager

variable {σ δ : Type*} [DecidableEq σ]

inductive Call (σ : Type*) where
  | addSession (session : σ)
  | removeSession (id : Id)
  deriving DecidableEq

def State.perform (s : State Unit σ δ) : Call σ → State Unit σ δ
  | .addSession x => (s.fetchAdd () x).insert () s.sessionId x
  | .removeSession id => s.removeSession id

def Call.actions : Call σ → List (Action Unit σ δ)
  | .addSession x => [.addSession () x, .insert ()]
  | .removeSession id => [.removeSession id]

theorem perform_run {s : State Unit σ δ} (idle : s.threads () = .idle) (clockTime : Int)
    (ownId : σ → Id) (created : σ → Int) (c : Call σ) :
    (machine Unit δ clockTime ownId created).runFrom s c.actions = some (s.perform c) := by
  cases c with
  | addSession x =>
      simp [Call.actions, Machine.runFrom_cons, machine, step, idle, State.fetchAdd,
        State.setThread, State.perform]
  | removeSession id => rfl

def performAll (s : State Unit σ δ) (calls : List (Call σ)) : State Unit σ δ :=
  calls.foldl State.perform s

def after (δ : Type*) (ownId : σ → Id) (created : σ → Int) (calls : List (Call σ)) :
    State Unit σ δ := performAll (start Unit δ ownId created) calls

/-- No `AddSession` returns an id that is registered at the time. -/
def NeverReused (δ : Type*) (ownId : σ → Id) (created : σ → Int) (calls : List (Call σ)) : Prop :=
  ∀ front x back, calls = front ++ .addSession x :: back →
    (after δ ownId created front).sessions.lookup (after δ ownId created front).sessionId = none

def Call.isAdd : Call σ → Bool
  | .addSession _ => true
  | .removeSession _ => false

def adds (calls : List (Call σ)) : Nat := calls.countP Call.isAdd

/-- Between two `AddSession` calls that are `2 ^ 32` apart there is a `RemoveSession` of
the id of the first. -/
def Spaced (calls : List (Call σ)) : Prop :=
  ∀ front x middle y back,
    calls = front ++ .addSession x :: middle ++ .addSession y :: back →
      adds middle + 1 = 2 ^ 32 → .removeSession (issuedId (adds front)) ∈ middle

theorem issuedId_eq_iff {i j : Nat} : issuedId i = issuedId j ↔ i % 2 ^ 32 = j % 2 ^ 32 := by
  rw [← BitVec.toNat_inj]
  simp only [issuedId, BitVec.toNat_ofNat]
  omega

omit [DecidableEq σ] in
theorem adds_between (front : List (Call σ)) (x : σ) (middle : List (Call σ)) :
    adds (front ++ .addSession x :: middle) = adds front + 1 + adds middle := by
  simp only [adds, List.countP_append, List.countP_cons, Call.isAdd, ↓reduceIte]
  omega

section Runs

variable (ownId : σ → Id) (created : σ → Int)

theorem after_concat (calls : List (Call σ)) (c : Call σ) :
    after δ ownId created (calls ++ [c]) = (after δ ownId created calls).perform c := by
  simp [after, performAll]

omit [DecidableEq σ] in
theorem adds_concat (calls : List (Call σ)) (c : Call σ) :
    adds (calls ++ [c]) = adds calls + if c.isAdd then 1 else 0 := by
  simp [adds, List.countP_append, List.countP_singleton]

theorem sessionId_after (calls : List (Call σ)) :
    (after δ ownId created calls).sessionId = issuedId (adds calls) := by
  induction calls using List.reverseRecOn with
  | nil => rfl
  | append_singleton calls c ih =>
      rw [after_concat, adds_concat]
      cases c with
      | addSession x =>
          simp only [State.perform, State.insert, State.fetchAdd, State.setThread, ih, issuedId,
            Call.isAdd, ↓reduceIte]
          rw [BitVec.ofNat_add (adds calls + 1) 1]
          rfl
      | removeSession id =>
          have same : ((after δ ownId created calls).removeSession id).sessionId =
              (after δ ownId created calls).sessionId := by
            unfold State.removeSession
            split <;> rfl
          exact same.trans ih

theorem lookup_perform_add (s : State Unit σ δ) (x : σ) (id : Id) :
    (s.perform (.addSession x)).sessions.lookup id =
      if id = s.sessionId then some x else s.sessions.lookup id := by
  simp only [State.perform, State.insert, State.fetchAdd, State.setThread]
  by_cases same : id = s.sessionId
  · rw [if_pos same, same, AList.lookup_insert]
  · rw [if_neg same, AList.lookup_insert_ne same]

theorem idle_after (calls : List (Call σ)) :
    (after δ ownId created calls).threads () = .idle := by
  induction calls using List.reverseRecOn with
  | nil => rfl
  | append_singleton calls c ih =>
      rw [after_concat]
      cases c with
      | addSession x =>
          simp [State.perform, State.insert, State.fetchAdd, State.setThread]
      | removeSession id =>
          rw [State.perform]
          unfold State.removeSession
          split <;> exact ih

theorem after_run (clockTime : Int) (calls : List (Call σ)) :
    (machine Unit δ clockTime ownId created).run (calls.flatMap Call.actions) =
      some (after δ ownId created calls) := by
  induction calls using List.reverseRecOn with
  | nil => rfl
  | append_singleton calls c ih =>
      rw [List.flatMap_append, List.flatMap_singleton, after_concat]
      exact Machine.runFrom_trans ih
        (perform_run (idle_after ownId created calls) clockTime ownId created c)

theorem registered_performAll {s : State Unit σ δ} {id : Id} {calls : List (Call σ)}
    (registered : s.sessions.lookup id ≠ none) (kept : .removeSession id ∉ calls) :
    (performAll s calls).sessions.lookup id ≠ none := by
  induction calls generalizing s with
  | nil => exact registered
  | cons c calls ih =>
      rw [List.mem_cons, not_or] at kept
      apply ih _ kept.2
      cases c with
      | addSession x =>
          rw [lookup_perform_add]
          split
          · exact Option.some_ne_none x
          · exact registered
      | removeSession gone =>
          have other : id ≠ gone := by
            intro same
            rw [same] at kept
            exact kept.1 rfl
          rwa [State.perform, lookup_removeSession, if_neg other]

/-- A registered id comes from its last `AddSession`, fewer than `2 ^ 32` calls ago. -/
theorem registered_origin {id : Id} {calls : List (Call σ)}
    (registered : (after δ ownId created calls).sessions.lookup id ≠ none) :
    ∃ front x middle, calls = front ++ .addSession x :: middle ∧ id = issuedId (adds front) ∧
      .removeSession id ∉ middle ∧ adds middle < 2 ^ 32 := by
  induction calls using List.reverseRecOn with
  | nil => simp [after, performAll, start] at registered
  | append_singleton calls c ih =>
      rw [after_concat] at registered
      cases c with
      | addSession x =>
          rw [lookup_perform_add, sessionId_after] at registered
          by_cases newest : id = issuedId (adds calls)
          · exact ⟨calls, x, [], rfl, newest, List.not_mem_nil, Nat.two_pow_pos 32⟩
          · rw [if_neg newest] at registered
            rcases ih registered with ⟨front, first, middle, rfl, issued, kept, few⟩
            refine ⟨front, first, middle ++ [.addSession x], by simp, issued, by simp [kept], ?_⟩
            have total := adds_between front first middle
            have apart := mt issuedId_eq_iff.mpr (issued ▸ newest)
            rw [adds_concat, Call.isAdd, if_pos rfl]
            omega
      | removeSession gone =>
          rw [State.perform, lookup_removeSession] at registered
          by_cases same : id = gone
          · rw [if_pos same] at registered
            exact absurd rfl registered
          · rw [if_neg same] at registered
            rcases ih registered with ⟨front, first, middle, rfl, issued, kept, few⟩
            refine ⟨front, first, middle ++ [.removeSession gone], by simp, issued, ?_, ?_⟩
            · simp [kept, same]
            · rwa [adds_concat, Call.isAdd, if_neg Bool.false_ne_true]

theorem spaced_of_neverReused {calls : List (Call σ)}
    (unique : NeverReused δ ownId created calls) : Spaced calls := by
  intro front x middle y back split apart
  by_contra kept
  have registered : (after δ ownId created (front ++ [.addSession x])).sessions.lookup
      (issuedId (adds front)) ≠ none := by
    rw [after_concat, lookup_perform_add, sessionId_after, if_pos rfl]
    exact Option.some_ne_none x
  have still := registered_performAll registered kept
  have free := unique (front ++ .addSession x :: middle) y back split
  have total := adds_between front x middle
  have again : issuedId (adds (front ++ .addSession x :: middle)) = issuedId (adds front) := by
    rw [issuedId_eq_iff]
    omega
  rw [sessionId_after, again] at free
  apply still
  rw [← free]
  simp [after, performAll]

theorem neverReused_of_spaced {calls : List (Call σ)} (spaced : Spaced calls) :
    NeverReused δ ownId created calls := by
  intro front y back split
  by_contra registered
  rw [sessionId_after] at registered
  rcases registered_origin ownId created registered with
    ⟨first, x, middle, rfl, issued, kept, few⟩
  have total := adds_between first x middle
  rw [issuedId_eq_iff] at issued
  have apart : adds middle + 1 = 2 ^ 32 := by omega
  have removed := spaced first x middle y back split apart
  rw [← issuedId_eq_iff] at issued
  rw [← issued] at removed
  exact kept removed

theorem neverReused_concat {calls : List (Call σ)} {c : Call σ} :
    NeverReused δ ownId created (calls ++ [c]) ↔
      NeverReused δ ownId created calls ∧ ∀ x, c = .addSession x →
        (after δ ownId created calls).sessions.lookup
          (after δ ownId created calls).sessionId = none := by
  constructor
  · intro unique
    constructor
    · intro front x back split
      exact unique front x (back ++ [c]) (by simp [split])
    · intro x same
      exact unique calls x [] (by rw [same])
  · intro unique front x back split
    rcases List.eq_nil_or_concat' back with rfl | ⟨back, last, rfl⟩
    · have parts := List.append_inj' split rfl
      rw [← parts.1]
      exact unique.2 x (List.cons.inj parts.2).1
    · rw [← List.cons_append, ← List.append_assoc] at split
      exact unique.1 front x back (List.append_inj' split rfl).1

theorem overwrites_eq_zero_iff {calls : List (Call σ)} :
    (after δ ownId created calls).overwrites = 0 ↔ NeverReused δ ownId created calls := by
  induction calls using List.reverseRecOn with
  | nil => simp [after, performAll, start, NeverReused]
  | append_singleton calls c ih =>
      rw [neverReused_concat, after_concat, ← ih]
      cases c with
      | addSession x =>
          simp only [State.perform, State.insert, State.fetchAdd, State.setThread]
          rcases Option.eq_none_or_eq_some ((after δ ownId created calls).sessions.lookup
            (after δ ownId created calls).sessionId) with free | ⟨y, taken⟩
          · simp [free]
          · simp [taken]
      | removeSession id =>
          have same : ((after δ ownId created calls).removeSession id).overwrites =
              (after δ ownId created calls).overwrites := by
            unfold State.removeSession
            split <;> rfl
          simp [State.perform, same]

/-- No id is handed out while it is registered, and no session is replaced, in just the
sequences in which no session outlives `2 ^ 32` calls of `AddSession`. -/
theorem never_reused_iff_spaced (calls : List (Call σ)) :
    (NeverReused δ ownId created calls ↔ Spaced calls) ∧
      ((after δ ownId created calls).overwrites = 0 ↔ Spaced calls) := by
  have same : NeverReused δ ownId created calls ↔ Spaced calls :=
    ⟨spaced_of_neverReused ownId created, neverReused_of_spaced ownId created⟩
  exact ⟨same, (overwrites_eq_zero_iff ownId created).trans same⟩

theorem run_overwrites_iff {clockTime : Int} {calls : List (Call σ)} {s : State Unit σ δ}
    (run : (machine Unit δ clockTime ownId created).run (calls.flatMap Call.actions) = some s) :
    s.overwrites = 0 ↔ Spaced calls := by
  have same := Option.some.inj (run.symm.trans (after_run ownId created clockTime calls))
  rw [same, overwrites_eq_zero_iff ownId created]
  exact ⟨spaced_of_neverReused ownId created, neverReused_of_spaced ownId created⟩

end Runs

/-- The sessions `0` to `2 ^ 32` are added and none is removed. -/
def wrappedRun : List (Call Nat) := (List.range (2 ^ 32 + 1)).map .addSession

omit [DecidableEq σ] in
theorem adds_map (sessions : List σ) : adds (sessions.map .addSession) = sessions.length := by
  simp [adds, List.countP_map, Call.isAdd, Function.comp_def]

theorem not_spaced_range {count : Nat} (wraps : count + 1 = 2 ^ 32) :
    ¬ Spaced ((List.range (count + 2)).map Call.addSession) := by
  intro spaced
  have split : (List.range (count + 2)).map Call.addSession =
      [] ++ .addSession 0 :: ((List.range count).map (· + 1)).map .addSession ++
        [.addSession (count + 1)] := by
    rw [List.range_succ, List.range_succ_eq_map]
    simp [Function.comp_def]
  have apart : adds (((List.range count).map (· + 1)).map Call.addSession) + 1 = 2 ^ 32 := by
    rwa [adds_map, List.length_map, List.length_range]
  have removed := spaced _ 0 _ (count + 1) [] split apart
  simp at removed

/-- The last session takes the id of session `0`, which nobody has removed. -/
theorem id_reused : ¬ NeverReused Nat (fun _ => 0) (fun _ => 0) wrappedRun := by
  intro unique
  have spaced := spaced_of_neverReused _ _ unique
  have wraps : 4294967295 + 1 = 2 ^ 32 := rfl
  have length : 2 ^ 32 + 1 = 4294967295 + 2 := rfl
  rw [wrappedRun, length] at spaced
  exact not_spaced_range wraps spaced

end CommonUtils.TCP.SessionManager
