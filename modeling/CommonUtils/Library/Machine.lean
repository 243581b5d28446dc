import Mathlib.Data.List.Induction

/-! Executable guarded machines: a step function that is `none` where an action
is disabled, the states its runs reach, and the rules by which a fact about one
step becomes a fact about every run. -/

structure Machine (σ α : Type*) where
  start : σ
  step : σ → α → Option σ

namespace Machine

variable {σ α : Type*} (M : Machine σ α)

def runFrom : σ → List α → Option σ
  | s, [] => some s
  | s, a :: as => (M.step s a).bind fun s' => runFrom s' as

def run (as : List α) : Option σ := M.runFrom M.start as

/-- The states reached from `origin` by steps that all meet `guard`. -/
inductive ReachFrom (guard : σ → α → Prop) (origin : σ) : σ → Prop
  | origin : ReachFrom guard origin origin
  | step {s s' : σ} (a : α) : ReachFrom guard origin s → guard s a →
      M.step s a = some s' → ReachFrom guard origin s'

abbrev ReachUnder (guard : σ → α → Prop) : σ → Prop := M.ReachFrom guard M.start

abbrev Reachable : σ → Prop := M.ReachUnder fun _ _ => True

/-- `P` holds in every state that the actions pass through, up to the first one
that is disabled. -/
def AllStates (P : σ → Prop) : σ → List α → Prop
  | s, [] => P s
  | s, a :: as => P s ∧ ∀ s', M.step s a = some s' → AllStates P s' as

def AllSteps (G : σ → α → Prop) : σ → List α → Prop
  | _, [] => True
  | s, a :: as => ∀ s', M.step s a = some s' → G s a ∧ AllSteps G s' as

/-- `G` holds of every action that the run comes to, whether it is a step there or not. -/
def AllTried (G : σ → α → Prop) : σ → List α → Prop
  | _, [] => True
  | s, a :: as => G s a ∧ ∀ s', M.step s a = some s' → AllTried G s' as

variable {M}

@[simp] theorem runFrom_nil (s : σ) : M.runFrom s [] = some s := rfl

theorem runFrom_cons (s : σ) (a : α) (as : List α) :
    M.runFrom s (a :: as) = (M.step s a).bind fun s' => M.runFrom s' as := rfl

theorem runFrom_cons_eq_some_iff {s last : σ} {a : α} {as : List α} :
    M.runFrom s (a :: as) = some last ↔
      ∃ next, M.step s a = some next ∧ M.runFrom next as = some last :=
  Option.bind_eq_some_iff

theorem runFrom_append (s : σ) (front back : List α) :
    M.runFrom s (front ++ back) = (M.runFrom s front).bind fun s' => M.runFrom s' back := by
  induction front generalizing s with
  | nil => rfl
  | cons a front ih =>
      simp only [List.cons_append, runFrom_cons, ih, Option.bind_assoc]

theorem runFrom_trans {s middle last : σ} {front back : List α}
    (first : M.runFrom s front = some middle) (second : M.runFrom middle back = some last) :
    M.runFrom s (front ++ back) = some last := by
  rw [runFrom_append, first]
  exact second

namespace ReachFrom

variable {guard : σ → α → Prop} {origin s : σ}

theorem invariant {I : σ → Prop} (reached : M.ReachFrom guard origin s) (initial : I origin)
    (preserved : ∀ s a s', I s → guard s a → M.step s a = some s' → I s') : I s := by
  induction reached with
  | origin => exact initial
  | step a _ allowed taken ih => exact preserved _ a _ ih allowed taken

theorem mono {guard' : σ → α → Prop} (reached : M.ReachFrom guard origin s)
    (weaker : ∀ s a, guard s a → guard' s a) : M.ReachFrom guard' origin s := by
  induction reached with
  | origin => exact .origin
  | step a _ allowed taken ih => exact .step a ih (weaker _ _ allowed) taken

theorem under {guard' : σ → α → Prop} {I : σ → Prop} (reached : M.ReachFrom guard origin s)
    (initial : I origin)
    (preserved : ∀ s a s', I s → guard s a → M.step s a = some s' → I s')
    (meets : ∀ s a, I s → guard s a → guard' s a) : M.ReachFrom guard' origin s := by
  induction reached with
  | origin => exact .origin
  | step a before allowed taken ih =>
      have here := before.invariant initial preserved
      exact .step a ih (meets _ _ here allowed) taken

theorem trans {middle : σ} (first : M.ReachFrom guard origin middle)
    (second : M.ReachFrom guard middle s) : M.ReachFrom guard origin s := by
  induction second with
  | origin => exact first
  | step a _ allowed taken ih => exact .step a ih allowed taken

end ReachFrom

theorem reachFrom_of_run {guard : σ → α → Prop} {origin s s' : σ} {as : List α}
    (reached : M.ReachFrom guard origin s) (allowed : M.AllSteps guard s as)
    (ran : M.runFrom s as = some s') : M.ReachFrom guard origin s' := by
  induction as generalizing s with
  | nil =>
      cases ran
      exact reached
  | cons a as ih =>
      rcases runFrom_cons_eq_some_iff.mp ran with ⟨next, taken, rest⟩
      have now := allowed next taken
      exact ih (.step a reached now.1 taken) now.2 rest

theorem allSteps_true (s : σ) (as : List α) : M.AllSteps (fun _ _ => True) s as := by
  induction as generalizing s with
  | nil => trivial
  | cons a as ih => exact fun s' _ => ⟨trivial, ih s'⟩

theorem reachable_of_run {s : σ} (as : List α) (ran : M.run as = some s) : M.Reachable s :=
  reachFrom_of_run .origin (allSteps_true _ _) ran

/-- What is kept of the actions taken so far and the state that they lead to. -/
theorem history_invariant {H : List α → σ → Prop} (initial : H [] M.start)
    (preserved : ∀ as s a s', H as s → M.step s a = some s' → H (as ++ [a]) s')
    {as : List α} {s : σ} (ran : M.run as = some s) : H as s := by
  induction as using List.reverseRecOn generalizing s with
  | nil =>
      cases ran
      exact initial
  | append_singleton as a ih =>
      rw [run, runFrom_append] at ran
      rcases Option.bind_eq_some_iff.mp ran with ⟨middle, first, last⟩
      rcases runFrom_cons_eq_some_iff.mp last with ⟨next, taken, done⟩
      cases done
      exact preserved as middle a _ (ih first) taken

theorem allTried_append {G : σ → α → Prop} {s : σ} {front back : List α} :
    M.AllTried G s (front ++ back) ↔
      M.AllTried G s front ∧ ∀ s', M.runFrom s front = some s' → M.AllTried G s' back := by
  induction front generalizing s with
  | nil =>
      constructor
      · intro meets
        refine ⟨trivial, ?_⟩
        rintro s' ⟨⟩
        exact meets
      · rintro ⟨-, rest⟩
        exact rest s rfl
  | cons a front ih =>
      constructor
      · intro meets
        refine ⟨⟨meets.1, fun next taken => (ih.mp (meets.2 next taken)).1⟩, ?_⟩
        intro s' ran
        rcases runFrom_cons_eq_some_iff.mp ran with ⟨next, taken, rest⟩
        exact (ih.mp (meets.2 next taken)).2 s' rest
      · rintro ⟨first, rest⟩
        refine ⟨first.1, fun next taken => ih.mpr ⟨first.2 next taken, ?_⟩⟩
        intro s' ran
        exact rest s' (runFrom_cons_eq_some_iff.mpr ⟨next, taken, ran⟩)

theorem allSteps_iff_allTried {G : σ → α → Prop} {s : σ} {as : List α} :
    M.AllSteps G s as ↔ M.AllTried (fun s a => (M.step s a).isSome → G s a) s as := by
  induction as generalizing s with
  | nil => exact Iff.rfl
  | cons a as ih =>
      constructor
      · intro steps
        refine ⟨fun enabled => ?_, fun next taken => ih.mp (steps next taken).2⟩
        rcases Option.isSome_iff_exists.mp enabled with ⟨next, taken⟩
        exact (steps next taken).1
      · rintro ⟨now, later⟩ next taken
        exact ⟨now (Option.isSome_iff_exists.mpr ⟨next, taken⟩), ih.mpr (later next taken)⟩

theorem allSteps_append {G : σ → α → Prop} {s : σ} {front back : List α} :
    M.AllSteps G s (front ++ back) ↔
      M.AllSteps G s front ∧ ∀ s', M.runFrom s front = some s' → M.AllSteps G s' back := by
  simp only [allSteps_iff_allTried]
  exact allTried_append

theorem allTried_concat {G : σ → α → Prop} {s s' : σ} {as : List α} {a : α}
    (before : M.AllTried G s as) (ran : M.runFrom s as = some s') (meets : G s' a) :
    M.AllTried G s (as ++ [a]) := by
  refine allTried_append.mpr ⟨before, ?_⟩
  intro last again
  cases ran.symm.trans again
  exact ⟨meets, fun _ _ => trivial⟩

theorem history_under {guard : σ → α → Prop} {H : List α → σ → Prop} (initial : H [] M.start)
    (preserved : ∀ as s a s', M.run as = some s → H as s → guard s a → M.step s a = some s' →
      H (as ++ [a]) s')
    {as : List α} {s : σ} (allowed : M.AllSteps guard M.start as) (ran : M.run as = some s) :
    H as s := by
  induction as using List.reverseRecOn generalizing s with
  | nil =>
      cases ran
      exact initial
  | append_singleton as a ih =>
      rw [run, runFrom_append] at ran
      rcases Option.bind_eq_some_iff.mp ran with ⟨middle, first, last⟩
      rcases runFrom_cons_eq_some_iff.mp last with ⟨next, taken, done⟩
      cases done
      have steps := allSteps_append.mp allowed
      have now := steps.2 middle first _ taken
      exact preserved as middle a _ first (ih steps.1 first) now.1 taken

def runGuarded (M : Machine σ α) (guard : σ → α → Prop) [∀ s a, Decidable (guard s a)] :
    σ → List α → Option σ
  | s, [] => some s
  | s, a :: as =>
      if guard s a then (M.step s a).bind fun s' => runGuarded M guard s' as else none

theorem reachFrom_of_runGuarded {guard : σ → α → Prop} [∀ s a, Decidable (guard s a)]
    {origin s s' : σ} (as : List α) (reached : M.ReachFrom guard origin s)
    (ran : M.runGuarded guard s as = some s') : M.ReachFrom guard origin s' := by
  induction as generalizing s with
  | nil =>
      cases ran
      exact reached
  | cons a as ih =>
      rw [runGuarded] at ran
      split at ran
      · obtain ⟨next, taken, rest⟩ := Option.bind_eq_some_iff.mp ran
        exact ih (.step a reached ‹_› taken) rest
      · cases ran

theorem allSteps_of_runGuarded {guard : σ → α → Prop} [∀ s a, Decidable (guard s a)]
    {s last : σ} (as : List α) (ran : M.runGuarded guard s as = some last) :
    M.AllSteps guard s as := by
  induction as generalizing s with
  | nil => trivial
  | cons a as ih =>
      intro s' taken
      rw [runGuarded] at ran
      split at ran
      · rw [taken] at ran
        exact ⟨‹_›, ih ran⟩
      · cases ran

theorem allSteps_of_forall {G : σ → α → Prop} {as : List α} (s : σ)
    (meets : ∀ a ∈ as, ∀ s, G s a) : M.AllSteps G s as := by
  induction as generalizing s with
  | nil => trivial
  | cons a as ih =>
      intro s' _
      exact ⟨meets a (by simp) s, ih s' fun b member => meets b (List.mem_cons_of_mem _ member)⟩

/-- Where the states after a step are good exactly if the step is, a run's states
are all good exactly if its steps are. `I` is what every run keeps. -/
theorem allStates_iff_allSteps {I P : σ → Prop} {A G : σ → α → Prop}
    (kept : ∀ s a s', I s → A s a → M.step s a = some s' → I s')
    (exact_step : ∀ s a s', I s → A s a → P s → M.step s a = some s' → (P s' ↔ G s a))
    {s : σ} {as : List α} (initial : I s) (good : P s) (allowed : M.AllSteps A s as) :
    M.AllStates P s as ↔ M.AllSteps G s as := by
  induction as generalizing s with
  | nil => exact ⟨fun _ => trivial, fun _ => good⟩
  | cons a as ih =>
      constructor
      · rintro ⟨_, later⟩ s' taken
        have now := allowed s' taken
        have after := later s' taken
        have good' : P s' := by
          cases as with
          | nil => exact after
          | cons b bs => exact after.1
        have rest := ih (kept s a s' initial now.1 taken) good' now.2
        exact ⟨(exact_step s a s' initial now.1 good taken).mp good', rest.mp after⟩
      · intro steps
        refine ⟨good, fun s' taken => ?_⟩
        have now := allowed s' taken
        have meets := steps s' taken
        have good' := (exact_step s a s' initial now.1 good taken).mpr meets.1
        exact (ih (kept s a s' initial now.1 taken) good' now.2).mpr meets.2

theorem allStates_of_invariant {I P : σ → Prop}
    (kept : ∀ s a s', I s → M.step s a = some s' → I s') (holds : ∀ s, I s → P s) {s : σ}
    (initial : I s) (as : List α) : M.AllStates P s as := by
  induction as generalizing s with
  | nil => exact holds s initial
  | cons a as ih => exact ⟨holds s initial, fun s' taken => ih (kept s a s' initial taken)⟩

theorem allTried_congr {I : σ → Prop} {G H : σ → α → Prop}
    (kept : ∀ s a s', I s → M.step s a = some s' → I s')
    (same : ∀ s a, I s → (G s a ↔ H s a)) {s : σ} (initial : I s) (as : List α) :
    M.AllTried G s as ↔ M.AllTried H s as := by
  induction as generalizing s with
  | nil => exact Iff.rfl
  | cons a as ih =>
      apply and_congr (same s a initial)
      apply forall_congr'
      intro s'
      apply imp_congr_right
      intro taken
      exact ih (kept s a s' initial taken)

/-- Forward simulation: a relation that holds at the start and that every step
can answer by a run of the abstract machine relates every reached state to a
reachable abstract one. -/
theorem ReachFrom.simulates {σ' α' : Type*} {N : Machine σ' α'} {guard : σ → α → Prop}
    {R : σ → σ' → Prop} (starts : R M.start N.start)
    (answers : ∀ s a s' t, R s t → guard s a → M.step s a = some s' →
      ∃ bs t', N.runFrom t bs = some t' ∧ R s' t')
    {s : σ} (reached : M.ReachUnder guard s) : ∃ t, N.Reachable t ∧ R s t := by
  induction reached with
  | origin => exact ⟨N.start, .origin, starts⟩
  | step a _ allowed taken ih =>
      obtain ⟨t, reachable, related⟩ := ih
      obtain ⟨bs, t', ran, related'⟩ := answers _ a _ t related allowed taken
      exact ⟨t', reachFrom_of_run reachable (allSteps_true _ _) ran, related'⟩

end Machine
