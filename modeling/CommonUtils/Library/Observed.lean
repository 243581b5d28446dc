import Mathlib.Data.Option.Basic

namespace Observed

variable {σ τ α ω : Type*}

/-- What is shown from `s` on, if every action has an outcome. -/
def shown (step : σ → α → Option (List ω × σ)) (s : σ) : List α → Option (List ω)
  | [] => some []
  | a :: as => (step s a).bind fun (seen, next) => (shown step next as).map (seen ++ ·)

theorem shown_cons {step : σ → α → Option (List ω × σ)} {s s' : σ} {a : α} {seen : List ω}
    (taken : step s a = some (seen, s')) (as : List α) :
    shown step s (a :: as) = (shown step s' as).map (seen ++ ·) := by
  rw [shown, taken]
  rfl

def Alike (step : σ → α → Option (List ω × σ)) (step' : τ → α → Option (List ω × τ))
    (R : σ → τ → Prop) (s : σ) (t : τ) (a : α) : Prop :=
  ∃ seen s' t', step s a = some (seen, s') ∧ step' t a = some (seen, t') ∧ R s' t'

def Unseen (step : σ → α → Option (List ω × σ)) (R : σ → τ → Prop) (s : σ) (t : τ) (a : α) :
    Prop :=
  ∃ s', step s a = some ([], s') ∧ R s' t

/-- Actions that are unseen can be left out of a run. -/
theorem shown_filter {step : σ → α → Option (List ω × σ)}
    {step' : τ → α → Option (List ω × τ)} {R : σ → τ → Prop} {silent : α → Bool}
    {allowed : α → Prop}
    (unseen : ∀ s t a, R s t → allowed a → silent a = true → Unseen step R s t a)
    (alike : ∀ s t a, R s t → allowed a → silent a = false → Alike step step' R s t a)
    {s : σ} {t : τ} {as : List α} (related : R s t) (each : ∀ a ∈ as, allowed a) :
    ∃ seen, shown step s as = some seen ∧
      shown step' t (as.filter fun a => !silent a) = some seen := by
  induction as generalizing s t with
  | nil => exact ⟨[], rfl, rfl⟩
  | cons a as ih =>
      rcases List.forall_mem_cons.mp each with ⟨now, later⟩
      cases hidden : silent a with
      | true =>
          rcases unseen s t a related now hidden with ⟨s', taken, goesOn⟩
          rcases ih goesOn later with ⟨seen, run, run'⟩
          refine ⟨seen, ?_, ?_⟩
          · rw [shown_cons taken, run]
            rfl
          · rw [List.filter_cons_of_neg (by simp [hidden]), run']
      | false =>
          rcases alike s t a related now hidden with ⟨first, s', t', taken, taken', goesOn⟩
          rcases ih goesOn later with ⟨seen, run, run'⟩
          refine ⟨first ++ seen, ?_, ?_⟩
          · rw [shown_cons taken, run]
            rfl
          · rw [List.filter_cons_of_pos (by simp [hidden]), shown_cons taken', run']
            rfl

end Observed
