import CommonUtils.Library.Machine
import Mathlib.Algebra.BigOperators.Group.Finset.Basic
import Mathlib.Algebra.GroupWithZero.Nat
import Mathlib.Data.Fintype.Basic

namespace Machine

variable {σ α : Type*} (M : Machine σ α)

/-- However a run goes on from `s` under the guard, it is over after `bound` steps, not counting
what the actions allow for, and it does not get stuck short of the goal. -/
structure Finishes (guard : σ → α → Prop) (allowance : α → Nat) (goal : σ → Prop) (bound : Nat)
    (s : σ) : Prop where
  short : ∀ as s', M.AllSteps guard s as → M.runFrom s as = some s' →
    as.length ≤ bound + (as.map allowance).sum
  ends : ∀ as s', M.AllSteps guard s as → M.runFrom s as = some s' →
    (∀ a, guard s' a → M.step s' a = none) → goal s'

variable {M} {guard : σ → α → Prop} {allowance : α → Nat} {goal : σ → Prop}
variable {I : σ → Prop} {remaining : σ → Nat} {s : σ}

theorem runFrom_invariant (kept : ∀ s a s', I s → guard s a → M.step s a = some s' → I s')
    {s' : σ} {as : List α} (initial : I s) (allowed : M.AllSteps guard s as)
    (ran : M.runFrom s as = some s') : I s' :=
  (reachFrom_of_run .origin allowed ran).invariant initial kept

/-- Every step lowers what remains, but for what its action allows for. -/
theorem length_le_remaining (kept : ∀ s a s', I s → guard s a → M.step s a = some s' → I s')
    (falls : ∀ s a s', I s → guard s a → M.step s a = some s' →
      remaining s' < remaining s + allowance a)
    {s' : σ} {as : List α} (initial : I s) (allowed : M.AllSteps guard s as)
    (ran : M.runFrom s as = some s') :
    as.length + remaining s' ≤ remaining s + (as.map allowance).sum := by
  induction as generalizing s with
  | nil =>
      cases ran
      simp
  | cons a as ih =>
      rcases runFrom_cons_eq_some_iff.mp ran with ⟨next, taken, rest⟩
      have now := allowed next taken
      have first := falls s a next initial now.1 taken
      have later := ih (kept s a next initial now.1 taken) now.2 rest
      rw [List.length_cons, List.map_cons, List.sum_cons]
      omega

theorem finishes (kept : ∀ s a s', I s → guard s a → M.step s a = some s' → I s')
    (falls : ∀ s a s', I s → guard s a → M.step s a = some s' →
      remaining s' < remaining s + allowance a)
    (moves : ∀ s, I s → ¬ goal s → ∃ a, guard s a ∧ (M.step s a).isSome) (initial : I s) :
    M.Finishes guard allowance goal (remaining s) s where
  short as s' allowed ran := by
    have bounded := length_le_remaining kept falls initial allowed ran
    omega
  ends as s' allowed ran stuck := by
    by_contra short
    rcases moves s' (runFrom_invariant kept initial allowed ran) short with ⟨a, meets, enabled⟩
    rw [stuck a meets] at enabled
    cases enabled

section Total

variable {ι : Type*} {β : ι → Type*} [Fintype ι] [DecidableEq ι]

def total (weight : (i : ι) → β i → Nat) (threads : (i : ι) → β i) : Nat :=
  Finset.univ.sum fun i => weight i (threads i)

theorem total_update (weight : (i : ι) → β i → Nat) (threads : (i : ι) → β i) (i : ι)
    (next : β i) : total weight (Function.update threads i next) + weight i (threads i) =
      total weight threads + weight i next := by
  have here : weight i (Function.update threads i next i) = weight i next := by
    rw [Function.update_self]
  have others : (Finset.univ.erase i).sum (fun j => weight j (Function.update threads i next j)) =
      (Finset.univ.erase i).sum fun j => weight j (threads j) := by
    apply Finset.sum_congr rfl
    intro j member
    rw [Function.update_of_ne (Finset.ne_of_mem_erase member)]
  unfold total
  rw [← Finset.add_sum_erase _ _ (Finset.mem_univ i),
    ← Finset.add_sum_erase _ (fun j => weight j (threads j)) (Finset.mem_univ i), here, others]
  omega

end Total

end Machine
