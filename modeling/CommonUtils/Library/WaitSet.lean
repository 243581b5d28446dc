import Mathlib.Data.Finset.Option

/-! Condition variables as wait sets. A thread is in the set from the moment it
blocks until it is notified or wakes spuriously; which sleeper a notification
picks is a choice of the scheduler. -/

namespace WaitSet

variable {τ : Type*} [DecidableEq τ]

/-- `notify_one`, waking the chosen sleeper. No choice is a legal outcome only
when nobody sleeps. -/
def notifyOne (asleep : Finset τ) : Option τ → Option (Finset τ)
  | some t => if t ∈ asleep then some (asleep.erase t) else none
  | none => if asleep = ∅ then some ∅ else none

def wake (asleep : Finset τ) (t : τ) : Option (Finset τ) :=
  if t ∈ asleep then some (asleep.erase t) else none

theorem wake_eq_some {asleep rest : Finset τ} {t : τ} :
    wake asleep t = some rest ↔ t ∈ asleep ∧ rest = asleep.erase t := by
  unfold wake
  split <;> simp_all [eq_comm]

theorem notifyOne_some {asleep rest : Finset τ} {t : τ} :
    notifyOne asleep (some t) = some rest ↔ t ∈ asleep ∧ rest = asleep.erase t :=
  wake_eq_some

theorem notifyOne_none {asleep rest : Finset τ} :
    notifyOne asleep none = some rest ↔ asleep = ∅ ∧ rest = ∅ := by
  unfold notifyOne
  split <;> simp_all [eq_comm]

theorem notifyOne_subset {asleep rest : Finset τ} {choice : Option τ}
    (notified : notifyOne asleep choice = some rest) : rest ⊆ asleep := by
  cases choice with
  | none =>
      obtain ⟨_, rfl⟩ := notifyOne_none.mp notified
      exact Finset.empty_subset _
  | some t =>
      obtain ⟨_, rfl⟩ := notifyOne_some.mp notified
      exact Finset.erase_subset _ _

theorem wake_subset {asleep rest : Finset τ} {t : τ} (woken : wake asleep t = some rest) :
    rest ⊆ asleep := by
  obtain ⟨_, rfl⟩ := wake_eq_some.mp woken
  exact Finset.erase_subset _ _

/-- While somebody sleeps, those woken and not yet back are enough for all that is
queued. -/
def Covered (asleep woken : Finset τ) (queued : Int) : Prop :=
  asleep ≠ ∅ → queued ≤ woken.card

namespace Covered

variable {asleep woken rest : Finset τ} {queued queued' : Int}

omit [DecidableEq τ] in
theorem of_nonpos (nothing : queued ≤ 0) : Covered asleep woken queued :=
  fun _ => nothing.trans (Int.natCast_nonneg _)

theorem notifyOne (covered : Covered asleep woken queued) (apart : Disjoint asleep woken)
    (more : queued' ≤ queued + 1) {choice : Option τ}
    (notified : WaitSet.notifyOne asleep choice = some rest) :
    Covered rest (choice.toFinset ∪ woken) queued' := by
  cases choice with
  | none =>
      have nobody := (notifyOne_none.mp notified).2
      exact fun some => absurd nobody some
  | some t =>
      have sleeps := (notifyOne_some.mp notified).1
      have awake : t ∉ woken := Finset.disjoint_left.mp apart sleeps
      have before := covered (Finset.ne_empty_of_mem sleeps)
      intro _
      rw [Option.toFinset_some, Finset.singleton_union, Finset.card_insert_of_notMem awake]
      omega

theorem wake (covered : Covered asleep woken queued) {t : τ}
    (stirred : WaitSet.wake asleep t = some rest) : Covered rest (insert t woken) queued := by
  have sleeps := (wake_eq_some.mp stirred).1
  have before := covered (Finset.ne_empty_of_mem sleeps)
  have larger := Finset.card_le_card (Finset.subset_insert t woken)
  intro _
  omega

theorem take (covered : Covered asleep woken queued) (t : τ) :
    Covered asleep (woken.erase t) (queued - 1) := by
  intro some
  have before := covered some
  have smaller := Finset.pred_card_le_card_erase (s := woken) (a := t)
  omega

end Covered

end WaitSet
