import Mathlib.Logic.Function.Basic

namespace MutexTable

variable {ι ω : Type*}

/-- The owner of a mutex is the one party that is inside. -/
def Agree (owner : ι → Option ω) (inside : ω → ι → Prop) : Prop :=
  ∀ m o, owner m = some o ↔ inside o m

variable {owner owner' : ι → Option ω} {inside inside' : ω → ι → Prop}

namespace Agree

theorem exclusive (agree : Agree owner inside) {m : ι} {o o' : ω} (first : inside o m)
    (second : inside o' m) : o = o' := by
  have owned := (agree m o).mpr first
  rw [(agree m o').mpr second] at owned
  exact (Option.some.inj owned).symm

theorem free_of_nobody (agree : Agree owner inside) {m : ι} (nobody : ∀ o, ¬ inside o m) :
    owner m = none := by
  cases owned : owner m with
  | none => rfl
  | some o => exact absurd ((agree m o).mp owned) (nobody o)

theorem keep (agree : Agree owner inside) (same : owner' = owner)
    (stays : ∀ o m, inside' o m ↔ inside o m) : Agree owner' inside' := by
  intro m o
  rw [same, agree m o, stays]

variable [DecidableEq ι]

theorem acquire (agree : Agree owner inside) {m : ι} {o : ω} (free : owner m = none)
    (taken : owner' = Function.update owner m (some o))
    (enters : ∀ o' m', inside' o' m' ↔ inside o' m' ∨ o' = o ∧ m' = m) :
    Agree owner' inside' := by
  intro m' o'
  rw [taken, enters]
  by_cases same : m' = m
  · subst same
    have nobody : ¬ inside o' m' := by
      intro already
      rw [← agree, free] at already
      cases already
    rw [Function.update_self, Option.some.injEq]
    constructor
    · exact fun equal => .inr ⟨equal.symm, rfl⟩
    · exact fun either => (either.resolve_left nobody).1.symm
  · rw [Function.update_of_ne same, agree]
    constructor
    · exact fun already => .inl already
    · exact fun either => either.resolve_right fun other => same other.2

theorem release (agree : Agree owner inside) {m : ι} {o : ω} (held : inside o m)
    (given : owner' = Function.update owner m none)
    (leaves : ∀ o' m', inside' o' m' ↔ inside o' m' ∧ ¬ (o' = o ∧ m' = m)) :
    Agree owner' inside' := by
  intro m' o'
  rw [given, leaves]
  by_cases same : m' = m
  · subst same
    rw [Function.update_self]
    constructor
    · intro owned
      cases owned
    · intro both
      exact absurd ⟨agree.exclusive both.1 held, rfl⟩ both.2
  · rw [Function.update_of_ne same, agree]
    constructor
    · exact fun already => ⟨already, fun other => same other.2⟩
    · exact fun both => both.1

end Agree

end MutexTable
