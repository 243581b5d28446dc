namespace CommonUtils.Logger

universe u

/-- An implementation: its fields and threads as a state with steps of its own, how a
call of each virtual function begins, and whether the last call of a thread has
returned. -/
structure LogPolicy (τ μ : Type u) where
  State : Type u
  Action : Type u
  start : State
  write : State → τ → μ → Option State
  flush : State → τ → Option State
  destroy : State → τ → Option State
  returned : State → τ → Bool
  step : State → Action → Option State

/-- How far one thread's use of a policy is: between two `Write` calls, in one, or after
the last. -/
inductive Use where
  | idle
  | writing
  | closed
  deriving DecidableEq

/-- What a policy keeps true of its messages so far and its state while one thread calls
`Write`, others may call `Flush`, and it is destroyed only when the writer is done. -/
structure LogPolicy.Keeps {τ μ : Type u} (policy : LogPolicy τ μ) (writer : τ)
    (allowed : policy.State → policy.Action → Prop)
    (I : Use → List μ → policy.State → Prop) : Prop where
  write : ∀ {written s s' m}, I .idle written s → policy.write s writer m = some s' →
    I .writing (written ++ [m]) s'
  finish : ∀ {written s}, I .writing written s → policy.returned s writer = true →
    I .idle written s
  flush : ∀ {use written s s' t}, t ≠ writer → I use written s → policy.flush s t = some s' →
    I use written s'
  step : ∀ {use written s s' a}, I use written s → allowed s a → policy.step s a = some s' →
    I use written s'
  close : ∀ {written s}, I .idle written s → I .closed written s
  destroy : ∀ {written s s' t}, t ≠ writer → I .closed written s → policy.destroy s t = some s' →
    I .closed written s'

end CommonUtils.Logger
