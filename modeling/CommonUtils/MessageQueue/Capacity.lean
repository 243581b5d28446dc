import CommonUtils.MessageQueue.Wakeup

namespace CommonUtils.MessageQueue

variable {κ μ : Type*}

/-- `queue_.pop()` or `queue_.front()` on an empty container. A consumer comes to them as
soon as its wait is over. -/
def State.underflows (cfg : Config) (s : State κ μ) : Action κ μ → Prop
  | .push msg _ => s.queue.push cfg ⟨s.pushes.length, msg⟩ = none
  | .consumer _ => s.queue.ready = true ∧ s.queue.pop = none
  | .pop _ | .empty _ | .spurious _ => False

def Accurate (s : State κ μ) : Prop :=
  s.queue.currentMessageCount = s.queue.queue.length ∧ 0 ≤ s.queue.currentMessageCount

structure Safe [DecidableEq κ] (cfg : Config) (as : List (Action κ μ)) : Prop where
  defined : (machine cfg κ μ).AllTried (fun s a => ¬ s.underflows cfg a) (start κ μ) as
  accurate : (machine cfg κ μ).AllStates Accurate (start κ μ) as

/-- A `push` in the mode that overwrites finds room for a message. -/
def HasRoom (cfg : Config) : Action κ μ → Prop
  | .push _ _ => cfg.coverageMode = true → 1 ≤ cfg.maxMessageCount
  | _ => True

structure Counted (cfg : Config) (s : State κ μ) : Prop where
  count : s.queue.currentMessageCount = s.queue.queue.length
  bounded : s.queue.currentMessageCount ≤ max 0 cfg.maxMessageCount

namespace Counted

variable {cfg : Config} {s s' : State κ μ}

theorem start (cfg : Config) : Counted cfg (MessageQueue.start κ μ) where
  count := rfl
  bounded := le_max_left _ _

theorem accurate (counted : Counted cfg s) : Accurate s := by
  refine ⟨counted.count, ?_⟩
  rw [counted.count]
  exact Int.natCast_nonneg _

theorem push_bounded (counted : Counted cfg s) {msg : Numbered μ} {pushed : Pushed (Numbered μ)}
    (ran : s.queue.push cfg msg = some pushed) :
    pushed.queue.currentMessageCount ≤ max 0 cfg.maxMessageCount := by
  have bounded := counted.bounded
  unfold MessageQueue.push at ran
  split at ran
  · split at ran
    · split at ran
      · cases ran
      · cases ran
        simpa using bounded
    · cases ran
      exact bounded
  · rename_i space
    cases ran
    exact le_max_of_le_right (Int.add_one_le_of_lt (Int.not_le.mp space))

theorem step [DecidableEq κ] {a : Action κ μ} (counted : Counted cfg s)
    (taken : MessageQueue.step cfg s a = some s') : Counted cfg s' := by
  cases step_effect taken with
  | push msg woken pushed cond ran =>
      exact ⟨(push_count counted.count ran).1, counted.push_bounded ran⟩
  | pop k msg rest ready ran =>
      rcases pop_count counted.count ran with ⟨count, less⟩
      refine ⟨count, ?_⟩
      calc
        rest.currentMessageCount = s.queue.currentMessageCount - 1 := less
        _ ≤ s.queue.currentMessageCount := Int.sub_le_self _ (by decide)
        _ ≤ max 0 cfg.maxMessageCount := counted.bounded
  | other a s' queue pushes popped =>
      constructor
      · rw [queue]
        exact counted.count
      · rw [queue]
        exact counted.bounded

theorem push_eq_none_iff (counted : Counted cfg s) (msg : Numbered μ) :
    s.queue.push cfg msg = none ↔ ¬ (cfg.coverageMode = true → 1 ≤ cfg.maxMessageCount) := by
  have count := counted.count
  have bounded := counted.bounded
  rw [MessageQueue.push_eq_none_iff, Classical.not_imp]
  constructor
  · rintro ⟨full, mode, empty⟩
    rw [empty, List.length_nil, Int.natCast_zero] at count
    exact ⟨mode, by omega⟩
  · rintro ⟨mode, none⟩
    have nothing : s.queue.queue.length = 0 := by omega
    exact ⟨by omega, mode, List.length_eq_zero_iff.mp nothing⟩

theorem not_underflows_iff (counted : Counted cfg s) (a : Action κ μ) :
    ¬ s.underflows cfg a ↔ HasRoom cfg a := by
  cases a with
  | push msg woken => exact (not_congr (counted.push_eq_none_iff _)).trans not_not
  | consumer k => exact iff_of_true (fun both => pop_ne_none counted.count both.1 both.2) trivial
  | pop | empty | spurious => exact iff_of_true id trivial

end Counted

/-- The queue is safe in a sequence of calls exactly if it has room for every message that is
to overwrite another. -/
theorem safe_iff_hasRoom [DecidableEq κ] (cfg : Config) (as : List (Action κ μ)) :
    Safe cfg as ↔
      (machine cfg κ μ).AllTried (fun _ a => HasRoom cfg a) (start κ μ) as := by
  have kept : ∀ s a s', Counted cfg s → (machine cfg κ μ).step s a = some s' → Counted cfg s' :=
    fun s a s' counted taken => counted.step taken
  have same := Machine.allTried_congr kept (fun s a counted => counted.not_underflows_iff a)
    (Counted.start cfg) as
  constructor
  · exact fun safe => same.mp safe.defined
  · intro room
    refine ⟨same.mpr room, ?_⟩
    exact Machine.allStates_of_invariant kept (fun s counted => counted.accurate)
      (Counted.start cfg) as

/-- The first message into a queue of capacity zero is to replace the oldest one. -/
theorem evicts_from_empty :
    ¬ ∀ (cfg : Config) (as : List (Action Unit Nat)), Safe cfg as := by
  intro always
  have safe := always ⟨0, true⟩ [.push 5 none]
  exact safe.defined.1 rfl

end CommonUtils.MessageQueue
