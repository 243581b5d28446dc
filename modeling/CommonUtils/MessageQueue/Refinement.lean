import CommonUtils.Library.BoundedFifo
import CommonUtils.MessageQueue.Model

namespace CommonUtils.MessageQueue

variable {κ μ : Type*}

def Config.capacity (cfg : Config) : Nat := cfg.maxMessageCount.toNat

def Config.policy (cfg : Config) : BoundedFifo.Policy :=
  if cfg.coverageMode then .dropOldest else .dropNewest

def PushRecord.offer (r : PushRecord μ) : BoundedFifo.Offer := ⟨r.full, r.oldest⟩

/-- The queue holds the numbers that the buffer holds, under their own messages. -/
structure Refines (s : State κ μ) (t : BoundedFifo.State) : Prop where
  count : s.queue.currentMessageCount = s.queue.queue.length
  offers : t.offers = s.pushes.map PushRecord.offer
  live : t.live = s.queue.queue.map Numbered.number
  taken : t.taken = s.popped.map Numbered.number
  genuine : ∀ x ∈ s.popped ++ s.queue.queue,
    (s.pushes[x.number]?).map PushRecord.message = some x.message

namespace Refines

theorem start (cfg : Config) :
    Refines (MessageQueue.start κ μ) (BoundedFifo.machine cfg.capacity cfg.policy).start where
  count := rfl
  offers := rfl
  live := rfl
  taken := rfl
  genuine := by
    intro x member
    cases member

variable {cfg : Config} {s s' : State κ μ} {t : BoundedFifo.State}

theorem live_length (refines : Refines s t) : t.live.length = s.queue.queue.length := by
  rw [refines.live, List.length_map]

theorem full_iff (refines : Refines s t) (room : 1 ≤ cfg.maxMessageCount) :
    cfg.maxMessageCount ≤ s.queue.currentMessageCount ↔ ¬ t.live.length < cfg.capacity := by
  have count := refines.count
  have length := refines.live_length
  unfold Config.capacity
  omega

theorem record_offer (refines : Refines s t) (room : 1 ≤ cfg.maxMessageCount) (msg : μ) :
    (s.record cfg msg).offer = BoundedFifo.met cfg.capacity t := by
  have length := refines.live_length
  have full : ((s.queue.queue.length : Int) == cfg.maxMessageCount) =
      (t.live.length == cfg.capacity) := by
    rw [Bool.eq_iff_iff, beq_iff_eq, beq_iff_eq]
    unfold Config.capacity
    omega
  simp only [PushRecord.offer, State.record, BoundedFifo.met, full, refines.live, List.head?_map]

theorem offers_append (refines : Refines s t) (room : 1 ≤ cfg.maxMessageCount) (msg : μ) :
    t.offers ++ [BoundedFifo.met cfg.capacity t] =
      (s.pushes ++ [s.record cfg msg]).map PushRecord.offer := by
  rw [List.map_append, List.map_singleton, refines.record_offer room msg, refines.offers]

theorem offers_length (refines : Refines s t) : t.offers.length = s.pushes.length := by
  rw [refines.offers, List.length_map]

theorem genuine_append (refines : Refines s t) (msg : μ) {queue : List (Numbered μ)}
    (from_queue : ∀ x ∈ queue, x ∈ s.queue.queue ∨ x = ⟨s.pushes.length, msg⟩) :
    ∀ x ∈ s.popped ++ queue,
      ((s.pushes ++ [s.record cfg msg])[x.number]?).map PushRecord.message = some x.message := by
  intro x member
  have old : ∀ x ∈ s.popped ++ s.queue.queue,
      ((s.pushes ++ [s.record cfg msg])[x.number]?).map PushRecord.message = some x.message := by
    intro x member
    have genuine := refines.genuine x member
    rcases Option.map_eq_some_iff.mp genuine with ⟨r, found, message⟩
    have inside := (List.getElem?_eq_some_iff.mp found).1
    rw [List.getElem?_append_left inside]
    exact genuine
  rcases List.mem_append.mp member with popped | queued
  · exact old x (List.mem_append_left _ popped)
  · rcases from_queue x queued with earlier | rfl
    · exact old x (List.mem_append_right _ earlier)
    · simp [State.record]

theorem push (refines : Refines s t) (room : 1 ≤ cfg.maxMessageCount) {msg : μ}
    {pushed : Pushed (Numbered μ)} (cond : Finset κ)
    (ran : s.queue.push cfg ⟨s.pushes.length, msg⟩ = some pushed) :
    ∃ t', BoundedFifo.step cfg.capacity cfg.policy t .offer = some t' ∧
      Refines (s.afterPush cfg msg pushed.queue cond) t' := by
  have count := refines.count
  have offers := refines.offers_append room msg
  simp only [BoundedFifo.step]
  unfold MessageQueue.push at ran
  by_cases full : cfg.maxMessageCount ≤ s.queue.currentMessageCount
  · rw [if_pos full] at ran
    rw [if_neg ((refines.full_iff room).mp full)]
    cases mode : cfg.coverageMode with
    | false =>
        -- the new message is the one that is lost
        simp only [mode, Bool.false_eq_true, ↓reduceIte, Option.some.injEq] at ran
        subst ran
        simp only [Config.policy, mode, Bool.false_eq_true, ↓reduceIte]
        refine ⟨_, rfl, ⟨count, offers, refines.live, refines.taken, ?_⟩⟩
        exact refines.genuine_append msg fun x member => .inl member
    | true =>
        cases content : s.queue.queue with
        | nil => simp [mode, content] at ran
        | cons oldest rest =>
            -- the oldest one is lost, and its number leaves the buffer
            simp only [mode, content, ↓reduceIte, Option.some.injEq] at ran
            subst ran
            simp only [Config.policy, mode, ↓reduceIte]
            refine ⟨_, rfl, ⟨?_, offers, ?_, refines.taken, ?_⟩⟩
            · simp [State.afterPush, count, content]
            · simp [State.afterPush, refines.live, refines.offers_length, content]
            · apply refines.genuine_append msg
              intro x member
              rcases List.mem_append.mp member with kept | now
              · exact .inl (content ▸ List.mem_cons_of_mem _ kept)
              · exact .inr (List.mem_singleton.mp now)
  · rw [if_neg full] at ran
    cases ran
    rw [if_pos (not_not.mp (mt (refines.full_iff room).mpr full))]
    refine ⟨_, rfl, ⟨?_, offers, ?_, refines.taken, ?_⟩⟩
    · simp [State.afterPush, count]
    · simp [State.afterPush, refines.live, refines.offers_length]
    · apply refines.genuine_append msg
      intro x member
      rcases List.mem_append.mp member with kept | now
      · exact .inl kept
      · exact .inr (List.mem_singleton.mp now)

theorem pop [DecidableEq κ] (cfg : Config) (refines : Refines s t) {msg : Numbered μ}
    {rest : MessageQueue (Numbered μ)} (k : κ) (ran : s.queue.pop = some (msg, rest)) :
    ∃ t', BoundedFifo.step cfg.capacity cfg.policy t .take = some t' ∧
      Refines { s.setConsumer k .idle with queue := rest, popped := s.popped ++ [msg] } t' := by
  rcases pop_cases ran with ⟨content, less⟩
  have live := refines.live
  rw [content, List.map_cons] at live
  simp only [BoundedFifo.step, live]
  refine ⟨_, rfl, ⟨?_, refines.offers, rfl, ?_, ?_⟩⟩
  · simp [less, refines.count, content]
  · simp [refines.taken]
  · have genuine := refines.genuine
    rw [content] at genuine
    simpa [State.setConsumer] using genuine

theorem defined (refines : Refines s t) (room : 1 ≤ cfg.maxMessageCount) (msg : Numbered μ) :
    (s.queue.push cfg msg).isSome ∧ (s.queue.ready = true → s.queue.pop.isSome) := by
  constructor
  · rw [Option.isSome_iff_ne_none, Ne, push_eq_none_iff]
    rintro ⟨full, _, empty⟩
    have count := refines.count
    rw [empty, List.length_nil, Int.natCast_zero] at count
    omega
  · intro ready
    exact Option.isSome_iff_ne_none.mpr (pop_ne_none refines.count ready)

end Refines

theorem refines_of_reachable {cfg : Config} [DecidableEq κ] (room : 1 ≤ cfg.maxMessageCount)
    {s : State κ μ} (reached : (machine cfg κ μ).Reachable s) :
    ∃ t, (BoundedFifo.machine cfg.capacity cfg.policy).Reachable t ∧ Refines s t := by
  apply Machine.ReachFrom.simulates (Refines.start cfg) _ reached
  intro s a s' t refines _ taken
  cases step_effect taken with
  | push msg woken pushed cond ran =>
      rcases refines.push room cond ran with ⟨t', stepped, refines'⟩
      exact ⟨[.offer], t', by simp [Machine.runFrom_cons, BoundedFifo.machine, stepped], refines'⟩
  | pop k msg rest ready ran =>
      rcases refines.pop cfg k ran with ⟨t', stepped, refines'⟩
      exact ⟨[.take], t', by simp [Machine.runFrom_cons, BoundedFifo.machine, stepped], refines'⟩
  | other a s' queue pushes popped =>
      refine ⟨[], t, rfl, ⟨?_, ?_, ?_, ?_, ?_⟩⟩
      · rw [queue]; exact refines.count
      · rw [pushes]; exact refines.offers
      · rw [queue]; exact refines.live
      · rw [popped]; exact refines.taken
      · rw [queue, pushes, popped]; exact refines.genuine

def State.kept (s : State κ μ) : List (Numbered μ) := s.popped ++ s.queue.queue

/-- The queue's promise, for both overflow modes. -/
structure BoundedHistory (cfg : Config) (s : State κ μ) : Prop where
  count : s.queue.currentMessageCount = s.queue.queue.length ∧
    0 ≤ s.queue.currentMessageCount ∧ s.queue.currentMessageCount ≤ cfg.maxMessageCount
  in_order : (s.kept.map Numbered.number).Sublist (List.range s.pushes.length)
  genuine : ∀ x ∈ s.kept, (s.pushes[x.number]?).map PushRecord.message = some x.message
  subsequence : (s.kept.map Numbered.message).Sublist (s.pushes.map PushRecord.message)
  drops_latest : cfg.coverageMode = false → ∀ k < s.pushes.length,
    k ∉ s.kept.map Numbered.number ↔ ∃ r, s.pushes[k]? = some r ∧ r.full = true
  drops_oldest : cfg.coverageMode = true → ∀ k < s.pushes.length,
    k ∉ s.kept.map Numbered.number ↔ ∃ r ∈ s.pushes, r.full = true ∧ r.oldest = some k
  defined : ∀ msg, (s.queue.push cfg msg).isSome ∧ (s.queue.ready = true → s.queue.pop.isSome)

theorem filterMap_lookup_range {α : Type*} (xs : List α) :
    (List.range xs.length).filterMap (fun k => xs[k]?) = xs := by
  induction xs using List.reverseRecOn with
  | nil => rfl
  | append_singleton xs x ih =>
      have front : (List.range xs.length).filterMap (fun k => (xs ++ [x])[k]?) = xs := by
        refine Eq.trans ?_ ih
        apply List.filterMap_congr
        intro k inside
        exact List.getElem?_append_left (List.mem_range.mp inside)
      simp [List.range_succ, List.filterMap_append, front]

theorem subsequence_of_genuine {kept : List (Numbered μ)} {pushes : List (PushRecord μ)}
    (in_order : (kept.map Numbered.number).Sublist (List.range pushes.length))
    (genuine : ∀ x ∈ kept, (pushes[x.number]?).map PushRecord.message = some x.message) :
    (kept.map Numbered.message).Sublist (pushes.map PushRecord.message) := by
  have lookups := in_order.filterMap fun k => (pushes[k]?).map PushRecord.message
  have all : (List.range pushes.length).filterMap (fun k => (pushes[k]?).map PushRecord.message) =
      pushes.map PushRecord.message := by
    rw [← List.map_filterMap, filterMap_lookup_range]
  have mine : (kept.map Numbered.number).filterMap
      (fun k => (pushes[k]?).map PushRecord.message) = kept.map Numbered.message := by
    rw [List.filterMap_map, ← List.filterMap_eq_map]
    exact List.filterMap_congr genuine
  rw [all, mine] at lookups
  exact lookups

theorem kept_subsequence [DecidableEq κ] {cfg : Config} (room : 1 ≤ cfg.maxMessageCount)
    {s : State κ μ} (reached : (machine cfg κ μ).Reachable s) :
    (s.kept.map Numbered.message).Sublist (s.pushes.map PushRecord.message) := by
  rcases refines_of_reachable room reached with ⟨t, reachable, refines⟩
  have lawful := BoundedFifo.Lawful.of_reachable (by unfold Config.capacity; omega) reachable
  have in_order := lawful.in_order
  rw [refines.taken, refines.live, refines.offers_length, ← List.map_append] at in_order
  exact subsequence_of_genuine in_order refines.genuine

theorem kept_all [DecidableEq κ] {cfg : Config} (room : 1 ≤ cfg.maxMessageCount)
    {s : State κ μ} (reached : (machine cfg κ μ).Reachable s)
    (roomy : ∀ r ∈ s.pushes, r.full = false) :
    s.kept.map Numbered.message = s.pushes.map PushRecord.message := by
  apply (kept_subsequence room reached).eq_of_length
  rcases refines_of_reachable room reached with ⟨t, reachable, refines⟩
  have lawful := BoundedFifo.Lawful.of_reachable (by unfold Config.capacity; omega) reachable
  have all : t.taken ++ t.live = List.range t.offers.length := by
    apply lawful.kept_all
    rw [refines.offers]
    intro o member
    rcases List.mem_map.mp member with ⟨r, inside, rfl⟩
    exact roomy r inside
  have numbers : t.taken ++ t.live = s.kept.map Numbered.number := by
    rw [refines.taken, refines.live, State.kept, List.map_append]
  rw [List.length_map, List.length_map, ← refines.offers_length, ← List.length_map Numbered.number,
    ← numbers, all, List.length_range]

theorem refines_bounded_fifo (cfg : Config) [DecidableEq κ] (room : 1 ≤ cfg.maxMessageCount)
    (s : State κ μ) (reached : (machine cfg κ μ).Reachable s) : BoundedHistory cfg s := by
  rcases refines_of_reachable room reached with ⟨t, reachable, refines⟩
  have lawful := BoundedFifo.Lawful.of_reachable (by unfold Config.capacity; omega) reachable
  have numbers : t.taken ++ t.live = s.kept.map Numbered.number := by
    rw [refines.taken, refines.live, State.kept, List.map_append]
  have length := refines.offers_length
  have in_order : (s.kept.map Numbered.number).Sublist (List.range s.pushes.length) := by
    rw [← numbers, ← length]
    exact lawful.in_order
  refine ⟨⟨refines.count, ?_, ?_⟩, in_order, refines.genuine,
    subsequence_of_genuine in_order refines.genuine, ?_, ?_, refines.defined room⟩
  · rw [refines.count]
    exact Int.natCast_nonneg _
  · have bounded := lawful.bounded
    rw [refines.live_length] at bounded
    rw [refines.count]
    unfold Config.capacity at bounded
    omega
  · intro mode k inside
    rw [← numbers, lawful.lost k (length ▸ inside)]
    simp [BoundedFifo.Lost, Config.policy, mode, refines.offers, PushRecord.offer]
  · intro mode k inside
    rw [← numbers, lawful.lost k (length ▸ inside)]
    simp [BoundedFifo.Lost, Config.policy, mode, refines.offers, PushRecord.offer]

def overwritingRun : List (Action (Fin 1) Nat) :=
  [.push 5 none, .push 6 none, .push 7 none, .pop (Fin.last 0), .consumer (Fin.last 0),
    .empty false]

theorem refines_bounded_fifo_two :
    ∃ s : State (Fin 1) Nat, s.kept = [⟨1, 6⟩, ⟨2, 7⟩] ∧ BoundedHistory ⟨2, true⟩ s :=
  ⟨_, rfl, refines_bounded_fifo ⟨2, true⟩ (by decide) _
    (Machine.reachable_of_run overwritingRun rfl)⟩

end CommonUtils.MessageQueue
