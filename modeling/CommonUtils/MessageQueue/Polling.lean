import CommonUtils.MessageQueue.Wakeup

namespace CommonUtils.MessageQueue.Polling

universe u v

/-- The queue, the callers between `empty` and `pop` and, last, what the calls that are
over have returned: nothing for `false`. -/
structure State (κ : Type u) (μ : Type v) where
  base : MessageQueue.State κ μ
  pending : Finset κ
  returns : List (κ × Option (Numbered μ))

/-- `recData k` is a call up to the end of its `empty`, `pop k` the critical section of
its `pop`, run on entry and after every wakeup. -/
inductive Action (κ : Type u) (μ : Type v) where
  | push (msg : μ) (woken : Option κ)
  | recData (k : κ)
  | pop (k : κ)
  | spurious (k : κ)
  deriving DecidableEq

variable {κ : Type u} {μ : Type v} [DecidableEq κ]

def start (κ : Type u) (μ : Type v) : State κ μ where
  base := MessageQueue.start κ μ
  pending := ∅
  returns := []

def State.setBase (s : State κ μ) (base : MessageQueue.State κ μ) : State κ μ := { s with base }

def State.recData (cfg : Config) (s : State κ μ) (k : κ) : Option (State κ μ) :=
  match s.base.consumers k with
  | .idle =>
      if s.base.queue.empty then some { s with returns := s.returns ++ [(k, none)] }
      else
        (MessageQueue.step cfg s.base (.pop k)).map fun base =>
          { s.setBase base with pending := insert k s.pending }
  | _ => none

def State.taken (s : State κ μ) (base : MessageQueue.State κ μ) : List (Numbered μ) :=
  base.popped.drop s.base.popped.length

def step (cfg : Config) (s : State κ μ) : Action κ μ → Option (State κ μ)
  | .push msg woken => (MessageQueue.step cfg s.base (.push msg woken)).map s.setBase
  | .recData k => s.recData cfg k
  | .pop k =>
      (MessageQueue.step cfg s.base (.consumer k)).map fun base =>
        { s.setBase base with
          pending := s.pending.erase k
          returns := s.returns ++ (s.taken base).map fun msg => (k, some msg) }
  | .spurious k => (MessageQueue.step cfg s.base (.spurious k)).map s.setBase

def machine (cfg : Config) (κ : Type u) (μ : Type v) [DecidableEq κ] :
    Machine (State κ μ) (Action κ μ) where
  start := start κ μ
  step := step cfg

def pops (ks : List κ) : List (Action κ μ) := ks.map .pop

def NobodyWaits (s : State κ μ) : Prop := ∀ k, s.base.consumers k ≠ .waiting

/-- No caller waits, and none will even if no further message is received: in whatever
order the calls go on, each returns. -/
def NeverBlocks (cfg : Config) (s : State κ μ) : Prop :=
  ∀ ks s', (machine cfg κ μ).runFrom s (pops ks) = some s' → NobodyWaits s'

/-- Each message returned has been received, and no two calls have returned the same. -/
structure Exclusive (s : State κ μ) : Prop where
  once : ((s.returns.filterMap Prod.snd).map Numbered.number).Nodup
  received : ∀ msg ∈ s.returns.filterMap Prod.snd,
    (s.base.pushes[msg.number]?).map PushRecord.message = some msg.message

/-- A call finds the queue not empty although the callers behind their own test will
take all that is in it. -/
def Overdraws (s : State κ μ) : Action κ μ → Prop
  | .recData _ => s.base.queue.empty = false ∧ s.base.queue.queue.length ≤ s.pending.card
  | _ => False

structure Received (s : MessageQueue.State κ μ) : Prop where
  once : ((s.popped ++ s.queue.queue).map Numbered.number).Nodup
  genuine : ∀ msg ∈ s.popped ++ s.queue.queue,
    (s.pushes[msg.number]?).map PushRecord.message = some msg.message

structure Inv (s : State κ μ) : Prop where
  wake : WakeInv s.base
  received : Received s.base
  pending : ∀ k, k ∈ s.pending ↔ s.base.consumers k = .entering
  returned : s.returns.filterMap Prod.snd = s.base.popped

omit [DecidableEq κ] in
theorem push_sublist {cfg : Config} {q : MessageQueue μ} {msg : μ} {pushed : Pushed μ}
    (ran : q.push cfg msg = some pushed) :
    pushed.queue.queue.Sublist (q.queue ++ [msg]) := by
  rcases push_cases ran with ⟨oldest, rest, content, _, same⟩ | ⟨_, same⟩ | ⟨_, same⟩
  · rw [same, content]
    exact List.sublist_cons_self _ _
  · rw [same]
    exact List.sublist_append_left _ _
  · rw [same]

theorem push_length {cfg : Config} {q : MessageQueue μ} {msg : μ} {pushed : Pushed μ}
    (ran : q.push cfg msg = some pushed) : q.queue.length ≤ pushed.queue.queue.length := by
  rcases push_cases ran with ⟨oldest, rest, content, _, same⟩ | ⟨_, same⟩ | ⟨_, same⟩
  · simp [same, content]
  · rw [same]
  · simp [same]

namespace Received

variable {cfg : Config} {s s' : MessageQueue.State κ μ}

omit [DecidableEq κ] in
theorem start : Received (MessageQueue.start κ μ) where
  once := List.nodup_nil
  genuine := by
    intro msg member
    cases member

omit [DecidableEq κ] in
theorem push (received : Received s) {msg : μ} {pushed : Pushed (Numbered μ)} (cond : Finset κ)
    (ran : s.queue.push cfg ⟨s.pushes.length, msg⟩ = some pushed) :
    Received (s.afterPush cfg msg pushed.queue cond) := by
  have sublist := (List.Sublist.refl s.popped).append (push_sublist ran)
  rw [← List.append_assoc] at sublist
  have fresh : s.pushes.length ∉ (s.popped ++ s.queue.queue).map Numbered.number := by
    intro member
    rcases List.mem_map.mp member with ⟨old, kept, same⟩
    have genuine := received.genuine old kept
    rw [same, List.getElem?_eq_none (le_refl _)] at genuine
    cases genuine
  constructor
  · apply List.Nodup.sublist (sublist.map Numbered.number)
    rw [List.map_append]
    apply List.nodup_append.mpr
    refine ⟨received.once, List.nodup_singleton _, ?_⟩
    intro number member other single same
    rw [List.map_singleton, List.mem_singleton] at single
    rw [same, single] at member
    exact fresh member
  · intro x member
    rcases List.mem_append.mp (sublist.subset member) with old | new
    · have genuine := received.genuine x old
      rcases Option.map_eq_some_iff.mp genuine with ⟨r, found, _⟩
      have inside := (List.getElem?_eq_some_iff.mp found).1
      rw [State.afterPush, List.getElem?_append_left inside]
      exact genuine
    · rw [List.mem_singleton.mp new]
      simp [State.afterPush, State.record]

theorem step {a : MessageQueue.Action κ μ} (received : Received s)
    (taken : MessageQueue.step cfg s a = some s') : Received s' := by
  cases step_effect taken with
  | push msg woken pushed cond ran => exact received.push cond ran
  | pop k msg rest ready ran =>
      have content := (pop_cases ran).1
      have once := received.once
      have genuine := received.genuine
      rw [content] at once genuine
      exact ⟨by simpa using once, by simpa [State.setConsumer] using genuine⟩
  | other a s' queue pushes popped =>
      have once := received.once
      have genuine := received.genuine
      rw [← queue, ← popped] at once genuine
      rw [← pushes] at genuine
      exact ⟨once, genuine⟩

end Received

theorem push_effect {cfg : Config} {b b' : MessageQueue.State κ μ} {msg : μ} {woken : Option κ}
    (taken : MessageQueue.step cfg b (.push msg woken) = some b') :
    b'.consumers = b.consumers ∧ b'.popped = b.popped ∧
      b.queue.queue.length ≤ b'.queue.queue.length := by
  rcases Option.bind_eq_some_iff.mp taken with ⟨pushed, ran, rest⟩
  have longer := push_length ran
  split at rest
  · rcases Option.map_eq_some_iff.mp rest with ⟨cond, _, rfl⟩
    exact ⟨rfl, rfl, longer⟩
  · cases woken with
    | some t => cases rest
    | none =>
        cases rest
        exact ⟨rfl, rfl, longer⟩

theorem consumer_effect {cfg : Config} {b b' : MessageQueue.State κ μ} {k : κ}
    (count : b.queue.currentMessageCount = b.queue.queue.length)
    (taken : MessageQueue.step cfg b (.consumer k) = some b') :
    b.consumers k ≠ .idle ∧
      ((∃ msg, b.queue.queue = msg :: b'.queue.queue ∧ b'.popped = b.popped ++ [msg] ∧
          b'.consumers = Function.update b.consumers k .idle) ∨
        b.queue.queue = [] ∧ b'.queue = b.queue ∧ b'.popped = b.popped ∧
          b'.consumers = Function.update b.consumers k .waiting) := by
  have ran : b.consumers k ≠ .idle ∧ b.popSection k = some b' := by
    simp only [MessageQueue.step] at taken
    split at taken
    · rename_i entering
      exact ⟨by simp [entering], taken⟩
    · rename_i waiting
      split at taken
      · cases taken
      · exact ⟨by simp [waiting], taken⟩
    · cases taken
  refine ⟨ran.1, ?_⟩
  have section_ran := ran.2
  unfold State.popSection at section_ran
  split at section_ran
  · rcases Option.map_eq_some_iff.mp section_ran with ⟨⟨msg, rest⟩, popped, rfl⟩
    exact .inl ⟨msg, (pop_cases popped).1, rfl, rfl⟩
  · rename_i not_ready
    cases section_ran
    refine .inr ⟨?_, rfl, rfl, rfl⟩
    simp only [ready, decide_eq_true_eq, count] at not_ready
    exact List.length_eq_zero_iff.mp (by omega)

namespace Inv

variable {cfg : Config} {s s' : State κ μ}

omit [DecidableEq κ] in
theorem start : Inv (Polling.start κ μ) where
  wake := .start
  received := .start
  pending := by simp [Polling.start, MessageQueue.start]
  returned := rfl

omit [DecidableEq κ] in
theorem exclusive (inv : Inv s) : Exclusive s := by
  have once := inv.received.once
  rw [List.map_append] at once
  constructor
  · rw [inv.returned]
    exact (List.nodup_append.mp once).1
  · intro msg member
    rw [inv.returned] at member
    exact inv.received.genuine msg (List.mem_append_left _ member)

theorem push (inv : Inv s) {msg : μ} {woken : Option κ} {base : MessageQueue.State κ μ}
    (taken : MessageQueue.step cfg s.base (.push msg woken) = some base) :
    Inv (s.setBase base) := by
  have effect := push_effect taken
  refine ⟨inv.wake.step taken, inv.received.step taken, ?_, ?_⟩
  · simp only [State.setBase, effect.1]
    exact inv.pending
  · simp only [State.setBase, effect.2.1]
    exact inv.returned

theorem recData (inv : Inv s) {k : κ} (taken : s.recData cfg k = some s') : Inv s' := by
  unfold State.recData at taken
  split at taken
  · rename_i idle
    split at taken
    · cases taken
      exact { inv with returned := by simp [List.filterMap_append, inv.returned] }
    · rcases Option.map_eq_some_iff.mp taken with ⟨base, entered, rfl⟩
      have wake := inv.wake.step entered
      have received := inv.received.step entered
      simp only [MessageQueue.step, idle, Option.some.injEq] at entered
      subst entered
      refine ⟨wake, received, ?_, inv.returned⟩
      intro j
      simp only [State.setBase, MessageQueue.State.setConsumer, Finset.mem_insert, inv.pending]
      by_cases same : j = k
      · simp [same]
      · simp [same]
  · cases taken

theorem pop (inv : Inv s) {k : κ} (taken : step cfg s (.pop k) = some s') : Inv s' := by
  rcases Option.map_eq_some_iff.mp taken with ⟨base, ran, rfl⟩
  have effect := consumer_effect inv.wake.count ran
  refine ⟨inv.wake.step ran, inv.received.step ran, ?_, ?_⟩
  · intro j
    rcases effect.2 with ⟨_, _, _, consumers⟩ | ⟨_, _, _, consumers⟩
    all_goals
      simp only [State.setBase, consumers, Finset.mem_erase, inv.pending]
      by_cases same : j = k
      · simp [same]
      · simp [same]
  · have new : List.filterMap Prod.snd ((s.taken base).map fun msg => (k, some msg)) =
        s.taken base := by
      simp [List.filterMap_map]
    rw [List.filterMap_append, new, inv.returned, State.taken]
    rcases effect.2 with ⟨_, _, popped, _⟩ | ⟨_, _, popped, _⟩
    · simp [State.setBase, popped]
    · simp [State.setBase, popped]

theorem spurious (inv : Inv s) {k : κ} {base : MessageQueue.State κ μ}
    (taken : MessageQueue.step cfg s.base (.spurious k) = some base) :
    Inv (s.setBase base) := by
  have wake := inv.wake.step taken
  have received := inv.received.step taken
  rcases Option.map_eq_some_iff.mp taken with ⟨rest, _, rfl⟩
  exact ⟨wake, received, inv.pending, inv.returned⟩

theorem step {a : Action κ μ} (inv : Inv s) (taken : step cfg s a = some s') : Inv s' := by
  cases a with
  | push msg woken =>
      rcases Option.map_eq_some_iff.mp taken with ⟨base, ran, rfl⟩
      exact inv.push ran
  | recData k => exact inv.recData taken
  | pop k => exact inv.pop taken
  | spurious k =>
      rcases Option.map_eq_some_iff.mp taken with ⟨base, ran, rfl⟩
      exact inv.spurious ran

end Inv

structure Ample (s : State κ μ) : Prop where
  calm : NobodyWaits s
  enough : s.pending.card ≤ s.base.queue.queue.length

section Blocking

variable {cfg : Config} {s s' : State κ μ} {k : κ}

theorem pop_effect (inv : Inv s) (calm : NobodyWaits s)
    (taken : step cfg s (.pop k) = some s') :
    k ∈ s.pending ∧ s'.pending = s.pending.erase k ∧
      (s.base.queue.queue.length = s'.base.queue.queue.length + 1 ∧ NobodyWaits s' ∨
        s.base.queue.queue = [] ∧ ¬ NobodyWaits s') := by
  rcases Option.map_eq_some_iff.mp taken with ⟨base, ran, rfl⟩
  have effect := consumer_effect inv.wake.count ran
  have here : s.base.consumers k = .entering := by
    cases pc : s.base.consumers k with
    | idle => exact absurd pc effect.1
    | entering => rfl
    | waiting => exact absurd pc (calm k)
  refine ⟨(inv.pending k).mpr here, rfl, ?_⟩
  rcases effect.2 with ⟨msg, content, _, consumers⟩ | ⟨content, _, _, consumers⟩
  · refine .inl ⟨by simp [State.setBase, content], fun j => ?_⟩
    simp only [State.setBase, consumers]
    by_cases same : j = k
    · simp [same]
    · rw [Function.update_of_ne same]
      exact calm j
  · refine .inr ⟨content, fun still => still k ?_⟩
    simp [State.setBase, consumers]

theorem pop_enabled (cfg : Config) (inv : Inv s) (member : k ∈ s.pending) :
    ∃ s', step cfg s (.pop k) = some s' := by
  have here := (inv.pending k).mp member
  have count := inv.wake.count
  cases content : s.base.queue.queue with
  | nil =>
      simp [step, MessageQueue.step, here, MessageQueue.State.popSection, ready, count, content]
  | cons msg rest =>
      simp [step, MessageQueue.step, here, MessageQueue.State.popSection, ready, count, content,
        MessageQueue.pop]

theorem pop_enabled_of_short (cfg : Config) (inv : Inv s)
    (short : s.base.queue.queue.length < s.pending.card) :
    ∃ k ∈ s.pending, ∃ s', step cfg s (.pop k) = some s' := by
  have someone : 0 < s.pending.card := by omega
  rcases Finset.card_pos.mp someone with ⟨k, member⟩
  exact ⟨k, member, pop_enabled cfg inv member⟩

theorem Ample.pop (ample : Ample s) (inv : Inv s) (taken : step cfg s (.pop k) = some s') :
    Ample s' := by
  rcases pop_effect inv ample.calm taken with ⟨member, pending, shorter | ⟨empty, _⟩⟩
  · have card := Finset.card_erase_add_one member
    have enough := ample.enough
    exact ⟨shorter.2, by rw [pending]; omega⟩
  · have positive := Finset.card_pos.mpr ⟨k, member⟩
    have enough := ample.enough
    rw [empty, List.length_nil] at enough
    omega

theorem neverBlocks_of_ample (inv : Inv s) (ample : Ample s) : NeverBlocks cfg s := by
  intro ks
  induction ks generalizing s with
  | nil =>
      intro s' ran
      cases ran
      exact ample.calm
  | cons k ks ih =>
      intro s' ran
      rcases Machine.runFrom_cons_eq_some_iff.mp ran with ⟨next, moved, rest⟩
      have taken : step cfg s (.pop k) = some next := moved
      exact ih (inv.step taken) (ample.pop inv taken) s' rest

theorem neverBlocks_pop (taken : step cfg s (.pop k) = some s') (never : NeverBlocks cfg s) :
    NeverBlocks cfg s' := by
  intro ks last ran
  apply never (k :: ks)
  exact Machine.runFrom_cons_eq_some_iff.mpr ⟨s', taken, ran⟩

theorem ample_of_neverBlocks (inv : Inv s) (never : NeverBlocks cfg s) : Ample s := by
  have calm : NobodyWaits s := never [] s rfl
  refine ⟨calm, ?_⟩
  -- by induction on the messages left, each taken by one of the callers
  induction left : s.base.queue.queue.length generalizing s with
  | zero =>
      by_contra more
      rcases pop_enabled_of_short cfg inv (by omega) with ⟨k, member, next, taken⟩
      rcases pop_effect inv calm taken with ⟨_, _, shorter | ⟨_, waits⟩⟩
      · omega
      · exact waits (neverBlocks_pop taken never [] next rfl)
  | succ n ih =>
      by_contra more
      rcases pop_enabled_of_short cfg inv (by omega) with ⟨k, member, next, taken⟩
      rcases pop_effect inv calm taken with ⟨_, pending, shorter | ⟨empty, _⟩⟩
      · have card := Finset.card_erase_add_one member
        have enough := ih (inv.step taken) (neverBlocks_pop taken never) shorter.2 (by omega)
        rw [pending] at enough
        omega
      · rw [empty] at left
        cases left

theorem neverBlocks_iff (inv : Inv s) : NeverBlocks cfg s ↔ Ample s :=
  ⟨ample_of_neverBlocks inv, neverBlocks_of_ample inv⟩

/-- A step keeps enough messages unless it is a test that overdraws. -/
theorem ample_step {a : Action κ μ} (inv : Inv s) (ample : Ample s)
    (taken : step cfg s a = some s') : Ample s' ↔ ¬ Overdraws s a := by
  have calm := ample.calm
  have enough := ample.enough
  cases a with
  | push msg woken =>
      rcases Option.map_eq_some_iff.mp taken with ⟨base, ran, rfl⟩
      have effect := push_effect ran
      refine iff_of_true ⟨?_, enough.trans effect.2.2⟩ fun no => no
      rw [NobodyWaits, State.setBase, effect.1]
      exact calm
  | pop k => exact iff_of_true (ample.pop inv taken) fun no => no
  | spurious k =>
      rcases Option.map_eq_some_iff.mp taken with ⟨base, ran, rfl⟩
      rcases Option.map_eq_some_iff.mp ran with ⟨rest, woken, rfl⟩
      exact iff_of_true ⟨calm, enough⟩ fun no => no
  | recData k =>
      simp only [step, State.recData] at taken
      split at taken
      · rename_i idle
        split at taken
        · rename_i empty
          cases taken
          exact iff_of_true ⟨calm, enough⟩ fun drawn => by simp [Overdraws, empty] at drawn
        · rename_i some_left
          rcases Option.map_eq_some_iff.mp taken with ⟨base, entered, rfl⟩
          simp only [MessageQueue.step, idle, Option.some.injEq] at entered
          subst entered
          have outside : k ∉ s.pending := by
            intro member
            have entering := (inv.pending k).mp member
            rw [idle] at entering
            cases entering
          have card := Finset.card_insert_of_notMem outside
          rw [Bool.not_eq_true] at some_left
          simp only [Overdraws, some_left, true_and, Nat.not_le]
          constructor
          · intro still
            have room := still.enough
            simp only [State.setBase, MessageQueue.State.setConsumer] at room
            omega
          · intro room
            refine ⟨fun j => ?_, ?_⟩
            · simp only [State.setBase, MessageQueue.State.setConsumer]
              by_cases same : j = k
              · simp [same]
              · rw [Function.update_of_ne same]
                exact calm j
            · simp only [State.setBase, MessageQueue.State.setConsumer]
              omega
      · cases taken

end Blocking

/-- No call blocks, and what is returned goes to one caller, in just the runs in which no
call passes its test while the queue is already spoken for. -/
theorem never_blocks_iff_never_overdraws (cfg : Config) (as : List (Action κ μ)) :
    (machine cfg κ μ).AllStates (fun s => NeverBlocks cfg s ∧ Exclusive s) (start κ μ) as ↔
      (machine cfg κ μ).AllSteps (fun s a => ¬ Overdraws s a) (start κ μ) as := by
  apply Machine.allStates_iff_allSteps (I := Inv) (fun s a s' inv _ taken => inv.step taken)
  · intro s a s' inv _ good taken
    have inv' : Inv s' := inv.step taken
    rw [neverBlocks_iff inv', and_iff_left inv'.exclusive]
    exact ample_step inv ((neverBlocks_iff inv).mp good.1) taken
  · exact .start
  · refine ⟨(neverBlocks_iff .start).mpr ⟨?_, Nat.zero_le _⟩, Inv.start.exclusive⟩
    intro k
    simp [start, MessageQueue.start]
  · exact Machine.allSteps_true _ _

/-- One message, two callers that find the queue not empty. -/
def racingRun : List (Action (Fin 2) Nat) :=
  let c : Fin 2 := (Fin.last 0).castSucc
  let d : Fin 2 := Fin.last 1
  [.push 7 none, .recData c, .recData d, .pop c, .pop d]

/-- The second waits in `pop`. -/
theorem caller_waits : ∃ s, (machine ⟨1024, false⟩ (Fin 2) Nat).run racingRun = some s ∧
    s.returns = [(0, some ⟨0, 7⟩)] ∧ ¬ NobodyWaits s :=
  ⟨_, rfl, rfl, fun calm => calm 1 rfl⟩

end CommonUtils.MessageQueue.Polling
