import CommonUtils.Logger.FileLogPolicy.Model
import Mathlib.Data.List.Nodup

namespace CommonUtils.Logger.FileLogPolicy

variable {τ μ : Type*}

namespace Writer

def popped : Writer → Option Nat
  | .releaseQueue i | .begin i | .iterate i _ _ | .lockBuffer i _ | .clear i _ | .setFlag i =>
      some i
  | _ => none

def done (i : Nat) : Writer → Nat
  | .iterate j k _ => if i = j then k else 0
  | .lockBuffer j n | .clear j n => if i = j then n else 0
  | _ => 0

def Fits (buffers : Nat → List μ) : Writer → Prop
  | .iterate i k n => k ≤ n ∧ n = (buffers i).length
  | .lockBuffer i n | .clear i n => n = (buffers i).length
  | .setFlag i => buffers i = []
  | _ => True

theorem done_of_not_popped {w : Writer} {i : Nat} (other : w.popped ≠ some i) : w.done i = 0 := by
  cases w with
  | iterate j k n | lockBuffer j n | clear j n =>
      have different : i ≠ j := by
        intro same
        exact other (congrArg some same.symm)
      exact if_neg different
  | _ => rfl

@[simp] theorem popped_notified (w : Writer) : w.notified.popped = w.popped := by
  cases w <;> rfl

@[simp] theorem done_notified (w : Writer) (i : Nat) : w.notified.done i = w.done i := by
  cases w <;> rfl

theorem fits_notified {w : Writer} {buffers : Nat → List μ} (fits : w.Fits buffers) :
    w.notified.Fits buffers := by
  cases w <;> exact fits

end Writer

namespace State

variable (s : State τ μ)

def busy : List Nat := s.writer.popped.toList ++ s.queueBuffers

def unwritten (i : Nat) : List μ := (s.buffers i).drop (s.writer.done i)

/-- What is still to be written: the rest of the buffer at the writer, the queued
buffers, and the current one. -/
def pending : List μ :=
  s.busy.flatMap s.unwritten ++
    if s.currentBuffer ∈ s.busy then [] else s.unwritten s.currentBuffer

def held : List μ := (List.range bufferCount).flatMap s.unwritten

end State

/-- Whether the current buffer takes messages, has just been queued but not yet
marked, or is being replaced. -/
inductive Phase where
  | ready
  | queued
  | rotating
  deriving DecidableEq

structure RingInv (phase : Phase) (s : State τ μ) : Prop where
  nodup : s.busy.Nodup
  inside : ∀ i ∈ s.busy, i < bufferCount
  current : s.currentBuffer < bufferCount
  flags : ∀ i < bufferCount, s.bufferIsEmpty i = false ↔
    i ∈ s.busy ∧ ¬ (phase = .queued ∧ i = s.currentBuffer)
  ready : phase = .ready → s.currentBuffer ∉ s.busy
  queued : phase = .queued → s.currentBuffer ∈ s.queueBuffers
  empty : ∀ i, i ∉ s.busy → ¬ (phase = .ready ∧ i = s.currentBuffer) → s.buffers i = []
  progress : s.writer.Fits s.buffers
  ledger : s.pushed = s.file ++ s.pending

namespace RingInv

theorem start : RingInv .ready (start τ μ) where
  nodup := List.nodup_nil
  inside := by intro i member; cases member
  current := Nat.zero_lt_succ 15
  flags := by simp [FileLogPolicy.start, State.busy, Writer.popped]
  ready := by simp [FileLogPolicy.start, State.busy, Writer.popped]
  queued := by intro other; cases other
  empty := by intro i _ _; rfl
  progress := trivial
  ledger := rfl

variable {phase : Phase} {s : State τ μ}

theorem popped_mem {i : Nat} (popped : s.writer.popped = some i) : i ∈ s.busy := by
  simp [State.busy, popped]

theorem unwritten_of_not_popped {i : Nat} (other : s.writer.popped ≠ some i) :
    s.unwritten i = s.buffers i := by
  rw [State.unwritten, Writer.done_of_not_popped other, List.drop_zero]

theorem unwritten_of_not_busy {i : Nat} (idle : i ∉ s.busy) : s.unwritten i = s.buffers i :=
  unwritten_of_not_popped fun popped => idle (popped_mem popped)

theorem pending_of_not_busy (idle : s.currentBuffer ∉ s.busy) :
    s.pending = s.busy.flatMap s.unwritten ++ s.buffers s.currentBuffer := by
  rw [State.pending, if_neg idle, unwritten_of_not_busy idle]

theorem pending_of_empty (empty : s.currentBuffer ∉ s.busy → s.buffers s.currentBuffer = []) :
    s.pending = s.busy.flatMap s.unwritten := by
  by_cases idle : s.currentBuffer ∈ s.busy
  · rw [State.pending, if_pos idle, List.append_nil]
  · rw [pending_of_not_busy idle, empty idle, List.append_nil]

theorem flag_iff (inv : RingInv phase s) (marked : phase ≠ .queued) {i : Nat}
    (small : i < bufferCount) : s.bufferIsEmpty i = false ↔ i ∈ s.busy := by
  rw [inv.flags i small]
  constructor
  · exact fun both => both.1
  · exact fun member => ⟨member, fun other => marked other.1⟩

theorem empty_of_turning (inv : RingInv phase s) (turning : phase ≠ .ready) {i : Nat}
    (idle : i ∉ s.busy) : s.buffers i = [] :=
  inv.empty i idle fun ready => turning ready.1

/-- The writer and the queue may change as long as the same buffers are busy, in
the same order, with the same messages left. -/
theorem relabel (inv : RingInv phase s) {w : Writer} {queue : List Nat}
    (busy : w.popped.toList ++ queue = s.busy) (done : ∀ i, w.done i = s.writer.done i)
    (fits : w.Fits s.buffers) (queued : phase = .queued → s.currentBuffer ∈ queue) :
    RingInv phase ({ s with queueBuffers := queue }.setWriter w) := by
  have busy' : ({ s with queueBuffers := queue }.setWriter w).busy = s.busy := busy
  have unwritten : ({ s with queueBuffers := queue }.setWriter w).unwritten = s.unwritten := by
    funext i
    simp only [State.unwritten, State.setWriter, done]
  have pending : ({ s with queueBuffers := queue }.setWriter w).pending = s.pending := by
    unfold State.pending
    rw [busy', unwritten]
    rfl
  refine ⟨?_, ?_, inv.current, ?_, ?_, queued, ?_, fits, ?_⟩
  · rw [busy']
    exact inv.nodup
  · rw [busy']
    exact inv.inside
  · rw [busy']
    exact inv.flags
  · rw [busy']
    exact inv.ready
  · rw [busy']
    exact inv.empty
  · rw [pending]
    exact inv.ledger

theorem move (inv : RingInv phase s) {w : Writer} (popped : w.popped = s.writer.popped)
    (done : ∀ i, w.done i = s.writer.done i) (fits : w.Fits s.buffers) :
    RingInv phase (s.setWriter w) :=
  inv.relabel (by rw [popped]; rfl) done fits inv.queued

theorem idle (inv : RingInv phase s) {w : Writer} (before : s.writer.popped = none)
    (after : w.popped = none) (fits : w.Fits s.buffers) : RingInv phase (s.setWriter w) := by
  apply inv.move (by rw [before, after]) _ fits
  intro i
  rw [Writer.done_of_not_popped (by rw [after]; simp),
    Writer.done_of_not_popped (by rw [before]; simp)]

theorem notify (inv : RingInv phase s) : RingInv phase s.notify :=
  inv.move (Writer.popped_notified _) (Writer.done_notified _) (Writer.fits_notified inv.progress)

theorem pop (inv : RingInv phase s) (marked : phase ≠ .queued) {i : Nat} {rest : List Nat}
    (writer : s.writer = .pop) (queue : s.queueBuffers = i :: rest) :
    RingInv phase ({ s with queueBuffers := rest }.setWriter (.releaseQueue i)) := by
  apply inv.relabel
  · rw [State.busy, writer, queue]
    rfl
  · intro j
    rw [writer]
    rfl
  · trivial
  · exact fun other => absurd other marked

theorem push (inv : RingInv .ready s) (messages : List μ) :
    RingInv .ready (s.append s.currentBuffer messages) := by
  have idle := inv.ready rfl
  have others : ∀ i ∈ s.busy, i ≠ s.currentBuffer := by
    intro i member same
    subst same
    exact idle member
  have unwritten : ∀ i ∈ s.busy,
      (s.append s.currentBuffer messages).unwritten i = s.unwritten i := by
    intro i member
    simp only [State.unwritten, State.append, Function.update_of_ne (others i member)]
  refine ⟨inv.nodup, inv.inside, inv.current, inv.flags, inv.ready, inv.queued, ?_, ?_, ?_⟩
  · intro i outside other
    have different : i ≠ s.currentBuffer := fun same => other ⟨rfl, same⟩
    simp only [State.append, Function.update_of_ne different]
    exact inv.empty i outside other
  · have progress := inv.progress
    cases writer : s.writer with
    | iterate j k n | lockBuffer j n | clear j n | setFlag j =>
        have different := others j (popped_mem (by rw [writer]; rfl))
        simpa only [State.append, writer, Writer.Fits, Function.update_of_ne different]
          using progress
    | _ => simp only [State.append, writer, Writer.Fits]
  · calc
      s.pushed ++ messages =
          s.file ++ (s.busy.flatMap s.unwritten ++ (s.buffers s.currentBuffer ++ messages)) := by
        rw [inv.ledger, pending_of_not_busy idle]
        simp only [List.append_assoc]
      _ = s.file ++ (s.append s.currentBuffer messages).pending := by
        rw [pending_of_not_busy (s := s.append s.currentBuffer messages) idle]
        simp only [State.append, Function.update_self]
        rw [← List.flatMap_congr unwritten]
        rfl

theorem enqueue (inv : RingInv .ready s) : RingInv .queued (s.enqueue s.currentBuffer) := by
  have idle := inv.ready rfl
  have busy : (s.enqueue s.currentBuffer).busy = s.busy ++ [s.currentBuffer] :=
    (List.append_assoc _ _ _).symm
  have member : ∀ i, i ∈ (s.enqueue s.currentBuffer).busy ↔ i ∈ s.busy ∨ i = s.currentBuffer := by
    intro i
    rw [busy, List.mem_append, List.mem_singleton]
  refine ⟨?_, ?_, inv.current, ?_, ?_, ?_, ?_, inv.progress, ?_⟩
  · rw [busy, List.nodup_append]
    refine ⟨inv.nodup, List.nodup_singleton _, ?_⟩
    intro i inside j single same
    rw [List.mem_singleton] at single
    rw [same, single] at inside
    exact idle inside
  · intro i inside
    rcases (member i).mp inside with old | now
    · exact inv.inside i old
    · rw [now]
      exact inv.current
  · intro i small
    have unmarked := inv.flag_iff (by decide) small
    rw [member]
    constructor
    · intro marked
      have old := unmarked.mp marked
      refine ⟨.inl old, fun same => ?_⟩
      rw [same.2] at old
      exact idle old
    · intro marked
      exact unmarked.mpr (marked.1.resolve_right fun same => marked.2 ⟨rfl, same⟩)
  · intro other
    cases other
  · intro _
    exact List.mem_append_right _ (List.mem_singleton_self _)
  · intro i outside _
    rw [member, not_or] at outside
    exact inv.empty i outside.1 fun same => outside.2 same.2
  · calc
      s.pushed = s.file ++ (s.busy.flatMap s.unwritten ++ s.unwritten s.currentBuffer) := by
        rw [inv.ledger, pending_of_not_busy idle, unwritten_of_not_busy idle]
      _ = s.file ++ (s.enqueue s.currentBuffer).pending := by
        rw [pending_of_empty (s := s.enqueue s.currentBuffer) fun outside =>
          absurd ((member _).mpr (.inr rfl)) outside, busy, List.flatMap_append,
          List.flatMap_singleton]
        rfl

theorem clearFlag (inv : RingInv .queued s) :
    RingInv .rotating (s.setFlag s.currentBuffer false) := by
  refine ⟨inv.nodup, inv.inside, inv.current, ?_, ?_, ?_, ?_, inv.progress, inv.ledger⟩
  · intro i small
    have unmarked := inv.flags i small
    by_cases same : i = s.currentBuffer
    · subst same
      have member : s.currentBuffer ∈ s.busy := List.mem_append_right _ (inv.queued rfl)
      simp only [State.setFlag, Function.update_self, true_iff]
      exact ⟨member, fun other => by cases other.1⟩
    · simp only [State.setFlag, Function.update_of_ne same]
      rw [unmarked]
      constructor
      · exact fun both => ⟨both.1, fun other => by cases other.1⟩
      · exact fun both => ⟨both.1, fun other => same other.2⟩
  · intro other
    cases other
  · intro other
    cases other
  · intro i outside _
    exact inv.empty_of_turning (by decide) outside

theorem setCurrent (inv : RingInv .rotating s) {i : Nat} (small : i < bufferCount) :
    RingInv .rotating (s.setCurrent i) := by
  refine ⟨inv.nodup, inv.inside, small, ?_, ?_, ?_, ?_, inv.progress, ?_⟩
  · intro j inside
    have unmarked := inv.flag_iff (by decide) inside
    exact ⟨fun flag => ⟨unmarked.mp flag, fun other => by cases other.1⟩,
      fun both => unmarked.mpr both.1⟩
  · intro other
    cases other
  · intro other
    cases other
  · intro j outside _
    exact inv.empty_of_turning (by decide) outside
  · have empty : ∀ j, j ∉ s.busy → s.buffers j = [] :=
      fun j outside => inv.empty_of_turning (by decide) outside
    rw [pending_of_empty (s := s.setCurrent i) (empty i)]
    have ledger := inv.ledger
    rw [pending_of_empty (empty _)] at ledger
    exact ledger

theorem settle (inv : RingInv .rotating s) (vacant : s.bufferIsEmpty s.currentBuffer = true) :
    RingInv .ready s := by
  have idle : s.currentBuffer ∉ s.busy := by
    intro member
    rw [← inv.flag_iff (by decide) inv.current, vacant] at member
    cases member
  refine ⟨inv.nodup, inv.inside, inv.current, ?_, fun _ => idle, ?_, ?_, inv.progress, inv.ledger⟩
  · intro i small
    rw [inv.flag_iff (by decide) small]
    exact ⟨fun member => ⟨member, fun other => by cases other.1⟩, fun both => both.1⟩
  · intro other
    cases other
  · intro i outside _
    exact inv.empty_of_turning (by decide) outside

theorem busy_of_popped {i : Nat} (popped : s.writer.popped = some i) :
    s.busy = i :: s.queueBuffers := by
  rw [State.busy, popped]
  rfl

theorem print (inv : RingInv phase s) {i k n : Nat} {m : μ} (writer : s.writer = .iterate i k n)
    (more : k < n) (found : (s.buffers i)[k]? = some m) :
    RingInv phase ((s.print m).setWriter (.iterate i (k + 1) n)) := by
  have popped : s.writer.popped = some i := by rw [writer]; rfl
  have busy : ((s.print m).setWriter (.iterate i (k + 1) n)).busy = s.busy :=
    (busy_of_popped popped).symm
  have others : ∀ j, j ≠ i →
      ((s.print m).setWriter (.iterate i (k + 1) n)).unwritten j = s.unwritten j := by
    intro j different
    simp only [State.unwritten, State.setWriter, State.print, writer, Writer.done, if_neg different]
  have first : s.unwritten i =
      m :: ((s.print m).setWriter (.iterate i (k + 1) n)).unwritten i := by
    rcases List.getElem?_eq_some_iff.mp found with ⟨inside, same⟩
    simp only [State.unwritten, State.setWriter, State.print, writer, Writer.done, if_pos]
    rw [List.drop_eq_getElem_cons inside, same]
  have queue : s.queueBuffers.flatMap s.unwritten =
      s.queueBuffers.flatMap ((s.print m).setWriter (.iterate i (k + 1) n)).unwritten := by
    apply List.flatMap_congr
    intro j member
    have nodup := inv.nodup
    rw [busy_of_popped popped, List.nodup_cons] at nodup
    exact (others j fun same => nodup.1 (same ▸ member)).symm
  have current : (if s.currentBuffer ∈ s.busy then [] else s.unwritten s.currentBuffer) =
      if s.currentBuffer ∈ s.busy then []
      else ((s.print m).setWriter (.iterate i (k + 1) n)).unwritten s.currentBuffer := by
    split
    · rfl
    · rename_i outside
      rw [others]
      intro same
      rw [same] at outside
      exact outside (popped_mem popped)
  have progress := inv.progress
  rw [writer] at progress
  refine ⟨?_, ?_, inv.current, ?_, ?_, inv.queued, ?_, ⟨more, progress.2⟩, ?_⟩
  · rw [busy]
    exact inv.nodup
  · rw [busy]
    exact inv.inside
  · rw [busy]
    exact inv.flags
  · rw [busy]
    exact inv.ready
  · rw [busy]
    exact inv.empty
  · have ledger := inv.ledger
    rw [State.pending, current, busy_of_popped popped, List.flatMap_cons, first, queue] at ledger
    rw [State.pending, busy, busy_of_popped popped, List.flatMap_cons]
    simp only [List.append_assoc, List.cons_append] at ledger
    simp only [State.setWriter, State.print, List.append_assoc, List.singleton_append] at ledger ⊢
    exact ledger

theorem clear (inv : RingInv phase s) {i n : Nat} (writer : s.writer = .clear i n) :
    RingInv phase ((s.clear i).setWriter (.setFlag i)) := by
  have popped : s.writer.popped = some i := by rw [writer]; rfl
  have busy : ((s.clear i).setWriter (.setFlag i)).busy = s.busy := (busy_of_popped popped).symm
  have progress := inv.progress
  rw [writer] at progress
  have unwritten : ((s.clear i).setWriter (.setFlag i)).unwritten = s.unwritten := by
    funext j
    simp only [State.unwritten, State.setWriter, State.clear, writer, Writer.done]
    by_cases same : j = i
    · subst same
      simp only [Function.update_self, List.drop_nil, if_pos]
      rw [progress, List.drop_length]
    · rw [Function.update_of_ne same, if_neg same]
  have pending : ((s.clear i).setWriter (.setFlag i)).pending = s.pending := by
    unfold State.pending
    rw [busy, unwritten]
    rfl
  refine ⟨?_, ?_, inv.current, ?_, ?_, inv.queued, ?_, Function.update_self _ _ _, ?_⟩
  · rw [busy]
    exact inv.nodup
  · rw [busy]
    exact inv.inside
  · rw [busy]
    exact inv.flags
  · rw [busy]
    exact inv.ready
  · intro j outside other
    rw [busy] at outside
    have different : j ≠ i := fun same => outside (same ▸ popped_mem popped)
    simp only [State.setWriter, State.clear, Function.update_of_ne different]
    exact inv.empty j outside other
  · rw [pending]
    exact inv.ledger

theorem setFlag (inv : RingInv phase s) {i : Nat} (writer : s.writer = .setFlag i) :
    RingInv phase ((s.setFlag i true).setWriter (.unlockBuffer i)) := by
  have popped : s.writer.popped = some i := by rw [writer]; rfl
  have busy := busy_of_popped popped
  have busy' : ((s.setFlag i true).setWriter (.unlockBuffer i)).busy = s.queueBuffers := rfl
  have nodup := inv.nodup
  rw [busy, List.nodup_cons] at nodup
  have empty : s.buffers i = [] := by
    have progress := inv.progress
    rwa [writer] at progress
  have member : ∀ j, j ≠ i → (j ∈ s.queueBuffers ↔ j ∈ s.busy) := by
    intro j different
    simp [busy, different]
  refine ⟨?_, ?_, inv.current, ?_, ?_, inv.queued, ?_, trivial, ?_⟩
  · rw [busy']
    exact nodup.2
  · intro j inside
    exact inv.inside j (List.mem_append_right _ inside)
  · intro j small
    rw [busy']
    by_cases same : j = i
    · subst same
      simp [State.setFlag, State.setWriter, nodup.1]
    · simp only [State.setFlag, State.setWriter, Function.update_of_ne same, member j same]
      exact inv.flags j small
  · intro ready inside
    exact inv.ready ready (List.mem_append_right _ inside)
  · intro j outside other
    by_cases same : j = i
    · subst same
      exact empty
    · rw [busy', member j same] at outside
      exact inv.empty j outside other
  · have unwritten : ((s.setFlag i true).setWriter (.unlockBuffer i)).unwritten = s.unwritten := by
      funext j
      simp only [State.unwritten, State.setWriter, State.setFlag, writer, Writer.done]
    have nothing : s.unwritten i = [] := by simp [State.unwritten, empty]
    have ledger := inv.ledger
    rw [State.pending, busy, List.flatMap_cons, nothing, List.nil_append] at ledger
    rw [State.pending, busy', unwritten]
    simp only [State.setWriter, State.setFlag] at ledger ⊢
    rw [ledger]
    by_cases same : s.currentBuffer = i
    · simp [same, nothing]
    · by_cases queued : s.currentBuffer ∈ s.queueBuffers
      · simp [queued]
      · simp [same, queued]

end RingInv

end CommonUtils.Logger.FileLogPolicy
