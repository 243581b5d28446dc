import CommonUtils.Library.Machine

/-! The write path of `Session`. A step is a critical section of `writeMutex_`, the
transport moving bytes of an outstanding `async_write`, or `Close`. A completion
handler never runs inside the call that starts its operation. -/

namespace CommonUtils.TCP.SessionWrite

abbrev Data := List UInt8

/-- An `async_write` whose handler has not run. Its buffer is the memory of the
element of `writeQueue_` that `slot` elements were popped before. -/
structure WriteOp where
  slot : Nat
  buffer : Data
  transferred : Nat
  deriving DecidableEq

/-- The session, the bytes the peer was sent and, last, what has happened so far:
the data of `SentData` calls in the order they took the mutex, the data of the
writes that succeeded, the number of writes started, and that number as it was
when the first error was handled. -/
structure State where
  writeQueue : List Data
  lastActiveTime : Int
  socketOpen : Bool
  outstanding : List WriteOp
  wire : Data
  popped : Nat
  sent : List Data
  completed : List Data
  started : Nat
  failedAt : Option Nat
  deriving DecidableEq

inductive Action where
  | sentData (data : Data)
  | transfer (op count : Nat)
  | asyncWrite (op : Nat) (success : Bool) (now : Int)
  | close
  deriving DecidableEq

def start (now : Int) : State where
  writeQueue := []
  lastActiveTime := now
  socketOpen := true
  outstanding := []
  wire := []
  popped := 0
  sent := []
  completed := []
  started := 0
  failedAt := none

namespace State

variable (s : State)

/-- `DoWrite`. `none` is `front()` on an empty container. -/
def doWrite : Option State :=
  match s.writeQueue with
  | [] => none
  | front :: _ =>
      some { s with
        outstanding := s.outstanding ++ [⟨s.popped, front, 0⟩]
        started := s.started + 1 }

def sentData (data : Data) : Option State :=
  let writeInProgress := !s.writeQueue.isEmpty
  let queued := { s with writeQueue := s.writeQueue ++ [data], sent := s.sent ++ [data] }
  if writeInProgress then some queued else queued.doWrite

def close : State := { s with socketOpen := false }

/-- The handler without an error; `none` is `pop_front` on an empty container. -/
def writeSucceeded (now : Int) : Option State :=
  match s.writeQueue with
  | [] => none
  | _ :: rest =>
      let shorter := { s with writeQueue := rest, popped := s.popped + 1 }
      if rest.isEmpty then some shorter
      else shorter.doWrite.map fun writing => { writing with lastActiveTime := now }

def writeFailed : State :=
  { s.close with failedAt := s.failedAt.or (some s.started) }

end State

def step (s : State) : Action → Option State
  | .sentData data => s.sentData data
  | .transfer i count =>
      match s.outstanding[i]? with
      | none => none
      | some op =>
          if s.socketOpen ∧ op.transferred + count ≤ op.buffer.length then
            some { s with
              outstanding := s.outstanding.set i { op with transferred := op.transferred + count }
              wire := s.wire ++ (op.buffer.drop op.transferred).take count }
          else none
  | .asyncWrite i success now =>
      match s.outstanding[i]? with
      | none => none
      | some op =>
          let ended := { s with outstanding := s.outstanding.eraseIdx i }
          if success then
            if op.transferred = op.buffer.length then
              State.writeSucceeded { ended with completed := s.completed ++ [op.buffer] } now
            else none
          else some ended.writeFailed
  | .close => some s.close

def machine (now : Int) : Machine State Action where
  start := start now
  step := step

inductive InFlight (s : State) : Prop
  | nothing (idle : s.outstanding = []) (empty : s.writeQueue = []) (live : s.failedAt = none)
      (wire : s.wire = s.completed.flatten)
  | writing (front : Data) (rest : List Data) (transferred : Nat)
      (queue : s.writeQueue = front :: rest) (op : s.outstanding = [⟨s.popped, front, transferred⟩])
      (inside : transferred ≤ front.length) (live : s.failedAt = none)
      (wire : s.wire = s.completed.flatten ++ front.take transferred)
  | failed (front : Data) (rest : List Data) (transferred : Nat)
      (queue : s.writeQueue = front :: rest) (idle : s.outstanding = [])
      (closed : s.failedAt = some s.started)
      (wire : s.wire = s.completed.flatten ++ front.take transferred)

structure Inv (s : State) : Prop where
  fifo : s.completed ++ s.writeQueue = s.sent
  inFlight : InFlight s

namespace Inv

theorem start (now : Int) : Inv (SessionWrite.start now) where
  fifo := rfl
  inFlight := .nothing rfl rfl rfl rfl

variable {s s' : State}

theorem sentData (inv : Inv s) {data : Data} (ran : s.sentData data = some s') : Inv s' := by
  have fifo : s.completed ++ (s.writeQueue ++ [data]) = s.sent ++ [data] := by
    rw [← List.append_assoc, inv.fifo]
  rcases inv.inFlight with ⟨idle, empty, live, wire⟩ |
    ⟨front, rest, transferred, queue, op, inside, live, wire⟩ |
    ⟨front, rest, transferred, queue, idle, closed, wire⟩
  · simp only [State.sentData, State.doWrite, empty] at ran
    cases ran
    refine ⟨by simpa [empty] using fifo, ?_⟩
    exact .writing data [] 0 rfl (by simp [idle]) (Nat.zero_le _) live (by simpa using wire)
  · simp only [State.sentData, queue] at ran
    cases ran
    refine ⟨by simpa [queue] using fifo, ?_⟩
    exact .writing front (rest ++ [data]) transferred rfl op inside live wire
  · simp only [State.sentData, queue] at ran
    cases ran
    refine ⟨by simpa [queue] using fifo, ?_⟩
    exact .failed front (rest ++ [data]) transferred rfl idle closed wire

theorem transfer (inv : Inv s) {i count : Nat} (ran : step s (.transfer i count) = some s') :
    Inv s' := by
  rcases inv.inFlight with ⟨idle, empty, live, wire⟩ |
    ⟨front, rest, transferred, queue, op, inside, live, wire⟩ |
    ⟨front, rest, transferred, queue, idle, closed, wire⟩
  · simp [step, idle] at ran
  · cases i with
    | succ i => simp [step, op] at ran
    | zero =>
        simp only [step, op, List.getElem?_cons_zero, List.set_cons_zero] at ran
        split at ran
        · rename_i bounds
          cases ran
          refine ⟨inv.fifo, .writing front rest (transferred + count) queue rfl bounds.2 live ?_⟩
          simp only [wire, List.append_assoc, List.take_add]
        · cases ran
  · simp [step, idle] at ran

theorem asyncWrite (inv : Inv s) {i : Nat} {success : Bool} {now : Int}
    (ran : step s (.asyncWrite i success now) = some s') : Inv s' := by
  rcases inv.inFlight with ⟨idle, empty, live, wire⟩ |
    ⟨front, rest, transferred, queue, op, inside, live, wire⟩ |
    ⟨front, rest, transferred, queue, idle, closed, wire⟩
  · simp [step, idle] at ran
  · have fifo := inv.fifo
    cases i with
    | succ i => simp [step, op] at ran
    | zero =>
        cases success with
        | false =>
            simp only [step, op, List.getElem?_cons_zero, Bool.false_eq_true, ↓reduceIte] at ran
            cases ran
            exact ⟨fifo, .failed front rest transferred queue rfl
              (by simp [State.writeFailed, State.close, live]) wire⟩
        | true =>
            simp only [step, op, List.getElem?_cons_zero, ↓reduceIte] at ran
            split at ran
            · rename_i whole
              have wire' : s.wire = (s.completed ++ [front]).flatten := by
                simp [wire, whole]
              have fifo' : (s.completed ++ [front]) ++ rest = s.sent := by
                rw [queue] at fifo
                simpa using fifo
              cases rest with
              | nil =>
                  simp only [State.writeSucceeded, queue] at ran
                  cases ran
                  exact ⟨fifo', .nothing rfl rfl live wire'⟩
              | cons next later =>
                  simp only [State.writeSucceeded, State.doWrite, queue] at ran
                  cases ran
                  exact ⟨fifo', .writing next later 0 rfl rfl (Nat.zero_le _) live
                    (by simpa using wire')⟩
            · cases ran
  · simp [step, idle] at ran

theorem step {a : Action} (inv : Inv s) (taken : SessionWrite.step s a = some s') : Inv s' := by
  cases a with
  | sentData data => exact inv.sentData taken
  | transfer i count => exact inv.transfer taken
  | asyncWrite i success now => exact inv.asyncWrite taken
  | close =>
      cases taken
      refine ⟨inv.fifo, ?_⟩
      rcases inv.inFlight with ⟨idle, empty, live, wire⟩ |
        ⟨front, rest, transferred, queue, op, inside, live, wire⟩ |
        ⟨front, rest, transferred, queue, idle, closed, wire⟩
      · exact .nothing idle empty live wire
      · exact .writing front rest transferred queue op inside live wire
      · exact .failed front rest transferred queue idle closed wire

end Inv

structure FifoWrites (s : State) : Prop where
  single : s.outstanding.length ≤ 1
  front : ∀ op ∈ s.outstanding, op.slot = s.popped ∧ s.writeQueue.head? = some op.buffer
  fifo : s.completed ++ s.writeQueue = s.sent
  wire : s.wire <+: s.sent.flatten
  busy : s.failedAt = none → (s.outstanding ≠ [] ↔ s.writeQueue ≠ [])
  silent : ∀ count, s.failedAt = some count → s.started = count
  defined : (∀ data, (step s (.sentData data)).isSome) ∧
    ∀ i now op, s.outstanding[i]? = some op → op.transferred = op.buffer.length →
      (step s (.asyncWrite i true now)).isSome

theorem Inv.wire_prefix {s : State} (inv : Inv s) : s.wire <+: s.sent.flatten := by
  rw [← inv.fifo, List.flatten_append]
  rcases inv.inFlight with ⟨idle, empty, live, wire⟩ |
    ⟨front, rest, transferred, queue, op, inside, live, wire⟩ |
    ⟨front, rest, transferred, queue, idle, closed, wire⟩
  · rw [wire]
    exact List.prefix_append _ _
  · rw [wire, queue, List.flatten_cons, List.prefix_append_right_inj]
    exact (List.take_prefix _ _).trans (List.prefix_append _ _)
  · rw [wire, queue, List.flatten_cons, List.prefix_append_right_inj]
    exact (List.take_prefix _ _).trans (List.prefix_append _ _)

theorem sentData_defined (s : State) (data : Data) : (step s (.sentData data)).isSome := by
  cases queue : s.writeQueue <;> simp [step, State.sentData, State.doWrite, queue]

theorem Inv.success_defined {s : State} (inv : Inv s) {i : Nat} {op : WriteOp} (now : Int)
    (present : s.outstanding[i]? = some op) (whole : op.transferred = op.buffer.length) :
    (SessionWrite.step s (.asyncWrite i true now)).isSome := by
  have pending : s.writeQueue ≠ [] := by
    rcases inv.inFlight with ⟨idle, _, _, _⟩ | ⟨_, _, _, queue, _, _, _, _⟩ |
      ⟨_, _, _, queue, _, _, _⟩
    · simp [idle] at present
    · simp [queue]
    · simp [queue]
  rcases List.exists_cons_of_ne_nil pending with ⟨front, rest, queue⟩
  cases rest <;>
    simp [SessionWrite.step, present, whole, State.writeSucceeded, State.doWrite, queue]

theorem fifo_writes (now : Int) (s : State) (reached : (machine now).Reachable s) :
    FifoWrites s := by
  have inv : Inv s := reached.invariant (.start now) fun _ _ _ inv _ taken => inv.step taken
  have fifo := inv.fifo
  have wire := inv.wire_prefix
  rcases inv.inFlight with ⟨idle, empty, live, _⟩ |
    ⟨front, rest, transferred, queue, op, _, live, _⟩ |
    ⟨front, rest, transferred, queue, idle, closed, _⟩
  · exact ⟨by simp [idle], by simp [idle], fifo, wire, by simp [idle, empty], by simp [live],
      sentData_defined s, fun _ now _ => inv.success_defined now⟩
  · exact ⟨by simp [op], by simp [op, queue], fifo, wire, by simp [op, queue], by simp [live],
      sentData_defined s, fun _ now _ => inv.success_defined now⟩
  · exact ⟨by simp [idle], by simp [idle], fifo, wire, by simp [closed], by simp [closed],
      sentData_defined s, fun _ now _ => inv.success_defined now⟩

def failingRun : List Action :=
  [.sentData [1, 2], .sentData [3, 4], .transfer 0 2, .asyncWrite 0 true 5, .transfer 0 1, .close,
    .asyncWrite 0 false 6, .sentData [7]]

theorem fifo_writes_failing :
    ∃ s, s.wire = [1, 2, 3] ∧ s.writeQueue = [[3, 4], [7]] ∧ FifoWrites s :=
  ⟨_, rfl, rfl, fifo_writes 0 _ (Machine.reachable_of_run failingRun rfl)⟩

end CommonUtils.TCP.SessionWrite
