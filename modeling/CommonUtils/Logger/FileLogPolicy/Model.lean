import CommonUtils.Library.Machine
import Mathlib.Logic.Function.Basic

/-! `FileLogPolicy`, one step for each lock taken or released, each read or write of
`current_buffer_`, each access to a buffer, to the queue or to a flag, and each
message written. -/

namespace CommonUtils.Logger.FileLogPolicy

inductive Op (μ : Type*) where
  | write (message : μ)
  | flush
  | destroy
  deriving DecidableEq

/-- Where a call is. A number is the value that `current_buffer_` had when the
step before read it. -/
inductive Pc where
  | setStop
  | readMutex
  | lockBuffer
  | select
  | pushBack (i : Nat)
  | selectSize
  | test (i : Nat)
  | lockQueue
  | readIndex
  | enqueue (i : Nat)
  | readFlag
  | clearFlag (i : Nat)
  | releaseQueue
  | nextRead
  | nextTest (i : Nat)
  | nextBound
  | nextAdd
  | nextStore (i : Nat)
  | notifyOne
  | unlockQueue
  | unlockBuffer
  | notifyAll
  | join
  | closed
  deriving DecidableEq

/-- `mutex` is the index of the buffer mutex that the call has chosen. -/
structure Call (μ : Type*) where
  op : Op μ
  mutex : Nat
  pc : Pc
  deriving DecidableEq

/-- Where `WriteToFile` is: `i` is `buffer_index`, and of the `n` messages that
buffer held when the loop over it began `k` are written. -/
inductive Writer where
  | lockQueue
  | predicate
  | sleep
  | waiting
  | testStop
  | pop
  | releaseQueue (i : Nat)
  | begin (i : Nat)
  | iterate (i k n : Nat)
  | lockBuffer (i n : Nat)
  | clear (i n : Nat)
  | setFlag (i : Nat)
  | unlockBuffer (i : Nat)
  | flushFile
  | returned
  deriving DecidableEq

inductive Owner (τ : Type*) where
  | caller (t : τ)
  | writer
  deriving DecidableEq

/-- The fields of `FileLogPolicy` with its mutexes, the messages passed to `file_ptr_->write` and
those that `flush` or `close` has brought from the buffer of the stream to the disk, the calls in
progress, the writer and, last, the messages of the `Write` calls so far, of the `push_back`s so
far and of the `Write` calls that have returned. -/
structure State (τ μ : Type*) where
  buffers : Nat → List μ
  bufferIsEmpty : Nat → Bool
  mutexBuffers : Nat → Option (Owner τ)
  mutexQueue : Option (Owner τ)
  currentBuffer : Nat
  queueBuffers : List Nat
  stopThread : Bool
  file : List μ
  disk : List μ
  callers : τ → Option (Call μ)
  writer : Writer
  written : List μ
  pushed : List μ
  returned : List μ

inductive Action (τ μ : Type*) where
  | call (t : τ) (op : Op μ)
  | caller (t : τ)
  | writer
  | spurious

def bufferCount : Nat := 16

def bufferSize : Nat := 65536

variable {τ μ : Type*}

/-- After the constructor, whose `NextBuffer` finds the first buffer empty. -/
def start (τ μ : Type*) : State τ μ where
  buffers := fun _ => []
  bufferIsEmpty := fun _ => true
  mutexBuffers := fun _ => none
  mutexQueue := none
  currentBuffer := 0
  queueBuffers := []
  stopThread := false
  file := []
  disk := []
  callers := fun _ => none
  writer := .lockQueue
  written := []
  pushed := []
  returned := []

namespace Op

def messages : Op μ → List μ
  | .write m => [m]
  | .flush | .destroy => []

def entry : Op μ → Pc
  | .destroy => .setStop
  | .write _ | .flush => .readMutex

def afterSelect : Op μ → Nat → Pc
  | .write _, i => .pushBack i
  | .flush, i | .destroy, i => .test i

/-- `Write` queues a buffer that has reached its size, `Flush` one that is not empty. -/
def queues : Op μ → List μ → Bool
  | .write _, buffer => bufferSize ≤ buffer.length
  | .flush, buffer | .destroy, buffer => !buffer.isEmpty

/-- `Write` gives `mutex_queue_` back before `NextBuffer`, `Flush` keeps it. -/
def afterClear : Op μ → Pc
  | .write _ => .releaseQueue
  | .flush | .destroy => .nextRead

def afterNotify : Op μ → Pc
  | .write _ => .unlockBuffer
  | .flush | .destroy => .unlockQueue

end Op

def Writer.notified : Writer → Writer
  | .waiting => .lockQueue
  | w => w

namespace State

variable (s : State τ μ)

def append (i : Nat) (messages : List μ) : State τ μ :=
  { s with
    buffers := Function.update s.buffers i (s.buffers i ++ messages)
    pushed := s.pushed ++ messages }

def clear (i : Nat) : State τ μ :=
  { s with buffers := Function.update s.buffers i [] }

def setFlag (i : Nat) (empty : Bool) : State τ μ :=
  { s with bufferIsEmpty := Function.update s.bufferIsEmpty i empty }

def setMutexBuffer (i : Nat) (owner : Option (Owner τ)) : State τ μ :=
  { s with mutexBuffers := Function.update s.mutexBuffers i owner }

def setMutexQueue (owner : Option (Owner τ)) : State τ μ := { s with mutexQueue := owner }

def enqueue (i : Nat) : State τ μ := { s with queueBuffers := s.queueBuffers ++ [i] }

def setCurrent (i : Nat) : State τ μ := { s with currentBuffer := i }

def setWriter (writer : Writer) : State τ μ := { s with writer := writer }

def notify : State τ μ := s.setWriter s.writer.notified

def print (message : μ) : State τ μ := { s with file := s.file ++ [message] }

def flushFile : State τ μ := { s with disk := s.file }

variable [DecidableEq τ]

def setCaller (t : τ) (call : Option (Call μ)) : State τ μ :=
  { s with callers := Function.update s.callers t call }

abbrev goto (t : τ) (call : Call μ) (pc : Pc) : State τ μ :=
  s.setCaller t (some { call with pc := pc })

def enter (t : τ) (op : Op μ) : State τ μ :=
  { s.setCaller t (some { op, mutex := 0, pc := op.entry }) with
    written := s.written ++ op.messages }

def finish (t : τ) (call : Call μ) : State τ μ :=
  let s := s.setMutexBuffer call.mutex none
  match call.op with
  | .write m => { s.setCaller t none with returned := s.returned ++ [m] }
  | .flush => s.setCaller t none
  | .destroy => s.goto t call .notifyAll

/-- The next step of a call. An access outside the 16 buffers has no outcome. -/
def callerStep (t : τ) (call : Call μ) : Option (State τ μ) :=
  match call.pc with
  | .setStop => some ({ s with stopThread := true }.goto t call .readMutex)
  | .readMutex => some (s.goto t { call with mutex := s.currentBuffer } .lockBuffer)
  | .lockBuffer =>
      if call.mutex < bufferCount ∧ s.mutexBuffers call.mutex = none then
        some ((s.setMutexBuffer call.mutex (some (.caller t))).goto t call .select)
      else none
  | .select => some (s.goto t call (call.op.afterSelect s.currentBuffer))
  | .pushBack i =>
      if i < bufferCount then some ((s.append i call.op.messages).goto t call .selectSize)
      else none
  | .selectSize => some (s.goto t call (.test s.currentBuffer))
  | .test i =>
      if i < bufferCount then
        some (s.goto t call (if call.op.queues (s.buffers i) then .lockQueue else .unlockBuffer))
      else none
  -- `Write` comes here with its buffer mutex, and so does `Flush`
  | .lockQueue =>
      if s.mutexQueue = none then
        some ((s.setMutexQueue (some (.caller t))).goto t call .readIndex)
      else none
  | .readIndex => some (s.goto t call (.enqueue s.currentBuffer))
  | .enqueue i => some ((s.enqueue i).goto t call .readFlag)
  | .readFlag => some (s.goto t call (.clearFlag s.currentBuffer))
  | .clearFlag i =>
      if i < bufferCount then some ((s.setFlag i false).goto t call call.op.afterClear)
      else none
  | .releaseQueue => some ((s.setMutexQueue none).goto t call .nextRead)
  | .nextRead => some (s.goto t call (.nextTest s.currentBuffer))
  | .nextTest i =>
      if i < bufferCount then
        some (s.goto t call (if s.bufferIsEmpty i then .notifyOne else .nextBound))
      else none
  -- the loop of `NextBuffer`: `current_buffer_` is read, compared and stored in steps of their own
  | .nextBound => some (s.goto t call (if s.currentBuffer + 1 > 15 then .nextStore 0 else .nextAdd))
  | .nextAdd => some (s.goto t call (.nextStore (s.currentBuffer + 1)))
  | .nextStore i => some ((s.setCurrent i).goto t call .nextRead)
  | .notifyOne => some (s.notify.goto t call call.op.afterNotify)
  | .unlockQueue => some ((s.setMutexQueue none).goto t call .unlockBuffer)
  | .unlockBuffer => some (s.finish t call)
  | .notifyAll => some (s.notify.goto t call .join)
  | .join => if s.writer = .returned then some (s.flushFile.goto t call .closed) else none
  | .closed => none

/-- The next step of `WriteToFile`. `wait` gives the queue mutex back as it falls
asleep and takes it again before it looks at its condition. -/
def writerStep : Option (State τ μ) :=
  match s.writer with
  | .lockQueue =>
      if s.mutexQueue = none then some ((s.setMutexQueue (some .writer)).setWriter .predicate)
      else none
  | .predicate =>
      some (s.setWriter
        (if s.queueBuffers ≠ [] ∨ s.stopThread = true then .testStop else .sleep))
  | .sleep => some ((s.setMutexQueue none).setWriter .waiting)
  | .waiting => none
  | .testStop =>
      if s.stopThread = true ∧ s.queueBuffers = [] then
        some ((s.setMutexQueue none).setWriter .returned)
      else some (s.setWriter .pop)
  | .pop =>
      match s.queueBuffers with
      | [] => none
      | i :: rest => some ({ s with queueBuffers := rest }.setWriter (.releaseQueue i))
  | .releaseQueue i => some ((s.setMutexQueue none).setWriter (.begin i))
  -- the loop over the buffer is entered without its mutex
  | .begin i =>
      if i < bufferCount then some (s.setWriter (.iterate i 0 (s.buffers i).length))
      else none
  | .iterate i k n =>
      if k < n then (s.buffers i)[k]?.map fun m => (s.print m).setWriter (.iterate i (k + 1) n)
      else some (s.setWriter (.lockBuffer i n))
  | .lockBuffer i n =>
      if s.mutexBuffers i = none then
        some ((s.setMutexBuffer i (some .writer)).setWriter (.clear i n))
      else none
  | .clear i _ => some ((s.clear i).setWriter (.setFlag i))
  | .setFlag i => some ((s.setFlag i true).setWriter (.unlockBuffer i))
  | .unlockBuffer i => some ((s.setMutexBuffer i none).setWriter .flushFile)
  | .flushFile => some (s.flushFile.setWriter .lockQueue)
  | .returned => none

end State

variable [DecidableEq τ]

def step (s : State τ μ) : Action τ μ → Option (State τ μ)
  | .call t op =>
      match s.callers t with
      | none => some (s.enter t op)
      | some _ => none
  | .caller t =>
      match s.callers t with
      | some call => s.callerStep t call
      | none => none
  | .writer => s.writerStep
  | .spurious => if s.writer = .waiting then some (s.setWriter .lockQueue) else none

def machine (τ μ : Type*) [DecidableEq τ] : Machine (State τ μ) (Action τ μ) where
  start := start τ μ
  step := step

inductive Takes (s : State τ μ) : Action τ μ → State τ μ → Prop
  | call (t : τ) (op : Op μ) (absent : s.callers t = none) : Takes s (.call t op) (s.enter t op)
  | caller {s' : State τ μ} (t : τ) (call : Call μ) (mine : s.callers t = some call)
      (taken : s.callerStep t call = some s') : Takes s (.caller t) s'
  | writer {s' : State τ μ} (taken : s.writerStep = some s') : Takes s .writer s'
  | spurious (waiting : s.writer = .waiting) : Takes s .spurious (s.setWriter .lockQueue)

theorem step_takes {s s' : State τ μ} {a : Action τ μ} (taken : step s a = some s') :
    Takes s a s' := by
  cases a with
  | call t op =>
      simp only [step] at taken
      split at taken <;> cases taken
      exact .call t op ‹_›
  | caller t =>
      simp only [step] at taken
      split at taken
      · exact .caller t _ ‹_› taken
      · cases taken
  | writer => exact .writer taken
  | spurious =>
      simp only [step] at taken
      split at taken <;> cases taken
      exact .spurious ‹_›

end CommonUtils.Logger.FileLogPolicy
