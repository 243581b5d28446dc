import CommonUtils.Library.Machine
import CommonUtils.Network.Router
import Mathlib.Data.List.Nodup

/-! `HTTPServer` with its acceptor, its one thread and the sessions of its clients. An
operation is pending until it completes, and its handler is run by the thread in the order
of the completions. The routes are registered before the server is started. -/

namespace CommonUtils.Network.HTTPS

/-- An operation holds the session that it was begun by. -/
inductive Operation (κ : Type) where
  | accept
  | read (client : κ)
  | write (client : κ)
  deriving DecidableEq

inductive Completion (κ : Type) where
  | accepted (client : κ)
  | acceptFailed
  | read (client : κ) (req : HTTPRequest)
  | readFailed (client : κ) (endOfStream : Bool)
  | written (client : κ) (failed : Bool)
  deriving DecidableEq

/-- Where `ioThread_` is; `accepting` is at the end of the handler of an accept. -/
inductive Thread (κ : Type) where
  | absent
  | polling
  | running (completion : Completion κ)
  | accepting
  | finished
  deriving DecidableEq

inductive Control where
  | idle
  | starting
  | stopping
  | joining
  | destroyed
  deriving DecidableEq

/-- `stopped` is of the context, `served` are the responses given to `async_write`, and
`terminated` says that `std::terminate` has been called. -/
structure State (κ : Type) where
  isRunning : Bool
  stopped : Bool
  thread : Thread κ
  control : Control
  pending : List (Operation κ)
  queue : List (Completion κ)
  connected : κ → Bool
  isOpen : κ → Bool
  served : List (κ × HTTPRequest × HTTPResponse)
  terminated : Bool

/-- `take` takes a completion out of the queue, and `handle` runs its handler. -/
inductive Action (κ : Type) where
  | start
  | doAccept
  | stop
  | stopContext
  | join
  | destroy
  | connect (client : κ)
  | acceptFailed
  | arrive (client : κ) (req : HTTPRequest)
  | readFailed (client : κ) (endOfStream : Bool)
  | sent (client : κ) (failed : Bool)
  | take
  | handle
  | again
  | exit

def fresh (κ : Type) : State κ where
  isRunning := false
  stopped := false
  thread := .absent
  control := .idle
  pending := []
  queue := []
  connected := fun _ => false
  isOpen := fun _ => false
  served := []
  terminated := false

/-- What `Session::RequestHandler` sends; nothing where the handler or `prepare_payload`
throws. -/
def respond {η : Type} (preparePayload : HTTPResponse → Option HTTPResponse) (router : Router η)
    (call : η → HTTPRequest → HTTPResponse → Option HTTPResponse) (req : HTTPRequest) :
    Option HTTPResponse :=
  match router.handleRequest preparePayload req okResponse with
  | .invoked handler => (call handler req okResponse).bind preparePayload
  | .answered response => response.bind preparePayload

section Step

variable {κ : Type} [DecidableEq κ]

namespace State

variable (s : State κ)

def setOpen (client : κ) (open_ : Bool) : State κ :=
  { s with isOpen := Function.update s.isOpen client open_ }

/-- The destructor of a session closes its socket, if `Close` has not. -/
def release (client : κ) : State κ := s.setOpen client false

def begin_ (operation : Operation κ) : State κ :=
  { s with pending := s.pending ++ [operation] }

def complete (operation : Operation κ) (completion : Completion κ) : Option (State κ) :=
  if operation ∈ s.pending then
    some { s with
      pending := s.pending.erase operation
      queue := s.queue ++ [completion] }
  else none

def run (answer : HTTPRequest → Option HTTPResponse) : Completion κ → State κ
  | .accepted client => { s.begin_ (.read client) with thread := .accepting }
  | .acceptFailed => { s with thread := .accepting }
  | .read client req =>
      match answer req with
      | some response =>
          { s.begin_ (.write client) with
            served := s.served ++ [(client, req, response)], thread := .polling }
      | none => { s with terminated := true }
  | .readFailed client endOfStream =>
      let closed := if endOfStream then s else s.setOpen client false
      { closed.release client with thread := .polling }
  | .written client _ =>
      { (s.setOpen client false).release client with thread := .polling }

end State

open State Registration

def step (answer : HTTPRequest → Option HTTPResponse) (s : State κ) (a : Action κ) :
    Option (State κ) :=
  if s.terminated then none
  else match a with
    | .start =>
        if s.control ≠ .idle then none
        -- a thread that is joinable must not be assigned to
        else if s.thread ≠ .absent then some { s with isRunning := true, terminated := true }
        else some { s with isRunning := true, thread := .polling, control := .starting }
    | .doAccept =>
        if s.control = .starting then some { s.begin_ .accept with control := .idle } else none
    | .stop =>
        if s.control = .idle then some { s with isRunning := false, control := .stopping }
        else none
    | .stopContext =>
        if s.control = .stopping then some { s with stopped := true, control := .joining }
        else none
    | .join =>
        if s.control = .joining ∧ (s.thread = .absent ∨ s.thread = .finished) then
          some { s with thread := .absent, control := .idle }
        else none
    | .destroy =>
        if s.control ≠ .idle then none
        else if s.thread ≠ .absent then some { s with terminated := true }
        else some { s with
          control := .destroyed
          pending := []
          queue := []
          isOpen := fun _ => false }
    | .connect client =>
        if s.connected client then none
        else ({ s.setOpen client true with
          connected := Function.update s.connected client true }).complete .accept
            (.accepted client)
    | .acceptFailed => s.complete .accept .acceptFailed
    | .arrive client req => s.complete (.read client) (.read client req)
    | .readFailed client endOfStream => s.complete (.read client) (.readFailed client endOfStream)
    | .sent client failed => s.complete (.write client) (.written client failed)
    | .take =>
        match s.queue with
        | [] => none
        | completion :: queue =>
            -- a context that has been stopped gives out no handler
            if s.thread = .polling ∧ s.stopped = false then
              some { s with queue := queue, thread := .running completion }
            else none
    | .handle =>
        match s.thread with
        | .running completion => some (s.run answer completion)
        | _ => none
    | .again =>
        if s.thread = .accepting then
          some { if s.isRunning then s.begin_ .accept else s with thread := .polling }
        else none
    | .exit =>
        if s.thread = .polling ∧ s.stopped then some { s with thread := .finished } else none

def machine (κ : Type) [DecidableEq κ] (answer : HTTPRequest → Option HTTPResponse) :
    Machine (State κ) (Action κ) where
  start := fresh κ
  step := step answer

section Invariants

variable {answer : HTTPRequest → Option HTTPResponse} {s s' : State κ}

def Completion.awaits (client : κ) : Completion κ → Bool
  | .accepted other | .read other _ | .readFailed other _ => other = client
  | _ => false

def Completion.replies (client : κ) : Completion κ → Bool
  | .written other _ => other = client
  | _ => false

def Completion.accepts : Completion κ → Bool
  | .accepted _ | .acceptFailed => true
  | _ => false

def Thread.inHand : Thread κ → List (Completion κ)
  | .running completion => [completion]
  | _ => []

namespace State

def completed (s : State κ) : List (Completion κ) := s.thread.inHand ++ s.queue

def awaiting (s : State κ) (client : κ) : Nat :=
  s.pending.count (.read client) + s.completed.countP (Completion.awaits client)

def replying (s : State κ) (client : κ) : Nat :=
  s.pending.count (.write client) + s.completed.countP (Completion.replies client)

/-- How often an accept is in hand: begun, completed, being handled, or about to be begun by
`Start`. -/
def accepting (s : State κ) : Nat :=
  s.pending.count .accept + s.completed.countP Completion.accepts +
    (if s.thread = .accepting then 1 else 0) + (if s.control = .starting then 1 else 0)

def servedCount (s : State κ) (client : κ) : Nat := s.served.countP (·.1 = client)

end State

/-- Everything a step can do, one case for each outcome. -/
inductive Takes (answer : HTTPRequest → Option HTTPResponse) (s : State κ) :
    Action κ → State κ → Prop
  | start (idle : s.control = .idle) (absent : s.thread = .absent) : Takes answer s .start
      { s with isRunning := true, thread := .polling, control := .starting }
  | startAgain (joinable : s.thread ≠ .absent) :
      Takes answer s .start { s with isRunning := true, terminated := true }
  | doAccept (starting : s.control = .starting) :
      Takes answer s .doAccept { s.begin_ .accept with control := .idle }
  | stop (idle : s.control = .idle) :
      Takes answer s .stop { s with isRunning := false, control := .stopping }
  | stopContext (stopping : s.control = .stopping) :
      Takes answer s .stopContext { s with stopped := true, control := .joining }
  | join (joining : s.control = .joining) (ended : s.thread = .absent ∨ s.thread = .finished) :
      Takes answer s .join { s with thread := .absent, control := .idle }
  | destroy (absent : s.thread = .absent) : Takes answer s .destroy { s with
      control := .destroyed
      pending := []
      queue := []
      isOpen := fun _ => false }
  | destroyJoinable (joinable : s.thread ≠ .absent) :
      Takes answer s .destroy { s with terminated := true }
  | connect (client : κ) (s' : State κ) (first : s.connected client = false)
      (completed : ({ s.setOpen client true with
        connected := Function.update s.connected client true }).complete .accept
          (.accepted client) = some s') : Takes answer s (.connect client) s'
  | acceptFailed (s' : State κ) (completed : s.complete .accept .acceptFailed = some s') :
      Takes answer s .acceptFailed s'
  | arrive (client : κ) (req : HTTPRequest) (s' : State κ)
      (completed : s.complete (.read client) (.read client req) = some s') :
      Takes answer s (.arrive client req) s'
  | readFailed (client : κ) (endOfStream : Bool) (s' : State κ)
      (completed : s.complete (.read client) (.readFailed client endOfStream) = some s') :
      Takes answer s (.readFailed client endOfStream) s'
  | sent (client : κ) (failed : Bool) (s' : State κ)
      (completed : s.complete (.write client) (.written client failed) = some s') :
      Takes answer s (.sent client failed) s'
  | take (completion : Completion κ) (queue : List (Completion κ))
      (first : s.queue = completion :: queue) (polling : s.thread = .polling)
      (live : s.stopped = false) :
      Takes answer s .take { s with queue := queue, thread := .running completion }
  | handle (completion : Completion κ) (hand : s.thread = .running completion) :
      Takes answer s .handle (s.run answer completion)
  | again (accepts : s.thread = .accepting) : Takes answer s .again
      { if s.isRunning then s.begin_ .accept else s with thread := .polling }
  | exit (polling : s.thread = .polling) (stopped : s.stopped = true) :
      Takes answer s .exit { s with thread := .finished }

theorem step_takes {a : Action κ} (taken : step answer s a = some s') :
    s.terminated = false ∧ Takes answer s a s' := by
  unfold step at taken
  split at taken
  · cases taken
  refine ⟨Bool.eq_false_iff.mpr ‹_›, ?_⟩
  cases a with
  | start =>
      dsimp only at taken
      split at taken
      · cases taken
      · rename_i idle
        split at taken <;> cases taken
        · exact .startAgain ‹_›
        · rename_i absent
          exact .start (Classical.not_not.mp idle) (Classical.not_not.mp absent)
  | doAccept =>
      dsimp only at taken
      split at taken <;> cases taken
      exact .doAccept ‹_›
  | stop =>
      dsimp only at taken
      split at taken <;> cases taken
      exact .stop ‹_›
  | stopContext =>
      dsimp only at taken
      split at taken <;> cases taken
      exact .stopContext ‹_›
  | join =>
      dsimp only at taken
      split at taken <;> cases taken
      rename_i joins
      exact .join joins.1 joins.2
  | destroy =>
      dsimp only at taken
      split at taken
      · cases taken
      · split at taken <;> cases taken
        · exact .destroyJoinable ‹_›
        · rename_i absent
          exact .destroy (Classical.not_not.mp absent)
  | connect client =>
      dsimp only at taken
      split at taken
      · cases taken
      · exact .connect client s' (Bool.eq_false_iff.mpr ‹_›) taken
  | acceptFailed => exact .acceptFailed s' taken
  | arrive client req => exact .arrive client req s' taken
  | readFailed client endOfStream => exact .readFailed client endOfStream s' taken
  | sent client failed => exact .sent client failed s' taken
  | take =>
      dsimp only at taken
      split at taken
      · cases taken
      · rename_i completion queue first
        split at taken <;> cases taken
        rename_i free
        exact .take completion queue first free.1 free.2
  | handle =>
      dsimp only at taken
      split at taken <;> cases taken
      exact .handle _ ‹_›
  | again =>
      dsimp only at taken
      split at taken <;> cases taken
      exact .again ‹_›
  | exit =>
      dsimp only at taken
      split at taken <;> cases taken
      rename_i leaves
      exact .exit leaves.1 leaves.2

theorem complete_spec {operation : Operation κ} {completion : Completion κ}
    (taken : s.complete operation completion = some s') :
    ∃ rest, s.pending.Perm (operation :: rest) ∧
      s' = { s with pending := rest, queue := s.queue ++ [completion] } := by
  unfold complete at taken
  split at taken
  · rename_i member
    cases taken
    exact ⟨_, List.perm_cons_erase member, rfl⟩
  · cases taken

theorem complete_counts {operation : Operation κ} {completion : Completion κ}
    (taken : s.complete operation completion = some s') (client : κ) :
    s'.awaiting client + (if operation = .read client then 1 else 0) =
        s.awaiting client + (if completion.awaits client then 1 else 0) ∧
      s'.replying client + (if operation = .write client then 1 else 0) =
        s.replying client + (if completion.replies client then 1 else 0) := by
  rcases complete_spec taken with ⟨rest, perm, same⟩
  subst same
  have read := perm.count_eq (.read client)
  have write := perm.count_eq (.write client)
  rw [List.count_cons] at read write
  simp only [awaiting, replying, completed, List.countP_append, List.countP_singleton, read, write,
    beq_iff_eq]
  omega

theorem complete_frame {operation : Operation κ} {completion : Completion κ}
    (taken : s.complete operation completion = some s') :
    s'.isOpen = s.isOpen ∧ s'.connected = s.connected ∧ s'.served = s.served := by
  rcases complete_spec taken with ⟨rest, perm, same⟩
  subst same
  exact ⟨rfl, rfl, rfl⟩

theorem complete_accepting {operation : Operation κ} {completion : Completion κ}
    (taken : s.complete operation completion = some s')
    (accepts : completion.accepts ↔ operation = .accept) : s'.accepting = s.accepting := by
  rcases complete_spec taken with ⟨rest, perm, same⟩
  subst same
  have count := perm.count_eq .accept
  rw [List.count_cons] at count
  simp only [accepting, completed, List.countP_append, List.countP_singleton, count, beq_iff_eq,
    accepts]
  omega

structure Served (answer : HTTPRequest → Option HTTPResponse) (s : State κ) : Prop where
  held : ∀ client, s.awaiting client + s.replying client = (s.isOpen client).toNat
  once : ∀ client, s.servedCount client + s.awaiting client ≤ 1
  replies : ∀ client, s.replying client ≤ s.servedCount client
  fresh : ∀ client, s.connected client = false →
    s.isOpen client = false ∧ s.servedCount client = 0
  responses : ∀ entry ∈ s.served, answer entry.2.1 = some entry.2.2

theorem Served.of_same (served : Served answer s)
    (awaiting : ∀ client, s'.awaiting client = s.awaiting client)
    (replying : ∀ client, s'.replying client = s.replying client)
    (isOpen : s'.isOpen = s.isOpen) (connected : s'.connected = s.connected)
    (same : s'.served = s.served) : Served answer s' := by
  have count : ∀ client, s'.servedCount client = s.servedCount client := by
    intro client
    rw [servedCount, servedCount, same]
  constructor
  · intro client
    rw [awaiting, replying, isOpen]
    exact served.held client
  · intro client
    rw [awaiting, count]
    exact served.once client
  · intro client
    rw [replying, count]
    exact served.replies client
  · intro client
    rw [connected, isOpen, count]
    exact served.fresh client
  · rw [same]
    exact served.responses

theorem Served.of_quiet (served : Served answer s) (completed : s'.completed = s.completed)
    (pending : s'.pending = s.pending ∨ s'.pending = s.pending ++ [.accept])
    (isOpen : s'.isOpen = s.isOpen) (connected : s'.connected = s.connected)
    (same : s'.served = s.served) : Served answer s' := by
  have count : ∀ operation ≠ Operation.accept,
      s'.pending.count operation = s.pending.count operation := by
    intro operation other
    rcases pending with kept | begun
    · rw [kept]
    · rw [begun, List.count_append, List.count_singleton, if_neg, Nat.add_zero]
      simpa using other.symm
  refine served.of_same (fun client => ?_) (fun client => ?_) isOpen connected same
  · rw [awaiting, awaiting, completed, count (.read client) (by simp)]
  · rw [replying, replying, completed, count (.write client) (by simp)]

theorem Served.complete (served : Served answer s) {operation : Operation κ}
    {completion : Completion κ} (taken : s.complete operation completion = some s')
    (awaits : ∀ client, completion.awaits client ↔ operation = .read client)
    (replies : ∀ client, completion.replies client ↔ operation = .write client) :
    Served answer s' := by
  rcases complete_frame taken with ⟨isOpen, connected, same⟩
  have kept : ∀ client, s'.awaiting client = s.awaiting client ∧
      s'.replying client = s.replying client := by
    intro client
    have counts := complete_counts taken client
    simp only [awaits client, replies client] at counts
    omega
  exact served.of_same (fun client => (kept client).1) (fun client => (kept client).2) isOpen
    connected same

theorem Served.connect (served : Served answer s) {client : κ}
    (first : s.connected client = false)
    (taken : ({ s.setOpen client true with
      connected := Function.update s.connected client true }).complete .accept
        (.accepted client) = some s') : Served answer s' := by
  rcases complete_frame taken with ⟨isOpen, connected, same⟩
  rcases served.fresh client first with ⟨closed, unserved⟩
  have counts : ∀ other, s'.awaiting other = s.awaiting other +
      (if client = other then 1 else 0) ∧ s'.replying other = s.replying other := by
    intro other
    have counts := complete_counts taken other
    simp only [reduceCtorEq, if_false, Completion.awaits, Completion.replies,
      decide_eq_true_eq, Bool.false_eq_true] at counts
    exact counts
  have count : ∀ other, s'.servedCount other = s.servedCount other := by
    intro other
    rw [servedCount, servedCount, same]
    rfl
  constructor
  · intro other
    have held := served.held other
    rw [(counts other).1, (counts other).2, isOpen]
    by_cases here : client = other
    · subst here
      rw [closed] at held
      simp only [setOpen, Function.update_self, if_true, Bool.toNat_true, Bool.toNat_false]
        at held ⊢
      omega
    · simp only [setOpen, Function.update_of_ne (Ne.symm here), here, if_false]
      exact held
  · intro other
    have once := served.once other
    have held := served.held other
    rw [(counts other).1, count]
    by_cases here : client = other
    · subst here
      rw [closed] at held
      simp only [if_true, Bool.toNat_false] at held ⊢
      omega
    · simp only [here, if_false]
      exact once
  · intro other
    rw [(counts other).2, count]
    exact served.replies other
  · intro other unconnected
    rw [connected] at unconnected
    by_cases here : client = other
    · subst here
      simp at unconnected
    · have unconnected : s.connected other = false := by
        simpa [Function.update_of_ne (Ne.symm here)] using unconnected
      rw [isOpen, count]
      simpa [setOpen, Function.update_of_ne (Ne.symm here)] using served.fresh other unconnected
  · rw [same]
    exact served.responses

theorem Served.close (served : Served answer s) {client : κ}
    (connected : s'.connected = s.connected) (same : s'.served = s.served)
    (isOpen : s'.isOpen = Function.update s.isOpen client false)
    (counts : ∀ other, s'.awaiting other + s'.replying other + (if client = other then 1 else 0) =
      s.awaiting other + s.replying other ∧ s'.awaiting other ≤ s.awaiting other ∧
      s'.replying other ≤ s.replying other) : Served answer s' := by
  have count : ∀ other, s'.servedCount other = s.servedCount other := by
    intro other
    rw [servedCount, servedCount, same]
  constructor
  · intro other
    have counts := counts other
    have held := served.held other
    rw [isOpen]
    by_cases here : client = other
    · subst here
      have most := Bool.toNat_le (s.isOpen client)
      simp only [if_true, Function.update_self, Bool.toNat_false] at counts ⊢
      omega
    · simp only [here, if_false, Function.update_of_ne (Ne.symm here)] at counts ⊢
      omega
  · intro other
    have counts := counts other
    have once := served.once other
    rw [count]
    omega
  · intro other
    have counts := counts other
    have replies := served.replies other
    rw [count]
    omega
  · intro other unconnected
    rw [connected] at unconnected
    rcases served.fresh other unconnected with ⟨closed, unserved⟩
    rw [isOpen, count]
    refine ⟨?_, unserved⟩
    by_cases here : client = other
    · subst here
      exact Function.update_self _ _ _
    · rw [Function.update_of_ne (Ne.symm here)]
      exact closed
  · rw [same]
    exact served.responses

theorem Served.reply (served : Served answer s) {client : κ} {req : HTTPRequest}
    {response : HTTPResponse} (responds : answer req = some response)
    (connected : s'.connected = s.connected) (isOpen : s'.isOpen = s.isOpen)
    (same : s'.served = s.served ++ [(client, req, response)])
    (counts : ∀ other, s'.awaiting other + (if client = other then 1 else 0) = s.awaiting other ∧
      s'.replying other = s.replying other + (if client = other then 1 else 0)) :
    Served answer s' := by
  have count : ∀ other, s'.servedCount other = s.servedCount other +
      (if client = other then 1 else 0) := by
    intro other
    rw [servedCount, servedCount, same, List.countP_append, List.countP_singleton]
    simp only [decide_eq_true_eq]
  constructor
  · intro other
    have counts := counts other
    have held := served.held other
    rw [isOpen]
    omega
  · intro other
    have counts := counts other
    have once := served.once other
    rw [count]
    omega
  · intro other
    have counts := counts other
    have replies := served.replies other
    rw [count]
    omega
  · intro other unconnected
    rw [connected] at unconnected
    rcases served.fresh other unconnected with ⟨closed, unserved⟩
    have counts := counts other
    have held := served.held other
    rw [closed, Bool.toNat_false] at held
    rw [isOpen, count]
    exact ⟨closed, by omega⟩
  · rw [same]
    intro entry inside
    rcases List.mem_append.mp inside with old | new
    · exact served.responses entry old
    · rw [List.mem_singleton.mp new]
      exact responds

theorem Served.destroyed (served : Served answer s) (absent : s.thread = .absent) :
    Served answer { s with
      control := .destroyed
      pending := []
      queue := []
      isOpen := fun _ => false } := by
  have none : ∀ client, State.awaiting { s with
      control := .destroyed, pending := [], queue := [], isOpen := fun _ => false } client = 0 ∧
        State.replying { s with
          control := .destroyed, pending := [], queue := [], isOpen := fun _ => false }
            client = 0 := by
    intro client
    simp [awaiting, replying, completed, absent, Thread.inHand]
  constructor
  · intro client
    rw [(none client).1, (none client).2]
    rfl
  · intro client
    rw [(none client).1]
    exact Nat.le_trans (Nat.le_add_right _ _) (served.once client)
  · intro client
    rw [(none client).2]
    exact Nat.zero_le _
  · exact fun client unconnected => ⟨rfl, (served.fresh client unconnected).2⟩
  · exact served.responses

omit [DecidableEq κ] in
theorem inHand_eq_singleton {thread : Thread κ} {completion : Completion κ}
    (hand : thread.inHand = [completion]) : thread = .running completion := by
  cases thread with
  | running other =>
      cases hand
      rfl
  | absent | polling | accepting | finished => cases hand

omit [DecidableEq κ] in
theorem completed_take {completion : Completion κ} {queue : List (Completion κ)}
    (first : s.queue = completion :: queue) (polling : s.thread = .polling) :
    State.completed { s with queue := queue, thread := .running completion } = s.completed := by
  rw [completed, completed, first, polling]
  rfl

theorem Served.run (served : Served answer s) {completion : Completion κ}
    (hand : s.thread = .running completion)
    (alive : (s.run answer completion).terminated = false) :
    Served answer (s.run answer completion) := by
  have taken : s.completed = completion :: s.queue := by
    rw [completed, hand]
    rfl
  have awaiting : ∀ client, s.awaiting client =
      s.pending.count (.read client) + (s.queue.countP (Completion.awaits client) +
        if completion.awaits client then 1 else 0) := by
    intro client
    rw [State.awaiting, taken, List.countP_cons]
  have replying : ∀ client, s.replying client =
      s.pending.count (.write client) + (s.queue.countP (Completion.replies client) +
        if completion.replies client then 1 else 0) := by
    intro client
    rw [State.replying, taken, List.countP_cons]
  cases completion with
  | accepted client =>
      refine served.of_same (fun other => ?_) (fun other => ?_) rfl rfl rfl
      · rw [awaiting, State.awaiting]
        simp only [State.run, begin_, completed, Thread.inHand, List.nil_append, List.count_append,
          List.count_singleton, Completion.awaits, decide_eq_true_eq, beq_iff_eq,
          Operation.read.injEq]
        omega
      · rw [replying, State.replying]
        simp [State.run, begin_, completed, Thread.inHand, Completion.replies]
  | acceptFailed =>
      refine served.of_same (fun other => ?_) (fun other => ?_) rfl rfl rfl
      · rw [awaiting, State.awaiting]
        simp [State.run, completed, Thread.inHand, Completion.awaits]
      · rw [replying, State.replying]
        simp [State.run, completed, Thread.inHand, Completion.replies]
  | read client req =>
      cases responds : answer req with
      | none =>
          simp only [State.run, responds] at alive
          cases alive
      | some response =>
          simp only [State.run, responds]
          refine served.reply responds rfl rfl rfl fun other => ?_
          rw [awaiting, replying, State.awaiting, State.replying]
          simp only [begin_, completed, Thread.inHand, List.nil_append, List.count_append,
            List.count_singleton, Completion.awaits, Completion.replies, decide_eq_true_eq,
            beq_iff_eq, Operation.write.injEq, reduceCtorEq, if_false, Bool.false_eq_true]
          omega
  | readFailed client endOfStream =>
      have isOpen : (s.run answer (.readFailed client endOfStream)).isOpen =
          Function.update s.isOpen client false := by
        cases endOfStream with
        | true => rfl
        | false => exact Function.update_idem _ _ _
      refine served.close ?_ ?_ isOpen fun other => ?_
      · cases endOfStream <;> rfl
      · cases endOfStream <;> rfl
      · rw [awaiting, replying, State.awaiting, State.replying]
        cases endOfStream <;>
          simp only [State.run, release, setOpen, completed, Thread.inHand, List.nil_append,
            Completion.awaits, Completion.replies, decide_eq_true_eq, if_true, if_false,
            Bool.false_eq_true] <;>
          omega
  | written client failed =>
      have isOpen : (s.run answer (.written client failed)).isOpen =
          Function.update s.isOpen client false := Function.update_idem _ _ _
      refine served.close rfl rfl isOpen fun other => ?_
      rw [awaiting, replying, State.awaiting, State.replying]
      simp only [State.run, release, setOpen, completed, Thread.inHand, List.nil_append,
        Completion.awaits, Completion.replies, decide_eq_true_eq, if_false, Bool.false_eq_true]
      omega

structure Listening (s : State κ) : Prop where
  absent : s.thread = .absent → s.isRunning = false ∧ s.control ≠ .starting ∧
    (s.stopped = false → s.accepting = 0)
  halting : s.control ≠ .idle → s.control ≠ .starting → s.isRunning = false
  joining : s.control = .joining → s.stopped
  finished : s.thread = .finished → s.stopped
  most : s.stopped = false → s.accepting ≤ 1
  running : s.isRunning → 1 ≤ s.accepting

theorem Listening.of_same (listening : Listening s) (accepting : s'.accepting = s.accepting)
    (thread : s'.thread = s.thread) (control : s'.control = s.control)
    (isRunning : s'.isRunning = s.isRunning) (stopped : s'.stopped = s.stopped) :
    Listening s' := by
  constructor
  · rw [thread, control, isRunning, stopped, accepting]
    exact listening.absent
  · rw [control, isRunning]
    exact listening.halting
  · rw [control, stopped]
    exact listening.joining
  · rw [thread, stopped]
    exact listening.finished
  · rw [accepting, stopped]
    exact listening.most
  · rw [accepting, isRunning]
    exact listening.running

theorem Listening.complete (listening : Listening s) {operation : Operation κ}
    {completion : Completion κ} (taken : s.complete operation completion = some s')
    (accepts : completion.accepts ↔ operation = .accept) : Listening s' := by
  have count := complete_accepting taken accepts
  rcases complete_spec taken with ⟨rest, perm, same⟩
  subst same
  exact listening.of_same count rfl rfl rfl rfl

omit [DecidableEq κ] in
theorem completed_of_inHand {thread : Thread κ} (before : s.thread.inHand = [])
    (after : thread.inHand = []) : State.completed { s with thread := thread } = s.completed := by
  rw [completed, completed, before, after]

theorem Served.step (served : Served answer s) {a : Action κ}
    (taken : step answer s a = some s') (alive : s'.terminated = false) :
    Served answer s' := by
  cases (step_takes taken).2 with
  | startAgain | destroyJoinable => cases alive
  | start idle absent =>
      have none : s.thread.inHand = [] := by
        rw [absent]
        rfl
      exact served.of_quiet (completed_of_inHand none rfl) (.inl rfl) rfl rfl rfl
  | doAccept starting => exact served.of_quiet rfl (.inr rfl) rfl rfl rfl
  | stop idle | stopContext stopping => exact served.of_quiet rfl (.inl rfl) rfl rfl rfl
  | join joining ended =>
      have none : s.thread.inHand = [] := by
        rcases ended with absent | finished
        · rw [absent]
          rfl
        · rw [finished]
          rfl
      exact served.of_quiet (completed_of_inHand none rfl) (.inl rfl) rfl rfl rfl
  | destroy absent => exact served.destroyed absent
  | connect client _ first completed => exact served.connect first completed
  | acceptFailed _ completed | arrive client req _ completed
  | readFailed client endOfStream _ completed | sent client failed _ completed =>
      exact served.complete completed (by simp [Completion.awaits]) (by simp [Completion.replies])
  | take completion queue first polling live =>
      exact served.of_quiet (completed_take first polling) (.inl rfl) rfl rfl rfl
  | handle completion hand => exact served.run hand alive
  | again accepts =>
      have none : s.thread.inHand = [] := by
        rw [accepts]
        rfl
      have same : State.completed { s with thread := .polling } = s.completed :=
        completed_of_inHand none rfl
      split
      · exact served.of_quiet same (.inr rfl) rfl rfl rfl
      · exact served.of_quiet same (.inl rfl) rfl rfl rfl
  | exit polling stopped =>
      have none : s.thread.inHand = [] := by
        rw [polling]
        rfl
      exact served.of_quiet (completed_of_inHand none rfl) (.inl rfl) rfl rfl rfl

theorem Listening.start (listening : Listening s) (idle : s.control = .idle)
    (absent : s.thread = .absent) :
    Listening { s with isRunning := true, thread := .polling, control := .starting } := by
  have count : State.accepting
      { s with isRunning := true, thread := .polling, control := .starting } =
        s.accepting + 1 := by
    simp [accepting, completed, Thread.inHand, idle, absent]
  constructor
  · exact fun none => by cases none
  · exact fun _ other => absurd rfl other
  · exact fun joins => by cases joins
  · exact fun finished => by cases finished
  · intro unstopped
    rw [count, (listening.absent absent).2.2 unstopped]
  · intro _
    rw [count]
    exact Nat.le_add_left 1 _

theorem Listening.doAccept (listening : Listening s) (starting : s.control = .starting) :
    Listening { s.begin_ .accept with control := .idle } := by
  have count : State.accepting { s.begin_ .accept with control := .idle } = s.accepting := by
    simp only [accepting, completed, begin_, starting, List.count_append, List.count_singleton,
      beq_self_eq_true, if_true, reduceCtorEq, if_false]
    omega
  constructor
  · exact fun absent => absurd starting (listening.absent absent).2.1
  · exact fun other => absurd rfl other
  · exact fun joins => by cases joins
  · exact listening.finished
  · exact fun unstopped => count.trans_le (listening.most unstopped)
  · exact fun running => count.symm ▸ listening.running running

theorem Listening.of_working (listening : Listening s)
    (working : s'.thread ≠ .absent ∧ s'.thread ≠ .finished) (control : s'.control = s.control)
    (isRunning : s'.isRunning = s.isRunning) (stopped : s'.stopped = s.stopped)
    (most : s.stopped = false → s'.accepting ≤ 1) (running : s.isRunning → 1 ≤ s'.accepting) :
    Listening s' := by
  constructor
  · exact fun absent => absurd absent working.1
  · rw [control, isRunning]
    exact listening.halting
  · rw [control, stopped]
    exact listening.joining
  · exact fun finished => absurd finished working.2
  · rw [stopped]
    exact most
  · rw [isRunning]
    exact running

theorem Listening.of_count (listening : Listening s) (accepting : s'.accepting = s.accepting)
    (working : s'.thread ≠ .absent ∧ s'.thread ≠ .finished) (control : s'.control = s.control)
    (isRunning : s'.isRunning = s.isRunning) (stopped : s'.stopped = s.stopped) :
    Listening s' :=
  listening.of_working working control isRunning stopped
    (fun unstopped => accepting.trans_le (listening.most unstopped))
    fun running => accepting.symm ▸ listening.running running

theorem Listening.take (listening : Listening s) {completion : Completion κ}
    {queue : List (Completion κ)} (first : s.queue = completion :: queue)
    (polling : s.thread = .polling) :
    Listening { s with queue := queue, thread := .running completion } := by
  refine listening.of_count ?_ ⟨by simp, by simp⟩ rfl rfl rfl
  rw [accepting, accepting, completed_take first polling, polling]
  simp

theorem Listening.run (listening : Listening s) {completion : Completion κ}
    (hand : s.thread = .running completion)
    (alive : (s.run answer completion).terminated = false) :
    Listening (s.run answer completion) := by
  have before : s.accepting = s.pending.count .accept + (s.queue.countP Completion.accepts +
      (if completion.accepts then 1 else 0)) + (if s.control = .starting then 1 else 0) := by
    have taken : s.completed = completion :: s.queue := by
      rw [completed, hand]
      rfl
    rw [accepting, taken, List.countP_cons, hand]
    simp
  have working : ∀ {s' : State κ}, s'.accepting = s.accepting →
      s'.thread = .polling ∨ s'.thread = .accepting → s'.control = s.control →
      s'.isRunning = s.isRunning → s'.stopped = s.stopped → Listening s' := by
    intro s' count thread
    apply listening.of_count count
    rcases thread with polling | accepting
    · rw [polling]
      exact ⟨by simp, by simp⟩
    · rw [accepting]
      exact ⟨by simp, by simp⟩
  cases completion with
  | accepted client =>
      refine working ?_ (.inr rfl) rfl rfl rfl
      rw [before]
      by_cases starting : s.control = .starting <;>
        simp [State.run, accepting, completed, Thread.inHand, begin_, Completion.accepts,
          starting] <;> omega
  | acceptFailed =>
      refine working ?_ (.inr rfl) rfl rfl rfl
      rw [before]
      by_cases starting : s.control = .starting <;>
        simp [State.run, accepting, completed, Thread.inHand, Completion.accepts, starting] <;>
        omega
  | read client req =>
      cases responds : answer req with
      | none =>
          simp only [State.run, responds] at alive
          cases alive
      | some response =>
          simp only [State.run, responds]
          refine working ?_ (.inl rfl) rfl rfl rfl
          rw [before]
          by_cases starting : s.control = .starting <;>
            simp [accepting, completed, Thread.inHand, begin_, Completion.accepts, starting]
  | readFailed client endOfStream =>
      cases endOfStream <;>
        · refine working ?_ (.inl rfl) rfl rfl rfl
          rw [before]
          simp [State.run, accepting, completed, Thread.inHand, release, setOpen,
            Completion.accepts]
  | written client failed =>
      refine working ?_ (.inl rfl) rfl rfl rfl
      rw [before]
      simp [State.run, accepting, completed, Thread.inHand, release, setOpen, Completion.accepts]

theorem Listening.again (listening : Listening s) (accepts : s.thread = .accepting) :
    Listening { if s.isRunning then s.begin_ .accept else s with thread := .polling } := by
  have before : s.accepting = s.pending.count .accept + s.queue.countP Completion.accepts + 1 +
      (if s.control = .starting then 1 else 0) := by
    rw [accepting, completed, accepts, if_pos rfl]
    rfl
  cases running : s.isRunning with
  | true =>
      have count : State.accepting { s.begin_ .accept with thread := .polling } =
          s.accepting := by
        rw [before]
        by_cases starting : s.control = .starting <;>
          simp [accepting, completed, Thread.inHand, begin_, starting] <;> omega
      rw [if_pos rfl]
      exact listening.of_count count ⟨by simp, by simp⟩ rfl rfl rfl
  | false =>
      have count : State.accepting { s with thread := .polling } + 1 = s.accepting := by
        rw [before]
        by_cases starting : s.control = .starting <;>
          simp [accepting, completed, Thread.inHand, starting]
      rw [if_neg Bool.false_ne_true]
      refine listening.of_working ⟨by simp, by simp⟩ rfl rfl rfl ?_ ?_
      · intro unstopped
        exact (Nat.le_of_succ_le (Nat.le_of_eq count)).trans (listening.most unstopped)
      · intro runs
        rw [running] at runs
        cases runs

theorem Listening.stop (listening : Listening s) (idle : s.control = .idle) :
    Listening { s with isRunning := false, control := .stopping } := by
  have count : State.accepting { s with isRunning := false, control := .stopping } =
      s.accepting := by
    simp [accepting, completed, idle]
  constructor
  · intro absent
    refine ⟨rfl, Control.noConfusion, fun unstopped => ?_⟩
    rw [count]
    exact (listening.absent absent).2.2 unstopped
  · exact fun _ _ => rfl
  · exact fun joins => by cases joins
  · exact listening.finished
  · exact fun unstopped => count.trans_le (listening.most unstopped)
  · exact fun running => by cases running

theorem Listening.stopContext (listening : Listening s) (stopping : s.control = .stopping) :
    Listening { s with stopped := true, control := .joining } := by
  have halted : s.isRunning = false := by
    apply listening.halting
    · rw [stopping]
      exact Control.noConfusion
    · rw [stopping]
      exact Control.noConfusion
  constructor
  · exact fun _ => ⟨halted, Control.noConfusion, fun unstopped => by cases unstopped⟩
  · exact fun _ _ => halted
  · exact fun _ => rfl
  · exact fun _ => rfl
  · exact fun unstopped => by cases unstopped
  · exact fun running => by cases halted.symm.trans running

theorem Listening.join (listening : Listening s) (joining : s.control = .joining) :
    Listening { s with thread := .absent, control := .idle } := by
  have halted : s.isRunning = false := by
    apply listening.halting
    · rw [joining]
      exact Control.noConfusion
    · rw [joining]
      exact Control.noConfusion
  have stopped : s.stopped = true := listening.joining joining
  have live : ∀ {p : Prop}, s.stopped = false → p := fun unstopped => by
    cases stopped.symm.trans unstopped
  constructor
  · exact fun _ => ⟨halted, Control.noConfusion, live⟩
  · exact fun other => absurd rfl other
  · exact fun joins => by cases joins
  · exact fun finished => by cases finished
  · exact live
  · exact fun running => by cases halted.symm.trans running

theorem Listening.destroy (listening : Listening s) (absent : s.thread = .absent) :
    Listening { s with
      control := .destroyed
      pending := []
      queue := []
      isOpen := fun _ => false } := by
  have halted : s.isRunning = false := (listening.absent absent).1
  have count : State.accepting { s with
      control := .destroyed
      pending := []
      queue := []
      isOpen := fun _ => false } = 0 := by
    simp [accepting, completed, Thread.inHand, absent]
  constructor
  · exact fun _ => ⟨halted, Control.noConfusion, fun _ => count⟩
  · exact fun _ _ => halted
  · exact fun joins => by cases joins
  · exact fun finished => by cases absent.symm.trans finished
  · exact fun _ => count.trans_le (Nat.zero_le 1)
  · exact fun running => by cases halted.symm.trans running

theorem Listening.exit (listening : Listening s) (polling : s.thread = .polling)
    (stopped : s.stopped) : Listening { s with thread := .finished } := by
  have count : State.accepting { s with thread := .finished } = s.accepting := by
    simp [accepting, completed, Thread.inHand, polling]
  constructor
  · exact fun absent => by cases absent
  · exact listening.halting
  · exact listening.joining
  · exact fun _ => stopped
  · exact fun unstopped => by cases unstopped.symm.trans stopped
  · exact fun running => count.symm ▸ listening.running running

theorem Listening.step (listening : Listening s) {a : Action κ}
    (taken : step answer s a = some s') (alive : s'.terminated = false) :
    Listening s' := by
  cases (step_takes taken).2 with
  | startAgain | destroyJoinable => cases alive
  | start idle absent => exact listening.start idle absent
  | doAccept starting => exact listening.doAccept starting
  | stop idle => exact listening.stop idle
  | stopContext stopping => exact listening.stopContext stopping
  | join joining ended => exact listening.join joining
  | destroy absent => exact listening.destroy absent
  | connect client _ first completed =>
      have opened : Listening { s.setOpen client true with
          connected := Function.update s.connected client true } :=
        listening.of_same rfl rfl rfl rfl rfl
      exact opened.complete completed (by simp [Completion.accepts])
  | acceptFailed _ completed | arrive client req _ completed
  | readFailed client endOfStream _ completed | sent client failed _ completed =>
      exact listening.complete completed (by simp [Completion.accepts])
  | take completion queue first polling live => exact listening.take first polling
  | handle completion hand => exact listening.run hand alive
  | again accepts => exact listening.again accepts
  | exit polling stopped => exact listening.exit polling stopped

/-- What a server that has been stopped has answered since. -/
def LastAnswer (s s' : State κ) : Prop :=
  s'.served = s.served ∨ ∃ client req response, s.thread = .running (.read client req) ∧
    s'.served = s.served ++ [(client, req, response)]

/-- A context that has been stopped gives out no handler, and nothing restarts it: what is
left to answer is the request whose handler has begun. -/
theorem step_stopped {a : Action κ} (stopped : s.stopped = true)
    (taken : step answer s a = some s') :
    s'.stopped = true ∧
      (s'.thread.inHand = s.thread.inHand ∧ s'.served = s.served ∨
        s'.thread.inHand = [] ∧ LastAnswer s s') := by
  have completes : ∀ {t : State κ} {operation completion}, t.stopped = true →
      t.thread = s.thread → t.served = s.served → t.complete operation completion = some s' →
      s'.stopped = true ∧ (s'.thread.inHand = s.thread.inHand ∧ s'.served = s.served ∨
        s'.thread.inHand = [] ∧ LastAnswer s s') := by
    intro t operation completion stopped thread same taken
    rcases complete_spec taken with ⟨rest, -, found⟩
    rw [found]
    exact ⟨stopped, .inl ⟨congrArg Thread.inHand thread, same⟩⟩
  cases (step_takes taken).2 with
  | startAgain | doAccept | stop | destroy | destroyJoinable =>
      exact ⟨stopped, .inl ⟨rfl, rfl⟩⟩
  | stopContext stopping => exact ⟨rfl, .inl ⟨rfl, rfl⟩⟩
  | start | join | exit => exact ⟨stopped, .inr ⟨rfl, .inl rfl⟩⟩
  | connect client _ first completed =>
      refine completes ?_ ?_ ?_ completed
      · exact stopped
      · rfl
      · rfl
  | acceptFailed _ completed | arrive client req _ completed
  | readFailed client endOfStream _ completed | sent client failed _ completed =>
      exact completes stopped rfl rfl completed
  | take completion queue first polling live => cases stopped.symm.trans live
  | handle completion hand =>
      cases completion with
      | accepted client => exact ⟨stopped, .inr ⟨rfl, .inl rfl⟩⟩
      | acceptFailed => exact ⟨stopped, .inr ⟨rfl, .inl rfl⟩⟩
      | read client req =>
          cases responds : answer req with
          | none =>
              have ran : s.run answer (.read client req) = { s with terminated := true } := by
                simp only [State.run, responds]
              rw [ran]
              exact ⟨stopped, .inl ⟨rfl, rfl⟩⟩
          | some response =>
              simp only [State.run, responds]
              exact ⟨stopped, .inr ⟨rfl, .inr ⟨client, req, response, hand, rfl⟩⟩⟩
      | readFailed client endOfStream =>
          cases endOfStream <;> exact ⟨stopped, .inr ⟨rfl, .inl rfl⟩⟩
      | written client failed => exact ⟨stopped, .inr ⟨rfl, .inl rfl⟩⟩
  | again accepts => split <;> exact ⟨stopped, .inr ⟨rfl, .inl rfl⟩⟩

theorem lastAnswer_of_stopped (stopped : s.stopped = true)
    (later : (machine κ answer).ReachFrom (fun _ _ => True) s s') : LastAnswer s s' := by
  have kept : s'.stopped = true ∧
      (s'.thread.inHand = s.thread.inHand ∧ s'.served = s.served ∨
        s'.thread.inHand = [] ∧ LastAnswer s s') := by
    apply later.invariant
    · exact ⟨stopped, .inl ⟨rfl, rfl⟩⟩
    · intro t a t' before _ taken
      rcases before with ⟨stopped, before⟩
      rcases step_stopped stopped taken with ⟨still, now⟩
      refine ⟨still, ?_⟩
      rcases before with ⟨hand, same⟩ | ⟨free, last⟩
      · -- what was in hand when it was stopped still is
        rcases now with ⟨kept, served⟩ | ⟨done, served⟩
        · exact .inl ⟨kept.trans hand, served.trans same⟩
        · refine .inr ⟨done, ?_⟩
          rcases served with served | ⟨client, req, response, running, served⟩
          · exact .inl (served.trans same)
          · rw [running] at hand
            exact .inr ⟨client, req, response, inHand_eq_singleton hand.symm, by rw [served, same]⟩
      · rcases now with ⟨kept, served⟩ | ⟨done, served⟩
        · exact .inr ⟨kept.trans free, by rwa [LastAnswer, served]⟩
        · refine .inr ⟨done, ?_⟩
          rcases served with served | ⟨client, req, response, running, -⟩
          · rwa [LastAnswer, served]
          · rw [running] at free
            cases free
  rcases kept.2 with ⟨-, same⟩ | ⟨-, last⟩
  · exact .inl same
  · exact last

section Responses

variable {η : Type} {preparePayload : HTTPResponse → Option HTTPResponse}
  {call : η → HTTPRequest → HTTPResponse → Option HTTPResponse}

/-- The response to a request whose method is read as it is. -/
def Answers (preparePayload : HTTPResponse → Option HTTPResponse) (calls : List (Registration η))
    (call : η → HTTPRequest → HTTPResponse → Option HTTPResponse) (req : HTTPRequest)
    (response : HTTPResponse) : Prop :=
  match latest calls req.method.text req.target with
  | some handler => (call handler req okResponse).bind preparePayload = some response
  | none => NotFound response

theorem answers_of_respond (prepares : Prepares preparePayload) {calls : List (Registration η)}
    {req : HTTPRequest} {response : HTTPResponse} (own : req.overrun = [])
    (responds : respond preparePayload (applyAll calls) call req = some response) :
    Answers preparePayload calls call req response := by
  have found : (applyAll calls).routes (routeKey req.methodString req.target) =
      latest calls req.method.text req.target := by
    rw [methodString_eq, own, List.append_nil, routes_applyAll calls (colon_mem_routeKey _ _),
      spelled_routeKey (not_mem_token req.method rfl)]
  unfold respond Router.handleRequest at responds
  unfold Answers
  rw [found] at responds
  cases registered : latest calls req.method.text req.target with
  | none =>
      rcases notFoundHandler_spec prepares okResponse with ⟨reply, made, notFound⟩
      rw [registered, made] at responds
      exact notFound.prepared prepares responds
  | some handler =>
      rw [registered] at responds
      exact responds

theorem respond_length (prepares : Prepares preparePayload) {router : Router η}
    {req : HTTPRequest} {response : HTTPResponse} (may : ¬ bodiless response.result)
    (responds : respond preparePayload router call req = some response) :
    response.contentLength = some response.body.length := by
  have prepared : ∃ res, preparePayload res = some response := by
    unfold respond at responds
    split at responds
    · rcases Option.bind_eq_some_iff.mp responds with ⟨made, -, prepared⟩
      exact ⟨made, prepared⟩
    · rcases Option.bind_eq_some_iff.mp responds with ⟨made, -, prepared⟩
      exact ⟨made, prepared⟩
  rcases prepared with ⟨made, prepared⟩
  rcases prepares.rest made response prepared with ⟨result, -, body⟩
  rw [result] at may
  rw [body, prepares.length made response prepared may]

structure ServesOnce (preparePayload : HTTPResponse → Option HTTPResponse)
    (calls : List (Registration η)) (call : η → HTTPRequest → HTTPResponse → Option HTTPResponse)
    (s : State κ) : Prop where
  once : (s.served.map Prod.fst).Nodup
  held : ∀ client, s.awaiting client + s.replying client = (s.isOpen client).toNat
  open_served : ∀ client, s.isOpen client → (client ∈ s.served.map Prod.fst ↔
    s.replying client = 1)
  answers : ∀ entry ∈ s.served, entry.2.1.overrun = [] →
    Answers preparePayload calls call entry.2.1 entry.2.2
  length : ∀ entry ∈ s.served, ¬ bodiless entry.2.2.result →
    entry.2.2.contentLength = some entry.2.2.body.length

theorem Served.servesOnce (prepares : Prepares preparePayload) {calls : List (Registration η)}
    (served : Served (respond preparePayload (applyAll calls) call) s) :
    ServesOnce preparePayload calls call s where
  once := by
    refine List.nodup_iff_count_le_one.mpr fun client => ?_
    rw [List.count, List.countP_map]
    exact Nat.le_trans (Nat.le_add_right _ _) (served.once client)
  held := served.held
  open_served client isOpen := by
    have held := served.held client
    have once := served.once client
    have replies := served.replies client
    rw [isOpen, Bool.toNat_true] at held
    have counted : client ∈ s.served.map Prod.fst ↔ 0 < s.servedCount client := by
      rw [servedCount, List.countP_pos_iff]
      simp
    rw [counted]
    omega
  answers entry inside own := answers_of_respond prepares own (served.responses entry inside)
  length entry inside may := respond_length prepares may (served.responses entry inside)

theorem served_fresh : Served answer (fresh κ) where
  held _ := rfl
  once _ := Nat.zero_le 1
  replies _ := Nat.zero_le _
  fresh _ _ := ⟨rfl, rfl⟩
  responses entry inside := by cases inside

theorem listening_fresh : Listening (fresh κ) where
  absent _ := ⟨rfl, Control.noConfusion, fun _ => rfl⟩
  halting other := absurd rfl other
  joining joins := by cases joins
  finished finished := by cases finished
  most _ := Nat.zero_le 1
  running running := by cases running

/-- Every client is served at most once, and with what its request is routed to. The socket of
a client is open exactly as long as one operation holds its session. -/
theorem serves_once (prepares : Prepares preparePayload) (calls : List (Registration η))
    (call : η → HTTPRequest → HTTPResponse → Option HTTPResponse)
    (reached : (machine κ (respond preparePayload (applyAll calls) call)).Reachable s)
    (alive : s.terminated = false) : ServesOnce preparePayload calls call s := by
  have served : s.terminated = false →
      Served (respond preparePayload (applyAll calls) call) s := by
    apply reached.invariant
    · exact fun _ => served_fresh
    · intro s a s' before _ taken alive
      exact (before (step_takes taken).1).step taken alive
  exact (served alive).servesOnce prepares

/-- While it runs, a server that has not been stopped has one accept in hand. Once it has been
stopped it answers no more than the request that its thread has already taken, however often it
is started again. -/
theorem listens_until_stopped (preparePayload : HTTPResponse → Option HTTPResponse)
    (router : Router η) (call : η → HTTPRequest → HTTPResponse → Option HTTPResponse)
    (reached : (machine κ (respond preparePayload router call)).Reachable s)
    (alive : s.terminated = false) :
    (s.isRunning → s.stopped = false → s.accepting = 1) ∧
      (s.stopped = true → ∀ s', (machine κ (respond preparePayload router call)).ReachFrom
        (fun _ _ => True) s s' → LastAnswer s s') := by
  have listening : s.terminated = false → Listening s := by
    apply reached.invariant
    · exact fun _ => listening_fresh
    · intro s a s' before _ taken alive
      exact (before (step_takes taken).1).step taken alive
  constructor
  · intro running unstopped
    exact Nat.le_antisymm ((listening alive).most unstopped) ((listening alive).running running)
  · exact fun stopped s' later => lastAnswer_of_stopped stopped later

end Responses

def echo : Unit → HTTPRequest → HTTPResponse → Option HTTPResponse :=
  fun _ req res => some { res with body := req.target }

def echoServer : Machine (State Nat) (Action Nat) :=
  machine Nat (respond writeLength (applyAll [.router purge ['/'] ()]) echo)

def echoRun : List (Action Nat) :=
  [.start, .doAccept, .connect 0, .take, .handle, .again, .arrive 0 rootRequest, .take, .handle]

theorem serves_once_echo : ∃ s, echoServer.run echoRun = some s ∧ s.served.length = 1 ∧
    ServesOnce writeLength [.router purge ['/'] ()] echo s :=
  ⟨_, rfl, rfl,
    serves_once prepares_writeLength _ _ (Machine.reachable_of_run echoRun rfl) rfl⟩

theorem listens_until_stopped_echo : ∃ s, echoServer.run echoRun = some s ∧
    (s.isRunning → s.stopped = false → s.accepting = 1) ∧
      (s.stopped = true → ∀ s', echoServer.ReachFrom (fun _ _ => True) s s' → LastAnswer s s') :=
  ⟨_, rfl, listens_until_stopped _ _ _ (Machine.reachable_of_run echoRun rfl) rfl⟩

end Invariants

end Step

end CommonUtils.Network.HTTPS
