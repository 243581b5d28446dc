import CommonUtils.Library.Machine
import CommonUtils.TCP.Client

/-! `TCPClient` with its `io_context`: the operations of its sessions that are outstanding
there, and the detached threads that run it. The context is stopped when a run finds nothing
left to do, and nothing starts it again. -/

namespace CommonUtils.TCP.Reconnect

inductive Operation where
  | read (x : Nat)
  | write (x : Nat)
  deriving DecidableEq

/-- `starting` threads have not entered `run` yet, and `running` ones are in it. -/
structure State (δ : Type) where
  client : TCPClient δ
  pending : List Operation
  stopped : Bool
  starting : Nat
  running : Nat

inductive Action (δ : Type) where
  | connectToServer
  | sendData (data : δ)
  | closeConnection
  | disconnect (x : Nat)
  | enterRun
  | complete (operation : Operation)
  | fail (operation : Operation)
  | leaveRun

variable {δ : Type}

def start (serverAddress : String) : State δ where
  client := TCPClient.fresh serverAddress
  pending := []
  stopped := false
  starting := 0
  running := 0

namespace State

variable (s : State δ)

/-- `ConnectToServer` once the socket is connected: the new session reads, and a thread is
made. -/
def connectToServer : State δ :=
  { s with
    client := s.client.established
    pending := s.pending ++ [.read s.client.made]
    starting := s.starting + 1 }

/-- `SendData`, which begins to write unless something is being written. -/
def sendData : Option (State δ) :=
  s.client.sessionPtr.map fun x =>
    { s with
      client := s.client.sent x
      pending :=
        if (s.client.sessions x).queued = 0 then s.pending ++ [.write x] else s.pending }

def closeConnection : Option (State δ) :=
  s.client.sessionPtr.map fun x => { s with client := s.client.closed x }

/-- A thread enters `run`, which returns at once where the context is stopped and stops it
where there is nothing to do. -/
def enterRun : Option (State δ) :=
  if s.starting = 0 then none
  else if s.stopped then some { s with starting := s.starting - 1 }
  -- a run that finds no work stops the context for good
  else if s.pending = [] then some { s with starting := s.starting - 1, stopped := true }
  else some { s with starting := s.starting - 1, running := s.running + 1 }

def finish (client : TCPClient δ) (pending : List Operation) : State δ :=
  { s with client, pending, stopped := pending.isEmpty }

def handles (operation : Operation) : Bool :=
  operation ∈ s.pending && !s.stopped && s.running != 0

/-- `AsyncRead` and `AsyncWrite` without an error: the next read, and the next text if one
is left. -/
def complete : Operation → Option (State δ)
  | .read x =>
      if s.handles (.read x) then some (s.finish s.client (s.pending.erase (.read x) ++ [.read x]))
      else none
  | .write x =>
      if s.handles (.write x) then
        let session := s.client.sessions x
        some (s.finish (s.client.setSession x { session with queued := session.queued - 1 })
          (if session.queued ≤ 1 then s.pending.erase (.write x)
          else s.pending.erase (.write x) ++ [.write x]))
      else none

def session : Operation → Nat
  | .read x | .write x => x

def fail (operation : Operation) : Option (State δ) :=
  if s.handles operation ∧ (s.client.sessions (session operation)).isOpen = false then
    some (s.finish (s.client.closed (session operation)) (s.pending.erase operation))
  else none

def leaveRun : Option (State δ) :=
  if s.stopped = true ∧ s.running ≠ 0 then some { s with running := s.running - 1 } else none

end State

def step (s : State δ) : Action δ → Option (State δ)
  | .connectToServer => some s.connectToServer
  | .sendData _ => s.sendData
  | .closeConnection => s.closeConnection
  | .disconnect x => some { s with client := s.client.closed x }
  | .enterRun => s.enterRun
  | .complete operation => s.complete operation
  | .fail operation => s.fail operation
  | .leaveRun => s.leaveRun

def machine (serverAddress : String) : Machine (State δ) (Action δ) where
  start := start serverAddress
  step := step

/-- Where the client's current session is connected, a thread runs the context or is about to;
the sessions before it are left out. -/
def Served (s : State δ) : Prop :=
  s.client.connected = true → s.stopped = false ∧ (s.running ≠ 0 ∨ s.starting ≠ 0)

def Reading (s : State δ) : Prop :=
  ∀ x, (s.client.sessions x).isOpen = true → .read x ∈ s.pending

/-- No connection is made once the context is stopped. -/
def InTime (s : State δ) (a : Action δ) : Prop := a = .connectToServer → s.stopped = false

variable {s s' : State δ}

theorem isOpen_of_setSession {client : TCPClient δ} {x y : Nat} {session : ClientSession}
    (kept : session.isOpen = true → (client.sessions x).isOpen = true)
    (isOpen : ((client.setSession x session).sessions y).isOpen = true) :
    (client.sessions y).isOpen = true := by
  rw [TCPClient.sessions_setSession] at isOpen
  by_cases same : y = x
  · subst same
    rw [Function.update_self] at isOpen
    exact kept isOpen
  · rwa [Function.update_of_ne same] at isOpen

theorem connected_of_isOpen {client client' : TCPClient δ}
    (current : client'.sessionPtr = client.sessionPtr)
    (kept : ∀ x, (client'.sessions x).isOpen = true → (client.sessions x).isOpen = true)
    (connected : client'.connected = true) : client.connected = true := by
  rcases (TCPClient.connected_iff _).mp connected with ⟨x, named, isOpen⟩
  rw [current] at named
  exact (TCPClient.connected_iff _).mpr ⟨x, named, kept x isOpen⟩

theorem isOpen_of_closed {client : TCPClient δ} {x : Nat} (y : Nat)
    (isOpen : ((client.closed x).sessions y).isOpen = true) :
    (client.sessions y).isOpen = true :=
  isOpen_of_setSession Bool.noConfusion isOpen

theorem isOpen_of_sent {client : TCPClient δ} {x : Nat} (y : Nat)
    (isOpen : ((client.sent x).sessions y).isOpen = true) :
    (client.sessions y).isOpen = true := by
  apply isOpen_of_setSession _ isOpen
  exact id

theorem connected_of_closed {client : TCPClient δ} {x : Nat}
    (connected : (client.closed x).connected = true) : client.connected = true := by
  apply connected_of_isOpen _ isOpen_of_closed connected
  rfl

theorem connected_of_sent {client : TCPClient δ} {x : Nat}
    (connected : (client.sent x).connected = true) : client.connected = true := by
  apply connected_of_isOpen _ isOpen_of_sent connected
  rfl

theorem pending_of_connected (reading : Reading s) (connected : s.client.connected = true) :
    s.pending ≠ [] := by
  rcases (TCPClient.connected_iff _).mp connected with ⟨x, current, isOpen⟩
  exact List.ne_nil_of_mem (reading x isOpen)

theorem running_of_handles {operation : Operation} (handles : s.handles operation = true) :
    s.running ≠ 0 := by
  simp only [State.handles, Bool.and_eq_true, bne_iff_ne] at handles
  exact handles.2

inductive Takes (s : State δ) : Action δ → State δ → Prop
  | connectToServer : Takes s .connectToServer s.connectToServer
  | sendData (data : δ) (x : Nat) (pending : List Operation)
      (more : ∀ operation ∈ s.pending, operation ∈ pending) :
      Takes s (.sendData data) { s with client := s.client.sent x, pending }
  | close (a : Action δ) (x : Nat) (other : a ≠ .connectToServer) :
      Takes s a { s with client := s.client.closed x }
  | leaveAtOnce (stopped : s.stopped = true) :
      Takes s .enterRun { s with starting := s.starting - 1 }
  | stop (idle : s.pending = []) :
      Takes s .enterRun { s with starting := s.starting - 1, stopped := true }
  | enter (live : s.stopped = false) :
      Takes s .enterRun { s with starting := s.starting - 1, running := s.running + 1 }
  | complete (operation : Operation) (client : TCPClient δ) (pending : List Operation)
      (handles : s.handles operation = true)
      (current : client.sessionPtr = s.client.sessionPtr)
      (kept : ∀ x, (client.sessions x).isOpen = true → (s.client.sessions x).isOpen = true)
      (read : ∀ x, .read x ∈ s.pending → .read x ∈ pending) :
      Takes s (.complete operation) (s.finish client pending)
  | fail (operation : Operation) (handles : s.handles operation = true)
      (gone : (s.client.sessions (State.session operation)).isOpen = false) :
      Takes s (.fail operation)
        (s.finish (s.client.closed (State.session operation)) (s.pending.erase operation))
  | leave (stopped : s.stopped = true) : Takes s .leaveRun { s with running := s.running - 1 }

theorem mem_erase_write {pending : List Operation} {x y : Nat} (member : .read y ∈ pending) :
    .read y ∈ pending.erase (.write x) :=
  (List.mem_erase_of_ne (by simp)).mpr member

theorem complete_takes {operation : Operation} (taken : s.complete operation = some s') :
    Takes s (.complete operation) s' := by
  cases operation with
  | read x =>
      simp only [State.complete] at taken
      split at taken <;> cases taken
      refine .complete _ _ _ ‹_› rfl (fun _ => id) ?_
      intro y member
      by_cases same : y = x
      · simp [same]
      · exact List.mem_append_left _ ((List.mem_erase_of_ne (by simpa using same)).mpr member)
  | write x =>
      simp only [State.complete] at taken
      split at taken <;> cases taken
      refine .complete _ _ _ ‹_› rfl (fun y => isOpen_of_setSession id) ?_
      intro y member
      split
      · exact mem_erase_write member
      · exact List.mem_append_left _ (mem_erase_write member)

theorem step_takes {a : Action δ} (taken : step s a = some s') : Takes s a s' := by
  cases a with
  | connectToServer =>
      cases taken
      exact .connectToServer
  | sendData data =>
      rcases Option.map_eq_some_iff.mp taken with ⟨x, current, rfl⟩
      refine .sendData data x _ ?_
      intro operation member
      split
      · exact List.mem_append_left _ member
      · exact member
  | closeConnection =>
      rcases Option.map_eq_some_iff.mp taken with ⟨x, current, rfl⟩
      exact .close _ x (by simp)
  | disconnect x =>
      cases taken
      exact .close _ x (by simp)
  | enterRun =>
      simp only [step, State.enterRun] at taken
      split at taken
      · cases taken
      split at taken
      · cases taken
        exact .leaveAtOnce ‹_›
      split at taken
      · cases taken
        exact .stop ‹_›
      · cases taken
        exact .enter (Bool.eq_false_iff.mpr ‹_›)
  | complete operation => exact complete_takes taken
  | fail operation =>
      simp only [step, State.fail] at taken
      split at taken <;> cases taken
      rename_i failing
      exact .fail operation failing.1 failing.2
  | leaveRun =>
      simp only [step, State.leaveRun] at taken
      split at taken <;> cases taken
      rename_i leaving
      exact .leave leaving.1

theorem Reading.step {a : Action δ} (reading : Reading s) (taken : step s a = some s') :
    Reading s' := by
  intro x isOpen
  cases step_takes taken with
  | connectToServer =>
      simp only [State.connectToServer, TCPClient.established, TCPClient.sessions_setSession]
        at isOpen ⊢
      by_cases new : x = s.client.made
      · simp [new]
      · rw [Function.update_of_ne new] at isOpen
        exact List.mem_append_left _ (reading x isOpen)
  | sendData data y pending more => exact more _ (reading x (isOpen_of_sent x isOpen))
  | close a y other => exact reading x (isOpen_of_closed x isOpen)
  | complete operation client pending handles current kept read =>
      exact read x (reading x (kept x isOpen))
  | fail operation handles gone =>
      have before := isOpen_of_closed x isOpen
      have other : .read x ≠ operation := by
        rintro rfl
        rw [State.session] at gone
        rw [gone] at before
        cases before
      exact (List.mem_erase_of_ne other).mpr (reading x before)
  | _ => exact reading x isOpen

theorem served_finish {client : TCPClient δ} {pending : List Operation} {operation : Operation}
    (handles : s.handles operation = true) (reading : Reading (s.finish client pending)) :
    Served (s.finish client pending) := by
  intro connected
  have some := pending_of_connected reading connected
  have busy : s.running ≠ 0 := running_of_handles handles
  exact ⟨by simpa [State.finish] using some, .inl busy⟩

theorem inTime_of_ne {a : Action δ} (other : a ≠ .connectToServer) : InTime s a :=
  fun connects => absurd connects other

theorem served_step_iff {a : Action δ} (reading : Reading s) (served : Served s)
    (taken : step s a = some s') : Served s' ↔ InTime s a := by
  have after := reading.step taken
  cases step_takes taken with
  | connectToServer =>
      have connected : s.connectToServer.client.connected = true :=
        TCPClient.connected_established s.client
      constructor
      · exact fun now _ => (now connected).1
      · exact fun inTime _ => ⟨inTime rfl, .inr (Nat.succ_ne_zero _)⟩
  | sendData data x pending more =>
      refine iff_of_true (fun connected => ?_) (inTime_of_ne (by simp))
      exact served (connected_of_sent connected)
  | close a x other =>
      refine iff_of_true (fun connected => ?_) (inTime_of_ne other)
      exact served (connected_of_closed connected)
  | leaveAtOnce stopped | leave stopped =>
      refine iff_of_true (fun connected => ?_) (inTime_of_ne (by simp))
      have live := (served connected).1
      rw [stopped] at live
      cases live
  | stop idle =>
      refine iff_of_true (fun connected => ?_) (inTime_of_ne (by simp))
      exact absurd idle (pending_of_connected reading connected)
  | enter live =>
      exact iff_of_true (fun _ => ⟨live, .inl (Nat.succ_ne_zero _)⟩) (inTime_of_ne (by simp))
  | complete operation client pending handles current kept read =>
      exact iff_of_true (served_finish handles after) (inTime_of_ne (by simp))
  | fail operation handles gone =>
      exact iff_of_true (served_finish handles after) (inTime_of_ne (by simp))

/-- In every run every connection is served while it lasts, exactly if none is made once the
context is stopped. -/
theorem served_iff_inTime (serverAddress : String) (as : List (Action δ)) :
    (machine serverAddress).AllStates Served (start serverAddress) as ↔
      (machine serverAddress).AllSteps InTime (start serverAddress) as := by
  apply Machine.allStates_iff_allSteps (I := Reading) (A := fun _ _ => True)
  · exact fun s a s' reading _ taken => reading.step taken
  · exact fun s a s' reading _ served taken => served_step_iff reading served taken
  · intro x isOpen
    cases isOpen
  · intro connected
    cases connected
  · exact Machine.allSteps_true _ _

/-- A client connects again after the handlers of its first connection have finished. -/
def reconnectRun : List (Action Nat) :=
  [.connectToServer, .enterRun, .closeConnection, .fail (.read 0), .leaveRun, .connectToServer]

theorem reconnected_unserved :
    ¬ ∀ (serverAddress : String) (s : State Nat),
      (machine serverAddress).Reachable s → Served s := by
  intro always
  have served := always "127.0.0.1" _ (Machine.reachable_of_run reconnectRun rfl)
  exact absurd (served rfl).1 (by decide)

end CommonUtils.TCP.Reconnect
