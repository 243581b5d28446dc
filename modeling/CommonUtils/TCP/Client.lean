import Mathlib.Data.List.Induction
import Mathlib.Logic.Function.Basic

namespace CommonUtils.TCP

/-- The socket is open and connected, and so many texts are in `writeQueue_`. -/
structure ClientSession where
  isOpen : Bool
  queued : Nat

/-- The sessions are numbered in the order in which they are made, and `sessionPtr` is null
until the first one is. -/
structure TCPClient (δ : Type) where
  serverAddress : String
  sessions : Nat → ClientSession
  made : Nat
  sessionPtr : Option Nat
  recDataQueue : List δ

namespace TCPClient

variable {δ : Type}

/-- What a call comes to. The data is what `RecData` hands out. -/
inductive Outcome (δ : Type) where
  | returned (value : Bool) (data : Option δ)
  | threw
  | nullDereference

inductive Event (δ : Type) where
  | connectToServer (accepted : Bool)
  | sendData (data : δ)
  | recData
  | closeConnection
  | arrive (data : δ)
  | lost

def fresh (serverAddress : String) : TCPClient δ where
  serverAddress := serverAddress
  sessions := fun _ => { isOpen := false, queued := 0 }
  made := 0
  sessionPtr := none
  recDataQueue := []

variable (client : TCPClient δ)

def setSession (x : Nat) (session : ClientSession) : TCPClient δ :=
  { client with sessions := Function.update client.sessions x session }

def established : TCPClient δ :=
  { client.setSession client.made { isOpen := true, queued := 0 } with
    made := client.made + 1
    sessionPtr := some client.made }

/-- `Close` on a session, or the loss of its connection. -/
def closed (x : Nat) : TCPClient δ :=
  client.setSession x { client.sessions x with isOpen := false }

def sent (x : Nat) : TCPClient δ :=
  client.setSession x { client.sessions x with queued := (client.sessions x).queued + 1 }

def connectToServer {α : Type} (makeAddress : String → Option α) (accepted : Bool) :
    Outcome δ × TCPClient δ :=
  match makeAddress client.serverAddress with
  | none => (.threw, client)
  | some _ =>
      if accepted then (.returned true none, client.established) else (.returned false none, client)

def sendData : Outcome δ × TCPClient δ :=
  match client.sessionPtr with
  | none => (.nullDereference, client)
  | some x => (.returned true none, client.sent x)

def recData : Outcome δ × TCPClient δ :=
  match client.recDataQueue with
  | [] => (.returned false none, client)
  | data :: rest => (.returned true (some data), { client with recDataQueue := rest })

def closeConnection : Outcome δ × TCPClient δ :=
  match client.sessionPtr with
  | none => (.nullDereference, client)
  | some x => (.returned true none, client.closed x)

def destroy : Outcome δ × TCPClient δ := client.closeConnection

/-- The outcome of an event that is no call is that nothing is wrong. -/
def step {α : Type} (makeAddress : String → Option α) : Event δ → Outcome δ × TCPClient δ
  | .connectToServer accepted => client.connectToServer makeAddress accepted
  | .sendData _ => client.sendData
  | .recData => client.recData
  | .closeConnection => client.closeConnection
  | .arrive data =>
      (.returned true none, { client with recDataQueue := client.recDataQueue ++ [data] })
  | .lost =>
      (.returned true none, (client.sessionPtr.map client.closed).getD client)

def connected : Bool := client.sessionPtr.any fun x => (client.sessions x).isOpen

end TCPClient

namespace TCPClient

variable {δ α : Type}

def Event.needsConnection : Event δ → Bool
  | .sendData _ | .closeConnection => true
  | _ => false

/-- The client after the events, had it come through all of them. -/
def after (makeAddress : String → Option α) (client : TCPClient δ) (events : List (Event δ)) :
    TCPClient δ :=
  events.foldl (fun client event => (client.step makeAddress event).2) client

/-- No null pointer is dereferenced and nothing is thrown. -/
def Outcome.Returns : Outcome δ → Prop
  | .returned _ _ => True
  | .threw | .nullDereference => False

/-- An operation that needs a connection reports it when there is none. -/
structure Fine (makeAddress : String → Option α) (client : TCPClient δ) (event : Event δ) :
    Prop where
  returns : (client.step makeAddress event).1.Returns
  reports : event.needsConnection = true → client.connected = false →
    (client.step makeAddress event).1 = .returned false none

/-- Every call on a fresh client is fine, and so is its destruction at the end. -/
structure Tolerates (makeAddress : String → Option α) (serverAddress : String)
    (events : List (Event δ)) : Prop where
  calls : ∀ front event back, events = front ++ event :: back →
    Fine makeAddress ((fresh serverAddress).after makeAddress front) event
  destroyed : ((fresh serverAddress).after makeAddress events).destroy.1.Returns

/-- The last successful attempt has neither been closed nor lost. -/
def Connected (events : List (Event δ)) : Prop :=
  ∃ front back, events = front ++ .connectToServer true :: back ∧
    .closeConnection ∉ back ∧ .lost ∉ back

/-- The address parses, some attempt succeeds, and nothing that needs a connection comes
without one. -/
structure Orderly (makeAddress : String → Option α) (serverAddress : String)
    (events : List (Event δ)) : Prop where
  parses : (makeAddress serverAddress).isSome
  connects : .connectToServer true ∈ events
  connected : ∀ front event back, events = front ++ event :: back →
    event.needsConnection = true → Connected front

variable {makeAddress : String → Option α}

theorem after_concat (client : TCPClient δ) (events : List (Event δ)) (event : Event δ) :
    client.after makeAddress (events ++ [event]) =
      ((client.after makeAddress events).step makeAddress event).2 := by
  rw [after, List.foldl_append]
  rfl

theorem step_serverAddress (client : TCPClient δ) (event : Event δ) :
    (client.step makeAddress event).2.serverAddress = client.serverAddress := by
  cases event with
  | connectToServer accepted =>
      simp only [step, connectToServer]
      split
      · rfl
      · cases accepted <;> rfl
  | sendData data =>
      simp only [step, sendData]
      split <;> rfl
  | recData =>
      simp only [step, recData]
      split <;> rfl
  | closeConnection =>
      simp only [step, closeConnection]
      split <;> rfl
  | arrive data => rfl
  | lost =>
      simp only [step]
      cases client.sessionPtr <;> rfl

theorem after_serverAddress (client : TCPClient δ) (events : List (Event δ)) :
    (client.after makeAddress events).serverAddress = client.serverAddress := by
  induction events using List.reverseRecOn with
  | nil => rfl
  | append_singleton events event ih => rw [after_concat, step_serverAddress, ih]

@[simp] theorem sessions_setSession (client : TCPClient δ) (x : Nat) (session : ClientSession) :
    (client.setSession x session).sessions = Function.update client.sessions x session := rfl

theorem connected_iff (client : TCPClient δ) :
    client.connected = true ↔
      ∃ x, client.sessionPtr = some x ∧ (client.sessions x).isOpen = true := by
  unfold connected
  cases client.sessionPtr <;> simp

theorem connected_established (client : TCPClient δ) : client.established.connected = true := by
  simp [established, connected, setSession]

theorem connected_closed {client : TCPClient δ} {x : Nat} (current : client.sessionPtr = some x) :
    (client.closed x).connected = false := by
  simp [closed, connected, setSession, current]

theorem connected_sent {client : TCPClient δ} {x : Nat} (current : client.sessionPtr = some x) :
    (client.sent x).connected = client.connected := by
  simp [sent, connected, setSession, current]

theorem connected_of_null {client : TCPClient δ} (null : client.sessionPtr = none) :
    client.connected = false := by
  simp [connected, null]

theorem connected_concat_iff (events : List (Event δ)) (event : Event δ) :
    Connected (events ++ [event]) ↔ event = .connectToServer true ∨
      Connected events ∧ event ≠ .closeConnection ∧ event ≠ .lost := by
  constructor
  · rintro ⟨front, back, same, unclosed, kept⟩
    rcases List.eq_nil_or_concat back with none | ⟨back, last, rfl⟩
    · rw [none] at same
      exact .inl (List.singleton_inj.mp (List.append_inj_right' same rfl))
    · have split : events ++ [event] = (front ++ .connectToServer true :: back) ++ [last] := by
        simpa using same
      have earlier := List.append_inj_left' split rfl
      have final := List.singleton_inj.mp (List.append_inj_right' split rfl)
      simp only [List.concat_eq_append, List.mem_append, List.mem_singleton, not_or]
        at unclosed kept
      rw [final]
      exact .inr ⟨⟨front, back, earlier, unclosed.1, kept.1⟩, Ne.symm unclosed.2,
        Ne.symm kept.2⟩
  · rintro (rfl | ⟨⟨front, back, rfl, unclosed, kept⟩, open_, stays⟩)
    · exact ⟨events, [], rfl, List.not_mem_nil, List.not_mem_nil⟩
    · refine ⟨front, back ++ [event], by simp, ?_, ?_⟩
      · simpa using ⟨unclosed, Ne.symm open_⟩
      · simpa using ⟨kept, Ne.symm stays⟩

structure Tracks (events : List (Event δ)) (client : TCPClient δ) : Prop where
  session : client.sessionPtr.isSome ↔ .connectToServer true ∈ events
  connection : client.connected = true ↔ Connected events

namespace Tracks

variable {events : List (Event δ)} {client client' : TCPClient δ} {event : Event δ}

theorem fresh (serverAddress : String) : Tracks (δ := δ) [] (fresh serverAddress) where
  session := by simp [TCPClient.fresh]
  connection := by
    refine iff_of_false (by simp [TCPClient.fresh, connected]) ?_
    rintro ⟨front, back, same, -⟩
    simp at same

theorem keep (tracks : Tracks events client) (session : client'.sessionPtr = client.sessionPtr)
    (connection : client'.connected = client.connected)
    (other : event ≠ .connectToServer true ∧ event ≠ .closeConnection ∧ event ≠ .lost) :
    Tracks (events ++ [event]) client' where
  session := by
    rw [session, tracks.session, List.mem_append, List.mem_singleton]
    simp [Ne.symm other.1]
  connection := by
    rw [connection, tracks.connection, connected_concat_iff]
    simp [other.1, other.2.1, other.2.2]

theorem disconnect (tracks : Tracks events client)
    (session : client'.sessionPtr = client.sessionPtr) (connection : client'.connected = false)
    (ends : event = .closeConnection ∨ event = .lost) : Tracks (events ++ [event]) client' where
  session := by
    rw [session, tracks.session, List.mem_append, List.mem_singleton]
    rcases ends with rfl | rfl <;> simp
  connection := by
    rw [connection, connected_concat_iff]
    rcases ends with rfl | rfl <;> simp

theorem step {address : α} (tracks : Tracks events client)
    (parses : makeAddress client.serverAddress = some address) :
    Tracks (events ++ [event]) (client.step makeAddress event).2 := by
  cases event with
  | connectToServer accepted =>
      simp only [TCPClient.step, connectToServer, parses]
      cases accepted with
      | false => exact tracks.keep rfl rfl ⟨by simp, by simp, by simp⟩
      | true =>
          constructor
          · simp [established]
          · simp [connected_established, connected_concat_iff]
  | sendData data =>
      simp only [TCPClient.step, sendData]
      split
      · exact tracks.keep rfl rfl ⟨by simp, by simp, by simp⟩
      · exact tracks.keep rfl (connected_sent ‹_›) ⟨by simp, by simp, by simp⟩
  | recData =>
      simp only [TCPClient.step, recData]
      split
      · exact tracks.keep rfl rfl ⟨by simp, by simp, by simp⟩
      · exact tracks.keep rfl rfl ⟨by simp, by simp, by simp⟩
  | closeConnection =>
      simp only [TCPClient.step, closeConnection]
      split
      · exact tracks.disconnect rfl (connected_of_null ‹_›) (.inl rfl)
      · exact tracks.disconnect rfl (connected_closed ‹_›) (.inl rfl)
  | arrive data => exact tracks.keep rfl rfl ⟨by simp, by simp, by simp⟩
  | lost =>
      simp only [TCPClient.step]
      cases current : client.sessionPtr with
      | none => exact tracks.disconnect rfl (connected_of_null current) (.inr rfl)
      | some x => exact tracks.disconnect rfl (connected_closed current) (.inr rfl)

theorem after {serverAddress : String} {address : α}
    (parses : makeAddress serverAddress = some address) (events : List (Event δ)) :
    Tracks events ((TCPClient.fresh serverAddress).after makeAddress events) := by
  induction events using List.reverseRecOn with
  | nil => exact .fresh serverAddress
  | append_singleton events event ih =>
      rw [after_concat]
      apply ih.step
      rw [after_serverAddress]
      exact parses

end Tracks

theorem sessionPtr_after_of_unparsed {serverAddress : String}
    (unparsed : makeAddress serverAddress = none) (events : List (Event δ)) :
    ((fresh serverAddress).after makeAddress events).sessionPtr = none := by
  induction events using List.reverseRecOn with
  | nil => rfl
  | append_singleton events event ih =>
      have named : makeAddress
          ((fresh serverAddress).after makeAddress events).serverAddress = none := by
        rw [after_serverAddress]
        exact unparsed
      rw [after_concat]
      cases event with
      | connectToServer accepted =>
          simp only [step, connectToServer, named]
          exact ih
      | sendData data =>
          simp only [step, sendData, ih]
      | recData =>
          simp only [step, recData]
          split <;> exact ih
      | closeConnection => simp only [step, closeConnection, ih]
      | arrive data => exact ih
      | lost =>
          simp only [step, ih]
          exact ih

theorem destroy_returns_iff (client : TCPClient δ) :
    client.destroy.1.Returns ↔ client.sessionPtr.isSome := by
  unfold destroy closeConnection
  cases client.sessionPtr <;> simp [Outcome.Returns]

theorem fine_operation_iff {client : TCPClient δ} {event : Event δ}
    (needs : event.needsConnection = true)
    (outcome : (client.step makeAddress event).1 =
      if client.sessionPtr.isSome then .returned true none else .nullDereference) :
    Fine makeAddress client event ↔ client.connected = true := by
  constructor
  · intro fine
    by_contra absent
    have reported := fine.reports needs (Bool.eq_false_iff.mpr absent)
    rw [outcome] at reported
    split at reported <;> cases reported
  · intro present
    have session : client.sessionPtr.isSome := by
      by_contra null
      rw [connected_of_null (Option.not_isSome_iff_eq_none.mp null)] at present
      cases present
    constructor
    · rw [outcome, if_pos session]
      trivial
    · intro _ absent
      rw [present] at absent
      cases absent

theorem fine_iff {client : TCPClient δ} {address : α}
    (parses : makeAddress client.serverAddress = some address) (event : Event δ) :
    Fine makeAddress client event ↔
      (event.needsConnection = true → client.connected = true) := by
  cases event with
  | sendData data =>
      have outcome : (client.step makeAddress (.sendData data)).1 =
          if client.sessionPtr.isSome then .returned true none else .nullDereference := by
        simp only [step, sendData]
        cases client.sessionPtr <;> rfl
      simpa [Event.needsConnection] using fine_operation_iff rfl outcome
  | closeConnection =>
      have outcome : (client.step makeAddress .closeConnection).1 =
          if client.sessionPtr.isSome then .returned true none else .nullDereference := by
        simp only [step, closeConnection]
        cases client.sessionPtr <;> rfl
      simpa [Event.needsConnection] using fine_operation_iff rfl outcome
  | connectToServer accepted =>
      refine iff_of_true ⟨?_, Bool.noConfusion⟩ Bool.noConfusion
      simp only [step, connectToServer, parses]
      cases accepted <;> trivial
  | recData =>
      refine iff_of_true ⟨?_, Bool.noConfusion⟩ Bool.noConfusion
      simp only [step, recData]
      split <;> trivial
  | arrive data => exact iff_of_true ⟨trivial, Bool.noConfusion⟩ Bool.noConfusion
  | lost => exact iff_of_true ⟨trivial, Bool.noConfusion⟩ Bool.noConfusion

theorem tolerates_iff (makeAddress : String → Option α) (serverAddress : String)
    (events : List (Event δ)) :
    Tolerates makeAddress serverAddress events ↔ Orderly makeAddress serverAddress events := by
  rcases Option.eq_none_or_eq_some (makeAddress serverAddress) with unparsed | ⟨address, parses⟩
  · constructor
    · intro tolerates
      have session := (destroy_returns_iff _).mp tolerates.destroyed
      rw [sessionPtr_after_of_unparsed unparsed events] at session
      cases session
    · intro orderly
      have parses := orderly.parses
      rw [unparsed] at parses
      cases parses
  have named : ∀ front : List (Event δ), makeAddress
      ((fresh serverAddress).after makeAddress front).serverAddress = some address := by
    intro front
    rw [after_serverAddress]
    exact parses
  constructor
  · intro tolerates
    refine ⟨by rw [parses]; rfl, ?_, ?_⟩
    · exact (Tracks.after parses events).session.mp
        ((destroy_returns_iff _).mp tolerates.destroyed)
    · intro front event back split needs
      have fine := (fine_iff (named front) event).mp (tolerates.calls front event back split)
      exact (Tracks.after parses front).connection.mp (fine needs)
  · intro orderly
    constructor
    · intro front event back split
      apply (fine_iff (named front) event).mpr
      intro needs
      exact (Tracks.after parses front).connection.mpr
        (orderly.connected front event back split needs)
    · exact (destroy_returns_iff _).mpr
        ((Tracks.after parses events).session.mpr orderly.connects)

/-- The only attempt is refused. -/
theorem refused_client_destroyed :
    ((fresh "127.0.0.1").after some [Event.connectToServer (δ := Nat) false]).destroy.1 =
        .nullDereference ∧
      ¬ ∀ (makeAddress : String → Option String) (serverAddress : String)
        (events : List (Event Nat)), Tolerates makeAddress serverAddress events := by
  refine ⟨rfl, ?_⟩
  intro always
  exact (always some "127.0.0.1" [.connectToServer false]).destroyed

end TCPClient

end CommonUtils.TCP
