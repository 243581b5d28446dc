import CommonUtils.TCP.Server.Inbox

namespace CommonUtils

namespace MessageQueue

variable {κ μ : Type*} [DecidableEq κ] {cfg : Config} {q q' : State κ μ}

theorem pushes_of_push {msg : μ} {woken : Option κ}
    (taken : step cfg q (.push msg woken) = some q') :
    q'.pushes.map PushRecord.message = q.pushes.map PushRecord.message ++ [msg] := by
  have recorded (queue : MessageQueue (Numbered μ)) (cond : Finset κ) :
      (q.afterPush cfg msg queue cond).pushes.map PushRecord.message =
        q.pushes.map PushRecord.message ++ [msg] := by
    simp [State.afterPush, State.record]
  rcases Option.bind_eq_some_iff.mp taken with ⟨pushed, -, rest⟩
  split at rest
  · rcases Option.map_eq_some_iff.mp rest with ⟨cond, -, rfl⟩
    exact recorded _ _
  · cases woken with
    | none =>
        cases rest
        exact recorded _ _
    | some k => cases rest

theorem pushes_of_other {a : Action κ μ} (other : ∀ msg woken, a ≠ .push msg woken)
    (taken : step cfg q a = some q') : q'.pushes = q.pushes := by
  cases step_effect taken with
  | push msg woken => exact absurd rfl (other msg woken)
  | pop k msg rest ready ran => rfl
  | other a s' queue pushes popped => exact pushes

end MessageQueue

namespace TCP.Server

open SessionManager (Id)
open MessageQueue (Numbered PushRecord)

/-- The defaults of `MessageQueue`, for `messageQueuePtr_`. -/
def queueConfig : MessageQueue.Config where
  maxMessageCount := 1024
  coverageMode := false

structure System (κ τ σ δ : Type*) where
  server : State τ σ δ
  queue : MessageQueue.State κ (Message δ)

/-- A step of the server, with the sleeper that `notify_one` wakes where a message is pushed, or
a step of a thread that takes messages. -/
inductive Event (κ τ σ δ : Type*) where
  | server (a : Action τ σ δ) (woken : Option κ)
  | empty (answer : Bool)
  | pop (k : κ)
  | consumer (k : κ)
  | spurious (k : κ)

variable {κ τ σ δ : Type*}

def Event.onServer : Event κ τ σ δ → Option (Action τ σ δ)
  | .server a _ => some a
  | _ => none

def onServer (events : List (Event κ τ σ δ)) : List (Action τ σ δ) :=
  events.filterMap Event.onServer

def FewEvents (s : System κ τ σ δ) : Event κ τ σ δ → Prop
  | .server a _ => Few s.server a
  | _ => True

variable [DecidableEq κ] [DecidableEq τ] [DecidableEq σ]

namespace System

variable (s : System κ τ σ δ)

def take (a : MessageQueue.Action κ (Message δ)) : Option (System κ τ σ δ) :=
  (MessageQueue.step queueConfig s.queue a).map fun queue => { s with queue := queue }

/-- What the handler gives to `push` goes into the queue in the same step. -/
def serve (cfg : Config) (a : Action τ σ δ) (woken : Option κ) : Option (System κ τ σ δ) :=
  (Server.step cfg s.server a).bind fun server =>
    match server.messages.drop s.server.messages.length with
    | [] => some { s with server := server }
    | message :: _ =>
        (MessageQueue.step queueConfig s.queue (.push message woken)).map fun queue =>
          { server := server, queue := queue }

def step (cfg : Config) : Event κ τ σ δ → Option (System κ τ σ δ)
  | .server a woken => s.serve cfg a woken
  | .empty answer => s.take (.empty answer)
  | .pop k => s.take (.pop k)
  | .consumer k => s.take (.consumer k)
  | .spurious k => s.take (.spurious k)

end System

def system (cfg : Config) (κ τ δ : Type*) [DecidableEq κ] [DecidableEq τ] (ownId : σ → Id)
    (created : σ → Int) : Machine (System κ τ σ δ) (Event κ τ σ δ) where
  start := { server := start cfg τ δ ownId created, queue := MessageQueue.start κ (Message δ) }
  step s := s.step cfg

/-- What the threads that call `GetMessage` may rely on. -/
structure Inbox (events : List (Event κ τ σ δ)) (s : System κ τ σ δ) : Prop where
  answerable : ∀ n ∈ s.queue.popped, ∃ x, (n.message.sessionId, x) ∈ s.server.manager.assigned ∧
    n.message.data ∈ arrivals x (onServer events) ∧
    n.message.ip = (s.server.peers x).address ∧ n.message.port = (s.server.peers x).port ∧
    ∀ y, s.server.manager.sessions.lookup n.message.sessionId = some y → y = x
  in_order : ∀ id x, (id, x) ∈ s.server.manager.assigned →
    (messagesOf id (s.queue.popped.map Numbered.message)).Sublist (arrivals x (onServer events))
  complete : (∀ r ∈ s.queue.pushes, r.full = false) →
    ∀ id x, (id, x) ∈ s.server.manager.assigned → ∃ rest,
      arrivals x (onServer events) =
        messagesOf id (s.queue.kept.map Numbered.message) ++ rest ∧
      rest.length ≤ 1 ∧ (s.server.reads x = .reading → rest = [])

structure Joined (events : List (Event κ τ σ δ)) (s : System κ τ σ δ) : Prop where
  tracks : Tracks (onServer events) s.server
  reached : (MessageQueue.machine queueConfig κ (Message δ)).Reachable s.queue
  pushes : s.queue.pushes.map PushRecord.message = s.server.messages

omit [DecidableEq κ] in
theorem messages_of_step {cfg : Config} {s s' : State τ σ δ} {a : Action τ σ δ}
    (taken : Server.step cfg s a = some s') :
    s'.messages = s.messages ∨ ∃ message, s'.messages = s.messages ++ [message] := by
  cases (step_takes taken).2 with
  | push x now data ip port pc => exact .inr ⟨_, rfl⟩
  | closeAcceptor destroying pc | destroyAcceptor pc =>
      rcases s.touch_eq .acceptor with ⟨dangling, touched⟩
      rw [touched]
      exact .inl rfl
  | destroySessions pc =>
      rw [State.closeAll_eq]
      exact .inl rfl
  | call a b manager on callable moved =>
      rw [State.closeAll_eq]
      exact .inl rfl
  | closeRead x now pc running =>
      rw [State.close_eq]
      exact .inl rfl
  | _ => exact .inl rfl

namespace Joined

variable {cfg : Config} {events : List (Event κ τ σ δ)} {s s' : System κ τ σ δ}
  {e : Event κ τ σ δ}

omit [DecidableEq τ] in
theorem take {b : MessageQueue.Action κ (Message δ)} (joined : Joined events s)
    (elsewhere : e.onServer = none) (other : ∀ msg woken, b ≠ .push msg woken)
    (taken : s.take b = some s') : Joined (events ++ [e]) s' := by
  rcases Option.map_eq_some_iff.mp taken with ⟨queue, moved, rfl⟩
  refine ⟨?_, .step b joined.reached trivial moved, ?_⟩
  · have same : onServer (events ++ [e]) = onServer events := by
      simp [onServer, elsewhere]
    rw [same]
    exact joined.tracks
  · rw [MessageQueue.pushes_of_other other moved]
    exact joined.pushes

theorem serve {a : Action τ σ δ} {woken : Option κ} (joined : Joined events s)
    (few : Few s.server a) (taken : s.serve cfg a woken = some s') :
    Joined (events ++ [.server a woken]) s' := by
  rcases Option.bind_eq_some_iff.mp taken with ⟨server, moved, rest⟩
  have tracks : Tracks (onServer (events ++ [.server a woken])) server := by
    rw [onServer, List.filterMap_append]
    exact joined.tracks.step few moved
  rcases messages_of_step moved with same | ⟨message, one⟩
  · simp only [same, List.drop_length] at rest
    cases rest
    exact ⟨tracks, joined.reached, joined.pushes.trans same.symm⟩
  · simp only [one, List.drop_left] at rest
    rcases Option.map_eq_some_iff.mp rest with ⟨queue, pushed, rfl⟩
    refine ⟨tracks, .step (.push message woken) joined.reached trivial pushed, ?_⟩
    rw [MessageQueue.pushes_of_push pushed, joined.pushes]
    exact one.symm

theorem step (joined : Joined events s) (few : FewEvents s e) (taken : s.step cfg e = some s') :
    Joined (events ++ [e]) s' := by
  cases e with
  | server a woken => exact joined.serve few taken
  | empty answer | pop k | consumer k | spurious k => exact joined.take rfl (by simp) taken

omit [DecidableEq τ] in
theorem popped_sublist (joined : Joined events s) :
    (s.queue.popped.map Numbered.message).Sublist s.server.messages := by
  have kept := MessageQueue.kept_subsequence (by decide) joined.reached
  rw [joined.pushes] at kept
  exact ((List.sublist_append_left _ _).map _).trans kept

omit [DecidableEq τ] in
theorem answerable (joined : Joined events s) {n : Numbered (Message δ)}
    (popped : n ∈ s.queue.popped) :
    ∃ x, (n.message.sessionId, x) ∈ s.server.manager.assigned ∧
      n.message.data ∈ arrivals x (onServer events) ∧
      n.message.ip = (s.server.peers x).address ∧ n.message.port = (s.server.peers x).port ∧
      ∀ y, s.server.manager.sessions.lookup n.message.sessionId = some y → y = x := by
  have issuing := joined.tracks.issuing
  have member := joined.popped_sublist.subset (List.mem_map_of_mem popped)
  rcases joined.tracks.attributed n.message member with ⟨x, given, ip, port⟩
  refine ⟨x, given, ?_, ip, port, ?_⟩
  · rcases joined.tracks.split given with ⟨rest, split, -⟩
    rw [split]
    apply List.mem_append_left
    exact List.mem_map_of_mem (List.mem_filter.mpr ⟨member, decide_eq_true rfl⟩)
  · intro y registered
    exact issuing.session_unique (issuing.registered registered) given

omit [DecidableEq τ] in
theorem inbox (joined : Joined events s) : Inbox events s := by
  refine ⟨fun n => joined.answerable, ?_, ?_⟩
  · intro id x given
    rcases joined.tracks.split given with ⟨rest, split, -⟩
    rw [split]
    exact (messagesOf_sublist id joined.popped_sublist).trans (List.sublist_append_left _ _)
  · intro roomy id x given
    rcases joined.tracks.split given with ⟨rest, split, owes⟩
    rw [MessageQueue.kept_all (by decide) joined.reached roomy, joined.pushes]
    refine ⟨rest, split, owes.length_le, ?_⟩
    intro reading
    rw [reading] at owes
    exact owes

end Joined

instance (s : System κ τ σ δ) (e : Event κ τ σ δ) : Decidable (FewEvents s e) :=
  match e with
  | .server (.accept _ _) _ => inferInstanceAs (Decidable (_ < _))
  | .server .construct _ | .server .start _ | .server .stop _ | .server .destroy _
  | .server .control _ | .server .acceptFailed _ | .server (.handleNewSession _) _
  | .server (.closeSession _) _ | .server (.scan _ _) _ | .server (.removeNext _) _
  | .server (.disconnect _) _ | .server (.arrive _ _) _ | .server (.fail _) _
  | .server (.asyncRead _ _) _ | .empty _ | .pop _ | .consumer _ | .spurious _ => .isTrue trivial

def twoClients : List (Event Unit Unit Bool Nat) :=
  [.server .construct none, .server .start none, .server (.accept false client) none,
    .server (.handleNewSession false) none, .server (.handleNewSession false) none,
    .server (.handleNewSession false) none, .server (.accept true client) none,
    .server (.handleNewSession true) none, .server (.handleNewSession true) none,
    .server (.arrive true 8) none, .server (.arrive false 7) none,
    .server (.asyncRead true 1) none, .server (.asyncRead true 1) none,
    .server (.asyncRead true 1) none, .server (.asyncRead true 1) none, .empty false, .pop (),
    .consumer (), .server (.asyncRead false 2) none]

end TCP.Server

end CommonUtils
