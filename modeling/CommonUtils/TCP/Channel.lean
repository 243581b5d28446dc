import CommonUtils.TCP.SessionRead
import CommonUtils.TCP.SessionWrite

/-! Two sessions at the ends of one connection. The transport moves the bytes in their order,
and a socket read takes any number of those that are under way. -/

namespace CommonUtils.TCP.Channel

open Search

abbrev Data := List UInt8

structure State where
  writer : SessionWrite.State
  reader : SessionRead.State

inductive Action where
  | writer (a : SessionWrite.Action)
  | receive (count : Nat)
  | asyncRead (now : Int)
  | asyncReadError

def start (now : Int) : State where
  writer := SessionWrite.start now
  reader := SessionRead.start now

def State.inTransit (s : State) : Data := s.writer.wire.drop s.reader.received.flatten.length

def State.read (endOfMessage : Data) (s : State) (a : SessionRead.Action) : Option State :=
  (SessionRead.step endOfMessage s.reader a).map fun reader => { s with reader }

def step (endOfMessage : Data) (s : State) : Action → Option State
  | .writer a => (SessionWrite.step s.writer a).map fun writer => { s with writer }
  | .receive count => s.read endOfMessage (.readSome (s.inTransit.take count))
  | .asyncRead now => s.read endOfMessage (.asyncRead now)
  | .asyncReadError => s.read endOfMessage .asyncReadError

def machine (endOfMessage : Data) (now : Int) : Machine State Action where
  start := start now
  step := step endOfMessage

/-- The delimiter stands at the end of the data, and nowhere before it. -/
def Framed (endOfMessage data : Data) : Prop :=
  endOfMessage <:+ data ∧ find endOfMessage data = some (data.length - endOfMessage.length)

/-- A message is sent, with its delimiter, when all the messages before it have been handed
on at the other end. -/
def Turn (endOfMessage : Data) (s : State) : Action → Prop
  | .writer (.sentData data) =>
      s.reader.messages.length = s.writer.sent.length ∧ Framed endOfMessage data
  | _ => True

instance (endOfMessage : Data) (s : State) : (a : Action) → Decidable (Turn endOfMessage s a)
  | .writer (.sentData _) => inferInstanceAs (Decidable (_ ∧ _ ∧ _))
  | .writer (.transfer _ _) | .writer (.asyncWrite _ _ _) | .writer .close => .isTrue trivial
  | .receive _ | .asyncRead _ | .asyncReadError => .isTrue trivial

section Steps

variable {endOfMessage : Data} {s s' : State}

theorem doWrite_frame {w w' : SessionWrite.State} (ran : w.doWrite = some w') :
    w'.wire = w.wire ∧ w'.sent = w.sent := by
  unfold SessionWrite.State.doWrite at ran
  split at ran
  · cases ran
  · cases ran
    exact ⟨rfl, rfl⟩

theorem writer_cases {w w' : SessionWrite.State} {a : SessionWrite.Action}
    (taken : SessionWrite.step w a = some w') :
    w.wire <+: w'.wire ∧
      ((∃ data, a = .sentData data ∧ w'.sent = w.sent ++ [data]) ∨
        (∀ data, a ≠ .sentData data) ∧ w'.sent = w.sent) := by
  cases a with
  | sentData data =>
      simp only [SessionWrite.step, SessionWrite.State.sentData] at taken
      split at taken
      · cases taken
        exact ⟨List.prefix_rfl, .inl ⟨data, rfl, rfl⟩⟩
      · rcases doWrite_frame taken with ⟨wire, sent⟩
        rw [wire]
        exact ⟨List.prefix_rfl, .inl ⟨data, rfl, sent⟩⟩
  | transfer i count =>
      refine ⟨?_, .inr ⟨fun _ => SessionWrite.Action.noConfusion, ?_⟩⟩ <;>
        simp only [SessionWrite.step] at taken <;> split at taken
      · cases taken
      · split at taken
        · cases taken
          exact List.prefix_append _ _
        · cases taken
      · cases taken
      · split at taken
        · cases taken
          rfl
        · cases taken
  | asyncWrite i success now =>
      have same : w'.wire = w.wire ∧ w'.sent = w.sent := by
        simp only [SessionWrite.step] at taken
        split at taken
        · cases taken
        · split at taken
          · split at taken
            · unfold SessionWrite.State.writeSucceeded at taken
              split at taken
              · cases taken
              · split at taken
                · cases taken
                  exact ⟨rfl, rfl⟩
                · rcases Option.map_eq_some_iff.mp taken with ⟨writing, ran, same⟩
                  have frame := doWrite_frame ran
                  rw [← same]
                  exact frame
            · cases taken
          · cases taken
            exact ⟨rfl, rfl⟩
      rw [same.1]
      exact ⟨List.prefix_rfl, .inr ⟨fun _ => SessionWrite.Action.noConfusion, same.2⟩⟩
  | close =>
      cases taken
      exact ⟨List.prefix_rfl, .inr ⟨fun _ => SessionWrite.Action.noConfusion, rfl⟩⟩

theorem read_cases {a : SessionRead.Action} (taken : s.read endOfMessage a = some s') :
    SessionRead.step endOfMessage s.reader a = some s'.reader ∧ s'.writer = s.writer := by
  rcases Option.map_eq_some_iff.mp taken with ⟨reader, read, same⟩
  subst same
  exact ⟨read, rfl⟩

theorem readSome_cases {r r' : SessionRead.State} {chunk : Data}
    (taken : SessionRead.step endOfMessage r (.readSome chunk) = some r') :
    r' = { r with readBuffer := r.readBuffer ++ chunk, received := r.received ++ [chunk] } := by
  simp only [SessionRead.step] at taken
  split at taken
  · cases taken
    rfl
  · cases taken

theorem asyncRead_cases {r r' : SessionRead.State} {now : Int}
    (taken : SessionRead.step endOfMessage r (.asyncRead now) = some r') :
    ∃ pos, find endOfMessage r.readBuffer = some pos ∧ r'.readBuffer = [] ∧
      r'.received = r.received ∧ r'.messages = r.messages ++ [r.readBuffer.take pos] := by
  simp only [SessionRead.step] at taken
  split at taken
  · rename_i complete
    cases found : find endOfMessage r.readBuffer with
    | none => exact absurd found complete.2
    | some pos =>
        cases taken
        refine ⟨pos, rfl, ?_⟩
        simp only [SessionRead.State.asyncRead, found]
        exact ⟨List.drop_nil, trivial, trivial⟩
  · cases taken

theorem asyncReadError_cases {r r' : SessionRead.State}
    (taken : SessionRead.step endOfMessage r .asyncReadError = some r') :
    r' = { r with closed := true } := by
  simp only [SessionRead.step] at taken
  split at taken
  · cases taken
    rfl
  · cases taken

end Steps

section Transport

variable {endOfMessage : Data} {s s' : State}

structure Carried (s : State) : Prop where
  writer : SessionWrite.Inv s.writer
  received : s.reader.received.flatten <+: s.writer.wire

theorem Carried.split (carried : Carried s) :
    s.reader.received.flatten ++ s.inTransit = s.writer.wire := by
  rw [State.inTransit]
  exact List.prefix_iff_eq_append.mp carried.received

theorem Carried.receive (carried : Carried s) (count : Nat) :
    s.reader.received.flatten ++ s.inTransit.take count <+: s.writer.wire := by
  rw [← carried.split, List.prefix_append_right_inj]
  exact List.take_prefix _ _

theorem Carried.step (carried : Carried s) {a : Action}
    (taken : Channel.step endOfMessage s a = some s') : Carried s' := by
  cases a with
  | writer a =>
      rcases Option.map_eq_some_iff.mp taken with ⟨writer, ran, same⟩
      subst same
      exact ⟨carried.writer.step ran, carried.received.trans (writer_cases ran).1⟩
  | receive count =>
      rcases read_cases taken with ⟨read, same⟩
      have received := congrArg SessionRead.State.received (readSome_cases read)
      refine ⟨same ▸ carried.writer, ?_⟩
      rw [same, received]
      simpa using carried.receive count
  | asyncRead now =>
      rcases read_cases taken with ⟨read, same⟩
      rcases asyncRead_cases read with ⟨pos, -, -, received, -⟩
      exact ⟨same ▸ carried.writer, by rw [same, received]; exact carried.received⟩
  | asyncReadError =>
      rcases read_cases taken with ⟨read, same⟩
      have received := congrArg SessionRead.State.received (asyncReadError_cases read)
      exact ⟨same ▸ carried.writer, by rw [same, received]; exact carried.received⟩

theorem Carried.prefix_sent (carried : Carried s) :
    s.reader.received.flatten <+: s.writer.sent.flatten :=
  carried.received.trans carried.writer.wire_prefix

end Transport

section Lockstep

variable {endOfMessage : Data} {s s' : State}

/-- Either every message has been handed on, or the last one is still on its way: a part of it
is in the buffer, and `tail` is what the socket has not read. -/
inductive Progress (endOfMessage : Data) (s : State) : Prop where
  | handed (bodies : List Data) (sent : s.writer.sent = bodies.map (· ++ endOfMessage))
      (messages : s.reader.messages = bodies) (buffer : s.reader.readBuffer = [])
      (received : s.reader.received.flatten = s.writer.sent.flatten)
  | underWay (bodies : List Data) (last tail : Data)
      (sent : s.writer.sent = (bodies ++ [last]).map (· ++ endOfMessage))
      (messages : s.reader.messages = bodies)
      (clean : find endOfMessage (last ++ endOfMessage) = some last.length)
      (buffer : s.reader.readBuffer ++ tail = last ++ endOfMessage)
      (received : s.reader.received.flatten ++ tail = s.writer.sent.flatten)

theorem Progress.sent_eq (progress : Progress endOfMessage s) :
    ∃ bodies, s.writer.sent = bodies.map (· ++ endOfMessage) ∧ s.reader.messages <+: bodies ∧
      bodies.length ≤ s.reader.messages.length + 1 := by
  cases progress with
  | handed bodies sent messages buffer received =>
      exact ⟨bodies, sent, messages ▸ List.prefix_rfl, by rw [messages]; omega⟩
  | underWay bodies last tail sent messages clean buffer received =>
      refine ⟨bodies ++ [last], sent, messages ▸ List.prefix_append _ _, ?_⟩
      rw [messages, List.length_append]
      exact Nat.le_refl _

theorem whole_of_find {buffer tail last : Data} {pos : Nat} (nonempty : endOfMessage ≠ [])
    (clean : find endOfMessage (last ++ endOfMessage) = some last.length)
    (split : buffer ++ tail = last ++ endOfMessage)
    (found : find endOfMessage buffer = some pos) : tail = [] ∧ buffer.take pos = last := by
  have here : find endOfMessage (buffer ++ tail) = some pos := find_append nonempty found
  rw [split, clean] at here
  cases here
  have fits := (length_of_find found nonempty).1
  have lengths := congrArg List.length split
  rw [List.length_append, List.length_append] at lengths
  have none : tail = [] := List.length_eq_zero_iff.mp (by omega)
  rw [none, List.append_nil] at split
  rw [split]
  exact ⟨none, List.take_left⟩

theorem Progress.writer (progress : Progress endOfMessage s) {a : SessionWrite.Action}
    (allowed : Turn endOfMessage s (.writer a))
    (taken : Channel.step endOfMessage s (.writer a) = some s') : Progress endOfMessage s' := by
  rcases Option.map_eq_some_iff.mp taken with ⟨writer, ran, same⟩
  subst same
  rcases (writer_cases ran).2 with ⟨data, isSend, sent⟩ | ⟨-, sent⟩
  · subst isSend
    rcases allowed with ⟨turn, ⟨body, framed⟩, clean⟩
    rw [← framed, List.length_append, Nat.add_sub_cancel] at clean
    cases progress with
    | handed bodies before messages buffer received =>
        refine .underWay bodies body (body ++ endOfMessage) ?_ messages clean ?_ ?_
        · show writer.sent = _
          rw [sent, before, ← framed, List.map_append]
          rfl
        · rw [buffer, List.nil_append]
        · show s.reader.received.flatten ++ _ = writer.sent.flatten
          rw [sent, ← framed, received, List.flatten_append]
          simp
    | underWay bodies last tail before messages clean buffer received =>
        rw [messages, before, List.length_map, List.length_append] at turn
        simp at turn
  · cases progress with
    | handed bodies before messages buffer received =>
        exact .handed bodies (sent.trans before) messages buffer
          (received.trans (congrArg List.flatten sent.symm))
    | underWay bodies last tail before messages clean buffer received =>
        exact .underWay bodies last tail (sent.trans before) messages clean buffer
          (received.trans (congrArg List.flatten sent.symm))

theorem Progress.receive (progress : Progress endOfMessage s) (carried : Carried s) {count : Nat}
    (taken : Channel.step endOfMessage s (.receive count) = some s') :
    Progress endOfMessage s' := by
  rcases read_cases taken with ⟨read, writer⟩
  have reader := readSome_cases read
  have arrived : s.reader.received.flatten ++ s.inTransit.take count <+:
      s.writer.sent.flatten := (carried.receive count).trans carried.writer.wire_prefix
  cases progress with
  | handed bodies sent messages buffer received =>
      -- everything has been read, so that the read is of no bytes
      rw [← received] at arrived
      have none : s.inTransit.take count = [] := by
        have short := arrived.length_le
        rw [List.length_append] at short
        exact List.length_eq_zero_iff.mp (by omega)
      refine .handed bodies (writer ▸ sent) ?_ ?_ ?_
      · rw [reader]
        exact messages
      · rw [reader]
        show s.reader.readBuffer ++ _ = _
        rw [buffer, none]
        rfl
      · rw [reader, writer, ← received, none]
        simp
  | underWay bodies last tail sent messages clean buffer received =>
      rw [← received, List.prefix_append_right_inj] at arrived
      rcases arrived with ⟨later, split⟩
      refine .underWay bodies last later (writer ▸ sent) ?_ clean ?_ ?_
      · rw [reader]
        exact messages
      · rw [reader, ← buffer, ← split]
        exact List.append_assoc _ _ _
      · rw [reader, writer, ← received, ← split]
        simp

theorem Progress.asyncRead (progress : Progress endOfMessage s) (nonempty : endOfMessage ≠ [])
    {now : Int} (taken : Channel.step endOfMessage s (.asyncRead now) = some s') :
    Progress endOfMessage s' := by
  rcases read_cases taken with ⟨read, writer⟩
  rcases asyncRead_cases read with ⟨pos, found, drained, received', messages'⟩
  cases progress with
  | handed bodies sent messages buffer received =>
      rw [buffer] at found
      have absent : find endOfMessage [] = none := by simp [find, nonempty]
      cases absent.symm.trans found
  | underWay bodies last tail sent messages clean buffer received =>
      rcases whole_of_find nonempty clean buffer found with ⟨none, whole⟩
      refine .handed (bodies ++ [last]) (writer ▸ sent) ?_ drained ?_
      · rw [messages', messages, whole]
      · rw [received', writer, ← received, none, List.append_nil]

theorem Progress.asyncReadError (progress : Progress endOfMessage s)
    (taken : Channel.step endOfMessage s .asyncReadError = some s') :
    Progress endOfMessage s' := by
  rcases read_cases taken with ⟨read, writer⟩
  have reader := asyncReadError_cases read
  cases progress with
  | handed bodies sent messages buffer received =>
      refine .handed bodies (writer ▸ sent) ?_ ?_ ?_ <;> rw [reader]
      · exact messages
      · exact buffer
      · rw [writer]
        exact received
  | underWay bodies last tail sent messages clean buffer received =>
      refine .underWay bodies last tail (writer ▸ sent) ?_ clean ?_ ?_ <;> rw [reader]
      · exact messages
      · exact buffer
      · rw [writer]
        exact received

theorem Progress.step (progress : Progress endOfMessage s) (carried : Carried s)
    (nonempty : endOfMessage ≠ []) {a : Action} (allowed : Turn endOfMessage s a)
    (taken : Channel.step endOfMessage s a = some s') : Progress endOfMessage s' := by
  cases a with
  | writer a => exact progress.writer allowed taken
  | receive count => exact progress.receive carried taken
  | asyncRead now => exact progress.asyncRead nonempty taken
  | asyncReadError => exact progress.asyncReadError taken

theorem Progress.settled (progress : Progress endOfMessage s)
    (settled : SessionRead.Settled endOfMessage s.reader)
    (read : s.reader.received.flatten = s.writer.sent.flatten) :
    s.writer.sent = s.reader.messages.map (· ++ endOfMessage) := by
  cases progress with
  | handed bodies sent messages buffer received => rw [messages, sent]
  | underWay bodies last tail sent messages clean buffer received =>
      have none : tail = [] := by
        rw [← read] at received
        exact List.append_right_eq_self.mp received
      rw [none, List.append_nil] at buffer
      rw [SessionRead.Settled, buffer, clean] at settled
      cases settled

structure InTurn (endOfMessage : Data) (s : State) : Prop where
  carried : Carried s
  progress : Progress endOfMessage s

theorem InTurn.start (now : Int) : InTurn endOfMessage (Channel.start now) :=
  ⟨⟨.start now, List.nil_prefix⟩, .handed [] rfl rfl rfl rfl⟩

theorem InTurn.step (inTurn : InTurn endOfMessage s) (nonempty : endOfMessage ≠ []) {a : Action}
    (allowed : Turn endOfMessage s a) (taken : Channel.step endOfMessage s a = some s') :
    InTurn endOfMessage s' :=
  ⟨inTurn.carried.step taken, inTurn.progress.step inTurn.carried nonempty allowed taken⟩

end Lockstep

/-- However the transport cuts the stream, two sessions that take turns lose, change and
reorder nothing: what is handed on is what was sent without its delimiters, but for at most the
last message, and that one as soon as it has been read. -/
theorem lockstep_exact (endOfMessage : Data) (nonempty : endOfMessage ≠ []) (now : Int) (s : State)
    (reached : (machine endOfMessage now).ReachUnder (Turn endOfMessage) s) :
    (∃ bodies, s.writer.sent = bodies.map (· ++ endOfMessage) ∧ s.reader.messages <+: bodies ∧
      bodies.length ≤ s.reader.messages.length + 1) ∧
    s.reader.received.flatten <+: s.writer.sent.flatten ∧
    (SessionRead.Settled endOfMessage s.reader →
      s.reader.received.flatten = s.writer.sent.flatten →
        s.writer.sent = s.reader.messages.map (· ++ endOfMessage)) := by
  have inTurn : InTurn endOfMessage s :=
    reached.invariant (.start now) fun _ _ _ inTurn allowed taken =>
      inTurn.step nonempty allowed taken
  exact ⟨inTurn.progress.sent_eq, inTurn.carried.prefix_sent, inTurn.progress.settled⟩

def turns : List Action :=
  [.writer (.sentData [97, 98, 10]), .writer (.transfer 0 3), .receive 2, .receive 5, .asyncRead 1,
    .writer (.asyncWrite 0 true 1), .writer (.sentData [99, 10]), .writer (.transfer 0 1),
    .receive 1, .writer (.transfer 0 1), .receive 1, .asyncRead 2]

theorem lockstep_exact_turns :
    ∃ s : State, s.reader.messages = [[97, 98], [99]] ∧
      (∃ bodies, s.writer.sent = bodies.map (· ++ [10]) ∧ s.reader.messages <+: bodies ∧
        bodies.length ≤ s.reader.messages.length + 1) ∧
      s.reader.received.flatten <+: s.writer.sent.flatten ∧
      (SessionRead.Settled [10] s.reader →
        s.reader.received.flatten = s.writer.sent.flatten →
          s.writer.sent = s.reader.messages.map (· ++ [10])) :=
  ⟨_, rfl, lockstep_exact [10] (by decide) 0 _
    (Machine.reachFrom_of_runGuarded turns .origin rfl)⟩

end CommonUtils.TCP.Channel
