import CommonUtils.TCP.Channel

/-! A client that asks and a server that answers over one connection, each going by what it has
seen itself: the client asks again when all its requests have been answered, and the server
answers what has been handed on to it, in order. The two halves of a session fail on their own
here, which only adds runs. -/

namespace CommonUtils.TCP.Dialogue

open Channel (Data Framed Turn InTurn)

structure State where
  requests : Channel.State
  replies : Channel.State

inductive Action where
  | requests (a : Channel.Action)
  | replies (a : Channel.Action)

def start (now : Int) : State where
  requests := Channel.start now
  replies := Channel.start now

def step (endOfMessage : Data) (s : State) : Action → Option State
  | .requests a =>
      (Channel.step endOfMessage s.requests a).map fun requests => { s with requests }
  | .replies a => (Channel.step endOfMessage s.replies a).map fun replies => { s with replies }

def machine (endOfMessage : Data) (now : Int) : Machine State Action where
  start := start now
  step := step endOfMessage

def State.answer (answer : Data → Data) (endOfMessage : Data) (s : State) : Option Data :=
  s.requests.reader.messages[s.replies.writer.sent.length]?.map fun request =>
    answer request ++ endOfMessage

/-- What is sent by the client and by the server. -/
def Polite (answer : Data → Data) (endOfMessage : Data) (s : State) : Action → Prop
  | .requests (.writer (.sentData data)) =>
      s.replies.reader.messages.length = s.requests.writer.sent.length ∧ Framed endOfMessage data
  | .replies (.writer (.sentData data)) =>
      s.answer answer endOfMessage = some data ∧ Framed endOfMessage data
  | _ => True

instance (answer : Data → Data) (endOfMessage : Data) (s : State) :
    (a : Action) → Decidable (Polite answer endOfMessage s a)
  | .requests (.writer (.sentData _)) | .replies (.writer (.sentData _)) =>
      inferInstanceAs (Decidable (_ ∧ _ ∧ _))
  | .requests (.writer (.transfer _ _)) | .requests (.writer (.asyncWrite _ _ _))
  | .requests (.writer .close) | .requests (.receive _) | .requests (.asyncRead _)
  | .requests .asyncReadError | .replies (.writer (.transfer _ _))
  | .replies (.writer (.asyncWrite _ _ _)) | .replies (.writer .close) | .replies (.receive _)
  | .replies (.asyncRead _) | .replies .asyncReadError => .isTrue trivial

structure Answered (answer : Data → Data) (endOfMessage : Data) (s : State) : Prop where
  requests : InTurn endOfMessage s.requests
  replies : InTurn endOfMessage s.replies
  answered : ∃ handled, handled <+: s.requests.reader.messages ∧
    s.replies.writer.sent = handled.map fun request => answer request ++ endOfMessage
  asked : s.requests.writer.sent.length ≤ s.replies.reader.messages.length + 1

variable {answer : Data → Data} {endOfMessage : Data} {s s' : State}

theorem channel_cases {c c' : Channel.State} {a : Channel.Action}
    (taken : Channel.step endOfMessage c a = some c') :
    (∃ data, a = .writer (.sentData data) ∧ c'.writer.sent = c.writer.sent ++ [data] ∧
        c'.reader = c.reader) ∨
      Turn endOfMessage c a ∧ c'.writer.sent = c.writer.sent ∧
        c.reader.messages <+: c'.reader.messages := by
  cases a with
  | writer a =>
      rcases Option.map_eq_some_iff.mp taken with ⟨writer, ran, rfl⟩
      rcases (Channel.writer_cases ran).2 with ⟨data, rfl, sent⟩ | ⟨other, sent⟩
      · exact .inl ⟨data, rfl, sent, rfl⟩
      · refine .inr ⟨?_, sent, List.prefix_rfl⟩
        cases a with
        | sentData data => exact absurd rfl (other data)
        | _ => exact trivial
  | receive count =>
      rcases Channel.read_cases taken with ⟨read, same⟩
      rw [same, Channel.readSome_cases read]
      exact .inr ⟨trivial, rfl, List.prefix_rfl⟩
  | asyncRead now =>
      rcases Channel.read_cases taken with ⟨read, same⟩
      rcases Channel.asyncRead_cases read with ⟨pos, -, -, -, messages⟩
      rw [same, messages]
      exact .inr ⟨trivial, rfl, List.prefix_append _ _⟩
  | asyncReadError =>
      rcases Channel.read_cases taken with ⟨read, same⟩
      rw [same, Channel.asyncReadError_cases read]
      exact .inr ⟨trivial, rfl, List.prefix_rfl⟩

theorem lengths_of_inTurn {c : Channel.State} (inTurn : InTurn endOfMessage c) :
    c.reader.messages.length ≤ c.writer.sent.length ∧
      c.writer.sent.length ≤ c.reader.messages.length + 1 := by
  rcases inTurn.progress.sent_eq with ⟨bodies, sent, handed, few⟩
  rw [sent, List.length_map]
  exact ⟨handed.length_le, few⟩

namespace Answered

theorem start (now : Int) : Answered answer endOfMessage (Dialogue.start now) where
  requests := .start now
  replies := .start now
  answered := ⟨[], List.nil_prefix, rfl⟩
  asked := Nat.zero_le _

theorem sent_le (answered : Answered answer endOfMessage s) :
    s.replies.writer.sent.length ≤ s.requests.reader.messages.length := by
  rcases answered.answered with ⟨handled, seen, sent⟩
  rw [sent, List.length_map]
  exact seen.length_le

theorem stepRequests (answered : Answered answer endOfMessage s) (nonempty : endOfMessage ≠ [])
    {a : Channel.Action} (polite : Polite answer endOfMessage s (.requests a))
    (taken : Dialogue.step endOfMessage s (.requests a) = some s') :
    Answered answer endOfMessage s' := by
  rcases Option.map_eq_some_iff.mp taken with ⟨requests, ran, rfl⟩
  rcases channel_cases ran with ⟨data, rfl, sent, reader⟩ | ⟨turn, sent, handed⟩
  · have asked : s.replies.reader.messages.length = s.requests.writer.sent.length := polite.1
    have turn : Turn endOfMessage s.requests (.writer (.sentData data)) := by
      refine ⟨?_, polite.2⟩
      have seen := lengths_of_inTurn answered.requests
      have back := lengths_of_inTurn answered.replies
      have replied := answered.sent_le
      omega
    refine ⟨answered.requests.step nonempty turn ran, answered.replies, ?_, ?_⟩
    · simp only [reader]
      exact answered.answered
    · simp only [sent, List.length_append, List.length_singleton, asked, le_refl]
  · refine ⟨answered.requests.step nonempty turn ran, answered.replies, ?_, ?_⟩
    · rcases answered.answered with ⟨handled, seen, replied⟩
      exact ⟨handled, seen.trans handed, replied⟩
    · simp only [sent]
      exact answered.asked

theorem stepReplies (answered : Answered answer endOfMessage s) (nonempty : endOfMessage ≠ [])
    {a : Channel.Action} (polite : Polite answer endOfMessage s (.replies a))
    (taken : Dialogue.step endOfMessage s (.replies a) = some s') :
    Answered answer endOfMessage s' := by
  rcases Option.map_eq_some_iff.mp taken with ⟨replies, ran, rfl⟩
  rcases channel_cases ran with ⟨data, rfl, sent, reader⟩ | ⟨turn, sent, handed⟩
  · rcases Option.map_eq_some_iff.mp polite.1 with ⟨request, next, whole⟩
    have left := (List.getElem?_eq_some_iff.mp next).1
    have turn : Turn endOfMessage s.replies (.writer (.sentData data)) := by
      refine ⟨?_, polite.2⟩
      have seen := lengths_of_inTurn answered.requests
      have back := lengths_of_inTurn answered.replies
      have asked := answered.asked
      omega
    refine ⟨answered.requests, answered.replies.step nonempty turn ran, ?_, ?_⟩
    · rcases answered.answered with ⟨handled, seen, replied⟩
      rw [replied, List.length_map] at next
      have longer : handled ++ [request] =
          s.requests.reader.messages.take (handled.length + 1) := by
        rw [List.take_add_one, next, Option.toList_some, ← List.prefix_iff_eq_take.mp seen]
      refine ⟨handled ++ [request], longer ▸ List.take_prefix _ _, ?_⟩
      simp only [sent, replied, List.map_append, List.map_singleton, whole]
    · simp only [reader]
      exact answered.asked
  · refine ⟨answered.requests, answered.replies.step nonempty turn ran, ?_, ?_⟩
    · simp only [sent]
      exact answered.answered
    · exact answered.asked.trans (Nat.add_le_add_right handed.length_le 1)

theorem step (answered : Answered answer endOfMessage s) (nonempty : endOfMessage ≠ [])
    {a : Action} (polite : Polite answer endOfMessage s a)
    (taken : Dialogue.step endOfMessage s a = some s') : Answered answer endOfMessage s' := by
  cases a with
  | requests a => exact answered.stepRequests nonempty polite taken
  | replies a => exact answered.stepReplies nonempty polite taken

end Answered

/-- Everything that was sent has been read, and the server has answered what it has seen. -/
structure AllAnswered (endOfMessage : Data) (s : State) : Prop where
  requests : SessionRead.Settled endOfMessage s.requests.reader ∧
    s.requests.reader.received.flatten = s.requests.writer.sent.flatten
  replies : SessionRead.Settled endOfMessage s.replies.reader ∧
    s.replies.reader.received.flatten = s.replies.writer.sent.flatten
  answered : s.replies.writer.sent.length = s.requests.reader.messages.length

theorem append_injective (endOfMessage : Data) :
    Function.Injective fun body : Data => body ++ endOfMessage :=
  fun _ _ same => List.append_cancel_right same

/-- However the transport cuts the two streams, what the client is handed are the answers to its
requests, in order and each once; at most the last request is without one, and none is where
everything has arrived. -/
theorem dialogue_exact (answer : Data → Data) (endOfMessage : Data) (nonempty : endOfMessage ≠ [])
    (now : Int) (s : State)
    (reached : (machine endOfMessage now).ReachUnder (Polite answer endOfMessage) s) :
    ∃ bodies, s.requests.writer.sent = bodies.map (· ++ endOfMessage) ∧
      s.requests.reader.messages <+: bodies ∧
      s.replies.reader.messages <+: bodies.map answer ∧
      bodies.length ≤ s.replies.reader.messages.length + 1 ∧
      (AllAnswered endOfMessage s → s.replies.reader.messages = bodies.map answer) := by
  have answered : Answered answer endOfMessage s :=
    reached.invariant (.start now) fun _ _ _ answered polite taken =>
      answered.step nonempty polite taken
  rcases answered.requests.progress.sent_eq with ⟨bodies, sent, seen, -⟩
  rcases answered.replies.progress.sent_eq with ⟨texts, replied, handed, -⟩
  rcases answered.answered with ⟨handled, first, texts'⟩
  have texts_eq : texts = handled.map answer := by
    apply List.map_injective_iff.mpr (append_injective endOfMessage)
    rw [← replied, texts', List.map_map]
    rfl
  refine ⟨bodies, sent, seen, ?_, ?_, ?_⟩
  · rw [texts_eq] at handed
    exact handed.trans ((first.trans seen).map answer)
  · have asked := answered.asked
    rwa [sent, List.length_map] at asked
  · intro all
    have requests := answered.requests.progress.settled all.requests.1 all.requests.2
    have replies := answered.replies.progress.settled all.replies.1 all.replies.2
    rw [sent] at requests
    rw [replied] at replies
    have whole := List.map_injective_iff.mpr (append_injective endOfMessage) requests
    have back := List.map_injective_iff.mpr (append_injective endOfMessage) replies
    have length := all.answered
    rw [texts', List.length_map] at length
    rw [← back, texts_eq, whole, first.eq_of_length length]

def dialogue : List Action :=
  [.requests (.writer (.sentData [97, 98, 10])), .requests (.writer (.transfer 0 3)),
    .requests (.receive 3), .requests (.asyncRead 1), .replies (.writer (.sentData [98, 97, 10])),
    .replies (.writer (.transfer 0 3)), .replies (.receive 1), .replies (.receive 5),
    .replies (.asyncRead 2), .requests (.writer (.asyncWrite 0 true 3)),
    .requests (.writer (.sentData [99, 10]))]

theorem dialogue_exact_reversing :
    ∃ s : State, s.replies.reader.messages = [[98, 97]] ∧
      ∃ bodies, s.requests.writer.sent = bodies.map (· ++ [10]) ∧
        s.requests.reader.messages <+: bodies ∧
        s.replies.reader.messages <+: bodies.map List.reverse ∧
        bodies.length ≤ s.replies.reader.messages.length + 1 ∧
        (AllAnswered [10] s → s.replies.reader.messages = bodies.map List.reverse) :=
  ⟨_, rfl, dialogue_exact List.reverse [10] (by decide) 0 _
    (Machine.reachFrom_of_runGuarded dialogue .origin rfl)⟩

end CommonUtils.TCP.Dialogue
