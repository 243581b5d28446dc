import CommonUtils.Library.Machine
import CommonUtils.Library.Search

/-! The read path of a session. `async_read_until` completes once `readBuffer_`
contains `endOfMessage_` and until then asks the socket for more bytes; each
completion runs `AsyncRead`, which starts the next read. -/

namespace CommonUtils.TCP.SessionRead

open Search

abbrev Data := List UInt8

/-- The fields of `Session` that the read path uses, with what happened so far:
the socket reads and the strings passed to `messageHandler_`, which is set. -/
structure State where
  readBuffer : Data
  lastActiveTime : Int
  closed : Bool
  received : List Data
  messages : List Data

inductive Action where
  | readSome (chunk : Data)
  | asyncRead (now : Int)
  | asyncReadError

def start (now : Int) : State where
  readBuffer := []
  lastActiveTime := now
  closed := false
  received := []
  messages := []

/-- `AsyncRead` without an error. `oss << &readBuffer_` takes every byte out of
the buffer, those behind the delimiter too, so that `consume` finds it empty. -/
def State.asyncRead (endOfMessage : Data) (s : State) (now : Int) : State :=
  let data := s.readBuffer
  let drained : Data := []
  match find endOfMessage data with
  | some pos =>
      { s with
        readBuffer := drained.drop (pos + endOfMessage.length)
        messages := s.messages ++ [data.take pos]
        lastActiveTime := now }
  -- what was read is gone all the same
  | none => { s with readBuffer := drained, lastActiveTime := now }

def step (endOfMessage : Data) (s : State) : Action → Option State
  | .readSome chunk =>
      if s.closed = false ∧ find endOfMessage s.readBuffer = none then
        some { s with readBuffer := s.readBuffer ++ chunk, received := s.received ++ [chunk] }
      else none
  | .asyncRead now =>
      if s.closed = false ∧ find endOfMessage s.readBuffer ≠ none then
        some (s.asyncRead endOfMessage now)
      else none
  | .asyncReadError =>
      if s.closed = false ∧ find endOfMessage s.readBuffer = none then
        some { s with closed := true }
      else none

def machine (endOfMessage : Data) (now : Int) : Machine State Action where
  start := start now
  step := step endOfMessage

/-- No completion is pending: every byte received has been looked at. -/
def Settled (endOfMessage : Data) (s : State) : Prop :=
  find endOfMessage s.readBuffer = none

instance (endOfMessage : Data) (s : State) : Decidable (Settled endOfMessage s) :=
  inferInstanceAs (Decidable (_ = _))

/-- The frames of a stream, cut at its leftmost non-overlapping delimiters. -/
abbrev frames (endOfMessage stream : Data) : List Data := pieces endOfMessage stream

def framed (endOfMessage : Data) (count : Nat) (stream : Data) : Data :=
  ((frames endOfMessage stream).take count).flatMap (· ++ endOfMessage)

/-- A socket read ends exactly where each frame but the last does. -/
def CutAtFrames (endOfMessage : Data) (chunks : List Data) : Prop :=
  ∀ count < (frames endOfMessage chunks.flatten).length,
    ∃ reads, (chunks.take reads).flatten = framed endOfMessage count chunks.flatten

/-- No proper end of the delimiter is a beginning of it. -/
def Unbordered (endOfMessage : Data) : Prop :=
  ∀ shift, 0 < shift → shift < endOfMessage.length →
    ¬ endOfMessage.drop shift <+: endOfMessage

/-- The messages handed on by a session that holds `buffer` and reads `chunks`. -/
def deliver (endOfMessage : Data) : Data → List Data → List Data
  | _, [] => []
  | buffer, chunk :: chunks =>
      match find endOfMessage (buffer ++ chunk) with
      | some pos => (buffer ++ chunk).take pos :: deliver endOfMessage [] chunks
      | none => deliver endOfMessage (buffer ++ chunk) chunks

def buffered (endOfMessage : Data) : Data → List Data → Data
  | buffer, [] => buffer
  | buffer, chunk :: chunks =>
      match find endOfMessage (buffer ++ chunk) with
      | some _ => buffered endOfMessage [] chunks
      | none => buffered endOfMessage (buffer ++ chunk) chunks

section Rounds

variable {endOfMessage : Data}

theorem deliver_of_none {buffer chunk : Data} (chunks : List Data)
    (absent : find endOfMessage (buffer ++ chunk) = none) :
    deliver endOfMessage buffer (chunk :: chunks) =
      deliver endOfMessage (buffer ++ chunk) chunks := by
  simp only [deliver, absent]

theorem deliver_of_find {buffer chunk : Data} {pos : Nat} (chunks : List Data)
    (found : find endOfMessage (buffer ++ chunk) = some pos) :
    deliver endOfMessage buffer (chunk :: chunks) =
      (buffer ++ chunk).take pos :: deliver endOfMessage [] chunks := by
  simp only [deliver, found]

theorem deliver_append (buffer : Data) (front back : List Data) :
    deliver endOfMessage buffer (front ++ back) =
      deliver endOfMessage buffer front ++
        deliver endOfMessage (buffered endOfMessage buffer front) back := by
  induction front generalizing buffer with
  | nil => rfl
  | cons chunk front ih =>
      simp only [List.cons_append, deliver, buffered]
      split <;> simp [ih]

theorem buffered_append (buffer : Data) (front back : List Data) :
    buffered endOfMessage buffer (front ++ back) =
      buffered endOfMessage (buffered endOfMessage buffer front) back := by
  induction front generalizing buffer with
  | nil => rfl
  | cons chunk front ih =>
      simp only [List.cons_append, buffered]
      split <;> rw [ih]

end Rounds

/-- What the session holds: between two completions exactly the outcome of its
reads, and before a pending completion the outcome of all but the last. -/
inductive Inv (endOfMessage : Data) (s : State) : Prop
  | settled (quiet : find endOfMessage s.readBuffer = none)
      (buffer : s.readBuffer = buffered endOfMessage [] s.received)
      (messages : s.messages = deliver endOfMessage [] s.received)
  | pending (front : List Data) (chunk : Data) (received : s.received = front ++ [chunk])
      (completed : find endOfMessage s.readBuffer ≠ none)
      (buffer : s.readBuffer = buffered endOfMessage [] front ++ chunk)
      (messages : s.messages = deliver endOfMessage [] front)

namespace Inv

variable {endOfMessage : Data}

theorem start (nonempty : endOfMessage ≠ []) (now : Int) :
    Inv endOfMessage (SessionRead.start now) :=
  .settled (by simp [SessionRead.start, find, nonempty]) rfl rfl

theorem readSome {s : State} (inv : Inv endOfMessage s) (chunk : Data)
    (quiet : find endOfMessage s.readBuffer = none) :
    Inv endOfMessage
      { s with readBuffer := s.readBuffer ++ chunk, received := s.received ++ [chunk] } := by
  cases inv with
  | pending front last received completed => exact absurd quiet completed
  | settled _ buffer messages =>
      cases found : find endOfMessage (s.readBuffer ++ chunk) with
      | some pos =>
          exact .pending s.received chunk rfl (by simp [found]) (by simp [buffer]) messages
      | none =>
          apply Inv.settled found
          · simp only [buffered_append, ← buffer, buffered, found]
          · simp only [messages, deliver_append, ← buffer, deliver, found, List.append_nil]

theorem asyncRead {s : State} (inv : Inv endOfMessage s) (nonempty : endOfMessage ≠ []) (now : Int)
    (completed : find endOfMessage s.readBuffer ≠ none) :
    Inv endOfMessage (s.asyncRead endOfMessage now) := by
  cases inv with
  | settled quiet => exact absurd quiet completed
  | pending front chunk received _ buffer messages =>
      rcases Option.ne_none_iff_exists'.mp completed with ⟨pos, found⟩
      have found' := found
      rw [buffer] at found'
      simp only [State.asyncRead, found, List.drop_nil]
      apply Inv.settled
      · simp [find, nonempty]
      · simp only [received, buffered_append, buffered, found']
      · simp only [received, messages, deliver_append, deliver, found', buffer]

theorem step {s s' : State} {a : Action} (nonempty : endOfMessage ≠ [])
    (inv : Inv endOfMessage s) (taken : SessionRead.step endOfMessage s a = some s') :
    Inv endOfMessage s' := by
  cases a with
  | readSome chunk =>
      simp only [SessionRead.step] at taken
      split at taken <;> cases taken
      rename_i enabled
      exact inv.readSome chunk enabled.2
  | asyncRead now =>
      simp only [SessionRead.step] at taken
      split at taken <;> cases taken
      rename_i enabled
      exact inv.asyncRead nonempty now enabled.2
  | asyncReadError =>
      simp only [SessionRead.step] at taken
      split at taken <;> cases taken
      cases inv with
      | settled quiet buffer messages => exact .settled quiet buffer messages
      | pending front chunk received completed buffer messages =>
          exact .pending front chunk received completed buffer messages

/-- In every state without a pending completion the messages are what the reads
received so far deliver. -/
theorem messages {s : State} (inv : Inv endOfMessage s) (settled : Settled endOfMessage s) :
    s.messages = deliver endOfMessage [] s.received := by
  cases inv with
  | settled quiet buffer messages => exact messages
  | pending front chunk received completed => exact absurd settled completed

end Inv

section Streams

variable {endOfMessage : Data}

theorem frames_of_find {text : Data} {pos : Nat} (later : Data) (nonempty : endOfMessage ≠ [])
    (found : find endOfMessage text = some pos) :
    frames endOfMessage (text ++ later) =
      text.take pos :: frames endOfMessage (text.drop (pos + endOfMessage.length) ++ later) := by
  have fits := length_of_find found nonempty
  unfold frames
  rw [pieces_of_find nonempty (find_append nonempty found),
    List.take_append_of_le_length (by omega), List.drop_append_of_le_length fits.1]

theorem framed_of_find {text : Data} {pos : Nat} (later : Data) (nonempty : endOfMessage ≠ [])
    (found : find endOfMessage text = some pos) (count : Nat) :
    framed endOfMessage (count + 1) (text ++ later) =
      text.take pos ++ endOfMessage ++
        framed endOfMessage count (text.drop (pos + endOfMessage.length) ++ later) := by
  unfold framed
  rw [frames_of_find later nonempty found, List.take_succ_cons, List.flatMap_cons]

theorem occurrences_deliver (endOfMessage buffer : Data) (chunks : List Data) :
    Occurrences endOfMessage (deliver endOfMessage buffer chunks).length
      (buffer ++ chunks.flatten) := by
  induction chunks generalizing buffer with
  | nil => exact .none _
  | cons chunk chunks ih =>
      rw [List.flatten_cons, ← List.append_assoc]
      cases found : find endOfMessage (buffer ++ chunk) with
      | none =>
          rw [deliver_of_none chunks found]
          exact ih (buffer ++ chunk)
      | some pos =>
          have rest := (ih []).extend ((buffer ++ chunk).drop (pos + endOfMessage.length))
          have occurs := rest.next ((buffer ++ chunk).take pos)
          rw [List.nil_append, ← List.append_assoc, ← split_of_find found] at occurs
          rw [deliver_of_find chunks found]
          exact occurs

theorem deliver_length_le (buffer : Data) (chunks : List Data) (nonempty : endOfMessage ≠ []) :
    (deliver endOfMessage buffer chunks).length ≤
      (frames endOfMessage (buffer ++ chunks.flatten)).length :=
  (occurrences_deliver endOfMessage buffer chunks).le_pieces nonempty

theorem deliver_eq_cons {buffer message : Data} {chunks messages : List Data}
    (delivered : deliver endOfMessage buffer chunks = message :: messages) :
    ∃ later, buffer ++ chunks.flatten = message ++ endOfMessage ++ later ∧
      Occurrences endOfMessage messages.length later := by
  induction chunks generalizing buffer with
  | nil => cases delivered
  | cons chunk chunks ih =>
      rw [List.flatten_cons, ← List.append_assoc]
      cases found : find endOfMessage (buffer ++ chunk) with
      | none =>
          rw [deliver_of_none chunks found] at delivered
          exact ih delivered
      | some pos =>
          rw [deliver_of_find chunks found, List.cons.injEq] at delivered
          rcases delivered with ⟨first, rest⟩
          refine ⟨(buffer ++ chunk).drop (pos + endOfMessage.length) ++ chunks.flatten, ?_, ?_⟩
          · rw [← List.append_assoc, ← first, ← split_of_find found]
          · rw [← rest]
            have occurs := occurrences_deliver endOfMessage [] chunks
            exact occurs.extend _

def CutBehind (endOfMessage buffer : Data) (chunks : List Data) : Prop :=
  ∀ count, 0 < count → count < (frames endOfMessage (buffer ++ chunks.flatten)).length →
    ∃ reads, buffer ++ (chunks.take reads).flatten =
      framed endOfMessage count (buffer ++ chunks.flatten)

theorem cutAtFrames_iff (chunks : List Data) :
    CutAtFrames endOfMessage chunks ↔ CutBehind endOfMessage [] chunks := by
  constructor
  · intro cut count _ inside
    exact cut count inside
  · intro cut count inside
    cases count with
    | zero => exact ⟨0, rfl⟩
    | succ count => exact cut (count + 1) (by omega) inside

theorem framed_ne_of_quiet {buffer stream : Data} {count : Nat} (nonempty : endOfMessage ≠ [])
    (quiet : find endOfMessage buffer = none) (positive : 0 < count)
    (inside : count < (frames endOfMessage stream).length) :
    buffer ≠ framed endOfMessage count stream := by
  intro same
  cases found : find endOfMessage stream with
  | none =>
      rw [frames, pieces_of_none found] at inside
      exact absurd inside (Nat.not_lt_zero _)
  | some pos =>
      rcases Nat.exists_eq_succ_of_ne_zero (Nat.ne_of_gt positive) with ⟨count, rfl⟩
      have parts := framed_of_find [] nonempty found count
      rw [List.append_nil] at parts
      rw [same, parts] at quiet
      rcases exists_find_of_occurrence endOfMessage (stream.take pos)
        (framed endOfMessage count (stream.drop (pos + endOfMessage.length) ++ [])) with
        ⟨other, _, inside⟩
      rw [quiet] at inside
      cases inside

theorem cutBehind_cons_iff {buffer chunk : Data} {chunks : List Data}
    (nonempty : endOfMessage ≠ []) (quiet : find endOfMessage buffer = none) :
    CutBehind endOfMessage buffer (chunk :: chunks) ↔
      CutBehind endOfMessage (buffer ++ chunk) chunks := by
  unfold CutBehind
  rw [List.flatten_cons, ← List.append_assoc]
  constructor
  · intro cut count positive inside
    rcases cut count positive inside with ⟨reads, same⟩
    cases reads with
    | zero =>
        rw [List.take_zero, List.flatten_nil, List.append_nil] at same
        exact absurd same (framed_ne_of_quiet nonempty quiet positive inside)
    | succ reads =>
        rw [List.take_succ_cons, List.flatten_cons, ← List.append_assoc] at same
        exact ⟨reads, same⟩
  · intro cut count positive inside
    rcases cut count positive inside with ⟨reads, same⟩
    refine ⟨reads + 1, ?_⟩
    rw [List.take_succ_cons, List.flatten_cons, ← List.append_assoc]
    exact same

theorem cutBehind_restart_iff {text : Data} {pos : Nat} {chunks : List Data}
    (nonempty : endOfMessage ≠ []) (found : find endOfMessage text = some pos)
    (aligned : text.drop (pos + endOfMessage.length) = []) :
    CutBehind endOfMessage text chunks ↔ CutBehind endOfMessage [] chunks := by
  have whole : text = text.take pos ++ endOfMessage := by
    have parts := split_of_find found
    rwa [aligned, List.append_nil] at parts
  have framed_next := framed_of_find chunks.flatten nonempty found
  rw [aligned, ← whole, List.nil_append] at framed_next
  have frames_next := frames_of_find chunks.flatten nonempty found
  rw [aligned, List.nil_append] at frames_next
  unfold CutBehind
  rw [frames_next, List.length_cons, List.nil_append]
  constructor
  · intro cut count positive inside
    rcases cut (count + 1) (by omega) (by omega) with ⟨reads, same⟩
    rw [framed_next, List.append_right_inj] at same
    exact ⟨reads, same⟩
  · intro cut count positive inside
    rcases Nat.exists_eq_succ_of_ne_zero (Nat.ne_of_gt positive) with ⟨count, rfl⟩
    rw [Nat.succ_eq_add_one, framed_next]
    cases count with
    | zero => exact ⟨0, rfl⟩
    | succ count =>
        rcases cut (count + 1) (by omega) (by omega) with ⟨reads, same⟩
        exact ⟨reads, by rw [← same, List.nil_append]⟩

theorem aligned_of_cut {text : Data} {pos : Nat} {chunks : List Data}
    (nonempty : endOfMessage ≠ []) (found : find endOfMessage text = some pos)
    (cut : CutBehind endOfMessage text chunks)
    (more : frames endOfMessage (text.drop (pos + endOfMessage.length) ++ chunks.flatten) ≠ []) :
    text.drop (pos + endOfMessage.length) = [] := by
  have positive := List.length_pos_of_ne_nil more
  have frames_next := frames_of_find chunks.flatten nonempty found
  rcases cut 1 (by omega) (by rw [frames_next, List.length_cons]; omega) with ⟨reads, same⟩
  rw [framed_of_find chunks.flatten nonempty found 0] at same
  have parts := split_of_find found
  have lengths := congrArg List.length same
  have lengths' := congrArg List.length parts
  simp only [List.length_append, framed, List.take_zero, List.flatMap_nil, List.length_nil]
    at lengths lengths'
  apply List.eq_nil_of_length_eq_zero
  omega

theorem deliver_eq_frames {buffer : Data} {chunks : List Data} (nonempty : endOfMessage ≠ [])
    (quiet : find endOfMessage buffer = none) (cut : CutBehind endOfMessage buffer chunks) :
    deliver endOfMessage buffer chunks = frames endOfMessage (buffer ++ chunks.flatten) := by
  induction chunks generalizing buffer with
  | nil =>
      rw [List.flatten_nil, List.append_nil]
      exact (pieces_of_none quiet).symm
  | cons chunk chunks ih =>
      rw [cutBehind_cons_iff nonempty quiet] at cut
      rw [List.flatten_cons, ← List.append_assoc]
      cases found : find endOfMessage (buffer ++ chunk) with
      | none =>
          rw [deliver_of_none chunks found]
          exact ih found cut
      | some pos =>
          rw [deliver_of_find chunks found, frames_of_find chunks.flatten nonempty found,
            List.cons_inj_right]
          by_cases more : frames endOfMessage
              ((buffer ++ chunk).drop (pos + endOfMessage.length) ++ chunks.flatten) = []
          · have some := deliver_length_le [] chunks nonempty
            have none := pieces_length_append nonempty
              ((buffer ++ chunk).drop (pos + endOfMessage.length)) chunks.flatten
            rw [show pieces endOfMessage _ = [] from more, List.length_nil] at none
            rw [more]
            apply List.eq_nil_of_length_eq_zero
            rw [List.nil_append] at some
            exact Nat.le_zero.mp (some.trans none)
          · have aligned := aligned_of_cut nonempty found cut more
            rw [cutBehind_restart_iff nonempty found aligned] at cut
            rw [aligned]
            exact ih (by simp [find, nonempty]) cut

/-- A message that is read the same behind bytes that wait and without them needs
one frame more than it delivers, unless the delimiter overlaps itself. -/
theorem aligned_of_deliver {junk message : Data} {chunks messages : List Data}
    (nonempty : endOfMessage ≠ []) (unbordered : Unbordered endOfMessage)
    (delivered : deliver endOfMessage [] chunks = message :: messages)
    (same : frames endOfMessage (junk ++ chunks.flatten) = message :: messages) : junk = [] := by
  rcases deliver_eq_cons delivered with ⟨later, stream, occurs⟩
  rw [List.nil_append] at stream
  rw [stream] at same
  rcases exists_find_of_occurrence endOfMessage (junk ++ message) later with
    ⟨pos, early, found⟩
  have regroup : junk ++ (message ++ endOfMessage ++ later) =
      junk ++ message ++ endOfMessage ++ later := by
    simp only [List.append_assoc]
  rw [frames, regroup, pieces_of_find nonempty found, List.cons.injEq] at same
  rcases same with ⟨taken, rest⟩
  have fits := length_of_find found nonempty
  have at_message : pos = message.length := by
    rw [← taken, List.length_take]
    omega
  subst at_message
  by_contra waiting
  have positive := List.length_pos_of_ne_nil waiting
  -- waiting bytes that are few make the delimiter overlap itself, and many hold a frame more
  by_cases overlap : junk.length < endOfMessage.length
  · apply unbordered junk.length positive overlap
    apply border_of_overlap (find_eq_some_iff.mp found).1
    rw [List.drop_drop, List.append_assoc, Nat.add_comm, ← List.length_append, List.drop_left]
    exact List.prefix_append endOfMessage later
  · have split :
        (junk ++ message ++ endOfMessage ++ later).drop (message.length + endOfMessage.length) =
          (junk ++ message).drop (message.length + endOfMessage.length) ++
            endOfMessage ++ later := by
      rw [List.append_assoc, List.drop_append_of_le_length, List.append_assoc]
      rw [List.length_append]
      omega
    have again := (occurs.next ((junk ++ message).drop
      (message.length + endOfMessage.length))).le_pieces nonempty
    rw [← split, rest] at again
    omega

/-- For a delimiter that does not overlap itself the messages are the frames only
where no bytes wait behind a delimiter, except behind the last. -/
theorem cut_of_deliver_eq {buffer : Data} {chunks : List Data} (nonempty : endOfMessage ≠ [])
    (unbordered : Unbordered endOfMessage) (quiet : find endOfMessage buffer = none)
    (same : deliver endOfMessage buffer chunks =
      frames endOfMessage (buffer ++ chunks.flatten)) :
    CutBehind endOfMessage buffer chunks := by
  induction chunks generalizing buffer with
  | nil =>
      intro count _ inside
      rw [← same] at inside
      exact absurd inside (Nat.not_lt_zero _)
  | cons chunk chunks ih =>
      rw [cutBehind_cons_iff nonempty quiet]
      rw [List.flatten_cons, ← List.append_assoc] at same
      cases found : find endOfMessage (buffer ++ chunk) with
      | none =>
          rw [deliver_of_none chunks found] at same
          exact ih found same
      | some pos =>
          have frames_next := frames_of_find chunks.flatten nonempty found
          rw [deliver_of_find chunks found, frames_next, List.cons_inj_right] at same
          cases delivered : deliver endOfMessage [] chunks with
          | nil =>
              intro count positive inside
              rw [frames_next, ← same, delivered, List.length_singleton] at inside
              omega
          | cons message messages =>
              have aligned := aligned_of_deliver nonempty unbordered delivered
                (same.symm.trans delivered)
              rw [aligned] at same
              rw [cutBehind_restart_iff nonempty found aligned]
              exact ih (by simp [find, nonempty]) same

end Streams

theorem exists_settled {endOfMessage : Data} {now : Int} {s : State} (nonempty : endOfMessage ≠ [])
    (reached : (machine endOfMessage now).Reachable s) (settled : Settled endOfMessage s)
    (live : s.closed = false) (chunks : List Data) :
    ∃ s', (machine endOfMessage now).Reachable s' ∧ Settled endOfMessage s' ∧
      s'.received = s.received ++ chunks := by
  induction chunks generalizing s with
  | nil => exact ⟨s, reached, settled, (List.append_nil _).symm⟩
  | cons chunk chunks ih =>
      have read : (machine endOfMessage now).step s (.readSome chunk) = some
          { s with readBuffer := s.readBuffer ++ chunk, received := s.received ++ [chunk] } :=
        if_pos ⟨live, settled⟩
      have reached' := Machine.ReachFrom.step (.readSome chunk) reached trivial read
      rw [← List.singleton_append, ← List.append_assoc]
      cases found : find endOfMessage (s.readBuffer ++ chunk) with
      | none => exact ih reached' found live
      | some pos =>
          let s' : State :=
            { s with readBuffer := s.readBuffer ++ chunk, received := s.received ++ [chunk] }
          have complete : (machine endOfMessage now).step s' (.asyncRead now) =
              some (s'.asyncRead endOfMessage now) :=
            if_pos ⟨live, by simp [s', found]⟩
          have reached'' := Machine.ReachFrom.step (.asyncRead now) reached' trivial complete
          simp only [s', State.asyncRead, found, List.drop_nil] at reached''
          exact ih reached'' (by simp [Settled, find, nonempty]) live

theorem delivered {endOfMessage : Data} {now : Int} {s : State} (nonempty : endOfMessage ≠ [])
    (reached : (machine endOfMessage now).Reachable s) (settled : Settled endOfMessage s) :
    s.messages = deliver endOfMessage [] s.received := by
  have inv : Inv endOfMessage s :=
    reached.invariant (.start nonempty now) fun _ _ _ inv _ taken => inv.step nonempty taken
  exact inv.messages settled

theorem cutAtFrames_of_single {endOfMessage : Data} {chunks : List Data}
    (single : (frames endOfMessage chunks.flatten).length ≤ 1) :
    CutAtFrames endOfMessage chunks := by
  intro count inside
  have zero : count = 0 := by omega
  subst zero
  exact ⟨0, rfl⟩

/-- A stream arrives as its frames however it is cut exactly if it has at most
one; a given cut is harmless if it is made at the frames, and for a delimiter
that does not overlap itself only then. -/
theorem framing_exact (endOfMessage : Data) (nonempty : endOfMessage ≠ []) (now : Int) :
    (∀ stream,
      (∀ s, (machine endOfMessage now).Reachable s → Settled endOfMessage s →
        s.received.flatten = stream → s.messages = frames endOfMessage stream) ↔
      (frames endOfMessage stream).length ≤ 1) ∧
    (∀ s, (machine endOfMessage now).Reachable s → Settled endOfMessage s →
      CutAtFrames endOfMessage s.received →
        s.messages = frames endOfMessage s.received.flatten) ∧
    (Unbordered endOfMessage →
      ∀ s, (machine endOfMessage now).Reachable s → Settled endOfMessage s →
        s.messages = frames endOfMessage s.received.flatten →
          CutAtFrames endOfMessage s.received) := by
  have quiet : find endOfMessage [] = none := by simp [find, nonempty]
  have enough : ∀ s, (machine endOfMessage now).Reachable s → Settled endOfMessage s →
      CutAtFrames endOfMessage s.received →
        s.messages = frames endOfMessage s.received.flatten := by
    intro s reached settled cut
    rw [delivered nonempty reached settled]
    exact deliver_eq_frames nonempty quiet ((cutAtFrames_iff _).mp cut)
  refine ⟨fun stream => ⟨?_, ?_⟩, enough, ?_⟩
  · intro always
    rcases exists_settled nonempty .origin quiet rfl [stream] with ⟨s, reached, settled, received⟩
    have whole : s.received = [stream] := received
    have same := always s reached settled (by simp [whole])
    rw [delivered nonempty reached settled, whole] at same
    rw [← same]
    cases found : find endOfMessage ([] ++ stream) with
    | none =>
        rw [deliver_of_none [] found]
        exact Nat.zero_le 1
    | some pos =>
        rw [deliver_of_find [] found]
        exact Nat.le_refl 1
  · intro single s reached settled whole
    subst whole
    exact enough s reached settled (cutAtFrames_of_single single)
  · intro unbordered s reached settled same
    rw [cutAtFrames_iff]
    rw [delivered nonempty reached settled] at same
    exact cut_of_deliver_eq nonempty unbordered quiet same

/-- One frame and a part of the next, in three reads, with the default delimiter. -/
theorem framing_exact_newline : [[97, 98]] = frames [10] [97, 98, 10, 99] := by
  have single : (frames [10] [97, 98, 10, 99]).length ≤ 1 := by
    have first : find [10] ([97, 98, 10, 99] : Data) = some 2 := by decide
    rw [frames, pieces_of_find (by decide) first, pieces_of_none (by decide)]
    exact Nat.le_refl 1
  exact ((framing_exact [10] (by decide) 0).1 [97, 98, 10, 99]).mpr single _
    (Machine.reachable_of_run
      [.readSome [97], .readSome [98, 10], .asyncRead 1, .readSome [99]] rfl)
    (by decide) rfl

/-- After two frames in one read. -/
def secondLost : State where
  readBuffer := []
  lastActiveTime := 1
  closed := false
  received := [[97, 10, 98, 10]]
  messages := [[97]]

theorem second_frame_lost :
    ¬ ∀ endOfMessage : Data, endOfMessage ≠ [] → ∀ now s,
      (machine endOfMessage now).Reachable s → Settled endOfMessage s →
        s.messages = frames endOfMessage s.received.flatten := by
  intro always
  have same : [[97]] = frames [10] [97, 10, 98, 10] := always [10] (by decide) 0 secondLost
    (Machine.reachable_of_run [.readSome [97, 10, 98, 10], .asyncRead 1] rfl) (by decide)
  have occurs : Occurrences ([10] : Data) 2 [97, 10, 98, 10] := .next [97] (.next [98] (.none []))
  have two : 2 ≤ (frames [10] [97, 10, 98, 10]).length := occurs.le_pieces (by decide)
  rw [← same] at two
  exact absurd two (by decide)

end CommonUtils.TCP.SessionRead
