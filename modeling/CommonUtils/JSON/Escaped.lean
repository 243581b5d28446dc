import CommonUtils.JSON.Scanned
import CommonUtils.JSON.Serializer

namespace CommonUtils.JSON

namespace Serializer

open Lexer Grammar

section Decoder

/-- Where the lexer is in a character of which the decoder has read so much. -/
def reading : Nat → StringState
  | 2 => .ranges 0x80 0xBF []
  | 3 => .ranges 0x80 0xBF [(0x80, 0xBF)]
  | 4 => .ranges 0xA0 0xBF [(0x80, 0xBF)]
  | 5 => .ranges 0x80 0x9F [(0x80, 0xBF)]
  | 6 => .ranges 0x90 0xBF [(0x80, 0xBF), (0x80, 0xBF)]
  | 7 => .ranges 0x80 0xBF [(0x80, 0xBF), (0x80, 0xBF)]
  | 8 => .ranges 0x80 0x8F [(0x80, 0xBF), (0x80, 0xBF)]
  | _ => .plain

def least : Nat → Nat
  | 0 => 0x80
  | 2 => 2
  | 3 | 5 | 7 | 8 => 1
  | _ => 0

def Between (state codepoint : Nat) : Prop := (2 ≤ state ∧ state ≤ 8) ∧ least state ≤ codepoint

theorem decode_ascii : ∀ n < 0x80, decode utf8Accept 0 n.toUInt8 = (utf8Accept, n) := by
  decide +kernel

theorem decode_first : ∀ n < 0x100, 0x80 ≤ n →
    (decode utf8Accept 0 n.toUInt8).1 = utf8Reject ∧ plainStep n.toUInt8 = .error ∨
      ((2 ≤ (decode utf8Accept 0 n.toUInt8).1 ∧ (decode utf8Accept 0 n.toUInt8).1 ≤ 8) ∧
        least (decode utf8Accept 0 n.toUInt8).1 ≤ (decode utf8Accept 0 n.toUInt8).2) ∧
      plainStep n.toUInt8 = .next (reading (decode utf8Accept 0 n.toUInt8).1) [n.toUInt8] := by
  decide +kernel

theorem decode_tail : ∀ state < 9, 2 ≤ state → ∀ n < 0x100,
    (decode state 0 n.toUInt8).1 = utf8Reject ∧ (reading state).step n.toUInt8 = .error ∨
      (((decode state 0 n.toUInt8).1 = utf8Accept ∨
          2 ≤ (decode state 0 n.toUInt8).1 ∧ (decode state 0 n.toUInt8).1 ≤ 8) ∧
        least (decode state 0 n.toUInt8).1 ≤ max (n &&& 0x3F) (least state * 64)) ∧
      (reading state).step n.toUInt8 =
        .next (reading (decode state 0 n.toUInt8).1) [n.toUInt8] := by
  decide +kernel

inductive Decoded (state codepoint : Nat) (byte : UInt8) : Prop where
  | reject (next : (decode state codepoint byte).1 = utf8Reject)
      (step : (reading state).step byte = .error)
  | between (inside : Between (decode state codepoint byte).1 (decode state codepoint byte).2)
      (step : (reading state).step byte =
        .next (reading (decode state codepoint byte).1) [byte])
  | last (next : (decode state codepoint byte).1 = utf8Accept)
      (long : 0x80 ≤ (decode state codepoint byte).2)
      (step : (reading state).step byte = .next .plain [byte])

theorem decoded_first (codepoint : Nat) {byte : UInt8} (long : 0x80 ≤ byte.toNat) :
    Decoded utf8Accept codepoint byte := by
  have first := decode_first byte.toNat byte.toNat_lt long
  have same : byte.toNat.toUInt8 = byte := UInt8.ofNat_toNat
  rw [same] at first
  rcases first with ⟨next, step⟩ | ⟨inside, step⟩
  · exact .reject next step
  · exact .between inside step

theorem decoded_tail {state codepoint : Nat} (between : Between state codepoint) (byte : UInt8) :
    Decoded state codepoint byte := by
  have tail := decode_tail state (Nat.lt_succ_of_le between.1.2) between.1.1 byte.toNat
    byte.toNat_lt
  have same : byte.toNat.toUInt8 = byte := UInt8.ofNat_toNat
  have next : (decode state codepoint byte).1 = (decode state 0 byte).1 := rfl
  have read : (decode state codepoint byte).2 = byte.toNat &&& 0x3F ||| codepoint <<< 6 := by
    have started : state ≠ utf8Accept := Nat.ne_of_gt (Nat.lt_of_lt_of_le Nat.zero_lt_two
      between.1.1)
    rw [decode, if_pos started]
  have enough : max (byte.toNat &&& 0x3F) (least state * 64) ≤
      (decode state codepoint byte).2 := by
    have more : least state * 64 ≤ codepoint <<< 6 := by
      rw [Nat.shiftLeft_eq]
      exact Nat.mul_le_mul_right 64 between.2
    rw [read]
    exact max_le Nat.left_le_or (le_trans more Nat.right_le_or)
  rw [same, ← next] at tail
  rcases tail with ⟨rejects, step⟩ | ⟨⟨accepts | inside, long⟩, step⟩
  · exact .reject rejects step
  · rw [accepts] at long step
    exact .last accepts (le_trans long enough) step
  · exact .between ⟨inside, le_trans long enough⟩ step

end Decoder

section Strings

theorem hexDigit_lowerHex : ∀ n < 16, hexDigit (lowerHex n) = some n := by decide

theorem hex_unicodeEscape (codepoint : Nat) (basic : codepoint ≤ 0xFFFF) :
    ∃ w, unicodeEscape codepoint = 0x5C :: 0x75 :: w ∧ Hex w codepoint := by
  refine ⟨_, rfl, _, _, _, _, _, _, _, _, rfl, hexDigit_lowerHex _ (Nat.mod_lt _ (by decide)),
    hexDigit_lowerHex _ (Nat.mod_lt _ (by decide)), hexDigit_lowerHex _ (Nat.mod_lt _ (by decide)),
    hexDigit_lowerHex _ (Nat.mod_lt _ (by decide)), ?_⟩
  omega

theorem decodes_escape {byte : UInt8} (ascii : byte.toNat < 0x80) :
    Decodes .plain (escape byte.toNat byte) [byte] .plain := by
  have short : ∀ letter : UInt8, ∀ n : Nat, byte.toNat = n →
      escapeStep letter = .next .plain [n.toUInt8] →
        Decodes .plain [0x5C, letter] [byte] .plain := by
    intro letter n same known
    have value : n.toUInt8 = byte := by
      rw [← same]
      exact UInt8.ofNat_toNat
    rw [value] at known
    exact decodes_escaped known
  unfold escape
  split_ifs with backspace tab newline feed return_ quote backslash control
  · exact short 0x62 0x08 backspace rfl
  · exact short 0x74 0x09 tab rfl
  · exact short 0x6E 0x0A newline rfl
  · exact short 0x66 0x0C feed rfl
  · exact short 0x72 0x0D return_ rfl
  · exact short 0x22 0x22 quote rfl
  · exact short 0x5C 0x5C backslash rfl
  · rcases hex_unicodeEscape byte.toNat (by omega) with ⟨w, same, hex⟩
    have decodes := decodes_codepoint hex (.inl (by omega))
    have value : byte.toNat.toUInt8 = byte := UInt8.ofNat_toNat
    rw [encode, if_pos ascii, value] at decodes
    rw [same]
    exact decodes
  · exact .last (plainStep_ascii (by omega) (by omega) quote backslash)

theorem escape_long {codepoint : Nat} (long : 0x80 ≤ codepoint) (byte : UInt8) :
    escape codepoint byte = [byte] := by
  unfold escape
  rw [if_neg, if_neg, if_neg, if_neg, if_neg, if_neg, if_neg, if_neg] <;> omega

/-- The loop writes of a byte what the lexer reads back, and both go on to the same place. -/
structure Goes (state codepoint : Nat) (byte : UInt8) (next further : Nat) (written : Bytes) :
    Prop where
  inside : next = utf8Accept ∨ Between next further
  decodes : Decodes (reading state) written [byte] (reading next)
  loop : ∀ index rest, escapeFrom state codepoint index (byte :: rest) =
    (escapeFrom next further (index + 1) rest).map fun more => (written ++ more.1, more.2)
  reads : ∀ after, (reading state).step byte = .next after [byte] → after = reading next

theorem goes_ascii (codepoint : Nat) {byte : UInt8} (ascii : byte.toNat < 0x80) :
    Goes utf8Accept codepoint byte utf8Accept byte.toNat (escape byte.toNat byte) where
  inside := .inl rfl
  decodes := decodes_escape ascii
  loop index rest := by
    have value : byte.toNat.toUInt8 = byte := UInt8.ofNat_toNat
    have next : decode utf8Accept codepoint byte = (utf8Accept, byte.toNat) := by
      rw [← decode_ascii byte.toNat ascii, value]
      rfl
    rw [escapeFrom, next]
    rfl
  reads after step := by
    have short : byte ≤ 0x7F := UInt8.le_iff_toNat_le.mpr (Nat.le_of_lt_succ ascii)
    have step : plainStep byte = .next after [byte] := step
    unfold plainStep at step
    simp only [short] at step
    split_ifs at step
    · cases step
    · cases step
      rfl

theorem goes_on {state codepoint next further : Nat} {byte : UInt8}
    (decoded : decode state codepoint byte = (next, further))
    (inside : next = utf8Accept ∧ 0x80 ≤ further ∨ Between next further)
    (step : (reading state).step byte = .next (reading next) [byte]) :
    Goes state codepoint byte next further [byte] where
  inside := inside.imp_left And.left
  decodes := .last step
  loop index rest := by
    have goes : next ≠ utf8Reject := by
      rcases inside with ⟨accepts, -⟩ | between
      · rw [accepts]
        decide
      · exact Nat.ne_of_gt between.1.1
    have written : (if next = utf8Accept then escape further byte else [byte]) = [byte] := by
      rcases inside with ⟨-, long⟩ | between
      · rw [escape_long long, ite_self]
      · exact if_neg (Nat.ne_of_gt (Nat.lt_of_lt_of_le Nat.zero_lt_two between.1.1))
    rw [escapeFrom, decoded]
    dsimp only
    rw [if_neg goes, written]
  reads after same := by
    rw [step] at same
    cases same
    rfl

/-- The loop stops at a byte only where the lexer does. -/
theorem goes_or_stops {state codepoint : Nat}
    (inside : state = utf8Accept ∨ Between state codepoint) (byte : UInt8) :
    (∃ next further written, Goes state codepoint byte next further written) ∨
      (reading state).step byte = .error ∧
        ∀ index rest, escapeFrom state codepoint index (byte :: rest) =
          .error (invalidByte index byte) := by
  by_cases ascii : state = utf8Accept ∧ byte.toNat < 0x80
  · rcases ascii with ⟨rfl, ascii⟩
    exact .inl ⟨_, _, _, goes_ascii codepoint ascii⟩
  have decoded : Decoded state codepoint byte := by
    rcases inside with rfl | between
    · exact decoded_first codepoint (Nat.le_of_not_lt fun ascii' => ascii ⟨rfl, ascii'⟩)
    · exact decoded_tail between byte
  cases decoded with
  | reject next step =>
      refine .inr ⟨step, fun index rest => ?_⟩
      rw [escapeFrom]
      exact if_pos next
  | between within step => exact .inl ⟨_, _, _, goes_on rfl (.inr within) step⟩
  | last next long step =>
      have whole : decode state codepoint byte = (utf8Accept, (decode state codepoint byte).2) :=
        Prod.ext next rfl
      exact .inl ⟨_, _, _, goes_on whole (.inl ⟨rfl, long⟩) step⟩

theorem decodes_of_escapeFrom {w text : Bytes} {state codepoint index : Nat}
    (inside : state = utf8Accept ∨ Between state codepoint)
    (run : escapeFrom state codepoint index w = .ok (text, utf8Accept)) :
    Decodes (reading state) text w .plain := by
  induction w generalizing state codepoint index text with
  | nil =>
      cases run
      exact .nil _
  | cons byte rest ih =>
      rcases goes_or_stops inside byte with ⟨next, further, written, goes⟩ | ⟨-, stops⟩
      · rw [goes.loop] at run
        cases more : escapeFrom next further (index + 1) rest with
        | error fault =>
            rw [more] at run
            cases run
        | ok done =>
            rw [more] at run
            rcases done with ⟨behind, last⟩
            cases run
            exact goes.decodes.append (ih goes.inside more)
      · rw [stops] at run
        cases run

theorem reading_ne_plain : ∀ state < 9, 2 ≤ state → reading state ≠ .plain := by decide

theorem accept_of_plain {state codepoint : Nat}
    (inside : state = utf8Accept ∨ Between state codepoint) (plain : reading state = .plain) :
    state = utf8Accept := by
  rcases inside with accepts | ⟨⟨low, high⟩, -⟩
  · exact accepts
  · exact absurd plain (reading_ne_plain state (Nat.lt_succ_of_le high) low)

theorem escapeFrom_copies {after : StringState} {w : Bytes} (copies : Copies after w)
    {state codepoint : Nat} (inside : state = utf8Accept ∨ Between state codepoint)
    (here : after = reading state) (index : Nat) (rest : Bytes) :
    ∃ further behind written, escapeFrom state codepoint index (w ++ rest) =
      (escapeFrom utf8Accept further behind rest).map fun more => (written ++ more.1, more.2) := by
  induction copies generalizing state codepoint index with
  | nil =>
      rw [accept_of_plain inside here.symm]
      refine ⟨codepoint, index, [], ?_⟩
      rw [List.nil_append]
      cases escapeFrom utf8Accept codepoint index rest <;> rfl
  | @cons state' after current w step more ih =>
      rw [here] at step
      rcases goes_or_stops inside current with ⟨next, further, written, goes⟩ | ⟨stops, -⟩
      · rcases ih goes.inside (goes.reads after step) (index + 1) with
          ⟨last, behind, more, run⟩
        refine ⟨last, behind, written ++ more, ?_⟩
        rw [List.cons_append, goes.loop, run]
        cases escapeFrom utf8Accept last behind rest with
        | error fault => rfl
        | ok done => simp [Except.map]
      · rw [stops] at step
        cases step

theorem utf8EncodeChar_ascii {c : Char} (ascii : c.toNat < 0x80) :
    String.utf8EncodeChar c = [c.toNat.toUInt8] := by
  have same : c.val.toNat = c.toNat := rfl
  unfold String.utf8EncodeChar
  simp only [same]
  rw [if_pos (by omega)]

theorem escapeFrom_char (c : Char) (codepoint index : Nat) (rest : Bytes) :
    ∃ further behind written,
      escapeFrom utf8Accept codepoint index (String.utf8EncodeChar c ++ rest) =
        (escapeFrom utf8Accept further behind rest).map fun more =>
          (written ++ more.1, more.2) := by
  by_cases ascii : c.toNat < 0x80
  · have value : c.toNat.toUInt8.toNat < 0x80 := by
      simp
      omega
    rw [utf8EncodeChar_ascii ascii]
    exact ⟨_, _, _, (goes_ascii codepoint value).loop index rest⟩
  · have copies := copies_utf8 c (by omega) (by omega) (by omega)
    exact escapeFrom_copies copies (.inl rfl) rfl index rest

theorem dumpEscaped_of_utf8 {s : Bytes} (utf8 : Utf8 s) :
    ∃ text, dumpEscaped s = .ok text ∧ Decodes .plain text s .plain := by
  rcases utf8 with ⟨characters, rfl⟩
  have each : ∀ codepoint index, ∃ text, escapeFrom utf8Accept codepoint index
      (characters.flatMap String.utf8EncodeChar) = .ok (text, utf8Accept) := by
    induction characters with
    | nil => exact fun codepoint index => ⟨[], rfl⟩
    | cons c rest ih =>
        intro codepoint index
        rcases escapeFrom_char c codepoint index (rest.flatMap String.utf8EncodeChar) with
          ⟨further, behind, written, run⟩
        rcases ih further behind with ⟨text, more⟩
        refine ⟨written ++ text, ?_⟩
        rw [List.flatMap_cons, run, more]
        rfl
  rcases each 0 0 with ⟨text, run⟩
  refine ⟨text, ?_, decodes_of_escapeFrom (.inl rfl) run⟩
  rw [dumpEscaped, run]
  rfl

/-- What is not UTF-8 is thrown at. -/
theorem dumpEscaped_iff (s : Bytes) : (∃ text, dumpEscaped s = .ok text) ↔ Utf8 s := by
  constructor
  · rintro ⟨text, run⟩
    rw [dumpEscaped] at run
    cases done : escapeFrom utf8Accept 0 0 s with
    | error fault =>
        rw [done] at run
        cases run
    | ok ended =>
        rcases ended with ⟨written, state⟩
        rw [done] at run
        by_cases accepts : state = utf8Accept
        · rw [accepts] at done
          have decodes := decodes_of_escapeFrom (.inl rfl) done
          have read : scan (fun _ => 0) (0x22 :: (written ++ [0x22]) ++ []) =
              (.valueString s, []) := scan_string decodes []
          exact scan_utf8 read
        · have stopped : Except.error (incomplete (s.getLastD 0)) = Except.ok text :=
            (if_neg accepts).symm.trans run
          cases stopped
  · intro utf8
    rcases dumpEscaped_of_utf8 utf8 with ⟨text, run, -⟩
    exact ⟨text, run⟩

end Strings

end Serializer

end CommonUtils.JSON
