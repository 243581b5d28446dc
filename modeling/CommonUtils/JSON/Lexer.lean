import CommonUtils.JSON.Model
import Mathlib.Algebra.Group.Nat.Defs
import Mathlib.Data.List.Basic

/-! The lexer of `nlohmann::json` on the bytes of its input. The loops of `scan_string`
and `scan_number` read one byte in each round, and what they do with it depends on where
in the token they are. -/

namespace CommonUtils.JSON

/-- The tokens with their values, a floating-point number given by its bits. -/
inductive Token where
  | beginArray
  | endArray
  | beginObject
  | endObject
  | nameSeparator
  | valueSeparator
  | literalTrue
  | literalFalse
  | literalNull
  | valueString (bytes : Bytes)
  | valueUnsigned (value : BitVec 64)
  | valueInteger (value : BitVec 64)
  | valueFloat (bits : BitVec 64)
  | parseError
  | endOfInput
  deriving DecidableEq

namespace Lexer

def isWhitespace (current : UInt8) : Bool := current ∈ [0x20, 0x09, 0x0A, 0x0D]

def skipWhitespace : Bytes → Bytes
  | [] => []
  | current :: input =>
      if isWhitespace current then skipWhitespace input else current :: input

def skipBom : Bytes → Option Bytes
  | 0xEF :: 0xBB :: 0xBF :: input => some input
  | 0xEF :: _ => none
  | input => some input

def scanLiteral (token : Token) : Bytes → Bytes → Token × Bytes
  | [], input => (token, input)
  | _ :: _, [] => (.parseError, [])
  | letter :: literal, current :: input =>
      if current = letter then scanLiteral token literal input else (.parseError, input)

/-- Where in a string the scan is: between characters, behind a backslash, with so many
digits of a code point to come, between the two halves of a surrogate pair, or with the
ranges that the next bytes must be in. -/
inductive StringState where
  | plain
  | escape
  | codepoint (high : Option Nat) (digits : Nat) (value : Nat)
  | pairBackslash (high : Nat)
  | pairU (high : Nat)
  | ranges (low high : UInt8) (more : List (UInt8 × UInt8))
  deriving DecidableEq

inductive StringStep where
  | next (state : StringState) (added : Bytes)
  | closed
  | error
  deriving DecidableEq

def hexDigit (current : UInt8) : Option Nat :=
  let n := current.toNat
  if 0x30 ≤ n ∧ n ≤ 0x39 then some (n - 0x30)
  else if 0x41 ≤ n ∧ n ≤ 0x46 then some (n - 0x37)
  else if 0x61 ≤ n ∧ n ≤ 0x66 then some (n - 0x57)
  else none

def encode (codepoint : Nat) : Bytes :=
  if codepoint < 0x80 then [codepoint.toUInt8]
  else if codepoint ≤ 0x7FF then
    [(0xC0 ||| codepoint >>> 6).toUInt8, (0x80 ||| codepoint &&& 0x3F).toUInt8]
  else if codepoint ≤ 0xFFFF then
    [(0xE0 ||| codepoint >>> 12).toUInt8, (0x80 ||| codepoint >>> 6 &&& 0x3F).toUInt8,
      (0x80 ||| codepoint &&& 0x3F).toUInt8]
  else
    [(0xF0 ||| codepoint >>> 18).toUInt8, (0x80 ||| codepoint >>> 12 &&& 0x3F).toUInt8,
      (0x80 ||| codepoint >>> 6 &&& 0x3F).toUInt8, (0x80 ||| codepoint &&& 0x3F).toUInt8]

def plainStep (current : UInt8) : StringStep :=
  let tail : UInt8 × UInt8 := (0x80, 0xBF)
  if current = 0x22 then .closed
  else if current = 0x5C then .next .escape []
  else if current < 0x20 then .error
  else if current ≤ 0x7F then .next .plain [current]
  else if 0xC2 ≤ current ∧ current ≤ 0xDF then .next (.ranges 0x80 0xBF []) [current]
  else if current = 0xE0 then .next (.ranges 0xA0 0xBF [tail]) [current]
  else if current = 0xED then .next (.ranges 0x80 0x9F [tail]) [current]
  else if 0xE1 ≤ current ∧ current ≤ 0xEF then .next (.ranges 0x80 0xBF [tail]) [current]
  else if current = 0xF0 then .next (.ranges 0x90 0xBF [tail, tail]) [current]
  else if 0xF1 ≤ current ∧ current ≤ 0xF3 then .next (.ranges 0x80 0xBF [tail, tail]) [current]
  else if current = 0xF4 then .next (.ranges 0x80 0x8F [tail, tail]) [current]
  else .error

def escapeStep (current : UInt8) : StringStep :=
  if current ∈ [0x22, 0x5C, 0x2F] then .next .plain [current]
  else if current = 0x62 then .next .plain [0x08]
  else if current = 0x66 then .next .plain [0x0C]
  else if current = 0x6E then .next .plain [0x0A]
  else if current = 0x72 then .next .plain [0x0D]
  else if current = 0x74 then .next .plain [0x09]
  else if current = 0x75 then .next (.codepoint none 4 0) []
  else .error

/-- A code point of four digits has been read, `high` being the first half of a pair. -/
def codepointRead (high : Option Nat) (codepoint : Nat) : StringStep :=
  match high with
  | none =>
      if 0xD800 ≤ codepoint ∧ codepoint ≤ 0xDBFF then .next (.pairBackslash codepoint) []
      else if 0xDC00 ≤ codepoint ∧ codepoint ≤ 0xDFFF then .error
      else .next .plain (encode codepoint)
  | some high =>
      if 0xDC00 ≤ codepoint ∧ codepoint ≤ 0xDFFF then
        .next .plain (encode ((high <<< 10) + codepoint - 0x35FDC00))
      else .error

def StringState.step (current : UInt8) : StringState → StringStep
  | .plain => plainStep current
  | .escape => escapeStep current
  | .codepoint high digits value =>
      match hexDigit current with
      | none => .error
      | some digit =>
          if digits ≤ 1 then codepointRead high (value * 16 + digit)
          else .next (.codepoint high (digits - 1) (value * 16 + digit)) []
  | .pairBackslash high => if current = 0x5C then .next (.pairU high) [] else .error
  | .pairU high => if current = 0x75 then .next (.codepoint (some high) 4 0) [] else .error
  | .ranges low high more =>
      if low ≤ current ∧ current ≤ high then
        match more with
        | [] => .next .plain [current]
        | (low, high) :: more => .next (.ranges low high more) [current]
      else .error

def scanString (state : StringState) (tokenBuffer : Bytes) : Bytes → Token × Bytes
  | [] => (.parseError, [])
  | current :: input =>
      match state.step current with
      | .closed => (.valueString tokenBuffer, input)
      | .next state added => scanString state (tokenBuffer ++ added) input
      | .error => (.parseError, input)

/-- The labels of `scan_number`. -/
inductive NumberState where
  | minus
  | zero
  | any1
  | decimal1
  | decimal2
  | exponent
  | sign
  | any2
  deriving DecidableEq

inductive NumberType where
  | unsigned
  | integer
  | float
  deriving DecidableEq

def isDigit (current : UInt8) : Bool := 0x30 ≤ current && current ≤ 0x39

def isExponent (current : UInt8) : Bool := current ∈ [0x65, 0x45]

namespace NumberState

def next (current : UInt8) : NumberState → Option NumberState
  | minus => if current = 0x30 then some zero else if isDigit current then some any1 else none
  | zero =>
      if current = 0x2E then some decimal1 else if isExponent current then some exponent else none
  | any1 =>
      if isDigit current then some any1
      else if current = 0x2E then some decimal1
      else if isExponent current then some exponent
      else none
  | decimal1 => if isDigit current then some decimal2 else none
  | decimal2 =>
      if isDigit current then some decimal2
      else if isExponent current then some exponent
      else none
  | exponent =>
      if current ∈ [0x2B, 0x2D] then some sign else if isDigit current then some any2 else none
  | sign => if isDigit current then some any2 else none
  | any2 => if isDigit current then some any2 else none

def complete : NumberState → Bool
  | zero | any1 | decimal2 | any2 => true
  | minus | decimal1 | exponent | sign => false

def numberType (type : NumberType) : NumberState → NumberType
  | minus => .integer
  | decimal1 | exponent => .float
  | zero | any1 | decimal2 | sign | any2 => type

end NumberState

def decimal (digits : Bytes) : Nat := digits.foldl (fun n d => n * 10 + (d.toNat - 0x30)) 0

section Scan

variable (strtod : Bytes → BitVec 64)

/-- The conversion at `scan_number_done`; an integer out of range is read as a float. -/
def numberToken (type : NumberType) (tokenBuffer : Bytes) : Token :=
  match type with
  | .unsigned =>
      let x := decimal tokenBuffer
      if x < 2 ^ 64 then .valueUnsigned (BitVec.ofNat 64 x) else .valueFloat (strtod tokenBuffer)
  | .integer =>
      let x := decimal tokenBuffer.tail
      if x ≤ 2 ^ 63 then .valueInteger (BitVec.ofInt 64 (-x)) else .valueFloat (strtod tokenBuffer)
  | .float => .valueFloat (strtod tokenBuffer)

def scanNumber (state : NumberState) (type : NumberType) (tokenBuffer : Bytes) :
    Bytes → Token × Bytes
  | [] => (if state.complete then numberToken strtod type tokenBuffer else .parseError, [])
  | current :: input =>
      match state.next current with
      | some state => scanNumber state (state.numberType type) (tokenBuffer ++ [current]) input
      | none =>
          if state.complete then (numberToken strtod type tokenBuffer, current :: input)
          else (.parseError, input)

/-- `scan` behind the byte order mark. A NUL ends the input as its end does. -/
def scan (input : Bytes) : Token × Bytes :=
  match skipWhitespace input with
  | [] => (.endOfInput, [])
  | current :: input =>
      if current = 0x5B then (.beginArray, input)
      else if current = 0x5D then (.endArray, input)
      else if current = 0x7B then (.beginObject, input)
      else if current = 0x7D then (.endObject, input)
      else if current = 0x3A then (.nameSeparator, input)
      else if current = 0x2C then (.valueSeparator, input)
      else if current = 0x74 then scanLiteral .literalTrue [0x72, 0x75, 0x65] input
      else if current = 0x66 then scanLiteral .literalFalse [0x61, 0x6C, 0x73, 0x65] input
      else if current = 0x6E then scanLiteral .literalNull [0x75, 0x6C, 0x6C] input
      else if current = 0x22 then scanString .plain [] input
      else if current = 0x2D then scanNumber strtod .minus .integer [current] input
      else if current = 0x30 then scanNumber strtod .zero .unsigned [current] input
      else if isDigit current then scanNumber strtod .any1 .unsigned [current] input
      else if current = 0x00 then (.endOfInput, input)
      else (.parseError, input)

end Scan

theorem length_skipWhitespace (input : Bytes) : (skipWhitespace input).length ≤ input.length := by
  induction input with
  | nil => exact Nat.le_refl _
  | cons current input ih =>
      rw [skipWhitespace, List.length_cons]
      split
      · omega
      · exact Nat.le_refl _

theorem length_scanLiteral (token : Token) (literal input : Bytes) :
    (scanLiteral token literal input).2.length ≤ input.length := by
  induction literal generalizing input with
  | nil => simp [scanLiteral]
  | cons letter literal ih =>
      cases input with
      | nil => simp [scanLiteral]
      | cons current input =>
          have rest := ih input
          rw [scanLiteral, List.length_cons]
          split
          · exact Nat.le_succ_of_le rest
          · exact Nat.le_succ _

theorem length_scanString (state : StringState) (tokenBuffer input : Bytes) :
    (scanString state tokenBuffer input).2.length ≤ input.length := by
  induction input generalizing state tokenBuffer with
  | nil => exact Nat.le_refl _
  | cons current input ih =>
      rw [scanString, List.length_cons]
      split
      · exact Nat.le_succ _
      · exact Nat.le_succ_of_le (ih _ _)
      · exact Nat.le_succ _

theorem length_scanNumber (strtod : Bytes → BitVec 64) (state : NumberState) (type : NumberType)
    (tokenBuffer input : Bytes) :
    (scanNumber strtod state type tokenBuffer input).2.length ≤ input.length := by
  induction input generalizing state type tokenBuffer with
  | nil => exact Nat.le_refl _
  | cons current input ih =>
      rw [scanNumber, List.length_cons]
      split
      · exact Nat.le_succ_of_le (ih _ _ _)
      · split
        · exact Nat.le_refl _
        · exact Nat.le_succ _

theorem length_ite {c : Prop} [Decidable c] {left right : Token × Bytes} {n : Nat}
    (less : left.2.length < n) (lessElse : right.2.length < n) :
    (if c then left else right).2.length < n := by
  split
  · exact less
  · exact lessElse

theorem length_scan (strtod : Bytes → BitVec 64) (input : Bytes) :
    (scan strtod input).1 = .endOfInput ∨ (scan strtod input).2.length < input.length := by
  have skipped := length_skipWhitespace input
  unfold scan
  cases found : skipWhitespace input with
  | nil => exact .inl rfl
  | cons current rest =>
      rw [found, List.length_cons] at skipped
      have literal := fun token text =>
        Nat.lt_of_le_of_lt (length_scanLiteral token text rest) skipped
      have number := fun state type =>
        Nat.lt_of_le_of_lt (length_scanNumber strtod state type [current] rest) skipped
      right
      apply length_ite skipped
      apply length_ite skipped
      apply length_ite skipped
      apply length_ite skipped
      apply length_ite skipped
      apply length_ite skipped
      apply length_ite (literal _ _)
      apply length_ite (literal _ _)
      apply length_ite (literal _ _)
      apply length_ite (Nat.lt_of_le_of_lt (length_scanString .plain [] rest) skipped)
      apply length_ite (number _ _)
      apply length_ite (number _ _)
      apply length_ite (number _ _)
      exact length_ite skipped skipped

def lex (strtod : Bytes → BitVec 64) (input : Bytes) : List Token :=
  if (scan strtod input).1 = .endOfInput ∨ (scan strtod input).1 = .parseError then
    [(scan strtod input).1]
  else (scan strtod input).1 :: lex strtod (scan strtod input).2
termination_by input.length
decreasing_by
  rename_i more
  exact (length_scan strtod input).resolve_left fun ended => more (.inl ended)

def tokens (strtod : Bytes → BitVec 64) (input : Bytes) : List Token :=
  match skipBom input with
  | none => [.parseError]
  | some input => lex strtod input

end Lexer

end CommonUtils.JSON
