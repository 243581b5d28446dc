import CommonUtils.JSON.Parser

/-! `dump` of `nlohmann::json`. The text of a finite double is what `to_chars` makes of
it, and everything else is written here. A string or a key that is not UTF-8 has no text:
`error_handler` is `strict`, which throws, and `ensure_ascii` is false. -/

namespace CommonUtils.JSON

/-- What a part of the serializer writes with an `indent_string` of the given length, and
the length behind it. A read behind the end of that string is undefined. -/
def Writes := Nat → Except Fault (Bytes × Nat)

namespace Writes

def write (characters : Bytes) : Writes := fun size => .ok (characters, size)

protected def append (first second : Writes) : Writes := fun size =>
  (first size).bind fun before =>
    (second before.2).map fun behind => (before.1 ++ behind.1, behind.2)

instance : Append Writes := ⟨Writes.append⟩

/-- Where `indent_string` is too short it is doubled, once. -/
def grow (newIndent : Nat) : Writes := fun size =>
  .ok ([], if size < newIndent then size * 2 else size)

/-- The characters of `indent_string`, behind which a NUL stands. -/
def indentation (indent : Nat) : Writes := fun size =>
  if indent ≤ size then .ok (List.replicate indent 0x20, size)
  else if indent = size + 1 then .ok (List.replicate size 0x20 ++ [0], size)
  else .error .undefined

def lineBreak (pretty : Bool) (indent : Nat) : Writes :=
  if pretty then write [0x0A] ++ indentation indent else write []

end Writes

namespace Serializer

open Writes

def lowerHex (n : Nat) : UInt8 := if n < 10 then (0x30 + n).toUInt8 else (0x57 + n).toUInt8

def unicodeEscape (codepoint : Nat) : Bytes :=
  [0x5C, 0x75, lowerHex (codepoint / 4096 % 16), lowerHex (codepoint / 256 % 16),
    lowerHex (codepoint / 16 % 16), lowerHex (codepoint % 16)]

/-- The classes of the bytes, and behind them for every state the next one by class. -/
def utf8d : List Nat := [
  0, 0, 0, 0, 0, 0, 0, 0, 0, 0, 0, 0, 0, 0, 0, 0, 0, 0, 0, 0, 0, 0, 0, 0, 0, 0, 0, 0, 0, 0, 0, 0,
  0, 0, 0, 0, 0, 0, 0, 0, 0, 0, 0, 0, 0, 0, 0, 0, 0, 0, 0, 0, 0, 0, 0, 0, 0, 0, 0, 0, 0, 0, 0, 0,
  0, 0, 0, 0, 0, 0, 0, 0, 0, 0, 0, 0, 0, 0, 0, 0, 0, 0, 0, 0, 0, 0, 0, 0, 0, 0, 0, 0, 0, 0, 0, 0,
  0, 0, 0, 0, 0, 0, 0, 0, 0, 0, 0, 0, 0, 0, 0, 0, 0, 0, 0, 0, 0, 0, 0, 0, 0, 0, 0, 0, 0, 0, 0, 0,
  1, 1, 1, 1, 1, 1, 1, 1, 1, 1, 1, 1, 1, 1, 1, 1, 9, 9, 9, 9, 9, 9, 9, 9, 9, 9, 9, 9, 9, 9, 9, 9,
  7, 7, 7, 7, 7, 7, 7, 7, 7, 7, 7, 7, 7, 7, 7, 7, 7, 7, 7, 7, 7, 7, 7, 7, 7, 7, 7, 7, 7, 7, 7, 7,
  8, 8, 2, 2, 2, 2, 2, 2, 2, 2, 2, 2, 2, 2, 2, 2, 2, 2, 2, 2, 2, 2, 2, 2, 2, 2, 2, 2, 2, 2, 2, 2,
  10, 3, 3, 3, 3, 3, 3, 3, 3, 3, 3, 3, 3, 4, 3, 3,
  11, 6, 6, 6, 5, 8, 8, 8, 8, 8, 8, 8, 8, 8, 8, 8,
  0, 1, 2, 3, 5, 8, 7, 1, 1, 1, 4, 6, 1, 1, 1, 1,
  1, 1, 1, 1, 1, 1, 1, 1, 1, 1, 1, 1, 1, 1, 1, 1, 1, 0, 1, 1, 1, 1, 1, 0, 1, 0, 1, 1, 1, 1, 1, 1,
  1, 2, 1, 1, 1, 1, 1, 2, 1, 2, 1, 1, 1, 1, 1, 1, 1, 1, 1, 1, 1, 1, 1, 2, 1, 1, 1, 1, 1, 1, 1, 1,
  1, 2, 1, 1, 1, 1, 1, 1, 1, 2, 1, 1, 1, 1, 1, 1, 1, 1, 1, 1, 1, 1, 1, 3, 1, 3, 1, 1, 1, 1, 1, 1,
  1, 3, 1, 1, 1, 1, 1, 3, 1, 3, 1, 1, 1, 1, 1, 1, 1, 3, 1, 1, 1, 1, 1, 1, 1, 1, 1, 1, 1, 1, 1, 1]

def utf8Accept : Nat := 0

def utf8Reject : Nat := 1

/-- The next state, and the code point that is whole in `utf8Accept` only. -/
def decode (state codepoint : Nat) (byte : UInt8) : Nat × Nat :=
  let type := utf8d.getD byte.toNat 0
  (utf8d.getD (256 + state * 16 + type) 0,
    if state ≠ utf8Accept then (byte.toNat &&& 0x3F) ||| (codepoint <<< 6)
    else (0xFF >>> type) &&& byte.toNat)

def escape (codepoint : Nat) (byte : UInt8) : Bytes :=
  if codepoint = 0x08 then [0x5C, 0x62]
  else if codepoint = 0x09 then [0x5C, 0x74]
  else if codepoint = 0x0A then [0x5C, 0x6E]
  else if codepoint = 0x0C then [0x5C, 0x66]
  else if codepoint = 0x0D then [0x5C, 0x72]
  else if codepoint = 0x22 then [0x5C, 0x22]
  else if codepoint = 0x5C then [0x5C, 0x5C]
  else if codepoint ≤ 0x1F then unicodeEscape codepoint
  else [byte]

def nibbleToHex (nibble : Nat) : Char :=
  if nibble < 10 then Char.ofNat (0x30 + nibble) else Char.ofNat (0x37 + nibble)

def hexBytes (byte : UInt8) : String :=
  String.ofList [nibbleToHex (byte.toNat / 16), nibbleToHex (byte.toNat % 16)]

def invalidByte (index : Nat) (byte : UInt8) : Fault :=
  .typeError ("[json.exception.type_error.316] invalid UTF-8 byte at index " ++ Nat.repr index ++
    ": 0x" ++ hexBytes byte)

def incomplete (last : UInt8) : Fault :=
  .typeError ("[json.exception.type_error.316] incomplete UTF-8 string; last byte: 0x" ++
    hexBytes last)

/-- The loop of `dump_escaped` from the byte at an index on, and the state behind it. -/
def escapeFrom (state codepoint index : Nat) : Bytes → Except Fault (Bytes × Nat)
  | [] => .ok ([], state)
  | byte :: rest =>
      let next := decode state codepoint byte
      if next.1 = utf8Reject then .error (invalidByte index byte)
      else
        let written := if next.1 = utf8Accept then escape next.2 byte else [byte]
        (escapeFrom next.1 next.2 (index + 1) rest).map fun more => (written ++ more.1, more.2)

def dumpEscaped (s : Bytes) : Except Fault Bytes :=
  (escapeFrom utf8Accept 0 0 s).bind fun done =>
    if done.2 = utf8Accept then .ok done.1 else .error (incomplete (s.getLastD 0))

def quoted (s : Bytes) : Writes := fun size =>
  (dumpEscaped s).map fun text => (0x22 :: (text ++ [0x22]), size)

def digitsTo99 (n : Nat) : Bytes := [(0x30 + n / 10).toUInt8, (0x30 + n % 10).toUInt8]

/-- `number_buffer` is filled from its back. -/
def fillDigits (absValue : Nat) (buffer : Bytes) : Bytes :=
  if 100 ≤ absValue then fillDigits (absValue / 100) (digitsTo99 (absValue % 100) ++ buffer)
  else if 10 ≤ absValue then digitsTo99 absValue ++ buffer
  else (0x30 + absValue).toUInt8 :: buffer

def dumpInteger (x : Int) : Bytes :=
  if x = 0 then [0x30]
  else if x < 0 then 0x2D :: fillDigits x.natAbs []
  else fillDigits x.natAbs []

def null : Bytes := [0x6E, 0x75, 0x6C, 0x6C]

section Dump

variable (toChars : BitVec 64 → Bytes) (pretty : Bool) (indentStep : Nat)

def dumpFloat (bits : BitVec 64) : Bytes := if isFinite bits then toChars bits else null

def nameSeparator : Bytes := if pretty then [0x3A, 0x20] else [0x3A]

def dumpBytes : List (BitVec 8) → Bytes
  | [] => []
  | [last] => dumpInteger last.toNat
  | byte :: next :: rest =>
      dumpInteger byte.toNat ++ ((if pretty then [0x2C, 0x20] else [0x2C]) ++
        dumpBytes (next :: rest))

def dumpBinary (currentIndent : Nat) (bytes : List (BitVec 8)) : Writes :=
  write [0x7B] ++ grow (currentIndent + indentStep) ++
    lineBreak pretty (currentIndent + indentStep) ++
    write ([0x22, 0x62, 0x79, 0x74, 0x65, 0x73, 0x22] ++ nameSeparator pretty ++ [0x5B] ++
      dumpBytes pretty bytes ++ [0x5D, 0x2C]) ++
    lineBreak pretty (currentIndent + indentStep) ++
    write ([0x22, 0x73, 0x75, 0x62, 0x74, 0x79, 0x70, 0x65, 0x22] ++ nameSeparator pretty ++
      null) ++
    lineBreak pretty currentIndent ++ write [0x7D]

mutual

def dump (currentIndent : Nat) : Json → Writes
  | .object [] => write [0x7B, 0x7D]
  | .object (first :: rest) =>
      write [0x7B] ++ grow (currentIndent + indentStep) ++
        dumpMembers (currentIndent + indentStep) (first :: rest) ++
        (lineBreak pretty currentIndent ++ write [0x7D])
  | .array [] => write [0x5B, 0x5D]
  | .array (first :: rest) =>
      write [0x5B] ++ grow (currentIndent + indentStep) ++
        dumpElements (currentIndent + indentStep) (first :: rest) ++
        (lineBreak pretty currentIndent ++ write [0x5D])
  | .string value => quoted value
  | .binary bytes => dumpBinary pretty indentStep currentIndent bytes
  | .boolean true => write [0x74, 0x72, 0x75, 0x65]
  | .boolean false => write [0x66, 0x61, 0x6C, 0x73, 0x65]
  | .numberInteger value => write (dumpInteger value.toInt)
  | .numberUnsigned value => write (dumpInteger value.toNat)
  | .numberFloat bits => write (dumpFloat toChars bits)
  | .null => write null

def dumpMembers (newIndent : Nat) : List (Bytes × Json) → Writes
  | [] => write []
  | [(key, value)] =>
      lineBreak pretty newIndent ++ (quoted key ++ write (nameSeparator pretty)) ++
        dump newIndent value
  | (key, value) :: next :: rest =>
      lineBreak pretty newIndent ++ (quoted key ++ write (nameSeparator pretty)) ++
        dump newIndent value ++ write [0x2C] ++ dumpMembers newIndent (next :: rest)

def dumpElements (newIndent : Nat) : List Json → Writes
  | [] => write []
  | [last] => lineBreak pretty newIndent ++ dump newIndent last
  | element :: next :: rest =>
      lineBreak pretty newIndent ++ dump newIndent element ++ write [0x2C] ++
        dumpElements newIndent (next :: rest)

end

end Dump

end Serializer

/-- `dump(indent)`; `indent_string` has 512 characters at first. -/
def Json.dump (toChars : BitVec 64 → Bytes) (indent : Int) (json : Json) :
    Except Fault Bytes :=
  let written :=
    if 0 ≤ indent then Serializer.dump toChars true indent.toNat 0 json 512
    else Serializer.dump toChars false 0 0 json 512
  written.map Prod.fst

end CommonUtils.JSON
