import CommonUtils.Library.Nested
import CommonUtils.JSON.Lexer

namespace CommonUtils.JSON

namespace Grammar

open Lexer

def Utf8 (w : Bytes) : Prop :=
  ∃ characters : List Char, w = characters.flatMap String.utf8EncodeChar

def Blank (w : Bytes) : Prop := ∀ c ∈ w, isWhitespace c

def Digits (w : Bytes) : Prop := ∀ c ∈ w, isDigit c

def Whole (w : Bytes) : Prop :=
  w = [0x30] ∨ ∃ first more, w = first :: more ∧ isDigit first ∧ first ≠ 0x30 ∧ Digits more

def Fraction (w : Bytes) : Prop :=
  w = [] ∨ ∃ first more, w = 0x2E :: first :: more ∧ isDigit first ∧ Digits more

def Exponent (w : Bytes) : Prop :=
  w = [] ∨ ∃ e sign first more, w = e :: (sign ++ first :: more) ∧ isExponent e ∧
    sign ∈ [[], [0x2B], [0x2D]] ∧ isDigit first ∧ Digits more

def Number (w : Bytes) : Prop :=
  ∃ sign whole fraction exponent, w = sign ++ (whole ++ (fraction ++ exponent)) ∧
    sign ∈ [[], [0x2D]] ∧ Whole whole ∧ Fraction fraction ∧ Exponent exponent

def Hex (w : Bytes) (n : Nat) : Prop :=
  ∃ a b c d i j k l, w = [a, b, c, d] ∧ hexDigit a = some i ∧ hexDigit b = some j ∧
    hexDigit c = some k ∧ hexDigit d = some l ∧ n = ((i * 16 + j) * 16 + k) * 16 + l

/-- A character of a string, in UTF-8 or escaped. One outside the basic plane is escaped as
a surrogate pair, and no surrogate stands alone. -/
inductive Character : Bytes → Prop where
  | plain (c : Char) (visible : 0x20 ≤ c.toNat) (unquoted : c.toNat ≠ 0x22)
      (unescaped : c.toNat ≠ 0x5C) : Character (String.utf8EncodeChar c)
  | escaped (c : UInt8) (known : c ∈ [0x22, 0x5C, 0x2F, 0x62, 0x66, 0x6E, 0x72, 0x74]) :
      Character [0x5C, c]
  | codepoint {w : Bytes} {n : Nat} (hex : Hex w n) (single : n < 0xD800 ∨ 0xDFFF < n) :
      Character (0x5C :: 0x75 :: w)
  | pair {w v : Bytes} {high low : Nat} (first : Hex w high)
      (isHigh : 0xD800 ≤ high ∧ high ≤ 0xDBFF) (second : Hex v low)
      (isLow : 0xDC00 ≤ low ∧ low ≤ 0xDFFF) :
      Character (0x5C :: 0x75 :: (w ++ 0x5C :: 0x75 :: v))

inductive Characters : Bytes → Prop where
  | nil : Characters []
  | cons {w v : Bytes} (first : Character w) (more : Characters v) : Characters (w ++ v)

def Quoted (w : Bytes) : Prop := ∃ text, w = 0x22 :: (text ++ [0x22]) ∧ Characters text

def Scalar (w : Bytes) : Prop :=
  w = [0x74, 0x72, 0x75, 0x65] ∨ w = [0x66, 0x61, 0x6C, 0x73, 0x65] ∨
    w = [0x6E, 0x75, 0x6C, 0x6C] ∨ Number w ∨ Quoted w

def Spaced (lexeme : Bytes → Prop) (w : Bytes) : Prop :=
  ∃ blank v, w = blank ++ v ∧ Blank blank ∧ lexeme v

def lexemes : Nested.Lexemes UInt8 where
  scalar := Spaced Scalar
  key w := ∃ name colon, w = name ++ colon ∧ Spaced Quoted name ∧ Spaced (· = [0x3A]) colon
  beginArray := Spaced (· = [0x5B])
  endArray := Spaced (· = [0x5D])
  beginObject := Spaced (· = [0x7B])
  endObject := Spaced (· = [0x7D])
  comma := Spaced (· = [0x2C])

/-- One text of JSON, behind which nothing but whitespace stands. It may begin with a byte
order mark. -/
def WellFormed (s : Bytes) : Prop :=
  ∃ mark text blank, s = mark ++ (text ++ blank) ∧ mark ∈ [[], [0xEF, 0xBB, 0xBF]] ∧
    Nested.Derives lexemes .value text ∧ Blank blank

def Ends (rest : Bytes) : Prop :=
  ∀ c, rest.head? = some c → isDigit c = false ∧ c ≠ 0x2E ∧ isExponent c = false

end Grammar

def Token.Utf8 : Token → Prop
  | .valueString bytes => Grammar.Utf8 bytes
  | _ => True

end CommonUtils.JSON
