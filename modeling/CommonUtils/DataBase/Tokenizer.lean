import Mathlib.Data.List.TakeWhile

/-! SQLite's tokenizer, on the bytes of a text. A text ends where the terminating NUL
stands, so reading at its end gives NUL. -/

namespace CommonUtils.DataBase

abbrev Text := List Char

def nul : Char := '\x00'

def quote : Char := '\x27'

/-- What `c_str()` hands over: a C string ends at its first NUL. -/
def cString (sql : Text) : Text := sql.takeWhile (· ≠ nul)

inductive CharClass where
  | x | kywd0 | kywd | digit | dollar | varalpha | varnum | space | quote | quote2 | pipe
  | minus | lt | gt | eq | bang | slash | lp | rp | semi | plus | star | percent | comma
  | and | tilda | dot | id | illegal | nul | bom
  deriving DecidableEq

def CharClass.all : List CharClass :=
  [.x, .kywd0, .kywd, .digit, .dollar, .varalpha, .varnum, .space, .quote, .quote2, .pipe,
    .minus, .lt, .gt, .eq, .bang, .slash, .lp, .rp, .semi, .plus, .star, .percent, .comma,
    .and, .tilda, .dot, .id, .illegal, .nul, .bom]

def asciiClass : List Nat :=
  [29, 28, 28, 28, 28, 28, 28, 28, 28,  7,  7, 28,  7,  7, 28, 28,
   28, 28, 28, 28, 28, 28, 28, 28, 28, 28, 28, 28, 28, 28, 28, 28,
    7, 15,  8,  5,  4, 22, 24,  8, 17, 18, 21, 20, 23, 11, 26, 16,
    3,  3,  3,  3,  3,  3,  3,  3,  3,  3,  5, 19, 12, 14, 13,  6,
    5,  1,  1,  1,  1,  1,  1,  1,  1,  1,  1,  1,  1,  1,  1,  1,
    1,  1,  1,  1,  1,  1,  1,  1,  0,  2,  2,  9, 28, 28, 28,  2,
    8,  1,  1,  1,  1,  1,  1,  1,  1,  1,  1,  1,  1,  1,  1,  1,
    1,  1,  1,  1,  1,  1,  1,  1,  0,  2,  2, 28, 10, 28, 25, 28]

/-- The bytes from 128 on are those of identifiers, all but the first of a byte order mark. -/
def aiClass (c : Char) : CharClass :=
  if c.toNat < 128 then CharClass.all.getD (asciiClass.getD c.toNat 28) .illegal
  else if c.toNat = 0xEF then .bom
  else .id

def asciiCtype : List Nat :=
  [0x00, 0x00, 0x00, 0x00, 0x00, 0x00, 0x00, 0x00,
   0x00, 0x01, 0x01, 0x01, 0x01, 0x01, 0x00, 0x00,
   0x00, 0x00, 0x00, 0x00, 0x00, 0x00, 0x00, 0x00,
   0x00, 0x00, 0x00, 0x00, 0x00, 0x00, 0x00, 0x00,
   0x01, 0x00, 0x80, 0x00, 0x40, 0x00, 0x00, 0x80,
   0x00, 0x00, 0x00, 0x00, 0x00, 0x00, 0x00, 0x00,
   0x0c, 0x0c, 0x0c, 0x0c, 0x0c, 0x0c, 0x0c, 0x0c,
   0x0c, 0x0c, 0x00, 0x00, 0x00, 0x00, 0x00, 0x00,
   0x00, 0x0a, 0x0a, 0x0a, 0x0a, 0x0a, 0x0a, 0x02,
   0x02, 0x02, 0x02, 0x02, 0x02, 0x02, 0x02, 0x02,
   0x02, 0x02, 0x02, 0x02, 0x02, 0x02, 0x02, 0x02,
   0x02, 0x02, 0x02, 0x80, 0x00, 0x00, 0x00, 0x40,
   0x80, 0x2a, 0x2a, 0x2a, 0x2a, 0x2a, 0x2a, 0x22,
   0x22, 0x22, 0x22, 0x22, 0x22, 0x22, 0x22, 0x22,
   0x22, 0x22, 0x22, 0x22, 0x22, 0x22, 0x22, 0x22,
   0x22, 0x22, 0x22, 0x00, 0x00, 0x00, 0x00, 0x00]

def ctypeMap (c : Char) : Nat := asciiCtype.getD c.toNat 0x40

def isSpace (c : Char) : Bool := ctypeMap c &&& 0x01 != 0

def isDigit (c : Char) : Bool := ctypeMap c &&& 0x04 != 0

def isXdigit (c : Char) : Bool := ctypeMap c &&& 0x08 != 0

def isQuote (c : Char) : Bool := ctypeMap c &&& 0x80 != 0

def idChar (c : Char) : Bool := ctypeMap c &&& 0x46 != 0

def keywordChar (c : Char) : Bool :=
  match aiClass c with
  | .x | .kywd0 | .kywd => true
  | _ => false

/-- The token types. A `word` is what SQLite looks up with `keywordCode`: the keyword of
that text, or else an identifier. -/
inductive TokenType where
  | space | illegal | word | id | string | blob | integer | float | variable | ptr | minus
  | lp | rp | semi | plus | star | slash | rem | eq | le | ne | lshift | lt | ge | rshift
  | gt | bitor | concat | comma | bitand | bitnot | dot
  deriving DecidableEq

def charAt (z : Text) (i : Nat) : Char := z.getD i nul

def run (p : Char → Bool) (z : Text) (i : Nat) : Nat := i + ((z.drop i).takeWhile p).length

def commentEnd : Char → Text → Nat → Nat
  | _, [], i => i
  | c, d :: rest, i => if c = '*' ∧ d = '/' then i + 1 else commentEnd d rest (i + 1)

def quoteEnd (delim : Char) : Text → Nat → Char × Nat
  | [], i => (nul, i)
  | [c], i => if c = delim then (c, i) else (nul, i + 1)
  | c :: d :: rest, i =>
      if c = delim then if d = delim then quoteEnd delim rest (i + 2) else (c, i)
      else quoteEnd delim (d :: rest) (i + 1)

def quoted (delim : Char) (z : Text) : TokenType × Nat :=
  let (c, i) := quoteEnd delim z 1
  if c = quote then (.string, i + 1) else if c ≠ nul then (.id, i + 1) else (.illegal, i)

def bracketEnd : Text → Nat → TokenType × Nat
  | [], i => (.illegal, i)
  | c :: rest, i => if c = ']' then (.id, i + 1) else bracketEnd rest (i + 1)

def exponent (z : Text) (i : Nat) : Bool :=
  (charAt z i = 'e' || charAt z i = 'E') &&
    (isDigit (charAt z (i + 1)) ||
      (charAt z (i + 1) = '+' || charAt z (i + 1) = '-') && isDigit (charAt z (i + 2)))

def mantissa (z : Text) : TokenType × Nat :=
  let i := run isDigit z 0
  if charAt z i = '.' then (.float, run isDigit z (i + 1)) else (.integer, i)

def numeral (z : Text) : TokenType × Nat :=
  let (tokenType, i) := mantissa z
  if exponent z i then (.float, run isDigit z (i + 2)) else (tokenType, i)

def number (z : Text) : TokenType × Nat :=
  if charAt z 0 = '0' ∧ (charAt z 1 = 'x' ∨ charAt z 1 = 'X') ∧ isXdigit (charAt z 2) then
    (.integer, run isXdigit z 3)
  else
    let (tokenType, i) := numeral z
    if idChar (charAt z i) then (.illegal, run idChar z i) else (tokenType, i)

/-- The loop over the name of a variable, where `n` counts its characters and a Tcl name
may have `::` or a part in parentheses. -/
def variableEnd : Text → Nat → Nat → TokenType × Nat
  | [], i, n => (if n = 0 then .illegal else .variable, i)
  | c :: rest, i, n =>
      if idChar c then variableEnd rest (i + 1) (n + 1)
      else if c = '(' ∧ 0 < n then
        let j := run (fun c => !isSpace c && c ≠ ')') rest 0
        if charAt rest j = ')' then (.variable, i + j + 2) else (.illegal, i + j + 1)
      else
        match rest with
        | ':' :: rest =>
            if c = ':' then variableEnd rest (i + 2) n
            else (if n = 0 then .illegal else .variable, i)
        | _ => (if n = 0 then .illegal else .variable, i)

def blob (z : Text) : TokenType × Nat :=
  let i := run isXdigit z 2
  if charAt z i ≠ quote ∨ i % 2 = 1 then
    let i := run (· ≠ quote) z i
    (.illegal, if charAt z i ≠ nul then i + 1 else i)
  else (.blob, i + 1)

def word (z : Text) (i : Nat) : TokenType × Nat := (.word, run idChar z i)

/-- `sqlite3GetToken`: the type and the length of the token that begins at `z[0]`. -/
def getToken (z : Text) : TokenType × Nat :=
  match aiClass (charAt z 0) with
  | .space => (.space, run isSpace z 1)
  | .minus =>
      if charAt z 1 = '-' then (.space, run (· ≠ '\n') z 2)
      else if charAt z 1 = '>' then (.ptr, if charAt z 2 = '>' then 3 else 2)
      else (.minus, 1)
  | .lp => (.lp, 1)
  | .rp => (.rp, 1)
  | .semi => (.semi, 1)
  | .plus => (.plus, 1)
  | .star => (.star, 1)
  | .slash =>
      if charAt z 1 ≠ '*' ∨ charAt z 2 = nul then (.slash, 1)
      else (.space, commentEnd (charAt z 2) (z.drop 3) 3)
  | .percent => (.rem, 1)
  | .eq => (.eq, if charAt z 1 = '=' then 2 else 1)
  | .lt =>
      if charAt z 1 = '=' then (.le, 2)
      else if charAt z 1 = '>' then (.ne, 2)
      else if charAt z 1 = '<' then (.lshift, 2)
      else (.lt, 1)
  | .gt =>
      if charAt z 1 = '=' then (.ge, 2)
      else if charAt z 1 = '>' then (.rshift, 2)
      else (.gt, 1)
  | .bang => if charAt z 1 ≠ '=' then (.illegal, 1) else (.ne, 2)
  | .pipe => if charAt z 1 ≠ '|' then (.bitor, 1) else (.concat, 2)
  | .comma => (.comma, 1)
  | .and => (.bitand, 1)
  | .tilda => (.bitnot, 1)
  | .quote => quoted (charAt z 0) z.tail
  | .dot => if isDigit (charAt z 1) then number z else (.dot, 1)
  | .digit => number z
  | .quote2 => bracketEnd z.tail 1
  | .varnum => (.variable, run isDigit z 1)
  | .dollar | .varalpha => variableEnd z.tail 1 0
  | .kywd0 =>
      if !keywordChar (charAt z 1) then word z 1
      else
        let i := run keywordChar z 2
        if idChar (charAt z i) then word z (i + 1) else (.word, i)
  | .x => if charAt z 1 = quote then blob z else word z 1
  | .kywd | .id => word z 1
  | .bom =>
      if (charAt z 1).toNat = 0xBB ∧ (charAt z 2).toNat = 0xBF then (.space, 3) else word z 1
  | .nul => (.illegal, 0)
  | .illegal => (.illegal, 1)

def dequoteBody (delim : Char) : Text → Text
  | [] => []
  | [c] => if c = delim then [] else [c]
  | c :: d :: rest =>
      if c = delim then if d = delim then delim :: dequoteBody delim rest else []
      else c :: dequoteBody delim (d :: rest)

def dequote : Text → Text
  | [] => []
  | c :: rest =>
      if isQuote c then dequoteBody (if c = '[' then ']' else c) rest else c :: rest

structure Token where
  tokenType : TokenType
  text : Text
  deriving DecidableEq

def Token.ofText (tokenType : TokenType) (text : Text) : Token :=
  ⟨tokenType, if tokenType = .string then dequote text else text⟩

/-- The loop of `sqlite3RunParser`: spaces and comments are left out, and an illegal token
is the last. -/
def scan : Nat → Text → List Token
  | 0, _ => []
  | fuel + 1, z =>
      if z = [] then []
      else
        let (tokenType, n) := getToken z
        if tokenType = .space then scan fuel (z.drop n)
        else if tokenType = .illegal then [.ofText .illegal (z.take n)]
        else .ofText tokenType (z.take n) :: scan fuel (z.drop n)

def tokens (z : Text) : List Token := scan z.length z

def lex (sql : Text) : List Token := tokens (cString sql)

end CommonUtils.DataBase
