import CommonUtils.JSON.Escaped
import Mathlib.Algebra.Group.Int.Defs

namespace CommonUtils.JSON

/-- The documents that have a text: a number is finite, a string and a key are UTF-8, and no
value is binary. -/
inductive Json.Textual : Json → Prop where
  | null : Textual .null
  | boolean (value : Bool) : Textual (.boolean value)
  | numberInteger (value : BitVec 64) : Textual (.numberInteger value)
  | numberUnsigned (value : BitVec 64) : Textual (.numberUnsigned value)
  | numberFloat (bits : BitVec 64) (finite : isFinite bits) : Textual (.numberFloat bits)
  | string (value : Bytes) (utf8 : Grammar.Utf8 value) : Textual (.string value)
  | array (elements : List Json) (each : ∀ element ∈ elements, Textual element) :
      Textual (.array elements)
  | object (members : List (Bytes × Json)) (keys : ∀ member ∈ members, Grammar.Utf8 member.1)
      (each : ∀ member ∈ members, Textual member.2) : Textual (.object members)

def Step.Textual : Step → Prop
  | .key name => Grammar.Utf8 name
  | .index _ => True

namespace Serializer

open Lexer Grammar Writes

section Integers

theorem digit_toNat {n : Nat} (less : n < 10) : (0x30 + n).toUInt8.toNat = 0x30 + n := by
  simp
  omega

theorem isDigit_digit {n : Nat} (less : n < 10) : isDigit (0x30 + n).toUInt8 := by
  have value := digit_toNat less
  simp only [isDigit, Bool.and_eq_true, decide_eq_true_eq, UInt8.le_iff_toNat_le, value]
  constructor
  · exact Nat.le_add_right _ _
  · exact Nat.add_le_add_left (Nat.le_of_lt_succ less) 0x30

theorem fillDigits_digits (absValue : Nat) (buffer : Bytes) (positive : 0 < absValue) :
    ∃ first more, fillDigits absValue buffer = first :: (more ++ buffer) ∧ isDigit first ∧
      first ≠ 0x30 ∧ Digits more := by
  have single : ∀ n, 0 < n → n < 10 → isDigit (0x30 + n).toUInt8 ∧ (0x30 + n).toUInt8 ≠ 0x30 := by
    intro n positive less
    refine ⟨isDigit_digit less, fun zero => ?_⟩
    have value := digit_toNat less
    rw [zero] at value
    simp at value
    omega
  fun_induction fillDigits absValue buffer with
  | case1 absValue buffer large ih =>
      rcases ih (by omega) with ⟨first, more, same, digit, nonzero, digits⟩
      refine ⟨first, more ++ digitsTo99 (absValue % 100), ?_, digit, nonzero, ?_⟩
      · rw [same, List.append_assoc]
      · intro c inside
        rcases List.mem_append.mp inside with before | behind
        · exact digits c before
        · simp only [digitsTo99, List.mem_cons, List.not_mem_nil, or_false] at behind
          rcases behind with tens | units
          · rw [tens]
            exact isDigit_digit (by omega)
          · rw [units]
            exact isDigit_digit (by omega)
  | case2 absValue buffer small large =>
      have tens := single (absValue / 10) (by omega) (by omega)
      refine ⟨_, [(0x30 + absValue % 10).toUInt8], rfl, tens.1, tens.2, ?_⟩
      intro c inside
      rw [List.mem_singleton.mp inside]
      exact isDigit_digit (by omega)
  | case3 absValue buffer small less =>
      have units := single absValue positive (by omega)
      exact ⟨_, [], rfl, units.1, units.2, fun c inside => by cases inside⟩

theorem foldl_fillDigits (absValue : Nat) (buffer : Bytes) :
    (fillDigits absValue buffer).foldl (fun n d => n * 10 + (d.toNat - 0x30)) 0 =
      buffer.foldl (fun n d => n * 10 + (d.toNat - 0x30)) absValue := by
  fun_induction fillDigits absValue buffer with
  | case1 absValue buffer large ih =>
      rw [ih, List.foldl_append]
      congr 1
      simp only [digitsTo99, List.foldl_cons, List.foldl_nil]
      rw [digit_toNat (by omega), digit_toNat (by omega)]
      omega
  | case2 absValue buffer small large =>
      rw [List.foldl_append]
      congr 1
      simp only [digitsTo99, List.foldl_cons, List.foldl_nil]
      rw [digit_toNat (by omega), digit_toNat (by omega)]
      omega
  | case3 absValue buffer small less =>
      rw [List.foldl_cons, digit_toNat (by omega)]
      congr 1
      omega

theorem decimal_fillDigits (absValue : Nat) : decimal (fillDigits absValue []) = absValue :=
  foldl_fillDigits absValue []

end Integers

/-- The text of a finite double, and what `strtod` makes of it. -/
structure FloatText (strtod : Bytes → BitVec 64) (toChars : BitVec 64 → Bytes) : Prop where
  spelled : ∀ bits, isFinite bits → ∃ sign whole fraction exponent,
    toChars bits = sign ++ (whole ++ (fraction ++ exponent)) ∧ sign ∈ [[], [0x2D]] ∧
      Whole whole ∧ Fraction fraction ∧ Exponent exponent ∧ fraction ++ exponent ≠ []
  exact : ∀ bits, isFinite bits → strtod (toChars bits) = bits

section Numbers

variable {strtod : Bytes → BitVec 64}

theorem whole_fillDigits {n : Nat} (positive : 0 < n) : Whole (fillDigits n []) := by
  rcases fillDigits_digits n [] positive with ⟨first, more, same, digit, nonzero, digits⟩
  rw [List.append_nil] at same
  exact .inr ⟨first, more, same, digit, nonzero, digits⟩

def integerToken (x : Int) : Token :=
  if x < 0 then .valueInteger (BitVec.ofInt 64 x) else .valueUnsigned (BitVec.ofInt 64 x)

theorem integerToken_scalar (x : Int) : ∃ value, (integerToken x).scalar = some value := by
  unfold integerToken
  split
  · exact ⟨_, rfl⟩
  · exact ⟨_, rfl⟩

variable (strtod) in
theorem scan_integer {sign whole : Bytes} (isSign : sign ∈ [[], [0x2D]]) (isWhole : Whole whole)
    {rest : Bytes} (ends : Ends rest) :
    scan strtod (sign ++ whole ++ rest) =
      (numberToken strtod (if sign = [] then .unsigned else .integer) (sign ++ whole), rest) := by
  have stops : ∀ state type, state = .zero ∨ state = .any1 →
      Completes strtod state type [] (id type) := by
    intro state type inside
    rcases inside with zero | digit
    · subst zero
      exact completes_end rfl type
    · subst digit
      exact completes_end rfl type
  have run := scan_whole strtod isSign isWhole [] id stops ends
  rw [List.append_nil] at run
  exact run

theorem scan_dumpInteger {x : Int} (low : -2 ^ 63 ≤ x) (high : x < 2 ^ 64) {rest : Bytes}
    (ends : Ends rest) :
    scan strtod (dumpInteger x ++ rest) = (integerToken x, rest) := by
  have unsigned : ([] : Bytes) ∈ [[], [0x2D]] := by simp
  have signed : ([0x2D] : Bytes) ∈ [[], [0x2D]] := by simp
  unfold dumpInteger integerToken
  split_ifs with zero negative negative
  · omega
  · have run := scan_integer strtod unsigned (.inl rfl) ends
    rw [zero]
    exact run
  · have whole : Whole (fillDigits x.natAbs []) := whole_fillDigits (by omega)
    have run := scan_integer strtod signed whole ends
    have token : numberToken strtod .integer (0x2D :: fillDigits x.natAbs []) =
        .valueInteger (BitVec.ofInt 64 x) := by
      simp only [numberToken, List.tail_cons, decimal_fillDigits]
      rw [if_pos (by omega)]
      congr 2
      omega
    rw [← token]
    exact run
  · have whole : Whole (fillDigits x.natAbs []) := whole_fillDigits (by omega)
    have run := scan_integer strtod unsigned whole ends
    have token : numberToken strtod .unsigned (fillDigits x.natAbs []) =
        .valueUnsigned (BitVec.ofInt 64 x) := by
      simp only [numberToken, decimal_fillDigits]
      rw [if_pos (by omega)]
      congr 1
      rw [← BitVec.ofInt_natCast]
      congr 1
      omega
    rw [← token]
    exact run

theorem scan_dumpFloat {toChars : BitVec 64 → Bytes} (floats : FloatText strtod toChars)
    {bits : BitVec 64} (finite : isFinite bits) {rest : Bytes} (ends : Ends rest) :
    scan strtod (dumpFloat toChars bits ++ rest) = (.valueFloat bits, rest) := by
  rcases floats.spelled bits finite with
    ⟨sign, whole, fraction, exponent, same, isSign, isWhole, isFraction, isExponent, float⟩
  have run := scan_whole strtod isSign isWhole (fraction ++ exponent)
    (behindWhole (fraction ++ exponent))
    (fun state type inside => completes_fraction inside isFraction isExponent type) ends
  have type : ∀ start, behindWhole (fraction ++ exponent) start = .float := fun _ => if_neg float
  rw [type, ← same] at run
  rw [dumpFloat, if_pos finite, run, numberToken, floats.exact bits finite]

end Numbers

mutual

def word : Json → List Token
  | .object members => .beginObject :: (membersWord members ++ [.endObject])
  | .array elements => .beginArray :: (elementsWord elements ++ [.endArray])
  | .string value => [.valueString value]
  | .boolean value => [if value then .literalTrue else .literalFalse]
  | .numberInteger value => [integerToken value.toInt]
  | .numberUnsigned value => [integerToken value.toNat]
  | .numberFloat bits => [.valueFloat bits]
  | .binary _ | .null => [.literalNull]

def membersWord : List (Bytes × Json) → List Token
  | [] => []
  | [(key, value)] => .valueString key :: .nameSeparator :: word value
  | (key, value) :: next :: rest =>
      .valueString key :: .nameSeparator ::
        (word value ++ .valueSeparator :: membersWord (next :: rest))

def elementsWord : List Json → List Token
  | [] => []
  | [last] => word last
  | element :: next :: rest => word element ++ .valueSeparator :: elementsWord (next :: rest)

end

section Lexes

variable (strtod : Bytes → BitVec 64)

/-- A part writes a text that is read as the word, given that `indent_string` is as long as
`before`; it is as long as `after` then. The text is one of those that `starts` says if
what follows it is `required`. -/
def Lexes (before after : Nat) (starts required : Bytes → Prop) (part : Writes)
    (tokens : List Token) : Prop :=
  ∀ size, before ≤ size → ∃ text longer, part size = .ok (text, longer) ∧ after ≤ longer ∧
    ∀ rest, required rest →
      starts (text ++ rest) ∧ lex strtod (text ++ rest) = tokens ++ lex strtod rest

variable {strtod} {before middle after : Nat} {starts between required : Bytes → Prop}

theorem Lexes.append {first second : Writes} {word further : List Token}
    (front : Lexes strtod before middle starts between first word)
    (behind : Lexes strtod middle after between required second further) :
    Lexes strtod before after starts required (first ++ second) (word ++ further) := by
  intro size enough
  rcases front size enough with ⟨text, longer, written, kept, reads⟩
  rcases behind longer kept with ⟨more, last, writtenMore, keptMore, readsMore⟩
  refine ⟨text ++ more, last, ?_, keptMore, ?_⟩
  · show Writes.append first second size = _
    rw [Writes.append, written]
    show (second longer).map _ = _
    rw [writtenMore]
    rfl
  · intro rest asRequired
    rcases readsMore rest asRequired with ⟨joint, readMore⟩
    rcases reads (more ++ rest) joint with ⟨start, read⟩
    rw [List.append_assoc]
    exact ⟨start, by rw [read, readMore, List.append_assoc]⟩

theorem Lexes.mono {part : Writes} {word : List Token} {less : Nat}
    (reads : Lexes strtod before after starts required part word) (fewer : less ≤ after) :
    Lexes strtod before less starts required part word := by
  intro size enough
  rcases reads size enough with ⟨text, longer, written, kept, read⟩
  exact ⟨text, longer, written, Nat.le_trans fewer kept, read⟩

theorem lexes_write {text : Bytes} {word : List Token}
    (reads : ∀ rest, required rest →
      starts (text ++ rest) ∧ lex strtod (text ++ rest) = word ++ lex strtod rest) (size : Nat) :
    Lexes strtod size size starts required (write text) word :=
  fun longer enough => ⟨text, longer, rfl, enough, reads⟩

theorem lexes_token {text : Bytes} {token : Token} (proper : Proper token)
    (scanned : ∀ rest, required rest → scan strtod (text ++ rest) = (token, rest)) (size : Nat) :
    Lexes strtod size size Nested.anywhere required (write text) [token] :=
  lexes_write (fun rest asRequired => ⟨trivial, lex_of_scan (scanned rest asRequired) proper⟩) size

theorem lexes_mark {mark : UInt8} {token : Token} (marks : Marks strtod mark token) (size : Nat) :
    Lexes strtod size size Ends required (write [mark]) [token] :=
  lexes_write (fun rest _ => ⟨marks.ends rest, lex_of_scan (marks.scanned rest) marks.proper⟩) size

theorem lexes_grow {newIndent : Nat} (enough : newIndent ≤ before * 2) :
    Lexes strtod before (max before newIndent) starts starts (grow newIndent) [] := by
  intro size long
  refine ⟨[], _, rfl, ?_, fun rest asRequired => ⟨asRequired, rfl⟩⟩
  split
  · omega
  · omega

theorem lex_append_blank {blank : Bytes} (isBlank : Blank blank) (rest : Bytes) :
    lex strtod (blank ++ rest) = lex strtod rest := by
  rw [lex, scan_blank isBlank, eq_comm, lex]

theorem lexes_lineBreak (pretty : Bool) {indent size : Nat} (short : indent ≤ size)
    (blank : ∀ w rest, Blank w → starts rest → starts (w ++ rest)) :
    Lexes strtod size size starts starts (lineBreak pretty indent) [] := by
  intro longer enough
  have isBlank : Blank (0x0A :: List.replicate indent 0x20) := by
    intro c inside
    rcases List.mem_cons.mp inside with newline | space
    · rw [newline]
      rfl
    · rw [List.eq_of_mem_replicate space]
      rfl
  cases pretty with
  | false => exact ⟨[], longer, rfl, enough, fun rest asRequired => ⟨asRequired, rfl⟩⟩
  | true =>
      refine ⟨0x0A :: List.replicate indent 0x20, longer, ?_, enough, ?_⟩
      · show Writes.append (write [0x0A]) (indentation indent) longer = _
        simp only [Writes.append, write, indentation, Except.bind]
        rw [if_pos (Nat.le_trans short enough)]
        rfl
      · intro rest asRequired
        exact ⟨blank _ rest isBlank asRequired, lex_append_blank isBlank rest⟩

def room (indent : Nat) : Nat := max 512 indent

theorem lexes_quoted {s : Bytes} (utf8 : Utf8 s) (size : Nat) :
    Lexes strtod size size Nested.anywhere required (quoted s) [.valueString s] := by
  rcases dumpEscaped_of_utf8 utf8 with ⟨text, run, decodes⟩
  have same : quoted s = write (0x22 :: (text ++ [0x22])) := by
    funext longer
    rw [quoted, run]
    rfl
  rw [same]
  exact lexes_token (proper_scalar rfl) (fun rest _ => scan_string decodes rest) size

theorem lexes_key (pretty : Bool) {key : Bytes} (utf8 : Utf8 key) (size : Nat) :
    Lexes strtod size size Nested.anywhere Nested.anywhere
      (quoted key ++ write (nameSeparator pretty)) [.valueString key, .nameSeparator] := by
  have mark : Marks strtod 0x3A .nameSeparator := marks_structural (by simp)
  have here : ∀ more, lex strtod (0x3A :: more) = .nameSeparator :: lex strtod more := fun more =>
    lex_of_scan (mark.scanned more) mark.proper
  have colon : Lexes strtod size size Nested.anywhere Nested.anywhere
      (write (nameSeparator pretty)) [.nameSeparator] := by
    refine lexes_write (fun rest _ => ⟨trivial, ?_⟩) size
    cases pretty with
    | false => exact here rest
    | true =>
        have space : Blank [0x20] := by
          intro c inside
          rw [List.mem_singleton.mp inside]
          rfl
        have both : nameSeparator true = [0x3A] ++ [0x20] := rfl
        calc
          lex strtod (nameSeparator true ++ rest) = lex strtod (0x3A :: ([0x20] ++ rest)) := by
            rw [both, List.append_assoc, List.singleton_append]
          _ = .nameSeparator :: lex strtod ([0x20] ++ rest) := here ([0x20] ++ rest)
          _ = .nameSeparator :: lex strtod rest := by rw [lex_append_blank space]
  exact (lexes_quoted utf8 size).append colon

theorem lexes_close (pretty : Bool) {indent size : Nat} (short : indent ≤ size) {mark : UInt8}
    {token : Token} (marks : Marks strtod mark token) :
    Lexes strtod size size Ends required (lineBreak pretty indent ++ write [mark]) [token] :=
  (lexes_lineBreak pretty short fun _ _ isBlank => ends_append isBlank).append
    (lexes_mark marks size)

theorem lexes_nothing (size : Nat) :
    Lexes strtod size size Nested.anywhere required (write []) [] :=
  lexes_write (fun _ _ => ⟨trivial, rfl⟩) size

theorem Lexes.comma {size : Nat} {first more : Writes} {word further : List Token}
    (front : Lexes strtod size size Nested.anywhere Ends first word)
    (behind : Lexes strtod size size Nested.anywhere Ends more further) :
    Lexes strtod size size Nested.anywhere Ends (first ++ write [0x2C] ++ more)
      (word ++ .valueSeparator :: further) := by
  have mark : Marks strtod 0x2C .valueSeparator := marks_structural (by simp)
  have separator : Lexes strtod size size Ends Nested.anywhere (write [0x2C]) [.valueSeparator] :=
    lexes_mark mark size
  have whole := (front.append separator).append behind
  rwa [List.append_assoc, List.singleton_append] at whole

theorem lexes_elements {toChars : BitVec 64 → Bytes} {pretty : Bool} {indentStep newIndent : Nat}
    {elements : List Json} (each : ∀ element ∈ elements, Lexes strtod (room newIndent)
      (room newIndent) Nested.anywhere Ends (dump toChars pretty indentStep newIndent element)
      (word element)) :
    Lexes strtod (room newIndent) (room newIndent) Nested.anywhere Ends
      (dumpElements toChars pretty indentStep newIndent elements) (elementsWord elements) := by
  have line : Lexes strtod (room newIndent) (room newIndent) Nested.anywhere Nested.anywhere
      (lineBreak pretty newIndent) [] :=
    lexes_lineBreak pretty (Nat.le_max_right _ _) fun _ _ _ _ => trivial
  induction elements with
  | nil =>
      rw [dumpElements, elementsWord]
      exact lexes_nothing _
  | cons element rest ih =>
      have first := line.append (each element List.mem_cons_self)
      cases rest with
      | nil =>
          rw [dumpElements, elementsWord]
          exact first
      | cons next rest =>
          have more := ih fun element inside => each element (List.mem_cons_of_mem _ inside)
          have whole := first.comma more
          rw [dumpElements, elementsWord]
          simpa using whole

theorem lexes_members {toChars : BitVec 64 → Bytes} {pretty : Bool} {indentStep newIndent : Nat}
    {members : List (Bytes × Json)} (keys : ∀ member ∈ members, Utf8 member.1)
    (each : ∀ member ∈ members, Lexes strtod (room newIndent) (room newIndent) Nested.anywhere
      Ends (dump toChars pretty indentStep newIndent member.2) (word member.2)) :
    Lexes strtod (room newIndent) (room newIndent) Nested.anywhere Ends
      (dumpMembers toChars pretty indentStep newIndent members) (membersWord members) := by
  have line : Lexes strtod (room newIndent) (room newIndent) Nested.anywhere Nested.anywhere
      (lineBreak pretty newIndent) [] :=
    lexes_lineBreak pretty (Nat.le_max_right _ _) fun _ _ _ _ => trivial
  induction members with
  | nil =>
      rw [dumpMembers, membersWord]
      exact lexes_nothing _
  | cons member rest ih =>
      rcases member with ⟨key, value⟩
      have utf8 : Utf8 key := keys (key, value) List.mem_cons_self
      have named := line.append (lexes_key pretty utf8 (room newIndent))
      have first := named.append (each (key, value) List.mem_cons_self)
      cases rest with
      | nil =>
          rw [dumpMembers, membersWord]
          exact first
      | cons next rest =>
          have more := ih (fun member inside => keys member (List.mem_cons_of_mem _ inside))
            fun member inside => each member (List.mem_cons_of_mem _ inside)
          have whole := first.comma more
          rw [dumpMembers, membersWord]
          simpa using whole

theorem lexes_container {pretty : Bool} {indentStep indent : Nat} (step : indentStep ≤ 512)
    {opens closes : UInt8} {opening closing : Token} {body : Writes} {word : List Token}
    (opened : Marks strtod opens opening) (closed : Marks strtod closes closing)
    (inner : Lexes strtod (room (indent + indentStep)) (room (indent + indentStep))
      Nested.anywhere Ends body word) :
    Lexes strtod (room indent) (room indent) Nested.anywhere Ends
      (write [opens] ++ grow (indent + indentStep) ++ body ++
        (lineBreak pretty indent ++ write [closes])) (opening :: (word ++ [closing])) := by
  have first : Lexes strtod (room indent) (room indent) Nested.anywhere Nested.anywhere
      (write [opens]) [opening] :=
    lexes_token opened.proper (fun rest _ => opened.scanned rest) _
  have longer : Lexes strtod (room indent) (room (indent + indentStep)) Nested.anywhere
      Nested.anywhere (grow (indent + indentStep)) [] := by
    apply (lexes_grow _).mono
    · unfold room
      omega
    · unfold room
      omega
  have last : Lexes strtod (room (indent + indentStep)) (room indent) Ends Ends
      (lineBreak pretty indent ++ write [closes]) [closing] := by
    apply (lexes_close pretty _ closed).mono
    · unfold room
      omega
    · unfold room
      omega
  have whole := ((first.append longer).append inner).append last
  simpa using whole

theorem lexes_empty {opens closes : UInt8} {opening closing : Token}
    (opened : Marks strtod opens opening) (closed : Marks strtod closes closing) (size : Nat) :
    Lexes strtod size size Nested.anywhere required (write [opens, closes])
      [opening, closing] := by
  apply lexes_write
  intro rest _
  have first := lex_of_scan (opened.scanned (closes :: rest)) opened.proper
  have second := lex_of_scan (closed.scanned rest) closed.proper
  exact ⟨trivial, first.trans (congrArg (opening :: ·) second)⟩

theorem lexes_integer {x : Int} (low : -2 ^ 63 ≤ x) (high : x < 2 ^ 64) (size : Nat) :
    Lexes strtod size size Nested.anywhere Ends (write (dumpInteger x)) [integerToken x] := by
  rcases integerToken_scalar x with ⟨value, scalar⟩
  exact lexes_token (proper_scalar scalar) (fun _ ends => scan_dumpInteger low high ends) size

/-- A document that has a text is read as its tokens, in either layout. -/
theorem lexes_dump {toChars : BitVec 64 → Bytes} (floats : FloatText strtod toChars) (pretty : Bool)
    {indentStep : Nat} (step : indentStep ≤ 512) {json : Json} (textual : json.Textual)
    (indent : Nat) :
    Lexes strtod (room indent) (room indent) Nested.anywhere Ends
      (dump toChars pretty indentStep indent json) (word json) := by
  -- each level indents further, so that the indentation is left open
  induction textual generalizing indent with
  | null =>
      rw [dump, word]
      exact lexes_token (proper_scalar rfl) (fun _ _ => rfl) _
  | boolean value =>
      cases value with
      | false =>
          rw [dump, word]
          exact lexes_token (proper_scalar rfl) (fun _ _ => rfl) _
      | true =>
          rw [dump, word]
          exact lexes_token (proper_scalar rfl) (fun _ _ => rfl) _
  | numberInteger value =>
      have low : -2 ^ 63 ≤ value.toInt := BitVec.le_toInt value
      have high : value.toInt < 2 ^ 63 := BitVec.toInt_lt
      rw [dump, word]
      exact lexes_integer low (by omega) _
  | numberUnsigned value =>
      have high := value.isLt
      rw [dump, word]
      exact lexes_integer (by omega) (by omega) _
  | numberFloat bits finite =>
      rw [dump, word]
      exact lexes_token (proper_scalar rfl)
        (fun _ ends => scan_dumpFloat floats finite ends) _
  | string value utf8 =>
      rw [dump, word]
      exact lexes_quoted utf8 _
  | array elements each ih =>
      have opened : Marks strtod 0x5B .beginArray := marks_structural (by simp)
      have closed : Marks strtod 0x5D .endArray := marks_structural (by simp)
      cases elements with
      | nil =>
          rw [dump, word, elementsWord]
          exact lexes_empty opened closed _
      | cons first rest =>
          rw [dump, word]
          exact lexes_container step opened closed
            (lexes_elements fun element inside => ih element inside _)
  | object members keys each ih =>
      have opened : Marks strtod 0x7B .beginObject := marks_structural (by simp)
      have closed : Marks strtod 0x7D .endObject := marks_structural (by simp)
      cases members with
      | nil =>
          rw [dump, word, membersWord]
          exact lexes_empty opened closed _
      | cons first rest =>
          rw [dump, word]
          exact lexes_container step opened closed
            (lexes_members keys fun member inside => ih member inside _)

end Lexes

end Serializer

/-- A document is written with up to 512 spaces for a level, and read as its tokens. -/
theorem Json.tokens_dump {strtod : Bytes → BitVec 64} {toChars : BitVec 64 → Bytes}
    (floats : Serializer.FloatText strtod toChars) {indent : Int} (step : indent ≤ 512)
    {json : Json} (textual : json.Textual) :
    ∃ text, json.dump toChars indent = .ok text ∧
      Lexer.tokens strtod text = Serializer.word json ++ [.endOfInput] := by
  have blank : Grammar.Blank [] := fun c inside => by cases inside
  have written : ∀ pretty indentStep, indentStep ≤ 512 →
      ∃ text longer, Serializer.dump toChars pretty indentStep 0 json 512 = .ok (text, longer) ∧
        Lexer.tokens strtod text = Serializer.word json ++ [.endOfInput] := by
    intro pretty indentStep short
    rcases Serializer.lexes_dump floats pretty short textual 0 512 (Nat.le_refl _) with
      ⟨text, longer, run, -, reads⟩
    have ends : Grammar.Ends [] := fun c head => by cases head
    have lexed := (reads [] ends).2
    rw [List.append_nil, Lexer.lex_blank blank] at lexed
    exact ⟨text, longer, run, Lexer.tokens_of_lex lexed⟩
  by_cases lines : 0 ≤ indent
  · rcases written true indent.toNat (by omega) with ⟨text, longer, run, lexed⟩
    exact ⟨text, by rw [dump, if_pos lines, run]; rfl, lexed⟩
  · rcases written false 0 (by omega) with ⟨text, longer, run, lexed⟩
    exact ⟨text, by rw [dump, if_neg lines, run]; rfl, lexed⟩

end CommonUtils.JSON
