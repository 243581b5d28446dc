import CommonUtils.JSON.Grammar
import CommonUtils.JSON.Parser

namespace CommonUtils.JSON

namespace Lexer

open Grammar

theorem skipWhitespace_append {blank : Bytes} (isBlank : Blank blank) (rest : Bytes) :
    skipWhitespace (blank ++ rest) = skipWhitespace rest := by
  induction blank with
  | nil => rfl
  | cons c blank ih =>
      have white : isWhitespace c := isBlank c List.mem_cons_self
      rw [List.cons_append, skipWhitespace, if_pos white]
      exact ih fun d inside => isBlank d (List.mem_cons_of_mem c inside)

variable {strtod : Bytes → BitVec 64}

section Characters

theorem utf8_char (c : Char) : Utf8 (String.utf8EncodeChar c) := ⟨[c], by simp⟩

theorem utf8_nil : Utf8 [] := ⟨[], rfl⟩

theorem utf8_append {w v : Bytes} (first : Utf8 w) (second : Utf8 v) : Utf8 (w ++ v) := by
  rcases first with ⟨front, rfl⟩
  rcases second with ⟨back, rfl⟩
  exact ⟨front ++ back, List.flatMap_append.symm⟩

theorem exists_char {n : Nat} (valid : n.isValidChar) : ∃ c : Char, c.val.toNat = n :=
  ⟨Char.ofNatAux n valid, rfl⟩

theorem marked_byte (mark size low : Nat) (less : low < 2 ^ size) :
    (2 ^ size * mark ||| low).toUInt8 = UInt8.ofNat (low + 2 ^ size * mark) := by
  rw [← Nat.two_pow_add_eq_or_of_lt less mark, Nat.add_comm]

theorem encode_eq (c : Char) : encode c.val.toNat = String.utf8EncodeChar c := by
  have valid : c.toNat < 0xD800 ∨ 0xDFFF < c.toNat ∧ c.toNat < 0x110000 := c.valid
  have same : c.val.toNat = c.toNat := rfl
  have six (n : Nat) : n &&& 0x3F = n % 64 := Nat.and_two_pow_sub_one_eq_mod n 6
  have tail (n : Nat) : (0x80 ||| n % 64).toUInt8 = UInt8.ofNat (n % 64 + 128) :=
    marked_byte 2 6 (n % 64) (Nat.mod_lt n (by decide))
  have below : c.toNat < 0x80 ↔ c.toNat ≤ 0x7F := Nat.lt_succ_iff
  unfold encode String.utf8EncodeChar
  simp only [same, six, below, Nat.shiftRight_eq_div_pow]
  split_ifs with one two three
  · rfl
  · have first : (0xC0 ||| c.toNat / 2 ^ 6).toUInt8 = UInt8.ofNat (c.toNat / 64 + 192) :=
      marked_byte 3 6 _ (by omega)
    have small : c.toNat / 64 % 32 = c.toNat / 64 := Nat.mod_eq_of_lt (by omega)
    rw [first, tail, small]
  · have first : (0xE0 ||| c.toNat / 2 ^ 12).toUInt8 = UInt8.ofNat (c.toNat / 4096 + 224) :=
      marked_byte 7 5 _ (by omega)
    have small : c.toNat / 4096 % 16 = c.toNat / 4096 := Nat.mod_eq_of_lt (by omega)
    rw [first, tail, tail, small]
  · have first : (0xF0 ||| c.toNat / 2 ^ 18).toUInt8 = UInt8.ofNat (c.toNat / 262144 + 240) :=
      marked_byte 15 4 _ (by omega)
    have small : c.toNat / 262144 % 8 = c.toNat / 262144 := Nat.mod_eq_of_lt (by omega)
    rw [first, tail, tail, tail, small]

theorem utf8_encode {n : Nat} (valid : n.isValidChar) : Utf8 (encode n) := by
  rcases exists_char valid with ⟨c, value⟩
  rw [← value, encode_eq]
  exact utf8_char c

end Characters

section Strings

def Decodes (state : StringState) (w added : Bytes) (after : StringState) : Prop :=
  ∀ buffer rest, scanString state buffer (w ++ rest) = scanString after (buffer ++ added) rest

theorem Decodes.nil (state : StringState) : Decodes state [] [] state := by
  intro buffer rest
  rw [List.append_nil, List.nil_append]

theorem Decodes.cons {state middle after : StringState} {current : UInt8}
    {w added further : Bytes} (step : state.step current = .next middle added)
    (more : Decodes middle w further after) :
    Decodes state (current :: w) (added ++ further) after := by
  intro buffer rest
  rw [List.cons_append, scanString, step, ← List.append_assoc]
  exact more (buffer ++ added) rest

theorem Decodes.skip {state middle after : StringState} {current : UInt8} {w further : Bytes}
    (step : state.step current = .next middle []) (more : Decodes middle w further after) :
    Decodes state (current :: w) further after := .cons step more

theorem Decodes.last {state after : StringState} {current : UInt8} {added : Bytes}
    (step : state.step current = .next after added) : Decodes state [current] added after := by
  intro buffer rest
  rw [List.singleton_append, scanString, step]

theorem Decodes.append {state middle after : StringState} {w v added further : Bytes}
    (first : Decodes state w added middle) (second : Decodes middle v further after) :
    Decodes state (w ++ v) (added ++ further) after := by
  intro buffer rest
  rw [List.append_assoc, first, second, List.append_assoc]

theorem plainStep_ascii {c : UInt8} (visible : 0x20 ≤ c.toNat) (ascii : c.toNat ≤ 0x7F)
    (unquoted : c.toNat ≠ 0x22) (unescaped : c.toNat ≠ 0x5C) :
    plainStep c = .next .plain [c] := by
  unfold plainStep
  rw [if_neg, if_neg, if_neg, if_pos] <;>
    simp [UInt8.le_iff_toNat_le, UInt8.lt_iff_toNat_lt, ← UInt8.toNat_inj] <;> omega

theorem plainStep_two {c : UInt8} (low : 0xC2 ≤ c.toNat) (high : c.toNat ≤ 0xDF) :
    plainStep c = .next (.ranges 0x80 0xBF []) [c] := by
  unfold plainStep
  rw [if_neg, if_neg, if_neg, if_neg, if_pos] <;>
    simp [UInt8.le_iff_toNat_le, UInt8.lt_iff_toNat_lt, ← UInt8.toNat_inj] <;> omega

theorem plainStep_three {c : UInt8} (low : 0xE1 ≤ c.toNat) (high : c.toNat ≤ 0xEF)
    (unpaired : c.toNat ≠ 0xED) :
    plainStep c = .next (.ranges 0x80 0xBF [(0x80, 0xBF)]) [c] := by
  unfold plainStep
  rw [if_neg, if_neg, if_neg, if_neg, if_neg, if_neg, if_neg, if_pos] <;>
    simp [UInt8.le_iff_toNat_le, UInt8.lt_iff_toNat_lt, ← UInt8.toNat_inj] <;> omega

theorem plainStep_four {c : UInt8} (low : 0xF1 ≤ c.toNat) (high : c.toNat ≤ 0xF3) :
    plainStep c = .next (.ranges 0x80 0xBF [(0x80, 0xBF), (0x80, 0xBF)]) [c] := by
  unfold plainStep
  rw [if_neg, if_neg, if_neg, if_neg, if_neg, if_neg, if_neg, if_neg, if_neg, if_pos] <;>
    simp [UInt8.le_iff_toNat_le, UInt8.lt_iff_toNat_lt, ← UInt8.toNat_inj] <;> omega

inductive Copies : StringState → Bytes → Prop where
  | nil : Copies .plain []
  | cons {state after : StringState} {current : UInt8} {w : Bytes}
      (step : state.step current = .next after [current]) (more : Copies after w) :
      Copies state (current :: w)

theorem Copies.decodes {state : StringState} {w : Bytes} (copies : Copies state w) :
    Decodes state w w .plain := by
  induction copies with
  | nil => exact .nil _
  | cons step more ih => exact .cons step ih

theorem copies_ranges {low high c : UInt8} {more : List (UInt8 × UInt8)} {w : Bytes}
    (inside : low.toNat ≤ c.toNat ∧ c.toNat ≤ high.toNat)
    (rest : Copies (match more with
      | [] => .plain
      | (low, high) :: more => .ranges low high more) w) :
    Copies (.ranges low high more) (c :: w) := by
  have within : low ≤ c ∧ c ≤ high := inside
  cases more with
  | nil => exact .cons (by rw [StringState.step, if_pos within]) rest
  | cons next more => exact .cons (by rw [StringState.step, if_pos within]) rest

theorem copies_last (n : Nat) : Copies (.ranges 0x80 0xBF []) [UInt8.ofNat (n % 64 + 128)] := by
  refine copies_ranges ?_ .nil
  simp
  omega

theorem copies_lastTwo (n : Nat) :
    Copies (.ranges 0x80 0xBF [(0x80, 0xBF)])
      [UInt8.ofNat (n / 64 % 64 + 128), UInt8.ofNat (n % 64 + 128)] := by
  refine copies_ranges ?_ (copies_last n)
  simp
  omega

theorem copies_three {n : Nat} (long : 0x800 ≤ n) (short : n ≤ 0xFFFF)
    (scalar : n < 0xD800 ∨ 0xDFFF < n) :
    Copies .plain [UInt8.ofNat (n / 4096 % 16 + 224), UInt8.ofNat (n / 64 % 64 + 128),
      UInt8.ofNat (n % 64 + 128)] := by
  -- behind 0xE0 the second byte tells a longer code, behind 0xED a surrogate
  by_cases lowest : n / 4096 % 16 = 0
  · rw [lowest]
    refine .cons rfl (copies_ranges ?_ (copies_last n))
    simp
    omega
  · by_cases surrogates : n / 4096 % 16 = 13
    · rw [surrogates]
      refine .cons rfl (copies_ranges ?_ (copies_last n))
      simp
      omega
    · refine .cons (plainStep_three ?_ ?_ ?_) (copies_lastTwo n) <;> simp <;> omega

theorem copies_four {n : Nat} (long : 0x10000 ≤ n) (short : n < 0x110000) :
    Copies .plain [UInt8.ofNat (n / 262144 % 8 + 240), UInt8.ofNat (n / 4096 % 64 + 128),
      UInt8.ofNat (n / 64 % 64 + 128), UInt8.ofNat (n % 64 + 128)] := by
  by_cases lowest : n / 262144 % 8 = 0
  · rw [lowest]
    refine .cons rfl (copies_ranges ?_ (copies_lastTwo n))
    simp
    omega
  · by_cases highest : n / 262144 % 8 = 4
    · rw [highest]
      refine .cons rfl (copies_ranges ?_ (copies_lastTwo n))
      simp
      omega
    · refine .cons (plainStep_four ?_ ?_) (copies_ranges ?_ (copies_lastTwo n)) <;> simp <;> omega

theorem copies_utf8 (c : Char) (visible : 0x20 ≤ c.toNat) (unquoted : c.toNat ≠ 0x22)
    (unescaped : c.toNat ≠ 0x5C) : Copies .plain (String.utf8EncodeChar c) := by
  have valid : c.toNat < 0xD800 ∨ 0xDFFF < c.toNat ∧ c.toNat < 0x110000 := c.valid
  have same : c.val.toNat = c.toNat := rfl
  unfold String.utf8EncodeChar
  simp only [same]
  split_ifs with one two three
  · refine .cons (plainStep_ascii ?_ ?_ ?_ ?_) .nil <;> simp <;> omega
  · refine .cons (plainStep_two ?_ ?_) (copies_last _) <;> simp <;> omega
  · apply copies_three <;> omega
  · apply copies_four <;> omega

theorem decodes_escaped {c : UInt8} {added : Bytes}
    (known : escapeStep c = .next .plain added) : Decodes .plain [0x5C, c] added .plain :=
  .skip rfl (.last known)

theorem decodes_hex {w : Bytes} {n : Nat} (hex : Hex w n) (high : Option Nat)
    {after : StringState} {added : Bytes} (read : codepointRead high n = .next after added) :
    Decodes (.codepoint high 4 0) w added after := by
  rcases hex with ⟨a, b, c, d, i, j, k, l, same, first, second, third, fourth, value⟩
  subst same
  have start : StringState.step a (.codepoint high 4 0) = .next (.codepoint high 3 i) [] := by
    simp [StringState.step, first]
  have next : StringState.step b (.codepoint high 3 i) =
      .next (.codepoint high 2 (i * 16 + j)) [] := by
    simp [StringState.step, second]
  have further : StringState.step c (.codepoint high 2 (i * 16 + j)) =
      .next (.codepoint high 1 ((i * 16 + j) * 16 + k)) [] := by
    simp [StringState.step, third]
  have last : StringState.step d (.codepoint high 1 ((i * 16 + j) * 16 + k)) =
      .next after added := by
    simp [StringState.step, fourth, ← value, read]
  exact .skip start (.skip next (.skip further (.last last)))

theorem decodes_codepoint {w : Bytes} {n : Nat} (hex : Hex w n)
    (single : n < 0xD800 ∨ 0xDFFF < n) :
    Decodes .plain (0x5C :: 0x75 :: w) (encode n) .plain := by
  have read : codepointRead none n = .next .plain (encode n) := by
    unfold codepointRead
    rw [if_neg (by omega), if_neg (by omega)]
  exact .skip rfl (.skip rfl (decodes_hex hex none read))

theorem hexDigit_less {c : UInt8} {digit : Nat} (isDigit : hexDigit c = some digit) :
    digit < 16 := by
  unfold hexDigit at isDigit
  dsimp only at isDigit
  split_ifs at isDigit <;> cases isDigit <;> omega

theorem hex_less {w : Bytes} {n : Nat} (hex : Hex w n) : n < 0x10000 := by
  rcases hex with ⟨a, b, c, d, i, j, k, l, -, first, second, third, fourth, value⟩
  have i := hexDigit_less first
  have j := hexDigit_less second
  have k := hexDigit_less third
  have l := hexDigit_less fourth
  omega

theorem decodes_character {w : Bytes} (character : Character w) :
    ∃ added, Decodes .plain w added .plain ∧ Utf8 added := by
  cases character with
  | plain c visible unquoted unescaped =>
      exact ⟨_, (copies_utf8 c visible unquoted unescaped).decodes, utf8_char c⟩
  | escaped c known =>
      have single (n : Nat) (ascii : n < 0x80) (escapes : escapeStep c = .next .plain (encode n)) :
          ∃ added, Decodes .plain [0x5C, c] added .plain ∧ Utf8 added :=
        ⟨_, decodes_escaped escapes, utf8_encode (.inl (by omega))⟩
      simp only [List.mem_cons, List.not_mem_nil, or_false] at known
      rcases known with same | same | same | same | same | same | same | same <;> subst same
      · exact single 0x22 (by decide) rfl
      · exact single 0x5C (by decide) rfl
      · exact single 0x2F (by decide) rfl
      · exact single 0x08 (by decide) rfl
      · exact single 0x0C (by decide) rfl
      · exact single 0x0A (by decide) rfl
      · exact single 0x0D (by decide) rfl
      · exact single 0x09 (by decide) rfl
  | @codepoint w n hex single =>
      have less := hex_less hex
      have valid : n.isValidChar := by
        unfold Nat.isValidChar
        omega
      exact ⟨_, decodes_codepoint hex single, utf8_encode valid⟩
  | @pair w v high low first isHigh second isLow =>
      have opening : codepointRead none high = .next (.pairBackslash high) [] := if_pos isHigh
      have closing := decodes_hex second (some high) (if_pos isLow)
      have valid : ((high <<< 10) + low - 0x35FDC00).isValidChar := by
        rw [Nat.shiftLeft_eq]
        unfold Nat.isValidChar
        omega
      have decodes : Decodes .plain (0x5C :: 0x75 :: (w ++ 0x5C :: 0x75 :: v))
          ([] ++ encode ((high <<< 10) + low - 0x35FDC00)) .plain :=
        .skip rfl (.skip rfl ((decodes_hex first none opening).append
          (.skip rfl (.skip rfl closing))))
      rw [List.nil_append] at decodes
      exact ⟨_, decodes, utf8_encode valid⟩

theorem decodes_characters {w : Bytes} (characters : Characters w) :
    ∃ added, Decodes .plain w added .plain ∧ Utf8 added := by
  induction characters with
  | nil => exact ⟨[], .nil _, utf8_nil⟩
  | cons first more ih =>
      rcases decodes_character first with ⟨added, here, valid⟩
      rcases ih with ⟨further, behind, also⟩
      exact ⟨added ++ further, here.append behind, utf8_append valid also⟩

theorem scan_string {text added : Bytes} (decodes : Decodes .plain text added .plain)
    (rest : Bytes) :
    scan strtod (0x22 :: (text ++ [0x22]) ++ rest) = (.valueString added, rest) := by
  have run := decodes [] (0x22 :: rest)
  rw [List.cons_append, List.append_assoc]
  exact run.trans rfl

theorem scan_quoted {w : Bytes} (quoted : Quoted w) :
    ∃ bytes, Utf8 bytes ∧ ∀ rest, scan strtod (w ++ rest) = (.valueString bytes, rest) := by
  rcases quoted with ⟨text, same, characters⟩
  rcases decodes_characters characters with ⟨added, decodes, valid⟩
  refine ⟨added, valid, fun rest => ?_⟩
  rw [same]
  exact scan_string decodes rest

end Strings

section Numbers

def Completes (strtod : Bytes → BitVec 64) (state : NumberState) (type : NumberType) (w : Bytes)
    (last : NumberType) : Prop :=
  ∀ buffer rest, Ends rest →
    scanNumber strtod state type buffer (w ++ rest) = (numberToken strtod last (buffer ++ w), rest)

theorem Completes.cons {state after : NumberState} {type last : NumberType} {c : UInt8} {w : Bytes}
    (step : state.next c = some after)
    (more : Completes strtod after (after.numberType type) w last) :
    Completes strtod state type (c :: w) last := by
  intro buffer rest ends
  have run := more (buffer ++ [c]) rest ends
  rw [List.append_assoc] at run
  rw [List.cons_append, scanNumber, step]
  exact run

theorem Completes.digits {state : NumberState} {type last : NumberType} {ds w : Bytes}
    (digits : Digits ds) (loops : ∀ c, isDigit c → state.next c = some state)
    (kept : state.numberType type = type) (more : Completes strtod state type w last) :
    Completes strtod state type (ds ++ w) last := by
  induction ds with
  | nil => exact more
  | cons d ds ih =>
      have first := loops d (digits d List.mem_cons_self)
      have behind := ih fun c inside => digits c (List.mem_cons_of_mem d inside)
      rw [← kept] at behind
      exact .cons first behind

theorem completes_end {state : NumberState} (complete : state.complete) (type : NumberType) :
    Completes strtod state type [] type := by
  intro buffer rest ends
  rw [List.append_nil]
  cases rest with
  | nil => exact congrArg (·, []) (if_pos complete)
  | cons c rest =>
      rcases ends c rfl with ⟨noDigit, noPoint, noExponent⟩
      have stops : state.next c = none := by
        cases state with
        | zero | any1 | decimal2 | any2 => simp [NumberState.next, noDigit, noPoint, noExponent]
        | _ => cases complete
      rw [List.nil_append, scanNumber, stops]
      exact if_pos complete

def behindWhole (w : Bytes) (type : NumberType) : NumberType := if w = [] then type else .float

theorem signless {c : UInt8} (digit : isDigit c) : c ∉ [0x2B, 0x2D] := by
  intro sign
  simp only [List.mem_cons, List.not_mem_nil, or_false] at sign
  rcases sign with same | same <;> subst same <;> cases digit

theorem next_exponent {state : NumberState} {e : UInt8}
    (inside : state = .zero ∨ state = .any1 ∨ state = .decimal2) (letter : isExponent e) :
    state.next e = some .exponent := by
  simp only [isExponent, List.mem_cons, List.not_mem_nil, or_false, decide_eq_true_eq] at letter
  rcases letter with small | capital
  · rcases inside with label | label | label <;> subst small label <;> rfl
  · rcases inside with label | label | label <;> subst capital label <;> rfl

theorem completes_exponent {state : NumberState} {w : Bytes}
    (inside : state = .zero ∨ state = .any1 ∨ state = .decimal2) (exponent : Exponent w)
    (type : NumberType) : Completes strtod state type w (behindWhole w type) := by
  rcases exponent with empty | ⟨e, sign, first, more, same, letter, isSign, digit, digits⟩
  · rw [empty]
    apply completes_end
    rcases inside with label | label | label <;> subst label <;> rfl
  · have loops : ∀ c, isDigit c → NumberState.any2.next c = some .any2 :=
      fun _ digit => if_pos digit
    have tail : Completes strtod .any2 .float more .float := by
      have last : Completes strtod .any2 .float [] .float := completes_end rfl .float
      have whole := Completes.digits digits loops rfl last
      rwa [List.append_nil] at whole
    have float : behindWhole w type = .float := if_neg (same ▸ List.cons_ne_nil _ _)
    rw [float, same]
    apply Completes.cons (next_exponent inside letter)
    simp only [List.mem_cons, List.not_mem_nil, or_false] at isSign
    rcases isSign with none | plus | minus
    · rw [none]
      apply Completes.cons _ tail
      rw [NumberState.next, if_neg (signless digit), if_pos digit]
    · rw [plus]
      exact .cons rfl (.cons (if_pos digit) tail)
    · rw [minus]
      exact .cons rfl (.cons (if_pos digit) tail)

theorem completes_fraction {state : NumberState} {w v : Bytes}
    (inside : state = .zero ∨ state = .any1) (fraction : Fraction w) (exponent : Exponent v)
    (type : NumberType) :
    Completes strtod state type (w ++ v) (behindWhole (w ++ v) type) := by
  rcases fraction with empty | ⟨first, more, same, digit, digits⟩
  · rw [empty]
    apply completes_exponent _ exponent
    rcases inside with label | label
    · exact .inl label
    · exact .inr (.inl label)
  · have begins : state.next 0x2E = some .decimal1 := by
      rcases inside with label | label <;> subst label <;> rfl
    have loops : ∀ c, isDigit c → NumberState.decimal2.next c = some .decimal2 :=
      fun _ digit => if_pos digit
    have stays : behindWhole v .float = .float := ite_self _
    have tail : Completes strtod .decimal2 .float (more ++ v) .float := by
      have last : Completes strtod .decimal2 .float v (behindWhole v .float) :=
        completes_exponent (.inr (.inr rfl)) exponent .float
      rw [stays] at last
      exact .digits digits loops rfl last
    have float : behindWhole (w ++ v) type = .float :=
      if_neg (by rw [same]; exact List.cons_ne_nil _ _)
    rw [float, same]
    exact .cons begins (.cons (if_pos digit) tail)

theorem any1_loops (c : UInt8) (digit : isDigit c) : NumberState.any1.next c = some .any1 :=
  if_pos digit

theorem scan_first {c : UInt8} (digit : isDigit c) (positive : c ≠ 0x30) (rest : Bytes) :
    scan strtod (c :: rest) = scanNumber strtod .any1 .unsigned [c] rest := by
  have known : c ∈ [0x31, 0x32, 0x33, 0x34, 0x35, 0x36, 0x37, 0x38, 0x39] := by
    simp only [isDigit, Bool.and_eq_true, decide_eq_true_eq, UInt8.le_iff_toNat_le] at digit
    simp [← UInt8.toNat_inj] at digit positive ⊢
    omega
  simp only [List.mem_cons, List.not_mem_nil, or_false] at known
  rcases known with same | same | same | same | same | same | same | same | same <;>
    subst same <;> rfl

variable (strtod) in
theorem scan_whole {sign whole : Bytes} (isSign : sign ∈ [[], [0x2D]]) (isWhole : Whole whole)
    (tail : Bytes) (last : NumberType → NumberType)
    (completes : ∀ state type, state = .zero ∨ state = .any1 →
      Completes strtod state type tail (last type)) {rest : Bytes} (ends : Ends rest) :
    scan strtod (sign ++ (whole ++ tail) ++ rest) =
      (numberToken strtod (last (if sign = [] then .unsigned else .integer))
        (sign ++ (whole ++ tail)), rest) := by
  have afterDigit : ∀ type, ∀ ds, Digits ds →
      Completes strtod .any1 type (ds ++ tail) (last type) :=
    fun type ds digits => .digits digits any1_loops rfl (completes .any1 type (.inr rfl))
  simp only [List.mem_cons, List.not_mem_nil, or_false] at isSign
  rcases isSign with none | minus
  · subst none
    rcases isWhole with zero | ⟨first, more, split, digit, positive, digits⟩
    · subst zero
      exact completes .zero .unsigned (.inl rfl) [0x30] rest ends
    · subst split
      exact (scan_first digit positive _).trans
        (afterDigit .unsigned more digits [first] rest ends)
  · subst minus
    rcases isWhole with zero | ⟨first, more, split, digit, positive, digits⟩
    · subst zero
      have begins : NumberState.minus.next 0x30 = some .zero := rfl
      exact Completes.cons begins (completes .zero .integer (.inl rfl)) [0x2D] rest ends
    · subst split
      have begins : NumberState.minus.next first = some .any1 := by
        rw [NumberState.next, if_neg positive, if_pos digit]
      exact Completes.cons begins (afterDigit .integer more digits) [0x2D] rest ends

theorem scan_number {w : Bytes} (number : Number w) :
    ∃ type buffer, ∀ rest, Ends rest →
      scan strtod (w ++ rest) = (numberToken strtod type buffer, rest) := by
  rcases number with ⟨sign, whole, fraction, exponent, same, isSign, isWhole, isFraction,
    isExponent⟩
  subst same
  exact ⟨_, _, fun rest ends => scan_whole strtod isSign isWhole _ _
    (fun state type inside => completes_fraction inside isFraction isExponent type) ends⟩

end Numbers

section Reading

theorem scan_blank {blank : Bytes} (isBlank : Blank blank) (rest : Bytes) :
    scan strtod (blank ++ rest) = scan strtod rest := by
  rw [scan, skipWhitespace_append isBlank, scan]

def Proper (token : Token) : Prop := token ≠ .endOfInput ∧ token ≠ .parseError

theorem lex_of_scan {input rest : Bytes} {token : Token} (read : scan strtod input = (token, rest))
    (proper : Proper token) : lex strtod input = token :: lex strtod rest := by
  rw [lex, read, if_neg]
  rintro (ended | failed)
  · exact proper.1 ended
  · exact proper.2 failed

structure Marks (strtod : Bytes → BitVec 64) (mark : UInt8) (token : Token) : Prop where
  proper : Proper token
  scanned : ∀ rest, scan strtod (mark :: rest) = (token, rest)
  ends : ∀ rest, Ends (mark :: rest)

theorem marks_structural {mark : UInt8} {token : Token}
    (known : (mark, token) ∈ [(0x5B, .beginArray), (0x5D, .endArray), (0x7B, .beginObject),
      (0x7D, .endObject), (0x3A, .nameSeparator), (0x2C, .valueSeparator)]) :
    Marks strtod mark token := by
  have ended : ∀ c, isDigit c = false ∧ c ≠ 0x2E ∧ isExponent c = false →
      ∀ rest, Ends (c :: rest) := by
    intro c stops rest d head
    cases head
    exact stops
  simp only [List.mem_cons, List.not_mem_nil, or_false, Prod.mk.injEq] at known
  rcases known with ⟨same, label⟩ | ⟨same, label⟩ | ⟨same, label⟩ | ⟨same, label⟩ |
      ⟨same, label⟩ | ⟨same, label⟩ <;> subst same label <;>
    exact ⟨⟨Token.noConfusion, Token.noConfusion⟩, fun _ => rfl, ended _ ⟨rfl, by decide, rfl⟩⟩

theorem reads_spaced {lexeme : Bytes → Prop} {required : Bytes → Prop}
    {word : List Token → Prop}
    (scans : ∀ v, lexeme v → ∃ token, Proper token ∧ word [token] ∧
      ∀ rest, required rest → scan strtod (v ++ rest) = (token, rest))
    {w : Bytes} (spaced : Spaced lexeme w) : Nested.Reads (lex strtod) required word w := by
  rcases spaced with ⟨blank, v, same, isBlank, isLexeme⟩
  rcases scans v isLexeme with ⟨token, proper, isWord, scanned⟩
  refine ⟨[token], isWord, ?_⟩
  intro rest asRequired
  rw [same, List.append_assoc]
  exact lex_of_scan ((scan_blank isBlank _).trans (scanned rest asRequired)) proper

theorem reads_mark {mark : UInt8} {token : Token} (marks : Marks strtod mark token) {w : Bytes}
    (spaced : Spaced (· = [mark]) w) :
    Nested.Reads (lex strtod) Nested.anywhere (· = [token]) w := by
  refine reads_spaced ?_ spaced
  intro v same
  refine ⟨token, marks.proper, rfl, fun rest _ => ?_⟩
  rw [same, List.singleton_append, marks.scanned]

theorem proper_scalar {token : Token} {value : Json} (scalar : token.scalar = some value) :
    Proper token := by
  constructor
  · intro same
    cases same ▸ scalar
  · intro same
    cases same ▸ scalar

theorem reads_quoted {w : Bytes} (spaced : Spaced Quoted w) :
    Nested.Reads (lex strtod) Nested.anywhere (fun u => ∃ bytes, u = [.valueString bytes]) w := by
  refine reads_spaced ?_ spaced
  intro v quoted
  rcases scan_quoted quoted with ⟨bytes, -, scanned⟩
  exact ⟨.valueString bytes, proper_scalar rfl, ⟨bytes, rfl⟩, fun rest _ => scanned rest⟩

theorem numberToken_scalar (type : NumberType) (buffer : Bytes) :
    ∃ value, (numberToken strtod type buffer).scalar = some value := by
  cases type with
  | float => exact ⟨_, rfl⟩
  | _ =>
      dsimp only [numberToken]
      split
      · exact ⟨_, rfl⟩
      · exact ⟨_, rfl⟩

theorem scan_scalar {w : Bytes} (scalar : Scalar w) :
    ∃ token value, token.scalar = some value ∧
      ∀ rest, Ends rest → scan strtod (w ++ rest) = (token, rest) := by
  rcases scalar with same | same | same | number | quoted
  · exact ⟨.literalTrue, _, rfl, fun rest _ => same ▸ rfl⟩
  · exact ⟨.literalFalse, _, rfl, fun rest _ => same ▸ rfl⟩
  · exact ⟨.literalNull, _, rfl, fun rest _ => same ▸ rfl⟩
  · rcases scan_number number with ⟨type, buffer, scanned⟩
    rcases numberToken_scalar type buffer with ⟨value, single⟩
    exact ⟨_, value, single, scanned⟩
  · rcases scan_quoted quoted with ⟨bytes, -, scanned⟩
    exact ⟨_, _, rfl, fun rest _ => scanned rest⟩

theorem ends_whitespace {c : UInt8} (white : isWhitespace c) (rest : Bytes) :
    Ends (c :: rest) := by
  intro d head
  cases head
  simp only [isWhitespace, List.mem_cons, List.not_mem_nil, or_false, decide_eq_true_eq] at white
  rcases white with letter | letter | letter | letter <;> subst letter <;>
    exact ⟨rfl, by decide, rfl⟩

theorem ends_append {blank rest : Bytes} (isBlank : Blank blank) (ends : Ends rest) :
    Ends (blank ++ rest) := by
  cases blank with
  | nil => exact ends
  | cons c blank => exact ends_whitespace (isBlank c List.mem_cons_self) _

theorem ends_mark {mark : UInt8} {token : Token} (marks : Marks strtod mark token) {w : Bytes}
    (spaced : Spaced (· = [mark]) w) (rest : Bytes) : Ends (w ++ rest) := by
  rcases spaced with ⟨blank, v, same, isBlank, isMark⟩
  rw [same, isMark, List.append_assoc]
  exact ends_append isBlank (marks.ends rest)

theorem reading : Nested.Reading Grammar.lexemes Parser.lexemes (lex strtod) Ends where
  scalar w spaced := by
    refine reads_spaced ?_ spaced
    intro v scalar
    rcases scan_scalar scalar with ⟨token, value, single, scanned⟩
    exact ⟨token, proper_scalar single, ⟨token, value, rfl, single⟩, scanned⟩
  key w spelled := by
    rcases spelled with ⟨name, colon, same, quoted, separates⟩
    have mark : Nested.Reads (lex strtod) Nested.anywhere (· = [Token.nameSeparator]) colon :=
      reads_mark (marks_structural (by simp)) separates
    rw [same]
    refine (reads_quoted quoted).append mark (fun _ => trivial) ?_
    intro u x isName isMark
    rcases isName with ⟨bytes, isName⟩
    exact ⟨bytes, by rw [isName, isMark]; rfl⟩
  beginArray w := reads_mark (marks_structural (by simp))
  endArray w := reads_mark (marks_structural (by simp))
  beginObject w := reads_mark (marks_structural (by simp))
  endObject w := reads_mark (marks_structural (by simp))
  comma w := reads_mark (marks_structural (by simp))
  ended w rest mark := by
    have array : Marks strtod 0x5D .endArray := marks_structural (by simp)
    have object : Marks strtod 0x7D .endObject := marks_structural (by simp)
    have comma : Marks strtod 0x2C .valueSeparator := marks_structural (by simp)
    rcases mark with spaced | spaced | spaced
    · exact ends_mark array spaced rest
    · exact ends_mark object spaced rest
    · exact ends_mark comma spaced rest

theorem lex_blank {blank : Bytes} (isBlank : Blank blank) :
    lex strtod blank = [.endOfInput] := by
  have read : scan strtod blank = (.endOfInput, []) := by
    have read : scan strtod (blank ++ []) = scan strtod [] := scan_blank isBlank []
    rwa [List.append_nil] at read
  rw [lex, read]
  rfl

theorem lex_mark (rest : Bytes) : lex strtod (0xEF :: rest) = [.parseError] := by
  have read : scan strtod (0xEF :: rest) = (.parseError, rest) := rfl
  rw [lex, read]
  rfl

theorem skipBom_unmarked {input : Bytes} (unmarked : ∀ rest, input ≠ 0xEF :: rest) :
    skipBom input = some input := by
  unfold skipBom
  split
  · exact absurd rfl (unmarked _)
  · exact absurd rfl (unmarked _)
  · rfl

theorem tokens_of_lex {s : Bytes} {word : List Token}
    (lexed : lex strtod s = word ++ [.endOfInput]) : tokens strtod s = word ++ [.endOfInput] := by
  have unmarked : ∀ rest, s ≠ 0xEF :: rest := by
    intro rest begins
    rw [begins, lex_mark] at lexed
    have last := congrArg List.getLast? lexed
    rw [List.getLast?_concat] at last
    cases last
  rw [tokens, skipBom_unmarked unmarked]
  exact lexed

/-- A text of JSON is a word of the grammar with the end of the input behind it. -/
theorem tokens_wellFormed (strtod : Bytes → BitVec 64) {s : Bytes} (formed : WellFormed s) :
    ∃ word, Nested.Derives Parser.lexemes .value word ∧
      tokens strtod s = word ++ [.endOfInput] := by
  rcases formed with ⟨mark, text, blank, same, isMark, derived, isBlank⟩
  have ends : Ends blank := by
    rw [← List.append_nil blank]
    exact ends_append isBlank fun c head => by cases head
  have reads : Nested.Reads (lex strtod) Ends (Nested.Derives Parser.lexemes .value) text :=
    derived.reads reading
  rcases reads with ⟨word, isWord, read⟩
  have lexed : lex strtod (text ++ blank) = word ++ [.endOfInput] := by
    rw [read blank ends, lex_blank isBlank]
  refine ⟨word, isWord, ?_⟩
  rw [same]
  simp only [List.mem_cons, List.not_mem_nil, or_false] at isMark
  rcases isMark with none | marked
  · rw [none]
    exact tokens_of_lex lexed
  · rw [marked]
    exact lexed

end Reading

end Lexer

end CommonUtils.JSON
