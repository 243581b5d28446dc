import CommonUtils.JSON.Reading
import Mathlib.Data.Char

namespace CommonUtils.JSON

namespace Lexer

open Grammar

variable {strtod : Bytes → BitVec 64}

section Strings

inductive Finishes : StringState → Bytes → Prop where
  | plain : Finishes .plain []
  | step {state after : StringState} {current : UInt8} {added v : Bytes}
      (taken : state.step current = .next after added) (inside : state ≠ .plain)
      (more : Finishes after v) : Finishes state (current :: v)

theorem eq_plain_of_closed {state : StringState} {current : UInt8}
    (closed : state.step current = .closed) : state = .plain ∧ current = 0x22 := by
  cases state with
  | plain =>
      refine ⟨rfl, ?_⟩
      by_contra other
      simp only [StringState.step, plainStep, if_neg other] at closed
      repeat' split at closed
      all_goals cases closed
  | escape =>
      simp only [StringState.step, escapeStep] at closed
      split_ifs at closed
  | codepoint high digits value =>
      simp only [StringState.step] at closed
      split at closed
      · cases closed
      · split at closed
        · unfold codepointRead at closed
          split at closed <;> split_ifs at closed
        · cases closed
  | pairBackslash high =>
      simp only [StringState.step] at closed
      split_ifs at closed
  | pairU high =>
      simp only [StringState.step] at closed
      split_ifs at closed
  | ranges low high more =>
      simp only [StringState.step] at closed
      split at closed
      · split at closed <;> cases closed
      · cases closed

namespace Finishes

variable {state : StringState} {v : Bytes}

theorem eq_nil (finishes : Finishes .plain v) : v = [] := by
  cases finishes with
  | plain => rfl
  | step _ inside _ => exact absurd rfl inside

theorem uncons (finishes : Finishes state v) (inside : state ≠ .plain) :
    ∃ current rest after added, v = current :: rest ∧
      state.step current = .next after added ∧ Finishes after rest := by
  cases finishes with
  | plain => exact absurd rfl inside
  | step taken _ more => exact ⟨_, _, _, _, rfl, taken, more⟩

theorem digit {high : Option Nat} {digits value : Nat}
    (finishes : Finishes (.codepoint high (digits + 2) value) v) :
    ∃ current rest digit, v = current :: rest ∧ hexDigit current = some digit ∧
      Finishes (.codepoint high (digits + 1) (value * 16 + digit)) rest := by
  rcases finishes.uncons (by simp) with ⟨current, rest, after, added, same, taken, more⟩
  simp only [StringState.step] at taken
  split at taken
  · cases taken
  · rename_i digit isDigit
    rw [if_neg (by omega)] at taken
    cases taken
    exact ⟨current, rest, digit, same, isDigit, more⟩

theorem lastDigit {high : Option Nat} {value : Nat}
    (finishes : Finishes (.codepoint high 1 value) v) :
    ∃ current rest digit after added, v = current :: rest ∧ hexDigit current = some digit ∧
      codepointRead high (value * 16 + digit) = .next after added ∧ Finishes after rest := by
  rcases finishes.uncons (by simp) with ⟨current, rest, after, added, same, taken, more⟩
  simp only [StringState.step] at taken
  split at taken
  · cases taken
  · rename_i digit isDigit
    rw [if_pos (Nat.le_refl 1)] at taken
    exact ⟨current, rest, digit, after, added, same, isDigit, taken, more⟩

theorem hex {high : Option Nat} (finishes : Finishes (.codepoint high 4 0) v) :
    ∃ w rest n after added, v = w ++ rest ∧ Hex w n ∧ codepointRead high n = .next after added ∧
      Finishes after rest := by
  rcases finishes.digit with ⟨a, behindA, i, sameA, first, finishes⟩
  rcases finishes.digit with ⟨b, behindB, j, sameB, second, finishes⟩
  rcases finishes.digit with ⟨c, behindC, k, sameC, third, finishes⟩
  rcases finishes.lastDigit with ⟨d, rest, l, after, added, sameD, fourth, read, more⟩
  refine ⟨[a, b, c, d], rest, _, after, added, ?_,
    ⟨a, b, c, d, i, j, k, l, rfl, first, second, third, fourth, rfl⟩, ?_, more⟩
  · rw [sameA, sameB, sameC, sameD]
    rfl
  · rwa [Nat.zero_mul, Nat.zero_add] at read

theorem letter (finishes : Finishes state v) (letter : UInt8) (after : StringState)
    (inside : state ≠ .plain)
    (only : ∀ current, state.step current =
      if current = letter then .next after [] else .error) :
    ∃ rest, v = letter :: rest ∧ Finishes after rest := by
  rcases finishes.uncons inside with ⟨current, rest, next, added, same, taken, more⟩
  rw [only] at taken
  split at taken
  · rename_i found
    cases taken
    exact ⟨rest, by rw [same, found], more⟩
  · cases taken

theorem range {low high : UInt8} {more : List (UInt8 × UInt8)}
    (finishes : Finishes (.ranges low high more) v) :
    ∃ c rest, v = c :: rest ∧ (low.toNat ≤ c.toNat ∧ c.toNat ≤ high.toNat) ∧
      Finishes (match more with
        | [] => .plain
        | (low, high) :: more => .ranges low high more) rest := by
  rcases finishes.uncons (by simp) with ⟨c, rest, after, added, same, taken, behind⟩
  simp only [StringState.step] at taken
  split at taken
  · rename_i within
    refine ⟨c, rest, same, within, ?_⟩
    cases more with
    | nil =>
        cases taken
        exact behind
    | cons next more =>
        cases taken
        exact behind
  · cases taken

theorem twoBytes {low high : UInt8}
    (finishes : Finishes (.ranges low high [(0x80, 0xBF)]) v) :
    ∃ b c, v = [b, c] ∧ (low.toNat ≤ b.toNat ∧ b.toNat ≤ high.toNat) ∧
      0x80 ≤ c.toNat ∧ c.toNat ≤ 0xBF := by
  rcases finishes.range with ⟨b, behindB, sameB, second, more⟩
  rcases more.range with ⟨c, behindC, sameC, third, more⟩
  rw [sameB, sameC, more.eq_nil]
  exact ⟨b, c, rfl, second, third⟩

theorem threeBytes {low high : UInt8}
    (finishes : Finishes (.ranges low high [(0x80, 0xBF), (0x80, 0xBF)]) v) :
    ∃ b c d, v = [b, c, d] ∧ (low.toNat ≤ b.toNat ∧ b.toNat ≤ high.toNat) ∧
      (0x80 ≤ c.toNat ∧ c.toNat ≤ 0xBF) ∧ 0x80 ≤ d.toNat ∧ d.toNat ≤ 0xBF := by
  rcases finishes.range with ⟨b, behindB, sameB, second, more⟩
  rcases more.twoBytes with ⟨c, d, same, third, fourth⟩
  rw [sameB, same]
  exact ⟨b, c, d, rfl, second, third, fourth⟩

end Finishes

theorem character_ascii {a : UInt8} (visible : 0x20 ≤ a.toNat) (ascii : a.toNat ≤ 0x7F)
    (unquoted : a.toNat ≠ 0x22) (unescaped : a.toNat ≠ 0x5C) : Character [a] := by
  rcases exists_char (n := a.toNat) (.inl (by omega)) with ⟨c, value⟩
  have encoded : String.utf8EncodeChar c = [a] := by
    unfold String.utf8EncodeChar
    simp only [value]
    rw [if_pos ascii, UInt8.ofNat_toNat]
  rw [← encoded]
  exact .plain c (by rwa [← value] at visible) (by rwa [← value] at unquoted)
    (by rwa [← value] at unescaped)

theorem byte_eq {a : UInt8} {n : Nat} (same : n = a.toNat) : UInt8.ofNat n = a := by
  rw [same, UInt8.ofNat_toNat]

theorem character_long {c : Char} {w : Bytes} (encoded : String.utf8EncodeChar c = w)
    (long : 0x80 ≤ c.val.toNat) : Character w := by
  have same : c.toNat = c.val.toNat := rfl
  rw [← encoded]
  exact .plain c (by omega) (by omega) (by omega)

theorem character_two {a b : UInt8} (first : 0xC2 ≤ a.toNat ∧ a.toNat ≤ 0xDF)
    (second : 0x80 ≤ b.toNat ∧ b.toNat ≤ 0xBF) : Character [a, b] := by
  rcases exists_char (n := (a.toNat - 0xC0) * 64 + (b.toNat - 0x80)) (.inl (by omega)) with
    ⟨c, value⟩
  refine character_long (c := c) ?_ (by omega)
  unfold String.utf8EncodeChar
  simp only [value]
  rw [if_neg (by omega), if_pos (by omega), byte_eq (a := a) (by omega),
    byte_eq (a := b) (by omega)]

theorem character_three {a b c : UInt8} (first : 0xE0 ≤ a.toNat ∧ a.toNat ≤ 0xEF)
    (second : 0x80 ≤ b.toNat ∧ b.toNat ≤ 0xBF) (third : 0x80 ≤ c.toNat ∧ c.toNat ≤ 0xBF)
    (shortest : a.toNat = 0xE0 → 0xA0 ≤ b.toNat) (scalar : a.toNat = 0xED → b.toNat ≤ 0x9F) :
    Character [a, b, c] := by
  have valid :
      ((a.toNat - 0xE0) * 4096 + (b.toNat - 0x80) * 64 + (c.toNat - 0x80)).isValidChar := by
    unfold Nat.isValidChar
    omega
  rcases exists_char valid with ⟨char, value⟩
  refine character_long (c := char) ?_ (by omega)
  unfold String.utf8EncodeChar
  simp only [value]
  rw [if_neg (by omega), if_neg (by omega), if_pos (by omega), byte_eq (a := a) (by omega),
    byte_eq (a := b) (by omega), byte_eq (a := c) (by omega)]

theorem character_four {a b c d : UInt8} (first : 0xF0 ≤ a.toNat ∧ a.toNat ≤ 0xF4)
    (second : 0x80 ≤ b.toNat ∧ b.toNat ≤ 0xBF) (third : 0x80 ≤ c.toNat ∧ c.toNat ≤ 0xBF)
    (fourth : 0x80 ≤ d.toNat ∧ d.toNat ≤ 0xBF) (shortest : a.toNat = 0xF0 → 0x90 ≤ b.toNat)
    (last : a.toNat = 0xF4 → b.toNat ≤ 0x8F) : Character [a, b, c, d] := by
  have valid : ((a.toNat - 0xF0) * 262144 + (b.toNat - 0x80) * 4096 + (c.toNat - 0x80) * 64 +
      (d.toNat - 0x80)).isValidChar := by
    unfold Nat.isValidChar
    omega
  rcases exists_char valid with ⟨char, value⟩
  refine character_long (c := char) ?_ (by omega)
  unfold String.utf8EncodeChar
  simp only [value]
  rw [if_neg (by omega), if_neg (by omega), if_neg (by omega), byte_eq (a := a) (by omega),
    byte_eq (a := b) (by omega), byte_eq (a := c) (by omega), byte_eq (a := d) (by omega)]

theorem character_codepoint {v : Bytes} (finishes : Finishes (.codepoint none 4 0) v) :
    Character (0x5C :: 0x75 :: v) := by
  rcases finishes.hex with ⟨w, rest, n, after, added, same, isHex, read, more⟩
  unfold codepointRead at read
  simp only at read
  split_ifs at read with isHigh isLow
  · cases read
    rcases more.letter 0x5C (.pairU n) (by simp) (fun _ => rfl) with
      ⟨behind, backslash, more⟩
    rcases more.letter 0x75 (.codepoint (some n) 4 0) (by simp) (fun _ => rfl) with
      ⟨digits, u, more⟩
    rcases more.hex with ⟨x, last, m, after, added, split, second, read, more⟩
    unfold codepointRead at read
    simp only at read
    split_ifs at read with isLow
    cases read
    rw [same, backslash, u, split, more.eq_nil, List.append_nil]
    exact .pair isHex isHigh second isLow
  · cases read
    rw [same, more.eq_nil, List.append_nil]
    exact .codepoint isHex (by omega)

theorem character_escape {c : UInt8} {after : StringState} {added v : Bytes}
    (taken : escapeStep c = .next after added) (more : Finishes after v) :
    Character (0x5C :: c :: v) := by
  have single : after = .plain → c ∈ [0x22, 0x5C, 0x2F, 0x62, 0x66, 0x6E, 0x72, 0x74] →
      Character (0x5C :: c :: v) := by
    rintro rfl known
    rw [more.eq_nil]
    exact .escaped c known
  unfold escapeStep at taken
  split at taken
  · rename_i mark
    cases taken
    exact single rfl (List.mem_append_left [0x62, 0x66, 0x6E, 0x72, 0x74] mark)
  · split_ifs at taken with b f n r t u
    · cases taken
      exact single rfl (by rw [b]; decide)
    · cases taken
      exact single rfl (by rw [f]; decide)
    · cases taken
      exact single rfl (by rw [n]; decide)
    · cases taken
      exact single rfl (by rw [r]; decide)
    · cases taken
      exact single rfl (by rw [t]; decide)
    · cases taken
      rw [u]
      exact character_codepoint more

theorem character_of_step {c : UInt8} {after : StringState} {added v : Bytes}
    (taken : plainStep c = .next after added) (more : Finishes after v) : Character (c :: v) := by
  unfold plainStep at taken
  simp only at taken
  by_cases quote : c = 0x22
  · rw [if_pos quote] at taken
    cases taken
  rw [if_neg quote] at taken
  have unquoted : c.toNat ≠ 0x22 := fun same => quote (UInt8.toNat_inj.mp same)
  by_cases escape : c = 0x5C
  · rw [if_pos escape] at taken
    cases taken
    rcases more.uncons (by simp) with ⟨current, rest, after, added, same, taken, more⟩
    rw [same, escape]
    exact character_escape taken more
  rw [if_neg escape] at taken
  have unescaped : c.toNat ≠ 0x5C := fun same => escape (UInt8.toNat_inj.mp same)
  by_cases control : c < 0x20
  · rw [if_pos control] at taken
    cases taken
  rw [if_neg control] at taken
  have visible : 0x20 ≤ c.toNat := Nat.le_of_not_lt control
  by_cases ascii : c ≤ 0x7F
  · rw [if_pos ascii] at taken
    cases taken
    rw [more.eq_nil]
    exact character_ascii visible ascii unquoted unescaped
  rw [if_neg ascii] at taken
  by_cases two : 0xC2 ≤ c ∧ c ≤ 0xDF
  · rw [if_pos two] at taken
    cases taken
    rcases more.range with ⟨b, rest, same, second, more⟩
    rw [same, more.eq_nil]
    exact character_two two second
  rw [if_neg two] at taken
  by_cases e0 : c = 0xE0
  · rw [if_pos e0] at taken
    cases taken
    have first : c.toNat = 0xE0 := congrArg UInt8.toNat e0
    rcases more.twoBytes with ⟨b, d, same, second, third⟩
    have second : 0xA0 ≤ b.toNat ∧ b.toNat ≤ 0xBF := second
    rw [same]
    apply character_three <;> omega
  rw [if_neg e0] at taken
  have notE0 : c.toNat ≠ 0xE0 := fun same => e0 (UInt8.toNat_inj.mp same)
  by_cases ed : c = 0xED
  · rw [if_pos ed] at taken
    cases taken
    have first : c.toNat = 0xED := congrArg UInt8.toNat ed
    rcases more.twoBytes with ⟨b, d, same, second, third⟩
    have second : 0x80 ≤ b.toNat ∧ b.toNat ≤ 0x9F := second
    rw [same]
    apply character_three <;> omega
  rw [if_neg ed] at taken
  have notEd : c.toNat ≠ 0xED := fun same => ed (UInt8.toNat_inj.mp same)
  by_cases three : 0xE1 ≤ c ∧ c ≤ 0xEF
  · rw [if_pos three] at taken
    cases taken
    have first : 0xE1 ≤ c.toNat ∧ c.toNat ≤ 0xEF := three
    rcases more.twoBytes with ⟨b, d, same, second, third⟩
    have second : 0x80 ≤ b.toNat ∧ b.toNat ≤ 0xBF := second
    rw [same]
    apply character_three <;> omega
  rw [if_neg three] at taken
  by_cases f0 : c = 0xF0
  · rw [if_pos f0] at taken
    cases taken
    have first : c.toNat = 0xF0 := congrArg UInt8.toNat f0
    rcases more.threeBytes with ⟨b, d, e, same, second, third, fourth⟩
    have second : 0x90 ≤ b.toNat ∧ b.toNat ≤ 0xBF := second
    rw [same]
    apply character_four <;> omega
  rw [if_neg f0] at taken
  have notF0 : c.toNat ≠ 0xF0 := fun same => f0 (UInt8.toNat_inj.mp same)
  by_cases four : 0xF1 ≤ c ∧ c ≤ 0xF3
  · rw [if_pos four] at taken
    cases taken
    have first : 0xF1 ≤ c.toNat ∧ c.toNat ≤ 0xF3 := four
    rcases more.threeBytes with ⟨b, d, e, same, second, third, fourth⟩
    have second : 0x80 ≤ b.toNat ∧ b.toNat ≤ 0xBF := second
    rw [same]
    apply character_four <;> omega
  rw [if_neg four] at taken
  by_cases f4 : c = 0xF4
  · rw [if_pos f4] at taken
    cases taken
    have first : c.toNat = 0xF4 := congrArg UInt8.toNat f4
    rcases more.threeBytes with ⟨b, d, e, same, second, third, fourth⟩
    have second : 0x80 ≤ b.toNat ∧ b.toNat ≤ 0x8F := second
    rw [same]
    apply character_four <;> omega
  rw [if_neg f4] at taken
  cases taken

theorem scanString_spelled {state : StringState} {tokenBuffer input rest : Bytes} {token : Token}
    (scanned : scanString state tokenBuffer input = (token, rest)) (proper : token ≠ .parseError) :
    (∃ bytes, token = .valueString bytes) ∧
      ∃ v text, input = v ++ (text ++ 0x22 :: rest) ∧ Finishes state v ∧ Characters text := by
  induction input generalizing state tokenBuffer with
  | nil =>
      cases scanned
      exact absurd rfl proper
  | cons current input ih =>
      rw [scanString] at scanned
      cases taken : state.step current with
      | closed =>
          rw [taken] at scanned
          cases scanned
          rcases eq_plain_of_closed taken with ⟨between, quote⟩
          subst between quote
          exact ⟨⟨_, rfl⟩, [], [], rfl, .plain, .nil⟩
      | error =>
          rw [taken] at scanned
          cases scanned
          exact absurd rfl proper
      | next after added =>
          rw [taken] at scanned
          rcases ih scanned with ⟨isString, v, text, same, finishes, characters⟩
          refine ⟨isString, ?_⟩
          by_cases between : state = .plain
          · subst between
            refine ⟨[], (current :: v) ++ text, ?_, .plain,
              .cons (character_of_step taken finishes) characters⟩
            rw [same]
            simp
          · refine ⟨current :: v, text, ?_, .step taken between finishes, characters⟩
            rw [same]
            rfl

theorem scanString_quoted {input rest : Bytes} {token : Token}
    (scanned : scanString .plain [] input = (token, rest)) (proper : token ≠ .parseError) :
    (∃ bytes, token = .valueString bytes) ∧ ∃ v, 0x22 :: input = v ++ rest ∧ Quoted v := by
  rcases scanString_spelled scanned proper with ⟨isString, v, text, same, finishes, characters⟩
  rw [finishes.eq_nil, List.nil_append] at same
  exact ⟨isString, 0x22 :: (text ++ [0x22]), by simp [same], text, rfl, characters⟩

end Strings

section Numbers

inductive Ending : NumberState → Bytes → Prop where
  | done {state : NumberState} (complete : state.complete) : Ending state []
  | step {state after : NumberState} {current : UInt8} {v : Bytes}
      (taken : state.next current = some after) (more : Ending after v) :
      Ending state (current :: v)

namespace Ending

variable {v : Bytes}

theorem any2 (ending : Ending .any2 v) : Digits v := by
  generalize found : NumberState.any2 = state at ending
  induction ending with
  | done _ => exact fun c inside => by cases inside
  | step taken more ih =>
      subst found
      simp only [NumberState.next] at taken
      split at taken
      · cases taken
        rename_i digit
        exact List.forall_mem_cons.mpr ⟨digit, ih rfl⟩
      · cases taken

theorem uncons {state : NumberState} (ending : Ending state v)
    (incomplete : state.complete = false) :
    ∃ current rest after, v = current :: rest ∧ state.next current = some after ∧
      Ending after rest := by
  cases ending with
  | done complete => rw [incomplete] at complete; cases complete
  | step taken more => exact ⟨_, _, _, rfl, taken, more⟩

theorem sign (ending : Ending .sign v) :
    ∃ first more, v = first :: more ∧ isDigit first ∧ Digits more := by
  rcases ending.uncons rfl with ⟨first, more, after, same, taken, behind⟩
  simp only [NumberState.next] at taken
  split at taken
  · cases taken
    rename_i digit
    exact ⟨first, more, same, digit, behind.any2⟩
  · cases taken

theorem exponent (ending : Ending .exponent v) :
    ∃ sign first more, v = sign ++ first :: more ∧ sign ∈ [[], [0x2B], [0x2D]] ∧ isDigit first ∧
      Digits more := by
  rcases ending.uncons rfl with ⟨current, rest, after, same, taken, behind⟩
  simp only [NumberState.next] at taken
  split at taken
  · cases taken
    rename_i signed
    rcases behind.sign with ⟨first, more, split, digit, digits⟩
    refine ⟨[current], first, more, by rw [same, split]; rfl, ?_, digit, digits⟩
    simpa using signed
  · split at taken
    · cases taken
      rename_i digit
      exact ⟨[], current, rest, same, by simp, digit, behind.any2⟩
    · cases taken

theorem isExponent {e : UInt8} (letter : Lexer.isExponent e) (ending : Ending .exponent v) :
    Exponent (e :: v) := by
  rcases ending.exponent with ⟨sign, first, more, same, isSign, digit, digits⟩
  exact .inr ⟨e, sign, first, more, by rw [same], letter, isSign, digit, digits⟩

theorem decimal2 (ending : Ending .decimal2 v) :
    ∃ digits exponent, v = digits ++ exponent ∧ Digits digits ∧ Exponent exponent := by
  generalize found : NumberState.decimal2 = state at ending
  induction ending with
  | done _ => exact ⟨[], [], rfl, fun c inside => (by cases inside), .inl rfl⟩
  | @step state after current v taken more ih =>
      subst found
      simp only [NumberState.next] at taken
      split at taken
      · cases taken
        rename_i digit
        rcases ih rfl with ⟨digits, exponent, same, isDigits, isExponent⟩
        refine ⟨current :: digits, exponent, by rw [same]; rfl, ?_, isExponent⟩
        exact List.forall_mem_cons.mpr ⟨digit, isDigits⟩
      · split at taken
        · cases taken
          rename_i letter
          exact ⟨[], current :: v, rfl, fun c inside => (by cases inside), more.isExponent letter⟩
        · cases taken

theorem decimal1 (ending : Ending .decimal1 v) :
    ∃ fraction exponent, 0x2E :: v = fraction ++ exponent ∧ Fraction fraction ∧
      Exponent exponent := by
  rcases ending.uncons rfl with ⟨first, rest, after, same, taken, behind⟩
  simp only [NumberState.next] at taken
  split at taken
  · cases taken
    rename_i digit
    rcases behind.decimal2 with ⟨digits, exponent, split, isDigits, isExponent⟩
    refine ⟨0x2E :: first :: digits, exponent, by rw [same, split]; rfl, ?_, isExponent⟩
    exact .inr ⟨first, digits, rfl, digit, isDigits⟩
  · cases taken

theorem zero (ending : Ending .zero v) :
    ∃ fraction exponent, v = fraction ++ exponent ∧ Fraction fraction ∧ Exponent exponent := by
  cases ending with
  | done _ => exact ⟨[], [], rfl, .inl rfl, .inl rfl⟩
  | @step state after current v taken more =>
      simp only [NumberState.next] at taken
      split at taken
      · cases taken
        rename_i point
        rw [point]
        exact more.decimal1
      · split at taken
        · cases taken
          rename_i letter
          exact ⟨[], current :: v, rfl, .inl rfl, more.isExponent letter⟩
        · cases taken

theorem any1 (ending : Ending .any1 v) :
    ∃ digits fraction exponent, v = digits ++ (fraction ++ exponent) ∧ Digits digits ∧
      Fraction fraction ∧ Exponent exponent := by
  generalize found : NumberState.any1 = state at ending
  induction ending with
  | done _ => exact ⟨[], [], [], rfl, fun c inside => (by cases inside), .inl rfl, .inl rfl⟩
  | @step state after current v taken more ih =>
      subst found
      simp only [NumberState.next] at taken
      split at taken
      · cases taken
        rename_i digit
        rcases ih rfl with ⟨digits, fraction, exponent, same, isDigits, isFraction, isExponent⟩
        refine ⟨current :: digits, fraction, exponent, by rw [same]; rfl, ?_, isFraction,
          isExponent⟩
        exact List.forall_mem_cons.mpr ⟨digit, isDigits⟩
      · -- no digit: the rest is what may follow a zero
        have rest : Ending .zero (current :: v) := by
          refine .step ?_ more
          simp only [NumberState.next]
          split at taken <;> simp_all
        rcases rest.zero with ⟨fraction, exponent, same, isFraction, isExponent⟩
        exact ⟨[], fraction, exponent, same, fun c inside => (by cases inside), isFraction,
          isExponent⟩

theorem minus (ending : Ending .minus v) :
    ∃ whole fraction exponent, v = whole ++ (fraction ++ exponent) ∧ Whole whole ∧
      Fraction fraction ∧ Exponent exponent := by
  rcases ending.uncons rfl with ⟨current, rest, after, same, taken, behind⟩
  simp only [NumberState.next] at taken
  split at taken
  · cases taken
    rename_i zero
    rcases behind.zero with ⟨fraction, exponent, split, isFraction, isExponent⟩
    exact ⟨[0x30], fraction, exponent, by rw [same, split, zero]; rfl, .inl rfl, isFraction,
      isExponent⟩
  · rename_i nonzero
    split at taken
    · cases taken
      rename_i digit
      rcases behind.any1 with ⟨digits, fraction, exponent, split, isDigits, isFraction,
        isExponent⟩
      exact ⟨current :: digits, fraction, exponent, by rw [same, split]; rfl,
        .inr ⟨current, digits, rfl, digit, nonzero, isDigits⟩, isFraction, isExponent⟩
    · cases taken

theorem number (sign : Bytes) (isSign : sign ∈ [[], [0x2D]]) (ending : Ending .minus v) :
    Number (sign ++ v) := by
  rcases ending.minus with ⟨whole, fraction, exponent, same, isWhole, isFraction, isExponent⟩
  exact ⟨sign, whole, fraction, exponent, by rw [same], isSign, isWhole, isFraction, isExponent⟩

end Ending

theorem scanNumber_ending {state : NumberState} {type : NumberType}
    {tokenBuffer input rest : Bytes} {token : Token}
    (scanned : scanNumber strtod state type tokenBuffer input = (token, rest))
    (proper : token ≠ .parseError) :
    (∃ type buffer, token = numberToken strtod type buffer) ∧
      ∃ v, input = v ++ rest ∧ Ending state v := by
  induction input generalizing state type tokenBuffer with
  | nil =>
      rw [scanNumber] at scanned
      cases complete : state.complete with
      | true =>
          rw [complete, if_pos rfl] at scanned
          cases scanned
          exact ⟨⟨_, _, rfl⟩, [], rfl, .done complete⟩
      | false =>
          rw [complete, if_neg Bool.false_ne_true] at scanned
          cases scanned
          exact absurd rfl proper
  | cons current input ih =>
      rw [scanNumber] at scanned
      cases taken : state.next current with
      | some after =>
          rw [taken] at scanned
          rcases ih scanned with ⟨isNumber, v, same, ending⟩
          exact ⟨isNumber, current :: v, by rw [same]; rfl, .step taken ending⟩
      | none =>
          rw [taken] at scanned
          simp only at scanned
          split at scanned
          · rename_i complete
            cases scanned
            exact ⟨⟨_, _, rfl⟩, [], rfl, .done complete⟩
          · cases scanned
            exact absurd rfl proper

end Numbers

section Scan

theorem skipWhitespace_blank (input : Bytes) :
    ∃ blank, input = blank ++ skipWhitespace input ∧ Blank blank := by
  induction input with
  | nil => exact ⟨[], rfl, fun c inside => by cases inside⟩
  | cons current input ih =>
      rw [skipWhitespace]
      split
      · rename_i white
        rcases ih with ⟨blank, same, isBlank⟩
        exact ⟨current :: blank, by rw [List.cons_append, ← same],
          List.forall_mem_cons.mpr ⟨white, isBlank⟩⟩
      · exact ⟨[], rfl, fun c inside => by cases inside⟩

theorem scanLiteral_spelled {token read : Token} {literal input rest : Bytes}
    (scanned : scanLiteral token literal input = (read, rest)) (proper : read ≠ .parseError) :
    read = token ∧ input = literal ++ rest := by
  induction literal generalizing input with
  | nil =>
      cases scanned
      exact ⟨rfl, rfl⟩
  | cons letter literal ih =>
      cases input with
      | nil =>
          cases scanned
          exact absurd rfl proper
      | cons current input =>
          rw [scanLiteral] at scanned
          split at scanned
          · rename_i same
            rcases ih scanned with ⟨isToken, split⟩
            exact ⟨isToken, by rw [same, split]; rfl⟩
          · cases scanned
            exact absurd rfl proper

def Spelled : Token → Bytes → Prop
  | .beginArray => (· = [0x5B])
  | .endArray => (· = [0x5D])
  | .beginObject => (· = [0x7B])
  | .endObject => (· = [0x7D])
  | .nameSeparator => (· = [0x3A])
  | .valueSeparator => (· = [0x2C])
  | .valueString _ => Quoted
  | .parseError | .endOfInput => fun _ => False
  | _ => Scalar

theorem spelled_number (type : NumberType) (buffer : Bytes) {w : Bytes} (number : Number w) :
    Spelled (numberToken strtod type buffer) w := by
  have scalar : Scalar w := .inr (.inr (.inr (.inl number)))
  cases type with
  | float => exact scalar
  | unsigned | integer =>
      unfold numberToken
      dsimp only
      split <;> exact scalar

theorem scanNumber_spelled {state : NumberState} {type : NumberType} {current : UInt8}
    {input rest : Bytes} {token : Token}
    (scanned : scanNumber strtod state type [current] input = (token, rest))
    (proper : token ≠ .parseError) (first : ∀ v, Ending state v → Number (current :: v)) :
    ∃ v, current :: input = v ++ rest ∧ Spelled token v := by
  rcases scanNumber_ending scanned proper with ⟨⟨type, buffer, isNumber⟩, v, same, ending⟩
  rw [isNumber]
  exact ⟨current :: v, by rw [same]; rfl, spelled_number type buffer (first v ending)⟩

theorem scan_found {input more rest : Bytes} {current : UInt8} {token : Token}
    (found : skipWhitespace input = current :: more) (read : scan strtod input = (token, rest))
    (proper : Proper token) : ∃ v, current :: more = v ++ rest ∧ Spelled token v := by
  have mark : ∀ {byte : UInt8} {named : Token}, current = byte →
      (named, more) = (token, rest) → Spelled named [byte] →
      ∃ v, current :: more = v ++ rest ∧ Spelled token v := by
    intro byte named same read spelled
    cases read
    exact ⟨[byte], by rw [same]; rfl, spelled⟩
  have literal : ∀ {byte : UInt8} {named : Token} {letters : Bytes}, current = byte →
      scanLiteral named letters more = (token, rest) → Spelled named (byte :: letters) →
      ∃ v, current :: more = v ++ rest ∧ Spelled token v := by
    intro byte named letters same read spelled
    rcases scanLiteral_spelled read proper.2 with ⟨isToken, split⟩
    rw [isToken]
    exact ⟨byte :: letters, by rw [same, split]; rfl, spelled⟩
  unfold scan at read
  rw [found] at read
  dsimp only at read
  by_cases beginArray : current = 0x5B
  · rw [if_pos beginArray] at read
    exact mark beginArray read rfl
  rw [if_neg beginArray] at read
  by_cases endArray : current = 0x5D
  · rw [if_pos endArray] at read
    exact mark endArray read rfl
  rw [if_neg endArray] at read
  by_cases beginObject : current = 0x7B
  · rw [if_pos beginObject] at read
    exact mark beginObject read rfl
  rw [if_neg beginObject] at read
  by_cases endObject : current = 0x7D
  · rw [if_pos endObject] at read
    exact mark endObject read rfl
  rw [if_neg endObject] at read
  by_cases colon : current = 0x3A
  · rw [if_pos colon] at read
    exact mark colon read rfl
  rw [if_neg colon] at read
  by_cases comma : current = 0x2C
  · rw [if_pos comma] at read
    exact mark comma read rfl
  rw [if_neg comma] at read
  by_cases true_ : current = 0x74
  · rw [if_pos true_] at read
    exact literal true_ read (.inl rfl)
  rw [if_neg true_] at read
  by_cases false_ : current = 0x66
  · rw [if_pos false_] at read
    exact literal false_ read (.inr (.inl rfl))
  rw [if_neg false_] at read
  by_cases null : current = 0x6E
  · rw [if_pos null] at read
    exact literal null read (.inr (.inr (.inl rfl)))
  rw [if_neg null] at read
  by_cases quote : current = 0x22
  · rw [if_pos quote] at read
    rcases scanString_quoted read proper.2 with ⟨⟨bytes, isString⟩, v, same, quoted⟩
    rw [isString, quote]
    exact ⟨v, same, quoted⟩
  rw [if_neg quote] at read
  by_cases minus : current = 0x2D
  · rw [if_pos minus] at read
    refine scanNumber_spelled read proper.2 fun v ending => ?_
    rw [minus]
    exact Ending.number [0x2D] (by simp) ending
  rw [if_neg minus] at read
  by_cases zero : current = 0x30
  · rw [if_pos zero] at read
    refine scanNumber_spelled read proper.2 fun v ending => ?_
    exact Ending.number [] (by simp) (.step (by rw [zero]; rfl) ending)
  rw [if_neg zero] at read
  by_cases digit : isDigit current
  · rw [if_pos digit] at read
    refine scanNumber_spelled read proper.2 fun v ending => ?_
    refine Ending.number [] (by simp) (.step ?_ ending)
    simp only [NumberState.next, if_neg zero, if_pos digit]
  rw [if_neg digit] at read
  split at read
  · cases read
    exact absurd rfl proper.1
  · cases read
    exact absurd rfl proper.2

/-- The token that is read stands at the front of the input, behind whitespace alone. -/
theorem scan_spelled {input rest : Bytes} {token : Token}
    (read : scan strtod input = (token, rest)) (proper : Proper token) :
    ∃ v, input = v ++ rest ∧ Spaced (Spelled token) v := by
  rcases skipWhitespace_blank input with ⟨blank, same, isBlank⟩
  cases found : skipWhitespace input with
  | nil =>
      rw [scan, found] at read
      cases read
      exact absurd rfl proper.1
  | cons current more =>
      rcases scan_found found read proper with ⟨v, split, spelled⟩
      refine ⟨blank ++ v, ?_, blank, v, rfl, isBlank, spelled⟩
      rw [List.append_assoc, ← split, ← found, ← same]

theorem scan_of_lex {input : Bytes} {token : Token} {rest : List Token}
    (lexed : lex strtod input = token :: rest) (proper : Proper token) :
    ∃ behind, scan strtod input = (token, behind) ∧ lex strtod behind = rest := by
  rw [lex] at lexed
  split at lexed
  · rename_i last
    cases lexed
    exact absurd last (not_or.mpr proper)
  · rcases List.cons.inj lexed with ⟨first, more⟩
    exact ⟨(scan strtod input).2, Prod.ext first rfl, more⟩

theorem spells_token {token : Token} (proper : Proper token) :
    Nested.Spells (lex strtod) (Spaced (Spelled token)) [token] := by
  intro input rest lexed
  rcases scan_of_lex lexed proper with ⟨behind, read, more⟩
  rcases scan_spelled read proper with ⟨v, same, spaced⟩
  exact ⟨v, behind, same, spaced, more⟩

theorem scan_utf8 {input bytes rest : Bytes}
    (read : scan strtod input = (.valueString bytes, rest)) : Utf8 bytes := by
  rcases scan_spelled read ⟨by simp, by simp⟩ with ⟨v, same, blank, w, split, isBlank, quoted⟩
  rcases scan_quoted quoted with ⟨copied, utf8, scanned⟩
  have again : scan strtod input = (.valueString copied, rest) := by
    rw [same, split, List.append_assoc, scan_blank isBlank, scanned]
  rw [read] at again
  cases again
  exact utf8

theorem lex_utf8 (input : Bytes) : ∀ token ∈ lex strtod input, token.Utf8 := by
  fun_induction lex strtod input with
  | case1 input last =>
      intro token inside
      rw [List.mem_singleton.mp inside]
      rcases last with ended | failed
      · rw [ended]
        trivial
      · rw [failed]
        trivial
  | case2 input more ih =>
      intro token inside
      rcases List.mem_cons.mp inside with first | behind
      · cases token with
        | valueString bytes => exact scan_utf8 (Prod.ext first.symm rfl)
        | _ => trivial
      · exact ih token behind

theorem tokens_utf8 (strtod : Bytes → BitVec 64) (input : Bytes) :
    ∀ token ∈ tokens strtod input, token.Utf8 := by
  unfold tokens
  split
  · intro token inside
    rw [List.mem_singleton.mp inside]
    trivial
  · exact lex_utf8 _

theorem spaced_mono {lexeme wider : Bytes → Prop} {w : Bytes} (spaced : Spaced lexeme w)
    (within : ∀ v, lexeme v → wider v) : Spaced wider w := by
  rcases spaced with ⟨blank, v, same, isBlank, isLexeme⟩
  exact ⟨blank, v, same, isBlank, within v isLexeme⟩

theorem spelled_scalar {token : Token} {value : Json} (scalar : token.scalar = some value)
    {w : Bytes} (spelled : Spelled token w) : Scalar w := by
  cases token with
  | valueString bytes => exact .inr (.inr (.inr (.inr spelled)))
  | literalTrue | literalFalse | literalNull => exact spelled
  | valueUnsigned | valueInteger | valueFloat => exact spelled
  | _ => cases scalar

/-- The lexer finds the lexemes of the grammar, and nothing else. -/
theorem spelling : Nested.Spelling Grammar.lexemes Parser.lexemes (lex strtod) where
  scalar u single := by
    rcases single with ⟨token, value, same, scalar⟩
    rw [same]
    exact (spells_token (proper_scalar scalar)).mono
      fun w spaced => spaced_mono spaced fun v => spelled_scalar scalar
  key u named := by
    rcases named with ⟨bytes, same⟩
    have name : Nested.Spells (lex strtod) (Spaced Quoted) [.valueString bytes] :=
      spells_token (proper_scalar rfl)
    have colon : Nested.Spells (lex strtod) (Spaced (· = [0x3A])) [.nameSeparator] :=
      spells_token ⟨Token.noConfusion, Token.noConfusion⟩
    rw [same]
    exact name.append colon fun w v isName isColon => ⟨w, v, rfl, isName, isColon⟩
  beginArray u same := by
    rw [show u = [Token.beginArray] from same]
    exact spells_token ⟨Token.noConfusion, Token.noConfusion⟩
  endArray u same := by
    rw [show u = [Token.endArray] from same]
    exact spells_token ⟨Token.noConfusion, Token.noConfusion⟩
  beginObject u same := by
    rw [show u = [Token.beginObject] from same]
    exact spells_token ⟨Token.noConfusion, Token.noConfusion⟩
  endObject u same := by
    rw [show u = [Token.endObject] from same]
    exact spells_token ⟨Token.noConfusion, Token.noConfusion⟩
  comma u same := by
    rw [show u = [Token.valueSeparator] from same]
    exact spells_token ⟨Token.noConfusion, Token.noConfusion⟩

end Scan

end Lexer

end CommonUtils.JSON
