import CommonUtils.DataBase.Tokenizer
import CommonUtils.Library.Quoted

namespace CommonUtils.DataBase

theorem ascii_forall {p : Char → Prop} (every : ∀ n < 128, p (Char.ofNat n)) {c : Char}
    (ascii : c.toNat < 128) : p c := by
  have here := every c.toNat ascii
  rwa [Char.ofNat_toNat] at here

theorem ascii_of_aiClass {c : Char} (notId : aiClass c ≠ .id) (notBom : aiClass c ≠ .bom) :
    c.toNat < 128 := by
  by_contra high
  unfold aiClass at notId notBom
  rw [if_neg high] at notId notBom
  split at notId
  · exact notBom (if_pos ‹_›)
  · exact notId rfl

theorem isDigit_of_aiClass {c : Char} (digit : aiClass c = .digit) : isDigit c = true :=
  ascii_forall (p := fun c => aiClass c = .digit → isDigit c = true) (by decide +kernel)
    (ascii_of_aiClass (by rw [digit]; decide) (by rw [digit]; decide)) digit

theorem eq_of_aiClass_dot {c : Char} (dot : aiClass c = .dot) : c = '.' :=
  ascii_forall (p := fun c => aiClass c = .dot → c = '.') (by decide +kernel)
    (ascii_of_aiClass (by rw [dot]; decide) (by rw [dot]; decide)) dot

theorem le_run (p : Char → Bool) (z : Text) (i : Nat) : i ≤ run p z i := Nat.le_add_right i _

theorem lt_run {p : Char → Bool} (stops : p nul = false) {z : Text} {i : Nat}
    (here : p (charAt z i) = true) : i < run p z i := by
  have inside : i < z.length := by
    by_contra outside
    rw [charAt, List.getD_eq_getElem?_getD, List.getElem?_eq_none (Nat.le_of_not_lt outside),
      Option.getD_none, stops] at here
    cases here
  have first : p z[i] = true := by
    rw [charAt, List.getD_eq_getElem?_getD, List.getElem?_eq_getElem inside] at here
    exact here
  rw [run, List.drop_eq_getElem_cons inside, List.takeWhile_cons_of_pos first, List.length_cons]
  omega

theorem le_commentEnd (c : Char) (z : Text) (i : Nat) : i ≤ commentEnd c z i := by
  induction z generalizing c i with
  | nil => exact Nat.le_refl i
  | cons d rest ih =>
      rw [commentEnd]
      split
      · omega
      · exact Nat.le_of_succ_le (ih d (i + 1))

theorem le_quoteEnd (delim : Char) (z : Text) (i : Nat) : i ≤ (quoteEnd delim z i).2 := by
  fun_induction quoteEnd delim z i <;> omega

theorem le_bracketEnd (z : Text) (i : Nat) : i ≤ (bracketEnd z i).2 := by
  induction z generalizing i with
  | nil => exact Nat.le_refl i
  | cons c rest ih =>
      rw [bracketEnd]
      split
      · exact Nat.le_succ i
      · exact Nat.le_of_succ_le (ih (i + 1))

theorem le_variableEnd (z : Text) (i n : Nat) : i ≤ (variableEnd z i n).2 := by
  fun_induction variableEnd z i n <;> omega

theorem mantissa_pos {z : Text} (first : isDigit (charAt z 0) = true ∨ charAt z 0 = '.') :
    0 < (mantissa z).2 := by
  unfold mantissa
  dsimp only
  split
  · exact Nat.lt_of_lt_of_le (Nat.succ_pos _) (le_run isDigit z _)
  · rename_i noPoint
    rcases first with digit | point
    · exact lt_run (by decide) digit
    · by_contra none
      have zero : run isDigit z 0 = 0 := Nat.eq_zero_of_not_pos none
      exact noPoint (by rw [zero]; exact point)

theorem numeral_pos {z : Text} (first : isDigit (charAt z 0) = true ∨ charAt z 0 = '.') :
    0 < (numeral z).2 := by
  unfold numeral
  dsimp only
  split
  · exact Nat.lt_of_lt_of_le (Nat.succ_pos _) (le_run isDigit z _)
  · exact mantissa_pos first

theorem number_pos {z : Text} (first : isDigit (charAt z 0) = true ∨ charAt z 0 = '.') :
    0 < (number z).2 := by
  unfold number
  dsimp only
  split
  · exact Nat.lt_of_lt_of_le (Nat.succ_pos _) (le_run isXdigit z 3)
  · split
    · exact Nat.lt_of_lt_of_le (numeral_pos first) (le_run idChar z _)
    · exact numeral_pos first

theorem quoted_pos (delim : Char) (z : Text) : 0 < (quoted delim z).2 := by
  have far := le_quoteEnd delim z 1
  unfold quoted
  dsimp only
  split
  · exact Nat.succ_pos _
  · split
    · exact Nat.succ_pos _
    · exact far

theorem blob_pos (z : Text) : 0 < (blob z).2 := by
  have far := le_run isXdigit z 2
  unfold blob
  dsimp only
  split
  · have farther := le_run (· ≠ quote) z (run isXdigit z 2)
    split
    · exact Nat.succ_pos _
    · dsimp only
      omega
  · exact Nat.succ_pos _

theorem getToken_pos {z : Text} (legal : (getToken z).1 ≠ .illegal) : 0 < (getToken z).2 := by
  fun_cases getToken z
  case case3 | case13 => dsimp only; split <;> exact Nat.succ_pos _
  case case11 => exact Nat.lt_of_lt_of_le (Nat.succ_pos _) (le_commentEnd _ _ 3)
  case case28 => exact quoted_pos _ z.tail
  case case29 dot _ => exact number_pos (.inr (eq_of_aiClass_dot dot))
  case case31 digit => exact number_pos (.inl (isDigit_of_aiClass digit))
  case case32 => exact le_bracketEnd z.tail 1
  case case34 | case35 => exact le_variableEnd z.tail 1 0
  case case39 => exact blob_pos z
  case case45 ended => exact absurd (by rw [getToken, ended]) legal
  all_goals
    first
    | exact Nat.succ_pos _
    | exact Nat.lt_of_lt_of_le (Nat.succ_pos _) (le_run _ z _)

theorem scan_eq {n m : Nat} {z : Text} (fits : z.length ≤ n) (also : z.length ≤ m) :
    scan n z = scan m z := by
  induction n generalizing m z with
  | zero =>
      have empty : z = [] := List.eq_nil_of_length_eq_zero (Nat.le_zero.mp fits)
      cases m with
      | zero => rfl
      | succ m => rw [scan, scan, if_pos empty]
  | succ n ih =>
      cases m with
      | zero =>
          have empty : z = [] := List.eq_nil_of_length_eq_zero (Nat.le_zero.mp also)
          rw [scan, scan, if_pos empty]
      | succ m =>
          rw [scan, scan]
          dsimp only
          split
          · rfl
          · rename_i left
            have some : 0 < z.length := List.length_pos_iff.mpr left
            have rest : (getToken z).1 ≠ .illegal →
                scan n (z.drop (getToken z).2) = scan m (z.drop (getToken z).2) := by
              intro legal
              have positive := getToken_pos legal
              apply ih <;> rw [List.length_drop] <;> omega
            split
            · rename_i space
              exact rest (by rw [space]; decide)
            · split
              · rfl
              · rw [rest ‹_›]

theorem tokens_eq {z : Text} (left : z ≠ []) :
    tokens z = if (getToken z).1 = .space then tokens (z.drop (getToken z).2)
      else if (getToken z).1 = .illegal then [.ofText .illegal (z.take (getToken z).2)]
      else .ofText (getToken z).1 (z.take (getToken z).2) :: tokens (z.drop (getToken z).2) := by
  have whole : tokens z = scan (z.length + 1) z := scan_eq (Nat.le_refl _) (Nat.le_succ _)
  have rest : tokens (z.drop (getToken z).2) = scan z.length (z.drop (getToken z).2) :=
    scan_eq (Nat.le_refl _) (by rw [List.length_drop]; omega)
  rw [whole, rest, scan, if_neg left]

theorem ne_nil_of_legal {z : Text} (legal : (getToken z).1 ≠ .illegal) : z ≠ [] := by
  intro empty
  rw [empty] at legal
  exact legal (by decide)

theorem tokens_of_space {z : Text} {n : Nat} (space : getToken z = (.space, n)) :
    tokens z = tokens (z.drop n) := by
  rw [tokens_eq (ne_nil_of_legal (by rw [space]; simp)), space, if_pos rfl]

theorem tokens_of_token {z : Text} {tokenType : TokenType} {n : Nat}
    (token : getToken z = (tokenType, n)) (visible : tokenType ≠ .space)
    (legal : tokenType ≠ .illegal) :
    tokens z = .ofText tokenType (z.take n) :: tokens (z.drop n) := by
  rw [tokens_eq (ne_nil_of_legal (by rw [token]; exact legal)), token, if_neg visible,
    if_neg legal]

theorem tokens_of_illegal {z : Text} {n : Nat} (left : z ≠ [])
    (illegal : getToken z = (.illegal, n)) : tokens z = [⟨.illegal, z.take n⟩] := by
  rw [tokens_eq left, illegal, if_neg (by simp), if_pos rfl]
  rfl

end CommonUtils.DataBase
