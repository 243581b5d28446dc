import CommonUtils.DataBase.Scan

namespace CommonUtils.DataBase

theorem take_run {p : Char → Bool} {w rest : Text} (all : ∀ c ∈ w, p c = true)
    (stop : p (rest.headD nul) = false) : (w ++ rest).takeWhile p = w := by
  cases rest with
  | nil => rw [List.append_nil, List.takeWhile_eq_self_iff.mpr all]
  | cons c rest =>
      have ends : ¬ p c = true := by simpa using stop
      rw [List.takeWhile_append_of_pos all, List.takeWhile_cons_of_neg ends, List.append_nil]

theorem run_append {p : Char → Bool} {w rest : Text} {i : Nat} (inside : i ≤ w.length)
    (all : ∀ c ∈ w.drop i, p c = true) (stop : p (rest.headD nul) = false) :
    run p (w ++ rest) i = w.length := by
  rw [run, List.drop_append_of_le_length inside, take_run all stop, List.length_drop]
  omega

theorem run_le {p : Char → Bool} {w rest : Text} {i : Nat} (inside : i ≤ w.length)
    (stop : p (rest.headD nul) = false) : run p (w ++ rest) i ≤ w.length := by
  have stopped : rest.takeWhile p = [] := take_run (w := []) (by simp) stop
  have bounded : ((w.drop i ++ rest).takeWhile p).length ≤ (w.drop i).length := by
    rw [List.takeWhile_append, stopped, List.append_nil]
    split
    · exact Nat.le_refl _
    · exact (List.takeWhile_prefix p).length_le
  rw [run, List.drop_append_of_le_length inside]
  rw [List.length_drop] at bounded
  omega

theorem charAt_append_left {w : Text} {i : Nat} (inside : i < w.length) (rest : Text) :
    charAt (w ++ rest) i = w[i] := by
  rw [charAt, List.getD_eq_getElem?_getD, List.getElem?_append_left inside,
    List.getElem?_eq_getElem inside]
  rfl

theorem charAt_append_length (w rest : Text) : charAt (w ++ rest) w.length = rest.headD nul := by
  rw [charAt, List.getD_eq_getElem?_getD, List.getElem?_append_right (Nat.le_refl _), Nat.sub_self]
  cases rest <;> rfl

theorem tokens_mark {c : Char} {tokenType : TokenType} {rest : Text}
    (token : getToken (c :: rest) = (tokenType, 1)) (visible : tokenType ≠ .space)
    (legal : tokenType ≠ .illegal) (plain : tokenType ≠ .string) :
    tokens (c :: rest) = ⟨tokenType, [c]⟩ :: tokens rest := by
  rw [tokens_of_token token visible legal, Token.ofText, if_neg plain]
  rfl

theorem tokens_lp (rest : Text) : tokens ('(' :: rest) = ⟨.lp, ['(']⟩ :: tokens rest :=
  tokens_mark rfl (by decide) (by decide) (by decide)

theorem tokens_rp (rest : Text) : tokens (')' :: rest) = ⟨.rp, [')']⟩ :: tokens rest :=
  tokens_mark rfl (by decide) (by decide) (by decide)

theorem tokens_comma (rest : Text) : tokens (',' :: rest) = ⟨.comma, [',']⟩ :: tokens rest :=
  tokens_mark rfl (by decide) (by decide) (by decide)

theorem tokens_semi (rest : Text) : tokens (';' :: rest) = ⟨.semi, [';']⟩ :: tokens rest :=
  tokens_mark rfl (by decide) (by decide) (by decide)

theorem tokens_eq_quote (rest : Text) :
    tokens ('=' :: quote :: rest) = ⟨.eq, ['=']⟩ :: tokens (quote :: rest) :=
  tokens_mark rfl (by decide) (by decide) (by decide)

theorem tokens_blank {rest : Text} (dark : isSpace (rest.headD nul) = false) :
    tokens (' ' :: rest) = tokens rest := by
  have token : getToken (' ' :: rest) = (.space, 1) := by
    have one : run isSpace ([' '] ++ rest) 1 = 1 := run_append (Nat.le_refl 1) (by simp) dark
    exact congrArg (Prod.mk TokenType.space) one
  exact tokens_of_space token

def identStart (c : Char) : Bool := c.isAlpha || c = '_'

def identPart (c : Char) : Bool := c.isAlphanum || c = '_'

/-- A plain identifier: a letter or an underscore, and then letters, digits and underscores. -/
def Plain : Text → Prop
  | [] => False
  | c :: w => identStart c = true ∧ ∀ d ∈ w, identPart d = true

instance Plain.decidable : DecidablePred Plain
  | [] => inferInstanceAs (Decidable False)
  | c :: w => decidable_of_iff ((identStart c && w.all identPart) = true) (by
      rw [Bool.and_eq_true, List.all_eq_true]
      rfl)

theorem ascii_of_identPart {c : Char} (part : identPart c = true) : c.toNat < 128 := by
  have classes : identPart c = (((decide (65 ≤ c.val ∧ c.val ≤ 90) ||
      decide (97 ≤ c.val) && decide (c.val ≤ 122)) ||
      decide (48 ≤ c.val) && decide (c.val ≤ 57)) || decide (c = '_')) := rfl
  simp only [classes, Bool.or_eq_true, Bool.and_eq_true, decide_eq_true_eq,
    UInt32.le_iff_toNat_le] at part
  rcases part with ((upper | lower) | digit) | rfl
  · exact Nat.lt_of_le_of_lt upper.2 (by decide)
  · exact Nat.lt_of_le_of_lt lower.2 (by decide)
  · exact Nat.lt_of_le_of_lt digit.2 (by decide)
  · decide

theorem idChar_of_identPart {c : Char} (part : identPart c = true) : idChar c = true :=
  ascii_forall (p := fun c => identPart c = true → idChar c = true) (by decide +kernel)
    (ascii_of_identPart part) part

theorem identPart_of_identStart {c : Char} (start : identStart c = true) :
    identPart c = true := by
  rw [identStart, Bool.or_eq_true] at start
  rw [identPart, Char.isAlphanum, Bool.or_eq_true, Bool.or_eq_true]
  exact start.imp_left .inl

theorem aiClass_of_identStart {c : Char} (start : identStart c = true) :
    aiClass c = .x ∨ aiClass c = .kywd0 ∨ aiClass c = .kywd :=
  ascii_forall
    (p := fun c => identStart c = true → aiClass c = .x ∨ aiClass c = .kywd0 ∨ aiClass c = .kywd)
    (by decide +kernel) (ascii_of_identPart (identPart_of_identStart start)) start

theorem keywordChar_le_idChar {c : Char} (keyword : keywordChar c = true) : idChar c = true := by
  by_cases ascii : c.toNat < 128
  · exact ascii_forall (p := fun c => keywordChar c = true → idChar c = true) (by decide +kernel)
      ascii keyword
  · rw [keywordChar, aiClass, if_neg ascii] at keyword
    split at keyword <;> split at * <;> simp_all

namespace Plain

theorem parts {w : Text} (plain : Plain w) : ∀ c ∈ w, identPart c = true := by
  cases w with
  | nil => exact plain.elim
  | cons c w =>
      intro d member
      rcases List.mem_cons.mp member with rfl | tail
      · exact identPart_of_identStart plain.1
      · exact plain.2 d tail

theorem idChars {w : Text} (plain : Plain w) : ∀ c ∈ w, idChar c = true :=
  fun c member => idChar_of_identPart (plain.parts c member)

theorem pos {w : Text} (plain : Plain w) : 0 < w.length := by
  cases w with
  | nil => exact plain.elim
  | cons c w => exact Nat.succ_pos _

theorem head {w : Text} (plain : Plain w) : identStart (w.get ⟨0, plain.pos⟩) = true := by
  cases w with
  | nil => exact plain.elim
  | cons c w => exact plain.1

end Plain

section

variable {w rest : Text} (plain : Plain w) (stop : idChar (rest.headD nul) = false)

include plain stop

theorem word_append {i : Nat} (inside : i ≤ w.length) : word (w ++ rest) i = (.word, w.length) := by
  rw [word, run_append inside (fun c member => plain.idChars c (List.mem_of_mem_drop member)) stop]

/-- What may stand in a keyword is a part of what may stand in an identifier, so the word
ends where its identifier characters do. -/
theorem getToken_keyword (class_eq : aiClass (charAt (w ++ rest) 0) = .kywd0) :
    getToken (w ++ rest) = (.word, w.length) := by
  have notKeyword : keywordChar (rest.headD nul) = false := by
    by_contra keyword
    have id := keywordChar_le_idChar (eq_true_of_ne_false keyword)
    rw [stop] at id
    cases id
  rw [getToken, class_eq]
  dsimp only
  split
  · exact word_append plain stop plain.pos
  · rename_i keyword
    have second : 1 < w.length := by
      by_contra short
      have single : w.length = 1 := Nat.le_antisymm (Nat.le_of_not_lt short) plain.pos
      rw [← single, charAt_append_length, notKeyword] at keyword
      exact keyword rfl
    have bounded : run keywordChar (w ++ rest) 2 ≤ w.length := run_le second notKeyword
    split
    · rename_i id
      have inside : run keywordChar (w ++ rest) 2 < w.length := by
        by_contra outside
        have ended : run keywordChar (w ++ rest) 2 = w.length :=
          Nat.le_antisymm bounded (Nat.le_of_not_lt outside)
        rw [ended, charAt_append_length, stop] at id
        cases id
      exact word_append plain stop inside
    · rename_i id
      by_contra differ
      have inside : run keywordChar (w ++ rest) 2 < w.length :=
        Nat.lt_of_le_of_ne bounded fun ended => differ (by rw [ended])
      rw [charAt_append_left inside] at id
      exact id (plain.idChars _ (List.getElem_mem inside))

end

def Boundary (rest : Text) : Prop := idChar (rest.headD nul) = false ∧ rest.headD nul ≠ quote

theorem boundary_cons {c : Char} (ends : idChar c = false ∧ c ≠ quote) (rest : Text) :
    Boundary (c :: rest) := ends

theorem Boundary.closed {rest : Text} (boundary : Boundary rest) : rest.head? ≠ some quote := by
  intro first
  apply boundary.2
  rw [List.headD_eq_head?_getD, first, Option.getD_some]

theorem getToken_word {w rest : Text} (plain : Plain w) (boundary : Boundary rest) :
    getToken (w ++ rest) = (.word, w.length) := by
  have stop := boundary.1
  have first : charAt (w ++ rest) 0 = w.get ⟨0, plain.pos⟩ := charAt_append_left plain.pos rest
  rcases aiClass_of_identStart plain.head with x | keyword | other
  · have second : charAt (w ++ rest) 1 ≠ quote := by
      by_cases single : w.length = 1
      · rw [← single, charAt_append_length]
        exact boundary.2
      · have inside : 1 < w.length := Nat.lt_of_le_of_ne plain.pos (Ne.symm single)
        rw [charAt_append_left inside]
        intro closed
        have part := plain.parts _ (List.getElem_mem inside)
        rw [closed] at part
        exact absurd part (by decide)
    rw [getToken, first, x]
    dsimp only
    rw [if_neg second]
    exact word_append plain stop plain.pos
  · exact getToken_keyword plain stop (by rw [first, keyword])
  · rw [getToken, first, other]
    exact word_append plain stop plain.pos

theorem tokens_word {w rest : Text} (plain : Plain w) (boundary : Boundary rest) :
    tokens (w ++ rest) = ⟨.word, w⟩ :: tokens rest := by
  rw [tokens_of_token (getToken_word plain boundary) (by decide) (by decide), Token.ofText,
    if_neg (by decide), List.take_left, List.drop_left]

theorem quoteEnd_cons_of_ne {delim c : Char} (other : c ≠ delim) (z : Text) (i : Nat) :
    quoteEnd delim (c :: z) i = quoteEnd delim z (i + 1) := by
  cases z with
  | nil => simp only [quoteEnd, if_neg other]
  | cons d z => rw [quoteEnd, if_neg other]

theorem dequoteBody_cons_of_ne {delim c : Char} (other : c ≠ delim) (z : Text) :
    dequoteBody delim (c :: z) = c :: dequoteBody delim z := by
  cases z with
  | nil => simp only [dequoteBody, if_neg other]
  | cons d z => rw [dequoteBody, if_neg other]

theorem loops_of_decode {delim : Char} {z value rest : Text}
    (decoded : Quoted.decode delim z = some (value, rest)) :
    ∃ body, z = body ++ delim :: rest ∧ (∀ i, quoteEnd delim z i = (delim, i + body.length)) ∧
      dequoteBody delim (body ++ [delim]) = value := by
  fun_induction Quoted.decode delim z generalizing value rest with
  | case1 => cases decoded
  | case2 =>
      cases decoded
      exact ⟨[], rfl, fun i => by rw [quoteEnd, if_pos rfl]; rfl, by
        rw [List.nil_append, dequoteBody, if_pos rfl]⟩
  | case3 => cases decoded
  | case4 z ih =>
      rw [Option.map_eq_some_iff] at decoded
      rcases decoded with ⟨⟨inner, after⟩, read, pair⟩
      cases pair
      rcases ih read with ⟨body, split, ends, dequoted⟩
      refine ⟨delim :: delim :: body, by rw [split]; rfl, fun i => ?_, ?_⟩
      · rw [quoteEnd, if_pos rfl, if_pos rfl, ends, List.length_cons, List.length_cons]
        exact congrArg (Prod.mk delim) (by omega)
      · rw [List.cons_append, List.cons_append, dequoteBody, if_pos rfl, if_pos rfl, dequoted]
  | case5 d z other =>
      cases decoded
      exact ⟨[], rfl, fun i => by rw [quoteEnd, if_pos rfl, if_neg other]; rfl, by
        rw [List.nil_append, dequoteBody, if_pos rfl]⟩
  | case6 c d z other ih =>
      rw [Option.map_eq_some_iff] at decoded
      rcases decoded with ⟨⟨inner, after⟩, read, pair⟩
      cases pair
      rcases ih read with ⟨body, split, ends, dequoted⟩
      refine ⟨c :: body, by rw [split]; rfl, fun i => ?_, ?_⟩
      · rw [quoteEnd_cons_of_ne other, ends, List.length_cons]
        exact congrArg (Prod.mk delim) (by omega)
      · rw [List.cons_append, dequoteBody_cons_of_ne other, dequoted]

theorem quoteEnd_of_open {delim : Char} {z : Text} (opened : Quoted.decode delim z = none)
    (i : Nat) : quoteEnd delim z i = (nul, i + z.length) := by
  fun_induction Quoted.decode delim z generalizing i with
  | case1 => rfl
  | case2 => cases opened
  | case3 c other => rw [quoteEnd, if_neg other]; rfl
  | case4 z ih =>
      rw [quoteEnd, if_pos rfl, if_pos rfl, ih (Option.map_eq_none_iff.mp opened),
        List.length_cons, List.length_cons]
      exact congrArg (Prod.mk nul) (by omega)
  | case5 => cases opened
  | case6 c d z other ih =>
      rw [quoteEnd_cons_of_ne other, ih (Option.map_eq_none_iff.mp opened),
        List.length_cons (a := c)]
      exact congrArg (Prod.mk nul) (by omega)

theorem getToken_quote (z : Text) : getToken (quote :: z) = quoted quote z := rfl

theorem tokens_literal {z value rest : Text}
    (decoded : Quoted.decode quote z = some (value, rest)) :
    tokens (quote :: z) = ⟨.string, value⟩ :: tokens rest := by
  rcases loops_of_decode decoded with ⟨body, rfl, ends, dequoted⟩
  have token : getToken (quote :: (body ++ quote :: rest)) = (.string, body.length + 2) := by
    rw [getToken_quote, quoted, ends, Nat.add_comm 1]
    rfl
  have text : (quote :: (body ++ quote :: rest)).take (body.length + 2) =
      quote :: (body ++ [quote]) := by
    rw [List.take_succ_cons, List.take_length_add_append]
    rfl
  have behind : (quote :: (body ++ quote :: rest)).drop (body.length + 2) = rest := by
    rw [List.drop_succ_cons, List.drop_length_add_append]
    rfl
  rw [tokens_of_token token (by decide) (by decide), text, behind, ← dequoted]
  rfl

theorem tokens_open {z : Text} (opened : Quoted.decode quote z = none) :
    tokens (quote :: z) = [⟨.illegal, quote :: z⟩] := by
  have token : getToken (quote :: z) = (.illegal, 1 + z.length) := by
    rw [getToken_quote, quoted, quoteEnd_of_open opened]
    rfl
  rw [tokens_of_illegal (List.cons_ne_nil _ _) token, Nat.add_comm, ← List.length_cons,
    List.take_length]

end CommonUtils.DataBase
