import Mathlib.Data.List.Infix
import Mathlib.Data.List.TakeDrop
import Mathlib.Data.List.TakeWhile
import Mathlib.Data.Nat.Find

namespace Search

variable {α : Type*} [DecidableEq α]

/-- The offset of the leftmost occurrence of `word`. -/
def find (word : List α) : List α → Option Nat
  | [] => if word = [] then some 0 else none
  | a :: text =>
      if word <+: a :: text then some 0 else (find word text).map (· + 1)

theorem find_eq_some_iff {word text : List α} {pos : Nat} :
    find word text = some pos ↔
      word <+: text.drop pos ∧ ∀ before < pos, ¬ word <+: text.drop before := by
  induction text generalizing pos with
  | nil =>
      by_cases empty : word = []
      · subst empty
        simp only [find, if_pos, Option.some.injEq, List.nil_prefix, true_and, not_true]
        constructor
        · intro zero before smaller
          omega
        · intro none
          by_contra positive
          exact none 0 (by omega)
      · simp [find, empty]
  | cons a text ih =>
      rw [find]
      split
      · rename_i here
        constructor
        · intro zero
          cases zero
          exact ⟨here, fun before smaller => absurd smaller (by omega)⟩
        · intro first
          by_contra other
          have positive : 0 < pos := by
            by_contra zero
            apply other
            rw [show pos = 0 by omega]
          exact first.2 0 positive here
      · rename_i absent
        cases pos with
        | zero => simp [absent]
        | succ pos =>
            rw [Option.map_eq_some_iff]
            constructor
            · intro found
              rcases found with ⟨earlier, found, same⟩
              cases same
              have first := ih.mp found
              refine ⟨first.1, fun before smaller => ?_⟩
              cases before with
              | zero => exact absent
              | succ before => exact first.2 before (by omega)
            · intro first
              have found : find word text = some pos :=
                ih.mpr ⟨first.1, fun before smaller => first.2 (before + 1) (by omega)⟩
              exact ⟨pos, found, rfl⟩

theorem find_eq_none_iff {word text : List α} :
    find word text = none ↔ ∀ pos, ¬ word <+: text.drop pos := by
  constructor
  · intro absent pos here
    have leftmost := Nat.find_spec (p := fun pos => word <+: text.drop pos) ⟨pos, here⟩
    have found := find_eq_some_iff.mpr ⟨leftmost, fun before smaller => Nat.find_min _ smaller⟩
    rw [absent] at found
    cases found
  · intro absent
    cases found : find word text with
    | none => rfl
    | some pos => exact absurd (find_eq_some_iff.mp found).1 (absent pos)

theorem split_of_find {word text : List α} {pos : Nat} (found : find word text = some pos) :
    text = text.take pos ++ word ++ text.drop (pos + word.length) := by
  have here := (find_eq_some_iff.mp found).1
  rw [← List.drop_drop, List.append_assoc, List.prefix_iff_eq_append.mp here,
    List.take_append_drop]

theorem length_of_find {word text : List α} {pos : Nat} (found : find word text = some pos)
    (nonempty : word ≠ []) : pos + word.length ≤ text.length ∧ 0 < word.length := by
  have positive := List.length_pos_of_ne_nil nonempty
  have here := (find_eq_some_iff.mp found).1.length_le
  rw [List.length_drop] at here
  omega

theorem find_append {word front back : List α} {pos : Nat} (nonempty : word ≠ [])
    (found : find word front = some pos) : find word (front ++ back) = some pos := by
  have fits := length_of_find found nonempty
  rcases find_eq_some_iff.mp found with ⟨here, first⟩
  rw [find_eq_some_iff]
  constructor
  · rw [List.drop_append_of_le_length (by omega)]
    exact here.trans (List.prefix_append _ _)
  · intro before smaller earlier
    apply first before smaller
    rw [List.drop_append_of_le_length (by omega)] at earlier
    apply List.prefix_of_prefix_length_le earlier (List.prefix_append _ _)
    rw [List.length_drop]
    omega

theorem takeWhile_ne_eq_self_iff {letter : α} {text : List α} :
    text.takeWhile (· ≠ letter) = text ↔ letter ∉ text := by
  rw [List.takeWhile_eq_self_iff]
  constructor
  · intro free member
    exact of_decide_eq_true (free letter member) rfl
  · intro free a member
    apply decide_eq_true
    rintro rfl
    exact free member

theorem append_takeWhile_ne {letter : α} {front : List α} (free : letter ∉ front)
    (rest : List α) :
    (front ++ rest).takeWhile (· ≠ letter) = front ++ rest.takeWhile (· ≠ letter) :=
  List.takeWhile_append_of_pos
    (List.takeWhile_eq_self_iff.mp (takeWhile_ne_eq_self_iff.mpr free))

theorem append_dropWhile_ne {letter : α} {front : List α} (free : letter ∉ front)
    (rest : List α) : (front ++ rest).dropWhile (· ≠ letter) = rest.dropWhile (· ≠ letter) :=
  List.dropWhile_append_of_pos
    (List.takeWhile_eq_self_iff.mp (takeWhile_ne_eq_self_iff.mpr free))

theorem take_find_singleton {letter : α} {text : List α} {pos : Nat}
    (found : find [letter] text = some pos) :
    text.take pos = text.takeWhile (· ≠ letter) ∧ text.drop pos = text.dropWhile (· ≠ letter) := by
  induction text generalizing pos with
  | nil => simp [find] at found
  | cons a text ih =>
      rw [find] at found
      by_cases same : a = letter
      · subst same
        simp at found
        subst found
        simp
      · have absent : ¬ [letter] <+: a :: text := by
          intro here
          rcases here with ⟨rest, equal⟩
          exact same (List.cons.inj equal).1.symm
        rw [if_neg absent, Option.map_eq_some_iff] at found
        rcases found with ⟨later, found, rfl⟩
        have parts := ih found
        simp [same, parts]

theorem find_singleton_eq_none_iff {letter : α} {text : List α} :
    find [letter] text = none ↔ letter ∉ text := by
  induction text with
  | nil => simp [find]
  | cons a text ih =>
      rw [find]
      by_cases same : a = letter
      · simp [same]
      · have other : letter ≠ a := fun equal => same equal.symm
        simp [other, ih]

/-- The pieces of a text that a delimiter ends, cut at its leftmost occurrence
again and again; what is behind the last delimiter is no piece. -/
def pieces (delimiter text : List α) : List (List α) :=
  match _found : find delimiter text with
  | none => []
  | some pos =>
      if _empty : delimiter = [] then []
      else text.take pos :: pieces delimiter (text.drop (pos + delimiter.length))
termination_by text.length
decreasing_by
  have fits := length_of_find _found _empty
  rw [List.length_drop]
  omega

theorem pieces_of_none {delimiter text : List α} (absent : find delimiter text = none) :
    pieces delimiter text = [] := by
  rw [pieces]
  split
  · rfl
  · simp_all

theorem pieces_of_find {delimiter text : List α} {pos : Nat} (nonempty : delimiter ≠ [])
    (found : find delimiter text = some pos) :
    pieces delimiter text =
      text.take pos :: pieces delimiter (text.drop (pos + delimiter.length)) := by
  rw [pieces]
  split
  · simp_all
  · simp_all

inductive Occurrences (word : List α) : Nat → List α → Prop
  | none (text : List α) : Occurrences word 0 text
  | next {count : Nat} {rest : List α} (front : List α) : Occurrences word count rest →
      Occurrences word (count + 1) (front ++ word ++ rest)

omit [DecidableEq α] in
theorem Occurrences.extend {word text : List α} {count : Nat} (front : List α)
    (occurs : Occurrences word count text) : Occurrences word count (front ++ text) := by
  cases occurs with
  | none => exact .none _
  | next middle rest =>
      rw [← List.append_assoc, ← List.append_assoc]
      exact .next _ rest

theorem exists_find_of_occurrence (word front rest : List α) :
    ∃ pos ≤ front.length, find word (front ++ word ++ rest) = some pos := by
  have here : word <+: (front ++ word ++ rest).drop front.length := by
    rw [List.append_assoc, List.drop_left]
    exact List.prefix_append _ _
  cases found : find word (front ++ word ++ rest) with
  | none => exact absurd here (find_eq_none_iff.mp found _)
  | some pos =>
      refine ⟨pos, ?_, rfl⟩
      by_contra later
      exact (find_eq_some_iff.mp found).2 _ (by omega) here

/-- Cutting at the leftmost occurrences misses none. -/
theorem Occurrences.le_pieces {word : List α} {count : Nat} (nonempty : word ≠ []) :
    ∀ {text : List α}, Occurrences word count text → count ≤ (pieces word text).length := by
  induction count with
  | zero =>
      intro text occurs
      exact Nat.zero_le _
  | succ count ih =>
      intro text occurs
      cases occurs with
      | next front rest =>
          rcases exists_find_of_occurrence word front _ with ⟨pos, early, found⟩
          rw [pieces_of_find nonempty found, List.length_cons, Nat.add_le_add_iff_right]
          apply ih
          rw [List.drop_append_of_le_length (by rw [List.length_append]; omega)]
          exact rest.extend _

theorem occurrences_pieces (word text : List α) :
    Occurrences word (pieces word text).length text := by
  fun_induction pieces word text with
  | case1 text absent => exact .none _
  | case2 text pos found empty => exact .none _
  | case3 text pos found nonempty ih =>
      have parts := split_of_find found
      have occurs := Occurrences.next (text.take pos) ih
      rwa [← parts] at occurs

theorem pieces_length_append {word : List α} (nonempty : word ≠ []) (front text : List α) :
    (pieces word text).length ≤ (pieces word (front ++ text)).length :=
  ((occurrences_pieces word text).extend front).le_pieces nonempty

inductive Cut (word : List α) : List α → List (List α) → Prop
  | last {text : List α} : (∀ pos, ¬ word <+: text.drop pos) → Cut word text [text]
  | next {front rest : List α} {parts : List (List α)} :
      (∀ before < front.length, ¬ word <+: (front ++ word ++ rest).drop before) →
        Cut word rest parts → Cut word (front ++ word ++ rest) (front :: parts)

omit [DecidableEq α] in
theorem Cut.nonempty {word text : List α} {parts : List (List α)} (cut : Cut word text parts) :
    parts ≠ [] := by
  cases cut <;> exact List.cons_ne_nil _ _

theorem find_leftmost {word front rest : List α}
    (leftmost : ∀ before < front.length, ¬ word <+: (front ++ word ++ rest).drop before) :
    find word (front ++ word ++ rest) = some front.length := by
  rw [find_eq_some_iff]
  constructor
  · rw [List.append_assoc, List.drop_left]
    exact List.prefix_append _ _
  · exact leftmost

theorem cut_none {word text : List α} {parts : List (List α)} (cut : Cut word text parts)
    (absent : find word text = none) : parts = [text] := by
  cases cut with
  | last => rfl
  | next leftmost cut =>
      rw [find_leftmost leftmost] at absent
      cases absent

theorem cut_some {word text : List α} {parts : List (List α)} {pos : Nat}
    (cut : Cut word text parts) (found : find word text = some pos) :
    ∃ later, parts = text.take pos :: later ∧
      Cut word (text.drop (pos + word.length)) later := by
  cases cut with
  | last absent => exact absurd (find_eq_some_iff.mp found).1 (absent pos)
  | @next front rest later leftmost cut =>
      rw [find_leftmost leftmost] at found
      cases found
      refine ⟨later, ?_, ?_⟩
      · rw [List.append_assoc, List.take_left]
      · rw [← List.length_append, List.drop_left]
        exact cut

theorem find_eq_none_iff_absent {word text : List α} :
    find word text = none ↔ ¬ word <:+: text := by
  rw [find_eq_none_iff]
  constructor
  · intro absent inside
    rcases inside with ⟨front, rest, rfl⟩
    apply absent front.length
    rw [List.append_assoc, List.drop_left]
    exact List.prefix_append _ _
  · intro absent pos here
    exact absent (here.isInfix.trans (List.drop_suffix pos text).isInfix)

theorem not_infix_take_of_find {word text : List α} {pos : Nat} (nonempty : word ≠ [])
    (found : find word text = some pos) : ¬ word <:+: text.take pos := by
  intro inside
  cases earlier : find word (text.take pos) with
  | none => exact find_eq_none_iff_absent.mp earlier inside
  | some before =>
      have same : find word (text.take pos ++ text.drop pos) = some before :=
        find_append nonempty earlier
      have fits := (length_of_find earlier nonempty).1
      have positive := (length_of_find earlier nonempty).2
      rw [List.take_append_drop, found] at same
      cases same
      rw [List.length_take] at fits
      omega

theorem split_of_find_singleton {letter : α} {text : List α} {pos : Nat}
    (found : find [letter] text = some pos) :
    letter ∉ text.take pos ∧ text.drop pos = letter :: text.drop (pos + 1) := by
  constructor
  · have absent := not_infix_take_of_find (List.cons_ne_nil _ _) found
    rwa [← find_eq_none_iff_absent, find_singleton_eq_none_iff] at absent
  · rcases (find_eq_some_iff.mp found).1 with ⟨rest, here⟩
    rw [← List.drop_drop, ← here]
    rfl

/-- No proper end of the word is its beginning, so that no two occurrences overlap. -/
def Borderless (word : List α) : Prop :=
  ∀ shift < word.length, 0 < shift → ¬ word.drop shift <+: word

instance (word : List α) : Decidable (Borderless word) :=
  inferInstanceAs (Decidable (∀ shift < word.length, 0 < shift → ¬ word.drop shift <+: word))

omit [DecidableEq α] in
/-- Of two occurrences that overlap, the end of one is the beginning of the other. -/
theorem border_of_overlap {word text : List α} {shift : Nat} (here : word <+: text)
    (there : word <+: text.drop shift) : word.drop shift <+: word := by
  apply List.prefix_of_prefix_length_le (here.drop shift) there
  rw [List.length_drop]
  omega

/-- The first occurrence of a word behind a text that does not contain it. -/
theorem find_append_of_borderless {word front rest : List α} (borderless : Borderless word)
    (absent : ¬ word <:+: front) : find word (front ++ word ++ rest) = some front.length := by
  apply find_leftmost
  intro before smaller here
  have gap : (front ++ word ++ rest).drop before = front.drop before ++ (word ++ rest) := by
    rw [List.append_assoc, List.drop_append_of_le_length (by omega)]
  have length : (front.drop before).length = front.length - before := List.length_drop
  rw [gap] at here
  rcases Nat.lt_or_ge (front.drop before).length word.length with short | long
  · apply borderless (front.drop before).length short (by omega)
    apply border_of_overlap here
    rw [List.drop_left]
    exact List.prefix_append word rest
  · apply absent
    have inside := List.prefix_of_prefix_length_le here (List.prefix_append _ _) long
    exact inside.isInfix.trans (List.drop_suffix before front).isInfix

theorem find_append_singleton {letter : α} {front rest : List α} (absent : letter ∉ front) :
    find [letter] (front ++ letter :: rest) = some front.length := by
  have none := find_singleton_eq_none_iff.mpr absent
  have borderless : Borderless [letter] := by
    intro shift small positive
    rw [List.length_singleton] at small
    omega
  have found : find [letter] (front ++ [letter] ++ rest) = some front.length :=
    find_append_of_borderless borderless (find_eq_none_iff_absent.mp none)
  rwa [List.append_assoc] at found

theorem pieces_append_singleton {letter : α} {front : List α} (absent : letter ∉ front)
    (rest : List α) :
    pieces [letter] (front ++ letter :: rest) = front :: pieces [letter] rest := by
  have behind : (front ++ letter :: rest).drop (front.length + [letter].length) = rest := by
    rw [← List.drop_drop, List.drop_left]
    rfl
  rw [pieces_of_find (List.cons_ne_nil _ _) (find_append_singleton absent), List.take_left, behind]

theorem pieces_prefix {word : List α} (nonempty : word ≠ []) (front back : List α) :
    pieces word front <+: pieces word (front ++ back) := by
  fun_induction pieces word front with
  | case1 front absent => exact List.nil_prefix
  | case2 front pos found empty => exact absurd empty nonempty
  | case3 front pos found _ ih =>
      have inside := (length_of_find found nonempty).1
      rw [pieces_of_find nonempty (find_append nonempty found),
        List.take_append_of_le_length (by omega), List.drop_append_of_le_length inside]
      exact List.cons_prefix_cons.mpr ⟨rfl, ih⟩

theorem pieces_singleton_length (letter : α) (text : List α) :
    (pieces [letter] text).length = text.count letter := by
  fun_induction pieces [letter] text with
  | case1 text absent =>
      exact (List.count_eq_zero.mpr (find_singleton_eq_none_iff.mp absent)).symm
  | case2 text pos found empty => cases empty
  | case3 text pos found _ ih =>
      rcases split_of_find_singleton found with ⟨absent, split⟩
      have none := List.count_eq_zero.mpr absent
      calc
        (text.take pos :: pieces [letter] (text.drop (pos + [letter].length))).length =
            (text.drop (pos + 1)).count letter + 1 := by rw [List.length_cons, ih]; rfl
        _ = (text.take pos ++ text.drop pos).count letter := by
          rw [List.count_append, none, split, List.count_cons_self, Nat.zero_add]
        _ = text.count letter := by rw [List.take_append_drop]

theorem Cut.unique {word text : List α} {parts : List (List α)} (cut : Cut word text parts) :
    ∀ {other}, Cut word text other → other = parts := by
  induction cut with
  | last absent =>
      intro other second
      exact cut_none second (find_eq_none_iff.mpr absent)
  | @next front rest parts leftmost cut ih =>
      intro other second
      rcases cut_some second (find_leftmost leftmost) with ⟨later, same, second⟩
      rw [← List.length_append, List.drop_left] at second
      rw [same, ih second, List.append_assoc, List.take_left]

theorem exists_cut {word : List α} (nonempty : word ≠ []) (text : List α) :
    ∃ parts, Cut word text parts := by
  fun_induction pieces word text with
  | case1 text absent => exact ⟨_, .last (find_eq_none_iff.mp absent)⟩
  | case2 text pos found empty => exact absurd empty nonempty
  | case3 text pos found _ ih =>
      rcases ih with ⟨parts, cut⟩
      have split := split_of_find found
      have inside := (length_of_find found nonempty).1
      have front : (text.take pos).length = pos := by
        rw [List.length_take]
        omega
      have leftmost : ∀ before < (text.take pos).length, ¬ word <+:
          (text.take pos ++ word ++ text.drop (pos + word.length)).drop before := by
        rw [← split, front]
        exact (find_eq_some_iff.mp found).2
      have whole := Cut.next leftmost cut
      rw [← split] at whole
      exact ⟨_, whole⟩

end Search
