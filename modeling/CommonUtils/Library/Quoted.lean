import Mathlib.Data.List.Basic

/-! Text after an opening delimiter, where the delimiter closes it and a doubled delimiter
denotes one. -/

namespace Quoted

variable {α : Type*} [DecidableEq α]

/-- The denoted value and what follows the closing delimiter. -/
def decode (delim : α) : List α → Option (List α × List α)
  | [] => none
  | [c] => if c = delim then some ([], []) else none
  | c :: d :: z =>
      if c = delim then
        if d = delim then (decode delim z).map fun r => (c :: r.1, r.2) else some ([], d :: z)
      else (decode delim (d :: z)).map fun r => (c :: r.1, r.2)

theorem decode_cons_of_ne {delim c : α} (other : c ≠ delim) (z : List α) :
    decode delim (c :: z) = (decode delim z).map fun r => (c :: r.1, r.2) := by
  cases z with
  | nil => simp [decode, other]
  | cons d z => rw [decode, if_neg other]

theorem decode_doubled (delim : α) (z : List α) :
    decode delim (delim :: delim :: z) = (decode delim z).map fun r => (delim :: r.1, r.2) := by
  rw [decode, if_pos rfl, if_pos rfl]

theorem decode_closed {delim : α} {rest : List α} (closed : rest.head? ≠ some delim) :
    decode delim (delim :: rest) = some ([], rest) := by
  cases rest with
  | nil => simp [decode]
  | cons d z =>
      have other : d ≠ delim := fun same => closed (by rw [same]; rfl)
      rw [decode, if_pos rfl, if_neg other]

theorem decode_of_not_mem {delim : α} {value rest : List α} (free : delim ∉ value)
    (closed : rest.head? ≠ some delim) :
    decode delim (value ++ delim :: rest) = some (value, rest) := by
  induction value with
  | nil => exact decode_closed closed
  | cons c value ih =>
      rw [List.mem_cons, not_or] at free
      rw [List.cons_append, decode_cons_of_ne (Ne.symm free.1), ih free.2]
      rfl

theorem head_of_decode {delim : α} {z value rest : List α} (first : z.head? ≠ some delim)
    (decoded : decode delim z = some (value, rest)) :
    ∃ c, z.head? = some c ∧ value.head? = some c := by
  cases z with
  | nil => cases decoded
  | cons c z =>
      have other : c ≠ delim := fun same => first (by rw [same]; rfl)
      rw [decode_cons_of_ne other, Option.map_eq_some_iff] at decoded
      rcases decoded with ⟨inner, -, pair⟩
      have denoted : c :: inner.1 = value := congrArg Prod.fst pair
      exact ⟨c, rfl, by rw [← denoted]; rfl⟩

theorem decode_tail {delim c : α} (other : c ≠ delim) {z value after : List α} {k : Nat}
    (decoded : decode delim (c :: z) = some (List.replicate k delim ++ c :: value, after)) :
    k = 0 ∧ decode delim z = some (value, after) := by
  rw [decode_cons_of_ne other, Option.map_eq_some_iff] at decoded
  rcases decoded with ⟨⟨inner, behind⟩, read, pair⟩
  cases k with
  | zero =>
      have denoted : c = c ∧ inner = value := by simpa using congrArg Prod.fst pair
      have same : behind = after := congrArg Prod.snd pair
      exact ⟨rfl, by rw [read, denoted.2, same]⟩
  | succ k =>
      have heads : c = delim := (List.cons.inj (congrArg Prod.fst pair)).1
      exact absurd heads other

/-- A text is denoted by itself after a number of delimiters only where the number is zero
and the text has no delimiter in it. Each pair that the text begins with is read as one, and
so one more stands in front of what is left. -/
theorem free_of_decode {delim : α} {rest : List α} (closed : rest.head? ≠ some delim) :
    ∀ (value : List α) (k : Nat) (after : List α),
      decode delim (value ++ delim :: rest) = some (List.replicate k delim ++ value, after) →
        k = 0 ∧ delim ∉ value
  | [], k, after, decoded => by
      rw [List.nil_append, decode_closed closed] at decoded
      have same : [] = List.replicate k delim ++ [] := congrArg Prod.fst (Option.some.inj decoded)
      exact ⟨by simpa using same.symm, List.not_mem_nil⟩
  | [c], k, after, decoded => by
      by_cases same : c = delim
      · subst same
        rw [List.singleton_append, decode_doubled, ← List.replicate_succ', List.replicate_succ,
          Option.map_eq_some_iff] at decoded
        rcases decoded with ⟨⟨inner, behind⟩, read, pair⟩
        have denoted : inner = List.replicate k c := (List.cons.inj (congrArg Prod.fst pair)).2
        rcases head_of_decode closed read with ⟨d, first, head⟩
        have member : d ∈ List.replicate k c := denoted ▸ List.mem_of_head? head
        exact absurd (List.eq_of_mem_replicate member ▸ first) closed
      · exact ⟨(decode_tail same decoded).1, by simpa using Ne.symm same⟩
  | c :: d :: value, k, after, decoded => by
      by_cases same : c = delim
      · subst same
        by_cases again : d = c
        · subst again
          rw [List.cons_append, List.cons_append, decode_doubled, Option.map_eq_some_iff]
            at decoded
          rcases decoded with ⟨⟨inner, behind⟩, read, pair⟩
          have shifted : d :: inner = d :: (List.replicate (k + 1) d ++ value) := by
            calc
              d :: inner = List.replicate k d ++ d :: d :: value := congrArg Prod.fst pair
              _ = List.replicate (k + 1 + 1) d ++ value := by
                rw [List.replicate_succ', List.replicate_succ']
                simp only [List.append_assoc, List.cons_append, List.nil_append]
              _ = d :: (List.replicate (k + 1) d ++ value) := by rw [List.replicate_succ]; rfl
          rw [(List.cons.inj shifted).2] at read
          exact absurd (free_of_decode closed value (k + 1) behind read).1 (Nat.succ_ne_zero k)
        · have opened : (d :: value ++ c :: rest).head? ≠ some c := by simpa using again
          rw [List.cons_append, decode_closed opened] at decoded
          have empty : [] = List.replicate k c ++ c :: d :: value :=
            congrArg Prod.fst (Option.some.inj decoded)
          exact absurd empty.symm (by simp)
      · rcases decode_tail same decoded with ⟨zero, read⟩
        have free := (free_of_decode closed (d :: value) 0 after read).2
        exact ⟨zero, by rw [List.mem_cons, not_or]; exact ⟨Ne.symm same, free⟩⟩

theorem decode_eq_iff {delim : α} {value rest after : List α}
    (closed : rest.head? ≠ some delim) :
    decode delim (value ++ delim :: rest) = some (value, after) ↔
      delim ∉ value ∧ rest = after := by
  constructor
  · intro decoded
    have free := (free_of_decode closed value 0 after decoded).2
    rw [decode_of_not_mem free closed] at decoded
    exact ⟨free, congrArg Prod.snd (Option.some.inj decoded)⟩
  · rintro ⟨free, rfl⟩
    exact decode_of_not_mem free closed

end Quoted
