import CommonUtils.DataBase.Pieces
import CommonUtils.DataBase.Lists

namespace CommonUtils.DataBase

def listed (item : Text × Text → List Token) (members : List (Text × Text)) : List Token :=
  [⟨.comma, [',']⟩].intercalate (members.map item)

def joined (item : Text × Text → Text) (members : List (Text × Text)) : Text :=
  separator.intercalate (members.map item)

def columnTokens (member : Text × Text) : List Token := [⟨.word, member.1⟩]

def valueTokens (member : Text × Text) : List Token := [⟨.string, member.2⟩]

def assignmentTokens (member : Text × Text) : List Token :=
  [⟨.word, member.1⟩, ⟨.eq, ['=']⟩, ⟨.string, member.2⟩]

theorem dropSeparator_appendItems (item : Text × Text → Text) {members : List (Text × Text)}
    (some : members ≠ []) (sql : Text) :
    dropSeparator (appendItems item sql members) =
      .ok (sql ++ joined item members) :=
  dropSeparator_appendAll item some sql

/-- A piece of text read in front of anything that does not go on with it: as the given
tokens exactly where the condition holds. -/
structure Reads (text : Text) (read : List Token) (good : Prop) : Prop where
  free : nul ∉ text
  dark : ∀ rest, isSpace ((text ++ rest).headD nul) = false
  reads : ∀ rest more, Boundary rest →
    (tokens (text ++ rest) = read ++ more ↔ good ∧ tokens rest = more)

namespace Plain

theorem dark {w : Text} (plain : Plain w) (rest : Text) :
    isSpace ((w ++ rest).headD nul) = false := by
  cases w with
  | nil => exact plain.elim
  | cons c w =>
      exact ascii_forall (p := fun c => identPart c = true → isSpace c = false) (by decide +kernel)
        (ascii_of_identPart (plain.parts c List.mem_cons_self))
        (plain.parts c List.mem_cons_self)

theorem free {w : Text} (plain : Plain w) : nul ∉ w := fun member =>
  absurd (plain.parts nul member) (by decide)

end Plain

theorem reads_column {member : Text × Text} (plain : Plain member.1) :
    Reads (column member) (columnTokens member) True where
  free := plain.free
  dark := plain.dark
  reads rest more boundary := by
    rw [column, tokens_word plain boundary, columnTokens, List.singleton_append,
      List.cons.injEq]
    simp

theorem reads_value {member : Text × Text} (free : nul ∉ member.2) :
    Reads (value member) (valueTokens member) (quote ∉ member.2) where
  free := by
    have other : nul ≠ quote := by decide
    simp [value, free, other]
  dark rest := by
    have same : isSpace quote = false := by decide
    exact same
  reads rest more boundary := by
    have closed := boundary.closed
    have text : value member ++ rest = quote :: (member.2 ++ quote :: rest) := by
      simp [value]
    rw [text, valueTokens, List.singleton_append]
    cases decoded : Quoted.decode quote (member.2 ++ quote :: rest) with
    | none =>
        have quoteIn : ¬ quote ∉ member.2 := fun free => by
          rw [Quoted.decode_of_not_mem free closed] at decoded
          cases decoded
        rw [tokens_open decoded]
        simp [quoteIn]
    | some read =>
        rcases read with ⟨denoted, after⟩
        rw [tokens_literal decoded, List.cons.injEq, Token.mk.injEq]
        constructor
        · rintro ⟨⟨-, same⟩, tail⟩
          rw [same] at decoded
          have exact_value := (Quoted.decode_eq_iff closed).mp decoded
          exact ⟨exact_value.1, exact_value.2 ▸ tail⟩
        · rintro ⟨free, tail⟩
          rw [Quoted.decode_of_not_mem free closed] at decoded
          cases decoded
          exact ⟨⟨rfl, rfl⟩, tail⟩

theorem reads_assignment {member : Text × Text} (plain : Plain member.1)
    (free : nul ∉ member.2) :
    Reads (assignment member) (assignmentTokens member) (quote ∉ member.2) where
  free := by
    have other : nul ≠ quote ∧ nul ≠ '=' := by decide
    simp [assignment, plain.free, free, other]
  dark rest := by
    rw [assignment, List.append_assoc, List.append_assoc, List.append_assoc]
    exact plain.dark _
  reads rest more boundary := by
    have text : assignment member ++ rest =
        member.1 ++ '=' :: quote :: (member.2 ++ quote :: rest) := by simp [assignment]
    have literal := (reads_value free).reads rest more boundary
    have same : value member ++ rest = quote :: (member.2 ++ quote :: rest) := by simp [value]
    rw [same, valueTokens, List.singleton_append] at literal
    rw [text, tokens_word plain (boundary_cons (by decide) _), tokens_eq_quote, assignmentTokens,
      List.cons_append, List.cons_append, List.singleton_append, List.cons.injEq,
      List.cons.injEq, literal]
    simp

theorem reads_joinAll {α : Type} {item : α → Text} {read : α → List Token} {good : α → Prop}
    {items : List α} (some : items ≠ [])
    (reads : ∀ x ∈ items, Reads (item x) (read x) (good x)) :
    Reads (joinAll item items) ([⟨.comma, [',']⟩].intercalate (items.map read))
      (∀ x ∈ items, good x) := by
  induction items with
  | nil => exact absurd rfl some
  | cons x tail ih =>
      have first := reads x List.mem_cons_self
      cases tail with
      | nil => simpa [joinAll, List.intercalate_singleton] using first
      | cons next tail =>
          have later := ih (List.cons_ne_nil _ _) fun y inside =>
            reads y (List.mem_cons_of_mem _ inside)
          have text : joinAll item (x :: next :: tail) =
              item x ++ ',' :: ' ' :: joinAll item (next :: tail) := by
            simp [joinAll, separator, List.intercalate_cons_cons]
          have tokens_text : [⟨.comma, [',']⟩].intercalate ((x :: next :: tail).map read) =
              read x ++ ⟨.comma, [',']⟩ ::
                [⟨.comma, [',']⟩].intercalate ((next :: tail).map read) := by
            simp [List.intercalate_cons_cons]
          rw [text, tokens_text]
          constructor
          · have other : nul ≠ ',' ∧ nul ≠ ' ' := by decide
            rw [List.mem_append, List.mem_cons, List.mem_cons, not_or, not_or, not_or]
            exact ⟨first.free, other.1, other.2, later.free⟩
          · intro rest
            rw [List.append_assoc]
            exact first.dark _
          · intro rest more boundary
            rw [List.append_assoc, List.append_assoc, List.cons_append, List.cons_append,
              first.reads _ _ (boundary_cons (by decide) _), List.cons_append, tokens_comma,
              tokens_blank (later.dark rest), List.cons.injEq, later.reads rest more boundary,
              List.forall_mem_cons]
            simp [and_assoc]

theorem reads_items {item : Text × Text → Text} {read : Text × Text → List Token}
    {good : Text × Text → Prop} {members : List (Text × Text)} (some : members ≠ [])
    (reads : ∀ member ∈ members, Reads (item member) (read member) (good member)) :
    Reads (joined item members) (listed read members)
      (∀ member ∈ members, good member) := reads_joinAll some reads

end CommonUtils.DataBase
