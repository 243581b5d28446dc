import CommonUtils.DataBase.Items
import CommonUtils.Library.Search

namespace CommonUtils.DataBase

namespace Keyword

def insert : Text := ['I', 'N', 'S', 'E', 'R', 'T']

def into : Text := ['I', 'N', 'T', 'O']

def values : Text := ['V', 'A', 'L', 'U', 'E', 'S']

def update : Text := ['U', 'P', 'D', 'A', 'T', 'E']

def set : Text := ['S', 'E', 'T']

def whereWord : Text := ['W', 'H', 'E', 'R', 'E']

end Keyword

def insertStatement (name : List Token) (members : List (Text × Text)) : List Token :=
  ⟨.word, Keyword.insert⟩ :: ⟨.word, Keyword.into⟩ :: (name ++ ⟨.lp, ['(']⟩ ::
    (listed columnTokens members ++ ⟨.rp, [')']⟩ :: ⟨.word, Keyword.values⟩ :: ⟨.lp, ['(']⟩ ::
      (listed valueTokens members ++ [⟨.rp, [')']⟩, ⟨.semi, [';']⟩])))

def updateStatement (name : List Token) (members : List (Text × Text))
    (condition : List Token) : List Token :=
  ⟨.word, Keyword.update⟩ :: (name ++ ⟨.word, Keyword.set⟩ ::
    (listed assignmentTokens members ++ ⟨.word, Keyword.whereWord⟩ :: condition))

/-- A text for a table whose tokens do not depend on what stands behind its space. -/
structure Names (tableName : Text) (name : List Token) : Prop where
  free : nul ∉ tableName
  dark : ∀ rest, isSpace ((tableName ++ rest).headD nul) = false
  reads : ∀ rest, tokens (tableName ++ ' ' :: rest) = name ++ tokens (' ' :: rest)

def InsertEncodes (tableName : Text) (name : List Token) (data : SQLiteKeyValue) : Prop :=
  ∃ sql, insertText tableName data = .ok sql ∧ lex sql = insertStatement name data.members

def UpdateEncodes (tableName : Text) (name : List Token) (data : SQLiteKeyValue)
    (condition : Text) : Prop :=
  ∃ sql, updateText tableName data condition = .ok sql ∧
    lex sql = updateStatement name data.members (lex ([' '] ++ condition ++ [';']))

theorem cString_append {front : Text} (free : nul ∉ front) (z : Text) :
    cString (front ++ z) = front ++ cString z :=
  Search.append_takeWhile_ne free z

theorem cString_eq {sql : Text} (free : nul ∉ sql) : cString sql = sql := by
  have whole := cString_append free []
  rwa [List.append_nil, show cString [] = [] from rfl, List.append_nil] at whole

theorem dark_cons {c : Char} (dark : isSpace c = false) (rest : Text) :
    isSpace ((c :: rest).headD nul) = false := dark

theorem Plain.names {w : Text} (plain : Plain w) : Names w [⟨.word, w⟩] where
  free := plain.free
  dark := plain.dark
  reads rest := tokens_word plain (boundary_cons (by decide) rest)

theorem tokens_keyword {w rest : Text} (plain : Plain w)
    (dark : isSpace (rest.headD nul) = false) :
    tokens (w ++ ' ' :: rest) = ⟨.word, w⟩ :: tokens rest := by
  rw [tokens_word plain (boundary_cons (by decide) rest), tokens_blank dark]

section

variable {tableName : Text} {name : List Token} (names : Names tableName name)

include names

theorem tokens_insert_into (rest : Text) :
    tokens (Sql.insertInto ++ tableName ++ Sql.columnsOpen ++ rest) =
      ⟨.word, Keyword.insert⟩ :: ⟨.word, Keyword.into⟩ ::
        (name ++ ⟨.lp, ['(']⟩ :: tokens rest) := by
  have text : Sql.insertInto ++ tableName ++ Sql.columnsOpen ++ rest =
      Keyword.insert ++ ' ' :: (Keyword.into ++ ' ' :: (tableName ++ ' ' :: '(' :: rest)) := by
    simp [Sql.insertInto, Sql.columnsOpen, Keyword.insert, Keyword.into]
  have into : Plain Keyword.into := by decide
  rw [text, tokens_keyword (by decide) (into.dark _), tokens_keyword into (names.dark _),
    names.reads, tokens_blank (dark_cons (by decide) rest), tokens_lp]

theorem tokens_update {rest : Text} (dark : isSpace (rest.headD nul) = false) :
    tokens (Sql.updateTable ++ tableName ++ Sql.setColumns ++ rest) =
      ⟨.word, Keyword.update⟩ :: (name ++ ⟨.word, Keyword.set⟩ :: tokens rest) := by
  have text : Sql.updateTable ++ tableName ++ Sql.setColumns ++ rest =
      Keyword.update ++ ' ' :: (tableName ++ ' ' :: (Keyword.set ++ ' ' :: rest)) := by
    simp [Sql.updateTable, Sql.setColumns, Keyword.update, Keyword.set]
  have set : Plain Keyword.set := by decide
  rw [text, tokens_keyword (by decide) (names.dark _), names.reads, tokens_blank (set.dark _),
    tokens_keyword set dark]

end

theorem tokens_values (rest : Text) :
    tokens (Sql.valuesOpen ++ rest) =
      ⟨.rp, [')']⟩ :: ⟨.word, Keyword.values⟩ :: ⟨.lp, ['(']⟩ :: tokens rest := by
  have text : Sql.valuesOpen ++ rest =
      ')' :: ' ' :: (Keyword.values ++ ' ' :: '(' :: rest) := rfl
  have values : Plain Keyword.values := by decide
  rw [text, tokens_rp, tokens_blank (values.dark _),
    tokens_keyword values (dark_cons (by decide) rest), tokens_lp]

theorem tokens_where (rest : Text) :
    tokens (Sql.whereText ++ rest) = ⟨.word, Keyword.whereWord⟩ :: tokens (' ' :: rest) := by
  have text : Sql.whereText ++ rest = ' ' :: (Keyword.whereWord ++ ' ' :: rest) := rfl
  have plain : Plain Keyword.whereWord := by decide
  rw [text, tokens_blank (plain.dark _), tokens_word plain (boundary_cons (by decide) rest)]

theorem boundary_values (rest : Text) : Boundary (Sql.valuesOpen ++ rest) :=
  boundary_cons (c := ')') (by decide) _

theorem boundary_where (rest : Text) : Boundary (Sql.whereText ++ rest) :=
  boundary_cons (c := ' ') (by decide) _

theorem boundary_close : Boundary Sql.valuesClose := by
  constructor <;> decide

theorem tokens_close : tokens Sql.valuesClose = [⟨.rp, [')']⟩, ⟨.semi, [';']⟩] := by
  rw [Sql.valuesClose, tokens_rp, tokens_semi]
  rfl

def insertSql (tableName : Text) (members : List (Text × Text)) : Text :=
  Sql.insertInto ++ tableName ++ Sql.columnsOpen ++
    (joined column members ++ (Sql.valuesOpen ++ (joined value members ++ Sql.valuesClose)))

def updateSql (tableName : Text) (members : List (Text × Text)) (condition : Text) : Text :=
  Sql.updateTable ++ tableName ++ Sql.setColumns ++
    (joined assignment members ++ (Sql.whereText ++ (condition ++ [';'])))

theorem insertText_eq (tableName : Text) {data : SQLiteKeyValue} (some : data.members ≠ []) :
    insertText tableName data = .ok (insertSql tableName data.members) := by
  simp only [insertText, dropSeparator_appendItems column some,
    dropSeparator_appendItems value some, insertSql, bind, Except.bind, pure, Except.pure,
    List.append_assoc, List.nil_append]

theorem updateText_eq (tableName : Text) {data : SQLiteKeyValue} (some : data.members ≠ [])
    (condition : Text) :
    updateText tableName data condition = .ok (updateSql tableName data.members condition) := by
  simp only [updateText, dropSeparator_appendItems assignment some, updateSql, bind, Except.bind,
    pure, Except.pure, List.append_assoc]

section

variable {tableName : Text} {name : List Token} {members : List (Text × Text)}
  (names : Names tableName name) (some : members ≠ [])
  (keys : ∀ member ∈ members, Plain member.1) (values : ∀ member ∈ members, nul ∉ member.2)

include names some keys values

theorem lex_insertSql_iff :
    lex (insertSql tableName members) = insertStatement name members ↔
      ∀ member ∈ members, quote ∉ member.2 := by
  have columns : Reads (joined column members) (listed columnTokens members) _ :=
    reads_items some fun member inside => reads_column (keys member inside)
  have literals : Reads (joined value members) (listed valueTokens members) _ :=
    reads_items some fun member inside => reads_value (values member inside)
  have fixed : nul ∉ Sql.insertInto ∧ nul ∉ Sql.columnsOpen ∧ nul ∉ Sql.valuesOpen ∧
      nul ∉ Sql.valuesClose := by decide
  have free : nul ∉ insertSql tableName members := by
    simp only [insertSql, List.mem_append, not_or]
    exact ⟨⟨⟨fixed.1, names.free⟩, fixed.2.1⟩, columns.free, fixed.2.2.1, literals.free,
      fixed.2.2.2⟩
  rw [lex, cString_eq free, insertSql, tokens_insert_into names, insertStatement]
  simp only [List.cons.injEq, true_and, List.append_cancel_left_eq]
  rw [columns.reads _ _ (boundary_values _), tokens_values]
  simp only [List.cons.injEq, true_and]
  rw [literals.reads _ _ boundary_close, tokens_close]
  simp

theorem lex_updateSql_iff (condition : Text) :
    lex (updateSql tableName members condition) =
        updateStatement name members (lex ([' '] ++ condition ++ [';'])) ↔
      ∀ member ∈ members, quote ∉ member.2 := by
  have assignments : Reads (joined assignment members) (listed assignmentTokens members) _ :=
    reads_items some fun member inside =>
      reads_assignment (keys member inside) (values member inside)
  have fixed : nul ∉ Sql.updateTable ∧ nul ∉ Sql.setColumns ∧ nul ∉ Sql.whereText := by decide
  have free : nul ∉ Sql.updateTable ++ tableName ++ Sql.setColumns ++
      (joined assignment members ++ Sql.whereText) := by
    simp only [List.mem_append, not_or]
    exact ⟨⟨⟨fixed.1, names.free⟩, fixed.2.1⟩, assignments.free, fixed.2.2⟩
  have text : updateSql tableName members condition =
      Sql.updateTable ++ tableName ++ Sql.setColumns ++
        (joined assignment members ++ Sql.whereText) ++ (condition ++ [';']) := by
    simp only [updateSql, List.append_assoc]
  have blank : lex ([' '] ++ condition ++ [';']) =
      tokens (' ' :: cString (condition ++ [';'])) := by
    rw [lex, List.append_assoc, cString_append (by decide)]
    rfl
  rw [blank, lex, text, cString_append free, updateStatement, List.append_assoc _ (_ ++ _),
    List.append_assoc (joined _ _), tokens_update names (assignments.dark _)]
  simp only [List.cons.injEq, true_and, List.append_cancel_left_eq]
  rw [assignments.reads _ _ (boundary_where _), tokens_where]
  simp

end

/-- Both texts are read as the statements that they were meant to be, exactly where no value
has a quote in it. -/
theorem encodes_iff_no_quote {tableName : Text} {name : List Token} {data : SQLiteKeyValue}
    (condition : Text) (names : Names tableName name) (some : data.members ≠ [])
    (keys : ∀ member ∈ data.members, Plain member.1)
    (values : ∀ member ∈ data.members, nul ∉ member.2) :
    (InsertEncodes tableName name data ↔ ∀ member ∈ data.members, quote ∉ member.2) ∧
      (UpdateEncodes tableName name data condition ↔
        ∀ member ∈ data.members, quote ∉ member.2) := by
  constructor
  · rw [InsertEncodes, insertText_eq tableName some]
    simpa using lex_insertSql_iff names some keys values
  · rw [UpdateEncodes, updateText_eq tableName some]
    simpa using lex_updateSql_iff names some keys values condition

def users : Text := ['u', 's', 'e', 'r', 's']

def johnDoe : SQLiteKeyValue where
  members := [(['a', 'g', 'e'], ['3', '0']), (['i', 'd'], ['1']),
    (['n', 'a', 'm', 'e'], ['J', 'o', 'h', 'n', ' ', 'D', 'o', 'e'])]
  ordered := by decide

theorem encodes_john_doe :
    InsertEncodes users [⟨.word, users⟩] johnDoe ∧
      UpdateEncodes users [⟨.word, users⟩] johnDoe ['i', 'd', '=', '1'] := by
  have plain : Plain users := by decide
  have some : johnDoe.members ≠ [] := List.cons_ne_nil _ _
  have both := encodes_iff_no_quote ['i', 'd', '=', '1'] plain.names some (by decide) (by decide)
  exact ⟨both.1.mpr (by decide), both.2.mpr (by decide)⟩

def dropUsers : SQLiteKeyValue where
  members := [(['n', 'a', 'm', 'e'],
    ['x', quote, ')', ';', ' ', 'D', 'R', 'O', 'P', ' ', 'T', 'A', 'B', 'L', 'E', ' ', 'u', 's',
      'e', 'r', 's', ';', ' ', '-', '-'])]
  ordered := by decide

/-- The literal ends at the quote in the value, and a second statement is read from it. -/
theorem drop_users_escapes :
    dropUsers.members ≠ [] ∧
      (∀ member ∈ dropUsers.members, Plain member.1 ∧ nul ∉ member.2) ∧
      (∃ sql, insertText users dropUsers = .ok sql ∧
        lex sql = insertStatement [⟨.word, users⟩] [(['n', 'a', 'm', 'e'], ['x'])] ++
          [⟨.word, ['D', 'R', 'O', 'P']⟩, ⟨.word, ['T', 'A', 'B', 'L', 'E']⟩,
            ⟨.word, users⟩, ⟨.semi, [';']⟩]) ∧
      ¬ InsertEncodes users [⟨.word, users⟩] dropUsers ∧
      ¬ UpdateEncodes users [⟨.word, users⟩] dropUsers ['i', 'd', '=', '1'] := by
  have some : dropUsers.members ≠ [] := List.cons_ne_nil _ _
  refine ⟨some, by decide, ⟨_, insertText_eq users some, by decide +kernel⟩, ?_, ?_⟩
  · rintro ⟨sql, built, read⟩
    rw [insertText_eq users some] at built
    cases built
    exact absurd read (by decide +kernel)
  · rintro ⟨sql, built, read⟩
    rw [updateText_eq users some] at built
    cases built
    exact absurd read (by decide +kernel)

end CommonUtils.DataBase
