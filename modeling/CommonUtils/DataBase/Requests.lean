import CommonUtils.DataBase.Encoding
import CommonUtils.DataBase.Query

namespace CommonUtils.DataBase

namespace Sql

def dropTable : Text :=
  ['D', 'R', 'O', 'P', ' ', 'T', 'A', 'B', 'L', 'E', ' ', 'I', 'F', ' ', 'E', 'X', 'I', 'S', 'T',
    'S', ' ']

def deleteFrom : Text := ['D', 'E', 'L', 'E', 'T', 'E', ' ', 'F', 'R', 'O', 'M', ' ']

end Sql

namespace Keyword

def create : Text := ['C', 'R', 'E', 'A', 'T', 'E']

def table : Text := ['T', 'A', 'B', 'L', 'E']

def ifWord : Text := ['I', 'F']

def notWord : Text := ['N', 'O', 'T']

def existsWord : Text := ['E', 'X', 'I', 'S', 'T', 'S']

def drop : Text := ['D', 'R', 'O', 'P']

def delete : Text := ['D', 'E', 'L', 'E', 'T', 'E']

def select : Text := ['S', 'E', 'L', 'E', 'C', 'T']

def fromWord : Text := ['F', 'R', 'O', 'M']

end Keyword

def removeText (tableName condition : Text) : Text :=
  Sql.deleteFrom ++ tableName ++ Sql.whereText ++ condition ++ [';']

def deleteTableText (tableName : Text) : Text := Sql.dropTable ++ tableName ++ [';']

section

variable {σ : Type} (sqlite3_exec : Text → σ → Bool × σ)

def remove (db : σ) (tableName condition : Text) : Bool × σ :=
  sqlite3_exec (cString (removeText tableName condition)) db

def deleteTable (db : σ) (tableName : Text) : Bool × σ :=
  sqlite3_exec (cString (deleteTableText tableName)) db

end

inductive Request where
  | createTable (columns : SQLiteKeyType)
  | deleteTable
  | remove (condition : Text)
  | queryColumnAll
  | queryColumnAllCondition (condition : Text)
  | queryColumn (columns : List Text)
  | queryColumnCondition (columns : List Text) (condition : Text)

def Token.word (w : Text) : Token := ⟨.word, w⟩

def commas (items : List (List Token)) : List Token := [⟨.comma, [',']⟩].intercalate items

def ending : Option Text → Text
  | none => [';']
  | some condition => Sql.whereText ++ (condition ++ [';'])

def fromTokens (tableName : Text) : Option Text → List Token
  | none => [.word Keyword.fromWord, .word tableName, ⟨.semi, [';']⟩]
  | some condition =>
      .word Keyword.fromWord :: .word tableName :: .word Keyword.whereWord ::
        lex ([' '] ++ condition ++ [';'])

inductive Performed (σ : Type) where
  | executed (result : Except StdException (Bool × σ))
  | queried (execution : Execution)

namespace Request

section

variable {σ : Type} (sqlite3_exec : Text → σ → Bool × σ) (sqlite3_prepare_v2 : Text → Prepared)
variable (db : σ)

def perform (tableName : Text) : Request → Performed σ
  | .createTable columns => .executed (DataBase.createTable sqlite3_exec db tableName columns)
  | .deleteTable => .executed (.ok (DataBase.deleteTable sqlite3_exec db tableName))
  | .remove condition => .executed (.ok (DataBase.remove sqlite3_exec db tableName condition))
  | .queryColumnAll => .queried (queryData sqlite3_prepare_v2 tableName)
  | .queryColumnAllCondition condition =>
      .queried (queryDataCondition sqlite3_prepare_v2 tableName condition)
  | .queryColumn columns => .queried (DataBase.queryColumn sqlite3_prepare_v2 tableName columns)
  | .queryColumnCondition columns condition =>
      .queried (DataBase.queryColumnCondition sqlite3_prepare_v2 tableName columns condition)

def submit (sql : Text) : Request → Performed σ
  | .createTable _ | .deleteTable | .remove _ =>
      .executed (.ok (sqlite3_exec (cString sql) db))
  | .queryColumnAll | .queryColumnAllCondition _ | .queryColumn _ | .queryColumnCondition _ _ =>
      .queried (executeQuery sqlite3_prepare_v2 sql)

end

/-- The one statement that the request stands for. A condition is read on its own. -/
def meant (tableName : Text) : Request → List Token
  | .createTable columns =>
      .word Keyword.create :: .word Keyword.table :: .word Keyword.ifWord ::
        .word Keyword.notWord :: .word Keyword.existsWord :: .word tableName :: ⟨.lp, ['(']⟩ ::
          (commas (columns.members.map fun member => [.word member.1, .word member.2.spelling]) ++
            [⟨.rp, [')']⟩, ⟨.semi, [';']⟩])
  | .deleteTable =>
      [.word Keyword.drop, .word Keyword.table, .word Keyword.ifWord, .word Keyword.existsWord,
        .word tableName, ⟨.semi, [';']⟩]
  | .remove condition => .word Keyword.delete :: fromTokens tableName (some condition)
  | .queryColumnAll => .word Keyword.select :: ⟨.star, ['*']⟩ :: fromTokens tableName none
  | .queryColumnAllCondition condition =>
      .word Keyword.select :: ⟨.star, ['*']⟩ :: fromTokens tableName (some condition)
  | .queryColumn columns =>
      .word Keyword.select :: (commas (columns.map fun column => [.word column]) ++
        fromTokens tableName none)
  | .queryColumnCondition columns condition =>
      .word Keyword.select :: (commas (columns.map fun column => [.word column]) ++
        fromTokens tableName (some condition))

def Plainly : Request → Prop
  | .createTable columns => columns.members ≠ [] ∧ ∀ member ∈ columns.members, Plain member.1
  | .queryColumn columns | .queryColumnCondition columns _ =>
      columns ≠ [] ∧ ∀ column ∈ columns, Plain column
  | .deleteTable | .remove _ | .queryColumnAll | .queryColumnAllCondition _ => True

end Request

theorem tokens_star (rest : Text) : tokens ('*' :: rest) = ⟨.star, ['*']⟩ :: tokens rest :=
  tokens_mark rfl (by decide) (by decide) (by decide)

theorem tokens_condition (condition : Text) :
    tokens (cString (ending (some condition))) =
      .word Keyword.whereWord :: lex ([' '] ++ condition ++ [';']) := by
  have blank : lex ([' '] ++ condition ++ [';']) =
      tokens (' ' :: cString (condition ++ [';'])) := by
    rw [lex, List.append_assoc, cString_append (by decide)]
    rfl
  rw [blank, ending, cString_append (by decide), tokens_where]
  rfl

theorem boundary_ending (condition : Option Text) : Boundary (cString (ending condition)) := by
  cases condition with
  | none => exact boundary_cons (c := ';') (by decide) []
  | some condition =>
      rw [ending, cString_append (by decide)]
      exact boundary_where _

section

variable {tableName : Text} (plain : Plain tableName)

include plain

theorem tokens_table {w : Text} (keyword : Plain w) (condition : Option Text) :
    tokens (w ++ ' ' :: (tableName ++ cString (ending condition))) =
      .word w :: .word tableName :: tokens (cString (ending condition)) := by
  rw [tokens_keyword keyword (plain.dark _), tokens_word plain (boundary_ending condition)]
  rfl

theorem tokens_from (condition : Option Text) :
    tokens (Keyword.fromWord ++ ' ' :: (tableName ++ cString (ending condition))) =
      fromTokens tableName condition := by
  rw [tokens_table plain (by decide)]
  cases condition with
  | none =>
      have close : cString (ending none) = [';'] := rfl
      rw [close, tokens_semi]
      rfl
  | some condition =>
      rw [tokens_condition]
      rfl

theorem lex_select {items : Text} {read : List Token} (reads : Reads items read True)
    (condition : Option Text) :
    lex (Sql.select ++ items ++ Sql.fromTable ++ tableName ++ ending condition) =
      .word Keyword.select :: (read ++ fromTokens tableName condition) := by
  have select : Plain Keyword.select := by decide
  have fromWord : Plain Keyword.fromWord := by decide
  have fixed : nul ∉ Sql.select ∧ nul ∉ Sql.fromTable := by decide
  have free : nul ∉ Sql.select ++ items ++ Sql.fromTable ++ tableName := by
    simp only [List.mem_append, not_or]
    exact ⟨⟨⟨fixed.1, reads.free⟩, fixed.2⟩, plain.free⟩
  have text (rest : Text) : Sql.select ++ items ++ Sql.fromTable ++ tableName ++ rest =
      Keyword.select ++ ' ' ::
        (items ++ ' ' :: (Keyword.fromWord ++ ' ' :: (tableName ++ rest))) := by
    simp [Sql.select, Sql.fromTable, Keyword.select, Keyword.fromWord]
  have items_read (rest : Text) : tokens (items ++ ' ' :: rest) = read ++ tokens (' ' :: rest) :=
    (reads.reads _ _ (boundary_cons (by decide) rest)).mpr ⟨trivial, rfl⟩
  rw [lex, cString_append free, text, tokens_keyword select (reads.dark _), items_read,
    tokens_blank (fromWord.dark _), tokens_from plain]
  rfl

theorem lex_remove (condition : Text) :
    lex (removeText tableName condition) =
      .word Keyword.delete :: fromTokens tableName (some condition) := by
  have fromWord : Plain Keyword.fromWord := by decide
  have fixed : nul ∉ Sql.deleteFrom := by decide
  have free : nul ∉ Sql.deleteFrom ++ tableName := by
    simp [fixed, plain.free]
  have text : removeText tableName condition =
      Sql.deleteFrom ++ tableName ++ ending (some condition) := by
    simp [removeText, ending]
  have front (rest : Text) : Sql.deleteFrom ++ tableName ++ rest =
      Keyword.delete ++ ' ' :: (Keyword.fromWord ++ ' ' :: (tableName ++ rest)) := rfl
  rw [lex, text, cString_append free, front, tokens_keyword (by decide) (fromWord.dark _),
    tokens_from plain]
  rfl

theorem lex_deleteTable :
    lex (deleteTableText tableName) = Request.meant tableName .deleteTable := by
  have table : Plain Keyword.table := by decide
  have ifWord : Plain Keyword.ifWord := by decide
  have existsWord : Plain Keyword.existsWord := by decide
  have fixed : nul ∉ Sql.dropTable := by decide
  have free : nul ∉ Sql.dropTable ++ tableName := by
    simp [fixed, plain.free]
  have front (rest : Text) : Sql.dropTable ++ tableName ++ rest =
      Keyword.drop ++ ' ' :: (Keyword.table ++ ' ' :: (Keyword.ifWord ++ ' ' ::
        (Keyword.existsWord ++ ' ' :: (tableName ++ rest)))) := rfl
  have close : cString [';'] = cString (ending none) := rfl
  rw [lex, deleteTableText, cString_append free, front, close,
    tokens_keyword (by decide) (table.dark _), tokens_keyword table (ifWord.dark _),
    tokens_keyword ifWord (existsWord.dark _), tokens_table plain existsWord]
  rfl

theorem lex_createTable {definitions : Text} {read : List Token}
    (reads : Reads definitions read True) :
    lex (Sql.createTable ++ tableName ++ Sql.columnsOpen ++ definitions ++ Sql.valuesClose) =
      .word Keyword.create :: .word Keyword.table :: .word Keyword.ifWord ::
        .word Keyword.notWord :: .word Keyword.existsWord :: .word tableName :: ⟨.lp, ['(']⟩ ::
          (read ++ [⟨.rp, [')']⟩, ⟨.semi, [';']⟩]) := by
  have table : Plain Keyword.table := by decide
  have ifWord : Plain Keyword.ifWord := by decide
  have notWord : Plain Keyword.notWord := by decide
  have existsWord : Plain Keyword.existsWord := by decide
  have fixed : nul ∉ Sql.createTable ∧ nul ∉ Sql.columnsOpen ∧ nul ∉ Sql.valuesClose := by decide
  have free :
      nul ∉ Sql.createTable ++ tableName ++ Sql.columnsOpen ++ definitions ++ Sql.valuesClose := by
    simp only [List.mem_append, not_or]
    exact ⟨⟨⟨⟨fixed.1, plain.free⟩, fixed.2.1⟩, reads.free⟩, fixed.2.2⟩
  have front (rest : Text) : Sql.createTable ++ tableName ++ Sql.columnsOpen ++ rest =
      Keyword.create ++ ' ' :: (Keyword.table ++ ' ' :: (Keyword.ifWord ++ ' ' ::
        (Keyword.notWord ++ ' ' ::
          (Keyword.existsWord ++ ' ' :: (tableName ++ ' ' :: '(' :: rest))))) := by
    simp [Sql.createTable, Sql.columnsOpen, Keyword.create, Keyword.table, Keyword.ifWord,
      Keyword.notWord, Keyword.existsWord]
  have definitions_read : tokens (definitions ++ Sql.valuesClose) =
      read ++ tokens Sql.valuesClose := (reads.reads _ _ boundary_close).mpr ⟨trivial, rfl⟩
  rw [lex, cString_eq free, List.append_assoc, front,
    tokens_keyword (by decide) (table.dark _), tokens_keyword table (ifWord.dark _),
    tokens_keyword ifWord (notWord.dark _), tokens_keyword notWord (existsWord.dark _),
    tokens_keyword existsWord (plain.dark _), tokens_word plain (boundary_cons (by decide) _),
    tokens_blank (dark_cons (by decide) _), tokens_lp, definitions_read, tokens_close]
  rfl

end

theorem reads_star : Reads ['*'] [⟨.star, ['*']⟩] True where
  free := by decide
  dark rest := dark_cons (by decide) rest
  reads rest more boundary := by
    rw [List.singleton_append, tokens_star, List.singleton_append, List.cons.injEq]
    simp

theorem Reads.always {text : Text} {read : List Token} {good : Prop}
    (reads : Reads text read good) (holds : good) : Reads text read True where
  free := reads.free
  dark := reads.dark
  reads rest more boundary := by
    rw [reads.reads rest more boundary]
    exact and_congr_left fun _ => iff_true_intro holds

theorem Plain.reads {w : Text} (plain : Plain w) : Reads w [.word w] True where
  free := plain.free
  dark := plain.dark
  reads rest more boundary := by
    rw [tokens_word plain boundary, List.singleton_append, Token.word, List.cons.injEq]
    simp

theorem plain_spelling (dataType : SQLiteDataType) : Plain dataType.spelling := by
  cases dataType <;> decide

theorem reads_definition {member : Text × SQLiteDataType} (plain : Plain member.1) :
    Reads (definition member) [.word member.1, .word member.2.spelling] True where
  free := by
    have other : nul ≠ ' ' := by decide
    simp [definition, plain.free, (plain_spelling member.2).free, other]
  dark rest := by
    rw [definition, List.append_assoc]
    exact plain.dark _
  reads rest more boundary := by
    have spelled := plain_spelling member.2
    rw [definition, List.append_assoc, List.cons_append, tokens_keyword plain (spelled.dark _),
      tokens_word spelled boundary, List.cons_append, List.singleton_append, Token.word,
      Token.word, List.cons.injEq, List.cons.injEq]
    simp

theorem reads_columns {columns : List Text} (some : columns ≠ [])
    (plain : ∀ column ∈ columns, Plain column) :
    Reads (joinAll id columns) (commas (columns.map fun column => [.word column])) True :=
  (reads_joinAll some fun column here => (plain column here).reads).always fun _ _ => trivial

/-- What a request gives SQLite to execute, or to prepare, is the one statement that it stands
for. -/
theorem request_read {σ : Type} (sqlite3_exec : Text → σ → Bool × σ)
    (sqlite3_prepare_v2 : Text → Prepared) (db : σ) {tableName : Text} (plain : Plain tableName)
    {request : Request} (plainly : request.Plainly) :
    ∃ sql, request.perform sqlite3_exec sqlite3_prepare_v2 db tableName =
        request.submit sqlite3_exec sqlite3_prepare_v2 db sql ∧
      lex sql = request.meant tableName := by
  cases request with
  | createTable columns =>
      have reads := (reads_joinAll plainly.1 fun member here =>
        reads_definition (plainly.2 member here)).always fun _ _ => trivial
      refine ⟨_, ?_, lex_createTable plain reads⟩
      simp only [Request.perform, Request.submit, createTable, createTableText,
        dropSeparator_appendAll definition plainly.1, bind, Except.bind, pure, Except.pure]
  | deleteTable => exact ⟨_, rfl, lex_deleteTable plain⟩
  | remove condition => exact ⟨_, rfl, lex_remove plain condition⟩
  | queryColumnAll => exact ⟨_, rfl, lex_select plain reads_star none⟩
  | queryColumnAllCondition condition =>
      refine ⟨_, rfl, ?_⟩
      have text : Sql.select ++ '*' :: Sql.fromTable ++ tableName ++ Sql.whereText ++ condition ++
          [';'] = Sql.select ++ ['*'] ++ Sql.fromTable ++ tableName ++ ending (some condition) := by
        simp [ending]
      rw [text]
      exact lex_select plain reads_star (some condition)
  | queryColumn columns =>
      have reads := reads_columns plainly.1 plainly.2
      refine ⟨_, ?_, lex_select plain reads none⟩
      simp only [Request.perform, Request.submit, queryColumn, queryColumnText, executeBuilt,
        dropSeparator_appendAll id plainly.1, bind, Except.bind, pure, Except.pure,
        List.append_assoc]
      rfl
  | queryColumnCondition columns condition =>
      have reads := reads_columns plainly.1 plainly.2
      refine ⟨_, ?_, lex_select plain reads (some condition)⟩
      simp only [Request.perform, Request.submit, queryColumnCondition,
        queryColumnConditionText, executeBuilt, dropSeparator_appendAll id plainly.1, bind,
        Except.bind, pure, Except.pure, List.append_assoc, ending]

/-- Two columns of the rows that meet a condition, and a database that has none. -/
theorem request_read_two :
    ∃ sql, (Request.queryColumnCondition [['i', 'd'], ['a', 'g', 'e']] ['i', 'd', '=', '1']).perform
        (fun _ db => (true, db)) (fun _ => .statement ⟨[], .last SQLITE_DONE (by decide)⟩) ()
        users =
        .queried (executeQuery (fun _ => .statement ⟨[], .last SQLITE_DONE (by decide)⟩) sql) ∧
      lex sql = [.word Keyword.select, .word ['i', 'd'], ⟨.comma, [',']⟩, .word ['a', 'g', 'e'],
        .word Keyword.fromWord, .word users, .word Keyword.whereWord, .word ['i', 'd'],
        ⟨.eq, ['=']⟩, ⟨.integer, ['1']⟩, ⟨.semi, [';']⟩] := by
  have plainly : (Request.queryColumnCondition [['i', 'd'], ['a', 'g', 'e']]
      ['i', 'd', '=', '1']).Plainly := ⟨by decide, by decide⟩
  rcases request_read (fun _ db => (true, db))
    (fun _ => .statement ⟨[], .last SQLITE_DONE (by decide)⟩) ()
    (by decide : Plain users) plainly with ⟨sql, given, read⟩
  refine ⟨sql, given, read.trans ?_⟩
  decide +kernel

end CommonUtils.DataBase
