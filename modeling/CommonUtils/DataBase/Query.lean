import CommonUtils.DataBase.Lists

/-! `Model::ExecuteQuery` and the queries over it. What SQLite makes of a text is a
parameter: a statement, with the rows that stepping through it gives and the code that the
stepping ends with. -/

namespace CommonUtils.DataBase

def SQLITE_ROW : Int := 100

def SQLITE_DONE : Int := 101

/-- What the calls of `sqlite3_step` give from some point on: `SQLITE_ROW` so many times and
then another code. At a row `sqlite3_column_text` gives a text or null for each column. -/
inductive Steps where
  | row (columnText : Nat → Option Text) (later : Steps)
  | last (code : Int) (other : code ≠ SQLITE_ROW)

namespace Steps

def rows : Steps → List (Nat → Option Text)
  | .row columnText later => columnText :: later.rows
  | .last _ _ => []

def ending : Steps → Int
  | .row _ later => later.ending
  | .last code _ => code

end Steps

structure Statement where
  columnNames : List Text
  steps : Steps

inductive Prepared where
  | statement (stmt : Statement)
  | failed (errmsg : Text)

inductive QueryException where
  | runtimeError (what : Text)
  | std (exception : StdException)
  deriving DecidableEq

abbrev SQLiteQueryResult := List SQLiteKeyValue

structure Execution where
  result : Except QueryException SQLiteQueryResult
  finalized : Nat

namespace SQLiteKeyValue

def empty : SQLiteKeyValue := ⟨[], List.Pairwise.nil⟩

def assign (row : SQLiteKeyValue) (key value : Text) : SQLiteKeyValue where
  members := Members.assign key value row.members
  ordered := Members.Ordered.assign row.ordered key value

end SQLiteKeyValue

/-- The loop over the columns. A null becomes an empty text. -/
def readRow (columnNames : List Text) (columnText : Nat → Option Text) : SQLiteKeyValue :=
  columnNames.zipIdx.foldl
    (fun row (columnName, i) =>
      row.assign (cString columnName) (((columnText i).map cString).getD []))
    .empty

def fetch (columnNames : List Text) (result : SQLiteQueryResult) : Steps → SQLiteQueryResult
  | .row columnText later => fetch columnNames (result ++ [readRow columnNames columnText]) later
  | .last _ _ => result

def prepareFailed : Text := "Failed to prepare statement: ".toList

section

variable (sqlite3_prepare_v2 : Text → Prepared)

def executeQuery (sql : Text) : Execution :=
  match sqlite3_prepare_v2 (cString sql) with
  | .failed errmsg =>
      { result := .error (.runtimeError (prepareFailed ++ errmsg)), finalized := 0 }
  | .statement stmt => { result := .ok (fetch stmt.columnNames [] stmt.steps), finalized := 1 }

def queryColumnAll (tableName : Text) : Execution :=
  executeQuery sqlite3_prepare_v2 (Sql.select ++ '*' :: Sql.fromTable ++ tableName ++ [';'])

def queryColumnAllCondition (tableName condition : Text) : Execution :=
  executeQuery sqlite3_prepare_v2
    (Sql.select ++ '*' :: Sql.fromTable ++ tableName ++ Sql.whereText ++ condition ++ [';'])

def executeBuilt : Except StdException Text → Execution
  | .ok sql => executeQuery sqlite3_prepare_v2 sql
  | .error exception => { result := .error (.std exception), finalized := 0 }

def queryColumn (tableName : Text) (columns : List Text) : Execution :=
  executeBuilt sqlite3_prepare_v2 (queryColumnText tableName columns)

def queryColumnCondition (tableName : Text) (columns : List Text) (condition : Text) :
    Execution :=
  executeBuilt sqlite3_prepare_v2 (queryColumnConditionText tableName columns condition)

def queryData (tableName : Text) : Execution := queryColumnAll sqlite3_prepare_v2 tableName

def queryDataCondition (tableName condition : Text) : Execution :=
  queryColumnAllCondition sqlite3_prepare_v2 tableName condition

end

/-- A result is returned only behind the last row, one entry for each row; anything else is
thrown, and the statement is finalized once. -/
structure Complete (stmt : Statement) (execution : Execution) : Prop where
  returns_iff : execution.result.isOk ↔ stmt.steps.ending = SQLITE_DONE
  rows : ∀ result, execution.result = .ok result →
    result = stmt.steps.rows.map (readRow stmt.columnNames)
  finalized : execution.finalized = 1

theorem fetch_eq (columnNames : List Text) (result : SQLiteQueryResult) (steps : Steps) :
    fetch columnNames result steps = result ++ steps.rows.map (readRow columnNames) := by
  induction steps generalizing result with
  | row columnText later ih =>
      calc
        fetch columnNames result (.row columnText later) =
            fetch columnNames (result ++ [readRow columnNames columnText]) later := rfl
        _ = result ++ [readRow columnNames columnText] ++
            later.rows.map (readRow columnNames) := ih _
        _ = result ++ (Steps.row columnText later).rows.map (readRow columnNames) := by
          rw [List.append_assoc]
          rfl
  | last code other => exact (List.append_nil result).symm

variable {sqlite3_prepare_v2 : Text → Prepared} {sql : Text} {stmt : Statement}

theorem executeQuery_prepared (prepared : sqlite3_prepare_v2 (cString sql) = .statement stmt) :
    executeQuery sqlite3_prepare_v2 sql =
      { result := .ok (stmt.steps.rows.map (readRow stmt.columnNames)), finalized := 1 } := by
  rw [executeQuery, prepared]
  simp only [fetch_eq, List.nil_append]

theorem executeQuery_complete_iff
    (prepared : sqlite3_prepare_v2 (cString sql) = .statement stmt) :
    Complete stmt (executeQuery sqlite3_prepare_v2 sql) ↔ stmt.steps.ending = SQLITE_DONE := by
  rw [executeQuery_prepared prepared]
  constructor
  · intro complete
    exact complete.returns_iff.mp rfl
  · intro done
    constructor
    · exact iff_of_true rfl done
    · intro result returned
      cases returned
      rfl
    · rfl

def oneRow (code : Int) (other : code ≠ SQLITE_ROW) : Statement where
  columnNames := [['a']]
  steps := .row (fun _ => none) (.last code other)

theorem executeQuery_complete_done :
    Complete (oneRow SQLITE_DONE (by decide))
      (executeQuery (fun _ => .statement (oneRow SQLITE_DONE (by decide))) Sql.select) :=
  (executeQuery_complete_iff rfl).mpr rfl

/-- `SQLITE_BUSY` behind the first row. -/
theorem busy_truncates :
    ¬ ∀ (sqlite3_prepare_v2 : Text → Prepared) (sql : Text) (stmt : Statement),
      sqlite3_prepare_v2 (cString sql) = .statement stmt →
        Complete stmt (executeQuery sqlite3_prepare_v2 sql) := by
  intro always
  have complete := always (fun _ => .statement (oneRow 5 (by decide))) Sql.select _ rfl
  exact absurd (complete.returns_iff.mp rfl) (by decide)

end CommonUtils.DataBase
