import CommonUtils.DataBase.Tokenizer
import CommonUtils.Library.Members
import Mathlib.Data.Char
import Mathlib.Data.List.Lex

namespace CommonUtils.DataBase

structure SQLiteKeyValue where
  members : List (Text × Text)
  ordered : Members.Ordered members

inductive StdException where
  | lengthError
  deriving DecidableEq

def separator : Text := [',', ' ']

/-- `sql.resize(sql.length() - 2)`. Below two characters the difference wraps around, and
`resize` throws where the length is past `max_size()`. -/
def dropSeparator (sql : Text) : Except StdException Text :=
  if sql.length < 2 then .error .lengthError else .ok (sql.take (sql.length - 2))

def column (member : Text × Text) : Text := member.1

def value (member : Text × Text) : Text := [quote] ++ member.2 ++ [quote]

def assignment (member : Text × Text) : Text :=
  member.1 ++ ['=', quote] ++ member.2 ++ [quote]

def appendItems (item : Text × Text → Text) (sql : Text) (members : List (Text × Text)) : Text :=
  members.foldl (fun sql member => sql ++ item member ++ separator) sql

namespace Sql

def insertInto : Text := ['I', 'N', 'S', 'E', 'R', 'T', ' ', 'I', 'N', 'T', 'O', ' ']

def columnsOpen : Text := [' ', '(']

def valuesOpen : Text := [')', ' ', 'V', 'A', 'L', 'U', 'E', 'S', ' ', '(']

def valuesClose : Text := [')', ';']

def updateTable : Text := ['U', 'P', 'D', 'A', 'T', 'E', ' ']

def setColumns : Text := [' ', 'S', 'E', 'T', ' ']

def whereText : Text := [' ', 'W', 'H', 'E', 'R', 'E', ' ']

end Sql

def insertText (tableName : Text) (data : SQLiteKeyValue) : Except StdException Text := do
  let columns ← dropSeparator (appendItems column [] data.members)
  let values ← dropSeparator (appendItems value [] data.members)
  return Sql.insertInto ++ tableName ++ Sql.columnsOpen ++ columns ++ Sql.valuesOpen ++ values ++
    Sql.valuesClose

def updateText (tableName : Text) (data : SQLiteKeyValue) (condition : Text) :
    Except StdException Text := do
  let sql ← dropSeparator
    (appendItems assignment (Sql.updateTable ++ tableName ++ Sql.setColumns) data.members)
  return sql ++ Sql.whereText ++ condition ++ [';']

section

variable {σ : Type} (sqlite3_exec : Text → σ → Bool × σ)

/-- The result of `sqlite3_exec` is whether it was `SQLITE_OK`. -/
def insert (db : σ) (tableName : Text) (data : SQLiteKeyValue) :
    Except StdException (Bool × σ) := do
  let sql ← insertText tableName data
  return sqlite3_exec (cString sql) db

def update (db : σ) (tableName : Text) (data : SQLiteKeyValue) (condition : Text) :
    Except StdException (Bool × σ) := do
  let sql ← updateText tableName data condition
  return sqlite3_exec (cString sql) db

end

end CommonUtils.DataBase
