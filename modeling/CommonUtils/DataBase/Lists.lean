import CommonUtils.DataBase.Model

namespace CommonUtils.DataBase

inductive SQLiteDataType where
  | integer
  | real
  | text
  | blob
  | none
  deriving DecidableEq

structure SQLiteKeyType where
  members : List (Text × SQLiteDataType)
  ordered : Members.Ordered members

def SQLiteDataType.spelling : SQLiteDataType → Text
  | .text => ['T', 'E', 'X', 'T']
  | .integer => ['I', 'N', 'T', 'E', 'G', 'E', 'R']
  | .real => ['R', 'E', 'A', 'L']
  | .blob => ['B', 'L', 'O', 'B']
  | .none => ['N', 'U', 'L', 'L']

def definition (member : Text × SQLiteDataType) : Text := member.1 ++ ' ' :: member.2.spelling

def appendAll {α : Type} (item : α → Text) (sql : Text) (items : List α) : Text :=
  items.foldl (fun sql x => sql ++ item x ++ separator) sql

def joinAll {α : Type} (item : α → Text) (items : List α) : Text :=
  separator.intercalate (items.map item)

namespace Sql

def createTable : Text :=
  ['C', 'R', 'E', 'A', 'T', 'E', ' ', 'T', 'A', 'B', 'L', 'E', ' ', 'I', 'F', ' ', 'N', 'O', 'T',
    ' ', 'E', 'X', 'I', 'S', 'T', 'S', ' ']

def select : Text := ['S', 'E', 'L', 'E', 'C', 'T', ' ']

def fromTable : Text := [' ', 'F', 'R', 'O', 'M', ' ']

end Sql

def createTableText (tableName : Text) (columns : SQLiteKeyType) : Except StdException Text := do
  let sql ← dropSeparator
    (appendAll definition (Sql.createTable ++ tableName ++ Sql.columnsOpen) columns.members)
  return sql ++ Sql.valuesClose

def queryColumnText (tableName : Text) (columns : List Text) : Except StdException Text := do
  let sql ← dropSeparator (appendAll id Sql.select columns)
  return sql ++ (Sql.fromTable ++ tableName ++ [';'])

def queryColumnConditionText (tableName : Text) (columns : List Text) (condition : Text) :
    Except StdException Text := do
  let sql ← dropSeparator (appendAll id Sql.select columns)
  return sql ++ (Sql.fromTable ++ tableName ++ Sql.whereText ++ condition ++ [';'])

def createTable {σ : Type} (sqlite3_exec : Text → σ → Bool × σ) (db : σ) (tableName : Text)
    (columns : SQLiteKeyType) : Except StdException (Bool × σ) := do
  let sql ← createTableText tableName columns
  return sqlite3_exec (cString sql) db

section

variable {α : Type} (item : α → Text)

theorem appendAll_eq {items : List α} (some : items ≠ []) (sql : Text) :
    appendAll item sql items = sql ++ joinAll item items ++ separator := by
  induction items generalizing sql with
  | nil => exact absurd rfl some
  | cons x rest ih =>
      cases rest with
      | nil => simp [appendAll, joinAll, List.intercalate_singleton]
      | cons next rest =>
          calc
            appendAll item sql (x :: next :: rest) =
                appendAll item (sql ++ item x ++ separator) (next :: rest) := rfl
            _ = sql ++ item x ++ separator ++ joinAll item (next :: rest) ++ separator :=
              ih (List.cons_ne_nil _ _) _
            _ = sql ++ joinAll item (x :: next :: rest) ++ separator := by
              simp only [joinAll, List.map_cons, List.intercalate_cons_cons, List.append_assoc]

theorem dropSeparator_append (sql : Text) : dropSeparator (sql ++ separator) = .ok sql := by
  have two : separator.length = 2 := rfl
  rw [dropSeparator, List.length_append, if_neg (by omega), two, Nat.add_sub_cancel,
    List.take_left]

theorem dropSeparator_appendAll {items : List α} (some : items ≠ []) (sql : Text) :
    dropSeparator (appendAll item sql items) = .ok (sql ++ joinAll item items) := by
  rw [appendAll_eq item some]
  exact dropSeparator_append _

theorem dropSeparator_front_iff (items : List α) {front : Text} (long : 2 ≤ front.length)
    (back : Text) :
    (dropSeparator (appendAll item front items)).map (· ++ back) =
        .ok (front ++ joinAll item items ++ back) ↔ items ≠ [] := by
  constructor
  · rintro exact_text rfl
    have cut : dropSeparator (appendAll item front []) = .ok (front.take (front.length - 2)) :=
      if_neg (Nat.not_lt.mpr long)
    rw [cut, Except.map, Except.ok.injEq] at exact_text
    have lengths := congrArg List.length exact_text
    simp only [joinAll, List.map_nil, List.intercalate_nil, List.length_append, List.length_take,
      List.length_nil] at lengths
    omega
  · intro some
    rw [dropSeparator_appendAll item some]
    rfl

theorem length_le_appendAll (items : List α) (sql : Text) :
    sql.length ≤ (appendAll item sql items).length := by
  induction items generalizing sql with
  | nil => exact Nat.le_refl _
  | cons x rest ih =>
      have later := ih (sql ++ item x ++ separator)
      simp only [List.length_append] at later
      calc
        sql.length ≤ (appendAll item (sql ++ item x ++ separator) rest).length := by omega
        _ = (appendAll item sql (x :: rest)).length := rfl

end

theorem bind_return (result : Except StdException Text) (back : Text) :
    (do let sql ← result; return sql ++ back) = result.map (· ++ back) := by
  cases result <;> rfl

theorem length_of_dropSeparator {sql cut : Text} (cuts : dropSeparator sql = .ok cut) :
    2 ≤ sql.length := by
  unfold dropSeparator at cuts
  split at cuts
  · cases cuts
  · omega

inductive ListOperation where
  | createTable (tableName : Text) (columns : SQLiteKeyType)
  | insert (tableName : Text) (data : SQLiteKeyValue)
  | update (tableName : Text) (data : SQLiteKeyValue) (condition : Text)
  | queryColumn (tableName : Text) (columns : List Text)
  | queryColumnCondition (tableName : Text) (columns : List Text) (condition : Text)

namespace ListOperation

def text : ListOperation → Except StdException Text
  | .createTable tableName columns => createTableText tableName columns
  | .insert tableName data => insertText tableName data
  | .update tableName data condition => updateText tableName data condition
  | .queryColumn tableName columns => queryColumnText tableName columns
  | .queryColumnCondition tableName columns condition =>
      queryColumnConditionText tableName columns condition

def resized : ListOperation → List Text
  | .createTable tableName columns =>
      [appendAll definition (Sql.createTable ++ tableName ++ Sql.columnsOpen) columns.members]
  | .insert _ data => [appendItems column [] data.members, appendItems value [] data.members]
  | .update tableName data _ =>
      [appendItems assignment (Sql.updateTable ++ tableName ++ Sql.setColumns) data.members]
  | .queryColumn _ columns | .queryColumnCondition _ columns _ =>
      [appendAll id Sql.select columns]

def statement : ListOperation → Text
  | .createTable tableName columns =>
      Sql.createTable ++ tableName ++ Sql.columnsOpen ++ joinAll definition columns.members ++
        Sql.valuesClose
  | .insert tableName data =>
      Sql.insertInto ++ tableName ++ Sql.columnsOpen ++ joinAll column data.members ++
        Sql.valuesOpen ++ joinAll value data.members ++ Sql.valuesClose
  | .update tableName data condition =>
      Sql.updateTable ++ tableName ++ Sql.setColumns ++ joinAll assignment data.members ++
        Sql.whereText ++ condition ++ [';']
  | .queryColumn tableName columns =>
      Sql.select ++ joinAll id columns ++ Sql.fromTable ++ tableName ++ [';']
  | .queryColumnCondition tableName columns condition =>
      Sql.select ++ joinAll id columns ++ Sql.fromTable ++ tableName ++ Sql.whereText ++
        condition ++ [';']

def size : ListOperation → Nat
  | .createTable _ columns => columns.members.length
  | .insert _ data => data.members.length
  | .update _ data _ => data.members.length
  | .queryColumn _ columns => columns.length
  | .queryColumnCondition _ columns _ => columns.length

def call {σ : Type} (sqlite3_exec : Text → σ → Bool × σ) (db : σ) :
    ListOperation → Option (Except StdException (Bool × σ))
  | .createTable tableName columns =>
      some (DataBase.createTable sqlite3_exec db tableName columns)
  | .insert tableName data => some (DataBase.insert sqlite3_exec db tableName data)
  | .update tableName data condition =>
      some (DataBase.update sqlite3_exec db tableName data condition)
  | .queryColumn _ _ => none
  | .queryColumnCondition _ _ _ => none

end ListOperation

/-- The items are joined and nothing else is cut off, no length underflows, and an operation
that returns a `bool` returns one. -/
structure ExactAndTotal (operation : ListOperation) : Prop where
  joins : operation.text = .ok operation.statement
  fits : ∀ sql ∈ operation.resized, 2 ≤ sql.length
  returns : ∀ {σ : Type} (sqlite3_exec : Text → σ → Bool × σ) (db : σ) (exception : StdException),
    operation.call sqlite3_exec db ≠ some (.error exception)

theorem exactAndTotal_front {α : Type} (item : α → Text) (items : List α) (front back : Text)
    {operation : ListOperation} (long : 2 ≤ front.length)
    (built : operation.resized = [appendAll item front items])
    (text : operation.text = (dropSeparator (appendAll item front items)).map (· ++ back))
    (statement : operation.statement = front ++ joinAll item items ++ back)
    (returns : ∀ {σ : Type} (sqlite3_exec : Text → σ → Bool × σ) (db : σ) (sql : Text)
      (exception : StdException), operation.text = .ok sql →
        operation.call sqlite3_exec db ≠ some (.error exception)) :
    ExactAndTotal operation ↔ items ≠ [] := by
  have grown : 2 ≤ (appendAll item front items).length :=
    Nat.le_trans long (length_le_appendAll item items front)
  have joins : operation.text = .ok operation.statement ↔ items ≠ [] := by
    rw [text, statement]
    exact dropSeparator_front_iff item items long back
  constructor
  · intro total
    exact joins.mp total.joins
  · intro some
    constructor
    · exact joins.mpr some
    · rw [built]
      exact List.forall_mem_singleton.mpr grown
    · intro σ sqlite3_exec db exception
      exact returns sqlite3_exec db _ exception (joins.mpr some)

theorem createTable_exact (tableName : Text) (columns : SQLiteKeyType) :
    ExactAndTotal (.createTable tableName columns) ↔ columns.members ≠ [] := by
  apply exactAndTotal_front definition columns.members
    (Sql.createTable ++ tableName ++ Sql.columnsOpen) Sql.valuesClose
  · simp [Sql.createTable]
  · rfl
  · exact bind_return _ _
  · rfl
  · intro σ sqlite3_exec db sql exception built failed
    have built : createTableText tableName columns = .ok sql := built
    simp [ListOperation.call, createTable, built, bind, Except.bind, pure, Except.pure] at failed

theorem update_exact (tableName : Text) (data : SQLiteKeyValue) (condition : Text) :
    ExactAndTotal (.update tableName data condition) ↔ data.members ≠ [] := by
  apply exactAndTotal_front assignment data.members
    (Sql.updateTable ++ tableName ++ Sql.setColumns) (Sql.whereText ++ condition ++ [';'])
  · simp [Sql.updateTable]
  · rfl
  · simp only [ListOperation.text, updateText, List.append_assoc]
    exact bind_return _ _
  · simp only [ListOperation.statement, List.append_assoc]
  · intro σ sqlite3_exec db sql exception built failed
    have built : updateText tableName data condition = .ok sql := built
    simp [ListOperation.call, update, built, bind, Except.bind, pure, Except.pure] at failed

theorem queryColumn_exact (tableName : Text) (columns : List Text) :
    ExactAndTotal (.queryColumn tableName columns) ↔ columns ≠ [] := by
  apply exactAndTotal_front id columns Sql.select (Sql.fromTable ++ tableName ++ [';'])
  · simp [Sql.select]
  · rfl
  · exact bind_return _ _
  · simp only [ListOperation.statement, List.append_assoc]
  · intro σ sqlite3_exec db sql exception built failed
    cases failed

theorem queryColumnCondition_exact (tableName : Text) (columns : List Text) (condition : Text) :
    ExactAndTotal (.queryColumnCondition tableName columns condition) ↔ columns ≠ [] := by
  apply exactAndTotal_front id columns Sql.select
    (Sql.fromTable ++ tableName ++ Sql.whereText ++ condition ++ [';'])
  · simp [Sql.select]
  · rfl
  · exact bind_return _ _
  · simp only [ListOperation.statement, List.append_assoc]
  · intro σ sqlite3_exec db sql exception built failed
    cases failed

theorem insert_exact (tableName : Text) (data : SQLiteKeyValue) :
    ExactAndTotal (.insert tableName data) ↔ data.members ≠ [] := by
  constructor
  · intro total none
    have columns := total.fits (appendItems column [] data.members) List.mem_cons_self
    rw [none] at columns
    exact absurd columns (by decide)
  · intro some
    have columns := dropSeparator_appendAll column some []
    have values := dropSeparator_appendAll value some []
    have columns : dropSeparator (appendItems column [] data.members) =
        .ok (joinAll column data.members) := columns
    have values : dropSeparator (appendItems value [] data.members) =
        .ok (joinAll value data.members) := values
    have built : insertText tableName data =
        .ok (ListOperation.insert tableName data).statement := by
      simp only [insertText, columns, values, bind, Except.bind, pure, Except.pure]
      rfl
    constructor
    · exact built
    · exact List.forall_mem_cons.mpr ⟨length_of_dropSeparator columns,
        List.forall_mem_singleton.mpr (length_of_dropSeparator values)⟩
    · intro σ sqlite3_exec db exception failed
      simp [ListOperation.call, insert, built, bind, Except.bind, pure, Except.pure] at failed

theorem listBuilding_iff (operation : ListOperation) :
    ExactAndTotal operation ↔ operation.size ≠ 0 := by
  have counted {α : Type} (items : List α) : items.length ≠ 0 ↔ items ≠ [] :=
    not_congr List.length_eq_zero_iff
  cases operation with
  | createTable tableName columns =>
      exact (createTable_exact tableName columns).trans (counted _).symm
  | insert tableName data => exact (insert_exact tableName data).trans (counted _).symm
  | update tableName data condition =>
      exact (update_exact tableName data condition).trans (counted _).symm
  | queryColumn tableName columns =>
      exact (queryColumn_exact tableName columns).trans (counted _).symm
  | queryColumnCondition tableName columns condition =>
      exact (queryColumnCondition_exact tableName columns condition).trans (counted _).symm

/-- An exception escapes where there is nothing to insert, and `SET` is cut to `SE` where
there is nothing to set. -/
theorem empty_list_escapes :
    insert (fun _ db => (true, db)) () ['t'] ⟨[], List.Pairwise.nil⟩ = .error .lengthError ∧
      updateText ['t'] ⟨[], List.Pairwise.nil⟩ ['1'] =
        .ok (Sql.updateTable ++ 't' :: ' ' :: 'S' :: 'E' :: Sql.whereText ++ ['1', ';']) ∧
      ¬ ∀ operation, ExactAndTotal operation := by
  refine ⟨rfl, rfl, ?_⟩
  intro always
  have columns := (always (.insert ['t'] ⟨[], List.Pairwise.nil⟩)).fits [] List.mem_cons_self
  exact absurd columns (by decide)

end CommonUtils.DataBase
