import CommonUtils.Logger.FileLogPolicy.Intact
import CommonUtils.Logger.FormatMessage
import Mathlib.Algebra.GroupWithZero.Nat
import Mathlib.Data.List.Count

namespace CommonUtils.Logger.FileLogPolicy

open Search

/-- The fields of `tm` that are printed: the years since 1900, and January as month 0. -/
structure Tm where
  year : Nat
  mon : Nat
  mday : Nat
  hour : Nat
  min : Nat
  sec : Nat
  deriving DecidableEq

structure Record where
  tm : Tm
  milliseconds : Nat
  level : LogLevel
  message : Text
  deriving DecidableEq

def padded (width n : Nat) : Text := (Nat.toDigits 10 n).leftpad width '0'

/-- `put_time` with `%Y-%m-%d %H:%M:%S`. -/
def putTime (tm : Tm) : Text :=
  padded 0 (tm.year + 1900) ++ '-' :: padded 2 (tm.mon + 1) ++ '-' :: padded 2 tm.mday ++
    ' ' :: padded 2 tm.hour ++ ':' :: padded 2 tm.min ++ ':' :: padded 2 tm.sec

def levelName : LogLevel → Text
  | .info => ['I', 'N', 'F', 'O']
  | .debug => ['D', 'E', 'B', 'U', 'G']
  | .error => ['E', 'R', 'R', 'O', 'R']
  | .warning => ['W', 'A', 'R', 'N', 'I', 'N', 'G']
  | .trace => ['T', 'R', 'A', 'C', 'E']

def Record.line (r : Record) : Text :=
  '[' :: putTime r.tm ++ '.' :: padded 3 r.milliseconds ++
    ']' :: ' ' :: '[' :: levelName r.level ++ ']' :: ' ' :: r.message

def formatMessage (r : Record) : Text := r.line ++ ['\n']

def fileText (records : List Record) : Text := records.flatMap formatMessage

def readMark (mark : Char) : Text → Option Text
  | c :: rest => if c = mark then some rest else none
  | [] => none

def readNumber (mark : Char) (z : Text) : Option (Nat × Text) :=
  (readMark mark (z.dropWhile Char.isDigit)).map fun rest =>
    (Nat.ofDigitChars 10 (z.takeWhile Char.isDigit) 0, rest)

def readThree (first second third : Char) (z : Text) : Option ((Nat × Nat × Nat) × Text) := do
  let (x, z) ← readNumber first z
  let (y, z) ← readNumber second z
  let (n, z) ← readNumber third z
  return ((x, y, n), z)

def readLevel (z : Text) : Option (LogLevel × Text) :=
  ([.trace, .debug, .info, .warning, .error].find? fun level =>
    levelName level = z.takeWhile (· ≠ ']')).map fun level => (level, z.dropWhile (· ≠ ']'))

def readEntry (z : Text) : Option (LogLevel × Text) := do
  let z ← readMark ' ' z
  let z ← readMark '[' z
  let (level, z) ← readLevel z
  let z ← readMark ']' z
  let message ← readMark ' ' z
  return (level, message)

def readLine (line : Text) : Option Record := do
  let z ← readMark '[' line
  let ((year, mon, mday), z) ← readThree '-' '-' ' ' z
  let ((hour, min, sec), z) ← readThree ':' ':' '.' z
  let (milliseconds, z) ← readNumber ']' z
  let (level, message) ← readEntry z
  return {
    tm := { year := year - 1900, mon := mon - 1, mday, hour, min, sec }
    milliseconds, level, message }

/-- The lines that have come to their end. -/
def readLog (text : Text) : Option (List Record) := (pieces ['\n'] text).mapM readLine

theorem isDigit_of_padded {width n : Nat} {c : Char} (member : c ∈ padded width n) :
    c.isDigit = true := by
  rw [padded, List.leftpad, List.mem_append] at member
  rcases member with zero | digit
  · rw [(List.mem_replicate.mp zero).2]
    rfl
  · exact Nat.isDigit_of_mem_toDigits (by decide) (by decide) digit

theorem ofDigitChars_padded (width n : Nat) : Nat.ofDigitChars 10 (padded width n) 0 = n := by
  rw [padded, List.leftpad, Nat.ofDigitChars_append, Nat.ofDigitChars_replicate_zero, Nat.mul_zero]
  exact Nat.ofDigitChars_ten_toDigits

theorem readNumber_padded {mark : Char} (other : mark.isDigit = false) (width n : Nat)
    (rest : Text) : readNumber mark (padded width n ++ mark :: rest) = some (n, rest) := by
  have digits : ∀ c ∈ padded width n, c.isDigit = true := fun c => isDigit_of_padded
  have stop : ¬ mark.isDigit = true := by simp [other]
  rw [readNumber, List.takeWhile_append_of_pos digits, List.dropWhile_append_of_pos digits,
    List.takeWhile_cons_of_neg stop, List.dropWhile_cons_of_neg stop, List.append_nil,
    ofDigitChars_padded, readMark, if_pos rfl]
  rfl

theorem readLevel_levelName (level : LogLevel) (rest : Text) :
    readLevel (levelName level ++ ']' :: rest) = some (level, ']' :: rest) := by
  cases level <;> rfl

theorem readThree_padded {first second third : Char} (one : first.isDigit = false)
    (two : second.isDigit = false) (three : third.isDigit = false) (width other x y n : Nat)
    (rest : Text) :
    readThree first second third (padded width x ++ first ::
      (padded other y ++ second :: (padded other n ++ third :: rest))) =
        some ((x, y, n), rest) := by
  rw [readThree, readNumber_padded one, Option.bind_eq_bind, Option.bind_some]
  simp only [readNumber_padded two, readNumber_padded three, Option.bind_some]
  rfl

theorem readMark_cons (mark : Char) (rest : Text) : readMark mark (mark :: rest) = some rest :=
  if_pos rfl

theorem readEntry_level (level : LogLevel) (message : Text) :
    readEntry (' ' :: '[' :: (levelName level ++ ']' :: ' ' :: message)) =
      some (level, message) := by
  simp only [readEntry, readMark_cons, readLevel_levelName, Option.bind_eq_bind,
    Option.bind_some]
  rfl

theorem readLine_line (r : Record) : readLine r.line = some r := by
  have text : r.line = '[' :: (padded 0 (r.tm.year + 1900) ++ '-' :: (padded 2 (r.tm.mon + 1) ++
      '-' :: (padded 2 r.tm.mday ++ ' ' :: (padded 2 r.tm.hour ++ ':' :: (padded 2 r.tm.min ++
        ':' :: (padded 2 r.tm.sec ++ '.' :: (padded 3 r.milliseconds ++ ']' ::
          (' ' :: '[' :: (levelName r.level ++ ']' :: ' ' :: r.message))))))))) := by
    simp only [Record.line, putTime, List.append_assoc, List.cons_append]
  have separators : ('-' : Char).isDigit = false ∧ (' ' : Char).isDigit = false ∧
      (':' : Char).isDigit = false ∧ ('.' : Char).isDigit = false ∧
      (']' : Char).isDigit = false := by decide
  rcases separators with ⟨dash, blank, colon, point, bracket⟩
  rw [text, readLine]
  simp only [readMark_cons, readThree_padded dash dash blank, readThree_padded colon colon point,
    readNumber_padded bracket, readEntry_level, Option.bind_eq_bind, Option.bind_some,
    Nat.add_sub_cancel]
  rfl

theorem newline_mem_line (r : Record) : '\n' ∈ r.line ↔ '\n' ∈ r.message := by
  have padding (width n : Nat) : '\n' ∉ padded width n := by
    intro member
    exact absurd (isDigit_of_padded member) (by decide)
  have name : '\n' ∉ levelName r.level := by
    cases r.level <;> decide
  simp [Record.line, putTime, padding, name]

theorem fileText_cons (r : Record) (records : List Record) :
    fileText (r :: records) = r.line ++ '\n' :: fileText records := by
  simp [fileText, formatMessage]

theorem mapM_readLine (records : List Record) :
    (records.map Record.line).mapM readLine = some records := by
  induction records with
  | nil => rfl
  | cons r records ih =>
      rw [List.map_cons, List.mapM_cons, readLine_line, ih]
      rfl

section Plain

variable {records : List Record} (plain : ∀ r ∈ records, '\n' ∉ r.message)

include plain

theorem pieces_fileText : pieces ['\n'] (fileText records) = records.map Record.line := by
  induction records with
  | nil => exact pieces_of_none rfl
  | cons r records ih =>
      have line : '\n' ∉ r.line := (newline_mem_line r).not.mpr (plain r List.mem_cons_self)
      rw [fileText_cons, pieces_append_singleton line,
        ih fun r member => plain r (List.mem_cons_of_mem _ member)]
      rfl

theorem readLog_part {part : Text} (seen : part <+: fileText records) :
    readLog part = some (records.take (part.count '\n')) := by
  rcases seen with ⟨back, whole⟩
  have front := pieces_prefix (List.cons_ne_nil '\n' []) part back
  rw [whole, pieces_fileText plain, List.prefix_iff_eq_take, pieces_singleton_length,
    ← List.map_take] at front
  rw [readLog, front]
  exact mapM_readLine _

theorem lines_fileText : (fileText records).count '\n' = records.length := by
  rw [← pieces_singleton_length, pieces_fileText plain, List.length_map]

theorem lines_le {part : Text} (seen : part <+: fileText records) :
    part.count '\n' ≤ records.length := by
  rw [← lines_fileText plain]
  exact seen.sublist.count_le '\n'

end Plain

theorem length_of_mapM {α β : Type} {f : α → Option β} {xs : List α} {ys : List β}
    (mapped : xs.mapM f = some ys) : ys.length = xs.length := by
  induction xs generalizing ys with
  | nil =>
      cases mapped
      rfl
  | cons x xs ih =>
      rw [List.mapM_cons] at mapped
      rcases Option.bind_eq_some_iff.mp mapped with ⟨y, -, rest⟩
      rcases Option.bind_eq_some_iff.mp rest with ⟨later, read, same⟩
      cases same
      rw [List.length_cons, List.length_cons, ih read]

theorem count_fileText (records : List Record) :
    (fileText records).count '\n' =
      records.length + (records.map fun r => r.line.count '\n').sum := by
  induction records with
  | nil => rfl
  | cons r records ih =>
      rw [fileText_cons, List.count_append, List.count_cons_self, ih, List.length_cons,
        List.map_cons, List.sum_cons]
      omega

/-- A file gives back exactly the records that were written, if and only if no message has a
newline in it. -/
theorem readLog_fileText_iff (records : List Record) :
    readLog (fileText records) = some records ↔ ∀ r ∈ records, '\n' ∉ r.message := by
  constructor
  · intro read r member newline
    have lines := length_of_mapM read
    rw [pieces_singleton_length, count_fileText] at lines
    have none : (records.map fun r => r.line.count '\n').sum = 0 := by omega
    have here := List.sum_eq_zero_iff_forall_eq_nat.mp none _ (List.mem_map_of_mem member)
    exact List.count_eq_zero.mp here ((newline_mem_line r).mpr newline)
  · intro plain
    rw [readLog, pieces_fileText plain]
    exact mapM_readLine records

theorem file_prefix {τ μ : Type*} {w : τ} {s : State τ μ} (orderly : OrderlyInv s)
    (inOrder : InOrder w s) : s.file <+: s.written := by
  rcases orderly.phase with ⟨phase, inPhase⟩
  rw [inOrder.written, inPhase.ring.ledger, List.append_assoc]
  exact List.prefix_append _ _

/-- While the policy writes, and also when it is cut off in the middle of a line, what has come
into the file reads back as the first records of the `Write` calls: one for each whole line. -/
theorem log_reads_back {τ : Type*} [DecidableEq τ] (w : τ) (s : State τ Record)
    (reached : (machine τ Record).ReachUnder (fun s a => Exclusive s a ∧ WritesFrom w a) s)
    (plain : ∀ r ∈ s.written, '\n' ∉ r.message) (part : Text) (seen : part <+: fileText s.file) :
    readLog part = some (s.written.take (part.count '\n')) ∧
      part.count '\n' ≤ s.file.length := by
  have first : s.file <+: s.written :=
    file_prefix (.of_reachable (fun s a both => both.1) reached)
      (.of_reachable (fun s a both => both.2) reached)
  have inFile : ∀ r ∈ s.file, '\n' ∉ r.message := fun r member => plain r (first.subset member)
  have few := lines_le inFile seen
  refine ⟨?_, few⟩
  rcases first with ⟨later, whole⟩
  rw [readLog_part inFile seen, ← whole, List.take_append_of_le_length few]

instance {τ μ : Type*} [DecidableEq τ] (w : τ) : (a : Action τ μ) → Decidable (WritesFrom w a)
  | .call t (.write _) => inferInstanceAs (Decidable (t = w))
  | .call _ .flush | .call _ .destroy | .caller _ | .writer | .spurious => isTrue trivial

def ready : Record where
  tm := { year := 124, mon := 1, mday := 29, hour := 9, min := 5, sec := 7 }
  milliseconds := 40
  level := .warning
  message := ['u', 'p']

example : formatMessage ready = "[2024-02-29 09:05:07.040] [WARNING] up\n".toList := by decide

def readyRun : List (Action Bool Record) :=
  [.writer, .writer, .writer] ++ writeSteps false ready ++ flushSteps Bool Record true 0 ++
    List.replicate 7 .writer

theorem log_reads_back_ready : ∃ s : State Bool Record, s.file = [ready] ∧
    s.written = [ready] ∧ readLog (fileText s.file) =
      some (s.written.take ((fileText s.file).count '\n')) :=
  ⟨_, rfl, rfl, (log_reads_back false _ (Machine.reachFrom_of_runGuarded readyRun .origin rfl)
    (by decide) _ List.prefix_rfl).1⟩

end CommonUtils.Logger.FileLogPolicy
