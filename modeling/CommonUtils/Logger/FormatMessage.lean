import CommonUtils.Library.Search

namespace CommonUtils.Logger

open Search

abbrev Text := List Char

inductive LogLevel where
  | trace
  | debug
  | info
  | warning
  | error
  deriving DecidableEq

structure LogMessage where
  level : LogLevel
  message : Text
  deriving DecidableEq

def placeholder : Text := ['\x7b', '\x7d']

/-- What is in `oss` afterwards. An argument is the text that `<<` writes for it. -/
def formatMessage (oss format : Text) : List Text → Text
  | [] => oss ++ format
  | value :: args =>
      match find placeholder format with
      | some pos => formatMessage (oss ++ format.take pos ++ value) (format.drop (pos + 2)) args
      | none => oss ++ format

def logMessage (level : LogLevel) (format : Text) (args : List Text) : LogMessage where
  level := level
  message := formatMessage [] format args

/-- The parts of a format with the arguments between them, a placeholder where the
arguments are used up. -/
def substituted (args : List Text) : List Text → Text
  | [] => []
  | first :: later =>
      first ++ (List.zipWith (· ++ ·) (args.take later.length ++
        List.replicate (later.length - args.length) placeholder) later).flatten

@[simp]
theorem substituted_single (args : List Text) (last : Text) : substituted args [last] = last := by
  simp [substituted]

theorem substituted_next {parts : List Text} (nonempty : parts ≠ []) (value front : Text)
    (args : List Text) : substituted (value :: args) (front :: parts) =
      front ++ value ++ substituted args parts := by
  cases parts with
  | nil => exact absurd rfl nonempty
  | cons part later => simp [substituted]

theorem substituted_left {parts : List Text} (nonempty : parts ≠ []) (front : Text) :
    substituted [] (front :: parts) = front ++ placeholder ++ substituted [] parts := by
  cases parts with
  | nil => exact absurd rfl nonempty
  | cons part later => simp [substituted, List.replicate_succ]

theorem formatMessage_eq {format : Text} {parts : List Text} (cut : Cut placeholder format parts) :
    ∀ oss args, formatMessage oss format args = oss ++ substituted args parts := by
  induction cut with
  | @last text absent =>
      intro oss args
      rw [substituted_single]
      cases args with
      | nil => rfl
      | cons value args => rw [formatMessage, find_eq_none_iff.mpr absent]
  | @next front rest parts leftmost cut ih =>
      intro oss args
      cases args with
      | nil =>
          have left : rest = substituted [] parts := ih [] []
          rw [substituted_left cut.nonempty, ← left]
          rfl
      | cons value args =>
          have behind : (front ++ placeholder ++ rest).drop (front.length + 2) = rest :=
            List.drop_left' (List.length_append)
          have before : (front ++ placeholder ++ rest).take front.length = front := by
            rw [List.append_assoc, List.take_left]
          rw [formatMessage, find_leftmost leftmost]
          calc
            _ = formatMessage (oss ++ front ++ value) rest args := by
              simp only [behind, before]
            _ = oss ++ front ++ value ++ substituted args parts := ih _ args
            _ = oss ++ substituted (value :: args) (front :: parts) := by
              rw [substituted_next cut.nonempty]
              simp only [List.append_assoc]

theorem logMessage_faithful (level : LogLevel) (format : Text) :
    ∃ parts, Cut placeholder format parts ∧
      (∀ other, Cut placeholder format other → other = parts) ∧
      ∀ args, logMessage level format args = ⟨level, substituted args parts⟩ := by
  have nonempty : placeholder ≠ [] := by decide
  rcases exists_cut nonempty format with ⟨parts, cut⟩
  refine ⟨parts, cut, fun other => cut.unique, fun args => ?_⟩
  rw [logMessage, formatMessage_eq cut, List.nil_append]

end CommonUtils.Logger
