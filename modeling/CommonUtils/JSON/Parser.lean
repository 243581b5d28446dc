import CommonUtils.Library.Nested
import CommonUtils.JSON.Lexer

/-! The parser of `nlohmann::json` that fills a document while it reads. `Dom` is
`json_sax_dom_parser` with its pointers as paths in the document, and an exception leaves
the document as it was when it was thrown. -/

namespace CommonUtils.JSON

inductive Exception where
  | parseError
  | outOfRange
  deriving DecidableEq

/-- `refStack` has its back at the head, and `objectElement` is the member of an object. -/
structure Dom where
  root : Json
  refStack : List Path
  objectElement : Option (Path × Bytes)

namespace Json

def emplaceBack (value : Json) : Json → Json
  | .array elements => .array (elements ++ [value])
  | node => node

end Json

namespace Dom

def start (root : Json) : Dom := { root, refStack := [], objectElement := none }

/-- The pointer returned is the path at the end. -/
def handleValue (value : Json) (sax : Dom) : Dom × Path :=
  match sax.refStack with
  | [] => ({ sax with root := value }, [])
  | back :: _ =>
      match Json.access.at? back sax.root with
      | some (.array elements) =>
          ({ sax with root := Json.access.modifyAt back (Json.emplaceBack value) sax.root },
            back ++ [.index elements.length])
      | _ =>
          match sax.objectElement with
          | some (object, key) =>
              ({ sax with
                  root := Json.access.modifyAt (object ++ [.key key]) (fun _ => value) sax.root },
                object ++ [.key key])
          | none => (sax, [])

def value (value : Json) (sax : Dom) : Dom := (sax.handleValue value).1

def startContainer (empty : Json) (sax : Dom) : Dom :=
  let (handled, back) := sax.handleValue empty
  { handled with refStack := back :: handled.refStack }

def startObject : Dom → Dom := startContainer (.object [])

def startArray : Dom → Dom := startContainer (.array [])

def key (name : Bytes) (sax : Dom) : Dom :=
  match sax.refStack with
  | [] => sax
  | back :: _ =>
      { sax with
        root := Json.access.modifyAt back (Json.ensure (.key name)) sax.root
        objectElement := some (back, name) }

def endObject (sax : Dom) : Dom := { sax with refStack := sax.refStack.tail }

def endArray (sax : Dom) : Dom := { sax with refStack := sax.refStack.tail }

end Dom

def isFinite (bits : BitVec 64) : Bool := bits.extractLsb' 52 11 != 0x7FF

namespace Token

def scalar : Token → Option Json
  | .literalTrue => some (.boolean true)
  | .literalFalse => some (.boolean false)
  | .literalNull => some .null
  | .valueString bytes => some (.string bytes)
  | .valueUnsigned value => some (.numberUnsigned value)
  | .valueInteger value => some (.numberInteger value)
  | .valueFloat bits => some (.numberFloat bits)
  | _ => none

def overflows : Token → Bool
  | .valueFloat bits => !isFinite bits
  | _ => false

end Token

namespace Parser

/-- What a parse leaves: the exception or the tokens not read, and the document. -/
abbrev Outcome := Except Exception (List Token) × Json

/-- The variables of `sax_parse_internal`. `states` has its back at the head, true being an
array. With `skipToStateEvaluation` the next token is still to be read, and without it the
first one is `last_token`. -/
structure Loop where
  sax : Dom
  states : List Bool
  skipToStateEvaluation : Bool
  input : List Token

inductive Round where
  | next (loop : Loop)
  | done (outcome : Outcome)

def readKey (sax : Dom) (states : List Bool) : List Token → Round
  | .valueString name :: .nameSeparator :: input =>
      .next { sax := sax.key name, states, skipToStateEvaluation := false, input }
  | .valueString name :: _ => .done (.error .parseError, (sax.key name).root)
  | _ => .done (.error .parseError, sax.root)

/-- The switch on `last_token`. What follows a value that has been read is left to the next
round. -/
def readValue (sax : Dom) (states : List Bool) : List Token → Round
  | .beginObject :: .endObject :: input =>
      .next { sax := sax.startObject.endObject, states, skipToStateEvaluation := true, input }
  | .beginObject :: input => readKey sax.startObject (false :: states) input
  | .beginArray :: .endArray :: input =>
      .next { sax := sax.startArray.endArray, states, skipToStateEvaluation := true, input }
  | .beginArray :: input =>
      .next {
        sax := sax.startArray, states := true :: states, skipToStateEvaluation := false, input }
  | token :: input =>
      if token.overflows then .done (.error .outOfRange, sax.root)
      else
        match token.scalar with
        | some value =>
            .next { sax := sax.value value, states, skipToStateEvaluation := true, input }
        | none => .done (.error .parseError, sax.root)
  | [] => .done (.error .parseError, sax.root)

def evaluateState (sax : Dom) : List Bool → List Token → Round
  | [], input => .done (.ok input, sax.root)
  | true :: states, .valueSeparator :: input =>
      .next { sax, states := true :: states, skipToStateEvaluation := false, input }
  | true :: states, .endArray :: input =>
      .next { sax := sax.endArray, states, skipToStateEvaluation := true, input }
  | false :: states, .valueSeparator :: input => readKey sax (false :: states) input
  | false :: states, .endObject :: input =>
      .next { sax := sax.endObject, states, skipToStateEvaluation := true, input }
  | _, _ => .done (.error .parseError, sax.root)

def round (loop : Loop) : Round :=
  if loop.skipToStateEvaluation then evaluateState loop.sax loop.states loop.input
  else readValue loop.sax loop.states loop.input

def Reads (input : List Token) : Round → Prop
  | .next loop => ∃ first read, input = first :: (read ++ loop.input)
  | .done _ => True

theorem readKey_reads (sax : Dom) (states : List Bool) (input : List Token) :
    Reads input (readKey sax states input) := by
  unfold readKey
  split
  · exact ⟨_, [_], rfl⟩
  · trivial
  · trivial

theorem Reads.cons {input : List Token} {step : Round} (reads : Reads input step)
    (token : Token) : Reads (token :: input) step := by
  cases step with
  | done => trivial
  | next loop =>
      rcases reads with ⟨first, read, same⟩
      exact ⟨token, first :: read, congrArg (token :: ·) same⟩

theorem readValue_reads (sax : Dom) (states : List Bool) (input : List Token) :
    Reads input (readValue sax states input) := by
  unfold readValue
  split
  · exact ⟨_, [_], rfl⟩
  · exact (readKey_reads _ _ _).cons _
  · exact ⟨_, [_], rfl⟩
  · exact ⟨_, [], rfl⟩
  · split
    · trivial
    · split
      · exact ⟨_, [], rfl⟩
      · trivial
  · trivial

theorem evaluateState_reads (sax : Dom) (states : List Bool) (input : List Token) :
    Reads input (evaluateState sax states input) := by
  unfold evaluateState
  split
  · trivial
  · exact ⟨_, [], rfl⟩
  · exact ⟨_, [], rfl⟩
  · exact (readKey_reads _ _ _).cons _
  · exact ⟨_, [], rfl⟩
  · trivial

theorem round_reads {loop after : Loop} (more : round loop = .next after) :
    ∃ first read, loop.input = first :: (read ++ after.input) := by
  have reads : Reads loop.input (round loop) := by
    unfold round
    split
    · exact evaluateState_reads _ _ _
    · exact readValue_reads _ _ _
  rw [more] at reads
  exact reads

theorem round_shorter {loop after : Loop} (more : round loop = .next after) :
    after.input.length < loop.input.length := by
  rcases round_reads more with ⟨first, read, same⟩
  rw [same, List.length_cons, List.length_append]
  omega

/-- `sax_parse_internal` from any round of its loop on. -/
def saxParse (loop : Loop) : Outcome :=
  match _ : round loop with
  | .done outcome => outcome
  | .next after => saxParse after
termination_by loop.input.length
decreasing_by exact round_shorter ‹_›

def Loop.start (result : Json) (input : List Token) : Loop :=
  { sax := Dom.start result, states := [], skipToStateEvaluation := false, input }

def parse (strict : Bool) (result : Json) (input : List Token) : Except Exception Unit × Json :=
  match saxParse (Loop.start result input) with
  | (.error exception, result) => (.error exception, result)
  | (.ok rest, result) =>
      if strict ∧ rest.head? ≠ some .endOfInput then (.error .parseError, result)
      else (.ok (), result)

theorem saxParse_next {loop after : Loop} (more : round loop = .next after) :
    saxParse loop = saxParse after := by
  rw [saxParse]
  split
  · rename_i done
    rw [more] at done
    cases done
  · rename_i found
    rw [more] at found
    cases found
    rfl

theorem saxParse_done {loop : Loop} {outcome : Outcome} (stops : round loop = .done outcome) :
    saxParse loop = outcome := by
  rw [saxParse]
  split
  · rename_i found
    rw [stops] at found
    cases found
    rfl
  · rename_i more
    rw [stops] at more
    cases more

/-- What every round keeps, and what it leaves at the end, the loop leaves. -/
theorem saxParse_keeps {I : Loop → Prop} {P : Outcome → Prop}
    (next : ∀ loop after, I loop → round loop = .next after → I after)
    (done : ∀ loop outcome, I loop → round loop = .done outcome → P outcome) {loop : Loop}
    (holds : I loop) : P (saxParse loop) := by
  cases found : round loop with
  | done outcome =>
      rw [saxParse_done found]
      exact done loop outcome holds found
  | next after =>
      rw [saxParse_next found]
      exact saxParse_keeps next done (next loop after holds found)
termination_by loop.input.length
decreasing_by exact round_shorter found

def lexemes : Nested.Lexemes Token where
  scalar w := ∃ token value, w = [token] ∧ token.scalar = some value
  key w := ∃ bytes, w = [.valueString bytes, .nameSeparator]
  beginArray w := w = [.beginArray]
  endArray w := w = [.endArray]
  beginObject w := w = [.beginObject]
  endObject w := w = [.endObject]
  comma w := w = [.valueSeparator]

abbrev overflow (word : List Token) : Bool := word.any Token.overflows

def resume (word : List Token) (sax : Dom) (states : List Bool) (input : List Token) : Outcome :=
  if overflow word then (.error .outOfRange, sax.root)
  else saxParse { sax, states, skipToStateEvaluation := true, input }

def ReadIn (inner : List Bool) (skip : Bool) (word : List Token) : Prop :=
  ∀ sax states rest, ∃ after,
    saxParse {
      sax, states := inner ++ states, skipToStateEvaluation := skip, input := word ++ rest } =
      resume word after states rest

def Consumed : Nested.Kind → List Token → Prop
  | .value => ReadIn [] false
  | .elements => ReadIn [true] false
  | .elementsTail => ReadIn [true] true
  | .members => fun word => ∃ name tail,
      word = .valueString name :: .nameSeparator :: tail ∧ ReadIn [false] false tail
  | .member => ReadIn [false] false
  | .membersTail => ReadIn [false] true

theorem head_value {kind : Nested.Kind} {word : List Token}
    (derived : Nested.Derives lexemes kind word) (atValue : kind = .value ∨ kind = .elements) :
    ∃ token rest, word = token :: rest ∧ token ≠ .endArray := by
  induction derived with
  | scalar single =>
      rcases single with ⟨token, value, same, scalar⟩
      refine ⟨token, [], same, ?_⟩
      intro closing
      rw [closing] at scalar
      cases scalar
  | emptyArray opens closes => exact ⟨_, _, congrArg (· ++ _) opens, by simp⟩
  | array opens more ih => exact ⟨_, _, congrArg (· ++ _) opens, by simp⟩
  | emptyObject opens closes => exact ⟨_, _, congrArg (· ++ _) opens, by simp⟩
  | object opens more ih => exact ⟨_, _, congrArg (· ++ _) opens, by simp⟩
  | elements element more first rest =>
      rcases first (.inl rfl) with ⟨token, tail, same, other⟩
      exact ⟨token, _, congrArg (· ++ _) same, other⟩
  | _ => simp at atValue

theorem resume_cons {token : Token} (mark : token.overflows = false) (word : List Token)
    (sax : Dom) (states : List Bool) (rest : List Token) :
    resume (token :: word) sax states rest = resume word sax states rest := by
  simp only [resume, overflow, List.any_cons, mark, Bool.false_or]

theorem ReadIn.mark {inner opened : List Bool} {skip further : Bool} {token : Token}
    {word : List Token} (read : ReadIn opened further word)
    (mark : token.overflows = false)
    (step : ∀ sax states rest, ∃ after, round {
        sax, states := inner ++ states, skipToStateEvaluation := skip,
        input := token :: (word ++ rest) } = .next {
          sax := after, states := opened ++ states, skipToStateEvaluation := further,
          input := word ++ rest }) : ReadIn inner skip (token :: word) := by
  intro sax states rest
  rcases step sax states rest with ⟨middle, more⟩
  rcases read middle states rest with ⟨after, run⟩
  refine ⟨after, ?_⟩
  rw [resume_cons mark, ← run]
  exact saxParse_next more

theorem ReadIn.append {opened : List Bool} {first second : List Token}
    (before : ReadIn [] false first) (behind : ReadIn opened true second) :
    ReadIn opened false (first ++ second) := by
  intro sax states rest
  rcases before sax (opened ++ states) (second ++ rest) with ⟨middle, run⟩
  rw [List.append_assoc]
  cases stopped : overflow first with
  | true =>
      refine ⟨middle, run.trans ?_⟩
      simp only [resume, stopped, overflow, List.any_append, Bool.true_or, if_true]
  | false =>
      rcases behind middle states rest with ⟨after, more⟩
      refine ⟨after, run.trans ?_⟩
      rw [resume, stopped, if_neg Bool.false_ne_true, more]
      simp only [resume, overflow, List.any_append] at stopped ⊢
      rw [stopped, Bool.false_or]

theorem readIn_scalar {token : Token} {value : Json} (scalar : token.scalar = some value) :
    ReadIn [] false [token] := by
  intro sax states rest
  have step : round {
      sax, states, skipToStateEvaluation := false, input := token :: rest } =
      if token.overflows then .done (.error .outOfRange, sax.root)
      else .next {
        sax := sax.value value, states, skipToStateEvaluation := true, input := rest } := by
    cases token <;> cases scalar <;> rfl
  have word : overflow [token] = token.overflows := Bool.or_false _
  by_cases stopped : token.overflows
  · rw [if_pos stopped] at step
    refine ⟨sax, (saxParse_done step).trans ?_⟩
    rw [resume, word, if_pos stopped]
  · rw [if_neg stopped] at step
    refine ⟨sax.value value, (saxParse_next step).trans ?_⟩
    rw [resume, word, if_neg stopped]

/-- The loop reads every word of the grammar, unless a number in it is out of range. -/
theorem consumed {kind : Nested.Kind} {word : List Token}
    (derived : Nested.Derives lexemes kind word) : Consumed kind word := by
  -- `Consumed` says for each kind of word where in the loop it is read
  induction derived with
  | scalar single =>
      rcases single with ⟨token, value, same, scalar⟩
      rw [same]
      exact readIn_scalar scalar
  | emptyArray opens closes =>
      subst opens closes
      intro sax states rest
      exact ⟨sax.startArray.endArray, saxParse_next rfl⟩
  | array opens more ih =>
      subst opens
      rcases head_value more (.inr rfl) with ⟨token, tail, same, other⟩
      apply ReadIn.mark ih rfl
      intro sax states rest
      refine ⟨sax.startArray, ?_⟩
      rw [same]
      cases token with
      | endArray => exact absurd rfl other
      | _ => rfl
  | emptyObject opens closes =>
      subst opens closes
      intro sax states rest
      exact ⟨sax.startObject.endObject, saxParse_next rfl⟩
  | object opens more ih =>
      subst opens
      rcases ih with ⟨name, tail, same, read⟩
      subst same
      intro sax states rest
      rcases read (sax.startObject.key name) states rest with ⟨after, run⟩
      exact ⟨after, (saxParse_next rfl).trans run⟩
  | elements element more first second => exact first.append second
  | endArray closes =>
      subst closes
      intro sax states rest
      exact ⟨sax.endArray, saxParse_next rfl⟩
  | nextElement separates more ih =>
      subst separates
      exact ih.mark rfl fun sax states rest => ⟨sax, rfl⟩
  | members named more ih =>
      rcases named with ⟨name, same⟩
      exact ⟨name, _, congrArg (· ++ _) same, ih⟩
  | member value more first second => exact first.append second
  | endObject closes =>
      subst closes
      intro sax states rest
      exact ⟨sax.endObject, saxParse_next rfl⟩
  | nextMember separates more ih =>
      subst separates
      rcases ih with ⟨name, tail, same, read⟩
      subst same
      intro sax states rest
      rcases read (sax.key name) states rest with ⟨after, run⟩
      exact ⟨after, (saxParse_next rfl).trans run⟩

end Parser

end CommonUtils.JSON
