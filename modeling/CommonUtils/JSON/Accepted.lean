import CommonUtils.JSON.Loader
import CommonUtils.JSON.Scanned

namespace CommonUtils.JSON

namespace Parser

inductive Closes : List Bool → List Token → Prop where
  | nil : Closes [] []
  | array {states : List Bool} {w v : List Token} (tail : Nested.Derives lexemes .elementsTail w)
      (more : Closes states v) : Closes (true :: states) (w ++ v)
  | object {states : List Bool} {w v : List Token} (tail : Nested.Derives lexemes .membersTail w)
      (more : Closes states v) : Closes (false :: states) (w ++ v)

def Owed (states : List Bool) (skip : Bool) (w : List Token) : Prop :=
  if skip then Closes states w
  else ∃ v u, w = v ++ u ∧ Nested.Derives lexemes .value v ∧ Closes states u

def Pays (states : List Bool) (skip : Bool) (input : List Token) (after : Loop) : Prop :=
  ∃ front, input = front ++ after.input ∧
    ∀ w, Owed after.states after.skipToStateEvaluation w → Owed states skip (front ++ w)

theorem Closes.split {array : Bool} {states : List Bool} {u : List Token}
    (closes : Closes (array :: states) u) :
    ∃ w v, u = w ++ v ∧ Closes states v ∧
      Nested.Derives lexemes (if array then .elementsTail else .membersTail) w := by
  cases closes with
  | array tail more => exact ⟨_, _, rfl, more, tail⟩
  | object tail more => exact ⟨_, _, rfl, more, tail⟩

theorem readKey_pays {sax : Dom} {states : List Bool} {input : List Token} {after : Loop}
    (more : readKey sax (false :: states) input = .next after) :
    ∃ front, input = front ++ after.input ∧
      ∀ w, Owed after.states after.skipToStateEvaluation w →
        ∃ v u, front ++ w = v ++ u ∧ Nested.Derives lexemes .members v ∧ Closes states u := by
  unfold readKey at more
  split at more
  · rename_i name input
    cases more
    refine ⟨[.valueString name, .nameSeparator], rfl, ?_⟩
    rintro w ⟨value, behind, same, derived, closes⟩
    rcases closes.split with ⟨tail, u, split, closes, derivedTail⟩
    refine ⟨[.valueString name, .nameSeparator] ++ (value ++ tail), u, ?_, ?_, closes⟩
    · rw [same, split]
      simp only [List.append_assoc]
    · exact .members ⟨name, rfl⟩ (.member derived derivedTail)
  · cases more
  · cases more

theorem evaluateState_pays {sax : Dom} {states : List Bool} {input : List Token} {after : Loop}
    (more : evaluateState sax states input = .next after) : Pays states true input after := by
  unfold evaluateState at more
  split at more
  · cases more
  · cases more
    refine ⟨[.valueSeparator], rfl, ?_⟩
    rintro w ⟨value, behind, same, derived, closes⟩
    rcases closes.split with ⟨tail, u, split, closes, derivedTail⟩
    have joined : [Token.valueSeparator] ++ w = ([.valueSeparator] ++ (value ++ tail)) ++ u := by
      rw [same, split]
      simp only [List.append_assoc]
    rw [joined]
    exact Closes.array (.nextElement rfl (.elements derived derivedTail)) closes
  · cases more
    exact ⟨[.endArray], rfl, fun w closes => Closes.array (.endArray rfl) closes⟩
  · rcases readKey_pays more with ⟨front, same, owed⟩
    refine ⟨.valueSeparator :: front, by rw [same]; rfl, fun w closes => ?_⟩
    rcases owed w closes with ⟨v, u, split, derived, closes⟩
    have joined : Token.valueSeparator :: front ++ w = ([.valueSeparator] ++ v) ++ u := by
      rw [List.cons_append, split]
      rfl
    rw [joined]
    exact Closes.object (.nextMember rfl derived) closes
  · cases more
    exact ⟨[.endObject], rfl, fun w closes => Closes.object (.endObject rfl) closes⟩
  · cases more

theorem readValue_pays {sax : Dom} {states : List Bool} {input : List Token} {after : Loop}
    (more : readValue sax states input = .next after) : Pays states false input after := by
  unfold readValue at more
  split at more
  · cases more
    exact ⟨[.beginObject, .endObject], rfl, fun w closes =>
      ⟨[Token.beginObject] ++ [Token.endObject], w, rfl, .emptyObject rfl rfl, closes⟩⟩
  · rcases readKey_pays more with ⟨front, same, owed⟩
    refine ⟨.beginObject :: front, by rw [same]; rfl, fun w closes => ?_⟩
    rcases owed w closes with ⟨v, u, split, derived, closes⟩
    refine ⟨[Token.beginObject] ++ v, u, ?_, .object rfl derived, closes⟩
    rw [List.cons_append, split]
    rfl
  · cases more
    exact ⟨[.beginArray, .endArray], rfl, fun w closes =>
      ⟨[Token.beginArray] ++ [Token.endArray], w, rfl, .emptyArray rfl rfl, closes⟩⟩
  · cases more
    refine ⟨[.beginArray], rfl, ?_⟩
    rintro w ⟨value, behind, same, derived, closes⟩
    rcases closes.split with ⟨tail, u, split, closes, derivedTail⟩
    refine ⟨[Token.beginArray] ++ (value ++ tail), u, ?_, ?_, closes⟩
    · rw [same, split]
      simp only [List.append_assoc]
    · exact .array rfl (.elements derived derivedTail)
  · rename_i token input _ _ _ _
    split at more
    · cases more
    · split at more
      · rename_i value scalar
        cases more
        exact ⟨[token], rfl, fun w closes =>
          ⟨[token], w, rfl, .scalar ⟨token, value, rfl, scalar⟩, closes⟩⟩
      · cases more
  · cases more

theorem round_pays {loop after : Loop} (more : round loop = .next after) :
    Pays loop.states loop.skipToStateEvaluation loop.input after := by
  unfold round at more
  split at more
  · rename_i skip
    rw [skip]
    exact evaluateState_pays more
  · rename_i skip
    rw [Bool.eq_false_of_not_eq_true skip]
    exact readValue_pays more

theorem readKey_not_ok {sax : Dom} {states : List Bool} {input rest : List Token} {json : Json} :
    readKey sax states input ≠ .done (.ok rest, json) := by
  intro stops
  unfold readKey at stops
  split at stops <;> cases stops

theorem readValue_not_ok {sax : Dom} {states : List Bool} {input rest : List Token}
    {json : Json} : readValue sax states input ≠ .done (.ok rest, json) := by
  intro stops
  unfold readValue at stops
  split at stops
  · cases stops
  · exact readKey_not_ok stops
  · cases stops
  · cases stops
  · split at stops
    · cases stops
    · split at stops <;> cases stops
  · cases stops

theorem round_ok {loop : Loop} {rest : List Token} {json : Json}
    (stops : round loop = .done (.ok rest, json)) :
    loop.input = rest ∧ Owed loop.states loop.skipToStateEvaluation [] := by
  unfold round at stops
  split at stops
  · rename_i skip
    rw [skip]
    unfold evaluateState at stops
    split at stops
    · rename_i states input none
      cases stops
      rw [none]
      exact ⟨rfl, .nil⟩
    · cases stops
    · cases stops
    · exact absurd stops readKey_not_ok
    · cases stops
    · cases stops
  · exact absurd stops readValue_not_ok

theorem saxParse_ok {loop : Loop} {rest : List Token} {json : Json}
    (accepted : saxParse loop = (.ok rest, json)) :
    ∃ w, loop.input = w ++ rest ∧ Owed loop.states loop.skipToStateEvaluation w := by
  cases found : round loop with
  | done outcome =>
      rw [saxParse_done found] at accepted
      subst accepted
      rcases round_ok found with ⟨same, owed⟩
      exact ⟨[], same, owed⟩
  | next after =>
      rw [saxParse_next found] at accepted
      rcases saxParse_ok accepted with ⟨w, same, owed⟩
      rcases round_pays found with ⟨front, split, pays⟩
      refine ⟨front ++ w, ?_, pays w owed⟩
      rw [split, same, List.append_assoc]
termination_by loop.input.length
decreasing_by exact round_shorter found

end Parser

namespace Lexer

variable {strtod : Bytes → BitVec 64}

def Terminated (rest : Bytes) : Prop := rest = [] ∨ rest.head? = some 0x00

section Terminated

theorem ite_ne {c : Prop} [Decidable c] {left right : Token × Bytes} {token : Token}
    (other : left.1 ≠ token) (otherElse : right.1 ≠ token) :
    (if c then left else right).1 ≠ token := by
  split
  · exact other
  · exact otherElse

theorem scan_not_ended {input more : Bytes} {current : UInt8}
    (found : skipWhitespace input = current :: more) (other : current ≠ 0x00) :
    (scan strtod input).1 ≠ .endOfInput := by
  have literal : ∀ {token : Token} {letters : Bytes}, token ≠ .endOfInput →
      (scanLiteral token letters more).1 ≠ .endOfInput := by
    intro token letters other ended
    have read : scanLiteral token letters more =
        (.endOfInput, (scanLiteral token letters more).2) := Prod.ext ended rfl
    exact other (scanLiteral_spelled read Token.noConfusion).1.symm
  have string : (scanString .plain [] more).1 ≠ .endOfInput := by
    intro ended
    have read : scanString .plain [] more = (.endOfInput, (scanString .plain [] more).2) :=
      Prod.ext ended rfl
    rcases scanString_quoted read Token.noConfusion with ⟨⟨bytes, same⟩, -⟩
    cases same
  have number : ∀ state type, (scanNumber strtod state type [current] more).1 ≠ .endOfInput := by
    intro state type ended
    have read : scanNumber strtod state type [current] more =
        (.endOfInput, (scanNumber strtod state type [current] more).2) := Prod.ext ended rfl
    rcases scanNumber_ending read Token.noConfusion with ⟨⟨type, buffer, same⟩, -⟩
    have scalar : ∃ value, (numberToken strtod type buffer).scalar = some value :=
      numberToken_scalar type buffer
    rw [← same] at scalar
    rcases scalar with ⟨value, scalar⟩
    cases scalar
  unfold scan
  rw [found]
  dsimp only
  apply ite_ne Token.noConfusion
  apply ite_ne Token.noConfusion
  apply ite_ne Token.noConfusion
  apply ite_ne Token.noConfusion
  apply ite_ne Token.noConfusion
  apply ite_ne Token.noConfusion
  apply ite_ne (literal Token.noConfusion)
  apply ite_ne (literal Token.noConfusion)
  apply ite_ne (literal Token.noConfusion)
  apply ite_ne string
  apply ite_ne (number _ _)
  apply ite_ne (number _ _)
  apply ite_ne (number _ _)
  rw [if_neg other]
  exact Token.noConfusion

theorem terminated_of_lex {input : Bytes} (ended : (lex strtod input).head? = some .endOfInput) :
    ∃ blank rest, input = blank ++ rest ∧ Grammar.Blank blank ∧ Terminated rest := by
  rcases skipWhitespace_blank input with ⟨blank, same, isBlank⟩
  refine ⟨blank, skipWhitespace input, same, isBlank, ?_⟩
  have last : (scan strtod input).1 = .endOfInput := by
    rw [lex] at ended
    split at ended
    · exact Option.some.inj ended
    · exact Option.some.inj ended
  cases found : skipWhitespace input with
  | nil => exact .inl rfl
  | cons current more =>
      refine .inr (congrArg some ?_)
      by_contra other
      exact scan_not_ended found other last

theorem lex_terminated {blank rest : Bytes} (isBlank : Grammar.Blank blank)
    (terminated : Terminated rest) : lex strtod (blank ++ rest) = [.endOfInput] := by
  have read : (scan strtod (blank ++ rest)).1 = .endOfInput := by
    rw [scan_blank isBlank]
    cases rest with
    | nil => rfl
    | cons current rest =>
        have nul : current = 0x00 :=
          Option.some.inj (terminated.resolve_left (List.cons_ne_nil _ _))
        rw [nul]
        rfl
  rw [lex, read]
  rfl

theorem ends_terminated {rest : Bytes} (terminated : Terminated rest) : Grammar.Ends rest := by
  intro c first
  rcases terminated with none | nul
  · rw [none] at first
    cases first
  · cases nul.symm.trans first
    decide

theorem lex_terminated_text {text blank : Bytes}
    (derived : Nested.Derives Grammar.lexemes .value text) (isBlank : Grammar.Blank blank) :
    ∃ word, ∀ rest, Terminated rest →
      lex strtod (text ++ (blank ++ rest)) = word ++ [.endOfInput] := by
  have reads : Nested.Reads (lex strtod) Grammar.Ends (Nested.Derives Parser.lexemes .value) text :=
    derived.reads reading
  rcases reads with ⟨word, -, read⟩
  refine ⟨word, fun rest terminated => ?_⟩
  rw [read _ (ends_append isBlank (ends_terminated terminated)), lex_terminated isBlank terminated]

theorem tokens_terminated {text rest : Bytes} (formed : Grammar.WellFormed text)
    (terminated : Terminated rest) : tokens strtod (text ++ rest) = tokens strtod text := by
  rcases formed with ⟨mark, text, blank, same, isMark, derived, isBlank⟩
  rcases lex_terminated_text derived isBlank with ⟨word, lexed⟩
  have alone : lex strtod (text ++ blank) = word ++ [.endOfInput] := by
    have lexed := lexed [] (.inl rfl)
    rwa [List.append_nil] at lexed
  rw [same, List.append_assoc, List.append_assoc]
  simp only [List.mem_cons, List.not_mem_nil, or_false] at isMark
  rcases isMark with none | marked
  · rw [none, List.nil_append, List.nil_append, tokens_of_lex (lexed rest terminated),
      tokens_of_lex alone]
  · rw [marked]
    exact (lexed rest terminated).trans alone.symm

theorem skipBom_some {s input : Bytes} (skipped : skipBom s = some input) :
    ∃ mark, s = mark ++ input ∧ mark ∈ [[], [0xEF, 0xBB, 0xBF]] := by
  unfold skipBom at skipped
  split at skipped
  · cases skipped
    exact ⟨[0xEF, 0xBB, 0xBF], rfl, by simp⟩
  · cases skipped
  · cases skipped
    exact ⟨[], rfl, by simp⟩

theorem wellFormed_of_tokens {s : Bytes} {word rest : List Token}
    (lexed : tokens strtod s = word ++ rest) (ended : rest.head? = some .endOfInput)
    (derived : Nested.Derives Parser.lexemes .value word) :
    ∃ text behind, s = text ++ behind ∧ Grammar.WellFormed text ∧ Terminated behind := by
  unfold tokens at lexed
  split at lexed
  · -- no value is read where the mark is cut off
    cases word with
    | nil =>
        cases lexed
        cases ended
    | cons token word =>
        rcases List.cons.inj lexed with ⟨first, none⟩
        rw [(List.append_eq_nil_iff.mp none.symm).2] at ended
        cases ended
  · rename_i input skipped
    rcases skipBom_some skipped with ⟨mark, same, isMark⟩
    rcases derived.spells spelling input rest lexed with ⟨w, behind, split, isText, more⟩
    rw [← more] at ended
    rcases terminated_of_lex ended with ⟨blank, nul, splitBehind, isBlank, terminated⟩
    refine ⟨mark ++ (w ++ blank), nul, ?_, ⟨mark, w, blank, rfl, isMark, isText, isBlank⟩,
      terminated⟩
    rw [same, split, splitBehind]
    simp only [List.append_assoc]

end Terminated

end Lexer

namespace JsonManager

open Lexer

variable (strtod : Bytes → BitVec 64)

/-- `json::parse` throws nothing. -/
def Accepts (s : Bytes) : Prop :=
  ∃ json, Parser.parse true .null (tokens strtod s) = (.ok (), json)

variable {strtod} in
theorem accepts_of_saxParse {s : Bytes} {rest : List Token} {json : Json}
    (run : Parser.saxParse (.start .null (tokens strtod s)) = (.ok rest, json))
    (ended : rest.head? = some .endOfInput) : Accepts strtod s := by
  refine ⟨json, ?_⟩
  simp [Parser.parse, run, ended]

variable {strtod} in
theorem Accepts.saxParse {s : Bytes} (accepts : Accepts strtod s) :
    ∃ rest json, rest.head? = some .endOfInput ∧
      Parser.saxParse (.start .null (tokens strtod s)) = (.ok rest, json) := by
  rcases accepts with ⟨json, parsed⟩
  unfold Parser.parse at parsed
  split at parsed
  · cases parsed
  · rename_i rest result run
    split at parsed
    · cases parsed
    · rename_i strict
      refine ⟨rest, result, ?_, run⟩
      by_contra other
      exact strict ⟨rfl, other⟩

/-- The strict parser takes the texts of JSON whose numbers are in range, and nothing else. It
does not look behind a NUL. -/
theorem accepts_iff (s : Bytes) :
    Accepts strtod s ↔ ∃ text rest, s = text ++ rest ∧ Grammar.WellFormed text ∧
      InRange strtod text ∧ Terminated rest := by
  constructor
  · intro accepts
    rcases accepts.saxParse with ⟨rest, json, ended, run⟩
    rcases Parser.saxParse_ok run with ⟨w, lexed, v, u, split, derived, closes⟩
    cases closes
    rw [List.append_nil] at split
    subst split
    rcases wellFormed_of_tokens lexed ended derived with ⟨text, behind, same, formed, terminated⟩
    refine ⟨text, behind, same, formed, ?_, terminated⟩
    rw [same, tokens_terminated formed terminated] at run
    rcases saxParse_wellFormed strtod formed with ⟨other, ⟨overflow, -⟩ | ⟨-, fits⟩⟩
    · cases run.symm.trans overflow
    · exact fits
  · rintro ⟨text, rest, same, formed, fits, terminated⟩
    rcases saxParse_wellFormed strtod formed with ⟨json, ⟨-, overflow⟩ | ⟨run, -⟩⟩
    · exact absurd fits overflow
    · rw [← tokens_terminated formed terminated, ← same] at run
      exact accepts_of_saxParse run rfl

end JsonManager

end CommonUtils.JSON
