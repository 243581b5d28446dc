import CommonUtils.JSON.Reading

namespace CommonUtils.JSON

namespace JsonManager

variable (strtod : Bytes → BitVec 64)

/-- A file that could not be opened has no content. The handler catches `parse_error` only. -/
def fromFile : Option Bytes → Except Exception JsonManager
  | none => .ok (root .null)
  | some content =>
      match Parser.parse false .null (Lexer.tokens strtod content) with
      | (.error .outOfRange, _) => .error .outOfRange
      | (.error .parseError, json) => .ok (root json)
      | (.ok (), json) => .ok (root json)

/-- What the parser throws on leaves `json` as it was. -/
def fromString (jsonString : Bytes) : Except Exception JsonManager :=
  match Parser.parse true .null (Lexer.tokens strtod jsonString) with
  | (.error .outOfRange, _) => .error .outOfRange
  | (.error .parseError, _) => .ok (root .null)
  | (.ok (), result) => .ok (root result)

/-- Both loaders make one document of a text, and null of what is no text of JSON. -/
def Agree (s : Bytes) : Prop :=
  ∃ json, fromFile strtod (some s) = .ok (root json) ∧ fromString strtod s = .ok (root json) ∧
    (¬ Grammar.WellFormed s → json = .null)

end JsonManager

namespace Json

theorem modify_ne_null (i : Step) (f : Json → Json) {node : Json} (present : node ≠ .null) :
    modify i f node ≠ .null := by
  cases i <;> cases node <;> first | exact absurd rfl present | exact Json.noConfusion

theorem modifyAt_ne_null {f : Json → Json} (kept : ∀ node, node ≠ .null → f node ≠ .null)
    (path : Path) {node : Json} (present : node ≠ .null) :
    access.modifyAt path f node ≠ .null := by
  cases path with
  | nil => exact kept node present
  | cons i path => exact modify_ne_null i _ present

theorem emplaceBack_ne_null (value : Json) {node : Json} (present : node ≠ .null) :
    emplaceBack value node ≠ .null := by
  cases node with
  | null => exact absurd rfl present
  | _ => exact Json.noConfusion

end Json

namespace Dom

theorem handleValue_refStack (value : Json) (sax : Dom) :
    (sax.handleValue value).1.refStack = sax.refStack := by
  unfold handleValue
  split
  · rfl
  · split
    · rfl
    · split <;> rfl

theorem handleValue_root {value : Json} {sax : Dom} (first : sax.refStack = [] → value ≠ .null)
    (kept : sax.refStack ≠ [] → sax.root ≠ .null) : (sax.handleValue value).1.root ≠ .null := by
  unfold handleValue
  split
  · rename_i empty
    exact first empty
  · rename_i nested
    have present : sax.root ≠ .null := kept (by simp [nested])
    split
    · exact Json.modifyAt_ne_null (fun _ => Json.emplaceBack_ne_null value) _ present
    · split
      · rw [PathAccess.modifyAt_append]
        exact Json.modifyAt_ne_null (fun _ => Json.modify_ne_null _ _) _ present
      · exact present

theorem key_refStack (name : Bytes) (sax : Dom) : (sax.key name).refStack = sax.refStack := by
  unfold key
  split <;> rfl

theorem key_root (name : Bytes) {sax : Dom} (present : sax.root ≠ .null) :
    (sax.key name).root ≠ .null := by
  unfold key
  split
  · exact present
  · exact Json.modifyAt_ne_null (fun _ _ => Json.noConfusion) _ present

end Dom

def Token.startsValue : Token → Bool
  | .beginArray | .beginObject | .literalTrue | .literalFalse => true
  | .valueString _ | .valueUnsigned _ | .valueInteger _ | .valueFloat _ => true
  | _ => false

theorem Token.scalar_of_startsValue {token : Token} (starts : token.startsValue)
    (noArray : token ≠ .beginArray) (noObject : token ≠ .beginObject) :
    ∃ value, token.scalar = some value ∧ value ≠ .null := by
  cases token with
  | beginArray => exact absurd rfl noArray
  | beginObject => exact absurd rfl noObject
  | literalTrue | literalFalse => exact ⟨_, rfl, Json.noConfusion⟩
  | valueString | valueUnsigned | valueInteger | valueFloat => exact ⟨_, rfl, Json.noConfusion⟩
  | _ => cases starts

namespace Parser

structure Loop.Filled (loop : Loop) : Prop where
  depth : loop.sax.refStack.length = loop.states.length
  root : loop.skipToStateEvaluation = true ∨ loop.states ≠ [] → loop.sax.root ≠ .null
  first : loop.skipToStateEvaluation = false → loop.states = [] →
    loop.input.head?.any Token.startsValue

def Round.Filled : Round → Prop
  | .next loop => loop.Filled
  | .done (result, root) => result = .error .outOfRange ∨ root ≠ .null

theorem Loop.Filled.inside {sax : Dom} {states : List Bool} {skip : Bool} {input : List Token}
    (depth : sax.refStack.length = states.length) (root : sax.root ≠ .null)
    (inside : skip = true ∨ states ≠ []) :
    Loop.Filled { sax, states, skipToStateEvaluation := skip, input } where
  depth := depth
  root _ := root
  first unset empty := by
    rcases inside with set | nested
    · cases set.symm.trans unset
    · exact absurd empty nested

theorem readKey_filled {sax : Dom} {states : List Bool}
    (depth : sax.refStack.length = states.length) (root : sax.root ≠ .null)
    (nested : states ≠ []) (input : List Token) : (readKey sax states input).Filled := by
  unfold readKey
  split
  · refine .inside ?_ (Dom.key_root _ root) (.inr nested)
    rw [Dom.key_refStack, depth]
  · exact .inr (Dom.key_root _ root)
  · exact .inr root

theorem evaluateState_filled {sax : Dom} {states : List Bool}
    (depth : sax.refStack.length = states.length) (root : sax.root ≠ .null)
    (input : List Token) : (evaluateState sax states input).Filled := by
  have popped : sax.refStack.tail.length = states.tail.length := by
    simp [depth]
  unfold evaluateState
  split
  · exact .inr root
  · exact .inside depth root (.inr (List.cons_ne_nil _ _))
  · exact .inside popped root (.inl rfl)
  · exact readKey_filled depth root (List.cons_ne_nil _ _) _
  · exact .inside popped root (.inl rfl)
  · exact .inr root

theorem readValue_filled {sax : Dom} {states : List Bool} {input : List Token}
    (depth : sax.refStack.length = states.length)
    (root : states ≠ [] → sax.root ≠ .null)
    (first : states = [] → input.head?.any Token.startsValue) :
    (readValue sax states input).Filled := by
  have shallow : sax.refStack = [] ↔ states = [] := by
    rw [← List.length_eq_zero_iff, depth, List.length_eq_zero_iff]
  have handled : ∀ value, (states = [] → value ≠ .null) →
      (sax.handleValue value).1.root ≠ .null := by
    intro value present
    apply Dom.handleValue_root
    · exact fun empty => present (shallow.mp empty)
    · exact fun nested => root fun empty => nested (shallow.mpr empty)
  have opened : ∀ empty, empty ≠ .null →
      (sax.startContainer empty).root ≠ .null ∧
        (sax.startContainer empty).refStack.length = states.length + 1 := by
    intro empty present
    refine ⟨handled empty fun _ => present, ?_⟩
    simp [Dom.startContainer, Dom.handleValue_refStack, depth]
  rcases opened (.object []) Json.noConfusion with ⟨objectRoot, objectDepth⟩
  rcases opened (.array []) Json.noConfusion with ⟨arrayRoot, arrayDepth⟩
  unfold readValue
  split
  · refine .inside ?_ objectRoot (.inl rfl)
    exact List.length_tail.trans (Nat.sub_eq_of_eq_add objectDepth)
  · exact readKey_filled objectDepth objectRoot (List.cons_ne_nil _ _) _
  · refine .inside ?_ arrayRoot (.inl rfl)
    exact List.length_tail.trans (Nat.sub_eq_of_eq_add arrayDepth)
  · exact .inside arrayDepth arrayRoot (.inr (List.cons_ne_nil _ _))
  · rename_i token input noEmptyObject noObject noEmptyArray noArray
    have single : states = [] → ∃ value, token.scalar = some value ∧ value ≠ .null := by
      intro outermost
      have starts : token.startsValue := first outermost
      exact Token.scalar_of_startsValue starts noArray noObject
    split
    · exact .inl rfl
    · split
      · rename_i value scalar
        refine .inside ?_ ?_ (.inl rfl)
        · rw [Dom.value, Dom.handleValue_refStack, depth]
        · apply handled value
          intro outermost
          rcases single outermost with ⟨other, same, present⟩
          rw [scalar] at same
          cases same
          exact present
      · rename_i unknown
        refine .inr (root fun outermost => ?_)
        rcases single outermost with ⟨other, same, present⟩
        rw [unknown] at same
        cases same
  · refine .inr (root fun outermost => ?_)
    cases first outermost

theorem round_filled {loop : Loop} (filled : loop.Filled) : (round loop).Filled := by
  unfold round
  split
  · rename_i set
    exact evaluateState_filled filled.depth (filled.root (.inl set)) _
  · rename_i unset
    have unset : loop.skipToStateEvaluation = false := Bool.eq_false_of_not_eq_true unset
    exact readValue_filled filled.depth (fun nested => filled.root (.inr nested))
      (filled.first unset)

theorem saxParse_filled {loop : Loop} (filled : loop.Filled) :
    (saxParse loop).1 = .error .outOfRange ∨ (saxParse loop).2 ≠ .null := by
  apply saxParse_keeps (I := Loop.Filled)
    (P := fun outcome => outcome.1 = .error .outOfRange ∨ outcome.2 ≠ .null) _ _ filled
  · intro loop after filled found
    have kept := round_filled filled
    rwa [found] at kept
  · intro loop outcome filled found
    have kept := round_filled filled
    rwa [found] at kept

theorem saxParse_unstarted {token : Token} (starts : token.startsValue = false)
    (input : List Token) :
    ∃ result, result ≠ .error .outOfRange ∧
      saxParse (Loop.start .null (token :: input)) = (result, .null) := by
  cases token with
  | literalNull =>
      exact ⟨.ok input, by simp, (saxParse_next rfl).trans (saxParse_done rfl)⟩
  | endArray | endObject | nameSeparator | valueSeparator | parseError | endOfInput =>
      exact ⟨.error .parseError, by simp, saxParse_done rfl⟩
  | _ => cases starts

end Parser

namespace Lexer

theorem tokens_cons (strtod : Bytes → BitVec 64) (s : Bytes) :
    ∃ token input, tokens strtod s = token :: input := by
  unfold tokens
  split
  · exact ⟨_, _, rfl⟩
  · rw [lex]
    split
    · exact ⟨_, _, rfl⟩
    · exact ⟨_, _, rfl⟩

end Lexer

namespace JsonManager

open Lexer

def StartsValue (strtod : Bytes → BitVec 64) (s : Bytes) : Prop :=
  (tokens strtod s).head?.any Token.startsValue

/-- No number is too large for a double. -/
def InRange (strtod : Bytes → BitVec 64) (s : Bytes) : Prop :=
  ∀ token ∈ tokens strtod s, token.overflows = false

variable {strtod : Bytes → BitVec 64} {s : Bytes}

theorem fromFile_some {result : Except Exception (List Token)} {json : Json}
    (run : Parser.saxParse (.start .null (tokens strtod s)) = (result, json))
    (fits : result ≠ .error .outOfRange) : fromFile strtod (some s) = .ok (root json) := by
  simp only [fromFile, Parser.parse, run]
  rcases result with exception | rest
  · cases exception with
    | parseError => rfl
    | outOfRange => exact absurd rfl fits
  · simp

theorem fromFile_overflow {json : Json}
    (run : Parser.saxParse (.start .null (tokens strtod s)) = (.error .outOfRange, json)) :
    fromFile strtod (some s) = .error .outOfRange := by
  simp only [fromFile, Parser.parse, run]

theorem fromString_eq {result : Except Exception (List Token)} {json : Json}
    (run : Parser.saxParse (.start .null (tokens strtod s)) = (result, json))
    (fits : result ≠ .error .outOfRange) :
    fromString strtod s =
      .ok (root (if result.map List.head? = .ok (some .endOfInput) then json else .null)) := by
  simp only [fromString, Parser.parse, run]
  rcases result with exception | rest
  · cases exception with
    | parseError => simp [Except.map]
    | outOfRange => exact absurd rfl fits
  · by_cases last : rest.head? = some .endOfInput
    · simp [Except.map, last]
    · simp [Except.map, last]

theorem saxParse_wellFormed (strtod : Bytes → BitVec 64) (formed : Grammar.WellFormed s) :
    ∃ json, Parser.saxParse (.start .null (tokens strtod s)) = (.error .outOfRange, json) ∧
        ¬ InRange strtod s ∨
      Parser.saxParse (.start .null (tokens strtod s)) = (.ok [.endOfInput], json) ∧
        InRange strtod s := by
  rcases tokens_wellFormed strtod formed with ⟨word, derived, lexed⟩
  rcases Parser.consumed derived (Dom.start .null) [] [.endOfInput] with ⟨after, run⟩
  refine ⟨after.root, ?_⟩
  rw [lexed]
  have start : Parser.saxParse (.start .null (word ++ [.endOfInput])) =
      Parser.resume word after [] [.endOfInput] := run
  rw [start, Parser.resume]
  have inRange : InRange strtod s ↔ Parser.overflow word = false := by
    simp only [InRange, lexed, List.forall_mem_append, List.forall_mem_singleton, List.any_eq_false]
    constructor
    · intro fits token inside
      simp [fits.1 token inside]
    · intro fits
      exact ⟨fun token inside => Bool.eq_false_of_not_eq_true (fits token inside), rfl⟩
  cases overflow : Parser.overflow word with
  | true => exact .inl ⟨rfl, fun fits => by cases overflow.symm.trans (inRange.mp fits)⟩
  | false => exact .inr ⟨Parser.saxParse_done rfl, inRange.mpr overflow⟩

theorem saxParse_startsValue (starts : StartsValue strtod s) :
    (Parser.saxParse (.start .null (tokens strtod s))).1 = .error .outOfRange ∨
      (Parser.saxParse (.start .null (tokens strtod s))).2 ≠ .null := by
  apply Parser.saxParse_filled
  constructor
  · rfl
  · rintro (evaluated | nested)
    · cases evaluated
    · exact absurd rfl nested
  · exact fun _ _ => starts

theorem agree_iff (strtod : Bytes → BitVec 64) (s : Bytes) :
    Agree strtod s ↔
      (Grammar.WellFormed s ∧ InRange strtod s) ∨ ¬ StartsValue strtod s := by
  constructor
  · rintro ⟨document, loaded, -, malformed⟩
    by_cases starts : StartsValue strtod s
    · left
      rcases run : Parser.saxParse (.start .null (tokens strtod s)) with ⟨result, json⟩
      have filled := saxParse_startsValue starts
      rw [run] at filled
      have fits : result ≠ .error .outOfRange := by
        intro overflow
        rw [overflow] at run
        rw [fromFile_overflow run] at loaded
        cases loaded
      rw [fromFile_some run fits] at loaded
      cases loaded
      have formed : Grammar.WellFormed s :=
        Classical.byContradiction fun none => filled.resolve_left fits (malformed none)
      rcases saxParse_wellFormed strtod formed with ⟨other, ⟨overflow, -⟩ | ⟨-, inRange⟩⟩
      · cases run.symm.trans overflow
        exact absurd rfl fits
      · exact ⟨formed, inRange⟩
    · exact .inr starts
  · rintro (⟨formed, fits⟩ | starts)
    · rcases saxParse_wellFormed strtod formed with ⟨json, ⟨run, overflow⟩ | ⟨run, -⟩⟩
      · exact absurd fits overflow
      · refine ⟨json, fromFile_some run (by simp), ?_, fun malformed => absurd formed malformed⟩
        rw [fromString_eq run (by simp)]
        simp [Except.map]
    · rcases tokens_cons strtod s with ⟨token, input, lexed⟩
      have unstarted : token.startsValue = false := by
        simpa [StartsValue, lexed] using starts
      rcases Parser.saxParse_unstarted unstarted input with ⟨result, fits, run⟩
      rw [← lexed] at run
      refine ⟨.null, fromFile_some run fits, ?_, fun _ => rfl⟩
      rw [fromString_eq run fits]
      simp

/-- A text cut off inside an array. -/
theorem truncated_differs :
    fromFile (fun _ => 0) (some [0x5B, 0x31]) = .ok (root (.array [.numberUnsigned 1])) ∧
      fromString (fun _ => 0) [0x5B, 0x31] = .ok (root .null) ∧
      ¬ Agree (fun _ => 0) [0x5B, 0x31] := by
  have lexed : tokens (fun _ => 0) [0x5B, 0x31] =
      [.beginArray, .valueUnsigned 1, .endOfInput] := by
    have opening : scan (fun _ => 0) [0x5B, 0x31] = (.beginArray, [0x31]) := rfl
    have digit : scan (fun _ => 0) [0x31] = (.valueUnsigned 1, []) := rfl
    calc
      tokens (fun _ => 0) [0x5B, 0x31] = lex (fun _ => 0) [0x5B, 0x31] := rfl
      _ = .beginArray :: lex (fun _ => 0) [0x31] :=
        lex_of_scan opening ⟨Token.noConfusion, Token.noConfusion⟩
      _ = .beginArray :: .valueUnsigned 1 :: lex (fun _ => 0) [] := by
        rw [lex_of_scan digit ⟨Token.noConfusion, Token.noConfusion⟩]
      _ = [.beginArray, .valueUnsigned 1, .endOfInput] := by
        rw [lex_blank fun c inside => by cases inside]
  have run : Parser.saxParse (.start .null (tokens (fun _ => 0) [0x5B, 0x31])) =
      (.error .parseError, .array [.numberUnsigned 1]) := by
    rw [lexed]
    exact (Parser.saxParse_next rfl).trans
      ((Parser.saxParse_next rfl).trans (Parser.saxParse_done rfl))
  have file := fromFile_some run (by simp)
  have string := fromString_eq run (by simp)
  refine ⟨file, string, ?_⟩
  rintro ⟨json, loaded, parsed, -⟩
  rw [file] at loaded
  rw [string] at parsed
  cases loaded
  cases parsed

end JsonManager

end CommonUtils.JSON
