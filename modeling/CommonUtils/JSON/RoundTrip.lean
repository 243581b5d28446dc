import CommonUtils.JSON.Building

namespace CommonUtils.JSON

namespace Json

namespace Textual

theorem toObject {node : Json} (textual : Textual node) :
    ∀ member ∈ node.toObject, Grammar.Utf8 member.1 ∧ Textual member.2 := by
  cases textual with
  | object members keys each => exact fun member inside => ⟨keys member inside, each member inside⟩
  | _ => simp [Json.toObject]

theorem child {node value : Json} (textual : Textual node) {i : Step}
    (found : Json.child i node = some value) : Textual value := by
  cases textual with
  | array elements each =>
      cases i with
      | key key => cases found
      | index index => exact each value (List.mem_of_getElem? found)
  | object members keys each =>
      cases i with
      | key key => exact each (key, value) (Members.mem_of_find found)
      | index index => cases found
  | _ => cases i <;> cases found

theorem at? {node value : Json} (textual : Textual node) {path : Path}
    (found : access.at? path node = some value) : Textual value := by
  induction path generalizing node with
  | nil =>
      cases found
      exact textual
  | cons i path ih =>
      rcases Option.bind_eq_some_iff.mp found with ⟨below, here, rest⟩
      exact ih (textual.child here) rest

theorem ensureKey {node : Json} (textual : Textual node) {key : Bytes}
    (utf8 : Grammar.Utf8 key) : Textual (Json.ensure (.key key) node) := by
  have both : ∀ member ∈ Members.emplace key .null node.toObject,
      Grammar.Utf8 member.1 ∧ Textual member.2 := by
    intro member present
    rcases Members.mem_emplace present with new | old
    · rw [new]
      exact ⟨utf8, .null⟩
    · exact textual.toObject member old
  exact .object _ (fun member inside => (both member inside).1)
    fun member inside => (both member inside).2

theorem modify {node : Json} (textual : Textual node) (i : Step) {f : Json → Json}
    (kept : ∀ value, Textual value → Textual (f value)) : Textual (Json.modify i f node) := by
  cases textual with
  | array elements each =>
      cases i with
      | key key => exact .array elements each
      | index index =>
          refine .array _ fun element present => ?_
          rcases List.mem_iff_getElem?.mp present with ⟨j, found⟩
          rw [List.getElem?_modify] at found
          rcases Option.map_eq_some_iff.mp found with ⟨old, there, same⟩
          have before := each old (List.mem_of_getElem? there)
          rw [← same]
          split
          · exact kept old before
          · exact before
  | object members keys each =>
      cases i with
      | index index => exact .object members keys each
      | key key =>
          refine .object _ (fun member present => ?_) fun member present => ?_
          · rcases Members.mem_update present with old | ⟨old, there, same⟩
            · exact keys member old
            · rw [same]
              exact keys old there
          · rcases Members.mem_update present with old | ⟨old, there, same⟩
            · exact each member old
            · rw [same]
              exact kept _ (each old there)
  | null => cases i <;> exact .null
  | boolean value => cases i <;> exact .boolean value
  | numberInteger value => cases i <;> exact .numberInteger value
  | numberUnsigned value => cases i <;> exact .numberUnsigned value
  | numberFloat bits finite => cases i <;> exact .numberFloat bits finite
  | string value utf8 => cases i <;> exact .string value utf8

theorem modifyAt {node : Json} (textual : Textual node) (path : Path) {f : Json → Json}
    (kept : ∀ value, Textual value → Textual (f value)) :
    Textual (access.modifyAt path f node) := by
  induction path generalizing node with
  | nil => exact kept node textual
  | cons i path ih => exact textual.modify i fun _ below => ih below

theorem emplaceBack {node value : Json} (textual : Textual node) (added : Textual value) :
    Textual (Json.emplaceBack value node) := by
  cases textual with
  | array elements each =>
      refine .array _ fun element present => ?_
      rcases List.mem_append.mp present with old | new
      · exact each element old
      · rw [List.mem_singleton.mp new]
        exact added
  | null => exact .null
  | boolean value => exact .boolean value
  | numberInteger value => exact .numberInteger value
  | numberUnsigned value => exact .numberUnsigned value
  | numberFloat bits finite => exact .numberFloat bits finite
  | string value utf8 => exact .string value utf8
  | object members keys each => exact .object members keys each

end Textual

end Json

structure Kept (P : Json → Prop) : Prop where
  scalar : ∀ {token : Token} {value}, token.scalar = some value → token.overflows = false →
    token.Utf8 → P value
  array : P (.array [])
  object : P (.object [])
  ensureKey : ∀ {node}, P node → ∀ {key}, Grammar.Utf8 key → P (Json.ensure (.key key) node)
  emplaceBack : ∀ {node value}, P node → P value → P (Json.emplaceBack value node)
  modifyAt : ∀ {node f}, P node → ∀ path, (∀ value, P value → P (f value)) →
    P (Json.access.modifyAt path f node)

namespace Dom

variable {P : Json → Prop}

theorem handleValue_kept (kept : Kept P) {value : Json} {sax : Dom} (root : P sax.root)
    (added : P value) : P (sax.handleValue value).1.root := by
  unfold handleValue
  split
  · exact added
  · split
    · exact kept.modifyAt root _ fun _ below => kept.emplaceBack below added
    · split
      · exact kept.modifyAt root _ fun _ _ => added
      · exact root

theorem key_kept (kept : Kept P) {name : Bytes} (utf8 : Grammar.Utf8 name) {sax : Dom}
    (root : P sax.root) : P (sax.key name).root := by
  unfold key
  split
  · exact root
  · exact kept.modifyAt root _ fun _ below => kept.ensureKey below utf8

end Dom

namespace Parser

def Round.root : Round → Json
  | .next loop => loop.sax.root
  | .done (_, root) => root

section Kept

variable {P : Json → Prop}

theorem readKey_kept (kept : Kept P) {sax : Dom} (root : P sax.root) (states : List Bool)
    {input : List Token} (utf8 : ∀ token ∈ input, token.Utf8) :
    P (readKey sax states input).root := by
  unfold readKey
  split
  · exact Dom.key_kept kept (utf8 _ List.mem_cons_self) root
  · exact Dom.key_kept kept (utf8 _ List.mem_cons_self) root
  · exact root

theorem evaluateState_kept (kept : Kept P) {sax : Dom} (root : P sax.root) (states : List Bool)
    {input : List Token} (utf8 : ∀ token ∈ input, token.Utf8) :
    P (evaluateState sax states input).root := by
  unfold evaluateState
  split
  · exact root
  · exact root
  · exact root
  · exact readKey_kept kept root _ (List.forall_mem_cons.mp utf8).2
  · exact root
  · exact root

theorem readValue_kept (kept : Kept P) {sax : Dom} (root : P sax.root) (states : List Bool)
    {input : List Token} (utf8 : ∀ token ∈ input, token.Utf8) :
    P (readValue sax states input).root := by
  have array : P sax.startArray.root := Dom.handleValue_kept kept root kept.array
  have object : P sax.startObject.root := Dom.handleValue_kept kept root kept.object
  unfold readValue
  split
  · exact object
  · exact readKey_kept kept object _ (List.forall_mem_cons.mp utf8).2
  · exact array
  · exact array
  · split
    · exact root
    · rename_i fits
      split
      · rename_i scalar
        exact Dom.handleValue_kept kept root (kept.scalar scalar
          (Bool.eq_false_of_not_eq_true fits) (utf8 _ List.mem_cons_self))
      · exact root
  · exact root

theorem round_kept (kept : Kept P) {loop : Loop} (root : P loop.sax.root)
    (utf8 : ∀ token ∈ loop.input, token.Utf8) : P (round loop).root := by
  unfold round
  split
  · exact evaluateState_kept kept root _ utf8
  · exact readValue_kept kept root _ utf8

theorem saxParse_kept (kept : Kept P) {loop : Loop} (root : P loop.sax.root)
    (utf8 : ∀ token ∈ loop.input, token.Utf8) : P (saxParse loop).2 := by
  apply saxParse_keeps (I := fun loop => P loop.sax.root ∧ ∀ token ∈ loop.input, token.Utf8)
    (P := fun outcome => P outcome.2) _ _ ⟨root, utf8⟩
  · rintro loop after ⟨root, utf8⟩ found
    have holds := round_kept kept root utf8
    rw [found] at holds
    rcases round_reads found with ⟨first, read, same⟩
    refine ⟨holds, fun token inside => utf8 token ?_⟩
    rw [same]
    exact List.mem_cons_of_mem _ (List.mem_append_right _ inside)
  · rintro loop outcome ⟨root, utf8⟩ found
    have holds := round_kept kept root utf8
    rwa [found] at holds

end Kept

end Parser

namespace Json

theorem scalar_textual {token : Token} {value : Json} (scalar : token.scalar = some value)
    (fits : token.overflows = false) (utf8 : token.Utf8) : value.Textual := by
  cases token <;> cases scalar
  case literalTrue => exact .boolean true
  case literalFalse => exact .boolean false
  case literalNull => exact .null
  case valueString bytes => exact .string bytes utf8
  case valueUnsigned value => exact .numberUnsigned value
  case valueInteger value => exact .numberInteger value
  case valueFloat bits =>
    apply Json.Textual.numberFloat
    simpa [Token.overflows] using fits

theorem kept_textual : Kept Textual where
  scalar := scalar_textual
  array := .array [] (by simp)
  object := .object [] (by simp) (by simp)
  ensureKey textual _ utf8 := textual.ensureKey utf8
  emplaceBack textual := textual.emplaceBack
  modifyAt textual path kept := textual.modifyAt path kept

theorem scalar_wellFormed {token : Token} {value : Json} (scalar : token.scalar = some value) :
    value.WellFormed := by
  cases token <;> cases scalar
  case literalTrue => exact .boolean true
  case literalFalse => exact .boolean false
  case literalNull => exact .null
  case valueString bytes => exact .string _
  case valueUnsigned value => exact .numberUnsigned value
  case valueInteger value => exact .numberInteger value
  case valueFloat bits => exact .numberFloat bits

theorem WellFormed.emplaceBack {node value : Json} (formed : WellFormed node)
    (added : WellFormed value) : WellFormed (Json.emplaceBack value node) := by
  cases node with
  | array elements =>
      refine .array _ fun element present => ?_
      rcases List.mem_append.mp present with old | new
      · exact formed.toArray element old
      · rw [List.mem_singleton.mp new]
        exact added
  | _ => exact formed

theorem kept_wellFormed : Kept WellFormed where
  scalar scalar _ _ := scalar_wellFormed scalar
  array := .array [] (by simp)
  object := .object [] .nil (by simp)
  ensureKey formed key _ := formed.ensure (.key key)
  emplaceBack formed := formed.emplaceBack
  modifyAt formed path kept := formed.modifyAt path kept

end Json

namespace JsonManager

open Serializer

variable {strtod : Bytes → BitVec 64}

theorem fromFile_kept {P : Json → Prop} (kept : Kept P) (null : P .null)
    {content : Option Bytes} {manager : JsonManager}
    (loaded : fromFile strtod content = .ok manager) : P manager.json := by
  cases content with
  | none =>
      cases loaded
      exact null
  | some s =>
      rcases run : Parser.saxParse (.start .null (Lexer.tokens strtod s)) with ⟨result, json⟩
      have holds : P (Parser.saxParse (.start .null (Lexer.tokens strtod s))).2 :=
        Parser.saxParse_kept kept null (Lexer.tokens_utf8 strtod s)
      rw [run] at holds
      by_cases fits : result = .error .outOfRange
      · rw [fits] at run
        rw [fromFile_overflow run] at loaded
        cases loaded
      · rw [fromFile_some run fits] at loaded
        cases loaded
        exact holds

theorem fromFile_textual {content : Option Bytes} {manager : JsonManager}
    (loaded : fromFile strtod content = .ok manager) : manager.json.Textual :=
  fromFile_kept Json.kept_textual .null loaded

theorem fromFile_wellFormed {content : Option Bytes} {manager : JsonManager}
    (loaded : fromFile strtod content = .ok manager) : manager.json.WellFormed :=
  fromFile_kept Json.kept_wellFormed .null loaded

/-- Both loaders make the document again from what `dump` writes. -/
theorem load_dump {toChars : BitVec 64 → Bytes} (floats : FloatText strtod toChars) {json : Json}
    (formed : json.WellFormed) (textual : json.Textual) {indent : Int} (step : indent ≤ 512) :
    ∃ text, json.dump toChars indent = .ok text ∧
      fromFile strtod (some text) = .ok (root json.canonical) ∧
      fromString strtod text = .ok (root json.canonical) := by
  rcases Json.tokens_dump floats step textual with ⟨text, written, lexed⟩
  rcases Parser.builds_word formed textual (Dom.start .null) [] [] [.endOfInput]
    (Dom.ready_start .null) with ⟨after, run, built, -⟩
  have built : after.root = json.canonical := built
  have last : Parser.saxParse (.start .null (Lexer.tokens strtod text)) =
      (.ok [.endOfInput], json.canonical) := by
    rw [lexed, ← built]
    exact run.trans (Parser.saxParse_done rfl)
  refine ⟨text, written, fromFile_some last (by simp), ?_⟩
  rw [fromString_eq last (by simp)]
  simp [Except.map]

end JsonManager

end CommonUtils.JSON
