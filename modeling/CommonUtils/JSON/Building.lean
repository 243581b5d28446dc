import CommonUtils.JSON.Printed
import CommonUtils.JSON.Loader

namespace CommonUtils.JSON

namespace Dom

structure Ready (sax : Dom) (place : Path) : Prop where
  path : ∀ value, (sax.handleValue value).2 = place
  found : ∀ value, Json.access.at? place (sax.value value).root = some value
  changed : ∀ value f,
    Json.access.modifyAt place f (sax.value value).root = (sax.value (f value)).root

theorem ready_start (root : Json) : (start root).Ready [] where
  path _ := rfl
  found _ := rfl
  changed _ _ := rfl

structure Inside (base : Dom) (place : Path) (node : Json) (sax : Dom) : Prop where
  root : sax.root = (base.value node).root
  refStack : sax.refStack = place :: base.refStack

section Inside

variable {base sax : Dom} {place : Path}

theorem inside_start (ready : base.Ready place) (empty : Json) :
    Inside base place empty (base.startContainer empty) where
  root := rfl
  refStack := by
    show (base.handleValue empty).2 :: (base.handleValue empty).1.refStack = _
    rw [ready.path, handleValue_refStack]

theorem handleValue_array {elements : List Json} (ready : base.Ready place)
    (inside : Inside base place (.array elements) sax) (value : Json) :
    sax.handleValue value =
      ({ sax with root := (base.value (.array (elements ++ [value]))).root },
        place ++ [.index elements.length]) := by
  have reached : Json.access.at? place sax.root = some (.array elements) := by
    rw [inside.root]
    exact ready.found _
  have added : Json.access.modifyAt place (Json.emplaceBack value) sax.root =
      (base.value (.array (elements ++ [value]))).root := by
    rw [inside.root]
    exact ready.changed _ _
  rw [handleValue, inside.refStack]
  simp only [reached, added]

theorem ready_array {elements : List Json} (ready : base.Ready place)
    (inside : Inside base place (.array elements) sax) :
    sax.Ready (place ++ [.index elements.length]) := by
  have handled := handleValue_array ready inside
  have root : ∀ value,
      (sax.value value).root = (base.value (.array (elements ++ [value]))).root := by
    intro value
    rw [Dom.value, handled]
  constructor
  · intro value
    rw [handled]
  · intro value
    rw [root, PathAccess.at?_append, ready.found, Option.bind_some]
    simp [PathAccess.at?, Json.access, Json.child]
  · intro value f
    rw [root, root, PathAccess.modifyAt_append, ready.changed]
    congr 2
    simp [PathAccess.modifyAt, Json.access, Json.modify, List.modify_eq_take_drop]

theorem Inside.element {elements : List Json} {after : Dom} {value : Json}
    (ready : base.Ready place) (inside : Inside base place (.array elements) sax)
    (root : after.root = (sax.value value).root) (refStack : after.refStack = sax.refStack) :
    Inside base place (.array (elements ++ [value])) after where
  root := by rw [root, Dom.value, handleValue_array ready inside]
  refStack := refStack.trans inside.refStack

theorem key_root_eq {members : List (Bytes × Json)} (ready : base.Ready place)
    (inside : Inside base place (.object members) sax) (name : Bytes) :
    (sax.key name).root =
        (base.value (.object (Members.emplace name .null members))).root ∧
      (sax.key name).objectElement = some (place, name) := by
  rw [key, inside.refStack]
  refine ⟨?_, rfl⟩
  show Json.access.modifyAt place (Json.ensure (.key name)) sax.root = _
  rw [inside.root, ready.changed]
  rfl

theorem handleValue_member {members : List (Bytes × Json)} (ready : base.Ready place)
    (inside : Inside base place (.object members) sax) (name : Bytes) (value : Json) :
    (sax.key name).handleValue value =
      ({ sax.key name with
          root := (base.value (.object (Members.assign name value members))).root },
        place ++ [.key name]) := by
  rcases key_root_eq ready inside name with ⟨root, element⟩
  have reached : Json.access.at? place (sax.key name).root =
      some (.object (Members.emplace name .null members)) := by
    rw [root]
    exact ready.found _
  have assigned : Json.access.modifyAt (place ++ [.key name]) (fun _ => value) (sax.key name).root =
      (base.value (.object (Members.assign name value members))).root := by
    rw [root, PathAccess.modifyAt_append, ready.changed, ← Members.update_emplace name value .null]
    rfl
  have refStack : (sax.key name).refStack = place :: base.refStack := by
    rw [key_refStack, inside.refStack]
  rw [handleValue]
  simp only [refStack, reached, element, assigned]

theorem ready_member {members : List (Bytes × Json)} (ready : base.Ready place)
    (inside : Inside base place (.object members) sax) (name : Bytes) :
    (sax.key name).Ready (place ++ [.key name]) := by
  have handled := handleValue_member ready inside name
  have root : ∀ value, ((sax.key name).value value).root =
      (base.value (.object (Members.assign name value members))).root := by
    intro value
    rw [Dom.value, handled]
  constructor
  · intro value
    rw [handled]
  · intro value
    rw [root, PathAccess.at?_append, ready.found, Option.bind_some]
    simp [PathAccess.at?, Json.access, Json.child, Members.find_assign]
  · intro value f
    rw [root, root, PathAccess.modifyAt_append, ready.changed]
    congr 2
    simp only [PathAccess.modifyAt, Json.access, Json.modify, Members.update_assign]

theorem Inside.member {members : List (Bytes × Json)} {after : Dom} {name : Bytes} {value : Json}
    (ready : base.Ready place) (inside : Inside base place (.object members) sax)
    (root : after.root = ((sax.key name).value value).root)
    (refStack : after.refStack = (sax.key name).refStack) :
    Inside base place (.object (Members.assign name value members)) after where
  root := by rw [root, Dom.value, handleValue_member ready inside]
  refStack := by rw [refStack, key_refStack, inside.refStack]

theorem Inside.close {node : Json} (inside : Inside base place node sax) :
    sax.endArray.root = (base.value node).root ∧ sax.endArray.refStack = base.refStack := by
  refine ⟨inside.root, ?_⟩
  rw [endArray, inside.refStack]
  rfl

end Inside

end Dom

namespace Json

mutual

/-- What is not negative is an unsigned number. -/
def canonical : Json → Json
  | .numberInteger value =>
      if value.toInt < 0 then .numberInteger value else .numberUnsigned value
  | .array elements => .array (canonicalElements elements)
  | .object members => .object (canonicalMembers members)
  | node => node

def canonicalElements : List Json → List Json
  | [] => []
  | element :: rest => canonical element :: canonicalElements rest

def canonicalMembers : List (Bytes × Json) → List (Bytes × Json)
  | [] => []
  | (key, value) :: rest => (key, canonical value) :: canonicalMembers rest

end

theorem canonicalElements_eq (elements : List Json) :
    canonicalElements elements = elements.map canonical := by
  induction elements with
  | nil => rfl
  | cons element rest ih => rw [canonicalElements, ih, List.map_cons]

theorem canonicalMembers_eq (members : List (Bytes × Json)) :
    canonicalMembers members = members.map fun member => (member.1, member.2.canonical) := by
  induction members with
  | nil => rfl
  | cons member rest ih => rw [canonicalMembers, ih, List.map_cons]

theorem keys_canonicalMembers (members : List (Bytes × Json)) :
    (canonicalMembers members).map Prod.fst = members.map Prod.fst := by
  rw [canonicalMembers_eq, List.map_map]
  rfl

theorem ordered_canonicalMembers {members : List (Bytes × Json)}
    (ordered : Members.Ordered members) : Members.Ordered (canonicalMembers members) := by
  rw [Members.Ordered, ← List.pairwise_map (f := Prod.fst) (R := (· < ·))] at ordered ⊢
  rwa [keys_canonicalMembers]

end Json

namespace Parser

open Serializer

/-- Wherever a value may stand, `word` is read as `json`. -/
def Builds (word : List Token) (json : Json) : Prop :=
  ∀ sax place states rest, sax.Ready place → ∃ after,
    saxParse { sax, states, skipToStateEvaluation := false, input := word ++ rest } =
        saxParse { sax := after, states, skipToStateEvaluation := true, input := rest } ∧
      after.root = (sax.value json).root ∧ after.refStack = sax.refStack

theorem builds_scalar {token : Token} {value : Json} (scalar : token.scalar = some value)
    (fits : token.overflows = false) : Builds [token] value := by
  intro sax place states rest ready
  have step : round { sax, states, skipToStateEvaluation := false, input := token :: rest } =
      .next { sax := sax.value value, states, skipToStateEvaluation := true, input := rest } := by
    cases token <;> cases scalar <;> simp [round, readValue, Token.scalar, fits]
  exact ⟨sax.value value, saxParse_next step, rfl, Dom.handleValue_refStack value sax⟩

section Containers

variable {base : Dom} {place : Path}

theorem builds_elements (ready : base.Ready place) {elements : List Json}
    (each : ∀ element ∈ elements, Builds (word element) element.canonical) (some_ : elements ≠ [])
    {read : List Json} {sax : Dom} (inside : base.Inside place (.array read) sax)
    (states : List Bool) (rest : List Token) :
    ∃ after, saxParse {
        sax, states := true :: states, skipToStateEvaluation := false
        input := elementsWord elements ++ rest } =
      saxParse {
        sax := after, states := true :: states, skipToStateEvaluation := true, input := rest } ∧
      base.Inside place (.array (read ++ Json.canonicalElements elements)) after := by
  induction elements generalizing read sax with
  | nil => exact absurd rfl some_
  | cons element more ih =>
      have here := each element List.mem_cons_self
      have position := Dom.ready_array ready inside
      cases more with
      | nil =>
          rcases here sax _ (true :: states) rest position with ⟨after, run, root, refStack⟩
          rw [elementsWord]
          exact ⟨after, run, inside.element ready root refStack⟩
      | cons next more =>
          rcases here sax _ (true :: states)
            (.valueSeparator :: (elementsWord (next :: more) ++ rest)) position with
            ⟨middle, run, root, refStack⟩
          have behind := inside.element ready root refStack
          rcases ih (fun element inside => each element (List.mem_cons_of_mem _ inside))
            (List.cons_ne_nil _ _) behind with ⟨after, further, built⟩
          rw [List.append_assoc] at built
          refine ⟨after, ?_, built⟩
          rw [elementsWord, List.append_assoc, List.cons_append, run]
          exact (saxParse_next rfl).trans further

theorem builds_members (ready : base.Ready place) {members : List (Bytes × Json)}
    (each : ∀ member ∈ members, Builds (word member.2) member.2.canonical)
    (some_ : members ≠ []) {read : List (Bytes × Json)} {sax : Dom}
    (inside : base.Inside place (.object read) sax) (states : List Bool) (rest : List Token) :
    ∃ loop after, readKey sax (false :: states) (membersWord members ++ rest) = .next loop ∧
      saxParse loop =
        saxParse {
          sax := after, states := false :: states, skipToStateEvaluation := true, input := rest } ∧
      base.Inside place (.object ((Json.canonicalMembers members).foldl
        (fun members member => Members.assign member.1 member.2 members) read)) after := by
  induction members generalizing read sax with
  | nil => exact absurd rfl some_
  | cons member more ih =>
      rcases member with ⟨key, value⟩
      have here : Builds (word value) value.canonical := each (key, value) List.mem_cons_self
      have position := Dom.ready_member ready inside key
      cases more with
      | nil =>
          rcases here (sax.key key) _ (false :: states) rest position with
            ⟨after, run, root, refStack⟩
          rw [membersWord]
          exact ⟨_, after, rfl, run, inside.member ready root refStack⟩
      | cons next more =>
          rcases here (sax.key key) _ (false :: states)
            (.valueSeparator :: (membersWord (next :: more) ++ rest)) position with
            ⟨middle, run, root, refStack⟩
          have behind := inside.member ready root refStack
          rcases ih (fun member inside => each member (List.mem_cons_of_mem _ inside))
            (List.cons_ne_nil _ _) behind with ⟨loop, after, keyed, further, built⟩
          have step : round {
              sax := middle, states := false :: states, skipToStateEvaluation := true
              input := .valueSeparator :: (membersWord (next :: more) ++ rest) } = .next loop :=
            keyed
          refine ⟨_, after, ?_, run.trans ((saxParse_next step).trans further), built⟩
          rw [membersWord, List.cons_append, List.cons_append, List.append_assoc, List.cons_append]
          rfl

theorem word_head (json : Json) :
    ∃ token rest, word json = token :: rest ∧ token ≠ .endArray := by
  have integer : ∀ x, integerToken x ≠ .endArray := by
    intro x same
    rcases integerToken_scalar x with ⟨value, scalar⟩
    rw [same] at scalar
    cases scalar
  cases json with
  | numberInteger value | numberUnsigned value =>
      rw [word]
      exact ⟨_, _, rfl, integer _⟩
  | boolean value =>
      rw [word]
      cases value with
      | false => exact ⟨_, _, rfl, Token.noConfusion⟩
      | true => exact ⟨_, _, rfl, Token.noConfusion⟩
  | _ =>
      rw [word]
      exact ⟨_, _, rfl, Token.noConfusion⟩

theorem elementsWord_head (first : Json) (more : List Json) :
    ∃ token rest, elementsWord (first :: more) = token :: rest ∧ token ≠ .endArray := by
  rcases word_head first with ⟨token, rest, same, other⟩
  cases more with
  | nil =>
      rw [elementsWord]
      exact ⟨token, rest, same, other⟩
  | cons next more =>
      rw [elementsWord, same]
      exact ⟨token, _, rfl, other⟩

theorem builds_array {elements : List Json}
    (each : ∀ element ∈ elements, Builds (word element) element.canonical) :
    Builds (word (.array elements)) (Json.array elements).canonical := by
  intro sax place states rest ready
  have opened := Dom.inside_start ready (.array [])
  rw [word, Json.canonical]
  cases elements with
  | nil =>
      rw [elementsWord, Json.canonicalElements]
      exact ⟨sax.startArray.endArray, saxParse_next rfl, opened.close⟩
  | cons first more =>
      rcases builds_elements ready each (List.cons_ne_nil _ _) opened states
        (.endArray :: rest) with ⟨after, run, built⟩
      refine ⟨after.endArray, ?_, built.close⟩
      have step : round {
          sax, states, skipToStateEvaluation := false
          input := .beginArray :: (elementsWord (first :: more) ++ .endArray :: rest) } = .next {
            sax := sax.startArray, states := true :: states, skipToStateEvaluation := false
            input := elementsWord (first :: more) ++ .endArray :: rest } := by
        rcases elementsWord_head first more with ⟨token, tail, same, other⟩
        rw [same]
        cases token with
        | endArray => exact absurd rfl other
        | _ => rfl
      rw [List.cons_append, List.append_assoc]
      exact (saxParse_next step).trans (run.trans (saxParse_next rfl))

theorem builds_object {members : List (Bytes × Json)} (ordered : Members.Ordered members)
    (each : ∀ member ∈ members, Builds (word member.2) member.2.canonical) :
    Builds (word (.object members)) (Json.object members).canonical := by
  intro sax place states rest ready
  have opened := Dom.inside_start ready (.object [])
  rw [word, Json.canonical]
  cases members with
  | nil =>
      rw [membersWord, Json.canonicalMembers]
      exact ⟨sax.startObject.endObject, saxParse_next rfl, opened.close⟩
  | cons first more =>
      rcases builds_members ready each (List.cons_ne_nil _ _) opened states
        (.endObject :: rest) with ⟨loop, after, keyed, run, built⟩
      have again : (Json.canonicalMembers (first :: more)).foldl
          (fun members member => Members.assign member.1 member.2 members) [] =
            Json.canonicalMembers (first :: more) :=
        (Json.ordered_canonicalMembers ordered).assignAll
      rw [again] at built
      refine ⟨after.endObject, ?_, built.close⟩
      have step : round {
          sax, states, skipToStateEvaluation := false
          input := .beginObject :: (membersWord (first :: more) ++ .endObject :: rest) } =
            .next loop := by
        rcases first with ⟨key, value⟩
        have named : ∃ tail, membersWord ((key, value) :: more) =
            .valueString key :: tail := by
          cases more with
          | nil =>
              rw [membersWord]
              exact ⟨_, rfl⟩
          | cons next more =>
              rw [membersWord]
              exact ⟨_, rfl⟩
        rcases named with ⟨tail, same⟩
        rw [same] at keyed ⊢
        exact keyed
      rw [List.cons_append, List.append_assoc]
      exact (saxParse_next step).trans (run.trans (saxParse_next rfl))

end Containers

/-- A document is built again from its tokens. -/
theorem builds_word {json : Json} (formed : json.WellFormed) (textual : json.Textual) :
    Builds (word json) json.canonical := by
  induction textual with
  | null =>
      rw [word]
      exact builds_scalar rfl rfl
  | boolean value =>
      rw [word]
      cases value with
      | false => exact builds_scalar rfl rfl
      | true => exact builds_scalar rfl rfl
  | numberInteger value =>
      rw [word, Json.canonical, integerToken, BitVec.ofInt_toInt]
      split
      · exact builds_scalar rfl rfl
      · exact builds_scalar rfl rfl
  | numberUnsigned value =>
      have unsigned : integerToken value.toNat = .valueUnsigned value := by
        rw [integerToken, if_neg (by omega), BitVec.ofInt_natCast, BitVec.ofNat_toNat,
          BitVec.setWidth_eq]
      rw [word, unsigned]
      exact builds_scalar rfl rfl
  | numberFloat bits finite =>
      rw [word]
      apply builds_scalar rfl
      rw [Token.overflows, finite]
      rfl
  | string value utf8 =>
      rw [word]
      exact builds_scalar rfl rfl
  | array elements each ih =>
      cases formed with
      | array _ formed =>
          exact builds_array fun element inside => ih element inside (formed element inside)
  | object members keys each ih =>
      cases formed with
      | object _ ordered formed =>
          exact builds_object ordered fun member inside => ih member inside (formed member inside)

end Parser

end CommonUtils.JSON
