import CommonUtils.JSON.Ownership

namespace CommonUtils.JSON

namespace Json

theorem toNat_of_nonneg {value : BitVec 64} (positive : ¬ value.toInt < 0) :
    (value.toNat : Int) = value.toInt := by
  have less := value.isLt
  rw [BitVec.toInt_eq_toNat_cond] at positive ⊢
  split at positive
  · rw [if_pos ‹_›]
  · omega

theorem canonicalMembers_mapValues (members : List (Bytes × Json)) :
    canonicalMembers members = Members.mapValues canonical members := canonicalMembers_eq members

theorem toObject_canonical (node : Json) :
    node.canonical.toObject = Members.mapValues canonical node.toObject := by
  cases node with
  | object members =>
      rw [canonical, canonicalMembers_mapValues]
      rfl
  | numberInteger value =>
      rw [canonical]
      split <;> rfl
  | array elements =>
      rw [canonical]
      rfl
  | _ => rfl

theorem toArray_canonical (node : Json) :
    node.canonical.toArray = node.toArray.map canonical := by
  cases node with
  | array elements =>
      rw [canonical, canonicalElements_eq]
      rfl
  | numberInteger value =>
      rw [canonical]
      split <;> rfl
  | object members =>
      rw [canonical]
      rfl
  | _ => rfl

theorem canonical_ensure (i : Step) (node : Json) :
    (ensure i node).canonical = ensure i node.canonical := by
  cases i with
  | key key =>
      rw [ensure, ensure, canonical, canonicalMembers_mapValues, toObject_canonical]
      exact congrArg Json.object (Members.emplace_mapValues canonical key .null _).symm
  | index index =>
      rw [ensure, ensure, canonical, canonicalElements_eq, toArray_canonical, nullFill_eq,
        nullFill_eq, List.map_append, List.map_replicate, List.length_map]
      rfl

theorem canonical_modify (i : Step) {f g : Json → Json}
    (below : ∀ node, (f node).canonical = g node.canonical) (node : Json) :
    (modify i f node).canonical = modify i g node.canonical := by
  cases node with
  | object members =>
      cases i with
      | index index =>
          rw [canonical]
          rfl
      | key key =>
          rw [modify, canonical, canonical, canonicalMembers_mapValues, canonicalMembers_mapValues]
          exact congrArg Json.object (Members.update_mapValues canonical key below members).symm
  | array elements =>
      cases i with
      | key key =>
          rw [canonical]
          rfl
      | index index =>
          rw [modify, canonical, canonical, canonicalElements_eq, canonicalElements_eq, modify]
          refine congrArg Json.array (List.ext_getElem? fun j => ?_)
          rw [List.getElem?_map, List.getElem?_modify, List.getElem?_modify, List.getElem?_map]
          cases elements[j]? with
          | none => rfl
          | some element =>
              by_cases here : index = j
              · simp [here, below]
              · simp [here]
  | numberInteger value =>
      have fixed : modify i f (.numberInteger value) = .numberInteger value := by cases i <;> rfl
      rw [fixed, canonical]
      split <;> cases i <;> rfl
  | _ => cases i <;> rfl

theorem Textual.ensure {node : Json} (textual : Textual node) {i : Step} (named : i.Textual) :
    Textual (Json.ensure i node) := by
  cases i with
  | key key => exact textual.ensureKey named
  | index index =>
      refine .array _ fun element present => ?_
      rw [nullFill_eq] at present
      rcases List.mem_append.mp present with old | new
      · cases textual with
        | array elements each => exact each element old
        | _ => cases old
      · rw [List.eq_of_mem_replicate new]
        exact .null

theorem Textual.walk {node : Json} (textual : Textual node) {path : Path}
    (named : ∀ i ∈ path, i.Textual) : Textual (access.walk path node) := by
  induction path generalizing node with
  | nil => exact textual
  | cons i path ih =>
      rcases List.forall_mem_cons.mp named with ⟨first, more⟩
      exact (textual.ensure first).modify i fun _ below => ih below more

theorem canonical_commutes : PathAccess.Commutes access access canonical where
  ensure := canonical_ensure
  modify i _ _ := canonical_modify i

theorem canonical_canonical : (node : Json) → node.canonical.canonical = node.canonical
  | .array elements => by
      rw [canonical, canonical, canonicalElements_eq, canonicalElements_eq, List.map_map]
      exact congrArg Json.array
        (List.map_congr_left fun element inside => canonical_canonical element)
  | .object members => by
      rw [canonical, canonical, canonicalMembers_eq, canonicalMembers_eq, List.map_map]
      exact congrArg Json.object
        (List.map_congr_left fun member inside =>
          congrArg (Prod.mk member.1) (canonical_canonical member.2))
  | .numberInteger value => by
      rw [canonical]
      split
      · rename_i negative
        rw [canonical, if_pos negative]
      · rfl
  | .numberUnsigned _ | .numberFloat _ | .null | .boolean _ | .string _ | .binary _ => rfl
decreasing_by
  · have less := List.sizeOf_lt_of_mem inside
    simp
    omega
  · have less := List.sizeOf_lt_of_mem inside
    rcases member with ⟨key, value⟩
    simp at less ⊢
    omega

end Json

namespace Serializer

variable (toChars : BitVec 64 → Bytes) (pretty : Bool) (indentStep : Nat)

mutual

theorem dump_canonical (currentIndent : Nat) : (json : Json) →
    dump toChars pretty indentStep currentIndent json.canonical =
      dump toChars pretty indentStep currentIndent json
  | .object [] => rfl
  | .object (first :: rest) => by
      have members := dumpMembers_canonical (currentIndent + indentStep) (first :: rest)
      rcases first with ⟨key, value⟩
      rw [Json.canonical, Json.canonicalMembers, dump, dump]
      rw [Json.canonicalMembers] at members
      rw [members]
  | .array [] => rfl
  | .array (first :: rest) => by
      have elements := dumpElements_canonical (currentIndent + indentStep) (first :: rest)
      rw [Json.canonical, Json.canonicalElements, dump, dump]
      rw [Json.canonicalElements] at elements
      rw [elements]
  | .numberInteger value => by
      rw [Json.canonical]
      split
      · rfl
      · rename_i positive
        rw [dump, dump, Json.toNat_of_nonneg positive]
  | .numberUnsigned _ | .numberFloat _ | .null | .boolean _ | .string _ | .binary _ => rfl

theorem dumpMembers_canonical (newIndent : Nat) : (members : List (Bytes × Json)) →
    dumpMembers toChars pretty indentStep newIndent (Json.canonicalMembers members) =
      dumpMembers toChars pretty indentStep newIndent members
  | [] => rfl
  | [(key, value)] => by
      rw [Json.canonicalMembers, Json.canonicalMembers, dumpMembers, dumpMembers,
        dump_canonical newIndent value]
  | (key, value) :: (next, other) :: rest => by
      have more := dumpMembers_canonical newIndent ((next, other) :: rest)
      rw [Json.canonicalMembers] at more ⊢
      rw [Json.canonicalMembers, dumpMembers, dumpMembers, more, dump_canonical newIndent value]

theorem dumpElements_canonical (newIndent : Nat) : (elements : List Json) →
    dumpElements toChars pretty indentStep newIndent (Json.canonicalElements elements) =
      dumpElements toChars pretty indentStep newIndent elements
  | [] => rfl
  | [last] => by
      rw [Json.canonicalElements, Json.canonicalElements, dumpElements, dumpElements,
        dump_canonical newIndent last]
  | element :: next :: rest => by
      have more := dumpElements_canonical newIndent (next :: rest)
      rw [Json.canonicalElements] at more ⊢
      rw [Json.canonicalElements, dumpElements, dumpElements, more,
        dump_canonical newIndent element]

end

end Serializer

theorem Json.dump_canonical (toChars : BitVec 64 → Bytes) (indent : Int) (json : Json) :
    json.canonical.dump toChars indent = json.dump toChars indent := by
  simp only [Json.dump, Serializer.dump_canonical]

namespace Manager

section Sessions

variable (strtod : Bytes → BitVec 64) (toChars : BitVec 64 → Bytes)

def edit (manager : Manager) (change : Path × Json) : Manager :=
  root ((manager.follow change.1).set change.2).json

/-- What is in the file after it has been loaded, changed and saved, if nothing is thrown. -/
def session (content : Bytes) (changes : List (Path × Json)) : Option Bytes :=
  match JsonManager.fromFile strtod (some content) with
  | .ok manager =>
      let saved := (changes.foldl edit (root manager.json)).saveToFile toChars
      if saved.2.isOk then some saved.1 else none
  | .error _ => none

end Sessions

theorem edit_root (json : Json) (change : Path × Json) :
    edit (root json) change = root (Json.access.write change.1 change.2 json) := by
  have followed : ((root json).follow change.1).toJsonManager =
      { json := Json.access.walk change.1 json, ptr := change.1 } :=
    (follow_toJsonManager _ _).trans (JsonManager.root_follow json change.1)
  have changed : (((root json).follow change.1).set change.2).json =
      Json.access.write change.1 change.2 json := by
    rw [set, followed]
    rfl
  rw [edit, changed]

def edited (changes : List (Path × Json)) (json : Json) : Json :=
  changes.foldl (fun json change => Json.access.write change.1 change.2 json) json

theorem foldl_edit (changes : List (Path × Json)) (json : Json) :
    changes.foldl edit (root json) = root (edited changes json) := by
  induction changes generalizing json with
  | nil => rfl
  | cons change changes ih =>
      rw [List.foldl_cons, edit_root, ih]
      rfl

theorem edited_keeps {P : Json → Prop} {changes : List (Path × Json)}
    (kept : ∀ change ∈ changes, ∀ json, P json → P (Json.access.write change.1 change.2 json))
    {json : Json} (holds : P json) : P (edited changes json) := by
  induction changes generalizing json with
  | nil => exact holds
  | cons change changes ih =>
      rcases List.forall_mem_cons.mp kept with ⟨first, more⟩
      exact ih more (first json holds)

theorem canonical_edited (changes : List (Path × Json)) (json : Json) :
    (edited changes json).canonical =
      edited (changes.map fun change => (change.1, change.2.canonical)) json.canonical := by
  induction changes generalizing json with
  | nil => rfl
  | cons change changes ih =>
      rw [edited, List.foldl_cons, ← edited, ih, Json.canonical_commutes.write]
      rfl

/-- It does not matter where a document has been loaded again between the changes. -/
theorem canonical_edited_canonical (changes : List (Path × Json)) (json : Json) :
    (edited changes json.canonical).canonical = (edited changes json).canonical := by
  rw [canonical_edited, canonical_edited, Json.canonical_canonical]

def Values (changes : List (Path × Json)) : Prop :=
  ∀ change ∈ changes, (∀ i ∈ change.1, i.Textual) ∧ change.2.WellFormed ∧ change.2.Textual

theorem edited_wellFormed {changes : List (Path × Json)} (values : Values changes) {json : Json}
    (formed : json.WellFormed) : (edited changes json).WellFormed :=
  edited_keeps (fun change inside _ formed =>
    (formed.walk _).modifyAt _ fun _ _ => (values change inside).2.1) formed

theorem edited_textual {changes : List (Path × Json)} (values : Values changes) {json : Json}
    (textual : json.Textual) : (edited changes json).Textual :=
  edited_keeps (fun change inside _ textual =>
    (textual.walk (values change inside).1).modifyAt _ fun _ _ =>
      (values change inside).2.2) textual

variable {strtod : Bytes → BitVec 64} {toChars : BitVec 64 → Bytes}

/-- Both loaders make one document of the text. -/
def Holds (strtod : Bytes → BitVec 64) (content : Bytes) (json : Json) : Prop :=
  JsonManager.fromFile strtod (some content) = .ok (JsonManager.root json) ∧
    JsonManager.fromString strtod content = .ok (JsonManager.root json)

theorem session_holds (floats : Serializer.FloatText strtod toChars) {content : Bytes}
    {manager : JsonManager} (loaded : JsonManager.fromFile strtod (some content) = .ok manager)
    {changes : List (Path × Json)} (values : Values changes) :
    ∃ text, session strtod toChars content changes = some text ∧
      (edited changes manager.json).dump toChars 4 = .ok text ∧
      Holds strtod text (edited changes manager.json).canonical := by
  have formed := edited_wellFormed values (JsonManager.fromFile_wellFormed loaded)
  have textual := edited_textual values (JsonManager.fromFile_textual loaded)
  have four : (4 : Int) ≤ 512 := by decide
  rcases JsonManager.load_dump floats formed textual four with ⟨text, written, file, string⟩
  refine ⟨text, ?_, written, file, string⟩
  have saved : (root (edited changes manager.json)).saveToFile toChars = (text, .ok ()) := by
    have written : (root (edited changes manager.json)).json_.dump toChars 4 = .ok text := written
    rw [saveToFile, written]
  rw [session, loaded]
  simp only [foldl_edit, saved]
  rfl

theorem session_again (floats : Serializer.FloatText strtod toChars) {text : Bytes} {json : Json}
    (holds : Holds strtod text json.canonical) (written : json.dump toChars 4 = .ok text) :
    session strtod toChars text [] = some text := by
  have none : Values [] := fun change inside => by cases inside
  rcases session_holds floats holds.1 none with ⟨again, saved, rewritten, -⟩
  have rewritten : json.canonical.dump toChars 4 = .ok again := rewritten
  rw [Json.dump_canonical, written] at rewritten
  cases rewritten
  exact saved

theorem edited_append (changes more : List (Path × Json)) (json : Json) :
    edited (changes ++ more) json = edited more (edited changes json) := List.foldl_append

/-- The file holds what all the changes together make of the document, and saving it once more
does not change a byte. -/
theorem sessions_persist (floats : Serializer.FloatText strtod toChars) {content : Bytes}
    {manager : JsonManager} (loaded : JsonManager.fromFile strtod (some content) = .ok manager)
    (first : List (Path × Json)) (scripts : List (List (Path × Json)))
    (values : Values (first :: scripts).flatten) :
    ∃ final, (first :: scripts).foldlM (session strtod toChars) content = some final ∧
      Holds strtod final
        ((first :: scripts).flatten.foldl edit (root manager.json)).json.canonical ∧
      session strtod toChars final [] = some final := by
  rw [foldl_edit]
  rw [List.flatten_cons] at values ⊢
  rcases List.forall_mem_append.mp values with ⟨firstValues, moreValues⟩
  rcases session_holds floats loaded firstValues with ⟨text, saved, written, holds⟩
  rw [List.foldlM_cons, saved]
  cases scripts with
  | nil =>
      rw [List.flatten_nil, List.append_nil]
      exact ⟨text, rfl, holds, session_again floats holds written⟩
  | cons next scripts =>
      rcases sessions_persist floats holds.1 next scripts moreValues with
        ⟨final, run, held, again⟩
      refine ⟨final, run, ?_, again⟩
      rw [foldl_edit] at held
      have rejoined := canonical_edited_canonical (next :: scripts).flatten
        (edited first manager.json)
      rw [edited_append]
      exact rejoined ▸ held

/-- A member is added to an empty object, and the file is saved once more. -/
theorem sessions_persist_member :
    ∃ final, [[([Step.key [0x61]], Json.boolean true)], []].foldlM
        (session (fun text => BitVec.ofNat 64 (Lexer.decimal (text.take (text.length - 2))))
          decimalBits) [0x7B, 0x7D] = some final ∧
      Holds (fun text => BitVec.ofNat 64 (Lexer.decimal (text.take (text.length - 2)))) final
        (.object [([0x61], .boolean true)]) ∧
      session (fun text => BitVec.ofNat 64 (Lexer.decimal (text.take (text.length - 2))))
        decimalBits final [] = some final := by
  have formed : (Json.object []).WellFormed := .object [] .nil (by simp)
  have textual : (Json.object []).Textual := .object [] (by simp) (by simp)
  have step : (4 : Int) ≤ 512 := by decide
  rcases JsonManager.load_dump floatText_decimalBits formed textual step with
    ⟨text, written, loaded, -⟩
  cases written
  refine sessions_persist floatText_decimalBits loaded [([.key [0x61]], .boolean true)] [[]] ?_
  intro change inside
  rw [List.mem_singleton.mp inside]
  refine ⟨fun i named => ?_, .boolean true, .boolean true⟩
  rw [List.mem_singleton.mp named]
  exact ⟨['a'], rfl⟩

end Manager

end CommonUtils.JSON
