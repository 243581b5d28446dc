import CommonUtils.JSON.ConstAccess
import CommonUtils.JSON.Sessions
import CommonUtils.Library.Observed

namespace CommonUtils.JSON

inductive ValueType where
  | int
  | float
  | double
  | bool
  | string
  deriving DecidableEq

abbrev ValueType.Value : ValueType → Type
  | .int => BitVec 32
  | .float => BitVec 32
  | .double => BitVec 64
  | .bool => Bool
  | .string => Bytes

/-- The conversions between arithmetic types that floating point has a part in. -/
structure Casts where
  intToDouble : Int → BitVec 64
  intToFloat : Int → BitVec 32
  doubleToFloat : BitVec 64 → BitVec 32
  doubleToInt : BitVec 64 → BitVec 32

def Subscript.Textual : Subscript → Prop
  | .key name => Grammar.Utf8 name
  | .index _ => True

namespace Json

def expected {α : Type} (what : String) (node : Json) : Except Fault α :=
  .error (.typeError ("[json.exception.type_error.302] type must be " ++ what ++ ", but is " ++
    node.typeName))

/-- `from_json` for an arithmetic type. One that is none of the library's own takes a boolean for
a number. -/
def arithmetic {α : Type} (booleans : Bool) (ofInt : Int → α) (ofDouble : BitVec 64 → α) :
    Json → Except Fault α
  | .numberUnsigned value => .ok (ofInt value.toNat)
  | .numberInteger value => .ok (ofInt value.toInt)
  | .numberFloat bits => .ok (ofDouble bits)
  | .boolean value =>
      if booleans then .ok (ofInt value.toNat) else expected "number" (.boolean value)
  | node => expected "number" node

def fromJson (casts : Casts) : (type : ValueType) → Json → Except Fault type.Value
  | .int => arithmetic true (BitVec.ofInt 32) casts.doubleToInt
  | .float => arithmetic true casts.intToFloat casts.doubleToFloat
  | .double => arithmetic false casts.intToDouble id
  | .bool => fun
      | .boolean value => .ok value
      | node => expected "boolean" node
  | .string => fun
      | .string value => .ok value
      | node => expected "string" node

theorem child_canonical (i : Step) (node : Json) :
    child i node.canonical = (child i node).map canonical := by
  cases node with
  | object members =>
      cases i with
      | key key =>
          rw [canonical, canonicalMembers_mapValues]
          exact Members.find_mapValues canonical key members
      | index index =>
          rw [canonical]
          rfl
  | array elements =>
      cases i with
      | key key =>
          rw [canonical]
          rfl
      | index index =>
          rw [canonical, canonicalElements_eq]
          exact List.getElem?_map
  | numberInteger value =>
      have none : child i (.numberInteger value) = none := by cases i <;> rfl
      rw [none, canonical]
      split <;> cases i <;> rfl
  | _ => cases i <;> rfl

theorem at?_canonical (path : Path) (node : Json) :
    access.at? path node.canonical = (access.at? path node).map canonical := by
  induction path generalizing node with
  | nil => rfl
  | cons i path ih =>
      have first : access.child i node.canonical = (access.child i node).map canonical :=
        child_canonical i node
      rw [PathAccess.at?, PathAccess.at?, first]
      cases access.child i node with
      | none => rfl
      | some below => exact ih below

theorem contains_canonical (key : Bytes) (node : Json) :
    node.canonical.contains key = node.contains key := by
  rw [contains, contains, child_canonical, Option.isSome_map]

theorem arithmetic_canonical {α : Type} (booleans : Bool) (ofInt : Int → α)
    (ofDouble : BitVec 64 → α) (node : Json) :
    arithmetic booleans ofInt ofDouble node.canonical =
      arithmetic booleans ofInt ofDouble node := by
  cases node with
  | numberInteger value =>
      rw [canonical]
      split
      · rfl
      · rename_i positive
        rw [arithmetic, arithmetic, toNat_of_nonneg positive]
  | _ => rfl

theorem fromJson_canonical (casts : Casts) (type : ValueType) (node : Json) :
    fromJson casts type node.canonical = fromJson casts type node := by
  cases type with
  | int | float | double => exact arithmetic_canonical _ _ _ node
  | bool | string =>
      cases node with
      | numberInteger value =>
          rw [canonical]
          split <;> rfl
      | _ => rfl

theorem resize_canonical (elements : List Json) (size : Nat) :
    resize (elements.map canonical) size = (resize elements size).map canonical := by
  rw [resize, resize, List.map_append, List.map_take, List.map_replicate, List.length_map]
  rfl

theorem refer_canonical (element : Option Json) :
    refer (element.map canonical) = (refer element).map canonical := by
  cases element <;> rfl

theorem libraryIndex_canonical (limit : Nat) (subscript : Subscript) (node : Json) :
    libraryIndex limit subscript node.canonical =
      ((libraryIndex limit subscript node).1.canonical,
        (libraryIndex limit subscript node).2.map canonical) := by
  have object (key : Bytes) (members : List (Bytes × Json)) :
      libraryIndex limit (.key key) (Json.object members).canonical =
        ((libraryIndex limit (.key key) (.object members)).1.canonical,
          (libraryIndex limit (.key key) (.object members)).2.map canonical) := by
    rw [canonical, libraryIndex_key, libraryIndex_key, canonical, canonicalMembers_mapValues,
      canonicalMembers_mapValues, Members.find_mapValues]
    refine Prod.ext (congrArg Json.object (Members.emplace_mapValues canonical key .null _)) ?_
    cases Members.find key members <;> rfl
  have array (idx : BitVec 64) (elements : List Json) :
      libraryIndex limit (.index idx) (Json.array elements).canonical =
        ((libraryIndex limit (.index idx) (.array elements)).1.canonical,
          (libraryIndex limit (.index idx) (.array elements)).2.map canonical) := by
    rw [canonical, canonicalElements_eq]
    simp only [libraryIndex, convertNull, List.length_map]
    split
    · rw [canonical, canonicalElements_eq]
      rfl
    · split
      · rw [canonical, canonicalElements_eq, resize_canonical, List.getElem?_map, refer_canonical]
      · rw [canonical, canonicalElements_eq, List.getElem?_map, refer_canonical]
  cases node with
  | object members =>
      cases subscript with
      | key key => exact object key members
      | index idx =>
          rw [canonical]
          rfl
  | array elements =>
      cases subscript with
      | key key =>
          rw [canonical]
          rfl
      | index idx => exact array idx elements
  | null =>
      cases subscript with
      | key key => exact object key []
      | index idx => exact array idx []
  | numberInteger value =>
      rw [canonical]
      cases subscript <;> split <;> simp [libraryIndex, convertNull, canonical, typeName, *] <;> rfl
  | _ => cases subscript <;> rfl

theorem libraryIndex_leaves (limit : Nat) (subscript : Subscript) (node : Json) :
    (libraryIndex limit subscript node).1 = node ∨
      (∃ key, subscript = .key key ∧
        (libraryIndex limit subscript node).1 = ensure (.key key) node) ∨
      ∃ size, (libraryIndex limit subscript node).1 = .array (resize node.toArray size) := by
  have array (idx : BitVec 64) (elements : List Json) :
      (libraryIndex limit (.index idx) (.array elements)).1 = .array elements ∨
        ∃ size, (libraryIndex limit (.index idx) (.array elements)).1 =
          .array (resize elements size) := by
    simp only [libraryIndex, convertNull]
    split
    · exact .inl rfl
    · split
      · exact .inr ⟨_, rfl⟩
      · exact .inl rfl
  cases subscript with
  | key key =>
      cases node with
      | object members => exact .inr (.inl ⟨key, rfl, by rw [libraryIndex_key]; rfl⟩)
      | null => exact .inr (.inl ⟨key, rfl, congrArg Prod.fst (libraryIndex_key limit key [])⟩)
      | _ => exact .inl rfl
  | index idx =>
      cases node with
      | array elements => exact (array idx elements).imp_right .inr
      | null =>
          rcases array idx [] with made | made
          · exact .inr (.inr ⟨0, made⟩)
          · exact .inr (.inr made)
      | _ => exact .inl rfl

theorem mem_resize {elements : List Json} {size : Nat} {element : Json}
    (present : element ∈ resize elements size) : element ∈ elements ∨ element = .null := by
  rcases List.mem_append.mp present with old | new
  · exact .inl (List.mem_of_mem_take old)
  · exact .inr (List.eq_of_mem_replicate new)

theorem WellFormed.libraryIndex {node : Json} (formed : WellFormed node) (limit : Nat)
    (subscript : Subscript) : WellFormed (Json.libraryIndex limit subscript node).1 := by
  rcases libraryIndex_leaves limit subscript node with same | ⟨key, -, made⟩ | ⟨size, made⟩
  · rwa [same]
  · rw [made]
    exact formed.ensure (.key key)
  · rw [made]
    refine .array _ fun element present => ?_
    rcases mem_resize present with old | new
    · exact formed.toArray element old
    · rw [new]
      exact .null

theorem Textual.libraryIndex {node : Json} (textual : Textual node) (limit : Nat)
    {subscript : Subscript} (named : subscript.Textual) :
    Textual (Json.libraryIndex limit subscript node).1 := by
  rcases libraryIndex_leaves limit subscript node with same | ⟨key, rfl, made⟩ | ⟨size, made⟩
  · rwa [same]
  · rw [made]
    exact textual.ensureKey named
  · rw [made]
    refine .array _ fun element present => ?_
    rcases mem_resize present with old | new
    · cases textual with
      | array elements each => exact each element old
      | _ => cases old
    · rw [new]
      exact .null

end Json

namespace Manager

/-- What a program does with its document. A getter is called on a chained access, or on one
access of the owner, which is const then. -/
inductive Operation where
  | set (path : Path) (value : Json)
  | get (path : Path) (type : ValueType)
  | exists_ (path : Path) (key : Bytes)
  | toString (path : Path) (indent : Int)
  | constGet (subscript : Subscript) (type : ValueType)
  | restart

def Operation.isRestart : Operation → Bool
  | .restart => true
  | _ => false

inductive Observation where
  | value (type : ValueType) (result : Option (Except Fault type.Value))
  | present (result : Option Bool)
  | text (bytes : Except Fault Bytes)
  | printed (lines : List Bytes)

def Operation.Writable : Operation → Prop
  | .set path value => (∀ i ∈ path, i.Textual) ∧ value.WellFormed ∧ value.Textual
  | .get path _ | .exists_ path _ | .toString path _ => ∀ i ∈ path, i.Textual
  | .constGet subscript _ => subscript.Textual
  | .restart => True

section Perform

variable (strtod : Bytes → BitVec 64) (toChars : BitVec 64 → Bytes) (limit : Nat) (casts : Casts)

/-- What is seen, and the owner behind it. In a restart the document is saved, and the next
program begins with the file. -/
def perform (manager : Manager) : Operation → Option (List Observation × Manager)
  | .set path value => some ([], edit manager (path, value))
  | .get path type =>
      let node := manager.follow path
      some ([.value type (node.get.map (Json.fromJson casts type))], root node.json)
  | .exists_ path key =>
      let node := manager.follow path
      some ([.present (node.exists_ key)], root node.json)
  | .toString path indent =>
      let node := manager.follow path
      some ([.text (node.toString toChars indent)], root node.json)
  | .constGet subscript type =>
      (manager.constGet limit (Json.fromJson casts type) subscript).map fun outcome =>
        ([.printed outcome.printed, .value type (some (outcome.result.bind id))], outcome.manager)
  | .restart =>
      let saved := manager.saveToFile toChars
      if saved.2.isOk then
        match JsonManager.fromFile strtod (some saved.1) with
        | .ok loaded => some ([], root loaded.json)
        | .error _ => none
      else none

end Perform

def Kin (manager other : Manager) : Prop :=
  ∃ json json', manager = root json ∧ other = root json' ∧ json.canonical = json'.canonical ∧
    json.WellFormed ∧ json.Textual

theorem root_follow (json : Json) (path : Path) : ((root json).follow path).toJsonManager =
    { json := Json.access.walk path json, ptr := path } :=
  (follow_toJsonManager _ _).trans (JsonManager.root_follow json path)

theorem walk_alike {json json' : Json} (same : json.canonical = json'.canonical) (path : Path) :
    (Json.access.walk path json).canonical = (Json.access.walk path json').canonical := by
  rw [Json.canonical_commutes.walk, Json.canonical_commutes.walk, same]

theorem get_alike {α : Type*} {json json' : Json} (same : json.canonical = json'.canonical)
    (path : Path) {look : Json → α} (blind : ∀ node, look node.canonical = look node) :
    ((root json).follow path).get.map look = ((root json').follow path).get.map look := by
  have seen (json : Json) : ((root json).follow path).get.map look =
      (Json.access.at? path (Json.access.walk path json).canonical).map look := by
    rw [JsonManager.get, root_follow, Json.at?_canonical, Option.map_map]
    exact congrArg (Option.map · _) (funext fun node => (blind node).symm)
  rw [seen, seen, walk_alike same]

theorem toString_alike (toChars : BitVec 64 → Bytes) {json json' : Json}
    (same : json.canonical = json'.canonical) (path : Path) (indent : Int) :
    ((root json).follow path).toString toChars indent =
      ((root json').follow path).toString toChars indent := by
  cases path with
  | nil =>
      have dumped (indent : Int) : json.dump toChars indent = json'.dump toChars indent := by
        rw [← Json.dump_canonical, same, Json.dump_canonical]
      exact congrArg₂ (ite (indent = 0)) (dumped (-1)) (dumped indent)
  | cons step path =>
      rw [toString, toString, json_, json_, follow_isOwner, follow_isOwner]
      rfl

theorem warning_canonical (subscript : Subscript) (node : Json) :
    warning subscript node.canonical = warning subscript node := by
  cases subscript with
  | key key => rw [warning, warning, Json.contains_canonical]
  | index idx =>
      cases node with
      | array elements =>
          rw [Json.canonical, Json.canonicalElements_eq, warning, warning, List.length_map]
      | numberInteger value =>
          rw [Json.canonical]
          split <;> rfl
      | _ => rfl

theorem constGet_alike {α : Type} (limit : Nat) {json json' : Json}
    (same : json.canonical = json'.canonical) (subscript : Subscript) {getter : Json → α}
    (blind : ∀ node, getter node.canonical = getter node) :
    ∃ printed result, (root json).constGet limit getter subscript =
        some ⟨printed, root (Json.libraryIndex limit subscript json).1, result⟩ ∧
      (root json').constGet limit getter subscript =
        some ⟨printed, root (Json.libraryIndex limit subscript json').1, result⟩ ∧
      (Json.libraryIndex limit subscript json).1.canonical =
        (Json.libraryIndex limit subscript json').1.canonical := by
  have both := Json.libraryIndex_canonical limit subscript json
  rw [same, Json.libraryIndex_canonical limit subscript json', Prod.mk.injEq] at both
  have warned : warning subscript json' = warning subscript json := by
    rw [← warning_canonical, ← same, warning_canonical]
  have seen (result : Except Fault Json) :
      (result.map Json.canonical).map getter = result.map getter := by
    cases result with
    | ok node => exact congrArg Except.ok (blind node)
    | error fault => rfl
  have found : (Json.libraryIndex limit subscript json').2.map getter =
      (Json.libraryIndex limit subscript json).2.map getter := by
    rw [← seen, both.2, seen]
  refine ⟨warning subscript json, (Json.libraryIndex limit subscript json).2.map getter, rfl, ?_,
    both.1.symm⟩
  rw [← warned, ← found]
  rfl

section Restarts

variable {strtod : Bytes → BitVec 64} {toChars : BitVec 64 → Bytes} {limit : Nat} {casts : Casts}

/-- A document that is saved and loaded again is the one it was, up to how its numbers are
kept. -/
theorem restart_unseen (floats : Serializer.FloatText strtod toChars) {manager other : Manager}
    (kin : Kin manager other) :
    ∃ loaded, perform strtod toChars limit casts manager .restart = some ([], loaded) ∧
      Kin loaded other := by
  rcases kin with ⟨json, json', rfl, rfl, same, formed, textual⟩
  have four : (4 : Int) ≤ 512 := by decide
  rcases JsonManager.load_dump floats formed textual four with ⟨text, written, loaded, -⟩
  have saved : (root json).saveToFile toChars = (text, .ok ()) := by
    have written : (root json).json_.dump toChars 4 = .ok text := written
    rw [saveToFile, written]
  refine ⟨root json.canonical, ?_, json.canonical, json', rfl, rfl, ?_, ?_, ?_⟩
  · rw [perform, saved]
    dsimp only
    rw [loaded]
    rfl
  · rw [Json.canonical_canonical, same]
  · exact JsonManager.fromFile_wellFormed loaded
  · exact JsonManager.fromFile_textual loaded

theorem perform_alike {manager other : Manager} (kin : Kin manager other) {operation : Operation}
    (writable : operation.Writable) (stays : operation.isRestart = false) :
    Observed.Alike (perform strtod toChars limit casts) (perform strtod toChars limit casts) Kin
      manager other operation := by
  rcases kin with ⟨json, json', rfl, rfl, same, formed, textual⟩
  have walked (path : Path) (named : ∀ i ∈ path, i.Textual) :
      Kin (root ((root json).follow path).json) (root ((root json').follow path).json) := by
    rw [root_follow, root_follow]
    exact ⟨_, _, rfl, rfl, walk_alike same path, formed.walk path, textual.walk named⟩
  cases operation with
  | set path value =>
      refine ⟨_, _, _, rfl, rfl, ?_⟩
      rw [edit_root, edit_root]
      refine ⟨_, _, rfl, rfl, ?_, (formed.walk _).modifyAt _ fun _ _ => writable.2.1,
        (textual.walk writable.1).modifyAt _ fun _ _ => writable.2.2⟩
      rw [Json.canonical_commutes.write, Json.canonical_commutes.write, same]
  | get path type =>
      refine ⟨_, _, _, rfl, ?_, walked path writable⟩
      rw [perform, get_alike same path (Json.fromJson_canonical casts type)]
  | exists_ path key =>
      refine ⟨_, _, _, rfl, ?_, walked path writable⟩
      have seen : ((root json).follow path).exists_ key = ((root json').follow path).exists_ key :=
        get_alike same path (Json.contains_canonical key)
      rw [perform, seen]
  | toString path indent =>
      refine ⟨_, _, _, rfl, ?_, walked path writable⟩
      rw [perform, toString_alike toChars same]
  | constGet subscript type =>
      rcases constGet_alike limit same subscript (Json.fromJson_canonical casts type) with
        ⟨printed, result, run, run', alike⟩
      refine ⟨_, _, _, by rw [perform, run]; rfl, by rw [perform, run']; rfl, _, _, rfl, rfl, alike,
        formed.libraryIndex limit subscript, textual.libraryIndex limit writable⟩
  | restart => cases stays

/-- A program that saves its document and loads it again, however often, sees what it would see
if it had kept it. -/
theorem restarts_unseen (floats : Serializer.FloatText strtod toChars) (limit : Nat)
    (casts : Casts) {json : Json} (formed : json.WellFormed) (textual : json.Textual)
    (operations : List Operation) (writable : ∀ operation ∈ operations, operation.Writable) :
    ∃ seen, Observed.shown (perform strtod toChars limit casts) (root json) operations = some seen ∧
      Observed.shown (perform strtod toChars limit casts) (root json)
        (operations.filter fun operation => !operation.isRestart) = some seen := by
  have kin : Kin (root json) (root json) := ⟨json, json, rfl, rfl, rfl, formed, textual⟩
  refine Observed.shown_filter (R := Kin) ?_ ?_ kin writable
  · intro manager other operation kin _ restarts
    cases operation with
    | restart => exact restart_unseen floats kin
    | _ => cases restarts
  · intro manager other operation kin writable stays
    exact perform_alike kin writable stays

end Restarts

def noCasts : Casts where
  intToDouble _ := 0
  intToFloat _ := 0
  doubleToFloat _ := 0
  doubleToInt _ := 0

/-- A number is set, and read behind two restarts. -/
theorem restarts_unseen_number :
    Observed.shown (perform (fun text => BitVec.ofNat 64 (Lexer.decimal
        (text.take (text.length - 2)))) decimalBits 8 noCasts) (root .null)
      [.set [.key [0x6E], .index 1] (.numberInteger 7), .restart,
        .exists_ [.key [0x6E]] [0x6D], .restart, .get [.key [0x6E], .index 1] .int] =
      some [.present (some false), .value .int (some (.ok 7))] := by
  have formed : Json.null.WellFormed := .null
  have textual : Json.null.Textual := .null
  have named : Grammar.Utf8 [0x6E] := ⟨['n'], rfl⟩
  rcases restarts_unseen floatText_decimalBits 8 noCasts formed textual
    [.set [.key [0x6E], .index 1] (.numberInteger 7), .restart,
      .exists_ [.key [0x6E]] [0x6D], .restart, .get [.key [0x6E], .index 1] .int]
    (by simp [Operation.Writable, Step.Textual, named, Json.WellFormed.numberInteger,
      Json.Textual.numberInteger]) with ⟨seen, run, kept⟩
  rw [run, ← kept]
  rfl

end Manager

end CommonUtils.JSON
