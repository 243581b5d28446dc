import CommonUtils.JSON.Manager

/-! The const `operator[]`. It prints that a key or an index is not there, and then has the
library's non-const `operator[]` make it. -/

namespace CommonUtils.JSON

inductive Subscript where
  | key (key : Bytes)
  | index (index : BitVec 64)

namespace Json

def typeName : Json → String
  | .null => "null"
  | .object _ => "object"
  | .array _ => "array"
  | .string _ => "string"
  | .boolean _ => "boolean"
  | .binary _ => "binary"
  | .numberInteger _ | .numberUnsigned _ | .numberFloat _ => "number"

def resize (elements : List Json) (size : Nat) : List Json :=
  elements.take size ++ List.replicate (size - elements.length) .null

def convertNull : Subscript → Json → Json
  | .key _, .null => .object []
  | .index _, .null => .array []
  | _, node => node

def refer : Option Json → Except Fault Json
  | some element => .ok element
  | none => .error .undefined

section LibraryIndex

-- no vector gets longer than this: `resize` throws and leaves it as it was
variable (limit : Nat)

/-- `operator[]` of the library on a node that is not const, with the node behind it.
`idx + 1` is in 64 bits. -/
def libraryIndex (subscript : Subscript) (node : Json) : Json × Except Fault Json :=
  match subscript, convertNull subscript node with
  | .key key, .object members =>
      let members := Members.emplace key .null members
      (.object members, refer (Members.find key members))
  | .index idx, .array elements =>
      if elements.length ≤ idx.toNat ∧ limit < (idx + 1).toNat then
        (.array elements, .error .lengthError)
      else
        let elements :=
          if elements.length ≤ idx.toNat then resize elements (idx + 1).toNat else elements
        (.array elements, refer elements[idx.toNat]?)
  | .key _, other =>
      (other, .error (.typeError ("[json.exception.type_error.305] cannot use operator[] with a " ++
        "string argument with " ++ other.typeName)))
  | .index _, other =>
      (other, .error (.typeError ("[json.exception.type_error.305] cannot use operator[] with a " ++
        "numeric argument with " ++ other.typeName)))

/-- There is a node for the subscript, or the library throws and changes nothing. -/
def Harmless : Subscript → Json → Prop
  | _, .null => False
  | .key key, .object members => (Members.find key members).isSome
  | .index idx, .array elements => idx.toNat < elements.length ∨ limit < (idx + 1).toNat
  | _, _ => True

theorem libraryIndex_key (key : Bytes) (members : List (Bytes × Json)) :
    libraryIndex limit (.key key) (.object members) =
      (.object (Members.emplace key .null members),
        .ok ((Members.find key members).getD .null)) := by
  simp only [libraryIndex, convertNull, Members.find_emplace, refer]

theorem emplace_eq_iff (key : Bytes) (members : List (Bytes × Json)) :
    Members.emplace key .null members = members ↔ (Members.find key members).isSome := by
  constructor
  · intro same
    have made := Members.find_emplace key Json.null members
    rw [same] at made
    rw [made]
    rfl
  · intro present
    rcases Option.isSome_iff_exists.mp present with ⟨value, found⟩
    exact Members.emplace_of_find found .null

theorem libraryIndex_index (idx : BitVec 64) (elements : List Json) :
    ∃ after result, libraryIndex limit (.index idx) (.array elements) = (.array after, result) ∧
      ((after = elements ∧ result ≠ .error .undefined) ↔
        idx.toNat < elements.length ∨ limit < (idx + 1).toNat) := by
  by_cases inside : idx.toNat < elements.length
  · refine ⟨elements, .ok elements[idx.toNat], ?_, ?_⟩
    · have within : ¬ elements.length ≤ idx.toNat := Nat.not_le.mpr inside
      simp only [libraryIndex, convertNull, within, false_and, if_false,
        List.getElem?_eq_getElem inside, refer]
    · exact ⟨fun _ => .inl inside, fun _ => ⟨rfl, fun fault => nomatch fault⟩⟩
  · have behind : elements.length ≤ idx.toNat := Nat.not_lt.mp inside
    by_cases full : limit < (idx + 1).toNat
    · refine ⟨elements, .error .lengthError, ?_, ?_⟩
      · simp only [libraryIndex, convertNull, behind, full, and_self, if_true]
      · exact ⟨fun _ => .inr full, fun _ => ⟨rfl, fun fault => nomatch fault⟩⟩
    · refine ⟨resize elements (idx + 1).toNat,
        refer (resize elements (idx + 1).toNat)[idx.toNat]?, ?_, ?_⟩
      · simp only [libraryIndex, convertNull, behind, full, and_false, if_false, if_true]
      · constructor
        · rintro ⟨same, defined⟩
          -- with the same elements there is none at the index
          rw [same, List.getElem?_eq_none behind] at defined
          exact absurd rfl defined
        · rintro (less | more)
          · exact absurd less inside
          · exact absurd more full

theorem libraryIndex_iff (subscript : Subscript) (node : Json) :
    ((libraryIndex limit subscript node).1 = node ∧
        (libraryIndex limit subscript node).2 ≠ .error .undefined) ↔
      Harmless limit subscript node := by
  cases subscript with
  | key key =>
      cases node with
      | object members =>
          rw [libraryIndex_key]
          simp [Harmless, emplace_eq_iff]
      | null => simp [libraryIndex, convertNull, Harmless]
      | _ => exact ⟨fun _ => trivial, fun _ => ⟨rfl, fun fault => nomatch fault⟩⟩
  | index idx =>
      cases node with
      | array elements =>
          rcases libraryIndex_index limit idx elements with ⟨after, result, run, same⟩
          rw [run]
          simpa [Harmless] using same
      | null =>
          rcases libraryIndex_index limit idx [] with ⟨after, result, run, -⟩
          have converted : libraryIndex limit (.index idx) .null =
              libraryIndex limit (.index idx) (.array []) := rfl
          rw [converted, run]
          simp [Harmless]
      | _ => exact ⟨fun _ => trivial, fun _ => ⟨rfl, fun fault => nomatch fault⟩⟩

end LibraryIndex

end Json

namespace Manager

def literal (text : String) : Bytes := text.toUTF8.data.toList

def warning (subscript : Subscript) (node : Json) : List Bytes :=
  match subscript with
  | .key key => if node.contains key then [] else [literal "参数不存在：" ++ key]
  | .index idx =>
      match node with
      | .array elements =>
          if elements.length ≤ idx.toNat then [literal "数组索引越界或非数组类型"] else []
      | _ => [literal "数组索引越界或非数组类型"]

/-- What `manager[subscript]` with a getter behind it leaves, on a manager that is const. -/
structure Outcome (α : Type) where
  printed : List Bytes
  manager : Manager
  result : Except Fault α

section ConstGet

variable (limit : Nat)

def constGet {α : Type} (getter : Json → α) (manager : Manager) (subscript : Subscript) :
    Option (Outcome α) :=
  manager.get.map fun node => {
    printed := warning subscript node
    manager := { manager with
      json := Json.access.modifyAt manager.ptr (fun node =>
        (Json.libraryIndex limit subscript node).1) manager.json }
    result := (Json.libraryIndex limit subscript node).2.map getter }

/-- Whatever is read, the document and what can be seen of it are the same behind it. -/
def ReadOnly (toChars : BitVec 64 → Bytes) (manager : Manager) (subscript : Subscript) : Prop :=
  ∀ (α : Type) (getter : Json → α), ∃ outcome,
    manager.constGet limit getter subscript = some outcome ∧
      outcome.manager.json = manager.json ∧
      (∀ key, outcome.manager.exists_ key = manager.exists_ key) ∧
      (∀ indent, outcome.manager.toString toChars indent = manager.toString toChars indent) ∧
      outcome.result ≠ .error .undefined

end ConstGet

theorem constGet_readOnly_iff (toChars : BitVec 64 → Bytes) (limit : Nat) (manager : Manager)
    (subscript : Subscript) (node : Json) (reached : manager.get = some node) :
    manager.ReadOnly limit toChars subscript ↔ Json.Harmless limit subscript node := by
  have found : Json.access.at? manager.ptr manager.json = some node := reached
  rw [← Json.libraryIndex_iff]
  constructor
  · intro readOnly
    rcases readOnly Json id with ⟨outcome, run, same, -, -, defined⟩
    rw [constGet, reached] at run
    cases run
    constructor
    · have after := congrArg (Json.access.at? manager.ptr) same
      simp only [PathAccess.at?_modifyAt, found, Option.map_some, Option.some.injEq] at after
      exact after
    · intro fault
      apply defined
      simp only [fault]
      rfl
  · rintro ⟨kept, defined⟩ α getter
    have run : manager.constGet limit getter subscript = some {
        printed := warning subscript node
        manager := manager
        result := (Json.libraryIndex limit subscript node).2.map getter } := by
      have same : Json.access.modifyAt manager.ptr (fun node =>
          (Json.libraryIndex limit subscript node).1) manager.json = manager.json :=
        PathAccess.modifyAt_fixed found kept
      rw [constGet, reached, same]
      rfl
    refine ⟨_, run, rfl, fun _ => rfl, fun _ => rfl, ?_⟩
    intro fault
    apply defined
    cases result : (Json.libraryIndex limit subscript node).2 with
    | ok value =>
        rw [result] at fault
        cases fault
    | error other =>
        rw [result] at fault
        cases fault
        rfl

theorem constGet_readOnly_present :
    (root (.object [([0x61], .boolean true)])).ReadOnly 8 (fun _ => []) (.key [0x61]) := by
  have present : Json.Harmless 8 (.key [0x61]) (.object [([0x61], .boolean true)]) := by
    simp [Json.Harmless, Members.find]
  exact (constGet_readOnly_iff (fun _ => []) 8 (root (.object [([0x61], .boolean true)]))
    (.key [0x61]) (.object [([0x61], .boolean true)]) rfl).mpr present

/-- A key that is not there is there once it has been read. -/
theorem constGet_makes_absent :
    (root (.object [])).constGet 8 (fun _ => ()) (.key [0x61]) = some {
        printed := [literal "参数不存在：" ++ [0x61]]
        manager := root (.object [([0x61], .null)])
        result := .ok () } ∧
      ¬ (root (.object [])).ReadOnly 8 (fun _ => []) (.key [0x61]) := by
  have run : (root (.object [])).constGet 8 (fun _ => ()) (.key [0x61]) = some {
      printed := [literal "参数不存在：" ++ [0x61]]
      manager := root (.object [([0x61], .null)])
      result := .ok () } := by
    have read : Json.libraryIndex 8 (.key [0x61]) (.object []) =
        (.object [([0x61], .null)], .ok .null) := by
      rw [Json.libraryIndex_key]
      rfl
    have reached : (root (.object [])).get = some (.object []) := rfl
    rw [constGet, reached, Option.map_some, read]
    simp only [root, JsonManager.root, PathAccess.modifyAt, read]
    rfl
  refine ⟨run, fun readOnly => ?_⟩
  rcases readOnly Unit (fun _ => ()) with ⟨outcome, same, kept, -⟩
  rw [run] at same
  cases same
  cases kept

end Manager

end CommonUtils.JSON
