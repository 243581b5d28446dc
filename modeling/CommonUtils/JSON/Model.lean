import CommonUtils.Library.Members
import CommonUtils.Library.PathAccess
import Mathlib.Data.List.Lex

/-! `JsonManager` over documents of `nlohmann::json`. A manager is a document and the
path in it that `ptr_` points to; both overloads of the non-const `operator[]` change the
document on the way. An access with an index that no vector reaches fills the array until
the memory is out, and does not complete: the results are about those that do. -/

namespace CommonUtils.JSON

instance byteOrder : LinearOrder UInt8 where
  le_refl := UInt8.le_refl
  le_trans _ _ _ := UInt8.le_trans
  lt_iff_le_not_ge a b := by
    simp only [UInt8.lt_iff_toNat_lt, UInt8.le_iff_toNat_le]
    omega
  le_antisymm a b := by
    simp only [UInt8.le_iff_toNat_le, ← UInt8.toNat_inj]
    omega
  le_total := UInt8.le_total
  toDecidableLE := inferInstance
  toDecidableLT := inferInstance
  min_def _ _ := rfl

abbrev Bytes := List UInt8

/-- What keeps an operation of the library from giving a result. `undefined` is an access
behind the end of something. -/
inductive Fault where
  | typeError (what : String)
  | lengthError
  | undefined

/-- An object has its members in the order of their keys, and a floating-point number is
given by its bits. -/
inductive Json where
  | null
  | boolean (value : Bool)
  | numberInteger (value : BitVec 64)
  | numberUnsigned (value : BitVec 64)
  | numberFloat (bits : BitVec 64)
  | string (value : Bytes)
  | binary (bytes : List (BitVec 8))
  | array (elements : List Json)
  | object (members : List (Bytes × Json))

inductive Step where
  | key (key : Bytes)
  | index (index : Nat)
  deriving DecidableEq

abbrev Path := List Step

namespace Step

def Apart : Step → Step → Prop
  | .key a, .key b => a ≠ b
  | .index a, .index b => a ≠ b
  | _, _ => False

end Step

namespace Json

/-- The members after a node that is no object was replaced by an empty one. -/
def toObject : Json → List (Bytes × Json)
  | .object members => members
  | _ => []

def toArray : Json → List Json
  | .array elements => elements
  | _ => []

def nullFill (elements : List Json) : Nat → List Json
  | 0 => elements
  | n + 1 => nullFill (elements ++ [.null]) n

def ensure : Step → Json → Json
  | .key key, node => .object (Members.emplace key .null node.toObject)
  | .index index, node =>
      .array (nullFill node.toArray (index + 1 - node.toArray.length))

def child : Step → Json → Option Json
  | .key key, .object members => Members.find key members
  | .index index, .array elements => elements[index]?
  | _, _ => none

def modify : Step → (Json → Json) → Json → Json
  | .key key, f, .object members => .object (Members.update key f members)
  | .index index, f, .array elements => .array (elements.modify index f)
  | _, _, node => node

theorem nullFill_eq (elements : List Json) (n : Nat) :
    nullFill elements n = elements ++ List.replicate n .null := by
  induction n generalizing elements with
  | zero => simp [nullFill]
  | succ n ih => rw [nullFill, ih, List.append_assoc, List.singleton_append, List.replicate_succ]

theorem getElem?_nullFill {elements : List Json} {index : Nat} {value : Json}
    (present : elements[index]? = some value) (n : Nat) :
    (nullFill elements n)[index]? = some value := by
  rw [nullFill_eq, List.getElem?_append_left (List.getElem?_eq_some_iff.mp present).1]
  exact present

theorem child_ensure (i : Step) (node : Json) : (child i (ensure i node)).isSome := by
  cases i with
  | key key =>
      simp only [ensure, child, Members.find_emplace]
      rfl
  | index index =>
      have inside : index < (nullFill node.toArray (index + 1 - node.toArray.length)).length := by
        rw [nullFill_eq, List.length_append, List.length_replicate]
        omega
      simp only [ensure, child, List.getElem?_eq_getElem inside]
      rfl

theorem ensure_of_child (i : Step) (node value : Json) (present : child i node = some value) :
    ensure i node = node := by
  cases i with
  | key key =>
      cases node with
      | object members => simp only [ensure, toObject, Members.emplace_of_find present]
      | _ => cases present
  | index index =>
      cases node with
      | array elements =>
          have inside := (List.getElem?_eq_some_iff.mp present).1
          have full : index + 1 - elements.length = 0 := by omega
          simp only [ensure, toArray, full, nullFill]
      | _ => cases present

theorem child_modify (i : Step) (f : Json → Json) (node : Json) :
    child i (modify i f node) = (child i node).map f := by
  cases i with
  | key key =>
      cases node with
      | object members => exact Members.find_update key f members
      | _ => rfl
  | index index =>
      cases node with
      | array elements => simp [child, modify]
      | _ => rfl

theorem modify_modify (i : Step) (f g : Json → Json) (node : Json) :
    modify i f (modify i g node) = modify i (f ∘ g) node := by
  cases i with
  | key key =>
      cases node with
      | object members => simp only [modify, Members.update_update]
      | _ => rfl
  | index index =>
      cases node with
      | array elements => simp [modify, List.modify_modify_eq]
      | _ => rfl

theorem modify_fixed (i : Step) (f : Json → Json) (node value : Json)
    (present : child i node = some value) (fixed : f value = value) : modify i f node = node := by
  cases i with
  | key key =>
      cases node with
      | object members => simp only [modify, Members.update_fixed present fixed]
      | _ => cases present
  | index index =>
      cases node with
      | array elements =>
          have present : elements[index]? = some value := present
          simp only [modify, array.injEq]
          apply List.ext_getElem?
          intro j
          rw [List.getElem?_modify]
          by_cases same : index = j
          · subst same
            simp [present, fixed]
          · simp [same]
      | _ => cases present

theorem child_modify_apart (i j : Step) (f : Json → Json) (node : Json) (apart : i.Apart j) :
    child i (modify j f node) = child i node := by
  cases i <;> cases j
  case key.key a b =>
    cases node with
    | object members => exact Members.find_update_of_ne apart f members
    | _ => rfl
  case index.index a b =>
    cases node with
    | array elements =>
        have different : b ≠ a := Ne.symm apart
        simp [child, modify, different]
    | _ => rfl
  all_goals exact apart.elim

theorem child_ensure_apart (i j : Step) (node value : Json) (apart : i.Apart j)
    (present : child i node = some value) : child i (ensure j node) = some value := by
  cases i <;> cases j
  case key.key a b =>
    cases node with
    | object members => exact (Members.find_emplace_of_ne apart .null members).trans present
    | _ => cases present
  case index.index a b =>
    cases node with
    | array elements => exact getElem?_nullFill present _
    | _ => cases present
  all_goals exact apart.elim

def access : PathAccess Step Json where
  child := child
  modify := modify
  ensure := ensure
  apart := Step.Apart
  child_ensure := child_ensure
  ensure_of_child := ensure_of_child
  child_modify := child_modify
  modify_modify := modify_modify
  modify_fixed := modify_fixed
  child_modify_apart := child_modify_apart
  child_ensure_apart := child_ensure_apart

inductive WellFormed : Json → Prop where
  | null : WellFormed .null
  | boolean (value : Bool) : WellFormed (.boolean value)
  | numberInteger (value : BitVec 64) : WellFormed (.numberInteger value)
  | numberUnsigned (value : BitVec 64) : WellFormed (.numberUnsigned value)
  | numberFloat (bits : BitVec 64) : WellFormed (.numberFloat bits)
  | string (value : Bytes) : WellFormed (.string value)
  | binary (bytes : List (BitVec 8)) : WellFormed (.binary bytes)
  | array (elements : List Json) (each : ∀ element ∈ elements, WellFormed element) :
      WellFormed (.array elements)
  | object (members : List (Bytes × Json)) (ordered : Members.Ordered members)
      (each : ∀ member ∈ members, WellFormed member.2) : WellFormed (.object members)

namespace WellFormed

theorem toObject {node : Json} (formed : WellFormed node) :
    Members.Ordered node.toObject ∧ ∀ member ∈ node.toObject, WellFormed member.2 := by
  cases formed with
  | object members ordered each => exact ⟨ordered, each⟩
  | _ => exact ⟨List.Pairwise.nil, by simp [Json.toObject]⟩

theorem toArray {node : Json} (formed : WellFormed node) :
    ∀ element ∈ node.toArray, WellFormed element := by
  cases formed with
  | array elements each => exact each
  | _ => simp [Json.toArray]

theorem ensure {node : Json} (formed : WellFormed node) (i : Step) :
    WellFormed (Json.ensure i node) := by
  cases i with
  | key key =>
      rcases formed.toObject with ⟨ordered, each⟩
      refine .object _ (Members.Ordered.emplace ordered key .null) ?_
      intro member present
      rcases Members.mem_emplace present with new | old
      · rw [new]
        exact .null
      · exact each member old
  | index index =>
      refine .array _ ?_
      intro element present
      rw [nullFill_eq] at present
      rcases List.mem_append.mp present with old | new
      · exact formed.toArray element old
      · rw [List.eq_of_mem_replicate new]
        exact .null

theorem modify {node : Json} (formed : WellFormed node) (i : Step) {f : Json → Json}
    (kept : ∀ value, WellFormed value → WellFormed (f value)) :
    WellFormed (Json.modify i f node) := by
  cases i with
  | key key =>
      cases node with
      | object members =>
          rcases formed.toObject with ⟨ordered, each⟩
          refine .object _ (Members.Ordered.update ordered key f) ?_
          intro member present
          rcases Members.mem_update present with old | ⟨old, there, same⟩
          · exact each member old
          · rw [same]
            exact kept _ (each old there)
      | _ => exact formed
  | index index =>
      cases node with
      | array elements =>
          refine .array _ ?_
          intro element present
          rcases List.mem_iff_getElem?.mp present with ⟨j, found⟩
          rw [List.getElem?_modify] at found
          rcases Option.map_eq_some_iff.mp found with ⟨old, there, same⟩
          have formed := formed.toArray old (List.mem_of_getElem? there)
          rw [← same]
          split
          · exact kept old formed
          · exact formed
      | _ => exact formed

theorem modifyAt {node : Json} (formed : WellFormed node) (path : Path) {f : Json → Json}
    (kept : ∀ value, WellFormed value → WellFormed (f value)) :
    WellFormed (access.modifyAt path f node) := by
  induction path generalizing node with
  | nil => exact kept node formed
  | cons i path ih => exact formed.modify i fun _ below => ih below

theorem walk {node : Json} (formed : WellFormed node) (path : Path) :
    WellFormed (access.walk path node) := by
  induction path generalizing node with
  | nil => exact formed
  | cons i path ih => exact (formed.ensure i).modify i fun _ below => ih below

end WellFormed

end Json

structure JsonManager where
  json : Json
  ptr : Path

namespace JsonManager

def root (json : Json) : JsonManager := { json, ptr := [] }

def index (manager : JsonManager) (step : Step) : JsonManager where
  json := Json.access.modifyAt manager.ptr (Json.ensure step) manager.json
  ptr := manager.ptr ++ [step]

def follow (manager : JsonManager) (path : Path) : JsonManager := path.foldl index manager

def get (manager : JsonManager) : Option Json := Json.access.at? manager.ptr manager.json

def set (manager : JsonManager) (value : Json) : JsonManager :=
  { manager with json := Json.access.modifyAt manager.ptr (fun _ => value) manager.json }

def Valid (manager : JsonManager) : Prop := manager.get.isSome

theorem Valid.index {manager : JsonManager} (valid : manager.Valid) (step : Step) :
    (manager.index step).Valid := by
  rcases Option.isSome_iff_exists.mp valid with ⟨node, reached⟩
  have reached : Json.access.at? manager.ptr manager.json = some node := reached
  simp only [Valid, get, JsonManager.index, PathAccess.at?_append, PathAccess.at?_modifyAt, reached,
    Option.map_some, Option.bind_some]
  rcases Option.isSome_iff_exists.mp (Json.child_ensure step node) with ⟨value, made⟩
  have made : Json.access.child step (Json.ensure step node) = some value := made
  simp [PathAccess.at?, made]

theorem valid_root (json : Json) : (root json).Valid := rfl

/-- Chained accesses are one walk from the node that the chain begins at. -/
theorem follow_eq {manager : JsonManager} (valid : manager.Valid) (path : Path) :
    manager.follow path =
      { json := Json.access.modifyAt manager.ptr (Json.access.walk path) manager.json
        ptr := manager.ptr ++ path } := by
  induction path generalizing manager with
  | nil =>
      rcases Option.isSome_iff_exists.mp valid with ⟨node, reached⟩
      rw [PathAccess.modifyAt_fixed reached rfl, List.append_nil]
      rfl
  | cons step path ih =>
      have rest := ih (valid.index step)
      rw [follow] at rest
      rw [follow, List.foldl_cons, rest, JsonManager.index, List.append_assoc]
      congr 1
      exact PathAccess.modifyAt_walk_cons manager.ptr path step manager.json

theorem root_follow (json : Json) (path : Path) :
    (root json).follow path = { json := Json.access.walk path json, ptr := path } :=
  follow_eq (valid_root json) path

end JsonManager

end CommonUtils.JSON
