import CommonUtils.JSON.Lens
import CommonUtils.JSON.Manager
import CommonUtils.JSON.RoundTrip

/-! What a manager reached by `operator[]` says of its node. Its getters look at the node
that it points to, but `toString` and `saveToFile` at the document of its own. -/

namespace CommonUtils.JSON

namespace Json

theorem child_ensure_eq (i : Step) (node : Json) :
    child i (ensure i node) = some ((child i node).getD .null) := by
  cases i with
  | key key =>
      simp only [ensure, child, Members.find_emplace]
      cases node <;> rfl
  | index index =>
      cases present : child (.index index) node with
      | some value =>
          rw [ensure_of_child _ _ _ present]
          exact present
      | none =>
          have short : node.toArray.length ≤ index := by
            cases node with
            | array elements => exact List.getElem?_eq_none_iff.mp present
            | _ => exact Nat.zero_le index
          have filled : index - node.toArray.length < index + 1 - node.toArray.length := by omega
          simp only [ensure, child, nullFill_eq]
          rw [List.getElem?_append_right short, List.getElem?_replicate, if_pos filled]
          rfl

theorem read_eq_getD (json : Json) (path : Path) :
    json.read path = some ((json.resolve path).getD .null) := by
  rw [read_eq, walk_eq]
  induction path generalizing json with
  | nil => rfl
  | cons i path ih =>
      have below : resolve json (i :: path) = (child i json).bind fun value => resolve value path :=
        rfl
      have walked : resolve (access.walk (i :: path) json) (i :: path) =
          resolve (access.walk path ((child i json).getD .null)) path := by
        show (child i (modify i (access.walk path) (ensure i json))).bind (access.at? path) = _
        rw [child_modify, child_ensure_eq]
        rfl
      rw [walked, ih, below]
      cases child i json with
      | some value => rfl
      | none =>
          cases path with
          | nil => rfl
          | cons j path => cases j <;> rfl

theorem canonical_null {node : Json} (same : node.canonical = .null) : node = .null := by
  cases node with
  | null => rfl
  | numberInteger value =>
      rw [canonical] at same
      split at same <;> cases same
  | _ => simp [canonical] at same

theorem Textual.of_canonical : (node : Json) → Textual node.canonical → Textual node
  | .array elements, textual => by
      rw [canonical, canonicalElements_eq] at textual
      cases textual with
      | array _ each =>
          exact .array elements fun element inside =>
            of_canonical element (each _ (List.mem_map_of_mem inside))
  | .object members, textual => by
      rw [canonical, canonicalMembers_eq] at textual
      cases textual with
      | object _ keys each =>
          have there (member : Bytes × Json) (inside : member ∈ members) :
              (member.1, member.2.canonical) ∈
                members.map fun member => (member.1, member.2.canonical) :=
            List.mem_map_of_mem inside
          exact .object members
            (fun member inside => keys (member.1, member.2.canonical) (there member inside))
            fun member inside =>
              of_canonical member.2 (each (member.1, member.2.canonical) (there member inside))
  | .numberInteger value, _ => .numberInteger value
  | .numberUnsigned value, _ => .numberUnsigned value
  | .numberFloat _, textual => textual
  | .null, _ => .null
  | .boolean value, _ => .boolean value
  | .string _, textual => textual
  | .binary _, textual => textual
decreasing_by
  · have less := List.sizeOf_lt_of_mem inside
    simp
    omega
  · have less := List.sizeOf_lt_of_mem inside
    rcases member with ⟨key, value⟩
    simp at less ⊢
    omega

end Json

namespace Manager

variable (strtod : Bytes → BitVec 64) (toChars : BitVec 64 → Bytes)

/-- Every operation of the manager is about the node. What is read again is the same node, with
an integer that is not negative an unsigned one. -/
structure Speaks (manager : Manager) (node : Json) : Prop where
  get : manager.get = some node
  exists_ : ∀ key, manager.exists_ key = some (node.contains key)
  set : ∀ value, (manager.set value).get = some value
  toString : ∀ indent,
    manager.toString toChars indent = node.dump toChars (if indent = 0 then -1 else indent)
  saveToFile : ∃ text loaded place, manager.saveToFile toChars = (text, .ok ()) ∧
    JsonManager.fromFile strtod (some text) = .ok loaded ∧
    loaded.json.resolve place = some node.canonical

variable {strtod toChars}

theorem root_follow_get (json : Json) (path : Path) :
    ((root json).follow path).get = some ((json.resolve path).getD .null) := by
  rw [follow_toJsonManager]
  exact json.read_eq_getD path

theorem speaks_of_json {manager : Manager} {node : Json}
    (floats : Serializer.FloatText strtod toChars) (get : manager.get = some node)
    (own : manager.json_ = node) (formed : node.WellFormed) (textual : node.Textual) :
    Speaks strtod toChars manager node where
  get := get
  exists_ key := by rw [Manager.exists_, get]; rfl
  set value := by
    have reached : Json.access.at? manager.ptr manager.json = some node := get
    show Json.access.at? manager.ptr (Json.access.modifyAt manager.ptr _ manager.json) = _
    rw [PathAccess.at?_modifyAt, reached]
    rfl
  toString indent := by
    rw [Manager.toString, own]
    split <;> rfl
  saveToFile := by
    have four : (4 : Int) ≤ 512 := by decide
    rcases JsonManager.load_dump floats formed textual four with
      ⟨text, written, loaded, -⟩
    refine ⟨text, _, [], ?_, loaded, rfl⟩
    rw [Manager.saveToFile, own, written]

theorem Speaks.saved {manager : Manager} {node : Json}
    (floats : Serializer.FloatText strtod toChars) (speaks : Speaks strtod toChars manager node) :
    node.Textual ∧ (manager.json_ = .null → node = .null) := by
  rcases speaks.saveToFile with ⟨text, loaded, place, written, run, found⟩
  have textual := JsonManager.fromFile_textual run
  refine ⟨.of_canonical node (textual.at? found), fun own => ?_⟩
  have four : (4 : Int) ≤ 512 := by decide
  rcases JsonManager.load_dump floats .null .null four with
    ⟨other, writtenNull, loadedNull, -⟩
  rw [Manager.saveToFile, own, writtenNull] at written
  cases written
  rw [loadedNull] at run
  cases run
  cases place with
  | nil => exact Json.canonical_null (Option.some.inj found).symm
  | cons step place => cases step <;> cases found

/-- A chained manager speaks for its node exactly if it is the root or the node is null. -/
theorem follow_speaks_iff (floats : Serializer.FloatText strtod toChars) (json : Json)
    (formed : json.WellFormed) (path : Path) :
    (∃ node, Speaks strtod toChars ((root json).follow path) node) ↔
      (path = [] ∧ json.Textual) ∨ (json.resolve path).getD .null = .null := by
  constructor
  · rintro ⟨node, speaks⟩
    have get := speaks.get
    rw [root_follow_get] at get
    cases get
    rcases speaks.saved floats with ⟨textual, null⟩
    cases path with
    | nil => exact .inl ⟨rfl, textual⟩
    | cons step path =>
        apply Or.inr
        apply null
        rw [json_, follow_isOwner]
        rfl
  · rintro (⟨atRoot, textual⟩ | null)
    · subst atRoot
      exact ⟨json, speaks_of_json floats rfl rfl formed textual⟩
    · refine ⟨.null, speaks_of_json floats ?_ ?_ .null .null⟩
      · rw [root_follow_get, null]
      · cases path with
        | nil => exact null
        | cons step path =>
            rw [json_, follow_isOwner]
            rfl

def decimalBits (bits : BitVec 64) : Bytes := Serializer.dumpInteger bits.toNat ++ [0x2E, 0x30]

theorem floatText_decimalBits : Serializer.FloatText
    (fun text => BitVec.ofNat 64 (Lexer.decimal (text.take (text.length - 2)))) decimalBits where
  spelled bits _ := by
    refine ⟨[], Serializer.dumpInteger bits.toNat, [0x2E, 0x30], [], ?_, by simp, ?_, ?_, .inl rfl,
      by simp⟩
    · rw [decimalBits, List.nil_append, List.append_nil]
    · unfold Serializer.dumpInteger
      split
      · exact .inl rfl
      · rw [if_neg (by omega)]
        exact Serializer.whole_fillDigits (by omega)
    · exact .inr ⟨0x30, [], rfl, rfl, fun c inside => by cases inside⟩
  exact bits _ := by
    have front : (decimalBits bits).take ((decimalBits bits).length - 2) =
        Serializer.dumpInteger bits.toNat := by
      simp [decimalBits]
    have value : Lexer.decimal (Serializer.dumpInteger bits.toNat) = bits.toNat := by
      unfold Serializer.dumpInteger
      split
      · rename_i zero
        rw [Int.natCast_eq_zero.mp zero]
        rfl
      · rw [if_neg (by omega)]
        exact Serializer.decimal_fillDigits bits.toNat
    simp only [front, value]
    rw [BitVec.ofNat_toNat, BitVec.setWidth_eq]

theorem follow_speaks_root : ∃ node, Speaks
    (fun text => BitVec.ofNat 64 (Lexer.decimal (text.take (text.length - 2)))) decimalBits
    ((root (.array [.boolean true])).follow []) node := by
  have formed : (Json.array [.boolean true]).WellFormed := by
    refine .array _ fun element inside => ?_
    rw [List.mem_singleton.mp inside]
    exact .boolean true
  have textual : (Json.array [.boolean true]).Textual := by
    refine .array _ fun element inside => ?_
    rw [List.mem_singleton.mp inside]
    exact .boolean true
  exact (follow_speaks_iff floatText_decimalBits (.array [.boolean true]) formed []).mpr
    (.inl ⟨rfl, textual⟩)

/-- A string that is not UTF-8 is thrown at, and the file has been emptied by then. -/
example : (root (.string [0x61, 0xFF])).saveToFile decimalBits =
    ([], .error (.typeError
      "[json.exception.type_error.316] invalid UTF-8 byte at index 1: 0xFF")) := by
  rfl

/-- An element that is true is written as null. -/
theorem child_written_null :
    ((root (.array [.boolean true])).follow [.index 0]).get = some (.boolean true) ∧
      ((root (.array [.boolean true])).follow [.index 0]).toString decimalBits 0 =
        .ok Serializer.null ∧
      ((root (.array [.boolean true])).follow [.index 0]).saveToFile decimalBits =
        (Serializer.null, .ok ()) ∧
      ¬ ∃ node, Speaks
        (fun text => BitVec.ofNat 64 (Lexer.decimal (text.take (text.length - 2)))) decimalBits
        ((root (.array [.boolean true])).follow [.index 0]) node := by
  have get : ((root (.array [.boolean true])).follow [.index 0]).get = some (.boolean true) := rfl
  have printed : ((root (.array [.boolean true])).follow [.index 0]).toString decimalBits 0 =
      .ok Serializer.null := rfl
  refine ⟨get, printed, rfl, ?_⟩
  rintro ⟨node, speaks⟩
  have same := speaks.get
  rw [get] at same
  cases same
  have other := speaks.toString 0
  rw [printed] at other
  have text : (Json.boolean true).dump decimalBits (-1) = .ok [0x74, 0x72, 0x75, 0x65] := rfl
  rw [if_pos rfl, text] at other
  cases other

end Manager

end CommonUtils.JSON
