import CommonUtils.JSON.Model

namespace CommonUtils.JSON

namespace Json

def walk (json : Json) (path : Path) : Json := ((JsonManager.root json).follow path).json

def write (json : Json) (path : Path) (value : Json) : Json :=
  (((JsonManager.root json).follow path).set value).json

def resolve (json : Json) (path : Path) : Option Json := access.at? path json

def read (json : Json) (path : Path) : Option Json := ((JsonManager.root json).follow path).get

theorem walk_eq (json : Json) (path : Path) : json.walk path = access.walk path json := by
  rw [walk, JsonManager.root_follow]

theorem write_eq (json : Json) (path : Path) (value : Json) :
    json.write path value = access.write path value json := by
  rw [write, JsonManager.root_follow]
  rfl

theorem read_eq (json : Json) (path : Path) : json.read path = (json.walk path).resolve path := by
  rw [read, walk, JsonManager.root_follow]
  rfl

theorem read_of_resolve {json value : Json} {path : Path}
    (there : json.resolve path = some value) :
    json.walk path = json ∧ json.read path = some value := by
  have same : json.walk path = json := by
    rw [walk_eq]
    exact PathAccess.walk_of_at? there
  rw [read_eq, same]
  exact ⟨rfl, there⟩

end Json

/-- The first difference of the paths is a different key of one object or a different
index of one array. -/
def Beside (other path : Path) : Prop :=
  ∃ front i j otherRest rest, other = front ++ i :: otherRest ∧ path = front ++ j :: rest ∧
    i.Apart j

/-- What path access promises for a document and a path. -/
structure Lawful (json : Json) (path : Path) : Prop where
  read_write : ∀ value, (json.write path value).read path = some value ∧
    (json.write path value).walk path = json.write path value
  write_write : ∀ first second,
    (json.write path first).write path second = json.write path second
  walk_walk : (json.walk path).walk path = json.walk path
  beside : ∀ other value, Beside other path → json.resolve other = some value →
    (json.walk path).resolve other = some value ∧ (json.walk path).read other = some value ∧
    ∀ written, (json.write path written).resolve other = some value ∧
      (json.write path written).read other = some value

theorem lawful_lens (json : Json) (path : Path) : Lawful json path where
  read_write := by
    intro value
    have there : (json.write path value).resolve path = some value := by
      rw [Json.write_eq]
      exact PathAccess.at?_write path value json
    rcases Json.read_of_resolve there with ⟨same, reads⟩
    exact ⟨reads, same⟩
  write_write := by
    intro first second
    simp only [Json.write_eq, PathAccess.write_write]
  walk_walk := by simp only [Json.walk_eq, PathAccess.walk_walk]
  beside := by
    intro other value beside there
    rcases beside with ⟨front, i, j, otherRest, rest, rfl, rfl, apart⟩
    have walked : (json.walk (front ++ j :: rest)).resolve (front ++ i :: otherRest) =
        some value := by
      rw [Json.walk_eq]
      exact PathAccess.at?_walk_apart apart rest there
    refine ⟨walked, (Json.read_of_resolve walked).2, fun written => ?_⟩
    have kept : (json.write (front ++ j :: rest) written).resolve (front ++ i :: otherRest) =
        some value := by
      rw [Json.write_eq]
      exact PathAccess.at?_write_apart apart rest written there
    exact ⟨kept, (Json.read_of_resolve kept).2⟩

/-- A key is made, a number gives way to an array, and the array is filled up. -/
example :
    (Json.object [([0x62], .numberInteger 1)]).write [.key [0x61], .index 1] (.boolean true) =
      .object [([0x61], .array [.null, .boolean true]), ([0x62], .numberInteger 1)] := by
  rfl

end CommonUtils.JSON
