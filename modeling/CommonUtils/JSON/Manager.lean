import CommonUtils.JSON.Serializer

namespace CommonUtils.JSON

/-- `isOwner` is false for a manager made from a pointer. -/
structure Manager extends JsonManager where
  isOwner : Bool

namespace Json

def contains (key : Bytes) (node : Json) : Bool := (child (.key key) node).isSome

end Json

namespace Manager

def root (json : Json) : Manager := { toJsonManager := JsonManager.root json, isOwner := true }

/-- `json_`, which nothing is assigned to where the manager is made from a pointer. -/
def json_ (manager : Manager) : Json := if manager.isOwner then manager.json else .null

def index (manager : Manager) (step : Step) : Manager where
  toJsonManager := manager.toJsonManager.index step
  isOwner := false

def follow (manager : Manager) (path : Path) : Manager := path.foldl index manager

def set (manager : Manager) (value : Json) : Manager :=
  { manager with toJsonManager := manager.toJsonManager.set value }

def exists_ (manager : Manager) (key : Bytes) : Option Bool :=
  manager.get.map (Json.contains key)

section Dump

variable (toChars : BitVec 64 → Bytes)

def toString (manager : Manager) (indent : Int) : Except Fault Bytes :=
  if indent = 0 then manager.json_.dump toChars (-1) else manager.json_.dump toChars indent

/-- What is in the file that has been opened, which empties it, and what was thrown. -/
def saveToFile (manager : Manager) : Bytes × Except Fault Unit :=
  match manager.json_.dump toChars 4 with
  | .ok text => (text, .ok ())
  | .error fault => ([], .error fault)

end Dump

theorem follow_toJsonManager (manager : Manager) (path : Path) :
    (manager.follow path).toJsonManager = manager.toJsonManager.follow path := by
  induction path generalizing manager with
  | nil => rfl
  | cons step path ih => exact ih (manager.index step)

theorem follow_isOwner (manager : Manager) (step : Step) (path : Path) :
    (manager.follow (step :: path)).isOwner = false := by
  induction path generalizing manager step with
  | nil => rfl
  | cons next path ih => exact ih (manager.index step) next

end Manager

end CommonUtils.JSON
