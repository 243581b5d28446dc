import Mathlib.Data.List.Induction
import Mathlib.Order.Lattice

namespace Members

variable {κ β : Type*} [LinearOrder κ]

def find (key : κ) : List (κ × β) → Option β
  | [] => none
  | (k, v) :: rest => if k = key then some v else find key rest

def update (key : κ) (f : β → β) : List (κ × β) → List (κ × β)
  | [] => []
  | (k, v) :: rest => if k = key then (k, f v) :: rest else (k, v) :: update key f rest

def insert (key : κ) (value : β) : List (κ × β) → List (κ × β)
  | [] => [(key, value)]
  | (k, v) :: rest =>
      if key < k then (key, value) :: (k, v) :: rest else (k, v) :: insert key value rest

def emplace (key : κ) (value : β) (members : List (κ × β)) : List (κ × β) :=
  if (find key members).isSome then members else insert key value members

def assign (key : κ) (value : β) (members : List (κ × β)) : List (κ × β) :=
  update key (fun _ => value) (emplace key value members)

def assignAll (pairs : List (κ × β)) : List (κ × β) :=
  pairs.foldl (fun members pair => assign pair.1 pair.2 members) []

abbrev Ordered (members : List (κ × β)) : Prop := members.Pairwise fun a b => a.1 < b.1

theorem find_insert_of_ne {key other : κ} (different : other ≠ key) (value : β)
    (members : List (κ × β)) : find other (insert key value members) = find other members := by
  induction members with
  | nil => simp [insert, find, different.symm]
  | cons member rest ih =>
      rw [insert]
      split
      · simp [find, different.symm]
      · simp only [find, ih]

theorem find_insert {key : κ} {value : β} {members : List (κ × β)}
    (absent : find key members = none) : find key (insert key value members) = some value := by
  induction members with
  | nil => simp [insert, find]
  | cons member rest ih =>
      rw [insert]
      split
      · simp [find]
      · rw [find] at absent ⊢
        split at absent
        · cases absent
        · rw [if_neg ‹_›]
          exact ih absent

theorem mem_of_find {key : κ} {value : β} {members : List (κ × β)}
    (found : find key members = some value) : (key, value) ∈ members := by
  induction members with
  | nil => cases found
  | cons member rest ih =>
      rw [find] at found
      split at found
      · rename_i same
        cases found
        rw [← same]
        exact List.mem_cons_self
      · exact List.mem_cons_of_mem member (ih found)

theorem find_emplace (key : κ) (value : β) (members : List (κ × β)) :
    find key (emplace key value members) = some ((find key members).getD value) := by
  unfold emplace
  cases found : find key members with
  | none => simpa using find_insert found
  | some old => simpa using found

theorem find_emplace_of_ne {key other : κ} (different : other ≠ key) (value : β)
    (members : List (κ × β)) : find other (emplace key value members) = find other members := by
  unfold emplace
  split
  · rfl
  · exact find_insert_of_ne different value members

theorem emplace_of_find {key : κ} {members : List (κ × β)} {old : β}
    (found : find key members = some old) (value : β) : emplace key value members = members := by
  simp [emplace, found]

theorem find_update (key : κ) (f : β → β) (members : List (κ × β)) :
    find key (update key f members) = (find key members).map f := by
  induction members with
  | nil => rfl
  | cons member rest ih =>
      by_cases same : member.1 = key
      · simp [update, find, same]
      · simp [update, find, same, ih]

theorem find_update_of_ne {key other : κ} (different : other ≠ key) (f : β → β)
    (members : List (κ × β)) : find other (update key f members) = find other members := by
  induction members with
  | nil => rfl
  | cons member rest ih =>
      by_cases same : member.1 = key
      · simp [update, find, same, different.symm]
      · simp [update, find, same, ih]

theorem find_assign (key : κ) (value : β) (members : List (κ × β)) :
    find key (assign key value members) = some value := by
  rw [assign, find_update, find_emplace]
  rfl

theorem find_assign_of_ne {key other : κ} (different : other ≠ key) (value : β)
    (members : List (κ × β)) : find other (assign key value members) = find other members := by
  rw [assign, find_update_of_ne different, find_emplace_of_ne different]

theorem find_assignAll {pairs : List (κ × β)} {pair : κ × β} (member : pair ∈ pairs) :
    ∃ other ∈ pairs, other.1 = pair.1 ∧ find pair.1 (assignAll pairs) = some other.2 := by
  induction pairs using List.reverseRecOn with
  | nil => cases member
  | append_singleton pairs last ih =>
      have assigned : assignAll (pairs ++ [last]) = assign last.1 last.2 (assignAll pairs) := by
        rw [assignAll, List.foldl_append]
        rfl
      rw [assigned]
      by_cases same : pair.1 = last.1
      · refine ⟨last, by simp, same.symm, ?_⟩
        rw [same]
        exact find_assign last.1 last.2 _
      · have earlier : pair ∈ pairs := by
          rcases List.mem_append.mp member with inside | new
          · exact inside
          · exact absurd (congrArg Prod.fst (List.mem_singleton.mp new)) same
        rcases ih earlier with ⟨other, inside, key, found⟩
        refine ⟨other, List.mem_append_left _ inside, key, ?_⟩
        rw [find_assign_of_ne same]
        exact found

/-- Every assigned value is kept exactly if no key is assigned two different ones. -/
theorem find_assignAll_iff (pairs : List (κ × β)) :
    (∀ pair ∈ pairs, find pair.1 (assignAll pairs) = some pair.2) ↔
      ∀ first ∈ pairs, ∀ second ∈ pairs, first.1 = second.1 → first.2 = second.2 := by
  constructor
  · intro kept first inFirst second inSecond same
    have found := kept second inSecond
    rw [← same, kept first inFirst] at found
    exact Option.some.inj found
  · intro single pair member
    rcases find_assignAll member with ⟨other, inside, key, found⟩
    rw [found, single other inside pair member key]

theorem update_update (key : κ) (f g : β → β) (members : List (κ × β)) :
    update key f (update key g members) = update key (f ∘ g) members := by
  induction members with
  | nil => rfl
  | cons member rest ih =>
      by_cases same : member.1 = key
      · simp [update, same]
      · simp [update, same, ih]

theorem update_fixed {key : κ} {f : β → β} {members : List (κ × β)} {old : β}
    (found : find key members = some old) (fixed : f old = old) :
    update key f members = members := by
  induction members with
  | nil => rfl
  | cons member rest ih =>
      rw [find] at found
      split at found
      · cases found
        rw [update, if_pos ‹_›, fixed]
      · rw [update, if_neg ‹_›, ih found]

theorem update_insert {key : κ} {members : List (κ × β)} (absent : find key members = none)
    (f : β → β) (value : β) :
    update key f (insert key value members) = insert key (f value) members := by
  induction members with
  | nil => simp [insert, update]
  | cons member rest ih =>
      rw [find] at absent
      split at absent
      · cases absent
      · rename_i different
        rw [insert, insert]
        split
        · simp [update]
        · rw [update, if_neg different, ih absent]

theorem update_emplace (key : κ) (value old : β) (members : List (κ × β)) :
    update key (fun _ => value) (emplace key old members) = assign key value members := by
  unfold assign emplace
  cases found : find key members with
  | none =>
      have made : ∀ other, update key (fun _ => value) (insert key other members) =
          insert key value members := update_insert found fun _ => value
      exact (made old).trans (made value).symm
  | some present => rfl

theorem update_assign (key : κ) (f : β → β) (value : β) (members : List (κ × β)) :
    update key f (assign key value members) = assign key (f value) members := by
  rw [assign, update_update]
  exact update_emplace key (f value) value members

theorem keys_update (key : κ) (f : β → β) (members : List (κ × β)) :
    (update key f members).map Prod.fst = members.map Prod.fst := by
  induction members with
  | nil => rfl
  | cons member rest ih =>
      by_cases same : member.1 = key
      · simp [update, same]
      · simp [update, same, ih]

theorem mem_insert {key : κ} {value : β} {members : List (κ × β)} {member : κ × β} :
    member ∈ insert key value members ↔ member = (key, value) ∨ member ∈ members := by
  induction members with
  | nil => simp [insert]
  | cons first rest ih =>
      rw [insert]
      split
      · simp
      · simp only [List.mem_cons, ih]
        tauto

theorem mem_emplace {key : κ} {value : β} {members : List (κ × β)} {member : κ × β}
    (present : member ∈ emplace key value members) : member = (key, value) ∨ member ∈ members := by
  unfold emplace at present
  split at present
  · exact .inr present
  · exact mem_insert.mp present

theorem mem_update {key : κ} {f : β → β} {members : List (κ × β)} {member : κ × β}
    (present : member ∈ update key f members) :
    member ∈ members ∨ ∃ old ∈ members, member = (old.1, f old.2) := by
  induction members with
  | nil => cases present
  | cons first rest ih =>
      rw [update] at present
      split at present
      · rcases List.mem_cons.mp present with same | inside
        · exact .inr ⟨first, List.mem_cons_self, same⟩
        · exact .inl (List.mem_cons_of_mem _ inside)
      · rcases List.mem_cons.mp present with same | inside
        · exact .inl (by rw [same]; exact List.mem_cons_self)
        · rcases ih inside with old | ⟨old, there, same⟩
          · exact .inl (List.mem_cons_of_mem _ old)
          · exact .inr ⟨old, List.mem_cons_of_mem _ there, same⟩

section Map

variable {γ : Type*} (φ : β → γ)

def mapValues (members : List (κ × β)) : List (κ × γ) :=
  members.map fun member => (member.1, φ member.2)

theorem find_mapValues (key : κ) (members : List (κ × β)) :
    find key (mapValues φ members) = (find key members).map φ := by
  induction members with
  | nil => rfl
  | cons member rest ih =>
      rw [mapValues, List.map_cons, find, find]
      split
      · rfl
      · exact ih

theorem update_mapValues (key : κ) {f : β → β} {g : γ → γ} (commutes : ∀ v, φ (f v) = g (φ v))
    (members : List (κ × β)) :
    update key g (mapValues φ members) = mapValues φ (update key f members) := by
  induction members with
  | nil => rfl
  | cons member rest ih =>
      rw [mapValues, List.map_cons, update, update]
      split
      · rw [mapValues, List.map_cons, commutes]
      · rw [mapValues, List.map_cons, ← mapValues, ← mapValues, ih]

theorem insert_mapValues (key : κ) (value : β) (members : List (κ × β)) :
    insert key (φ value) (mapValues φ members) = mapValues φ (insert key value members) := by
  induction members with
  | nil => rfl
  | cons member rest ih =>
      rw [mapValues, List.map_cons, insert, insert]
      split
      · rfl
      · rw [mapValues, List.map_cons, ← mapValues, ← mapValues, ih]

theorem emplace_mapValues (key : κ) (value : β) (members : List (κ × β)) :
    emplace key (φ value) (mapValues φ members) = mapValues φ (emplace key value members) := by
  rw [emplace, emplace, find_mapValues, Option.isSome_map]
  split
  · rfl
  · exact insert_mapValues φ key value members

end Map

namespace Ordered

theorem update {members : List (κ × β)} (ordered : Ordered members) (key : κ) (f : β → β) :
    Ordered (update key f members) := by
  rw [Ordered, ← List.pairwise_map (f := Prod.fst) (R := (· < ·))] at ordered ⊢
  rwa [keys_update]

theorem insert {members : List (κ × β)} (ordered : Ordered members) {key : κ}
    (absent : find key members = none) (value : β) : Ordered (insert key value members) := by
  induction members with
  | nil => exact List.pairwise_singleton _ _
  | cons first rest ih =>
      rcases List.pairwise_cons.mp ordered with ⟨below, later⟩
      rw [find] at absent
      split at absent
      · cases absent
      rename_i different
      rw [Members.insert]
      split
      · rename_i less
        refine List.pairwise_cons.mpr ⟨?_, ordered⟩
        intro member present
        rcases List.mem_cons.mp present with same | inside
        · rw [same]
          exact less
        · exact lt_trans less (below member inside)
      · rename_i notLess
        refine List.pairwise_cons.mpr ⟨?_, ih later absent⟩
        intro member present
        rcases mem_insert.mp present with same | inside
        · rw [same]
          exact lt_of_le_of_ne (not_lt.mp notLess) different
        · exact below member inside

theorem emplace {members : List (κ × β)} (ordered : Ordered members) (key : κ) (value : β) :
    Ordered (emplace key value members) := by
  unfold Members.emplace
  cases found : find key members with
  | none => exact ordered.insert found value
  | some old => exact ordered

theorem assign {members : List (κ × β)} (ordered : Ordered members) (key : κ) (value : β) :
    Ordered (assign key value members) :=
  (ordered.emplace key value).update key _

theorem insert_last {members : List (κ × β)} {key : κ} (value : β)
    (greatest : ∀ member ∈ members, member.1 < key) :
    Members.insert key value members = members ++ [(key, value)] := by
  induction members with
  | nil => rfl
  | cons member rest ih =>
      have less : member.1 < key := greatest member List.mem_cons_self
      rw [Members.insert, if_neg (not_lt_of_gt less),
        ih fun other inside => greatest other (List.mem_cons_of_mem _ inside)]
      rfl

theorem find_last {members : List (κ × β)} {key : κ}
    (greatest : ∀ member ∈ members, member.1 < key) : find key members = none := by
  induction members with
  | nil => rfl
  | cons member rest ih =>
      have less : member.1 < key := greatest member List.mem_cons_self
      rw [find, if_neg (ne_of_lt less)]
      exact ih fun other inside => greatest other (List.mem_cons_of_mem _ inside)

/-- A map is made again by assigning its members in their order. -/
theorem assignAll {members : List (κ × β)} (ordered : Ordered members) :
    assignAll members = members := by
  induction members using List.reverseRecOn with
  | nil => rfl
  | append_singleton members last ih =>
      rcases List.pairwise_append.mp ordered with ⟨before, -, below⟩
      have greatest : ∀ member ∈ members, member.1 < last.1 :=
        fun member inside => below member inside last (List.mem_singleton.mpr rfl)
      have absent := find_last greatest
      rw [Members.assignAll, List.foldl_append]
      show Members.assign last.1 last.2 (Members.assignAll members) = _
      rw [ih before, Members.assign, Members.emplace, absent]
      show Members.update last.1 _ (Members.insert last.1 last.2 members) = _
      rw [update_insert absent, insert_last _ greatest]

end Ordered

end Members
