import Mathlib.Data.Option.Basic

/-! Trees whose nodes are addressed step by step, where a step can make the child that it
leads to. Walking a path makes what is missing on it, and writing at its end after the
walk is a lens. -/

/-- `child` looks, `modify` changes a child that is there, and `ensure` makes one that is
not. Steps that are `apart` lead to different children of one node. -/
structure PathAccess (ι α : Type*) where
  child : ι → α → Option α
  modify : ι → (α → α) → α → α
  ensure : ι → α → α
  apart : ι → ι → Prop
  child_ensure : ∀ i a, (child i (ensure i a)).isSome
  ensure_of_child : ∀ i a c, child i a = some c → ensure i a = a
  child_modify : ∀ i f a, child i (modify i f a) = (child i a).map f
  modify_modify : ∀ i f g a, modify i f (modify i g a) = modify i (f ∘ g) a
  modify_fixed : ∀ i f a c, child i a = some c → f c = c → modify i f a = a
  child_modify_apart : ∀ i j f a, apart i j → child i (modify j f a) = child i a
  child_ensure_apart : ∀ i j a c, apart i j → child i a = some c → child i (ensure j a) = some c

namespace PathAccess

variable {ι α : Type*} (T : PathAccess ι α)

def at? : List ι → α → Option α
  | [], a => some a
  | i :: path, a => (T.child i a).bind (at? path)

def modifyAt : List ι → (α → α) → α → α
  | [], f => f
  | i :: path, f => T.modify i (modifyAt path f)

def walk : List ι → α → α
  | [], a => a
  | i :: path, a => T.modify i (walk path) (T.ensure i a)

def write (path : List ι) (v : α) (a : α) : α := T.modifyAt path (fun _ => v) (T.walk path a)

variable {T}

theorem at?_append (front back : List ι) (a : α) :
    T.at? (front ++ back) a = (T.at? front a).bind (T.at? back) := by
  induction front generalizing a with
  | nil => rfl
  | cons i front ih =>
      simp only [List.cons_append, at?, Option.bind_assoc]
      congr 1
      funext c
      exact ih c

theorem at?_modifyAt (path : List ι) (f : α → α) (a : α) :
    T.at? path (T.modifyAt path f a) = (T.at? path a).map f := by
  induction path generalizing a with
  | nil => rfl
  | cons i path ih =>
      simp only [at?, modifyAt, T.child_modify]
      cases T.child i a with
      | none => rfl
      | some c => exact ih c

theorem modifyAt_modifyAt (path : List ι) (f g : α → α) (a : α) :
    T.modifyAt path f (T.modifyAt path g a) = T.modifyAt path (f ∘ g) a := by
  induction path generalizing a with
  | nil => rfl
  | cons i path ih =>
      have below : T.modifyAt path f ∘ T.modifyAt path g = T.modifyAt path (f ∘ g) := funext ih
      simp only [modifyAt, T.modify_modify, below]

theorem modifyAt_append (front back : List ι) (f : α → α) (a : α) :
    T.modifyAt (front ++ back) f a = T.modifyAt front (T.modifyAt back f) a := by
  induction front generalizing a with
  | nil => rfl
  | cons i front ih =>
      have below : T.modifyAt (front ++ back) f = T.modifyAt front (T.modifyAt back f) := funext ih
      simp only [List.cons_append, modifyAt, below]

theorem modifyAt_fixed {path : List ι} {f : α → α} {a c : α} (found : T.at? path a = some c)
    (fixed : f c = c) : T.modifyAt path f a = a := by
  induction path generalizing a with
  | nil =>
      cases found
      exact fixed
  | cons i path ih =>
      rcases Option.bind_eq_some_iff.mp found with ⟨b, present, rest⟩
      exact T.modify_fixed i _ a b present (ih rest)

theorem modifyAt_walk_cons (front path : List ι) (i : ι) (a : α) :
    T.modifyAt (front ++ [i]) (T.walk path) (T.modifyAt front (T.ensure i) a) =
      T.modifyAt front (T.walk (i :: path)) a := by
  rw [modifyAt_append, modifyAt_modifyAt]
  rfl

theorem at?_walk (path : List ι) (a : α) : (T.at? path (T.walk path a)).isSome := by
  induction path generalizing a with
  | nil => rfl
  | cons i path ih =>
      rcases Option.isSome_iff_exists.mp (T.child_ensure i a) with ⟨c, made⟩
      simp only [at?, walk, T.child_modify, made]
      exact ih c

theorem walk_of_at? {path : List ι} {a c : α} (found : T.at? path a = some c) :
    T.walk path a = a := by
  induction path generalizing a with
  | nil => rfl
  | cons i path ih =>
      rcases Option.bind_eq_some_iff.mp found with ⟨b, present, rest⟩
      rw [walk, T.ensure_of_child i a b present]
      exact T.modify_fixed i _ a b present (ih rest)

theorem walk_walk (path : List ι) (a : α) : T.walk path (T.walk path a) = T.walk path a := by
  rcases Option.isSome_iff_exists.mp (at?_walk (T := T) path a) with ⟨c, found⟩
  exact walk_of_at? found

theorem at?_write (path : List ι) (v : α) (a : α) : T.at? path (T.write path v a) = some v := by
  rcases Option.isSome_iff_exists.mp (at?_walk (T := T) path a) with ⟨c, found⟩
  rw [write, at?_modifyAt, found]
  rfl

theorem write_write (path : List ι) (v w : α) (a : α) :
    T.write path w (T.write path v a) = T.write path w a := by
  have reached := walk_of_at? (at?_write (T := T) path v a)
  rw [write, reached, write, modifyAt_modifyAt]
  rfl

/-- What is found beside the path is still found after a walk and a change at its end. -/
theorem at?_modifyAt_walk_apart {front other : List ι} {i j : ι} (apart : T.apart i j)
    (path : List ι) (f : α → α) {a c : α} (found : T.at? (front ++ i :: other) a = some c) :
    T.at? (front ++ i :: other) (T.modifyAt (front ++ j :: path) f
      (T.walk (front ++ j :: path) a)) = some c := by
  induction front generalizing a with
  | nil =>
      rcases Option.bind_eq_some_iff.mp found with ⟨b, present, rest⟩
      simp only [List.nil_append, at?, walk, modifyAt]
      rw [T.child_modify_apart i j _ _ apart, T.child_modify_apart i j _ _ apart,
        T.child_ensure_apart i j a b apart present]
      exact rest
  | cons k front ih =>
      rcases Option.bind_eq_some_iff.mp found with ⟨b, present, rest⟩
      simp only [List.cons_append, at?, walk, modifyAt, T.child_modify,
        T.ensure_of_child k a b present, present, Option.map_some]
      exact ih rest

theorem at?_write_apart {front other : List ι} {i j : ι} (apart : T.apart i j)
    (path : List ι) (v : α) {a c : α} (found : T.at? (front ++ i :: other) a = some c) :
    T.at? (front ++ i :: other) (T.write (front ++ j :: path) v a) = some c :=
  at?_modifyAt_walk_apart apart path _ found

theorem at?_walk_apart {front other : List ι} {i j : ι} (apart : T.apart i j)
    (path : List ι) {a c : α} (found : T.at? (front ++ i :: other) a = some c) :
    T.at? (front ++ i :: other) (T.walk (front ++ j :: path) a) = some c := by
  rcases Option.isSome_iff_exists.mp (at?_walk (T := T) (front ++ j :: path) a) with ⟨b, reached⟩
  have kept := at?_modifyAt_walk_apart apart path id found
  rwa [modifyAt_fixed reached rfl] at kept

section Map

variable {β : Type*} {U : PathAccess ι β} {φ : α → β}

/-- A map of the trees that does what the steps do. -/
structure Commutes (T : PathAccess ι α) (U : PathAccess ι β) (φ : α → β) : Prop where
  ensure : ∀ i a, φ (T.ensure i a) = U.ensure i (φ a)
  modify : ∀ i {f : α → α} {g : β → β}, (∀ c, φ (f c) = g (φ c)) →
    ∀ a, φ (T.modify i f a) = U.modify i g (φ a)

theorem Commutes.modifyAt (commutes : Commutes T U φ) (path : List ι) {f : α → α} {g : β → β}
    (below : ∀ c, φ (f c) = g (φ c)) (a : α) :
    φ (T.modifyAt path f a) = U.modifyAt path g (φ a) := by
  induction path generalizing a with
  | nil => exact below a
  | cons i path ih => exact commutes.modify i ih a

theorem Commutes.walk (commutes : Commutes T U φ) (path : List ι) (a : α) :
    φ (T.walk path a) = U.walk path (φ a) := by
  induction path generalizing a with
  | nil => rfl
  | cons i path ih => rw [PathAccess.walk, PathAccess.walk, commutes.modify i ih, commutes.ensure]

theorem Commutes.write (commutes : Commutes T U φ) (path : List ι) (v a : α) :
    φ (T.write path v a) = U.write path (φ v) (φ a) := by
  rw [PathAccess.write, PathAccess.write, commutes.modifyAt path (g := fun _ => φ v) fun _ => rfl,
    commutes.walk]

end Map

end PathAccess
