import Mathlib.Data.List.Basic

/-! Texts of nested arrays and objects, over any alphabet. A text is given by how its
scalars, keys and marks are spelled, and a reading takes the texts of one alphabet to
those of another one lexeme at a time. -/

namespace Nested

structure Lexemes (α : Type*) where
  scalar : List α → Prop
  key : List α → Prop
  beginArray : List α → Prop
  endArray : List α → Prop
  beginObject : List α → Prop
  endObject : List α → Prop
  comma : List α → Prop

/-- A value, or what is left of a container from an element, a key or the value behind a
key on, or from the mark behind one of its values on. -/
inductive Kind where
  | value
  | elements
  | elementsTail
  | members
  | member
  | membersTail

variable {α β : Type*}

inductive Derives (L : Lexemes α) : Kind → List α → Prop where
  | scalar {w : List α} (single : L.scalar w) : Derives L .value w
  | emptyArray {w v : List α} (opens : L.beginArray w) (closes : L.endArray v) :
      Derives L .value (w ++ v)
  | array {w v : List α} (opens : L.beginArray w) (more : Derives L .elements v) :
      Derives L .value (w ++ v)
  | emptyObject {w v : List α} (opens : L.beginObject w) (closes : L.endObject v) :
      Derives L .value (w ++ v)
  | object {w v : List α} (opens : L.beginObject w) (more : Derives L .members v) :
      Derives L .value (w ++ v)
  | elements {w v : List α} (element : Derives L .value w) (more : Derives L .elementsTail v) :
      Derives L .elements (w ++ v)
  | endArray {w : List α} (closes : L.endArray w) : Derives L .elementsTail w
  | nextElement {w v : List α} (separates : L.comma w) (more : Derives L .elements v) :
      Derives L .elementsTail (w ++ v)
  | members {w v : List α} (named : L.key w) (more : Derives L .member v) :
      Derives L .members (w ++ v)
  | member {w v : List α} (value : Derives L .value w) (more : Derives L .membersTail v) :
      Derives L .member (w ++ v)
  | endObject {w : List α} (closes : L.endObject w) : Derives L .membersTail w
  | nextMember {w v : List α} (separates : L.comma w) (more : Derives L .members v) :
      Derives L .membersTail (w ++ v)

/-- `read` takes `w` off the front of a text as a lexeme, where the rest is as required. -/
def Reads (read : List α → List β) (required : List α → Prop) (lexeme : List β → Prop)
    (w : List α) : Prop :=
  ∃ u, lexeme u ∧ ∀ rest, required rest → read (w ++ rest) = u ++ read rest

def anywhere : List α → Prop := fun _ => True

/-- What makes a function a reading. A scalar must be ended, and whatever can follow a
value ends it. -/
structure Reading (L : Lexemes α) (M : Lexemes β) (read : List α → List β)
    (ends : List α → Prop) : Prop where
  scalar : ∀ w, L.scalar w → Reads read ends M.scalar w
  key : ∀ w, L.key w → Reads read anywhere M.key w
  beginArray : ∀ w, L.beginArray w → Reads read anywhere M.beginArray w
  endArray : ∀ w, L.endArray w → Reads read anywhere M.endArray w
  beginObject : ∀ w, L.beginObject w → Reads read anywhere M.beginObject w
  endObject : ∀ w, L.endObject w → Reads read anywhere M.endObject w
  comma : ∀ w, L.comma w → Reads read anywhere M.comma w
  ended : ∀ w rest, L.endArray w ∨ L.endObject w ∨ L.comma w → ends (w ++ rest)

namespace Reads

variable {read : List α → List β} {required : List α → Prop} {lexeme : List β → Prop}
  {w v : List α}

theorem weaken (reads : Reads read anywhere lexeme w) : Reads read required lexeme w := by
  rcases reads with ⟨u, there, step⟩
  exact ⟨u, there, fun rest _ => step rest trivial⟩

theorem mono {wider : List β → Prop} (reads : Reads read required lexeme w)
    (within : ∀ u, lexeme u → wider u) : Reads read required wider w := by
  rcases reads with ⟨u, there, step⟩
  exact ⟨u, within u there, step⟩

theorem append {first second : List β → Prop} {between : List α → Prop}
    (left : Reads read between first w) (right : Reads read required second v)
    (ended : ∀ rest, between (v ++ rest))
    (joined : ∀ u x, first u → second x → lexeme (u ++ x)) :
    Reads read required lexeme (w ++ v) := by
  rcases left with ⟨u, isFirst, readsFirst⟩
  rcases right with ⟨x, isSecond, readsSecond⟩
  refine ⟨u ++ x, joined u x isFirst isSecond, ?_⟩
  intro rest asRequired
  calc
    read (w ++ v ++ rest) = u ++ read (v ++ rest) := by
      rw [List.append_assoc, readsFirst _ (ended rest)]
    _ = u ++ x ++ read rest := by
      rw [readsSecond rest asRequired, List.append_assoc]

end Reads

def Kind.required (ends : List α → Prop) : Kind → List α → Prop
  | .value => ends
  | _ => anywhere

section Reading

variable {L : Lexemes α} {M : Lexemes β} {read : List α → List β} {ends : List α → Prop}

theorem Derives.ends_tail (reading : Reading L M read ends) {kind : Kind} {w : List α}
    (derived : Derives L kind w) (tail : kind = .elementsTail ∨ kind = .membersTail)
    (rest : List α) : ends (w ++ rest) := by
  cases derived with
  | endArray closes => exact reading.ended _ rest (.inl closes)
  | endObject closes => exact reading.ended _ rest (.inr (.inl closes))
  | nextElement separates more =>
      rw [List.append_assoc]
      exact reading.ended _ _ (.inr (.inr separates))
  | nextMember separates more =>
      rw [List.append_assoc]
      exact reading.ended _ _ (.inr (.inr separates))
  | _ => simp at tail

theorem Derives.reads (reading : Reading L M read ends) {kind : Kind} {w : List α}
    (derived : Derives L kind w) : Reads read (kind.required ends) (Derives M kind) w := by
  have free : ∀ rest : List α, anywhere rest := fun _ => trivial
  induction derived with
  | scalar single => exact (reading.scalar _ single).mono fun _ => .scalar
  | emptyArray opens closes =>
      have both := (reading.beginArray _ opens).append (reading.endArray _ closes)
        (fun _ => free _) fun _ _ => Derives.emptyArray
      exact both.weaken
  | array opens more ih =>
      have both := (reading.beginArray _ opens).append ih (fun _ => free _)
        fun _ _ => Derives.array
      exact both.weaken
  | emptyObject opens closes =>
      have both := (reading.beginObject _ opens).append (reading.endObject _ closes)
        (fun _ => free _) fun _ _ => Derives.emptyObject
      exact both.weaken
  | object opens more ih =>
      have both := (reading.beginObject _ opens).append ih (fun _ => free _)
        fun _ _ => Derives.object
      exact both.weaken
  | elements element more first rest =>
      exact first.append rest (more.ends_tail reading (.inl rfl)) fun _ _ => .elements
  | endArray closes => exact (reading.endArray _ closes).mono fun _ => .endArray
  | nextElement separates more ih =>
      exact (reading.comma _ separates).append ih (fun _ => free _) fun _ _ => .nextElement
  | members named more ih =>
      exact (reading.key _ named).append ih (fun _ => free _) fun _ _ => .members
  | member value more first rest =>
      exact first.append rest (more.ends_tail reading (.inr rfl)) fun _ _ => .member
  | endObject closes => exact (reading.endObject _ closes).mono fun _ => .endObject
  | nextMember separates more ih =>
      exact (reading.comma _ separates).append ih (fun _ => free _) fun _ _ => .nextMember

end Reading

/-- Where `read` finds `u` at the front of what it makes of a text, the text begins with a
lexeme, and it has read the rest from there. -/
def Spells (read : List α → List β) (lexeme : List α → Prop) (u : List β) : Prop :=
  ∀ text rest, read text = u ++ rest →
    ∃ w behind, text = w ++ behind ∧ lexeme w ∧ read behind = rest

structure Spelling (L : Lexemes α) (M : Lexemes β) (read : List α → List β) : Prop where
  scalar : ∀ u, M.scalar u → Spells read L.scalar u
  key : ∀ u, M.key u → Spells read L.key u
  beginArray : ∀ u, M.beginArray u → Spells read L.beginArray u
  endArray : ∀ u, M.endArray u → Spells read L.endArray u
  beginObject : ∀ u, M.beginObject u → Spells read L.beginObject u
  endObject : ∀ u, M.endObject u → Spells read L.endObject u
  comma : ∀ u, M.comma u → Spells read L.comma u

namespace Spells

variable {read : List α → List β} {lexeme : List α → Prop} {u x : List β}

theorem mono {wider : List α → Prop} (spells : Spells read lexeme u)
    (within : ∀ w, lexeme w → wider w) : Spells read wider u := by
  intro text rest found
  rcases spells text rest found with ⟨w, behind, same, there, more⟩
  exact ⟨w, behind, same, within w there, more⟩

theorem append {first second : List α → Prop} (left : Spells read first u)
    (right : Spells read second x) (joined : ∀ w v, first w → second v → lexeme (w ++ v)) :
    Spells read lexeme (u ++ x) := by
  intro text rest found
  rw [List.append_assoc] at found
  rcases left text (x ++ rest) found with ⟨w, middle, same, isFirst, more⟩
  rcases right middle rest more with ⟨v, behind, rejoined, isSecond, last⟩
  refine ⟨w ++ v, behind, ?_, joined w v isFirst isSecond, last⟩
  rw [same, rejoined, List.append_assoc]

end Spells

/-- A text that is read as one of the grammar is one of the grammar. -/
theorem Derives.spells {L : Lexemes α} {M : Lexemes β} {read : List α → List β}
    (spelling : Spelling L M read) {kind : Kind} {u : List β} (derived : Derives M kind u) :
    Spells read (Derives L kind) u := by
  induction derived with
  | scalar single => exact (spelling.scalar _ single).mono fun _ => .scalar
  | emptyArray opens closes =>
      exact (spelling.beginArray _ opens).append (spelling.endArray _ closes)
        fun _ _ => .emptyArray
  | array opens more ih => exact (spelling.beginArray _ opens).append ih fun _ _ => .array
  | emptyObject opens closes =>
      exact (spelling.beginObject _ opens).append (spelling.endObject _ closes)
        fun _ _ => .emptyObject
  | object opens more ih => exact (spelling.beginObject _ opens).append ih fun _ _ => .object
  | elements element more first rest => exact first.append rest fun _ _ => .elements
  | endArray closes => exact (spelling.endArray _ closes).mono fun _ => .endArray
  | nextElement separates more ih =>
      exact (spelling.comma _ separates).append ih fun _ _ => .nextElement
  | members named more ih => exact (spelling.key _ named).append ih fun _ _ => .members
  | member value more first rest => exact first.append rest fun _ _ => .member
  | endObject closes => exact (spelling.endObject _ closes).mono fun _ => .endObject
  | nextMember separates more ih =>
      exact (spelling.comma _ separates).append ih fun _ _ => .nextMember

end Nested
