import CommonUtils.Library.Machine
import Mathlib.Algebra.Group.Nat.Defs
import Mathlib.Data.List.AList
import Mathlib.Logic.Function.Basic

/-! The session registry. `fetch_add` of `AddSession` runs before the lock, a clean
is a locked scan and then one `RemoveSession` for each id found, and everything
else is one critical section of `sessionMutex_`. -/

namespace CommonUtils.TCP.SessionManager

abbrev Id := BitVec 32

inductive Thread (σ : Type*) where
  | idle
  | inserting (id : Id) (session : σ)
  | cleaning (expired : List (Id × σ))

/-- The fields of `SessionManager`; of each session its `sessionId_`, its
`lastActiveTime_` and the data given to its `SentData`; the sessions closed; the
calls in progress, a clean remembering which session each collected id meant at
the scan. Last, what has happened so far: the sessions in the order of their
`fetch_add`, the entries inserted, the inserts, the inserts that replaced an
entry, the erases, and for each removal by a clean the session the scan saw
with the session closed. -/
structure State (τ σ δ : Type*) where
  sessionId : Id
  sessions : AList fun _ : Id => σ
  ownId : σ → Id
  lastActiveTime : σ → Int
  enqueued : σ → List δ
  closed : List σ
  threads : τ → Thread σ
  added : List σ
  assigned : List (Id × σ)
  inserts : Nat
  overwrites : Nat
  erases : Nat
  cleaned : List (σ × σ)

inductive Action (τ σ δ : Type*) where
  | addSession (t : τ) (session : σ)
  | insert (t : τ)
  | removeSession (id : Id)
  | unicast (id : Id) (data : δ)
  | broadcast (data : δ)
  | scan (t : τ) (now : Int)
  | removeNext (t : τ)
  | active (session : σ) (now : Int)

variable {τ σ δ : Type*}

/-- A new registry; `sessionId_` of a session is not initialised. -/
def start (τ δ : Type*) (ownId : σ → Id) (created : σ → Int) : State τ σ δ where
  sessionId := 1
  sessions := ∅
  ownId := ownId
  lastActiveTime := created
  enqueued := fun _ => []
  closed := []
  threads := fun _ => .idle
  added := []
  assigned := []
  inserts := 0
  overwrites := 0
  erases := 0
  cleaned := []

def checkTimeout (s : State τ σ δ) (clockTime now : Int) (session : σ) : Bool :=
  now - s.lastActiveTime session > clockTime

def expired (s : State τ σ δ) (clockTime now : Int) : List (Id × σ) :=
  (s.sessions.entries.map fun e => (e.1, e.2)).filter fun e => checkTimeout s clockTime now e.2

section Operations

variable [DecidableEq τ] [DecidableEq σ]

def sentData (enqueued : σ → List δ) (session : σ) (data : δ) : σ → List δ :=
  Function.update enqueued session (enqueued session ++ [data])

namespace State

variable (s : State τ σ δ)

def setThread (t : τ) (pc : Thread σ) : State τ σ δ :=
  { s with threads := Function.update s.threads t pc }

def fetchAdd (t : τ) (session : σ) : State τ σ δ :=
  { s.setThread t (.inserting s.sessionId session) with
    sessionId := s.sessionId + 1
    added := s.added ++ [session] }

def insert (t : τ) (id : Id) (session : σ) : State τ σ δ :=
  { s.setThread t .idle with
    ownId := Function.update s.ownId session id
    sessions := s.sessions.insert id session
    assigned := s.assigned ++ [(id, session)]
    inserts := s.inserts + 1
    overwrites := s.overwrites + if (s.sessions.lookup id).isSome then 1 else 0 }

def removeSession (id : Id) : State τ σ δ :=
  match s.sessions.lookup id with
  | none => s
  | some session =>
      { s with
        closed := s.closed ++ [session]
        sessions := s.sessions.erase id
        erases := s.erases + 1 }

def unicast (id : Id) (data : δ) : State τ σ δ :=
  match s.sessions.lookup id with
  | none => s
  | some session => { s with enqueued := sentData s.enqueued session data }

def broadcast (data : δ) : State τ σ δ :=
  { s with
    enqueued := s.sessions.foldl (fun enqueued _ session => sentData enqueued session data)
      s.enqueued }

/-- `RemoveSession` for an id that the scan saw mapped to `seen`. -/
def removeNext (t : τ) (id : Id) (seen : σ) (rest : List (Id × σ)) : State τ σ δ :=
  { (s.removeSession id).setThread t (.cleaning rest) with
    cleaned := s.cleaned ++ ((s.sessions.lookup id).map fun session => (seen, session)).toList }

end State

def step (clockTime : Int) (s : State τ σ δ) : Action τ σ δ → Option (State τ σ δ)
  | .addSession t session =>
      match s.threads t with
      | .idle => some (s.fetchAdd t session)
      | _ => none
  | .insert t =>
      match s.threads t with
      | .inserting id session => some (s.insert t id session)
      | _ => none
  | .removeSession id => some (s.removeSession id)
  | .unicast id data => some (s.unicast id data)
  | .broadcast data => some (s.broadcast data)
  | .scan t now =>
      match s.threads t with
      | .idle => some (s.setThread t (.cleaning (expired s clockTime now)))
      | _ => none
  | .removeNext t =>
      match s.threads t with
      | .cleaning [] => some (s.setThread t .idle)
      | .cleaning ((id, seen) :: rest) => some (s.removeNext t id seen rest)
      | _ => none
  | .active session now =>
      some { s with lastActiveTime := Function.update s.lastActiveTime session now }

def machine (τ δ : Type*) [DecidableEq τ] (clockTime : Int) (ownId : σ → Id)
    (created : σ → Int) : Machine (State τ σ δ) (Action τ σ δ) where
  start := start τ δ ownId created
  step := step clockTime

omit [DecidableEq τ] [DecidableEq σ] in
theorem lookup_removeSession (s : State τ σ δ) (gone id : Id) :
    (s.removeSession gone).sessions.lookup id =
      if id = gone then none else s.sessions.lookup id := by
  unfold State.removeSession
  cases found : s.sessions.lookup gone with
  | none =>
      by_cases same : id = gone
      · rw [if_pos same, same, found]
      · rw [if_neg same]
  | some x =>
      by_cases same : id = gone
      · rw [if_pos same, same, AList.lookup_erase]
      · rw [if_neg same, AList.lookup_erase_ne same]

omit [DecidableEq τ] [DecidableEq σ] in
theorem removeSession_lastActiveTime (s : State τ σ δ) (id : Id) :
    (s.removeSession id).lastActiveTime = s.lastActiveTime := by
  unfold State.removeSession
  split <;> rfl

theorem step_lastActiveTime {clockTime : Int} {s s' : State τ σ δ} {a : Action τ σ δ}
    (quiet : ∀ x now, a ≠ .active x now) (taken : step clockTime s a = some s') :
    s'.lastActiveTime = s.lastActiveTime := by
  cases a with
  | addSession t x =>
      simp only [step] at taken
      split at taken <;> cases taken
      rfl
  | insert t =>
      simp only [step] at taken
      split at taken <;> cases taken
      rfl
  | removeSession id =>
      cases taken
      exact removeSession_lastActiveTime s id
  | unicast id data =>
      cases taken
      unfold State.unicast
      split <;> rfl
  | broadcast data =>
      cases taken
      rfl
  | scan t now =>
      simp only [step] at taken
      split at taken <;> cases taken
      rfl
  | removeNext t =>
      simp only [step] at taken
      split at taken <;> cases taken
      · rfl
      · exact removeSession_lastActiveTime s _
  | active x now => exact absurd rfl (quiet x now)

end Operations

/-- What the callers promise: a session is added once, and at most `2 ^ 32` are. -/
def AddedOnce (s : State τ σ δ) : Action τ σ δ → Prop
  | .addSession _ session => session ∉ s.added ∧ s.added.length < 2 ^ 32
  | _ => True

def issuedId (index : Nat) : Id := BitVec.ofNat 32 (index + 1)

def Issued (s : State τ σ δ) (id : Id) (session : σ) : Prop :=
  ∃ index, s.added[index]? = some session ∧ id = issuedId index

structure Inv (s : State τ σ δ) : Prop where
  counter : s.sessionId = issuedId s.added.length
  few : s.added.length ≤ 2 ^ 32
  once : s.added.Nodup
  issued : ∀ id x, (id, x) ∈ s.assigned → Issued s id x
  inserting : ∀ t id x, s.threads t = .inserting id x → Issued s id x ∧ (id, x) ∉ s.assigned
  alone : ∀ t t' id id' x, s.threads t = .inserting id x → s.threads t' = .inserting id' x → t = t'
  registered : ∀ id x, s.sessions.lookup id = some x → (id, x) ∈ s.assigned ∧ s.ownId x = id
  scanned : ∀ t found, s.threads t = .cleaning found → ∀ e ∈ found, e ∈ s.assigned
  cleaned : ∀ seen closed, (seen, closed) ∈ s.cleaned → seen = closed
  size : s.sessions.keys.length + s.erases = s.inserts
  overwrites : s.overwrites = 0

theorem issuedId_injective {i j : Nat} (hi : i < 2 ^ 32) (hj : j < 2 ^ 32)
    (same : issuedId i = issuedId j) : i = j := by
  have values := congrArg BitVec.toNat same
  simp only [issuedId, BitVec.toNat_ofNat] at values
  omega

namespace Inv

theorem start (ownId : σ → Id) (created : σ → Int) :
    Inv (SessionManager.start τ δ ownId created) where
  counter := rfl
  few := Nat.zero_le _
  once := List.nodup_nil
  issued := by intro id x member; cases member
  inserting := by intro t id x pc; cases pc
  alone := by intro t t' id id' x pc; cases pc
  registered := by
    intro id x found
    simp [SessionManager.start] at found
  scanned := by intro t found pc; cases pc
  cleaned := by intro seen closed member; cases member
  size := rfl
  overwrites := rfl

variable {s : State τ σ δ}

theorem session_unique (inv : Inv s) {id : Id} {x y : σ} (first : Issued s id x)
    (second : Issued s id y) : x = y := by
  rcases first with ⟨i, hi, rfl⟩
  rcases second with ⟨j, hj, same⟩
  have few := inv.few
  have inside := (List.getElem?_eq_some_iff.mp hi).1
  have inside' := (List.getElem?_eq_some_iff.mp hj).1
  have index : i = j := issuedId_injective (by omega) (by omega) same
  subst index
  exact Option.some.inj (hi.symm.trans hj)

theorem id_unique (inv : Inv s) {id id' : Id} {x : σ} (first : Issued s id x)
    (second : Issued s id' x) : id = id' := by
  rcases first with ⟨i, hi, rfl⟩
  rcases second with ⟨j, hj, rfl⟩
  have inside := (List.getElem?_eq_some_iff.mp hi).1
  rw [(List.getElem?_inj inside inv.once).mp (hi.trans hj.symm)]

theorem vacant (inv : Inv s) {t : τ} {id : Id} {x : σ} (pc : s.threads t = .inserting id x) :
    s.sessions.lookup id = none := by
  rcases inv.inserting t id x pc with ⟨issued, fresh⟩
  cases found : s.sessions.lookup id with
  | none => rfl
  | some y =>
      have old := (inv.registered id y found).1
      have same := inv.session_unique issued (inv.issued id y old)
      subst same
      exact absurd old fresh

theorem removeSession (inv : Inv s) (id : Id) : Inv (s.removeSession id) := by
  unfold State.removeSession
  cases found : s.sessions.lookup id with
  | none => exact inv
  | some x =>
      refine { inv with registered := ?_, size := ?_ }
      · intro other y present
        have different : other ≠ id := by
          rintro rfl
          rw [AList.lookup_erase] at present
          cases present
        rw [AList.lookup_erase_ne different] at present
        exact inv.registered other y present
      · have member : id ∈ s.sessions.keys := by
          rw [← AList.mem_keys, ← AList.lookup_isSome, found]
          rfl
        have shorter := List.length_erase_of_mem member
        have positive := List.length_pos_of_mem member
        have size := inv.size
        simp only [AList.keys_erase]
        omega

theorem expired_assigned (inv : Inv s) (clockTime now : Int) :
    ∀ e ∈ expired s clockTime now, e ∈ s.assigned := by
  intro e member
  rcases List.mem_map.mp (List.mem_filter.mp member).1 with ⟨entry, present, rfl⟩
  exact (inv.registered entry.1 entry.2 (AList.mem_lookup_iff.mpr present)).1

variable [DecidableEq τ]

theorem setThread (inv : Inv s) (t : τ) {pc : Thread σ}
    (notInserting : ∀ id x, pc ≠ .inserting id x)
    (scanned : ∀ found, pc = .cleaning found → ∀ e ∈ found, e ∈ s.assigned) :
    Inv (s.setThread t pc) := by
  have inserting : ∀ u id x, Function.update s.threads t pc u = .inserting id x →
      s.threads u = .inserting id x := by
    intro u id x now
    by_cases same : u = t
    · subst same
      rw [Function.update_self] at now
      exact absurd now (notInserting id x)
    · rwa [Function.update_of_ne same] at now
  refine { inv with inserting := ?_, alone := ?_, scanned := ?_ }
  · exact fun u id x now => inv.inserting u id x (inserting u id x now)
  · exact fun u u' id id' x now now' =>
      inv.alone u u' id id' x (inserting u id x now) (inserting u' id' x now')
  · intro u found now
    by_cases same : u = t
    · subst same
      simp only [State.setThread, Function.update_self] at now
      exact scanned found now
    · simp only [State.setThread, Function.update_of_ne same] at now
      exact inv.scanned u found now

theorem fetchAdd (inv : Inv s) {t : τ} {x : σ} (idle : s.threads t = .idle)
    (fresh : x ∉ s.added) (few : s.added.length < 2 ^ 32) : Inv (s.fetchAdd t x) := by
  have grown : ∀ id y, Issued s id y → Issued (s.fetchAdd t x) id y := by
    rintro id y ⟨index, found, rfl⟩
    refine ⟨index, ?_, rfl⟩
    rw [← found]
    exact List.getElem?_append_left (List.getElem?_eq_some_iff.mp found).1
  have mine : Issued (s.fetchAdd t x) s.sessionId x :=
    ⟨s.added.length, by simp [State.fetchAdd], inv.counter⟩
  have unassigned : ∀ id, (id, x) ∉ s.assigned := by
    intro id member
    rcases inv.issued id x member with ⟨index, found, _⟩
    exact fresh (List.mem_of_getElem? found)
  have others : ∀ u id, s.threads u ≠ .inserting id x := by
    intro u id pc
    rcases (inv.inserting u id x pc).1 with ⟨index, found, _⟩
    exact fresh (List.mem_of_getElem? found)
  refine { inv with
    counter := ?_, few := ?_, once := ?_, issued := ?_, inserting := ?_, alone := ?_,
    scanned := ?_ }
  · simp only [State.fetchAdd, inv.counter, issuedId, List.length_append, List.length_singleton]
    rw [BitVec.ofNat_add (s.added.length + 1) 1]
    rfl
  · simp only [State.fetchAdd, List.length_append, List.length_singleton]
    omega
  · simp only [State.fetchAdd]
    exact List.nodup_append.mpr ⟨inv.once, List.nodup_singleton x, by
      intro y member z single same
      rw [List.mem_singleton] at single
      rw [same, single] at member
      exact fresh member⟩
  · exact fun id y member => grown id y (inv.issued id y member)
  · intro u id y pc
    by_cases same : u = t
    · subst same
      simp only [State.fetchAdd, State.setThread, Function.update_self,
        Thread.inserting.injEq] at pc
      rcases pc with ⟨rfl, rfl⟩
      exact ⟨mine, unassigned _⟩
    · simp only [State.fetchAdd, State.setThread, Function.update_of_ne same] at pc
      rcases inv.inserting u id y pc with ⟨issued, notYet⟩
      exact ⟨grown id y issued, notYet⟩
  · intro u u' id id' y pc pc'
    simp only [State.fetchAdd, State.setThread] at pc pc'
    by_cases same : u = t <;> by_cases same' : u' = t
    · rw [same, same']
    · subst same
      rw [Function.update_self] at pc
      rw [Function.update_of_ne same'] at pc'
      cases pc
      exact absurd pc' (others u' id')
    · subst same'
      rw [Function.update_self] at pc'
      rw [Function.update_of_ne same] at pc
      cases pc'
      exact absurd pc (others u id)
    · rw [Function.update_of_ne same] at pc
      rw [Function.update_of_ne same'] at pc'
      exact inv.alone u u' id id' y pc pc'
  · intro u found pc
    by_cases same : u = t
    · subst same
      simp [State.fetchAdd, State.setThread] at pc
    · simp only [State.fetchAdd, State.setThread, Function.update_of_ne same] at pc
      exact inv.scanned u found pc

theorem removeNext (inv : Inv s) {t : τ} {id : Id} {seen : σ} {rest : List (Id × σ)}
    (pc : s.threads t = .cleaning ((id, seen) :: rest)) : Inv (s.removeNext t id seen rest) := by
  have scanned := inv.scanned t _ pc
  have assigned : (s.removeSession id).assigned = s.assigned := by
    unfold State.removeSession
    split <;> rfl
  have removed : Inv ((s.removeSession id).setThread t (.cleaning rest)) := by
    apply (inv.removeSession id).setThread t (by simp)
    intro found now e member
    cases now
    rw [assigned]
    exact scanned e (List.mem_cons_of_mem _ member)
  refine { removed with cleaned := ?_ }
  intro seen' closed member
  rcases List.mem_append.mp member with old | now
  · exact inv.cleaned seen' closed old
  · rw [Option.mem_toList] at now
    rcases Option.map_eq_some_iff.mp now with ⟨x, found, same⟩
    rcases Prod.mk.inj same with ⟨rfl, rfl⟩
    exact inv.session_unique (inv.issued _ _ (scanned (id, seen) (by simp)))
      (inv.issued _ _ (inv.registered id x found).1)

variable [DecidableEq σ]

theorem threads_insert {t u : τ} {id : Id} {x : σ} {pc : Thread σ}
    (now : (s.insert t id x).threads u = pc) (busy : pc ≠ .idle) : u ≠ t ∧ s.threads u = pc := by
  simp only [State.insert, State.setThread] at now
  by_cases same : u = t
  · rw [same, Function.update_self] at now
    exact absurd now.symm busy
  · rw [Function.update_of_ne same] at now
    exact ⟨same, now⟩

theorem insert (inv : Inv s) {t : τ} {id : Id} {x : σ} (pc : s.threads t = .inserting id x) :
    Inv (s.insert t id x) := by
  have vacant := inv.vacant pc
  rcases inv.inserting t id x pc with ⟨issued, fresh⟩
  have unassigned : ∀ other, (other, x) ∉ s.assigned := by
    intro other member
    have same := inv.id_unique issued (inv.issued other x member)
    subst same
    exact fresh member
  refine { inv with
    issued := ?_, inserting := ?_, alone := ?_, registered := ?_, scanned := ?_, size := ?_,
    overwrites := ?_ }
  · intro other y member
    rcases List.mem_append.mp member with old | now
    · exact inv.issued other y old
    · rcases Prod.mk.inj (List.mem_singleton.mp now) with ⟨rfl, rfl⟩
      exact issued
  · intro u other y now
    rcases threads_insert now (by simp) with ⟨different, before⟩
    rcases inv.inserting u other y before with ⟨issued', notYet⟩
    refine ⟨issued', fun member => ?_⟩
    rcases List.mem_append.mp member with old | new
    · exact notYet old
    · rcases Prod.mk.inj (List.mem_singleton.mp new) with ⟨rfl, rfl⟩
      exact different (inv.alone u t _ _ _ before pc)
  · intro u u' other other' y now now'
    rcases threads_insert now (by simp) with ⟨_, before⟩
    rcases threads_insert now' (by simp) with ⟨_, before'⟩
    exact inv.alone u u' other other' y before before'
  · intro other y present
    by_cases same : other = id
    · subst same
      simp only [State.insert, AList.lookup_insert, Option.some.injEq] at present
      subst present
      exact ⟨by simp [State.insert], by simp [State.insert]⟩
    · simp only [State.insert, AList.lookup_insert_ne same] at present
      rcases inv.registered other y present with ⟨old, own⟩
      have another : y ≠ x := by
        rintro rfl
        exact unassigned other old
      exact ⟨List.mem_append_left _ old, by simp [State.insert, another, own]⟩
  · intro u found now e member
    rcases threads_insert now (by simp) with ⟨_, before⟩
    exact List.mem_append_left _ (inv.scanned u found before e member)
  · have absent : id ∉ s.sessions.keys := by
      rw [← AList.mem_keys, ← AList.lookup_eq_none]
      exact vacant
    have size := inv.size
    simp only [State.insert, State.setThread, AList.keys_insert, List.length_cons,
      List.erase_of_not_mem absent]
    omega
  · simp [State.insert, vacant, inv.overwrites]

theorem step {clockTime : Int} {s' : State τ σ δ} {a : Action τ σ δ} (inv : Inv s)
    (allowed : AddedOnce s a) (taken : SessionManager.step clockTime s a = some s') : Inv s' := by
  cases a with
  | addSession t x =>
      simp only [SessionManager.step] at taken
      split at taken <;> cases taken
      exact inv.fetchAdd ‹_› allowed.1 allowed.2
  | insert t =>
      simp only [SessionManager.step] at taken
      split at taken <;> cases taken
      exact inv.insert ‹_›
  | removeSession id =>
      cases taken
      exact inv.removeSession id
  | unicast id data =>
      cases taken
      unfold State.unicast
      split
      · exact inv
      · exact { inv with }
  | broadcast data =>
      cases taken
      exact { inv with }
  | scan t now =>
      simp only [SessionManager.step] at taken
      split at taken <;> cases taken
      apply inv.setThread t (by simp)
      intro found same
      cases same
      exact inv.expired_assigned clockTime now
  | removeNext t =>
      simp only [SessionManager.step] at taken
      split at taken <;> cases taken
      · exact inv.setThread t (by simp) (by simp)
      · exact inv.removeNext ‹_›
  | active x now =>
      cases taken
      exact { inv with }

end Inv

theorem Inv.targets_nodup {s : State τ σ δ} (inv : Inv s) :
    (s.sessions.entries.map Sigma.snd).Nodup := by
  apply List.Nodup.map_on
  · intro e member e' member' same
    have own := (inv.registered e.1 e.2 (AList.mem_lookup_iff.mpr member)).2
    have own' := (inv.registered e'.1 e'.2 (AList.mem_lookup_iff.mpr member')).2
    have key : e.1 = e'.1 := by rw [← own, ← own', same]
    exact Sigma.ext key (heq_of_eq same)
  · exact s.sessions.nodupKeys.nodup

theorem mem_targets (s : State τ σ δ) (x : σ) :
    x ∈ s.sessions.entries.map Sigma.snd ↔ ∃ id, s.sessions.lookup id = some x := by
  constructor
  · intro member
    rcases List.mem_map.mp member with ⟨entry, present, rfl⟩
    exact ⟨entry.1, AList.mem_lookup_iff.mpr present⟩
  · intro found
    rcases found with ⟨id, found⟩
    exact List.mem_map.mpr ⟨⟨id, x⟩, AList.mem_lookup_iff.mp found, rfl⟩

section Broadcast

variable [DecidableEq σ]

theorem foldl_sentData (data : δ) {targets : List σ} (once : targets.Nodup)
    (enqueued : σ → List δ) (x : σ) :
    targets.foldl (fun enqueued target => sentData enqueued target data) enqueued x =
      if x ∈ targets then enqueued x ++ [data] else enqueued x := by
  induction targets generalizing enqueued with
  | nil => simp
  | cons target targets ih =>
      rw [List.nodup_cons] at once
      rw [List.foldl_cons, ih once.2]
      by_cases same : x = target
      · subst same
        simp [once.1, sentData]
      · simp [same, sentData]

theorem Inv.broadcast_enqueued {s : State τ σ δ} (inv : Inv s) (data : δ) (x : σ) :
    ((∃ id, s.sessions.lookup id = some x) →
      (s.broadcast data).enqueued x = s.enqueued x ++ [data]) ∧
    ((∀ id, s.sessions.lookup id ≠ some x) → (s.broadcast data).enqueued x = s.enqueued x) := by
  have sent := foldl_sentData data inv.targets_nodup s.enqueued x
  rw [List.foldl_map] at sent
  constructor
  · intro registered
    rw [if_pos ((mem_targets s x).mpr registered)] at sent
    exact sent
  · intro unregistered
    rw [if_neg] at sent
    · exact sent
    · intro member
      rcases (mem_targets s x).mp member with ⟨id, found⟩
      exact unregistered id found

end Broadcast

structure FaithfulRegistry [DecidableEq σ] (s : State τ σ δ) : Prop where
  no_overwrite : s.overwrites = 0 ∧
    ∀ t id x, s.threads t = .inserting id x → s.sessions.lookup id = none
  one_session : ∀ id x y, (id, x) ∈ s.assigned → (id, y) ∈ s.assigned → x = y
  registered : ∀ id x, s.sessions.lookup id = some x → (id, x) ∈ s.assigned ∧ s.ownId x = id
  stale : ∀ seen closed, (seen, closed) ∈ s.cleaned → seen = closed
  stale_next : ∀ t id seen rest x, s.threads t = .cleaning ((id, seen) :: rest) →
    s.sessions.lookup id = some x → x = seen
  unicast : ∀ id x data, (id, x) ∈ s.assigned →
    (s.sessions.lookup id = some x ∧
      (s.unicast id data).enqueued = sentData s.enqueued x data) ∨
    (s.sessions.lookup id = none ∧ (s.unicast id data).enqueued = s.enqueued)
  broadcast : ∀ data x,
    ((∃ id, s.sessions.lookup id = some x) →
      (s.broadcast data).enqueued x = s.enqueued x ++ [data]) ∧
    ((∀ id, s.sessions.lookup id ≠ some x) → (s.broadcast data).enqueued x = s.enqueued x)
  size : s.sessions.keys.length + s.erases = s.inserts

theorem Inv.unicast_enqueued [DecidableEq σ] {s : State τ σ δ} (inv : Inv s) {id : Id} {x : σ}
    (data : δ) (assigned : (id, x) ∈ s.assigned) :
    (s.sessions.lookup id = some x ∧
      (s.unicast id data).enqueued = sentData s.enqueued x data) ∨
    (s.sessions.lookup id = none ∧ (s.unicast id data).enqueued = s.enqueued) := by
  cases found : s.sessions.lookup id with
  | none => exact .inr ⟨rfl, by simp [State.unicast, found]⟩
  | some y =>
      have same := inv.session_unique (inv.issued id y (inv.registered id y found).1)
        (inv.issued id x assigned)
      subst same
      exact .inl ⟨rfl, by simp [State.unicast, found]⟩

theorem faithful_registry [DecidableEq τ] [DecidableEq σ] (clockTime : Int) (ownId : σ → Id)
    (created : σ → Int) (s : State τ σ δ)
    (reached : (machine τ δ clockTime ownId created).ReachUnder AddedOnce s) :
    FaithfulRegistry s := by
  have inv : Inv s :=
    reached.invariant (.start ownId created) fun _ _ _ inv allowed taken => inv.step allowed taken
  refine ⟨⟨inv.overwrites, fun t id x => inv.vacant⟩, ?_, inv.registered, inv.cleaned, ?_,
    fun id x data => inv.unicast_enqueued data, inv.broadcast_enqueued, inv.size⟩
  · intro id x y first second
    exact inv.session_unique (inv.issued id x first) (inv.issued id y second)
  · intro t id seen rest x pc found
    have scanned := inv.scanned t _ pc (id, seen) (by simp)
    exact inv.session_unique (inv.issued id x (inv.registered id x found).1)
      (inv.issued id seen scanned)

instance [DecidableEq σ] (s : State τ σ δ) (a : Action τ σ δ) : Decidable (AddedOnce s a) :=
  match a with
  | .addSession _ _ => inferInstanceAs (Decidable (_ ∧ _))
  | .insert _ | .removeSession _ | .unicast _ _ | .broadcast _ | .scan _ _ | .removeNext _
  | .active _ _ => .isTrue trivial

/-- Two threads add sessions, the second overtaking; session `false` expires, its
id is removed between the scan and the removal, and session `true` stays. -/
def staleRun : List (Action Bool Bool Nat) :=
  [.addSession false false, .addSession true true, .insert true, .insert false, .active true 90,
    .broadcast 7, .scan true 100, .removeSession 1, .removeNext true, .unicast 2 8,
    .removeNext true]

theorem faithful_registry_stale :
    ∃ s : State Bool Bool Nat, s.enqueued true = [7, 8] ∧ s.enqueued false = [7] ∧
      s.closed = [false] ∧ FaithfulRegistry s :=
  ⟨_, rfl, rfl, rfl, faithful_registry 30 (fun _ => 0) (fun _ => 0) _
    (Machine.reachFrom_of_runGuarded staleRun .origin rfl)⟩

end CommonUtils.TCP.SessionManager
