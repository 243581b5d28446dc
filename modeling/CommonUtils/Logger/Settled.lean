import CommonUtils.Logger.Flush
import Mathlib.Data.List.Nodup

namespace CommonUtils.Logger

universe u v

variable {τ μ : Type u} {ι κ : Type v} [DecidableEq τ] [DecidableEq ι]

section Numbered

variable {P : ι → LogPolicy (Thread τ) (Entry τ μ)} {s s' : State P} {a : Action P}

def Numbered (s : State P) : Prop := s.logged.map Entry.number = List.range s.logged.length

theorem Numbered.step (numbered : Numbered s) (taken : Logger.step s a = some s') :
    Numbered s' := by
  cases step_takes taken with
  | log t message absent =>
      unfold Numbered at *
      simp [numbered, List.range_succ]
  | _ => exact numbered

omit [DecidableEq ι] in
theorem Ledger.entered_nodup (ledger : Ledger s) (numbered : Numbered s) : s.entered.Nodup := by
  classical
  have logged : s.logged.Nodup := by
    apply List.Nodup.of_map Entry.number
    rw [numbered]
    exact List.nodup_range
  rw [List.nodup_iff_count_le_one]
  intro e
  have own (entries : List (Entry τ μ)) :
      (entries.filter fun x => x.producer = e.producer).count e = entries.count e :=
    List.count_filter (decide_eq_true rfl)
  calc
    s.entered.count e = (s.entered.filter fun x => x.producer = e.producer).count e :=
      (own _).symm
    _ ≤ (s.logged.filter fun x => x.producer = e.producer).count e :=
      (ledger.entered_prefix e.producer).sublist.count_le e
    _ = s.logged.count e := own _
    _ ≤ 1 := List.nodup_iff_count_le_one.mp logged e

omit [DecidableEq τ] in
theorem State.mem_received {s : State P} {p : ι} {e : Entry τ μ} :
    e ∈ s.received p ↔ (p, e) ∈ s.writes := by
  simp [State.received]

theorem Ledger.taken_of_received (ledger : Ledger s) (distinct : s.entered.Nodup) {p : ι}
    {e : Entry τ μ} (received : e ∈ s.received p) : e ∉ s.queue.queue ∧ e ∉ s.inHand p := by
  rcases ledger.handed with ⟨delivered, entered, writes⟩
  rw [entered, List.nodup_append] at distinct
  rw [State.mem_received, writes, List.mem_append] at received
  have past : e ∈ s.backlog → (p, e) ∈ begun s.policies s.queue := by
    intro later
    rcases received with before | now
    · rw [rounds, List.mem_flatMap] at before
      rcases before with ⟨e', member, here⟩
      rcases List.mem_map.mp here with ⟨_, _, same⟩
      cases same
      exact absurd rfl (distinct.2.2 e member e later)
    · exact now
  cases working : s.queue.consumer with
  | working d =>
      have backlog : s.backlog = d.entry :: s.queue.queue := Mailbox.backlog_working working
      rw [begun_working working] at past
      rw [backlog] at past distinct
      constructor
      · intro queued
        rcases List.mem_map.mp (past (List.mem_cons_of_mem _ queued)) with ⟨_, _, same⟩
        cases same
        exact (List.nodup_cons.mp distinct.2.1).1 queued
      · rw [State.inHand_working working]
        split
        · exact List.not_mem_nil
        · rename_i short
          intro same
          rw [List.mem_singleton] at same
          subst same
          -- its `Write` to `p` has begun, so that it is not in hand short of `p`
          rcases List.mem_map.mp (past List.mem_cons_self) with ⟨_, member, same⟩
          cases same
          exact short member
  | _ =>
      have idle : ∀ d, s.queue.consumer ≠ .working d := by
        rw [working]
        intro d busy
        cases busy
      rw [begun_idle idle] at past
      have backlog : s.backlog = s.queue.queue := Mailbox.backlog_idle idle
      rw [backlog] at past
      refine ⟨fun queued => List.not_mem_nil (past queued), ?_⟩
      rw [State.inHand_idle idle]
      exact List.not_mem_nil

theorem Ledger.received_le_entered (ledger : Ledger s) (policies : s.policies.Nodup) {p : ι}
    (added : p ∈ s.policies) : s.received p <+: s.entered := by
  have once : s.added p = 1 := List.count_eq_one_of_mem policies added
  have handed := ledger.received_prefix p
  rw [once, copies_one] at handed
  exact handed

theorem Ledger.received_nodup (ledger : Ledger s) (distinct : s.entered.Nodup)
    (policies : s.policies.Nodup) {p : ι} (added : p ∈ s.policies) : (s.received p).Nodup :=
  distinct.sublist (ledger.received_le_entered policies added).sublist

theorem Ledger.received_of_done (ledger : Ledger s) (lifecycle : Lifecycle s)
    (policies : s.policies.Nodup) (done : s.destructor = .done) {p : ι} (added : p ∈ s.policies) :
    s.received p = s.entered := by
  have once : s.added p = 1 := List.count_eq_one_of_mem policies added
  rw [ledger.received_of_returned lifecycle (lifecycle.joined (.inr done)), once, copies_one]

end Numbered

section Returning

variable {P : ι → LogPolicy (Thread τ) (Entry τ μ)}

omit [DecidableEq τ] [DecidableEq ι] in
/-- What the `Flush` of `c` owes, its loop over `policies_` at its end. -/
def State.returning (s : State P) (c : Caller τ) : List (Entry τ μ) :=
  match s.calls c with
  | some (.next owed i) => if s.policies.length ≤ i then owed else []
  | _ => []

end Returning

section Files

variable [DecidableEq κ] {others : ι → LogPolicy (Thread τ) (Entry τ μ)}
variable {s s' : State (withFiles κ others)} {a : Action (withFiles κ others)}

def Kept (s : State (withFiles κ others)) : Prop := ∀ e ∈ s.flushed, Landed s e

/-- A `Flush` gives `mutex_` back only when nothing it owes waits for a policy. -/
def Outwaits (s : State (withFiles κ others)) : Action (withFiles κ others) → Prop
  | .caller c => ∀ e ∈ s.returning c, ∀ p ∈ s.policies, e ∉ s.waiting p
  | _ => True

theorem Kept.step (sound : Sound s) (kept : Kept s) (allowed : Allowed s a)
    (outwaits : Outwaits s a) (taken : Logger.step s a = some s') : Kept s' := by
  have stays : ∀ e ∈ s.entered, Landed s e → Landed s' e := fun e entered landed =>
    landed.step sound.ledger sound.lifecycle sound.filed allowed entered taken
  have old : ∀ e ∈ s.flushed, Landed s' e := fun e flushed =>
    stays e (sound.owed.flushed flushed) (kept e flushed)
  cases step_takes taken with
  | flushed c owes i mine last =>
      intro e member
      rcases List.mem_append.mp member with before | owed
      · exact old e before
      · have entered : e ∈ s.entered := sound.owed.calls c _ mine owed
        have returning : e ∈ s.returning c := by
          rw [State.returning, mine]
          simpa [List.getElem?_eq_none_iff.mp last] using owed
        exact stays e entered (.of_settled sound.ledger sound.filed entered (outwaits e returning))
  | _ => exact old

def Once (s : State (withFiles κ others)) : Action (withFiles κ others) → Prop
  | .addPolicy p => p ∉ s.policies
  | _ => True

theorem policies_nodup (distinct : s.policies.Nodup) (once : Once s a)
    (taken : Logger.step s a = some s') : s'.policies.Nodup := by
  cases step_takes taken with
  | addPolicy p => simpa [List.concat_eq_append] using distinct.concat once
  | _ => exact distinct

structure Orderly (s : State (withFiles κ others)) : Prop extends Sound s where
  numbered : Numbered s
  policies : s.policies.Nodup

theorem Orderly.start : Orderly (start (withFiles κ others)) :=
  ⟨.start, rfl, .nil⟩

theorem Orderly.step (orderly : Orderly s) (allowed : Allowed s a) (unraced : Unraced s a)
    (once : Once s a) (taken : Logger.step s a = some s') : Orderly s' where
  toSound := orderly.toSound.step allowed unraced taken
  numbered := orderly.numbered.step taken
  policies := policies_nodup orderly.policies once taken

theorem Orderly.not_waiting (orderly : Orderly s) {p : κ ⊕ ι} (added : p ∈ s.policies)
    {e : Entry τ μ} (received : e ∈ s.received p)
    (written : ∀ f, p = .inl f → e ∈ (s.file f).disk) : e ∉ s.waiting p := by
  have distinct := orderly.ledger.entered_nodup orderly.numbered
  have taken := orderly.ledger.taken_of_received distinct received
  have once := orderly.ledger.received_nodup distinct orderly.policies added
  rw [State.waiting, List.mem_append, List.mem_append, not_or, not_or]
  refine ⟨taken, ?_⟩
  cases p with
  | inl f => exact (orderly.filed f).not_unfiled once (written f rfl)
  | inr i => exact List.not_mem_nil

theorem Orderly.outwaits (orderly : Orderly s) (kept : Kept s')
    (taken : Logger.step s a = some s') : Outwaits s a := by
  cases step_takes taken with
  | flushed c owed i mine last =>
      intro e member p added
      have owes : e ∈ owed := by
        rw [State.returning, mine] at member
        simpa [List.getElem?_eq_none_iff.mp last] using member
      have promised : e ∈ s.flushed ++ owed := List.mem_append_right _ owes
      apply orderly.not_waiting added ((kept e promised).handed p added)
      intro f same
      subst same
      exact (kept e promised).filed f added
  | push c e mine | notifyOne c e mine | lock c owed mine | flushReturned c owed i mine =>
      intro e member
      rw [State.returning, mine] at member
      cases member
  | flushPolicy c owed i p state mine here begun =>
      intro e member
      have inside := (List.getElem?_eq_some_iff.mp here).1
      rw [State.returning, mine] at member
      simp [Nat.not_le.mpr inside] at member
  | _ => trivial

instance (s : State (withFiles κ others)) :
    (a : Action (withFiles κ others)) → Decidable (Once s a)
  | .addPolicy p => decidable_of_iff (∀ q ∈ (s.policies : List (κ ⊕ ι)), ¬p = q) List.forall_mem_ne
  | .caller _ | .log _ _ | .flush _ | .processQueue | .spurious | .timerTask | .destroy
  | .destructor | .destroyPolicy _ | .policy _ _ => isTrue trivial

end Files

end CommonUtils.Logger
