import CommonUtils.Library.Machine
import Mathlib.Data.List.Range

/-! A bounded first-in first-out buffer as a specification. Offers are numbered in
the order they are made; the buffer holds numbers. What happens to an offer that
meets a full buffer is the policy. -/

namespace BoundedFifo

inductive Policy where
  | dropNewest
  | dropOldest
  deriving DecidableEq

structure Offer where
  full : Bool
  oldest : Option Nat
  deriving DecidableEq

structure State where
  offers : List Offer
  live : List Nat
  taken : List Nat
  deriving DecidableEq

inductive Action where
  | offer
  | take
  deriving DecidableEq

def met (capacity : Nat) (s : State) : Offer := ⟨s.live.length == capacity, s.live.head?⟩

def step (capacity : Nat) (policy : Policy) (s : State) : Action → Option State
  | .offer =>
      let offers := s.offers ++ [met capacity s]
      if s.live.length < capacity then
        some { s with offers := offers, live := s.live ++ [s.offers.length] }
      else
        match policy with
        | .dropNewest => some { s with offers := offers }
        | .dropOldest => some { s with offers := offers, live := s.live.tail ++ [s.offers.length] }
  | .take =>
      match s.live with
      | [] => none
      | oldest :: rest => some { s with live := rest, taken := s.taken ++ [oldest] }

def machine (capacity : Nat) (policy : Policy) : Machine State Action where
  start := ⟨[], [], []⟩
  step := step capacity policy

/-- The offers that never leave the buffer through a take. -/
def Lost (policy : Policy) (s : State) (number : Nat) : Prop :=
  match policy with
  | .dropNewest => ∃ o, s.offers[number]? = some o ∧ o.full = true
  | .dropOldest => ∃ o ∈ s.offers, o.full = true ∧ o.oldest = some number

structure Lawful (capacity : Nat) (policy : Policy) (s : State) : Prop where
  bounded : s.live.length ≤ capacity
  in_order : (s.taken ++ s.live).Sublist (List.range s.offers.length)
  recorded : ∀ o ∈ s.offers, ∀ number, o.oldest = some number → number < s.offers.length
  lost : ∀ number < s.offers.length, number ∉ s.taken ++ s.live ↔ Lost policy s number

variable {capacity : Nat} {policy : Policy} {s s' : State}

theorem lost_append (fresh : Offer) (number : Nat) (inside : number < s.offers.length)
    (live : List Nat) :
    Lost policy { s with offers := s.offers ++ [fresh], live := live } number ↔
      Lost policy s number ∨
        policy = .dropOldest ∧ fresh.full = true ∧ fresh.oldest = some number := by
  cases policy with
  | dropNewest => simp [Lost, List.getElem?_append_left inside]
  | dropOldest => simp [Lost, or_and_right, exists_or]

theorem lost_last (fresh : Offer) (old : ∀ o ∈ s.offers, o.oldest ≠ some s.offers.length)
    (now : fresh.oldest ≠ some s.offers.length) (live : List Nat) :
    Lost policy { s with offers := s.offers ++ [fresh], live := live } s.offers.length ↔
      policy = .dropNewest ∧ fresh.full = true := by
  cases policy with
  | dropNewest => simp [Lost]
  | dropOldest =>
      simp only [Lost, List.mem_append, List.mem_singleton, reduceCtorEq, false_and, iff_false]
      intro lost
      rcases lost with ⟨o, earlier | rfl, _, same⟩
      · exact old o earlier same
      · exact now same

namespace Lawful

theorem start : Lawful capacity policy (machine capacity policy).start where
  bounded := Nat.zero_le _
  in_order := List.Sublist.slnil
  recorded := by
    intro o member
    cases member
  lost := by
    intro number inside
    exact absurd inside (Nat.not_lt_zero _)

theorem kept_lt (lawful : Lawful capacity policy s) {number : Nat}
    (kept : number ∈ s.taken ++ s.live) : number < s.offers.length :=
  List.mem_range.mp (lawful.in_order.subset kept)

theorem kept_nodup (lawful : Lawful capacity policy s) : (s.taken ++ s.live).Nodup :=
  List.Nodup.sublist lawful.in_order List.nodup_range

theorem oldest_lt (lawful : Lawful capacity policy s) {number : Nat}
    (oldest : (met capacity s).oldest = some number) : number < s.offers.length :=
  lawful.kept_lt (List.mem_append_right _ (List.mem_of_head? oldest))

theorem recorded_append (lawful : Lawful capacity policy s) :
    ∀ o ∈ s.offers ++ [met capacity s], ∀ number, o.oldest = some number →
      number < (s.offers ++ [met capacity s]).length := by
  intro o member number oldest
  simp only [List.length_append, List.length_singleton]
  rcases List.mem_append.mp member with earlier | now
  · exact Nat.lt_succ_of_lt (lawful.recorded o earlier number oldest)
  · rw [List.mem_singleton] at now
    subst now
    exact Nat.lt_succ_of_lt (lawful.oldest_lt oldest)

theorem newest_lost (lawful : Lawful capacity policy s) (live : List Nat) :
    Lost policy { s with offers := s.offers ++ [met capacity s], live := live } s.offers.length ↔
      policy = .dropNewest ∧ (met capacity s).full = true := by
  apply lost_last
  · intro o member same
    exact Nat.lt_irrefl _ (lawful.recorded o member _ same)
  · intro same
    exact Nat.lt_irrefl _ (lawful.oldest_lt same)

theorem offer_with_room (lawful : Lawful capacity policy s) (room : s.live.length < capacity) :
    Lawful capacity policy
      { s with offers := s.offers ++ [met capacity s], live := s.live ++ [s.offers.length] } where
  bounded := by simpa using Nat.succ_le_of_lt room
  in_order := by
    simp only [List.length_append, List.length_singleton, List.range_succ, ← List.append_assoc]
    exact lawful.in_order.append (List.Sublist.refl _)
  recorded := lawful.recorded_append
  lost := by
    intro number inside
    have notFull : (met capacity s).full = false := by simp [met, Nat.ne_of_lt room]
    by_cases newest : number = s.offers.length
    · subst newest
      rw [lawful.newest_lost, notFull]
      simp
    · have earlier : number < s.offers.length := by
        simp only [List.length_append, List.length_singleton] at inside
        omega
      rw [lost_append _ _ earlier, notFull, ← lawful.lost number earlier]
      simp [newest]

theorem offer_dropped (lawful : Lawful capacity .dropNewest s) (full : capacity ≤ s.live.length) :
    Lawful capacity .dropNewest { s with offers := s.offers ++ [met capacity s] } where
  bounded := lawful.bounded
  in_order := by
    simp only [List.length_append, List.length_singleton, List.range_succ]
    exact lawful.in_order.trans (List.sublist_append_left _ _)
  recorded := lawful.recorded_append
  lost := by
    intro number inside
    have isFull : (met capacity s).full = true := by
      simp [met, Nat.le_antisymm lawful.bounded full]
    by_cases newest : number = s.offers.length
    · subst newest
      have lost := (lawful.newest_lost s.live).mpr ⟨rfl, isFull⟩
      exact ⟨fun _ => lost, fun _ kept => Nat.lt_irrefl _ (lawful.kept_lt kept)⟩
    · have earlier : number < s.offers.length := by
        simp only [List.length_append, List.length_singleton] at inside
        omega
      rw [lost_append _ _ earlier, ← lawful.lost number earlier]
      simp

theorem offer_evicting (lawful : Lawful capacity .dropOldest s) {oldest : Nat} {rest : List Nat}
    (live : s.live = oldest :: rest) (full : capacity ≤ s.live.length) :
    Lawful capacity .dropOldest
      { s with offers := s.offers ++ [met capacity s], live := rest ++ [s.offers.length] } where
  bounded := by
    have bounded := lawful.bounded
    rw [live] at bounded
    simpa using bounded
  in_order := by
    simp only [List.length_append, List.length_singleton, List.range_succ, ← List.append_assoc]
    refine List.Sublist.append (List.Sublist.trans ?_ lawful.in_order) (List.Sublist.refl _)
    rw [live]
    exact (List.Sublist.refl _).append (List.sublist_cons_self _ _)
  recorded := lawful.recorded_append
  lost := by
    intro number inside
    have record : met capacity s = ⟨true, some oldest⟩ := by
      have same := Nat.le_antisymm lawful.bounded full
      simp [met, live, ← same]
    by_cases newest : number = s.offers.length
    · subst newest
      rw [lawful.newest_lost]
      simp
    · have earlier : number < s.offers.length := by
        simp only [List.length_append, List.length_singleton] at inside
        omega
      have distinct := lawful.kept_nodup
      rw [live, List.perm_middle.nodup_iff, List.nodup_cons] at distinct
      rw [lost_append _ _ earlier, record, ← lawful.lost number earlier, live]
      simp only [List.mem_append, List.mem_cons, newest, true_and,
        Option.some.injEq, not_or]
      have gone := distinct.1
      simp only [List.mem_append, not_or] at gone
      by_cases evicted : oldest = number
      · subst evicted
        simp [gone]
      · simp [evicted, Ne.symm evicted]

theorem take (lawful : Lawful capacity policy s) {oldest : Nat} {rest : List Nat}
    (live : s.live = oldest :: rest) :
    Lawful capacity policy { s with live := rest, taken := s.taken ++ [oldest] } where
  bounded := by
    have bounded := lawful.bounded
    rw [live, List.length_cons] at bounded
    exact Nat.le_of_succ_le bounded
  in_order := by
    have in_order := lawful.in_order
    rw [live] at in_order
    simpa using in_order
  recorded := lawful.recorded
  lost := by
    intro number inside
    have lost := lawful.lost number inside
    rw [live] at lost
    rw [List.append_assoc]
    cases policy <;> exact lost

theorem step (room : 0 < capacity) {a : Action} (lawful : Lawful capacity policy s)
    (taken : BoundedFifo.step capacity policy s a = some s') : Lawful capacity policy s' := by
  cases a with
  | offer =>
      simp only [BoundedFifo.step] at taken
      split at taken
      · cases taken
        exact lawful.offer_with_room ‹_›
      · rename_i full
        cases policy with
        | dropNewest =>
            cases taken
            exact lawful.offer_dropped (Nat.not_lt.mp full)
        | dropOldest =>
            cases live : s.live with
            | nil => simp [live, room] at full
            | cons oldest rest =>
                cases taken
                rw [live, List.tail_cons]
                exact lawful.offer_evicting live (Nat.not_lt.mp full)
  | take =>
      simp only [BoundedFifo.step] at taken
      split at taken
      · cases taken
      · cases taken
        exact lawful.take ‹_›

theorem of_reachable (room : 0 < capacity) (reached : (machine capacity policy).Reachable s) :
    Lawful capacity policy s :=
  reached.invariant .start fun _ _ _ lawful _ taken => lawful.step room taken

theorem kept_all (lawful : Lawful capacity policy s) (roomy : ∀ o ∈ s.offers, o.full = false) :
    s.taken ++ s.live = List.range s.offers.length := by
  have kept : ∀ number ∈ List.range s.offers.length, number ∈ s.taken ++ s.live := by
    intro number inside
    by_contra gone
    have lost := (lawful.lost number (List.mem_range.mp inside)).mp gone
    cases policy with
    | dropNewest =>
        rcases lost with ⟨o, found, full⟩
        rw [roomy o (List.mem_of_getElem? found)] at full
        cases full
    | dropOldest =>
        rcases lost with ⟨o, member, full, -⟩
        rw [roomy o member] at full
        cases full
  have long := List.Nodup.length_le_of_subset List.nodup_range kept
  exact lawful.in_order.eq_of_length_le long

end Lawful

end BoundedFifo
