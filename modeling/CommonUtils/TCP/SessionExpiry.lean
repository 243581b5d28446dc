import CommonUtils.TCP.SessionCleaning

namespace CommonUtils.TCP.SessionManager

universe u v w

variable {τ : Type u} {σ : Type v} {δ : Type w}

def State.expiredEntries (s : State τ σ δ) (clockTime : Int) (clock : Id → Int) :
    List (Sigma fun _ : Id => σ) :=
  s.sessions.entries.filter fun e => checkTimeout s clockTime (clock e.1) e.2

def State.cleanExpiredSession (s : State τ σ δ) (clockTime : Int) (clock : Id → Int) :
    State τ σ δ :=
  let expiredSessionIds := (s.expiredEntries clockTime clock).map Sigma.fst
  expiredSessionIds.foldl State.removeSession s

/-- What is to be cleaned; a `clockTime_` of `0` turns the detection off. -/
def due (s : State τ σ δ) (clockTime : Nat) (clock : Id → Int) (id : Id) (session : σ) : Bool :=
  0 < clockTime && checkTimeout s clockTime (clock id) session

structure CleansExactly (clockTime : Nat) (clock : Id → Int) (s s' : State τ σ δ) : Prop where
  sessions : ∀ id, s'.sessions.lookup id =
    (s.sessions.lookup id).filter fun x => !due s clockTime clock id x
  closed : s'.closed = s.closed ++
    (s.sessions.entries.filter fun e => due s clockTime clock e.1 e.2).map Sigma.snd
  untouched : s'.ownId = s.ownId ∧ s'.lastActiveTime = s.lastActiveTime ∧
    s'.enqueued = s.enqueued

theorem removeSession_untouched (s : State τ σ δ) (id : Id) :
    (s.removeSession id).ownId = s.ownId ∧
      (s.removeSession id).lastActiveTime = s.lastActiveTime ∧
      (s.removeSession id).enqueued = s.enqueued := by
  unfold State.removeSession
  split <;> exact ⟨rfl, rfl, rfl⟩

theorem removeSession_closed (s : State τ σ δ) (id : Id) :
    (s.removeSession id).closed = s.closed ++ (s.sessions.lookup id).toList := by
  unfold State.removeSession
  split <;> simp [*]

section Removals

variable (s : State τ σ δ) (ids : List Id)

theorem foldl_removeSession_untouched :
    (ids.foldl State.removeSession s).ownId = s.ownId ∧
      (ids.foldl State.removeSession s).lastActiveTime = s.lastActiveTime ∧
      (ids.foldl State.removeSession s).enqueued = s.enqueued := by
  induction ids generalizing s with
  | nil => exact ⟨rfl, rfl, rfl⟩
  | cons id ids ih =>
      have one := removeSession_untouched s id
      have others := ih (s.removeSession id)
      exact ⟨others.1.trans one.1, others.2.1.trans one.2.1, others.2.2.trans one.2.2⟩

theorem foldl_removeSession_lookup (id : Id) :
    (ids.foldl State.removeSession s).sessions.lookup id =
      if id ∈ ids then none else s.sessions.lookup id := by
  induction ids generalizing s with
  | nil => simp
  | cons gone ids ih =>
      rw [List.foldl_cons, ih, lookup_removeSession]
      by_cases first : id = gone
      · simp [first]
      · simp [first]

theorem foldl_removeSession_closed (once : ids.Nodup) :
    (ids.foldl State.removeSession s).closed = s.closed ++ ids.filterMap s.sessions.lookup := by
  induction ids generalizing s with
  | nil => simp
  | cons id ids ih =>
      rw [List.nodup_cons] at once
      have others : ids.filterMap (s.removeSession id).sessions.lookup =
          ids.filterMap s.sessions.lookup := by
        apply List.filterMap_congr
        intro other member
        rw [lookup_removeSession, if_neg]
        rintro rfl
        exact once.1 member
      rw [List.foldl_cons, ih _ once.2, removeSession_closed, others]
      cases found : s.sessions.lookup id with
      | none => simp [found]
      | some x => simp [found]

end Removals

section Clean

variable (s : State τ σ δ) (clockTime : Int) (clock : Id → Int)

theorem mem_expiredEntries {id : Id} :
    id ∈ (s.expiredEntries clockTime clock).map Sigma.fst ↔
      ∃ x, s.sessions.lookup id = some x ∧ checkTimeout s clockTime (clock id) x = true := by
  constructor
  · intro member
    rcases List.mem_map.mp member with ⟨e, expired, rfl⟩
    rcases List.mem_filter.mp expired with ⟨present, old⟩
    exact ⟨e.2, AList.mem_lookup_iff.mpr present, old⟩
  · intro expired
    rcases expired with ⟨x, found, old⟩
    exact List.mem_map.mpr
      ⟨⟨id, x⟩, List.mem_filter.mpr ⟨AList.mem_lookup_iff.mp found, old⟩, rfl⟩

theorem cleanExpiredSession_lookup (id : Id) :
    (s.cleanExpiredSession clockTime clock).sessions.lookup id =
      (s.sessions.lookup id).filter fun x => !checkTimeout s clockTime (clock id) x := by
  rw [State.cleanExpiredSession, foldl_removeSession_lookup]
  simp only [mem_expiredEntries]
  cases found : s.sessions.lookup id with
  | none => simp
  | some x =>
      cases expired : checkTimeout s clockTime (clock id) x <;> simp [Option.filter, expired]

theorem cleanExpiredSession_closed :
    (s.cleanExpiredSession clockTime clock).closed =
      s.closed ++ (s.expiredEntries clockTime clock).map Sigma.snd := by
  have once : ((s.expiredEntries clockTime clock).map Sigma.fst).Nodup :=
    List.Nodup.sublist (List.filter_sublist.map Sigma.fst) s.sessions.nodupKeys
  rw [State.cleanExpiredSession, foldl_removeSession_closed s _ once, List.filterMap_map]
  congr 1
  have found : ∀ e ∈ s.expiredEntries clockTime clock,
      (s.sessions.lookup ∘ Sigma.fst) e = some e.2 := by
    intro e member
    exact AList.mem_lookup_iff.mpr (List.mem_filter.mp member).1
  rw [List.filterMap_congr found]
  simp

end Clean

theorem expiredEntries_eq_nil_iff (s : State τ σ δ) (clock : Id → Int) :
    s.expiredEntries 0 clock = [] ↔
      ∀ id x, s.sessions.lookup id = some x → clock id ≤ s.lastActiveTime x := by
  rw [State.expiredEntries, List.filter_eq_nil_iff]
  simp only [checkTimeout, decide_eq_true_eq]
  constructor
  · intro young id x found
    have fresh := young ⟨id, x⟩ (AList.mem_lookup_iff.mp found)
    dsimp only at fresh
    omega
  · intro young e member
    have fresh := young e.1 e.2 (AList.mem_lookup_iff.mpr member)
    omega

theorem cleansExactly_of_pos (s : State τ σ δ) {clockTime : Nat} (positive : 0 < clockTime)
    (clock : Id → Int) :
    CleansExactly clockTime clock s (s.cleanExpiredSession clockTime clock) := by
  have on : ∀ id x, due s clockTime clock id x = checkTimeout s clockTime (clock id) x := by
    simp [due, positive]
  refine ⟨fun id => ?_, ?_, foldl_removeSession_untouched s _⟩
  · simp only [on]
    exact cleanExpiredSession_lookup s clockTime clock id
  · simp only [on]
    exact cleanExpiredSession_closed s clockTime clock

theorem cleansExactly_iff (s : State τ σ δ) (clockTime : Nat) (clock : Id → Int) :
    CleansExactly clockTime clock s (s.cleanExpiredSession clockTime clock) ↔
      0 < clockTime ∨ ∀ id x, s.sessions.lookup id = some x → clock id ≤ s.lastActiveTime x := by
  have closed := cleanExpiredSession_closed s clockTime clock
  rcases Nat.eq_zero_or_pos clockTime with rfl | positive
  · have off : ∀ id x, due s 0 clock id x = false := fun id x => rfl
    constructor
    · intro cleans
      right
      have none := cleans.closed
      simp only [off, List.filter_false, List.map_nil] at none
      rw [closed, List.append_right_inj, List.map_eq_nil_iff] at none
      exact (expiredEntries_eq_nil_iff s clock).mp none
    · intro young
      have none := (expiredEntries_eq_nil_iff s clock).mpr (young.resolve_left (by omega))
      have same : s.cleanExpiredSession (0 : Nat) clock = s := by
        rw [State.cleanExpiredSession]
        simp [none]
      rw [same]
      refine ⟨fun id => ?_, ?_, rfl, rfl, rfl⟩
      · cases found : s.sessions.lookup id <;> simp [Option.filter, off]
      · simp [off]
  · exact iff_of_true (cleansExactly_of_pos s positive clock) (.inl positive)

def idleRegistry : State Unit Unit Unit :=
  (start Unit Unit (fun _ => 0) (fun _ => 0)).insert () 1 ()

/-- With the detection off, the session is closed and erased at `1`. -/
theorem cleans_when_off : (idleRegistry.cleanExpiredSession 0 fun _ => 1).sessions.lookup 1 = none ∧
    ¬ CleansExactly 0 (fun _ => 1) idleRegistry
      (idleRegistry.cleanExpiredSession (0 : Nat) fun _ => 1) := by
  refine ⟨rfl, fun cleans => ?_⟩
  have kept := cleans.sessions 1
  revert kept
  decide

end CommonUtils.TCP.SessionManager

namespace CommonUtils.TCP.SessionCleaning

open SessionManager (Id)

universe u v w

variable {τ : Type u} {σ : Type v} {δ : Type w} [DecidableEq τ] [DecidableEq σ]

section Alone

variable (clockTime : Int) (ownId : σ → Id) (created : σ → Int) (now : Int)

def cleanAt (t : τ) (times : List Int) : List (Int × Action τ σ δ) :=
  times.map fun time => (time, .clean t)

theorem scan_run (clock : Id → Int) {t : τ} {todo : List (Id × σ)} {found : List (Found σ)}
    {s : State τ σ δ} (scanning : s.cleans t = some (.scanning todo found))
    (later : ∀ e ∈ todo, s.clock ≤ clock e.1)
    (ordered : todo.Pairwise fun e f => clock e.1 ≤ clock f.1) :
    ∃ s', (machine τ δ clockTime ownId created now).runFrom s
        (cleanAt t (todo.map fun e => clock e.1)) = some s' ∧
      s'.registry = s.registry ∧ s'.mutex = s.mutex ∧
      s'.cleans t = some (.scanning [] (found ++
        (todo.filter fun e => SessionManager.checkTimeout s.registry clockTime (clock e.1) e.2).map
          fun e => ⟨e.1, e.2, clock e.1⟩)) := by
  induction todo generalizing s found with
  | nil => exact ⟨s, rfl, rfl, rfl, by simpa using scanning⟩
  | cons e todo ih =>
      rw [List.pairwise_cons] at ordered
      have taken : step clockTime s (clock e.1, .clean t) =
          some { s.check clockTime (clock e.1) t e.1 e.2 todo found with clock := clock e.1 } := by
        rw [step, if_pos (later e List.mem_cons_self)]
        simp [next, State.clean, scanning]
      have checked : ({ s.check clockTime (clock e.1) t e.1 e.2 todo found with
          clock := clock e.1 } : State τ σ δ).cleans t = some (.scanning todo
            (if SessionManager.checkTimeout s.registry clockTime (clock e.1) e.2 then
              found ++ [⟨e.1, e.2, clock e.1⟩] else found)) := by
        simp [State.check, State.setClean]
      rcases ih checked (fun f member => ordered.1 f member) ordered.2 with
        ⟨s', ran, registry, mutex, cleans⟩
      refine ⟨s', ?_, registry, mutex, ?_⟩
      · exact Machine.runFrom_cons_eq_some_iff.mpr ⟨_, taken, ran⟩
      · rw [cleans, List.filter_cons]
        cases SessionManager.checkTimeout s.registry clockTime (clock e.1) e.2 <;>
          simp [State.check, State.setClean]

theorem remove_run {t : τ} {found : List (Found σ)} {s : State τ σ δ}
    (removing : s.cleans t = some (.removing found)) (free : s.mutex = none) :
    ∃ s', (machine τ δ clockTime ownId created now).runFrom s
        (cleanAt t (found.map fun _ => s.clock)) = some s' ∧
      s'.registry = (found.map Found.id).foldl SessionManager.State.removeSession s.registry ∧
      s'.mutex = none ∧ s'.clock = s.clock ∧ s'.cleans t = some (.removing []) := by
  induction found generalizing s with
  | nil => exact ⟨s, rfl, rfl, free, rfl, removing⟩
  | cons f found ih =>
      have taken : step clockTime s (s.clock, .clean t) =
          some { s.removeNext s.clock t f found with clock := s.clock } := by
        rw [step, if_pos (Int.le_refl _)]
        simp [next, State.clean, removing, free]
      rcases ih (s := { s.removeNext s.clock t f found with clock := s.clock })
        (by simp [State.removeNext, State.setClean]) free with
        ⟨s', ran, registry, mutex, clock, cleans⟩
      refine ⟨s', ?_, registry, mutex, clock, cleans⟩
      exact Machine.runFrom_cons_eq_some_iff.mpr ⟨_, taken, ran⟩

theorem single_run {t : τ} {time : Int} {s s' : State τ σ δ} (later : s.clock ≤ time)
    (ran : s.clean clockTime time t = some s') :
    (machine τ δ clockTime ownId created now).runFrom s (cleanAt t [time]) =
      some { s' with clock := time } := by
  simp [cleanAt, Machine.runFrom_cons, machine, step, later, next, ran]

theorem clean_run (clock : Id → Int) {t : τ} {s : State τ σ δ} (idle : s.cleans t = none)
    (calm : s.registry.threads t = .idle) (free : s.mutex = none)
    (later : ∀ e ∈ s.registry.sessions.entries, s.clock ≤ clock e.1)
    (ordered : s.registry.sessions.entries.Pairwise fun e f => clock e.1 ≤ clock f.1) :
    ∃ times s', (machine τ δ clockTime ownId created now).runFrom s (cleanAt t times) = some s' ∧
      s'.registry = s.registry.cleanExpiredSession clockTime clock ∧ s'.cleans t = none ∧
      s'.mutex = none := by
  let todo := s.registry.sessions.entries.map fun e => (e.1, e.2)
  let begun := { s.setClean t (some (.scanning todo [])) with mutex := some t }
  have begins : s.clean clockTime s.clock t = some begun := by
    simp [State.clean, idle, free, calm, begun, todo]
  have checks : ∀ e ∈ todo, s.clock ≤ clock e.1 := by
    intro e member
    rcases List.mem_map.mp member with ⟨entry, present, rfl⟩
    exact later entry present
  have scanning : { begun with clock := s.clock }.cleans t = some (.scanning todo []) := by
    simp [begun, State.setClean]
  rcases scan_run clockTime ownId created now clock scanning checks
    (List.pairwise_map.mpr ordered) with ⟨scanned, scan, registry, _, cleans⟩
  rw [List.nil_append] at cleans
  have unlocks := State.clean.eq_def scanned clockTime scanned.clock t
  simp only [cleans] at unlocks
  rcases remove_run clockTime ownId created now (t := t)
    (s := { scanned.setClean t (some (.removing _)) with mutex := none, clock := scanned.clock })
    (by simp [State.setClean]; rfl) rfl with ⟨removed, remove, removal, unlocked, _, emptied⟩
  have returns := State.clean.eq_def removed clockTime removed.clock t
  simp only [emptied] at returns
  have run := Machine.runFrom_trans
    (Machine.runFrom_trans (Machine.runFrom_trans (Machine.runFrom_trans
      (single_run clockTime ownId created now (Int.le_refl _) begins) scan)
      (single_run clockTime ownId created now (Int.le_refl _) unlocks)) remove)
      (single_run clockTime ownId created now (Int.le_refl _) returns)
  simp only [cleanAt, ← List.map_append] at run
  refine ⟨_, _, run, ?_, by simp [State.setClean], unlocked⟩
  have same : removed.registry = s.registry.cleanExpiredSession clockTime clock := by
    rw [removal]
    simp only [State.setClean, registry, begun, todo, SessionManager.State.cleanExpiredSession,
      SessionManager.State.expiredEntries, List.filter_map, List.map_map]
    rfl
  exact same

/-- Such a call closes and erases just the sessions that are due. -/
theorem cleansExactly_run {clockTime : Nat} (positive : 0 < clockTime) (clock : Id → Int) {t : τ}
    {s : State τ σ δ} (idle : s.cleans t = none) (calm : s.registry.threads t = .idle)
    (free : s.mutex = none)
    (later : ∀ e ∈ s.registry.sessions.entries, s.clock ≤ clock e.1)
    (ordered : s.registry.sessions.entries.Pairwise fun e f => clock e.1 ≤ clock f.1) :
    ∃ times s', (machine τ δ clockTime ownId created now).runFrom s (cleanAt t times) = some s' ∧
      SessionManager.CleansExactly clockTime clock s.registry s'.registry ∧
        s'.cleans t = none ∧ s'.mutex = none := by
  rcases clean_run clockTime ownId created now clock idle calm free later ordered with
    ⟨times, s', ran, cleaned, returned, unlocked⟩
  refine ⟨times, s', ran, ?_, returned, unlocked⟩
  rw [cleaned]
  exact SessionManager.cleansExactly_of_pos s.registry positive clock

end Alone

end CommonUtils.TCP.SessionCleaning
