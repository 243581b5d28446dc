import CommonUtils.MessageQueue.Refinement
import CommonUtils.TCP.Broadcast
import CommonUtils.TCP.Server.Lifetime

namespace CommonUtils.TCP

namespace SessionManager

variable {τ σ δ : Type*}

structure Issuing (s : State (τ ⊕ σ) σ δ) : Prop where
  counted : ∃ erases, Inv { s with erases := erases }
  own : ∀ id x, (id, x) ∈ s.assigned → s.ownId x = id
  handler : ∀ x id y, s.threads (.inr x) = .inserting id y → y = x

theorem removeSession_erases (s : State τ σ δ) (id : Id) (erases : Nat) :
    ∃ erases', { s with erases := erases }.removeSession id =
      { s.removeSession id with erases := erases' } := by
  unfold State.removeSession
  simp only
  cases s.sessions.lookup id with
  | none => exact ⟨erases, rfl⟩
  | some x => exact ⟨erases + 1, rfl⟩

section Steps

variable [DecidableEq τ] [DecidableEq σ] {clockTime : Int}

theorem step_erases {s s' : State τ σ δ} {a : Action τ σ δ}
    (taken : step clockTime s a = some s') (erases : Nat) :
    ∃ erases', step clockTime { s with erases := erases } a =
      some { s' with erases := erases' } := by
  cases a with
  | addSession t x | insert t | scan t now =>
      simp only [step] at taken ⊢
      split at taken <;> cases taken
      exact ⟨erases, rfl⟩
  | removeSession id =>
      cases taken
      rcases removeSession_erases s id erases with ⟨erases', same⟩
      exact ⟨erases', congrArg some same⟩
  | unicast id data =>
      cases taken
      refine ⟨erases, congrArg some ?_⟩
      unfold State.unicast
      simp only
      split <;> rfl
  | removeNext t =>
      simp only [step] at taken ⊢
      split at taken <;> cases taken
      · exact ⟨erases, rfl⟩
      · rename_i id seen rest pc
        rcases removeSession_erases s id erases with ⟨erases', same⟩
        refine ⟨erases', congrArg some ?_⟩
        simp only [State.removeNext, same]
        rfl
  | broadcast data | active x now =>
      cases taken
      exact ⟨erases, rfl⟩

theorem assigned_eq {s s' : State τ σ δ} {a : Action τ σ δ} (other : ∀ t, a ≠ .insert t)
    (taken : step clockTime s a = some s') :
    s'.assigned = s.assigned ∧ s'.ownId = s.ownId := by
  have removed (id : Id) : (s.removeSession id).ownId = s.ownId := by
    unfold State.removeSession
    split <;> rfl
  cases a with
  | insert t => exact absurd rfl (other t)
  | addSession t x | scan t now =>
      simp only [step] at taken
      split at taken <;> cases taken
      exact ⟨rfl, rfl⟩
  | removeSession id =>
      cases taken
      exact ⟨removeSession_assigned s id, removed id⟩
  | unicast id data =>
      cases taken
      unfold State.unicast
      split <;> exact ⟨rfl, rfl⟩
  | removeNext t =>
      simp only [step] at taken
      split at taken <;> cases taken
      · exact ⟨rfl, rfl⟩
      · exact ⟨removeSession_assigned s _, removed _⟩
  | broadcast data | active x now =>
      cases taken
      exact ⟨rfl, rfl⟩

theorem inserting_of_step {s s' : State τ σ δ} {a : Action τ σ δ}
    (taken : step clockTime s a = some s') {t : τ} {id : Id} {x : σ}
    (inserting : s'.threads t = .inserting id x) :
    s.threads t = .inserting id x ∨ a = .addSession t x := by
  have removed (id : Id) : (s.removeSession id).threads = s.threads := by
    unfold State.removeSession
    split <;> rfl
  have moved {u : τ} {pc : Thread σ} (other : ∀ id x, pc ≠ .inserting id x)
      (now : Function.update s.threads u pc t = .inserting id x) :
      s.threads t = .inserting id x := by
    by_cases same : t = u
    · rw [same, Function.update_self] at now
      exact absurd now (other id x)
    · rwa [Function.update_of_ne same] at now
  cases a with
  | addSession u y =>
      simp only [step] at taken
      split at taken <;> cases taken
      by_cases same : t = u
      · subst same
        simp only [State.fetchAdd, State.setThread, Function.update_self,
          Thread.inserting.injEq] at inserting
        rw [inserting.2]
        exact .inr rfl
      · simp only [State.fetchAdd, State.setThread, Function.update_of_ne same] at inserting
        exact .inl inserting
  | insert u | scan u now =>
      simp only [step] at taken
      split at taken <;> cases taken
      exact .inl (moved (by simp) inserting)
  | removeSession id =>
      cases taken
      rw [removed] at inserting
      exact .inl inserting
  | unicast id data =>
      cases taken
      unfold State.unicast at inserting
      split at inserting <;> exact .inl inserting
  | removeNext u =>
      simp only [step] at taken
      split at taken <;> cases taken
      · exact .inl (moved (by simp) inserting)
      · simp only [State.removeNext, State.setThread, removed] at inserting
        exact .inl (moved (by simp) inserting)
  | broadcast data | active y now =>
      cases taken
      exact .inl inserting

end Steps

namespace Issuing

theorem start (ownId : σ → Id) (created : σ → Int) :
    Issuing (SessionManager.start (τ ⊕ σ) δ ownId created) where
  counted := ⟨0, .start ownId created⟩
  own := by
    intro id x assigned
    cases assigned
  handler := by
    intro x id y pc
    cases pc

variable {s s' : State (τ ⊕ σ) σ δ}

theorem issued (issuing : Issuing s) {id : Id} {x : σ} (assigned : (id, x) ∈ s.assigned) :
    Issued s id x := by
  rcases issuing.counted with ⟨erases, inv⟩
  exact inv.issued id x assigned

theorem added (issuing : Issuing s) {id : Id} {x : σ} (assigned : (id, x) ∈ s.assigned) :
    x ∈ s.added := by
  rcases issuing.issued assigned with ⟨index, found, -⟩
  exact List.mem_of_getElem? found

theorem session_unique (issuing : Issuing s) {id : Id} {x y : σ}
    (first : (id, x) ∈ s.assigned) (second : (id, y) ∈ s.assigned) : x = y := by
  rcases issuing.counted with ⟨erases, inv⟩
  exact inv.session_unique (inv.issued id x first) (inv.issued id y second)

theorem id_unique (issuing : Issuing s) {id other : Id} {x : σ}
    (first : (id, x) ∈ s.assigned) (second : (other, x) ∈ s.assigned) : id = other := by
  rcases issuing.counted with ⟨erases, inv⟩
  exact inv.id_unique (inv.issued id x first) (inv.issued other x second)

theorem registered (issuing : Issuing s) {id : Id} {x : σ}
    (present : s.sessions.lookup id = some x) : (id, x) ∈ s.assigned := by
  rcases issuing.counted with ⟨erases, inv⟩
  exact (inv.registered id x present).1

theorem destroyed (issuing : Issuing s) : Issuing { s with sessions := ∅ } := by
  rcases issuing.counted with ⟨erases, inv⟩
  refine ⟨⟨s.inserts, { inv with registered := ?_, size := ?_ }⟩, issuing.own, issuing.handler⟩
  · intro id x present
    cases present
  · exact Nat.zero_add _

variable [DecidableEq τ] [DecidableEq σ] {clockTime : Int}
  {a : Action (τ ⊕ σ) σ δ}

theorem insert (issuing : Issuing s) {x : σ}
    (taken : SessionManager.step clockTime s (.insert (.inr x)) = some s') :
    ∃ id, s'.assigned = s.assigned ++ [(id, x)] ∧ s'.ownId = Function.update s.ownId x id ∧
      (∀ y, (id, y) ∉ s.assigned) ∧ ∀ other, (other, x) ∉ s.assigned := by
  rcases issuing.counted with ⟨erases, inv⟩
  simp only [SessionManager.step] at taken
  split at taken <;> cases taken
  rename_i id y pc
  have mine := issuing.handler x id y pc
  subst mine
  rcases inv.inserting (.inr y) id y pc with ⟨issued, fresh⟩
  have fresh : (id, y) ∉ s.assigned := fresh
  refine ⟨id, rfl, rfl, ?_, ?_⟩
  · intro z old
    have same := inv.session_unique issued (inv.issued id z old)
    exact fresh (same ▸ old)
  · intro other old
    have same := inv.id_unique issued (inv.issued other y old)
    exact fresh (same ▸ old)

theorem step (issuing : Issuing s) (once : AddedOnce s a)
    (added : ∀ t x, a = .addSession t x → t = .inr x)
    (inserted : ∀ t, a = .insert t → ∃ x, t = .inr x)
    (taken : SessionManager.step clockTime s a = some s') : Issuing s' := by
  rcases issuing.counted with ⟨erases, inv⟩
  rcases step_erases taken erases with ⟨erases', taken'⟩
  have once' : AddedOnce { s with erases := erases } a := by
    cases a <;> exact once
  refine ⟨⟨erases', inv.step once' taken'⟩, ?_, ?_⟩
  · by_cases inserts : ∃ t, a = .insert t
    · rcases inserts with ⟨t, rfl⟩
      rcases inserted t rfl with ⟨x, rfl⟩
      rcases issuing.insert taken with ⟨id, assigned, ownId, -, fresh⟩
      rw [assigned, ownId]
      intro other y member
      rcases List.mem_append.mp member with old | new
      · have different : y ≠ x := by
          rintro rfl
          exact fresh other old
        rw [Function.update_of_ne different]
        exact issuing.own other y old
      · cases List.mem_singleton.mp new
        exact Function.update_self ..
    · have same := assigned_eq (fun t insert => inserts ⟨t, insert⟩) taken
      rw [same.1, same.2]
      exact issuing.own
  · intro x id y inserting
    rcases inserting_of_step taken inserting with before | now
    · exact issuing.handler x id y before
    · have mine := added _ y now
      exact (Sum.inr.inj mine).symm

end Issuing

end SessionManager

namespace Server

open SessionManager (Id Issuing)

variable {τ σ δ : Type*}

def Action.arrives [DecidableEq σ] (x : σ) : Action τ σ δ → Option δ
  | .arrive y data => if y = x then some data else none
  | _ => none

def arrivals [DecidableEq σ] (x : σ) (as : List (Action τ σ δ)) : List δ :=
  as.filterMap (Action.arrives x)

def messagesOf (id : Id) (messages : List (Message δ)) : List δ :=
  (messages.filter fun m => m.sessionId = id).map Message.data

def Read.Owes (peer : Endpoint) (rest : List δ) : Read δ → Prop
  | .idle => rest.length ≤ 1
  | .reading | .failed | .finishing => rest = []
  | .queued data | .address data => rest = [data]
  | .port data ip => rest = [data] ∧ ip = peer.address
  | .push data ip number => rest = [data] ∧ ip = peer.address ∧ number = peer.port

inductive Progress (s : State τ σ δ) (x : σ) (arrived : List δ) : Prop
  | unstarted (early : (s.accepts x = .starting ∧ ∃ id, (id, x) ∈ s.manager.assigned) ∨
      (s.accepts x = .idle ∨ s.accepts x = .adding) ∧ ∀ id, (id, x) ∉ s.manager.assigned)
      (idle : s.reads x = .idle) (nothing : arrived = [])
      (silent : ∀ id, (id, x) ∈ s.manager.assigned → messagesOf id s.messages = [])
  | started (id : Id) (assigned : (id, x) ∈ s.manager.assigned)
      (later : s.accepts x = .again ∨ s.accepts x = .idle) (rest : List δ)
      (split : arrived = messagesOf id s.messages ++ rest)
      (owes : (s.reads x).Owes (s.peers x) rest)

structure Tracks [DecidableEq σ] (as : List (Action τ σ δ)) (s : State τ σ δ) : Prop where
  issuing : Issuing s.manager
  attributed : ∀ m ∈ s.messages, ∃ x, (m.sessionId, x) ∈ s.manager.assigned ∧
    m.ip = (s.peers x).address ∧ m.port = (s.peers x).port
  progress : ∀ x, Progress s x (arrivals x as)

theorem messagesOf_sublist (id : Id) {front messages : List (Message δ)}
    (part : front.Sublist messages) :
    (messagesOf id front).Sublist (messagesOf id messages) :=
  (part.filter _).map _

theorem messagesOf_append (id : Id) (front back : List (Message δ)) :
    messagesOf id (front ++ back) = messagesOf id front ++ messagesOf id back := by
  simp only [messagesOf, List.filter_append, List.map_append]

theorem messagesOf_eq_nil {id : Id} {messages : List (Message δ)}
    (other : ∀ m ∈ messages, m.sessionId ≠ id) : messagesOf id messages = [] := by
  rw [messagesOf, List.filter_eq_nil_iff.mpr, List.map_nil]
  intro m member
  simpa using other m member

theorem Read.Owes.length_le {peer : Endpoint} {rest : List δ} {pc : Read δ}
    (owes : pc.Owes peer rest) : rest.length ≤ 1 := by
  cases pc with
  | idle => exact owes
  | reading | failed | finishing =>
      have none : rest = [] := owes
      simp [none]
  | queued data | address data =>
      have one : rest = [data] := owes
      simp [one]
  | port data ip | push data ip number => simp [owes.1]

namespace Progress

variable {s s' : State τ σ δ} {x : σ} {arrived : List δ}

theorem frame (progress : Progress s x arrived) (accepts : s'.accepts x = s.accepts x)
    (reads : s'.reads x = s.reads x) (peers : s'.peers x = s.peers x)
    (assigned : ∀ id, (id, x) ∈ s'.manager.assigned ↔ (id, x) ∈ s.manager.assigned)
    (messages : ∀ id, (id, x) ∈ s.manager.assigned →
      messagesOf id s'.messages = messagesOf id s.messages) : Progress s' x arrived := by
  cases progress with
  | unstarted early idle nothing silent =>
      refine .unstarted ?_ (reads.trans idle) nothing ?_
      · simpa only [accepts, assigned] using early
      · intro id given
        rw [messages id ((assigned id).mp given)]
        exact silent id ((assigned id).mp given)
  | started id given later rest split owes =>
      refine .started id ((assigned id).mpr given) (by rwa [accepts]) rest ?_ ?_
      · rw [messages id given]
        exact split
      · rwa [reads, peers]

theorem setRead [DecidableEq σ] (progress : Progress s x arrived) {pc : Read δ} {came : List δ}
    (busy : s.reads x ≠ .idle)
    (owes : ∀ rest, (s.reads x).Owes (s.peers x) rest → pc.Owes (s.peers x) (rest ++ came)) :
    Progress (s.setRead x pc) x (arrived ++ came) := by
  cases progress with
  | unstarted early idle => exact absurd idle busy
  | started id given later rest split owed =>
      refine .started id given later (rest ++ came) ?_ ?_
      · rw [split, List.append_assoc]
        rfl
      · simpa only [State.setRead, Function.update_self] using owes rest owed

end Progress

variable [DecidableEq σ] {cfg : Config} {s s' : State τ σ δ} {as : List (Action τ σ δ)}
  {a : Action τ σ δ}

theorem arrivals_append (x : σ) (as : List (Action τ σ δ)) (a : Action τ σ δ) :
    arrivals x (as ++ [a]) = arrivals x as ++ (a.arrives x).toList := by
  rw [arrivals, List.filterMap_append, arrivals]
  cases came : a.arrives x <;> simp [came]

namespace Tracks

theorem start (cfg : Config) (ownId : σ → Id) (created : σ → Int) :
    Tracks [] (Server.start cfg τ δ ownId created) := by
  refine ⟨.start ownId created, ?_, ?_⟩
  · intro m member
    cases member
  · intro x
    refine .unstarted (.inr ⟨.inl rfl, ?_⟩) rfl rfl fun _ _ => rfl
    intro id given
    cases given

theorem quiet (tracks : Tracks as s) (silent : ∀ x, a.arrives x = none) :
    Tracks (as ++ [a]) s := by
  refine ⟨tracks.issuing, tracks.attributed, ?_⟩
  intro x
  rw [arrivals_append, silent, Option.toList_none, List.append_nil]
  exact tracks.progress x

theorem congr (tracks : Tracks as s) (manager : s'.manager = s.manager)
    (messages : s'.messages = s.messages) (peers : s'.peers = s.peers)
    (accepts : s'.accepts = s.accepts) (reads : s'.reads = s.reads) : Tracks as s' := by
  refine ⟨manager ▸ tracks.issuing, ?_, ?_⟩
  · rw [messages, manager, peers]
    exact tracks.attributed
  · intro x
    apply (tracks.progress x).frame
    · rw [accepts]
    · rw [reads]
    · rw [peers]
    · simp [manager]
    · simp [messages]

theorem registry [DecidableEq τ] {manager : SessionManager.State (τ ⊕ σ) σ δ}
    {b : SessionManager.Action (τ ⊕ σ) σ δ} (tracks : Tracks as s)
    (adds : ∀ t x, b ≠ .addSession t x) (inserts : ∀ t, b ≠ .insert t)
    (moved : SessionManager.step clockTime s.manager b = some manager) :
    Tracks as { s with manager := manager } := by
  have assigned := (SessionManager.assigned_eq inserts moved).1
  have once : SessionManager.AddedOnce s.manager b := by
    cases b with
    | addSession t x => exact absurd rfl (adds t x)
    | _ => trivial
  refine ⟨tracks.issuing.step once (fun t x same => absurd same (adds t x))
    (fun t same => absurd same (inserts t)) moved, ?_, ?_⟩
  · simp only [assigned]
    exact tracks.attributed
  · intro x
    exact (tracks.progress x).frame rfl rfl rfl (by simp [assigned]) fun _ _ => rfl

theorem read (tracks : Tracks as s) {x : σ} {pc : Read δ} (busy : s.reads x ≠ .idle)
    (others : ∀ y, y ≠ x → a.arrives y = none)
    (owes : ∀ rest, (s.reads x).Owes (s.peers x) rest →
      pc.Owes (s.peers x) (rest ++ (a.arrives x).toList)) :
    Tracks (as ++ [a]) (s.setRead x pc) := by
  refine ⟨tracks.issuing, tracks.attributed, ?_⟩
  intro y
  rw [arrivals_append]
  by_cases same : y = x
  · subst same
    exact (tracks.progress y).setRead busy owes
  · rw [others y same, Option.toList_none, List.append_nil]
    have unread : (s.setRead x pc).reads y = s.reads y := by
      simp only [State.setRead, Function.update_of_ne same]
    exact (tracks.progress y).frame rfl unread rfl (fun _ => Iff.rfl) fun _ _ => rfl

theorem readOn (tracks : Tracks as s) {x : σ} {pc : Read δ} (busy : s.reads x ≠ .idle)
    (silent : ∀ y, a.arrives y = none)
    (owes : ∀ rest, (s.reads x).Owes (s.peers x) rest → pc.Owes (s.peers x) rest) :
    Tracks (as ++ [a]) (s.setRead x pc) := by
  apply tracks.read busy fun y _ => silent y
  intro rest owed
  rw [silent, Option.toList_none, List.append_nil]
  exact owes rest owed

theorem clear (tracks : Tracks as s) : Tracks as { s with reads := fun _ => .idle } := by
  refine ⟨tracks.issuing, tracks.attributed, ?_⟩
  intro x
  cases tracks.progress x with
  | unstarted early idle nothing silent => exact .unstarted early rfl nothing silent
  | started id given later rest split owes =>
      exact .started id given later rest split owes.length_le

theorem destroySessions (tracks : Tracks as s) :
    Tracks as { s with manager := { s.manager with sessions := ∅ } } := by
  refine ⟨tracks.issuing.destroyed, tracks.attributed, ?_⟩
  intro x
  exact (tracks.progress x).frame rfl rfl rfl (fun _ => Iff.rfl) fun _ _ => rfl

theorem accept [DecidableEq τ] (tracks : Tracks as s) {x : σ} {peer : Endpoint}
    {manager : SessionManager.State (τ ⊕ σ) σ δ} (fresh : x ∉ s.manager.added)
    (few : s.manager.added.length < 2 ^ 32)
    (moved : SessionManager.step clockTime s.manager (.addSession (.inr x) x) = some manager) :
    Tracks as { s.setAccept x .adding with
      peers := Function.update s.peers x peer, manager := manager } := by
  have assigned := (SessionManager.assigned_eq (by simp) moved).1
  have unassigned (id : Id) : (id, x) ∉ s.manager.assigned :=
    fun given => fresh (tracks.issuing.added given)
  have other {id : Id} {y : σ} (given : (id, y) ∈ s.manager.assigned) : y ≠ x := by
    rintro rfl
    exact unassigned id given
  have once : SessionManager.AddedOnce s.manager (.addSession (.inr x) x) := ⟨fresh, few⟩
  refine ⟨tracks.issuing.step once ?_ (by simp) moved, ?_, ?_⟩
  · intro t y same
    cases same
    rfl
  · intro m member
    rcases tracks.attributed m member with ⟨y, given, ip, port⟩
    refine ⟨y, by rwa [assigned], ?_⟩
    simp only [Function.update_of_ne (other given)]
    exact ⟨ip, port⟩
  · intro y
    by_cases same : y = x
    · subst same
      cases tracks.progress y with
      | unstarted early idle nothing silent =>
          refine .unstarted (.inr ⟨.inr ?_, ?_⟩) idle nothing ?_
          · simp [State.setAccept]
          · simpa only [assigned] using unassigned
          · intro id given
            rw [assigned] at given
            exact absurd given (unassigned id)
      | started id given => exact absurd given (unassigned id)
    · apply (tracks.progress y).frame
      · simp only [State.setAccept, Function.update_of_ne same]
      · rfl
      · simp only [Function.update_of_ne same]
      · simp [assigned]
      · exact fun _ _ => rfl

theorem insert [DecidableEq τ] (tracks : Tracks as s) {x : σ}
    {manager : SessionManager.State (τ ⊕ σ) σ δ} (pc : s.accepts x = .adding)
    (moved : SessionManager.step clockTime s.manager (.insert (.inr x)) = some manager) :
    Tracks as { s.setAccept x .starting with manager := manager } := by
  rcases tracks.issuing.insert moved with ⟨id, assigned, -, fresh, -⟩
  have once : SessionManager.AddedOnce s.manager (.insert (.inr x)) := trivial
  refine ⟨tracks.issuing.step once (by simp) ?_ moved, ?_, ?_⟩
  · intro t same
    cases same
    exact ⟨x, rfl⟩
  · intro m member
    rcases tracks.attributed m member with ⟨y, given, from_peer⟩
    refine ⟨y, ?_, from_peer⟩
    simp only [assigned]
    exact List.mem_append_left _ given
  · intro y
    by_cases same : y = x
    · subst same
      cases tracks.progress y with
      | unstarted early idle nothing silent =>
          refine .unstarted (.inl ⟨?_, id, ?_⟩) idle nothing ?_
          · simp [State.setAccept]
          · simp [assigned]
          · intro other given
            simp only [assigned] at given
            rcases List.mem_append.mp given with old | new
            · exact silent other old
            · cases List.mem_singleton.mp new
              apply messagesOf_eq_nil
              rintro m member rfl
              rcases tracks.attributed m member with ⟨z, given, -⟩
              exact fresh z given
      | started other given later =>
          rw [pc] at later
          rcases later with later | later <;> cases later
    · apply (tracks.progress y).frame
      · simp only [State.setAccept, Function.update_of_ne same]
      · rfl
      · rfl
      · simp [assigned, same]
      · exact fun _ _ => rfl

theorem startSession (tracks : Tracks as s) {x : σ} (pc : s.accepts x = .starting) :
    Tracks as ((s.setAccept x .again).setRead x .reading) := by
  refine ⟨tracks.issuing, tracks.attributed, ?_⟩
  intro y
  by_cases same : y = x
  · subst same
    cases tracks.progress y with
    | unstarted early idle nothing silent =>
        rcases early with ⟨-, id, given⟩ | ⟨other | other, -⟩
        · refine .started id given (.inl ?_) [] ?_ ?_
          · simp [State.setAccept, State.setRead]
          · rw [nothing, List.append_nil]
            exact (silent id given).symm
          · simp [State.setRead, Read.Owes]
        · rw [pc] at other
          cases other
        · rw [pc] at other
          cases other
    | started other given later =>
        rw [pc] at later
        rcases later with later | later <;> cases later
  · apply (tracks.progress y).frame
    · simp only [State.setAccept, State.setRead, Function.update_of_ne same]
    · simp only [State.setRead, State.setAccept, Function.update_of_ne same]
    · rfl
    · exact fun _ => Iff.rfl
    · exact fun _ _ => rfl

theorem acceptAgain (tracks : Tracks as s) {x : σ} (pc : s.accepts x = .again) :
    Tracks as (s.setAccept x .idle) := by
  refine ⟨tracks.issuing, tracks.attributed, ?_⟩
  intro y
  by_cases same : y = x
  · subst same
    cases tracks.progress y with
    | unstarted early idle nothing silent =>
        rw [pc] at early
        rcases early with ⟨other, -⟩ | ⟨other | other, -⟩ <;> cases other
    | started id given later rest split owes =>
        exact .started id given (.inr (by simp [State.setAccept])) rest split owes
  · apply (tracks.progress y).frame
    · simp only [State.setAccept, Function.update_of_ne same]
    · rfl
    · rfl
    · exact fun _ => Iff.rfl
    · exact fun _ _ => rfl

/-- All the frames of a session but at most one have been handed over. -/
theorem split (tracks : Tracks as s) {id : Id} {x : σ} (given : (id, x) ∈ s.manager.assigned) :
    ∃ rest, arrivals x as = messagesOf id s.messages ++ rest ∧
      (s.reads x).Owes (s.peers x) rest := by
  cases tracks.progress x with
  | unstarted early idle nothing silent =>
      refine ⟨[], ?_, ?_⟩
      · rw [nothing, silent id given]
        rfl
      · rw [idle]
        exact Nat.zero_le 1
  | started other assigned later rest split owes =>
      have same := tracks.issuing.id_unique assigned given
      subst same
      exact ⟨rest, split, owes⟩

theorem push (tracks : Tracks as s) {x : σ} {now : Int} {data : δ} {ip : String} {port : Nat}
    (pc : s.reads x = .push data ip port) (silent : ∀ y, a.arrives y = none) :
    Tracks (as ++ [a]) { s.setRead x .finishing with
      messages := s.messages ++
        [{ time := now, sessionId := s.manager.ownId x, port, ip, data }] } := by
  have silent (y : σ) : arrivals y (as ++ [a]) = arrivals y as := by
    rw [arrivals_append, silent, Option.toList_none, List.append_nil]
  cases tracks.progress x with
  | unstarted early idle =>
      rw [pc] at idle
      cases idle
  | started id given later rest split owes =>
      rw [pc] at owes
      rcases owes with ⟨one, ip_eq, port_eq⟩
      have own := tracks.issuing.own id x given
      refine ⟨tracks.issuing, ?_, ?_⟩
      · intro m member
        rcases List.mem_append.mp member with old | new
        · exact tracks.attributed m old
        · cases List.mem_singleton.mp new
          exact ⟨x, own.symm ▸ given, ip_eq, port_eq⟩
      · intro y
        rw [silent]
        by_cases same : y = x
        · subst same
          refine .started id given later [] ?_ ?_
          · rw [split, one, messagesOf_append, List.append_nil]
            simp [messagesOf, own]
          · simp [State.setRead, Read.Owes]
        · apply (tracks.progress y).frame
          · rfl
          · simp only [State.setRead, Function.update_of_ne same]
          · rfl
          · exact fun _ => Iff.rfl
          · intro other given'
            have different : id ≠ other := by
              rintro rfl
              exact same (tracks.issuing.session_unique given' given)
            rw [messagesOf_append]
            simp [messagesOf, own, different]

end Tracks

omit [DecidableEq σ] in
theorem State.touch_eq (s : State τ σ δ) (object : Object σ) :
    ∃ dangling, s.touch object = { s with dangling := dangling } := by
  unfold touch
  split <;> exact ⟨_, rfl⟩

omit [DecidableEq σ] in
theorem remoteEndpoint_eq {x : σ} {peer : Endpoint} (found : s.remoteEndpoint x = some peer) :
    s.peers x = peer := by
  unfold State.remoteEndpoint at found
  split at found
  · exact Option.some.inj found
  · cases found

/-- Every session that is accepted has an id of its own. -/
def Few (s : State τ σ δ) : Action τ σ δ → Prop
  | .accept _ _ => s.manager.added.length < 2 ^ 32
  | _ => True

section Run

variable [DecidableEq τ]

theorem Tracks.control (tracks : Tracks as s) (taken : Takes cfg s .control s') :
    Tracks (as ++ [.control]) s' := by
  have here : Tracks (as ++ [.control]) s := tracks.quiet fun _ => rfl
  cases taken with
  | closeAcceptor destroying pc | destroyAcceptor pc =>
      rcases s.touch_eq .acceptor with ⟨dangling, touched⟩
      rw [touched]
      exact here.congr rfl rfl rfl rfl rfl
  | stopContexts destroying pc | join destroying pc | destroyPool pc =>
      exact here.congr rfl rfl rfl rfl rfl
  | clear destroying pc => exact here.clear.congr rfl rfl rfl rfl rfl
  | destroySessions pc =>
      rw [State.closeAll_eq]
      exact here.destroySessions.congr rfl rfl rfl rfl rfl
  | call a b manager on => cases on

theorem Tracks.step (tracks : Tracks as s) (few : Few s a)
    (taken : Server.step cfg s a = some s') : Tracks (as ++ [a]) s' := by
  cases (step_takes taken).2 with
  | construct context pool => exact (tracks.quiet fun _ => rfl).congr rfl rfl rfl rfl rfl
  | start pool pending => exact (tracks.quiet fun _ => rfl).congr rfl rfl rfl rfl rfl
  | stop pc | destroy pc => exact (tracks.quiet fun _ => rfl).congr rfl rfl rfl rfl rfl
  | accept x peer context pending manager filled running fresh added =>
      exact ((tracks.quiet fun _ => rfl).accept fresh few added).congr rfl rfl rfl rfl rfl
  | acceptFailed pool pending =>
      exact (tracks.quiet fun _ => rfl).congr rfl rfl rfl rfl rfl
  | insert x manager pc inserted => exact (tracks.quiet fun _ => rfl).insert pc inserted
  | startSession x pc => exact (tracks.quiet fun _ => rfl).startSession pc
  | acceptAgain x pool pending pc =>
      exact ((tracks.quiet fun _ => rfl).acceptAgain pc).congr rfl rfl rfl rfl rfl
  | call a b manager on callable moved =>
      have silent : ∀ x, a.arrives x = none := by
        intro x
        cases a <;> first | rfl | cases on
      have adds : ∀ t x, b ≠ .addSession t x := by
        rintro t x rfl
        cases a <;> cases on
      have inserts : ∀ t, b ≠ .insert t := by
        rintro t rfl
        cases a <;> cases on
      rw [State.closeAll_eq]
      exact ((tracks.quiet silent).registry adds inserts moved).congr rfl rfl rfl rfl rfl
  | disconnect x => exact (tracks.quiet fun _ => rfl).congr rfl rfl rfl rfl rfl
  | arrive x data pc isOpen =>
      apply tracks.read (by simp [pc])
      · intro y other
        exact if_neg other.symm
      · intro rest owed
        rw [pc] at owed
        have none : rest = [] := owed
        simp [none, Action.arrives, Read.Owes]
  | fail x pc =>
      apply tracks.readOn (by simp [pc]) fun _ => rfl
      rw [pc]
      exact fun rest owed => owed
  | beginRead x now data pc running =>
      apply tracks.readOn (by simp [pc]) fun _ => rfl
      rw [pc]
      exact fun rest owed => owed
  | closeRead x now pc running =>
      rw [State.close_eq]
      have closed : Tracks as { s with
          sockets := Function.update s.sockets x { s.sockets x with isOpen := false }
          dangling := s.dangling ++ s.lost [x] } := tracks.congr rfl rfl rfl rfl rfl
      apply closed.readOn (by simp [pc]) fun _ => rfl
      intro rest owed
      exact owed.length_le
  | getAddress x now data peer pc found =>
      apply tracks.readOn (by simp [pc]) fun _ => rfl
      rw [pc, remoteEndpoint_eq found]
      exact fun rest owed => ⟨owed, rfl⟩
  | getPort x now data ip peer pc found =>
      apply tracks.readOn (by simp [pc]) fun _ => rfl
      rw [pc, remoteEndpoint_eq found]
      exact fun rest owed => ⟨owed.1, owed.2, rfl⟩
  | throw x now pc missing => exact (tracks.quiet fun _ => rfl).congr rfl rfl rfl rfl rfl
  | push x now data ip port pc => exact tracks.push pc fun _ => rfl
  | finish x now manager pc moved =>
      have finished := tracks.registry (by simp) (by simp) moved
      apply finished.readOn (by simp [pc]) fun _ => rfl
      simp only [pc]
      exact fun rest owed => owed
  | _ => exact tracks.control (step_takes taken).2

end Run

end Server

end CommonUtils.TCP
