import CommonUtils.TCP.SessionManager

/-! `TCPServer` with its pool, its acceptor, its registry and the sockets of its
sessions, one step for each critical section, each step of a handler and each stage of
`Stop` and of the destructor. A context runs its handlers one after another; here any
two may overlap, which only adds runs. -/

namespace CommonUtils.TCP.Server

open SessionManager (Id)

/-- The arguments of the constructor, what `hardware_concurrency` reports, an `unsigned`, and
the value that `nextIOContextIndex_` happens to start with. -/
structure Config where
  maxSessionCount : Int
  ioThreadCount : Nat
  hardwareConcurrency : BitVec 32
  firstIndex : BitVec 64

/-- `Seconds(30)` in ticks of the clock, the default of `SessionManager`. -/
def clockTime : Int := 30000000000

/-- `contexts` are the ones not destroyed; `running` says that threads are in `run`
and take up handlers. -/
structure Pool where
  contexts : List Nat
  nextIOContextIndex : BitVec 64
  running : Bool

/-- `pending` are the contexts of the sockets that outstanding accepts are to fill. -/
structure Acceptor where
  context : Nat
  isStarted : Bool
  pending : List Nat

structure Socket where
  context : Nat
  isOpen : Bool
  connected : Bool

structure Endpoint where
  address : String
  port : Nat

structure Message (δ : Type*) where
  time : Int
  sessionId : Id
  port : Nat
  ip : String
  data : δ

inductive Accept where
  | idle
  | adding
  | starting
  | again
  deriving DecidableEq

/-- Where the read of a session is: outstanding, completed with a full frame or with an
error and queued, or in `AsyncRead`. -/
inductive Read (δ : Type*) where
  | idle
  | reading
  | queued (data : δ)
  | failed
  | address (data : δ)
  | port (data : δ) (ip : String)
  | push (data : δ) (ip : String) (port : Nat)
  | finishing

/-- Where the owner of the server is; the flag tells the `Stop` of the destructor from
another one. -/
inductive Control where
  | unconstructed
  | ready
  | closeAcceptor (destroying : Bool)
  | stopContexts (destroying : Bool)
  | join (destroying : Bool)
  | clear (destroying : Bool)
  | destroySessions
  | destroyAcceptor
  | destroyPool
  | destroyed
  deriving DecidableEq

inductive Object (σ : Type*) where
  | acceptor
  | session (x : σ)
  deriving DecidableEq

/-- `messages` are the ones given to `messageQueuePtr_`, `terminated` says that an
exception has left `run`, and `dangling` lists the objects that were shut down, closed or
destroyed when their context was gone. -/
structure State (τ σ δ : Type*) where
  control : Control
  pool : Pool
  acceptor : Acceptor
  manager : SessionManager.State (τ ⊕ σ) σ δ
  sockets : σ → Socket
  peers : σ → Endpoint
  accepts : σ → Accept
  reads : σ → Read δ
  messages : List (Message δ)
  terminated : Bool
  dangling : List (Object σ)

inductive Action (τ σ δ : Type*) where
  | construct
  | start
  | stop
  | destroy
  | control
  | accept (x : σ) (peer : Endpoint)
  | acceptFailed
  | handleNewSession (x : σ)
  | closeSession (id : Id)
  | scan (t : τ) (now : Int)
  | removeNext (t : τ)
  | disconnect (x : σ)
  | arrive (x : σ) (data : δ)
  | fail (x : σ)
  | asyncRead (x : σ) (now : Int)

def single : Config where
  maxSessionCount := 1
  ioThreadCount := 1
  hardwareConcurrency := 1
  firstIndex := 0

def client : Endpoint := { address := "127.0.0.1", port := 40000 }

variable {τ σ δ : Type*}

def Config.poolSize (cfg : Config) : Nat :=
  if cfg.ioThreadCount = 0 then ((cfg.hardwareConcurrency + 1) / 2).toNat else cfg.ioThreadCount

/-- An index modulo the size of an empty pool has no outcome. -/
def Pool.getIOContext (pool : Pool) : Option (Nat × Pool) :=
  pool.contexts[pool.nextIOContextIndex.toNat % pool.contexts.length]?.map fun context =>
    (context, { pool with nextIOContextIndex := pool.nextIOContextIndex + 1 })

theorem Pool.getIOContext_cases {pool pool' : Pool} {context : Nat}
    (taken : pool.getIOContext = some (context, pool')) :
    context ∈ pool.contexts ∧ pool'.contexts = pool.contexts ∧ pool'.running = pool.running := by
  rcases Option.map_eq_some_iff.mp taken with ⟨found, present, same⟩
  cases same
  exact ⟨List.mem_of_getElem? present, rfl, rfl⟩

def Control.callable : Control → Bool
  | .ready | .closeAcceptor false | .stopContexts false | .join false | .clear false => true
  | _ => false

def Read.handling : Read δ → Bool
  | .address _ | .port _ _ | .push _ _ _ | .finishing => true
  | .idle | .reading | .queued _ | .failed => false

def start (cfg : Config) (τ δ : Type*) (ownId : σ → Id) (created : σ → Int) : State τ σ δ where
  control := .unconstructed
  pool := { contexts := [], nextIOContextIndex := cfg.firstIndex, running := false }
  acceptor := { context := 0, isStarted := false, pending := [] }
  manager := SessionManager.start (τ ⊕ σ) δ ownId created
  sockets := fun _ => { context := 0, isOpen := false, connected := false }
  peers := fun _ => { address := "", port := 0 }
  accepts := fun _ => .idle
  reads := fun _ => .idle
  messages := []
  terminated := false
  dangling := []

namespace State

variable (s : State τ σ δ)

def contextOf : Object σ → Nat
  | .acceptor => s.acceptor.context
  | .session x => (s.sockets x).context

def touch (object : Object σ) : State τ σ δ :=
  if s.contextOf object ∈ s.pool.contexts then s
  else { s with dangling := s.dangling ++ [object] }

/-- `remote_endpoint()`, which throws on a socket that is closed or not connected. -/
def remoteEndpoint (x : σ) : Option Endpoint :=
  if (s.sockets x).isOpen ∧ (s.sockets x).connected then some (s.peers x) else none

def registered : List σ := s.manager.sessions.entries.map Sigma.snd

def closing : SessionManager.Action (τ ⊕ σ) σ δ → Option σ
  | .removeSession id => s.manager.sessions.lookup id
  | .removeNext t =>
      match s.manager.threads t with
      | .cleaning ((id, _) :: _) => s.manager.sessions.lookup id
      | _ => none
  | _ => none

def construct (cfg : Config) : Option (State τ σ δ) :=
  { s.pool with contexts := List.range cfg.poolSize }.getIOContext.map fun (context, pool) =>
    { s with
      pool := pool
      acceptor := { s.acceptor with context := context }
      control := .ready }

def doAccept : Option (State τ σ δ) :=
  if s.acceptor.isStarted then
    s.pool.getIOContext.map fun (context, pool) =>
      { s with
        pool := pool
        acceptor := { s.acceptor with pending := s.acceptor.pending ++ [context] } }
  else some s

def startServer : Option (State τ σ δ) :=
  { s with
    pool := { s.pool with running := !s.pool.contexts.isEmpty }
    acceptor := { s.acceptor with isStarted := true } }.doAccept

theorem touch_control (object : Object σ) : (s.touch object).control = s.control := by
  unfold touch
  split <;> rfl

variable [DecidableEq σ]

def close (x : σ) : State τ σ δ :=
  { s.touch (.session x) with
    sockets := Function.update s.sockets x { s.sockets x with isOpen := false } }

def closeAll (xs : List σ) : State τ σ δ := xs.foldl (fun s x => s.close x) s

def setAccept (x : σ) (pc : Accept) : State τ σ δ :=
  { s with accepts := Function.update s.accepts x pc }

def setRead (x : σ) (pc : Read δ) : State τ σ δ :=
  { s with reads := Function.update s.reads x pc }

/-- The next stage of `Stop` or of the destructor. The members are destroyed in the
reverse order of their declaration, after the `Stop` in the destructor's body. A session
that only its read holds goes with its context. -/
def controlStep : Option (State τ σ δ) :=
  match s.control with
  | .closeAcceptor destroying =>
      some { s.touch .acceptor with
        acceptor := { s.acceptor with isStarted := false }
        control := .stopContexts destroying }
  | .stopContexts destroying =>
      some { s with pool := { s.pool with running := false }, control := .join destroying }
  | .join destroying =>
      if ∀ x ∈ s.manager.added, s.accepts x = .idle ∧ (s.reads x).handling = false then
        some { s with control := .clear destroying }
      else none
  | .clear destroying =>
      some { s with
        pool := { s.pool with contexts := [] }
        acceptor := { s.acceptor with pending := [] }
        reads := fun _ => .idle
        control := if destroying then .destroySessions else .ready }
  | .destroySessions =>
      some { s.closeAll s.registered with
        manager := { s.manager with sessions := ∅ }
        control := .destroyAcceptor }
  | .destroyAcceptor => some { s.touch .acceptor with control := .destroyPool }
  | .destroyPool => some { s with pool := { s.pool with contexts := [] }, control := .destroyed }
  | .unconstructed | .ready | .destroyed => none

/-- The handler of `async_accept` makes the session and begins `AddSession`. -/
def accept [DecidableEq τ] (x : σ) (peer : Endpoint) : Option (State τ σ δ) :=
  match s.acceptor.pending with
  | [] => none
  | context :: pending =>
      if s.pool.running = true ∧ x ∉ s.manager.added then
        (SessionManager.step clockTime s.manager (.addSession (.inr x) x)).map fun manager =>
          { s.setAccept x .adding with
            acceptor := { s.acceptor with pending := pending }
            sockets := Function.update s.sockets x { context, isOpen := true, connected := true }
            peers := Function.update s.peers x peer
            manager := manager }
      else none

def acceptFailed : Option (State τ σ δ) :=
  match s.acceptor.pending with
  | [] => none
  | _ :: pending =>
      if s.pool.running = true then
        { s with acceptor := { s.acceptor with pending := pending } }.doAccept
      else none

def handleNewSession [DecidableEq τ] (x : σ) : Option (State τ σ δ) :=
  match s.accepts x with
  | .idle => none
  | .adding =>
      (SessionManager.step clockTime s.manager (.insert (.inr x))).map fun manager =>
        { s.setAccept x .starting with manager := manager }
  | .starting => some ((s.setAccept x .again).setRead x .reading)
  | .again => (s.setAccept x .idle).doAccept

def asyncRead [DecidableEq τ] (x : σ) (now : Int) : Option (State τ σ δ) :=
  match s.reads x with
  | .idle | .reading => none
  | .queued data => if s.pool.running = true then some (s.setRead x (.address data)) else none
  | .failed => if s.pool.running = true then some ((s.close x).setRead x .idle) else none
  | .address data =>
      match s.remoteEndpoint x with
      | some peer => some (s.setRead x (.port data peer.address))
      | none => some { s with terminated := true }
  | .port data ip =>
      match s.remoteEndpoint x with
      | some peer => some (s.setRead x (.push data ip peer.port))
      | none => some { s with terminated := true }
  | .push data ip port =>
      some { s.setRead x .finishing with
        messages := s.messages ++
          [{ time := now, sessionId := s.manager.ownId x, port, ip, data }] }
  | .finishing =>
      (SessionManager.step clockTime s.manager (.active x now)).map fun manager =>
        { s.setRead x .reading with manager := manager }

def call [DecidableEq τ] (a : SessionManager.Action (τ ⊕ σ) σ δ) : Option (State τ σ δ) :=
  if s.control.callable then
    (SessionManager.step clockTime s.manager a).map fun manager =>
      { s.closeAll (s.closing a).toList with manager := manager }
  else none

/-- The operations on sockets whose contexts are gone. -/
def lost (xs : List σ) : List (Object σ) :=
  (xs.filter fun x => (s.sockets x).context ∉ s.pool.contexts).map .session

theorem close_eq (x : σ) :
    s.close x = { s with
      sockets := Function.update s.sockets x { s.sockets x with isOpen := false }
      dangling := s.dangling ++ s.lost [x] } := by
  by_cases alive : (s.sockets x).context ∈ s.pool.contexts
  · simp [close, touch, contextOf, lost, alive]
  · simp [close, touch, contextOf, lost, alive]

theorem close_context (x y : σ) :
    ((s.close x).sockets y).context = (s.sockets y).context := by
  rw [close_eq]
  by_cases same : y = x
  · simp [same]
  · simp [same]

theorem close_lost (x : σ) (xs : List σ) : (s.close x).lost xs = s.lost xs := by
  simp only [lost, close_context]
  rw [close_eq]

theorem closeAll_eq (xs : List σ) :
    s.closeAll xs = { s with
      sockets := fun y => if y ∈ xs then { s.sockets y with isOpen := false } else s.sockets y
      dangling := s.dangling ++ s.lost xs } := by
  induction xs generalizing s with
  | nil => simp [closeAll, lost]
  | cons x xs ih =>
      have rest := ih (s.close x)
      simp only [closeAll] at rest
      rw [closeAll, List.foldl_cons, rest, close_lost, close_eq]
      simp only [mk.injEq, true_and]
      constructor
      · funext y
        by_cases same : y = x
        · subst same
          simp
        · simp [same]
      · simp only [lost, List.filter_cons, List.filter_nil]
        split <;> simp

omit [DecidableEq σ] in
theorem doAccept_cases {s s' : State τ σ δ} (taken : s.doAccept = some s') :
    ∃ pool pending, s' = { s with pool, acceptor := { s.acceptor with pending } } ∧
      pool.contexts = s.pool.contexts ∧ pool.running = s.pool.running ∧
      ∀ context ∈ pending, context ∈ s.acceptor.pending ∨ context ∈ s.pool.contexts := by
  unfold doAccept at taken
  split at taken
  · rcases Option.map_eq_some_iff.mp taken with ⟨⟨context, pool⟩, found, rfl⟩
    rcases Pool.getIOContext_cases found with ⟨alive, contexts, running⟩
    refine ⟨pool, _, rfl, contexts, running, ?_⟩
    intro other member
    rcases List.mem_append.mp member with old | new
    · exact .inl old
    · rw [List.mem_singleton.mp new]
      exact .inr alive
  · cases taken
    exact ⟨s.pool, s.acceptor.pending, rfl, rfl, rfl, fun _ => .inl⟩

end State

variable [DecidableEq τ] [DecidableEq σ]

def step (cfg : Config) (s : State τ σ δ) (a : Action τ σ δ) : Option (State τ σ δ) :=
  if s.terminated then none else
  match a with
  | .construct => if s.control = .unconstructed then s.construct cfg else none
  | .start => if s.control = .ready then s.startServer else none
  | .stop => if s.control = .ready then some { s with control := .closeAcceptor false } else none
  | .destroy => if s.control = .ready then some { s with control := .closeAcceptor true } else none
  | .control => s.controlStep
  | .accept x peer => s.accept x peer
  | .acceptFailed => s.acceptFailed
  | .handleNewSession x => s.handleNewSession x
  | .closeSession id => s.call (.removeSession id)
  | .scan t now => s.call (.scan (.inl t) now)
  | .removeNext t => s.call (.removeNext (.inl t))
  | .disconnect x =>
      some { s with
        sockets := Function.update s.sockets x { s.sockets x with connected := false } }
  | .arrive x data =>
      match s.reads x with
      | .reading => if (s.sockets x).isOpen then some (s.setRead x (.queued data)) else none
      | _ => none
  | .fail x =>
      match s.reads x with
      | .reading => some (s.setRead x .failed)
      | _ => none
  | .asyncRead x now => s.asyncRead x now

def machine (cfg : Config) (τ δ : Type*) [DecidableEq τ] (ownId : σ → Id) (created : σ → Int) :
    Machine (State τ σ δ) (Action τ σ δ) where
  start := start cfg τ δ ownId created
  step := step cfg

def Action.onRegistry : Action τ σ δ → Option (SessionManager.Action (τ ⊕ σ) σ δ)
  | .closeSession id => some (.removeSession id)
  | .scan t now => some (.scan (.inl t) now)
  | .removeNext t => some (.removeNext (.inl t))
  | _ => none

inductive Takes (cfg : Config) (s : State τ σ δ) : Action τ σ δ → State τ σ δ → Prop
  | construct (context : Nat) (pool : Pool) (pc : s.control = .unconstructed)
      (inside : context < cfg.poolSize) (contexts : pool.contexts = List.range cfg.poolSize)
      (running : pool.running = s.pool.running) :
      Takes cfg s .construct
        { s with pool, acceptor := { s.acceptor with context }, control := .ready }
  | start (pool : Pool) (pending : List Nat) (pc : s.control = .ready)
      (alive : s.pool.contexts ≠ []) (contexts : pool.contexts = s.pool.contexts)
      (running : pool.running = true)
      (fed : ∀ context ∈ pending, context ∈ s.acceptor.pending ∨ context ∈ s.pool.contexts) :
      Takes cfg s .start { s with pool, acceptor := { s.acceptor with isStarted := true, pending } }
  | stop (pc : s.control = .ready) : Takes cfg s .stop { s with control := .closeAcceptor false }
  | destroy (pc : s.control = .ready) :
      Takes cfg s .destroy { s with control := .closeAcceptor true }
  | closeAcceptor (destroying : Bool) (pc : s.control = .closeAcceptor destroying) :
      Takes cfg s .control { s.touch .acceptor with
        acceptor := { s.acceptor with isStarted := false }
        control := .stopContexts destroying }
  | stopContexts (destroying : Bool) (pc : s.control = .stopContexts destroying) :
      Takes cfg s .control
        { s with pool := { s.pool with running := false }, control := .join destroying }
  | join (destroying : Bool) (pc : s.control = .join destroying)
      (out : ∀ x ∈ s.manager.added, s.accepts x = .idle ∧ (s.reads x).handling = false) :
      Takes cfg s .control { s with control := .clear destroying }
  | clear (destroying : Bool) (pc : s.control = .clear destroying) :
      Takes cfg s .control { s with
        pool := { s.pool with contexts := [] }
        acceptor := { s.acceptor with pending := [] }
        reads := fun _ => .idle
        control := if destroying then .destroySessions else .ready }
  | destroySessions (pc : s.control = .destroySessions) :
      Takes cfg s .control { s.closeAll s.registered with
        manager := { s.manager with sessions := ∅ }
        control := .destroyAcceptor }
  | destroyAcceptor (pc : s.control = .destroyAcceptor) :
      Takes cfg s .control { s.touch .acceptor with control := .destroyPool }
  | destroyPool (pc : s.control = .destroyPool) :
      Takes cfg s .control
        { s with pool := { s.pool with contexts := [] }, control := .destroyed }
  | accept (x : σ) (peer : Endpoint) (context : Nat) (pending : List Nat)
      (manager : SessionManager.State (τ ⊕ σ) σ δ)
      (filled : s.acceptor.pending = context :: pending)
      (running : s.pool.running = true) (fresh : x ∉ s.manager.added)
      (added : SessionManager.step clockTime s.manager (.addSession (.inr x) x) = some manager) :
      Takes cfg s (.accept x peer) { s.setAccept x .adding with
        acceptor := { s.acceptor with pending }
        sockets := Function.update s.sockets x { context, isOpen := true, connected := true }
        peers := Function.update s.peers x peer
        manager := manager }
  | acceptFailed (pool : Pool) (pending : List Nat) (running : s.pool.running = true)
      (contexts : pool.contexts = s.pool.contexts) (same : pool.running = s.pool.running)
      (fed : ∀ context ∈ pending, context ∈ s.acceptor.pending ∨ context ∈ s.pool.contexts) :
      Takes cfg s .acceptFailed { s with pool, acceptor := { s.acceptor with pending } }
  | insert (x : σ) (manager : SessionManager.State (τ ⊕ σ) σ δ) (pc : s.accepts x = .adding)
      (inserted : SessionManager.step clockTime s.manager (.insert (.inr x)) = some manager) :
      Takes cfg s (.handleNewSession x) { s.setAccept x .starting with manager := manager }
  | startSession (x : σ) (pc : s.accepts x = .starting) :
      Takes cfg s (.handleNewSession x) ((s.setAccept x .again).setRead x .reading)
  | acceptAgain (x : σ) (pool : Pool) (pending : List Nat) (pc : s.accepts x = .again)
      (contexts : pool.contexts = s.pool.contexts) (same : pool.running = s.pool.running)
      (fed : ∀ context ∈ pending, context ∈ s.acceptor.pending ∨ context ∈ s.pool.contexts) :
      Takes cfg s (.handleNewSession x)
        { s.setAccept x .idle with pool, acceptor := { s.acceptor with pending } }
  | call (a : Action τ σ δ) (b : SessionManager.Action (τ ⊕ σ) σ δ)
      (manager : SessionManager.State (τ ⊕ σ) σ δ) (on : a.onRegistry = some b)
      (callable : s.control.callable = true)
      (moved : SessionManager.step clockTime s.manager b = some manager) :
      Takes cfg s a { s.closeAll (s.closing b).toList with manager := manager }
  | disconnect (x : σ) :
      Takes cfg s (.disconnect x) { s with
        sockets := Function.update s.sockets x { s.sockets x with connected := false } }
  | arrive (x : σ) (data : δ) (pc : s.reads x = .reading) (isOpen : (s.sockets x).isOpen = true) :
      Takes cfg s (.arrive x data) (s.setRead x (.queued data))
  | fail (x : σ) (pc : s.reads x = .reading) : Takes cfg s (.fail x) (s.setRead x .failed)
  | beginRead (x : σ) (now : Int) (data : δ) (pc : s.reads x = .queued data)
      (running : s.pool.running = true) :
      Takes cfg s (.asyncRead x now) (s.setRead x (.address data))
  | closeRead (x : σ) (now : Int) (pc : s.reads x = .failed) (running : s.pool.running = true) :
      Takes cfg s (.asyncRead x now) ((s.close x).setRead x .idle)
  | getAddress (x : σ) (now : Int) (data : δ) (peer : Endpoint) (pc : s.reads x = .address data)
      (found : s.remoteEndpoint x = some peer) :
      Takes cfg s (.asyncRead x now) (s.setRead x (.port data peer.address))
  | getPort (x : σ) (now : Int) (data : δ) (ip : String) (peer : Endpoint)
      (pc : s.reads x = .port data ip) (found : s.remoteEndpoint x = some peer) :
      Takes cfg s (.asyncRead x now) (s.setRead x (.push data ip peer.port))
  | throw (x : σ) (now : Int)
      (pc : (∃ data, s.reads x = .address data) ∨ ∃ data ip, s.reads x = .port data ip)
      (missing : s.remoteEndpoint x = none) :
      Takes cfg s (.asyncRead x now) { s with terminated := true }
  | push (x : σ) (now : Int) (data : δ) (ip : String) (port : Nat)
      (pc : s.reads x = .push data ip port) :
      Takes cfg s (.asyncRead x now) { s.setRead x .finishing with
        messages := s.messages ++
          [{ time := now, sessionId := s.manager.ownId x, port, ip, data }] }
  | finish (x : σ) (now : Int) (manager : SessionManager.State (τ ⊕ σ) σ δ)
      (pc : s.reads x = .finishing)
      (moved : SessionManager.step clockTime s.manager (.active x now) = some manager) :
      Takes cfg s (.asyncRead x now) { s.setRead x .reading with manager := manager }

section Inversion

variable {cfg : Config} {s s' : State τ σ δ}

theorem startServer_takes (pc : s.control = .ready) (taken : s.startServer = some s') :
    Takes cfg s .start s' := by
  simp only [State.startServer, State.doAccept, if_true] at taken
  rcases Option.map_eq_some_iff.mp taken with ⟨⟨context, pool⟩, found, rfl⟩
  rcases Pool.getIOContext_cases found with ⟨inside, contexts, running⟩
  have alive : s.pool.contexts ≠ [] := List.ne_nil_of_mem inside
  refine .start pool _ pc alive contexts (by simp [running, alive]) ?_
  intro other member
  rcases List.mem_append.mp member with old | new
  · exact .inl old
  · rw [List.mem_singleton.mp new]
    exact .inr inside

theorem controlStep_takes (taken : s.controlStep = some s') : Takes cfg s .control s' := by
  cases pc : s.control with
  | closeAcceptor destroying =>
      simp only [State.controlStep, pc] at taken
      cases taken
      exact .closeAcceptor destroying pc
  | stopContexts destroying =>
      simp only [State.controlStep, pc] at taken
      cases taken
      exact .stopContexts destroying pc
  | join destroying =>
      simp only [State.controlStep, pc] at taken
      split at taken <;> cases taken
      exact .join destroying pc ‹_›
  | clear destroying =>
      simp only [State.controlStep, pc] at taken
      cases taken
      exact .clear destroying pc
  | destroySessions =>
      simp only [State.controlStep, pc] at taken
      cases taken
      exact .destroySessions pc
  | destroyAcceptor =>
      simp only [State.controlStep, pc] at taken
      cases taken
      exact .destroyAcceptor pc
  | destroyPool =>
      simp only [State.controlStep, pc] at taken
      cases taken
      exact .destroyPool pc
  | unconstructed | ready | destroyed =>
      simp only [State.controlStep, pc] at taken
      cases taken

theorem accept_takes {x : σ} {peer : Endpoint} (taken : s.accept x peer = some s') :
    Takes cfg s (.accept x peer) s' := by
  unfold State.accept at taken
  split at taken
  · cases taken
  · split at taken
    · rename_i filled allowed
      rcases Option.map_eq_some_iff.mp taken with ⟨manager, added, rfl⟩
      exact .accept x peer _ _ manager filled allowed.1 allowed.2 added
    · cases taken

theorem acceptFailed_takes (taken : s.acceptFailed = some s') : Takes cfg s .acceptFailed s' := by
  unfold State.acceptFailed at taken
  split at taken
  · cases taken
  · split at taken
    · rename_i context rest filled running
      rcases State.doAccept_cases taken with ⟨pool, pending, rfl, contexts, same, fed⟩
      refine .acceptFailed pool pending running contexts same ?_
      intro context member
      rcases fed context member with old | new
      · exact .inl (by rw [filled]; exact List.mem_cons_of_mem _ old)
      · exact .inr new
    · cases taken

theorem handleNewSession_takes {x : σ} (taken : s.handleNewSession x = some s') :
    Takes cfg s (.handleNewSession x) s' := by
  cases pc : s.accepts x with
  | idle =>
      simp only [State.handleNewSession, pc] at taken
      cases taken
  | adding =>
      simp only [State.handleNewSession, pc] at taken
      rcases Option.map_eq_some_iff.mp taken with ⟨manager, inserted, rfl⟩
      exact .insert x manager pc inserted
  | starting =>
      simp only [State.handleNewSession, pc] at taken
      cases taken
      exact .startSession x pc
  | again =>
      simp only [State.handleNewSession, pc] at taken
      rcases State.doAccept_cases taken with ⟨pool, pending, rfl, contexts, same, fed⟩
      exact .acceptAgain x pool pending pc contexts same fed

theorem asyncRead_takes {x : σ} {now : Int} (taken : s.asyncRead x now = some s') :
    Takes cfg s (.asyncRead x now) s' := by
  cases pc : s.reads x with
  | idle | reading =>
      simp only [State.asyncRead, pc] at taken
      cases taken
  | queued data =>
      simp only [State.asyncRead, pc] at taken
      split at taken <;> cases taken
      exact .beginRead x now data pc ‹_›
  | failed =>
      simp only [State.asyncRead, pc] at taken
      split at taken <;> cases taken
      exact .closeRead x now pc ‹_›
  | address data =>
      simp only [State.asyncRead, pc] at taken
      cases found : s.remoteEndpoint x with
      | none =>
          rw [found] at taken
          cases taken
          exact .throw x now (.inl ⟨data, pc⟩) found
      | some peer =>
          rw [found] at taken
          cases taken
          exact .getAddress x now data peer pc found
  | port data ip =>
      simp only [State.asyncRead, pc] at taken
      cases found : s.remoteEndpoint x with
      | none =>
          rw [found] at taken
          cases taken
          exact .throw x now (.inr ⟨data, ip, pc⟩) found
      | some peer =>
          rw [found] at taken
          cases taken
          exact .getPort x now data ip peer pc found
  | push data ip port =>
      simp only [State.asyncRead, pc] at taken
      cases taken
      exact .push x now data ip port pc
  | finishing =>
      simp only [State.asyncRead, pc] at taken
      rcases Option.map_eq_some_iff.mp taken with ⟨manager, moved, rfl⟩
      exact .finish x now manager pc moved

theorem call_takes {a : Action τ σ δ} {b : SessionManager.Action (τ ⊕ σ) σ δ}
    (on : a.onRegistry = some b) (taken : s.call b = some s') : Takes cfg s a s' := by
  unfold State.call at taken
  split at taken
  · rcases Option.map_eq_some_iff.mp taken with ⟨manager, moved, rfl⟩
    exact .call a b manager on ‹_› moved
  · cases taken

theorem step_takes {a : Action τ σ δ} (taken : step cfg s a = some s') :
    s.terminated = false ∧ Takes cfg s a s' := by
  unfold step at taken
  split at taken
  · cases taken
  refine ⟨Bool.eq_false_iff.mpr ‹_›, ?_⟩
  cases a with
  | construct =>
      simp only at taken
      split at taken
      · rcases Option.map_eq_some_iff.mp taken with ⟨⟨context, pool⟩, found, rfl⟩
        rcases Pool.getIOContext_cases found with ⟨inside, contexts, running⟩
        exact .construct context pool ‹_› (List.mem_range.mp inside) contexts running
      · cases taken
  | start =>
      simp only at taken
      split at taken
      · exact startServer_takes ‹_› taken
      · cases taken
  | stop =>
      simp only at taken
      split at taken <;> cases taken
      exact .stop ‹_›
  | destroy =>
      simp only at taken
      split at taken <;> cases taken
      exact .destroy ‹_›
  | control => exact controlStep_takes taken
  | accept x peer => exact accept_takes taken
  | acceptFailed => exact acceptFailed_takes taken
  | handleNewSession x => exact handleNewSession_takes taken
  | closeSession id => exact call_takes rfl taken
  | scan t now => exact call_takes rfl taken
  | removeNext t => exact call_takes rfl taken
  | disconnect x =>
      cases taken
      exact .disconnect x
  | arrive x data =>
      simp only at taken
      split at taken
      · split at taken <;> cases taken
        exact .arrive x data ‹_› ‹_›
      · cases taken
  | fail x =>
      simp only at taken
      split at taken <;> cases taken
      exact .fail x ‹_›
  | asyncRead x now => exact asyncRead_takes taken

end Inversion

end CommonUtils.TCP.Server
