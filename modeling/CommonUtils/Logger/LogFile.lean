import CommonUtils.Logger.FileLogPolicy.Format
import CommonUtils.Logger.Settled

/-! From `Log` to the disk: what can be read out of the log files of a whole logger, at any
time and from any part of them that is there. The stream may write early what it holds: on
the disk is at least what was flushed and at most what was passed to `write`. -/

namespace CommonUtils.Logger

universe v

variable {τ : Type} {ι κ : Type v} [DecidableEq τ] [DecidableEq ι] [DecidableEq κ]
variable {others : ι → LogPolicy (Thread τ) (Entry τ LogMessage)}

abbrev Clock (τ : Type) : Type := Entry τ LogMessage → FileLogPolicy.Tm × Nat

def record (clock : Clock τ) (e : Entry τ LogMessage) : FileLogPolicy.Record where
  tm := (clock e).1
  milliseconds := (clock e).2
  level := e.message.level
  message := e.message.message

def State.text (clock : Clock τ) (s : State (withFiles κ others)) (f : κ) : Text :=
  FileLogPolicy.fileText ((s.file f).file.map (record clock))

def State.flushedText (clock : Clock τ) (s : State (withFiles κ others)) (f : κ) : Text :=
  FileLogPolicy.fileText ((s.file f).disk.map (record clock))

section Orderly

variable {μ : Type} {rest : ι → LogPolicy (Thread τ) (Entry τ μ)} {s : State (withFiles κ rest)}

theorem Orderly.of_reachable (reached : (machine (withFiles κ rest)).ReachUnder
    (fun s a => Allowed s a ∧ Unraced s a ∧ Once s a) s) : Orderly s := by
  apply reached.invariant (I := Orderly)
  · exact .start
  · rintro s a s' orderly ⟨allowed, unraced, once⟩ taken
    exact orderly.step allowed unraced once taken

theorem Orderly.file_prefix (orderly : Orderly s) {f : κ} (added : .inl f ∈ s.policies) :
    (s.file f).file <+: s.entered := by
  have filed := orderly.filed f
  have written := FileLogPolicy.file_prefix filed.orderly filed.inOrder
  rw [filed.written] at written
  exact written.trans (orderly.ledger.received_le_entered orderly.policies added)

theorem Orderly.logged_of_entered (orderly : Orderly s) {e : Entry τ μ} (entered : e ∈ s.entered) :
    e ∈ s.logged := by
  have own : e ∈ s.entered.filter fun x => x.producer = e.producer :=
    List.mem_filter.mpr ⟨entered, decide_eq_true rfl⟩
  exact List.mem_of_mem_filter ((orderly.ledger.entered_prefix e.producer).subset own)

end Orderly

variable {s : State (withFiles κ others)}

/-- What a log file gives back: the entries as they were queued from the first on, each once,
and the messages of one producer in the order it logged them. -/
structure ReadBack (s : State (withFiles κ others)) (entries : List (Entry τ LogMessage)) :
    Prop where
  queued : entries <+: s.entered
  once : entries.Nodup
  producers : ∀ t, entries.filter (fun e => e.producer = t) <+:
    s.logged.filter fun e => e.producer = t

theorem Orderly.readBack (orderly : Orderly s) {entries : List (Entry τ LogMessage)}
    (queued : entries <+: s.entered) : ReadBack s entries where
  queued := queued
  once := (orderly.ledger.entered_nodup orderly.numbered).sublist queued.sublist
  producers t := (queued.filter _).trans (orderly.ledger.entered_prefix t)

abbrev LogFiles : Unit ⊕ Empty → LogPolicy (Thread Unit) (Entry Unit LogMessage) :=
  withFiles Unit fun i => i.elim

instance (s : State LogFiles) : (a : Action LogFiles) → Decidable (Unraced s a)
  | .policy (.inl f) a => FileLogPolicy.decidableExclusive (s.file f) a
  | .policy (.inr i) _ => i.elim
  | .addPolicy _ | .log _ _ | .flush _ | .caller _ | .processQueue | .spurious | .timerTask
  | .destroy | .destructor | .destroyPolicy _ => isTrue trivial

def logFile (a : FileLogPolicy.Action (Thread Unit) (Entry Unit LogMessage)) : Action LogFiles :=
  .policy (.inl ()) a

def oneMessage (message : LogMessage) : List (Action LogFiles) :=
  [.log () message, .caller (.thread ()), .caller (.thread ()), .processQueue, .processQueue] ++
    List.replicate 7 (logFile (.caller .processQueue)) ++ [.processQueue, .processQueue]

def logFileRun : List (Action LogFiles) :=
  .addPolicy (.inl ()) :: (oneMessage ⟨.info, ['u', 'p']⟩ ++ oneMessage ⟨.error, ['o', 'f', 'f']⟩ ++
    [.flush (), .caller (.thread ()), .caller (.thread ())] ++
    List.replicate 19 (logFile (.caller (.caller (.thread ())))) ++
    List.replicate 14 (logFile .writer) ++
    [.caller (.thread ()), .caller (.thread ()), .destroy, .destructor, .destructor,
      .processQueue, .destructor, .timerTask, .destructor])

theorem log_file_run : ∃ s : State LogFiles,
    (machine LogFiles).runGuarded (fun s a => Allowed s a ∧ Unraced s a ∧ Once s a)
        (machine LogFiles).start logFileRun = some s ∧
      (∀ e ∈ s.logged, '\n' ∉ e.message.message) ∧ .inl () ∈ s.policies ∧
      s.destructor = .done ∧ (s.file ()).unfiled .processQueue = [] ∧ s.logged.length = 2 := by
  have ends : ((machine LogFiles).runGuarded (fun s a => Allowed s a ∧ Unraced s a ∧ Once s a)
      (machine LogFiles).start logFileRun).any (fun s =>
        decide ((∀ e ∈ s.logged, '\n' ∉ e.message.message) ∧
          (∃ p ∈ s.policies, p = .inl ()) ∧
          s.destructor = .done ∧ (s.file ()).unfiled .processQueue = [] ∧
          s.logged.length = 2)) = true := by
    decide +kernel
  rcases Option.any_eq_true _ _ |>.mp ends with ⟨s, ran, facts⟩
  rcases of_decide_eq_true facts with ⟨plain, ⟨p, added, rfl⟩, rest⟩
  exact ⟨s, ran, plain, added, rest⟩

end CommonUtils.Logger
