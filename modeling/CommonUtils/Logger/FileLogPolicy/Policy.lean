import CommonUtils.Logger.FileLogPolicy.Intact
import CommonUtils.Logger.LogPolicy

namespace CommonUtils.Logger.FileLogPolicy

universe u

variable {τ μ : Type u}

/-- What `Write` has been called with and is not surely on the disk. -/
def State.unfiled (s : State τ μ) (writer : τ) : List μ :=
  s.file.drop s.disk.length ++ s.held ++ s.announced writer

def Action.messages : Action τ μ → List μ
  | .call _ op => op.messages
  | .caller _ | .writer | .spurious => []

structure Filed (writer : τ) (written : List μ) (s : State τ μ) : Prop where
  orderly : OrderlyInv s
  inOrder : InOrder writer s
  written : s.written = written
  flushed : s.disk <+: s.file

variable [DecidableEq τ]

def policy (τ μ : Type u) [DecidableEq τ] : LogPolicy τ μ where
  State := State τ μ
  Action := Action τ μ
  start := start τ μ
  write s t m := step s (.call t (.write m))
  flush s t := step s (.call t .flush)
  destroy s t := step s (.call t .destroy)
  returned s t := (s.callers t).isNone
  step s
    | .call _ _ => none
    | a => step s a

theorem step_of_policy {s s' : State τ μ} {a : Action τ μ}
    (taken : (policy τ μ).step s a = some s') : step s a = some s' := by
  cases a with
  | call t op => cases taken
  | caller | writer | spurious => exact taken

theorem written_of_step {s s' : State τ μ} {a : Action τ μ} (taken : step s a = some s') :
    s'.written = s.written ++ a.messages := by
  cases step_takes taken with
  | call t op absent => rfl
  | caller t call mine taken =>
      rw [(callerFrame_of_callerStep taken).written]
      exact (List.append_nil _).symm
  | writer taken =>
      rw [(writerFrame_of_writerStep taken).written]
      exact (List.append_nil _).symm
  | spurious waiting => exact (List.append_nil _).symm

omit [DecidableEq τ] in
theorem file_of_writerStep {s s' : State τ μ} (taken : s.writerStep = some s') :
    s.file <+: s'.file := by
  cases pc : s.writer <;> simp only [State.writerStep, pc] at taken
  case iterate =>
    split at taken
    · rcases Option.map_eq_some_iff.mp taken with ⟨message, _, rfl⟩
      exact List.prefix_append _ _
    · cases taken
      exact List.prefix_rfl
  case lockQueue | testStop | pop | begin | lockBuffer =>
    split at taken <;> cases taken <;> exact List.prefix_rfl
  case waiting | returned => cases taken
  all_goals
    cases taken
    exact List.prefix_rfl

theorem file_of_step {s s' : State τ μ} {a : Action τ μ} (taken : step s a = some s') :
    s.file <+: s'.file := by
  cases step_takes taken with
  | call t op absent => exact List.prefix_rfl
  | caller t call mine taken => rw [(callerFrame_of_callerStep taken).file]
  | writer taken => exact file_of_writerStep taken
  | spurious waiting => exact List.prefix_rfl

omit [DecidableEq τ] in
theorem disk_of_writerStep {s s' : State τ μ} (taken : s.writerStep = some s') :
    s'.disk = s.disk ∨ s'.disk = s'.file := by
  cases pc : s.writer <;> simp only [State.writerStep, pc] at taken
  case iterate =>
    split at taken
    · rcases Option.map_eq_some_iff.mp taken with ⟨message, _, rfl⟩
      exact .inl rfl
    · cases taken
      exact .inl rfl
  case lockQueue | testStop | pop | begin | lockBuffer =>
    split at taken <;> cases taken <;> exact .inl rfl
  case flushFile =>
    cases taken
    exact .inr rfl
  case waiting | returned => cases taken
  all_goals
    cases taken
    exact .inl rfl

/-- The stream is flushed as a whole or not at all. -/
theorem disk_of_step {s s' : State τ μ} {a : Action τ μ} (taken : step s a = some s') :
    s'.disk = s.disk ∨ s'.disk = s'.file := by
  cases step_takes taken with
  | call t op absent => exact .inl rfl
  | caller t call mine taken => exact (callerFrame_of_callerStep taken).disk
  | writer taken => exact disk_of_writerStep taken
  | spurious waiting => exact .inl rfl

theorem flushed_of_step {s s' : State τ μ} {a : Action τ μ} (flushed : s.disk <+: s.file)
    (taken : step s a = some s') : s.disk <+: s'.disk ∧ s'.disk <+: s'.file := by
  have longer := flushed.trans (file_of_step taken)
  rcases disk_of_step taken with same | all
  · rw [same]
    exact ⟨List.prefix_rfl, longer⟩
  · rw [all]
    exact ⟨longer, List.prefix_rfl⟩

namespace Filed

variable {writer : τ} {written : List μ} {s s' : State τ μ} {a : Action τ μ}

omit [DecidableEq τ] in
theorem start (writer : τ) : Filed writer [] (start τ μ) :=
  ⟨⟨.start, .ready, .start⟩, .start writer, rfl, List.prefix_rfl⟩

theorem step (filed : Filed writer written s) (exclusive : Exclusive s a)
    (one : WritesFrom writer a) (taken : FileLogPolicy.step s a = some s') :
    Filed writer (written ++ a.messages) s' := by
  refine ⟨filed.orderly.step exclusive taken, filed.inOrder.step one taken, ?_,
    (flushed_of_step filed.flushed taken).2⟩
  rw [written_of_step taken, filed.written]

theorem silent (filed : Filed writer written s) (nothing : a.messages = [])
    (exclusive : Exclusive s a) (one : WritesFrom writer a)
    (taken : FileLogPolicy.step s a = some s') : Filed writer written s' := by
  have stepped := filed.step exclusive one taken
  rw [nothing, List.append_nil] at stepped
  exact stepped

theorem internal (filed : Filed writer written s) (exclusive : Exclusive s a)
    (taken : (policy τ μ).step s a = some s') : Filed writer written s' := by
  cases a with
  | call t op => cases taken
  | caller | writer | spurious => exact filed.silent rfl exclusive trivial taken

theorem keeps (writer : τ) :
    (policy τ μ).Keeps writer Exclusive fun _ written s => Filed writer written s where
  write {_ _ _ m} filed begun := filed.step (a := .call writer (.write m)) trivial rfl begun
  finish filed _ := filed
  flush {_ _ _ _ t} _ filed begun := filed.silent (a := .call t .flush) rfl trivial trivial begun
  step := internal
  close filed := filed
  destroy {_ _ _ t} _ filed begun :=
    filed.silent (a := .call t .destroy) rfl trivial trivial begun

omit [DecidableEq τ] in
theorem ledger (filed : Filed writer written s) :
    written = s.disk ++ (s.file.drop s.disk.length ++ s.pending ++ s.announced writer) := by
  rcases filed.orderly.phase with ⟨phase, inPhase⟩
  rcases filed.flushed with ⟨later, whole⟩
  rw [← filed.written, filed.inOrder.written, inPhase.ring.ledger, ← whole, List.drop_left]
  simp only [List.append_assoc]

omit [DecidableEq τ] in
theorem mem_unfiled (filed : Filed writer written s) {m : μ} : m ∈ s.unfiled writer ↔
    m ∈ s.file.drop s.disk.length ++ s.pending ++ s.announced writer := by
  rcases filed.orderly.phase with ⟨phase, inPhase⟩
  simp only [State.unfiled, List.mem_append, inPhase.ring.pending_perm.mem_iff]

omit [DecidableEq τ] in
theorem mem_disk (filed : Filed writer written s) {m : μ} (member : m ∈ written)
    (settled : m ∉ s.unfiled writer) : m ∈ s.disk := by
  rw [filed.ledger, List.mem_append] at member
  exact member.resolve_right fun onItsWay => settled (filed.mem_unfiled.mpr onItsWay)

omit [DecidableEq τ] in
theorem disk_eq (filed : Filed writer written s) (settled : s.unfiled writer = []) :
    s.disk = written := by
  have nothing : s.file.drop s.disk.length ++ s.pending ++ s.announced writer = [] := by
    apply List.eq_nil_iff_forall_not_mem.mpr
    intro m member
    have onItsWay := filed.mem_unfiled.mpr member
    rw [settled] at onItsWay
    cases onItsWay
  rw [filed.ledger, nothing, List.append_nil]

omit [DecidableEq τ] in
theorem not_unfiled (filed : Filed writer written s) (distinct : written.Nodup) {m : μ}
    (inside : m ∈ s.disk) : m ∉ s.unfiled writer := by
  rw [filed.ledger, List.nodup_append] at distinct
  intro onItsWay
  exact distinct.2.2 m inside m (filed.mem_unfiled.mp onItsWay) rfl

end Filed

theorem disk_keeps (writer : τ) (m : μ) :
    (policy τ μ).Keeps writer (fun _ _ => True) fun _ _ s => m ∈ s.disk ∧ s.disk <+: s.file where
  write {_ _ _ n} := by
    rintro ⟨filed, flushed⟩ begun
    rcases flushed_of_step (a := .call writer (.write n)) flushed begun with ⟨longer, stays⟩
    exact ⟨longer.subset filed, stays⟩
  finish kept _ := kept
  flush {_ _ _ _ t} _ := by
    rintro ⟨filed, flushed⟩ begun
    rcases flushed_of_step (a := .call t .flush) flushed begun with ⟨longer, stays⟩
    exact ⟨longer.subset filed, stays⟩
  step {_ _ _ _ a} := by
    rintro ⟨filed, flushed⟩ _ taken
    rcases flushed_of_step flushed (step_of_policy taken) with ⟨longer, stays⟩
    exact ⟨longer.subset filed, stays⟩
  close kept := kept
  destroy {_ _ _ t} _ := by
    rintro ⟨filed, flushed⟩ begun
    rcases flushed_of_step (a := .call t .destroy) flushed begun with ⟨longer, stays⟩
    exact ⟨longer.subset filed, stays⟩

end CommonUtils.Logger.FileLogPolicy
