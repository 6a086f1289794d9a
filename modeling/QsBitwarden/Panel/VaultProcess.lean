import Mathlib.Data.List.Nodup

/-!
# Panel — a `bw` run (`VaultProcess.qml`, `Service.qml`)

A `VaultProcess` is used like a process: its caller sets `command` and then `running`. What runs is
decided later. The helper runs it, or it waits for a helper, or it runs in the shell, there perhaps
behind the clearing of the previous run's collector.

* **`setRunning`**, **`flush`** — what the caller and the helper's arrival do. Each returns the
  commands it hands over to be run.
* **`helperExit`**, **`localExit`**, **`runLaunch`**, **`runClear`** — what comes back.
* **`InFlight`** — a command whose end will be reported, and **`Sound`**, which ties the fields
  together: only what was handed over is in flight, and nothing is once an end was reported.
-/

namespace QsBitwarden.Panel

/-- A lock replaces the command by one that does nothing, to empty the collectors. -/
inductive Command (κ : Type) where
  /-- Before the first run. -/
  | empty
  | scrub
  | bw (run : κ)
  deriving DecidableEq

/-- `isScrubCommand`. -/
def Command.isScrub {κ : Type} : Command κ → Bool
  | .scrub => true
  | .empty | .bw _ => false

/-- `vaultHelperState`, as `vaultStart` tells its values apart. The shell runs commands itself only
after it has given up on a helper, for good. -/
inductive Helper where
  /-- `pending`, `starting` or `stopped`. -/
  | awaited
  | active
  | fallback
  deriving DecidableEq

/-- `runId`: 0, -1, or the helper's id for the run. -/
inductive RunId where
  | none
  | here
  | helper
  deriving DecidableEq

structure VaultProcess (κ : Type) where
  command : Command κ
  running : Bool
  runId : RunId
  startSeq : Nat
  /-- The run `vaultRuns` has this process for. -/
  exec : Option (Command κ)
  localCommand : Command κ
  localRunning : Bool
  /-- Deferred calls of `launchLocal`. -/
  launches : List (Command κ × Nat)
  /-- Deferred clears of the local collectors. -/
  clears : Nat
  /-- It is in `vaultWaiting`. -/
  waiting : Bool

namespace VaultProcess

variable {κ : Type}

def new : VaultProcess κ := ⟨.empty, false, .none, 0, none, .empty, false, [], 0, false⟩

variable (p : VaultProcess κ) (helper : Helper)

/-! ## The code -/

/-- The run has ended: `exited` follows. -/
def finish : VaultProcess κ := { p with runId := .none, running := false }

/-- A start that was replaced is dropped, and one that was cancelled ends as a killed run would
(the flag); behind a clear it is deferred. -/
def launchLocal (command : Command κ) (seq : Nat) : Bool × VaultProcess κ :=
  if seq ≠ p.startSeq then (false, p)
  else if !p.running then (true, p.finish)
  else if p.localRunning then (false, { p with launches := p.launches ++ [(command, seq)] })
  else (false, { p with runId := .here, localCommand := command, localRunning := true })

def vaultStart : List (Command κ) × VaultProcess κ :=
  match helper with
  | .awaited => ([], { p with waiting := true })
  | .active => ([p.command], { p with runId := .helper, exec := some p.command })
  | .fallback => ([p.command], (p.launchLocal p.command p.startSeq).2)

def start : List (Command κ) × VaultProcess κ :=
  let p := { p with startSeq := p.startSeq + 1 }
  if p.command.isScrub then
    ([.scrub], { p with localCommand := .scrub, runId := .here, localRunning := true })
  else p.vaultStart helper

/-- `onRunningChanged`. A kill is a signal to the run, whose end comes later. -/
def setRunning (running : Bool) : List (Command κ) × VaultProcess κ :=
  if p.running = running then ([], p)
  else if running && p.runId = .none then { p with running }.start helper
  else ([], { p with running })

/-- `flushVaultWaiting`, for this process. -/
def flush : List (Command κ) × VaultProcess κ :=
  if p.waiting then
    if p.running then { p with waiting := false }.vaultStart helper
    else ([], { p with waiting := false })
  else ([], p)

/-- The helper reports the end of the run, or is gone itself. -/
def helperExit : Bool × VaultProcess κ :=
  if p.exec.isSome then (true, { p with exec := none }.finish) else (false, p)

/-- `local.onExited`, with the text the caller's collector gets; none if this was only the clearing
of the local collectors. -/
def localExit (out : String) : Option String × VaultProcess κ :=
  if !p.localRunning then (none, p)
  else if p.localCommand.isScrub then
    if p.runId = .here then (some "", { p with localRunning := false }.finish)
    else (none, { p with localRunning := false })
  else (some out, { p with localRunning := false, clears := p.clears + 1 }.finish)

/-- A deferred `launchLocal` is called. -/
def runLaunch : Bool × VaultProcess κ :=
  match p.launches with
  | [] => (false, p)
  | (command, seq) :: launches => { p with launches }.launchLocal command seq

/-- A deferred clear is called. -/
def runClear : VaultProcess κ :=
  if p.clears = 0 then p
  else if p.localRunning then { p with clears := p.clears - 1 }
  else { p with clears := p.clears - 1, localCommand := .scrub, localRunning := true }

/-! ## What is in flight -/

/-- The end of a run of `command` will be reported. A deferred launch only gets to run while no other
run of this process does. -/
def InFlight (command : Command κ) : Prop :=
  p.exec = some command ∨ (p.runId = .here ∧ p.localCommand = command) ∨
    (p.running ∧ p.runId = .none ∧ (command, p.startSeq) ∈ p.launches)

def idle : Bool :=
  p.exec.isNone && p.runId ≠ .here &&
    (!p.running || p.launches.all fun launch => launch.2 ≠ p.startSeq)

/-- Nothing is in flight, and nothing waits for the helper. -/
def settled : Bool := p.idle && !(p.waiting && p.running)

structure Sound : Prop where
  exec : p.exec.isSome ↔ p.runId = .helper
  active : p.runId = .helper → helper = .active
  waiting : p.waiting → helper = .awaited
  launches : p.launches ≠ [] → helper = .fallback
  seqs : ∀ launch ∈ p.launches, launch.2 ≤ p.startSeq
  nodup : (p.launches.map (·.2)).Nodup
  here : p.runId = .here → p.localRunning
  /-- A local read is the only thing its start launched. -/
  localRead : p.localRunning → p.localCommand.isScrub = false →
    p.runId = .here ∧ helper = .fallback ∧ ∀ launch ∈ p.launches, launch.2 ≠ p.startSeq

variable {p helper}

theorem not_inFlight_of_idle (hidle : p.idle) (command : Command κ) : ¬ p.InFlight command := by
  simp only [idle, Bool.and_eq_true, Bool.or_eq_true, Option.isNone_iff_eq_none, decide_eq_true_eq,
    Bool.not_eq_true', List.all_eq_true] at hidle
  obtain ⟨⟨hexec, hhere⟩, hlaunch⟩ := hidle
  rintro (hrun | ⟨hrun, -⟩ | ⟨hrunning, -, hmem⟩)
  · rw [hexec] at hrun
    cases hrun
  · exact hhere hrun
  · rcases hlaunch with hstopped | hall
    · rw [hrunning] at hstopped
      cases hstopped
    · exact hall _ hmem rfl

/-- Once an end was reported, nothing is in flight. -/
theorem idle_finish (hexec : p.exec = none) : p.finish.idle := by
  simp [idle, finish, hexec]

/-- The process goes on to `p'`, with no new command: its run has ended, or what is in flight was
before. -/
structure Goes (p : VaultProcess κ) (ended : Bool) (p' : VaultProcess κ) : Prop where
  command : p'.command = p.command
  idle : ended → p'.idle ∧ p'.running = false
  inFlight : ∀ c, p'.InFlight c → p.InFlight c
  waits : p'.waiting → p'.running → p.waiting ∧ p.running

namespace Goes

variable {p' : VaultProcess κ}

theorem of_finish (hexec : p'.exec = none) (hcommand : p'.command = p.command) :
    p.Goes true p'.finish where
  command := hcommand
  idle _ := ⟨idle_finish hexec, rfl⟩
  inFlight c hc := absurd hc (not_inFlight_of_idle (idle_finish hexec) c)
  waits _ hrunning := by cases hrunning

theorem quiet (hcommand : p'.command = p.command) (hwaiting : p'.waiting = p.waiting)
    (hrunning : p'.running = p.running) (hflight : ∀ c, p'.InFlight c → p.InFlight c) :
    p.Goes false p' where
  command := hcommand
  idle hended := by cases hended
  inFlight := hflight
  waits hw hr := ⟨hwaiting ▸ hw, hrunning ▸ hr⟩

theorem refl : p.Goes false p :=
  .quiet rfl rfl rfl fun _ hc => hc

end Goes

namespace Sound

theorem new (helper : Helper) : Sound (.new : VaultProcess κ) helper := by
  constructor <;> simp [VaultProcess.new]

variable (hp : Sound p helper)
include hp

theorem setCommand (command : Command κ) : Sound { p with command } helper :=
  { hp with }

theorem exec_none (hrun : p.runId ≠ .helper) : p.exec = none := by
  by_contra hexec
  exact hrun (hp.exec.mp (Option.isSome_iff_ne_none.mpr hexec))

theorem exec_none_of_ne (hinactive : helper ≠ .active) : p.exec = none :=
  hp.exec_none fun hrun => hinactive (hp.active hrun)

/-- Only scrubs run here, outside the fallback and before a run is launched. -/
theorem local_scrub (hother : helper ≠ .fallback ∨ p.runId ≠ .here) (hrunning : p.localRunning) :
    p.localCommand.isScrub := by
  by_contra hread
  obtain ⟨hrun, hhelper, -⟩ := hp.localRead hrunning (by simpa using hread)
  rcases hother with hne | hne
  · exact hne hhelper
  · exact hne hrun

/-! ### Starts -/

/-- An end is reported once nothing of the run is left. -/
theorem finish {exec : Option (Command κ)} {localRunning : Bool} (hexec : exec = none)
    (hlocal : localRunning → p.localCommand.isScrub) :
    Sound { p with exec, localRunning }.finish helper where
  exec := by simp [VaultProcess.finish, hexec]
  active hrun := by cases hrun
  waiting := hp.waiting
  launches := hp.launches
  seqs := hp.seqs
  nodup := hp.nodup
  here hrun := by cases hrun
  localRead hrunning hread := by
    have hscrub : p.localCommand.isScrub := hlocal hrunning
    have hread : p.localCommand.isScrub = false := hread
    simp [hscrub] at hread

omit hp

theorem launchLocal (hp : Sound p .fallback) {command : Command κ} {seq : Nat}
    (hnew : ∀ launch ∈ p.launches, launch.2 ≠ seq)
    (hscrub : seq = p.startSeq → p.localRunning → p.localCommand.isScrub) :
    Sound (p.launchLocal command seq).2 .fallback := by
  have hexec : p.exec = none := hp.exec_none_of_ne (by decide)
  unfold VaultProcess.launchLocal
  split_ifs with hseq hstopped hbusy
  · exact hp
  · exact hp.finish hexec (hscrub (by simpa using hseq))
  · have hseq : seq = p.startSeq := by simpa using hseq
    refine { hp with launches := fun _ => rfl, seqs := ?_, nodup := ?_, localRead := ?_ }
    · intro launch hl
      rcases List.mem_append.mp hl with hl | hl
      · exact hp.seqs launch hl
      · cases List.mem_singleton.mp hl
        exact Nat.le_of_eq hseq
    · rw [List.map_append]
      refine hp.nodup.append (List.nodup_singleton _) ?_
      intro seq' hmem hseq'
      obtain ⟨launch, hl, rfl⟩ := List.mem_map.mp hmem
      exact hnew launch hl (List.mem_singleton.mp hseq')
    · intro _ hread
      have hread : p.localCommand.isScrub = false := hread
      simp [hscrub hseq hbusy] at hread
  · have hseq : seq = p.startSeq := by simpa using hseq
    exact
      { hp with
        exec := by simp [hexec]
        active := fun hrun => by cases hrun
        here := fun _ => rfl
        localRead := fun _ _ => ⟨rfl, rfl, hseq ▸ hnew⟩ }

variable (hp : Sound p helper)
include hp

theorem vaultStart (hscrub : p.localRunning → p.localCommand.isScrub)
    (hnew : ∀ launch ∈ p.launches, launch.2 ≠ p.startSeq) :
    Sound (p.vaultStart helper).2 helper := by
  cases helper with
  | awaited => exact { hp with waiting := fun _ => rfl }
  | active =>
    refine { hp with exec := ?_, active := ?_, here := ?_, localRead := ?_ }
    · simp [VaultProcess.vaultStart]
    · exact fun _ => rfl
    · intro hrun
      cases hrun
    · intro hrunning hread
      have hread : p.localCommand.isScrub = false := hread
      simp [hscrub hrunning] at hread
  | fallback => exact hp.launchLocal hnew fun _ => hscrub

/-- A new start: nothing deferred belongs to it. -/
theorem next : Sound { p with startSeq := p.startSeq + 1 } helper ∧
    ∀ launch ∈ p.launches, launch.2 ≠ p.startSeq + 1 := by
  have hnew : ∀ launch ∈ p.launches, launch.2 ≠ p.startSeq + 1 := fun launch hl => by
    have := hp.seqs launch hl
    omega
  refine ⟨{ hp with seqs := fun launch hl => ?_, localRead := ?_ }, hnew⟩
  · exact Nat.le_succ_of_le (hp.seqs launch hl)
  · intro hrunning hread
    exact ⟨(hp.localRead hrunning hread).1, (hp.localRead hrunning hread).2.1, hnew⟩

theorem start (hrun : p.runId = .none) : Sound (p.start helper).2 helper := by
  have hscrub := hp.local_scrub (Or.inr (by simp [hrun]))
  obtain ⟨hnext, hnew⟩ := hp.next
  unfold VaultProcess.start
  dsimp only
  split_ifs with hcommand
  · refine { hnext with exec := ?_, active := ?_, here := fun _ => rfl, localRead := ?_ }
    · simp [hp.exec_none (by simp [hrun])]
    · intro hhelper
      cases hhelper
    · intro _ hread
      cases hread
  · exact hnext.vaultStart hscrub hnew

theorem setRunning (running : Bool) : Sound (p.setRunning helper running).2 helper := by
  have hset : Sound { p with running } helper := { hp with }
  unfold VaultProcess.setRunning
  split_ifs with hsame hstart
  · exact hp
  · have hrun : p.runId = .none := by
      simp only [Bool.and_eq_true, decide_eq_true_eq] at hstart
      exact hstart.2
    exact hset.start hrun
  · exact hset

omit hp

/-- The helper, or the decision to do without one, has arrived. -/
theorem ready (hp : Sound p .awaited) (helper : Helper) : Sound { p with waiting := false } helper where
  exec := hp.exec
  active hrun := by cases hp.active hrun
  waiting hwaiting := by cases hwaiting
  launches hl := by cases hp.launches hl
  seqs := hp.seqs
  nodup := hp.nodup
  here := hp.here
  localRead hrunning hread := by cases (hp.localRead hrunning hread).2.1

theorem flush (hp : Sound p .awaited) : Sound (p.flush helper).2 helper := by
  have hready := hp.ready helper
  unfold VaultProcess.flush
  split_ifs with hwaiting hrunning
  · refine hready.vaultStart (hp.local_scrub (Or.inl (by decide))) ?_
    intro launch hl
    have : p.launches ≠ [] := List.ne_nil_of_mem hl
    cases hp.launches this
  · exact hready
  · exact { hready with waiting := fun h => absurd h hwaiting }

/-! ### Ends -/

theorem helperExit (hp : Sound p helper) : Sound p.helperExit.2 helper := by
  unfold VaultProcess.helperExit
  split_ifs with hexec
  · have hrun := hp.exec.mp hexec
    exact hp.finish rfl (hp.local_scrub (Or.inr (by simp [hrun])))
  · exact hp

/-- The helper is gone, and all its runs with it. -/
theorem helperGone (hp : Sound p .active) : Sound p.helperExit.2 .awaited := by
  have hexit := hp.helperExit
  refine { hexit with active := ?_, waiting := fun _ => rfl, launches := ?_, localRead := ?_ }
  · unfold VaultProcess.helperExit
    split_ifs with hexec
    · intro hrun
      cases hrun
    · intro hrun
      exact absurd (hp.exec.mpr hrun) hexec
  · intro hl
    cases hexit.launches hl
  · intro hrunning hread
    cases (hexit.localRead hrunning hread).2.1

variable (hp : Sound p helper)
include hp

theorem localExit (out : String) : Sound (p.localExit out).2 helper := by
  unfold VaultProcess.localExit
  split_ifs with hstopped hscrub hhere
  · exact hp
  · exact hp.finish (hp.exec_none (by simp [hhere])) nofun
  · exact { hp with here := fun hrun => absurd hrun hhere, localRead := fun hrunning => by cases hrunning }
  · have hrun := (hp.localRead (by simpa using hstopped) (by simpa using hscrub)).1
    have hdone : Sound { p with localRunning := false }.finish helper :=
      hp.finish (hp.exec_none (by simp [hrun])) nofun
    exact { hdone with }

theorem runLaunch : Sound p.runLaunch.2 helper := by
  unfold VaultProcess.runLaunch
  split
  · exact hp
  · next command seq launches hl =>
    obtain rfl := hp.launches (by simp [hl])
    have hnodup := hp.nodup
    have hseqs := hp.seqs
    have hlocal := hp.localRead
    simp only [hl, List.map_cons, List.nodup_cons, List.mem_map, not_exists, not_and] at hnodup
    simp only [hl, List.forall_mem_cons] at hseqs hlocal
    have hrest : Sound { p with launches } .fallback :=
      { hp with
        launches := fun _ => rfl
        seqs := hseqs.2
        nodup := hnodup.2
        localRead := fun hrunning hread =>
          ⟨(hlocal hrunning hread).1, rfl, (hlocal hrunning hread).2.2.2⟩ }
    refine hrest.launchLocal hnodup.1 fun hseq hrunning => ?_
    by_contra hread
    exact (hlocal hrunning (by simpa using hread)).2.2.1 hseq

theorem runClear : Sound p.runClear helper := by
  unfold VaultProcess.runClear
  split_ifs with hzero hrunning
  · exact hp
  · exact { hp with }
  · exact { hp with here := fun _ => rfl, localRead := fun _ hread => by cases hread }

end Sound

/-! ## Only what is handed over is in flight -/

/-- The commands `sent` are handed over on the way to `p'`, and nothing else is in flight there. -/
structure Hands (p : VaultProcess κ) (sent : List (Command κ)) (p' : VaultProcess κ) : Prop where
  command : p'.command = p.command
  inFlight : ∀ c, p'.InFlight c → p.InFlight c ∨ c ∈ sent
  sent : ∀ c ∈ sent, c = p.command

section

variable {out : String}

theorem Hands.none : p.Hands [] p where
  command := rfl
  inFlight _ hc := Or.inl hc
  sent _ hc := by cases hc

theorem hands_vaultStart (hp : Sound p helper) :
    p.Hands (p.vaultStart helper).1 (p.vaultStart helper).2 := by
  cases helper with
  | awaited => exact { Hands.none with inFlight := fun _ hc => Or.inl hc }
  | active =>
    refine ⟨rfl, fun c hc => ?_, fun _ => List.mem_singleton.mp⟩
    rcases hc with hexec | ⟨hrun, -⟩ | ⟨-, hrun, -⟩
    · exact Or.inr (List.mem_singleton.mpr (Option.some.inj hexec).symm)
    · cases hrun
    · cases hrun
  | fallback =>
    unfold vaultStart launchLocal
    refine ⟨?_, fun c hc => ?_, fun _ => List.mem_singleton.mp⟩
    · dsimp only
      split_ifs <;> rfl
    · dsimp only at hc
      split_ifs at hc with hseq hstopped hbusy
      · exact Or.inl hc
      · have hidle := idle_finish (hp.exec_none_of_ne (by decide))
        exact absurd hc (not_inFlight_of_idle hidle c)
      · rcases hc with hexec | hhere | ⟨hrunning, hrun, hmem⟩
        · exact Or.inl (Or.inl hexec)
        · exact Or.inl (Or.inr (Or.inl hhere))
        · rcases List.mem_append.mp hmem with hmem | hmem
          · exact Or.inl (Or.inr (Or.inr ⟨hrunning, hrun, hmem⟩))
          · exact Or.inr (List.mem_singleton.mpr (Prod.mk.inj (List.mem_singleton.mp hmem)).1)
      · rcases hc with hexec | ⟨-, hlocal⟩ | ⟨-, hrun, -⟩
        · exact Or.inl (Or.inl hexec)
        · exact Or.inr (List.mem_singleton.mpr hlocal.symm)
        · cases hrun

theorem hands_setRunning (hp : Sound p helper) :
    p.Hands (p.setRunning helper true).1 (p.setRunning helper true).2 := by
  unfold setRunning start
  dsimp only
  split_ifs with hsame hstart hscrub
  · exact .none
  · refine ⟨rfl, fun c hc => ?_, fun c hc => ?_⟩
    · rcases hc with hexec | ⟨-, hlocal⟩ | ⟨-, hrun, -⟩
      · exact Or.inl (Or.inl hexec)
      · exact Or.inr (List.mem_singleton.mpr hlocal.symm)
      · cases hrun
    · rw [List.mem_singleton.mp hc]
      cases hcommand : p.command with
      | scrub => rfl
      | empty | bw run => simp [hcommand, Command.isScrub] at hscrub
  · have hset : Sound { p with running := true } helper := { hp with }
    obtain ⟨hnext, hnew⟩ := hset.next
    have hhands := hands_vaultStart hnext
    refine ⟨hhands.command, fun c hc => (hhands.inFlight c hc).imp_left ?_, hhands.sent⟩
    rintro (hexec | hhere | ⟨-, -, hmem⟩)
    · exact Or.inl hexec
    · exact Or.inr (Or.inl hhere)
    · exact absurd rfl (hnew _ hmem)
  · refine { Hands.none with inFlight := fun c hc => Or.inl ?_ }
    rcases hc with hexec | hhere | ⟨-, hrun, -⟩
    · exact Or.inl hexec
    · exact Or.inr (Or.inl hhere)
    · exact absurd hrun (by simpa using hstart)

theorem hands_flush (hp : Sound p .awaited) (helper : Helper) :
    p.Hands (p.flush helper).1 (p.flush helper).2 := by
  unfold flush
  split_ifs with hwaiting hrunning
  · have hhands := hands_vaultStart (hp.ready helper)
    exact { hhands with }
  · exact { Hands.none with inFlight := fun _ hc => Or.inl hc }
  · exact .none

/-- Only what waited is handed over when the helper arrives. -/
theorem waits_of_mem_flush {c : Command κ} (hc : c ∈ (p.flush helper).1) :
    p.waiting ∧ p.running := by
  unfold flush at hc
  split_ifs at hc with hwaiting hrunning
  · exact ⟨hwaiting, hrunning⟩
  · cases hc
  · cases hc

theorem waits_of_flush (hwaiting : (p.flush helper).2.waiting)
    (hrunning : (p.flush helper).2.running) : p.waiting ∧ p.running := by
  unfold flush at hwaiting hrunning
  split_ifs at hwaiting hrunning with hw hr
  · exact ⟨hw, hr⟩
  · exact ⟨hwaiting, hrunning⟩

/-! ## What a process does by itself -/

theorem goes_helperExit : p.Goes p.helperExit.1 p.helperExit.2 := by
  unfold helperExit
  split_ifs with hexec
  · exact .of_finish rfl rfl
  · exact .refl

theorem goes_localExit (hp : Sound p helper) :
    p.Goes (p.localExit out).1.isSome (p.localExit out).2 := by
  unfold localExit
  split_ifs with hstopped hscrub hhere
  · exact .refl
  · exact .of_finish (hp.exec_none (by simp [hhere])) rfl
  · exact .quiet rfl rfl rfl fun _ hc => hc
  · have hrun := (hp.localRead (by simpa using hstopped) (by simpa using hscrub)).1
    exact .of_finish (hp.exec_none (by simp [hrun])) rfl

theorem goes_runLaunch (hp : Sound p helper) : p.Goes p.runLaunch.1 p.runLaunch.2 := by
  unfold runLaunch
  cases hl : p.launches with
  | nil => exact .refl
  | cons launch launches =>
    obtain ⟨command, seq⟩ := launch
    obtain rfl := hp.launches (by simp [hl])
    have hexec : p.exec = none := hp.exec_none_of_ne (by decide)
    dsimp only [launchLocal]
    split_ifs with hseq hstopped hbusy
    · refine .quiet rfl rfl rfl fun c hc => ?_
      rcases hc with hsome | hhere | ⟨hrunning, hrun, hmem⟩
      · exact Or.inl hsome
      · exact Or.inr (Or.inl hhere)
      · exact Or.inr (Or.inr ⟨hrunning, hrun, by rw [hl]; exact List.mem_cons_of_mem _ hmem⟩)
    · exact .of_finish hexec rfl
    · refine .quiet rfl rfl rfl fun c hc => ?_
      rcases hc with hsome | hhere | ⟨hrunning, hrun, hmem⟩
      · exact Or.inl hsome
      · exact Or.inr (Or.inl hhere)
      · refine Or.inr (Or.inr ⟨hrunning, hrun, ?_⟩)
        rw [hl]
        simpa [or_comm] using hmem
    · refine .quiet rfl rfl rfl fun c hc => ?_
      rcases hc with hsome | ⟨-, rfl⟩ | ⟨-, hrun, -⟩
      · exact Or.inl hsome
      · -- The launch is this start's, and it was not running before.
        have hseq : seq = p.startSeq := by simpa using hseq
        have hrun : p.runId = .none := by
          cases hrun : p.runId with
          | none => rfl
          | here => exact absurd (hp.here hrun) hbusy
          | helper => cases hp.active hrun
        refine Or.inr (Or.inr ⟨by simpa using hstopped, hrun, ?_⟩)
        rw [hl, ← hseq]
        exact List.mem_cons_self
      · cases hrun

theorem goes_runClear (hp : Sound p helper) : p.Goes false p.runClear := by
  unfold runClear
  split_ifs with hzero hrunning
  · exact .refl
  · exact .quiet rfl rfl rfl fun _ hc => hc
  · refine .quiet rfl rfl rfl fun c hc => ?_
    rcases hc with hsome | ⟨hhere, -⟩ | hlaunch
    · exact Or.inl hsome
    · exact absurd (hp.here hhere) hrunning
    · exact Or.inr (Or.inr hlaunch)

/-- A killed run may still be in flight. -/
theorem goes_kill (helper : Helper) : p.Goes false (p.setRunning helper false).2 := by
  unfold setRunning
  split_ifs with hsame hstart
  · exact .refl
  · simp at hstart
  · refine ⟨rfl, nofun, fun c hc => ?_, nofun⟩
    rcases hc with hexec | hhere | ⟨hrunning, -⟩
    · exact Or.inl hexec
    · exact Or.inr (Or.inl hhere)
    · cases hrunning

/-! ## What ends was in flight -/

theorem helperExit_inFlight (hended : p.helperExit.1) : ∃ command, p.InFlight command := by
  unfold helperExit at hended
  split_ifs at hended with hexec
  obtain ⟨command, hcommand⟩ := Option.isSome_iff_exists.mp hexec
  exact ⟨command, Or.inl hcommand⟩

/-- The text is the run's own output, or the run was a scrub. -/
theorem localExit_inFlight (hp : Sound p helper) {text : String}
    (hended : (p.localExit out).1 = some text) :
    p.InFlight p.localCommand ∧ (p.localCommand.isScrub ∨ text = out) := by
  unfold localExit at hended
  split_ifs at hended with hstopped hscrub hhere
  · exact ⟨Or.inr (Or.inl ⟨hhere, rfl⟩), Or.inl hscrub⟩
  · have hrun := (hp.localRead (by simpa using hstopped) (by simpa using hscrub)).1
    exact ⟨Or.inr (Or.inl ⟨hrun, rfl⟩), Or.inr (Option.some.inj hended).symm⟩

end

end VaultProcess

end QsBitwarden.Panel
