import QsBitwarden.Panel.Supervisor

/-!
# Panel — the SSH agent's process (`Service.qml`)

What carries out the supervisor's actions: the helper's process, the probe that tells a lost runtime
lock from a crash, and the timers.

* **`Host`** — the processes and timers, around the supervisor's state. Every launched helper is
  numbered; no code reads the number.
* **`applySshAgentEvent`** — one event of the supervisor with its side effects.
* **`Signal`** — what becomes of each helper: launched, written to, ended, and its end reported.
* **`machine`** — the runs: a start is announced before an end, and a timer fires only when armed.

The control lines of an open gate are not written here, so the lines are `hello` and `shutdown`.
-/

namespace QsBitwarden.Panel.AgentProcess

open Json Supervisor

/-- A running helper. -/
structure Proc where
  run : Nat
  /-- `onStarted` was signalled. -/
  announced : Bool
  deriving DecidableEq

def Proc.announce (proc : Proc) : Proc := { proc with announced := true }

inductive Line where
  | hello
  | shutdown
  deriving DecidableEq

inductive Signal where
  | launched (run : Nat)
  | wrote (run : Nat) (line : Line)
  | exited (run : Nat)
  /-- An `exited` event reached the supervisor, for the end of this helper. -/
  | reported (run : Nat)
  deriving DecidableEq

structure Host where
  state : State
  /-- `sshAgentProc`: its `running` is whether there is one. -/
  proc : Option Proc
  stdinEnabled : Bool
  /-- `sshAgentLockProbeProc` runs, for the end of this helper. -/
  probe : Option Nat
  restartArmed : Bool
  terminateArmed : Bool
  /-- The number of helpers launched so far. -/
  runs : Nat
  deriving DecidableEq

def Host.new : Host := ⟨sshAgentInitialState, none, true, none, false, false, 0⟩

abbrev Out := List Signal × Host

/-- First the one, then the other on the state it leaves. -/
def Out.andThen (out : Out) (f : Host → Out) : Out := (out.1 ++ (f out.2).1, (f out.2).2)

namespace Host

variable (s : Host)

/-- Setting `running` while the process still runs does nothing. -/
def startSshAgentHelper : Out :=
  let s := { s with terminateArmed := false, stdinEnabled := true }
  match s.proc with
  | some _ => ([], s)
  | none => ([.launched s.runs], { s with proc := some ⟨s.runs, false⟩, runs := s.runs + 1 })

/-- Asks the helper to stop by closing its control channel; SIGTERM only if it does not exit. -/
def stopSshAgentHelper : Out :=
  match s.proc with
  | none => ([], { s with terminateArmed := false })
  | some proc =>
    if s.stdinEnabled then
      ([.wrote proc.run .shutdown], { s with stdinEnabled := false, terminateArmed := true })
    else ([], { s with terminateArmed := true })

def writeHello : Out :=
  match s.proc with
  | none => ([], s)
  | some proc => ([.wrote proc.run .hello], s)

/-- The supervisor's side effects, in order: a stop never leaves a restart armed. -/
def perform (action : Action) : Out :=
  let s := if action.cancelRestart then { s with restartArmed := false } else s
  (((if action.stop then s.stopSshAgentHelper else ([], s)).andThen fun s =>
    if action.writeHello then s.writeHello else ([], s)).andThen fun s =>
    ([], if action.restartInMs.isSome then { s with restartArmed := true } else s)).andThen fun s =>
    if action.start then s.startSshAgentHelper else ([], s)

def applySshAgentEvent (parse : String → Option Value) (event : Supervisor.Event) : Out :=
  let step := sshAgentReduce parse s.state event
  { s with state := step.1 }.perform step.2

/-- An `exited` event, for the end of this helper. -/
def report (parse : String → Option Value) (run : Nat) (lockHeld : Bool) (nowMs : Int) : Out :=
  Out.andThen ([.reported run], s) fun s =>
    s.applySshAgentEvent parse ⟨.exited lockHeld, nowMs⟩

/-- An exit before `ready` may be a lost runtime lock, so the lock is probed before reporting.
`command` is whether there is a probe to run. -/
def onSshAgentHelperExited (parse : String → Option Value) (run : Nat) (command : Bool)
    (nowMs : Int) : Out :=
  if (s.state.phase ≠ .starting ∧ s.state.phase ≠ .handshaking) ∨ !command ∨ s.probe.isSome then
    s.report parse run false nowMs
  else ([], { s with probe := some run })

end Host

/-! ## Runs -/

inductive Kind where
  | enabled (value : Bool)
  /-- The helper's `onStarted`. -/
  | started
  /-- The helper's `onExited`. -/
  | exited (command : Bool)
  /-- The probe's `onExited`. -/
  | probed (lockHeld : Bool)
  | line (text : String)
  | handshakeTimer
  | terminateTimer
  | restartTimer
  deriving DecidableEq

structure Event where
  kind : Kind
  nowMs : Int
  deriving DecidableEq

def Host.step (parse : String → Option Value) (s : Host) (event : Event) : Out :=
  match event.kind with
  | .enabled value => s.applySshAgentEvent parse ⟨.enabled value, event.nowMs⟩
  | .started =>
    { s with proc := s.proc.map .announce }.applySshAgentEvent parse ⟨.started, event.nowMs⟩
  | .exited command =>
    match s.proc with
    | none => ([], s)
    | some proc =>
      Out.andThen ([.exited proc.run], { s with proc := none, terminateArmed := false }) fun s =>
        s.onSshAgentHelperExited parse proc.run command event.nowMs
  | .probed lockHeld =>
    match s.probe with
    | none => ([], s)
    | some run => { s with probe := none }.report parse run lockHeld event.nowMs
  | .line text => s.applySshAgentEvent parse ⟨.line text, event.nowMs⟩
  | .handshakeTimer => s.applySshAgentEvent parse ⟨.handshakeTimeout, event.nowMs⟩
  -- A running process is sent SIGTERM, and its end is signalled when it comes.
  | .terminateTimer => ([], { s with terminateArmed := false })
  | .restartTimer =>
    { s with restartArmed := false }.applySshAgentEvent parse ⟨.restartTimer, event.nowMs⟩

/-- What the processes and timers may do next. -/
def Host.may (s : Host) : Kind → Bool
  | .started => s.proc.any fun proc => !proc.announced
  | .exited _ => s.proc.any fun proc => proc.announced
  | .probed _ => s.probe.isSome
  -- The timer's `running` is bound to these phases.
  | .handshakeTimer => s.state.phase = .starting || s.state.phase = .handshaking
  | .terminateTimer => s.terminateArmed
  | .restartTimer => s.restartArmed
  | .enabled _ | .line _ => true

/-- An event of a run, and the state it found. -/
abbrev Step := Trace.Record Host Event

def machine (parse : String → Option Value) : Trace.Machine Host Event where
  init := .new
  next s event := (s.step parse event).2
  may _ s event := s.may event.kind

instance (parse : String → Option Value) (h : List Step) (s : Host) (event : Event) :
    Decidable ((machine parse).may h s event) :=
  inferInstanceAs (Decidable (s.may event.kind = true))

end QsBitwarden.Panel.AgentProcess
