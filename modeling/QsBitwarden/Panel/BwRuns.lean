import QsBitwarden.Lib.Trace
import QsBitwarden.Panel.VaultProcess

/-!
# Panel — which run answers a request (`VaultProcess.qml`, `Service.qml`)

The life of one `VaultProcess` from its caller's side: every time `running` becomes true is a
*request*, and every `exited` answers one. Requests are numbered here; no code reads the number.

* **`Setup`** — what the caller sets with `running`. `κ` is a command with its environment and what
  goes to its stdin.
* **`Launch`** — a process, with the request it was launched for; a clear of the local collectors is
  for none.
* **`Run`** — the process and the part of the vault's state that belongs to it; `Run.step` is one
  event, with the signals it gives.
* **`machine`** — every interleaving of the caller, the helper, local processes and deferred calls.
-/

namespace QsBitwarden.Panel.BwRuns

/-- What becomes of the output. -/
inductive Capture where
  | plain
  /-- `secret:<name>`: held back from the collectors. -/
  | secret
  /-- `pinentry:<name>`: only ever run by the helper. -/
  | pinentry
  deriving DecidableEq

structure Setup (κ : Type) where
  command : Command κ
  capture : Capture
  deriving DecidableEq

structure Launch (κ : Type) where
  request : Option Nat
  command : Command κ
  deriving DecidableEq

/-- What the caller's collectors hold. -/
inductive Held (κ : Type) where
  | nothing
  | output (launch : Launch κ)
  /-- A message in the place of an output. -/
  | message
  deriving DecidableEq

/-- What an `exited` reports. -/
inductive Ended (κ : Type) where
  | process (launch : Launch κ)
  /-- There is no helper for this request, or it went away. -/
  | failed (request : Option Nat)
  /-- A deferred start was cancelled. -/
  | cancelled (request : Option Nat)
  deriving DecidableEq

/-- The request that has ended. -/
def Ended.request {κ : Type} : Ended κ → Option Nat
  | .process launch => launch.request
  | .failed request | .cancelled request => request

inductive Signal (κ : Type) where
  /-- `running` became true. -/
  | requested (request : Nat) (setup : Setup κ)
  | launched (launch : Launch κ)
  | exited (ended : Ended κ) (held : Held κ)
  deriving DecidableEq

/-- `vaultHelperState`. -/
inductive HelperState where
  /-- `pending`, `starting` or `stopped`. -/
  | awaited
  | active
  /-- Its process has ended, and its runs have not failed yet. -/
  | gone
  | fallback
  deriving DecidableEq

structure Run (κ : Type) where
  setup : Setup κ
  /-- The number of the last request. -/
  request : Nat
  running : Bool
  runId : RunId
  startSeq : Nat
  helper : HelperState
  /-- The run `vaultRuns` has this process for. -/
  exec : Option (Launch κ)
  /-- The process of `local`, and its `command`, which may have been set since. -/
  child : Option (Launch κ)
  localCommand : Command κ
  /-- Deferred calls of `launchLocal`, with their `seq`. -/
  launches : List (Launch κ × Nat)
  /-- Deferred clears of the local collectors. -/
  clears : Nat
  /-- Deferred ends of runs that only the helper may do, by request. -/
  failures : List Nat
  /-- It is in `vaultWaiting`. -/
  waiting : Bool
  held : Held κ
  deriving DecidableEq

namespace Run

variable {κ : Type}

def new : Run κ where
  setup := ⟨.empty, .plain⟩
  request := 0
  running := false
  runId := .none
  startSeq := 0
  helper := .awaited
  exec := none
  child := none
  localCommand := .empty
  launches := []
  clears := 0
  failures := []
  waiting := false
  held := .nothing

abbrev Out (κ : Type) := List (Signal κ) × Run κ

variable (p : Run κ)

/-- A process launched now for the caller. -/
def launch : Launch κ := ⟨some p.request, p.setup.command⟩

/-! ## The code -/

def finish (ended : Ended κ) (held : Held κ) : Out κ :=
  ([.exited ended held], { p with held, runId := .none, running := false })

/-- `local.running = true`. A process that runs already goes on. -/
def startLocal (launch : Launch κ) : Out κ :=
  if p.child.isSome then ([], p) else ([.launched launch], { p with child := some launch })

def launchLocal (launch : Launch κ) (seq : Nat) : Out κ :=
  if seq ≠ p.startSeq then ([], p)
  else if !p.running then p.finish (.cancelled launch.request) .nothing
  else if p.child.isSome then ([], { p with launches := p.launches ++ [(launch, seq)] })
  else { p with runId := .here, localCommand := launch.command }.startLocal launch

def vaultStart : Out κ :=
  match p.helper with
  | .awaited | .gone => ([], { p with waiting := true })
  | .active => ([.launched p.launch], { p with runId := .helper, exec := some p.launch })
  | .fallback =>
    if p.setup.capture = Capture.pinentry then ([], { p with failures := p.failures ++ [p.request] })
    else p.launchLocal p.launch p.startSeq

/-- A scrub only empties the collectors, here. -/
def start : Out κ :=
  let p := { p with startSeq := p.startSeq + 1 }
  if p.setup.command.isScrub then
    { p with held := .nothing, localCommand := .scrub, runId := .here }.startLocal p.launch
  else p.vaultStart

/-- `command = …; running = true`. If it was false, this is a request. -/
def requestRun (setup : Setup κ) : Out κ :=
  if p.running then ([], { p with setup })
  else
    let p := { p with setup, request := p.request + 1, running := true }
    let started := if p.runId = .none then p.start else ([], p)
    (.requested p.request setup :: started.1, started.2)

/-- `running = false`. A kill is a signal to the run, whose end comes later. -/
def cancel : Out κ := ([], { p with running := false })

/-- `flushVaultWaiting`, for this process. -/
def flush (helper : HelperState) : Out κ :=
  let waits := p.waiting && p.running
  let p := { p with helper, waiting := false }
  if waits then p.vaultStart else ([], p)

/-- The helper reports the end of the run. -/
def helperExit : Out κ :=
  match p.exec with
  | some launch => { p with exec := none }.finish (.process launch) (.output launch)
  | none => ([], p)

/-- The end of the helper's process is handled: its runs fail. -/
def runsFail : Out κ :=
  let p := { p with helper := .awaited }
  match p.exec with
  | some launch => { p with exec := none }.finish (.failed launch.request) .message
  | none => ([], p)

/-- `local.onExited`. -/
def localExit : Out κ :=
  match p.child with
  | none => ([], p)
  | some launch =>
    let p := { p with child := none }
    if p.localCommand.isScrub then
      if p.runId = .here then p.finish (.process launch) .nothing else ([], p)
    else
      { p with clears := p.clears + 1 }.finish (.process launch)
        (if p.setup.capture = Capture.secret then .nothing else .output launch)

/-- A deferred `launchLocal` is called. -/
def runLaunch : Out κ :=
  match p.launches with
  | [] => ([], p)
  | (launch, seq) :: launches => { p with launches }.launchLocal launch seq

/-- A deferred clear is called. -/
def runClear : Out κ :=
  if p.clears = 0 then ([], p)
  else if p.child.isSome then ([], { p with clears := p.clears - 1 })
  else { p with clears := p.clears - 1, localCommand := .scrub }.startLocal ⟨none, .scrub⟩

/-- The deferred end of a run that only the helper may do. -/
def runFailure : Out κ :=
  match p.failures with
  | [] => ([], p)
  | request :: failures => { p with failures }.finish (.failed (some request)) .message

end Run

/-! ## Runs -/

inductive Event (κ : Type) where
  | request (setup : Setup κ)
  | cancel
  | ready
  | giveUp
  | lost
  | runsFail
  | helperExit
  | localExit
  | runLaunch
  | runClear
  | runFailure
  deriving DecidableEq

variable {κ : Type}

def Run.step (p : Run κ) : Event κ → Run.Out κ
  | .request setup => p.requestRun setup
  | .cancel => p.cancel
  | .ready => p.flush .active
  | .giveUp => p.flush .fallback
  | .lost => ([], { p with helper := .gone })
  | .runsFail => p.runsFail
  | .helperExit => p.helperExit
  | .localExit => p.localExit
  | .runLaunch => p.runLaunch
  | .runClear => p.runClear
  | .runFailure => p.runFailure

/-- A helper answers or is given up on while it is awaited; it can only go away when it was there. -/
def Event.may (helper : HelperState) : Event κ → Bool
  | .ready | .giveUp => helper = .awaited
  | .lost => helper = .active
  | .runsFail => helper = .gone
  | _ => true

def machine : Trace.Machine (Run κ) (Event κ) where
  init := .new
  next p event := (p.step event).2
  may _ p event := event.may p.helper

instance (h : List (Trace.Record (Run κ) (Event κ))) (p : Run κ) (event : Event κ) :
    Decidable (machine.may h p event) :=
  inferInstanceAs (Decidable (event.may p.helper = true))

abbrev Step (κ : Type) := Trace.Record (Run κ) (Event κ)

def signals (t : Step κ) : List (Signal κ) := (t.before.step t.event).1

/-- Everything that was signalled, oldest first. -/
def done : List (Step κ) → List (Signal κ)
  | [] => []
  | t :: h => done h ++ signals t

end QsBitwarden.Panel.BwRuns
