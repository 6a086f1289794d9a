import QsBitwarden.Lib.Json
import QsBitwarden.Lib.Trace

/-!
# Panel — the SSH agent's supervisor (`BitwardenModel.js`)

One pure transition decides when the agent's helper is started, stopped and restarted, and when the
signing gate is open. It is given every event with the clock, and returns the next state with the
side effects to perform.

* **`parseAgentEvent`** — one line of the helper's output; `JSON.parse` comes from outside.
* **`sshAgentReduce`** — the transition.
* **`machine`** — its runs, over every sequence of events.
-/

namespace QsBitwarden.Panel.Supervisor

open Json

def controlVersion : Nat := 1
def maxLineBytes : Nat := 64 * 1024
def backoffBaseMs : Nat := 500
def backoffMaxMs : Nat := 30000
def maxRestarts : Nat := 5
def healthyMs : Int := 60 * 1000
def elsewhereRetryMs : Nat := 30 * 1000

/-- Messages the helper may send. -/
def eventTypes : List String :=
  ["ready", "unlock_required", "approval_required", "request_cancelled", "keys_loaded",
    "public_key", "locked", "load_failed", "grants_changed", "state_changed", "error"]

/-! ## Errors -/

inductive ErrorCode where
  | empty
  | malformed
  | lineTooLong
  | versionMismatch
  | unknownType
  | protocol
  | handshakeTimeout
  | exited
  | crashLoop
  | elsewhere
  deriving DecidableEq

def sshAgentErrorMessage : ErrorCode → String
  | .malformed => "The SSH agent helper sent something the panel could not read."
  | .lineTooLong => "The SSH agent helper sent an oversized message."
  | .versionMismatch | .unknownType =>
    "The SSH agent helper does not match this version of the plugin."
  | .protocol => "The SSH agent helper broke its side of the control protocol."
  | .handshakeTimeout => "The SSH agent helper did not finish starting up."
  | .crashLoop => "The SSH agent helper keeps failing to start, so it has been left off."
  | .elsewhere =>
    "Another process is already serving the SSH agent on this machine -- another " ++
      "Omarchy shell, most likely. This one is standing by and will take over when it stops."
  -- A code without a text of its own gets that of an exit.
  | .exited | .empty => "The SSH agent helper stopped unexpectedly."

/-! ## One line of the helper's output -/

/-- Bytes, or UTF-16 units for a line that is over the cap in those already. -/
def utf8ByteLength (text : String) : Nat :=
  let units := (text.toList.map fun c => if c.toNat < 0x10000 then 1 else 2).sum
  if maxLineBytes < units then units else text.utf8ByteSize

/-- `JSON.parse` reads `1.0` as the same number as `1`. -/
def isControlVersion : Option Value → Bool
  | some (.number (.posInt n)) => n = controlVersion
  | some (.number (.float bits)) => bits = 0x3ff0000000000000
  | _ => false

inductive Parsed where
  | message (fields : Fields)
  | refused (code : ErrorCode) (fatal : Bool)

/-- The non-empty string under a key. -/
def filled (fields : Fields) (key : String) : Option String :=
  match fields.lookup key with
  | some (.string text) => if text = "" then none else some text
  | _ => none

def messageType (fields : Fields) : Option String := (fields.lookup "type").bind Value.asStr

def dropLast (c : Char) (text : List Char) : List Char :=
  if text.getLast? = some c then text.dropLast else text

/-- Only a blank line is not fatal. -/
def parseAgentEvent (parse : String → Option Value) (line : String) : Parsed :=
  let text := String.ofList (dropLast '\r' (dropLast '\n' line.toList))
  if text = "" then .refused .empty false
  else if maxLineBytes < utf8ByteLength text then .refused .lineTooLong true
  else
    match parse text with
    | some (.object fields) =>
      if !isControlVersion (fields.lookup "v") then .refused .versionMismatch true
      else
        match messageType fields with
        | none => .refused .unknownType true
        | some type =>
          if !eventTypes.contains type then .refused .unknownType true
          else if type = "ready" ∧ ((filled fields "socketPath").isNone ∨
              (filled fields "fifoPath").isNone ∨ (filled fields "agentVersion").isNone) then
            .refused .malformed true
          else .message fields
    | _ => .refused .malformed true

/-- 500 ms doubling to 30 s. -/
def sshAgentRestartDelayMs (failures : Nat) : Nat :=
  if failures < 1 then backoffBaseMs else min backoffMaxMs (backoffBaseMs * 2 ^ (failures - 1))

/-! ## The state -/

inductive Phase where
  /-- Nothing runs or is scheduled. -/
  | disabled
  /-- The process was launched. -/
  | starting
  /-- `hello` was sent. -/
  | handshaking
  /-- The only phase with an open gate. -/
  | ready
  /-- A failure was seen mid-run; waiting for the child to exit. -/
  | restarting
  /-- The restart timer is armed. -/
  | backoff
  /-- The runtime lock is held by another process. -/
  | elsewhere
  /-- The restart cap is reached; off until enabled again. -/
  | failed
  deriving DecidableEq

/-- Off: no event but `enabled` does anything. -/
def Phase.off (phase : Phase) : Bool := phase = .disabled || phase = .failed

/-- A restart is scheduled. -/
def Phase.waiting (phase : Phase) : Bool := phase = .backoff || phase = .elsewhere

structure State where
  phase : Phase
  gateOpen : Bool
  socketPath : String
  fifoPath : String
  agentVersion : String
  failures : Nat
  readyAtMs : Int
  errorCode : Option ErrorCode
  errorMessage : String
  deriving DecidableEq

def sshAgentInitialState : State where
  phase := .disabled
  gateOpen := false
  socketPath := ""
  fifoPath := ""
  agentVersion := ""
  failures := 0
  readyAtMs := 0
  errorCode := none
  errorMessage := ""

/-- The side effects to perform. -/
structure Action where
  start : Bool := false
  stop : Bool := false
  writeHello : Bool := false
  cancelRestart : Bool := false
  restartInMs : Option Nat := none
  message : Option Fields := none

inductive Kind where
  | enabled (value : Bool)
  | started
  | handshakeTimeout
  | line (text : String)
  | exited (lockHeld : Bool)
  | restartTimer
  deriving DecidableEq

structure Event where
  kind : Kind
  nowMs : Int
  deriving DecidableEq

/-! ## The transition -/

namespace State

variable (s : State)

def withError (code : ErrorCode) : State :=
  { s with errorCode := some code, errorMessage := sshAgentErrorMessage code }

/-- The gate is shut and what the helper announced is gone. -/
def gone : State := { s with gateOpen := false, socketPath := "", fifoPath := "", agentVersion := "" }

/-- A failure noticed while the child is still alive; the restart is decided when it exits. -/
def sshAgentFailMidRun (code : ErrorCode) : State × Action :=
  ({ s with gateOpen := false, phase := .restarting }.withError code,
    { stop := true, cancelRestart := true })

/-- The run got ready and lasted. -/
def wasHealthy (nowMs : Int) : Bool := 0 < s.readyAtMs && healthyMs ≤ nowMs - s.readyAtMs

/-- A run that lasted clears the history behind it. -/
def failuresOnExit (nowMs : Int) : Nat := (if s.wasHealthy nowMs then 0 else s.failures) + 1

/-- A run has ended. An error noticed while it was alive stays. -/
def ended (nowMs : Int) : State :=
  { s.gone with
    readyAtMs := 0
    failures := s.failuresOnExit nowMs
    errorCode := some (s.errorCode.getD .exited)
    errorMessage := if s.errorCode.isNone then sshAgentErrorMessage .exited else s.errorMessage }

/-- Passing the cap turns the feature off rather than restarting for ever. -/
def sshAgentFailOnExit (nowMs : Int) : State × Action :=
  if maxRestarts < s.failuresOnExit nowMs then
    ({ s.ended nowMs with phase := .failed }.withError .crashLoop, {})
  else
    ({ s.ended nowMs with phase := .backoff },
      { restartInMs := some (sshAgentRestartDelayMs (s.failuresOnExit nowMs)) })

/-- `ready` opens the gate. The failures stay: only a run that lasts clears them, at its exit. -/
def onReady (fields : Fields) (nowMs : Int) : State :=
  { s with
    phase := .ready
    gateOpen := true
    socketPath := (filled fields "socketPath").getD ""
    fifoPath := (filled fields "fifoPath").getD ""
    agentVersion := (filled fields "agentVersion").getD ""
    readyAtMs := nowMs
    errorCode := none
    errorMessage := "" }

/-- `ready` answers `hello` exactly once; anything out of order fails. -/
def onLine (parse : String → Option Value) (line : String) (nowMs : Int) : State × Action :=
  match parseAgentEvent parse line with
  | .refused _ false => (s, {})
  | .refused code true => s.sshAgentFailMidRun code
  | .message fields =>
    let isReady : Bool := messageType fields = some "ready"
    if isReady ≠ decide (s.phase = .handshaking) then s.sshAgentFailMidRun .protocol
    else if isReady then (s.onReady fields nowMs, {})
    else (s, { message := some fields })

/-- Enabling again is the deliberate reset: it clears a crash-loop verdict and the failures. -/
def onEnabled : State × Action :=
  if s.phase.off then ({ sshAgentInitialState with phase := .starting }, { start := true })
  else (s, {})

def onDisabled : State × Action :=
  if s.phase = .disabled then (s, {})
  else (sshAgentInitialState, { stop := true, cancelRestart := true })

/-- The runtime lock is held by another process: a wait, not a crash. -/
def onElsewhere : State × Action :=
  ({ s.gone with phase := .elsewhere }.withError .elsewhere,
    { restartInMs := some elsewhereRetryMs })

end State

def sshAgentReduce (parse : String → Option Value) (s : State) (event : Event) : State × Action :=
  match event.kind with
  | .enabled false => s.onDisabled
  | .enabled true => s.onEnabled
  | kind =>
    if s.phase.off then (s, {})
    else
      match kind with
      | .started =>
        if s.phase = .starting then ({ s with phase := .handshaking }, { writeHello := true })
        else (s, {})
      | .handshakeTimeout =>
        if s.phase = .starting ∨ s.phase = .handshaking then
          s.sshAgentFailMidRun .handshakeTimeout
        else (s, {})
      | .line line =>
        if s.phase = .handshaking ∨ s.phase = .ready then s.onLine parse line event.nowMs
        else (s, {})
      | .exited lockHeld =>
        if lockHeld ∧ s.readyAtMs = 0 then s.onElsewhere else s.sshAgentFailOnExit event.nowMs
      | .restartTimer =>
        if s.phase.waiting then ({ s with phase := .starting }, { start := true }) else (s, {})
      | .enabled _ => (s, {})

/-! ## Runs -/

/-- An event of a run, and the state it found. -/
abbrev Step := Trace.Record State Event

/-- The supervisor, given any events at all. -/
def machine (parse : String → Option Value) : Trace.Machine State Event where
  init := sshAgentInitialState
  next s event := (sshAgentReduce parse s event).1
  may _ _ _ := True

end QsBitwarden.Panel.Supervisor
