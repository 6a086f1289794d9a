import QsBitwarden.Lib.Trace
import QsBitwarden.Agent.Loop

/-!
# Panel — SSH prompts (`Service.qml`, `BitwardenModel.js`)

The panel shows one signing request at a time, in one of two slots: an `approval_required`, or an
`unlock_required`, which becomes an approval prompt once the vault is unlocked and before the agent
has its keys. Each slot has a queue behind it.

* **`SshPrompts`** — the slots, the queues, and the request a shown prompt was promoted from.
* **`step`** — every message of the agent, change of status, click and timer, with the lines it
  makes the panel write.
* **`machine`** — the runs: the agent gives each request an id of its own.
-/

namespace QsBitwarden.Panel

open Agent (CancelReason UnlockReason)

/-! ## Messages and views -/

/-- The type of a message that asks, with the field only that type has. -/
inductive Asks where
  | approval (keyId : String)
  | unlock (reason : UnlockReason)
  deriving DecidableEq

/-- An `approval_required` or an `unlock_required` of the agent. -/
structure Message where
  asks : Asks
  prompt : Agent.Prompt
  deriving DecidableEq

namespace Message

variable (message : Message)

def requestId : Nat := message.prompt.requestId

/-- It is an `approval_required`. -/
def approves : Bool :=
  match message.asks with
  | .approval _ => true
  | .unlock _ => false

/-- The reason is `list-identities`. -/
def listing : Bool := message.asks = .unlock .listIdentities

end Message

def approvalWindowMaxSec : Nat := 900

/-- What is drawn. The texts are drawn from the message. -/
structure View where
  requestId : Nat
  message : Message
  grantSeconds : Nat
  deriving DecidableEq

/-- A grant is offered only if the agent did, a window is set, and the request is not forwarded. -/
def sshAgentPromptView (message : Message) (approvalWindowSec : Nat) : View :=
  let window := min approvalWindowMaxSec approvalWindowSec
  let grantOffered := message.prompt.grantOffered && 0 < window && !message.prompt.forwarded
  ⟨message.requestId, message, if grantOffered then window else 0⟩

/-- An approval is the release of a held request: the same program, key and kind of signature. -/
def sshAgentSameRequest (unlock approval : Message) : Bool :=
  let a := unlock.prompt
  let b := approval.prompt
  a.fingerprint == b.fingerprint && a.pid == b.pid && a.processPath == b.processPath &&
    a.operation == b.operation && a.operationDetail == b.operationDetail &&
    a.hostKey == b.hostKey && a.forwarded == b.forwarded && a.grantOffered == b.grantOffered &&
    a.fingerprint != ""

def sshAgentEnqueuePrompt (queue : List Message) (message : Message) (maxQueue : Nat) :
    List Message :=
  if queue.any fun item => item.requestId = message.requestId then queue
  else if maxQueue ≤ queue.length then queue
  else queue ++ [message]

def sshAgentRemovePrompt (queue : List Message) (requestId : Nat) : List Message :=
  queue.filter fun item => item.requestId ≠ requestId

/-! ## The slots -/

structure SshPrompts where
  /-- `sshPrompt`. -/
  prompt : Option View
  promptQueue : List Message
  /-- `sshPromotedOldId` and `sshPromotedRaw`, which are set and cleared together. -/
  promoted : Option (Nat × Message)
  /-- `sshUnlockRaw`. `sshUnlockRequest` is its view. -/
  unlock : Option Message
  unlockQueue : List Message
  /-- The status is `unlocked`. -/
  unlocked : Bool
  approvalWindowSec : Nat
  deriving DecidableEq

/-- What a click writes to the agent. -/
inductive Line where
  | approve (requestId grantSeconds : Nat)
  | deny (requestId : Nat)
  | unlockCancelled (requestId : Nat)
  deriving DecidableEq

def Line.requestId : Line → Nat
  | .approve requestId _ | .deny requestId | .unlockCancelled requestId => requestId

def sshAgentApproveLine (requestId grantSeconds : Nat) : Line :=
  .approve requestId (min grantSeconds approvalWindowMaxSec)

namespace SshPrompts

def new (approvalWindowSec : Nat) : SshPrompts := ⟨none, [], none, none, [], false, approvalWindowSec⟩

variable (s : SshPrompts)

def sshUnlockRequest : Option View := s.unlock.map (sshAgentPromptView · 0)

/-- What is on screen. -/
def shown : Option View := s.prompt.or s.sshUnlockRequest

def showSshApproval (message : Message) : SshPrompts :=
  { s with prompt := some (sshAgentPromptView message s.approvalWindowSec) }

def dismissSshApproval : SshPrompts :=
  { s with prompt := none, promptQueue := [], promoted := none, unlock := none, unlockQueue := [] }

def advanceSshPrompt : SshPrompts :=
  match s.promptQueue with
  | [] => s.dismissSshApproval
  | next :: remaining => { s with promptQueue := remaining }.showSshApproval next

def advanceSshUnlock : SshPrompts :=
  match s.unlockQueue with
  | [] => s.dismissSshApproval
  | next :: remaining => { s with unlock := some next, unlockQueue := remaining }

/-! ## Clicks -/

def approveSshRequest (grantSeconds : Nat) : List Line × SshPrompts :=
  match s.prompt with
  | none => ([], s)
  | some view => ([sshAgentApproveLine view.requestId grantSeconds], s.advanceSshPrompt)

def denySshRequest : List Line × SshPrompts :=
  match s.unlock with
  | some raw => ([.unlockCancelled raw.requestId], s.advanceSshUnlock)
  | none =>
    match s.prompt with
    | some view => ([.deny view.requestId], s.advanceSshPrompt)
    | none => ([], s.dismissSshApproval)

def denyAllSshRequests : List Line × SshPrompts :=
  -- A queued id that is zero is taken for a missing one.
  let queued (queue : List Message) := (queue.map (·.requestId)).filter (· ≠ 0)
  (s.prompt.toList.map (.deny ·.requestId) ++ (queued s.promptQueue).map .deny ++
    s.unlock.toList.map (.unlockCancelled ·.requestId) ++
    (queued s.unlockQueue).map .unlockCancelled, s.dismissSshApproval)

/-- The countdown ran out. The agent expires the request; this only stops showing it. -/
def expireSshRequest : SshPrompts :=
  if s.prompt.isNone && s.unlock.isNone then s else s.dismissSshApproval

/-! ## Messages of the agent -/

/-- The first `approval_required` that is the promoted request gives the prompt its id. -/
def adoptSshPrompt (message : Message) : Option SshPrompts :=
  match s.promoted, s.prompt with
  | some (_, raw), some view =>
    if sshAgentSameRequest raw message then
      some { s with
        prompt := some { view with requestId := message.requestId }
        promoted := none }
    else none
  | _, _ => none

/-- `mayPrompt` is `sshAgentMayPrompt()`: the screen is not locked and no cooldown is on. -/
def onApprovalRequired (message : Message) (mayPrompt : Bool) : List Line × SshPrompts :=
  if !mayPrompt then ([.deny message.requestId], s)
  else
    match s.adoptSshPrompt message with
    | some s => ([], s)
    | none =>
      if s.prompt.isSome then
        ([], { s with promptQueue := sshAgentEnqueuePrompt s.promptQueue message 4 })
      else ([], s.showSshApproval message)

def onUnlockRequired (message : Message) (mayPrompt : Bool) : List Line × SshPrompts :=
  if !mayPrompt then ([.unlockCancelled message.requestId], s)
  else if s.unlock.isSome then
    ([], { s with unlockQueue := sshAgentEnqueuePrompt s.unlockQueue message 4 })
  else ([], { s with unlock := some message })

/-- A released sign request comes back as an approval, so its prompt stays for it; a released
listing is already answered. -/
def onRequestCancelled (requestId : Nat) (reason : CancelReason) : SshPrompts :=
  if s.shown.any fun live => live.requestId = requestId then
    if reason = .released && !s.unlock.any (·.listing) then s
    else if s.prompt.isSome && !s.promptQueue.isEmpty then s.advanceSshPrompt
    else if s.unlock.isSome && !s.unlockQueue.isEmpty then s.advanceSshUnlock
    else s.dismissSshApproval
  else
    { s with
      promptQueue := sshAgentRemovePrompt s.promptQueue requestId
      unlockQueue := sshAgentRemovePrompt s.unlockQueue requestId }

/-- Unlocked but keys still loading: ask for approval now. A listing needs none. -/
def promoteUnlockToApproval : SshPrompts :=
  match s.unlock with
  | none => s
  | some raw =>
    if !s.unlocked || s.prompt.isSome || raw.listing then s
    else
      { s with
        promoted := some (raw.requestId, raw)
        unlock := none
        unlockQueue := [] }.showSshApproval raw

end SshPrompts

/-! ## Runs -/

inductive Event where
  | request (message : Message) (mayPrompt : Bool)
  | requestCancelled (requestId : Nat) (reason : CancelReason)
  /-- The vault's status changed. -/
  | status (unlocked : Bool)
  | approve (grantSeconds : Nat)
  | deny
  | denyAll
  | expire
  /-- The preference was changed. -/
  | approvalWindow (seconds : Nat)
  deriving DecidableEq

def SshPrompts.step (s : SshPrompts) : Event → List Line × SshPrompts
  | .request message mayPrompt =>
    match message.asks with
    | .approval _ => s.onApprovalRequired message mayPrompt
    | .unlock _ => s.onUnlockRequired message mayPrompt
  | .requestCancelled requestId reason => ([], s.onRequestCancelled requestId reason)
  -- The property signals a change only, so the same status again does nothing.
  | .status unlocked =>
    ([], if s.unlocked = unlocked then s else { s with unlocked }.promoteUnlockToApproval)
  | .approve grantSeconds => s.approveSshRequest grantSeconds
  | .deny => s.denySshRequest
  | .denyAll => s.denyAllSshRequests
  | .expire => ([], s.expireSshRequest)
  | .approvalWindow seconds => ([], { s with approvalWindowSec := seconds })

/-- The request a message announces. -/
def Event.announces : Event → Option Message
  | .request message _ => some message
  | _ => none

/-- An event of a run, and the slots it found. -/
abbrev Step := Trace.Record SshPrompts Event

/-- The agent announces each id once. -/
def Announceable (h : List Step) (event : Event) : Prop :=
  ∀ message ∈ event.announces, ∀ t ∈ h, ∀ other ∈ t.event.announces,
    other.requestId ≠ message.requestId

instance (h : List Step) (event : Event) : Decidable (Announceable h event) := by
  unfold Announceable; infer_instance

/-- The panel, started with a preference for the window. -/
def machine (approvalWindowSec : Nat) : Trace.Machine SshPrompts Event where
  init := .new approvalWindowSec
  next s event := (s.step event).2
  may h _ event := Announceable h event

instance (approvalWindowSec : Nat) (h : List Step) (s : SshPrompts) (event : Event) :
    Decidable ((machine approvalWindowSec).may h s event) :=
  inferInstanceAs (Decidable (Announceable h event))

end QsBitwarden.Panel
