import Mathlib.Data.List.Sort
import QsBitwarden.Lib.Table
import QsBitwarden.Lib.Trace
import QsBitwarden.Agent.Load
import QsBitwarden.Agent.Server

/-!
# Agent — the main loop (`agent/src/main.rs`)

One task owns the key store, the approvals and every request in flight, and takes one event at a
time: a control line from the panel, a client's request, the result of a FIFO reader, a tick.

* **`State`** — the loop's variables. `log` collects what the current iteration does to the
  outside: messages emitted, requests answered, ids issued. An answer also records on what
  grounds it was given, which no code reads.
* **`handle`** — the body of the `select!`, one definition per function of the source.
* **`performed`** — `emit` fails when the output channel is full, and that ends the program on the
  spot. The handlers are written as if every `emit` succeeded; the iteration's effects are then
  cut at the first one that found no room.
* **`system`** — the runs: any interleaving of events, with a clock that never goes back, hash
  maps iterated in any order, and readers that may deliver long after their load was cancelled.
-/

namespace QsBitwarden.Agent

open SshWire

/-- What the loop is started with: the crates it calls, and facts of its process. -/
structure Env where
  ssh : Ssh
  serde : Serde
  hostKeyFingerprint : Bytes → String
  /-- `geteuid`. -/
  expectedUid : Nat
  socketPath : String
  fifoPath : String
  agentVersion : String

/-! ## Messages to the panel

Every one carries `v: 1`. -/

inductive CancelReason where
  | locked
  | loggedOut
  | loadFailed
  | cancelled
  | withdrawn
  | released
  | granted
  deriving DecidableEq

def CancelReason.text : CancelReason → String
  | .locked => "locked"
  | .loggedOut => "logged-out"
  | .loadFailed => "load-failed"
  | .cancelled => "cancelled"
  | .withdrawn => "withdrawn"
  | .released => "released"
  | .granted => "granted"

inductive UnlockReason where
  | sign
  | listIdentities
  deriving DecidableEq

def UnlockReason.text : UnlockReason → String
  | .sign => "sign"
  | .listIdentities => "list-identities"

/-- The fields `approval_required` and `unlock_required` share. -/
structure Prompt where
  requestId : Nat
  keyName : String
  fingerprint : String
  pid : Nat
  processPath : String
  operation : String
  operationDetail : String
  hostKey : String
  forwarded : Bool
  grantOffered : Bool
  deriving DecidableEq

structure GrantView where
  grantId : Nat
  keyName : String
  fingerprint : String
  pid : Nat
  processPath : String
  operation : String
  operationDetail : String
  hostKey : String
  expiresInSec : Nat
  deriving DecidableEq

inductive Output where
  | ready (socketPath fifoPath agentVersion : String)
  | approvalRequired (keyId : String) (prompt : Prompt)
  | locked (epoch : Nat)
  | loadFailed (epoch : Nat)
  | keysLoaded (epoch keyCount : Nat)
  | unlockRequired (reason : UnlockReason) (prompt : Prompt)
  | requestCancelled (requestId : Nat) (reason : CancelReason)
  | publicKey (epoch : Nat) (itemId name fingerprint publicKey : String)
  | grantsChanged (grants : List GrantView)
  deriving DecidableEq

/-! ## Requests in flight -/

/-- A sign request as it came from a client. -/
structure SignRequest where
  reply : Reply
  publicBlob : Bytes
  message : Bytes
  flags : Nat
  peer : PeerContext
  scope : SignScope
  deriving DecidableEq

structure PendingSign where
  reply : Reply
  message : Bytes
  flags : Nat
  deriving DecidableEq

/-- A signature asked for while locked. `approved` is the grant window, if the user approved
before the load finished. -/
structure HeldSign extends SignRequest where
  deadlineMs : Nat
  approved : Option Nat
  deriving DecidableEq

/-- Identity listings waiting on an unlock, sharing one request id; each with whether its
connection is forwarded. -/
structure HeldIdentities where
  requestId : Nat
  deadlineMs : Nat
  waiting : List (Reply × Bool)
  deriving DecidableEq

def heldLifetimeMs : Nat := requestLifetimeMs

inductive RuntimeError where
  | io
  | unsafeDirectory
  | unsafeFifo
  | unsafeLock
  | unsafeSocket
  | alreadyRunning
  | readTimeout
  deriving DecidableEq

/-- A load between `key_load_begin` and its end. `task` numbers the reader it spawned. -/
structure ActiveLoad where
  epoch : Nat
  window : LoadWindow
  payload : Option (Except RuntimeError Bytes)
  endReceived : Bool
  payloadDeadlineMs : Option Nat
  task : Nat

def loadEndGraceMs : Nat := 5000

def controlOutputCapacity : Nat := maxKeys + 1 + 2 * maxPending + 1 + 8

/-! ## Effects -/

/-- Why a request was failed. -/
inductive Refusal where
  /-- A lock, a logout, a new load, a denial, a tick. -/
  | withdrawn
  /-- The key is not the agent's. -/
  | unknownKey
  /-- The client is another user's, or there is no room to hold the request. -/
  | notHeld
  | submit (error : ApprovalError)
  | approve (error : ApprovalError)
  /-- A session bind, which the loop never serves. -/
  | sessionBind
  deriving DecidableEq

/-- What stands behind an attempt to sign. -/
inductive Ground where
  | grant
  /-- An approval of this request in the queue. -/
  | pending (id : Nat)
  /-- An approval of this request while it was held. -/
  | held (id : Nat)
  deriving DecidableEq

/-- The loop's state when a signature was attempted. -/
structure Moment (ssh : Ssh) where
  store : KeyStore ssh
  grants : List Grant
  nowMs : Nat

inductive Basis (ssh : Ssh) where
  | listing
  | refused (why : Refusal)
  | authorized (ground : Ground) (moment : Moment ssh)

inductive Effect (ssh : Ssh) where
  | emit (message : Output)
  | answer (reply : Reply) (response : Bytes) (basis : Basis ssh)
  /-- An id was taken from the sequence for this request. -/
  | issue (id : Nat) (reply : Reply)

/-! ## The state -/

/-- The clock, and how far it will have moved at each of the next readings. -/
structure Clock where
  millis : Nat
  delays : List Nat

def Clock.read (clock : Clock) : Clock :=
  match clock.delays with
  | [] => clock
  | delay :: delays => ⟨clock.millis + delay, delays⟩

structure State (ssh : Ssh) where
  store : KeyStore ssh
  approvals : ApprovalManager
  pending : Table Nat PendingSign
  held : Table Nat HeldSign
  heldIdentities : Option HeldIdentities
  unlockOnDemand : Bool
  grantSnapshot : List Nat
  activeLoad : Option ActiveLoad
  gateOpen : Bool
  handshakeComplete : Bool
  clock : Clock
  /-- Readers spawned so far. -/
  tasks : Nat
  log : List (Effect ssh)

namespace State

def new (env : Env) : State env.ssh where
  store := .new
  approvals := .new env.expectedUid
  pending := ∅
  held := ∅
  heldIdentities := none
  unlockOnDemand := false
  grantSnapshot := []
  activeLoad := none
  gateOpen := false
  handshakeComplete := false
  clock := ⟨0, []⟩
  tasks := 0
  log := []

variable {ssh : Ssh}

/-- `elapsed_ms` moves the clock on; `now` is what it then returned. -/
def readClock (a : State ssh) : State ssh := { a with clock := a.clock.read }

def now (a : State ssh) : Nat := min a.clock.millis Words.u64Max

def emit (a : State ssh) (message : Output) : State ssh :=
  { a with log := a.log ++ [.emit message] }

def answer (a : State ssh) (reply : Reply) (response : Bytes) (basis : Basis ssh) : State ssh :=
  { a with log := a.log ++ [.answer reply response basis] }

def issue (a : State ssh) (id : Nat) (reply : Reply) : State ssh :=
  { a with log := a.log ++ [.issue id reply] }

def refuse (a : State ssh) (reply : Reply) (why : Refusal) : State ssh :=
  a.answer reply failureResponse (.refused why)

def moment (a : State ssh) : Moment ssh := ⟨a.store, a.approvals.grants, a.now⟩

end State

/-! ## Signing and listing -/

variable {ssh : Ssh}

/-- Whether `authorize` permits the blob. It never panics on a well-formed store. -/
def KeyStore.authorizes (store : KeyStore ssh) (blob : Bytes) : Bool :=
  match store.authorize blob with
  | .ok (some _) => true
  | _ => false

def authorizedSignature (store : KeyStore ssh) (authorization : Authorization) (message : Bytes)
    (flags : Nat) : Bytes :=
  match authorization.finalize store with
  | none => failureResponse
  | some permit =>
    match store.sign permit message flags with
    | .ok (some signature) => (signatureResponse (ssh.signatureBytes signature)).getD failureResponse
    | _ => failureResponse

/-- A forwarded connection gets no item names. -/
def identitiesFor (store : KeyStore ssh) (forwarded : Bool) : Bytes :=
  identitiesResponse (store.publicIdentities.map fun key =>
    (key.publicBlob, if forwarded then "" else key.name))

def KeyStore.publicIdentity (store : KeyStore ssh) (blob : Bytes) : Option PublicIdentity :=
  store.publicIdentities.find? fun key => key.publicBlob = blob

/-- What the panel is shown about a request for `key`. -/
def SignRequest.prompt (request : SignRequest) (id : Nat) (key : PublicIdentity) : Prompt where
  requestId := id
  keyName := visibleText key.name
  fingerprint := key.fingerprint
  pid := request.peer.pid
  processPath := visibleText (toStringLossy request.peer.executable)
  operation := request.scope.kind.operation
  operationDetail := request.scope.kind.detail
  hostKey := request.scope.kind.host
  forwarded := request.scope.forwarded
  grantOffered := request.scope.grantable

namespace State

variable (a : State ssh)

/-- The signature an authorization gives, as the answer to `reply`. -/
def sign (reply : Reply) (authorization : Authorization) (message : Bytes) (flags : Nat)
    (ground : Ground) : State ssh :=
  a.answer reply (authorizedSignature a.store authorization message flags)
    (.authorized ground a.moment)

/-! ## Requests leaving without a signature -/

def refusePending (id : Nat) : State ssh :=
  match a.pending.lookup id with
  | none => a
  | some sign => { a with pending := a.pending.erase id }.refuse sign.reply .withdrawn

def refuseHeld (id : Nat) : State ssh :=
  match a.held.lookup id with
  | none => a
  | some request => { a with held := a.held.erase id }.refuse request.reply .withdrawn

/-- `drain` empties a map at once; nothing in its loops reads the map, so here and below the
entries leave one by one. -/
def failPending : State ssh :=
  (a.pending.entries.map (·.1)).foldl refusePending a

def cancelHeld (reason : CancelReason) : State ssh :=
  (a.held.entries.map (·.1)).foldl
    (fun a id => (a.refuseHeld id).emit (.requestCancelled id reason)) a

def releaseHeldIdentities (reason : CancelReason) : State ssh :=
  match a.heldIdentities with
  | none => a
  | some waiters =>
    let a := waiters.waiting.foldl
      (fun a waiter => a.answer waiter.1 (identitiesFor a.store waiter.2) .listing)
      { a with heldIdentities := none }
    a.emit (.requestCancelled waiters.requestId reason)

/-! ## Queueing -/

/-- The `match approvals.submit(..)` of `handle_client`, and of `release_held` for a request not
approved yet. -/
def submitSign (request : SignRequest) : State ssh :=
  let a := a.readClock
  match a.approvals.submit a.store.epoch request.publicBlob request.peer request.scope a.now with
  | (.ok (.granted authorization), approvals) =>
    { a with approvals }.sign request.reply authorization request.message request.flags .grant
  | (.ok (.pending id), approvals) =>
    let a := { a with approvals }.issue id request.reply
    match a.store.publicIdentity request.publicBlob with
    | none => { a with approvals := approvals.disconnect id }.refuse request.reply .unknownKey
    | some key =>
      let a := a.emit (.approvalRequired key.itemId (request.prompt id key))
      { a with pending := a.pending.insert id ⟨request.reply, request.message, request.flags⟩ }
  | (.error error, approvals) => { a with approvals }.refuse request.reply (.submit error)

/-- Locked but the cache knows the key: ask the panel to unlock and hold the request. -/
def holdSign (request : SignRequest) : State ssh :=
  match a.store.publicIdentity request.publicBlob with
  | none => a.refuse request.reply .unknownKey
  | some key =>
    if !a.approvals.expectsUid request.peer.uid ||
        a.approvals.capacityRemaining a.held.entries.length == 0 then
      a.refuse request.reply .notHeld
    else
      match a.approvals.reserveRequestId with
      | (.error _, _) => a.refuse request.reply .notHeld
      | (.ok id, approvals) =>
        let a := { a with approvals }.issue id request.reply
        let a := (a.emit (.unlockRequired .sign (request.prompt id key))).readClock
        let deadlineMs := Words.saturatingAdd a.now heldLifetimeMs
        { a with held := a.held.insert id { request with deadlineMs, approved := none } }

def handleSign (request : SignRequest) : State ssh :=
  if !a.gateOpen then a.holdSign request
  else if !a.store.authorizes request.publicBlob then a.refuse request.reply .unknownKey
  else a.submitSign request

/-- A listing for which there is nothing to show is worth an unlock. -/
def holdIdentities (event : ClientEvent) : State ssh :=
  match a.heldIdentities with
  | some waiters =>
    let waiting := waiters.waiting ++ [(event.reply, event.forwarded)]
    { a with heldIdentities := some { waiters with waiting } }
  | none =>
    match a.approvals.reserveRequestId with
    | (.error _, _) => a.answer event.reply (identitiesFor a.store event.forwarded) .listing
    | (.ok id, approvals) =>
      let a := { a with approvals }.issue id event.reply
      let prompt : Prompt :=
        ⟨id, "", "", event.peer.pid, visibleText (toStringLossy event.peer.executable), "", "", "",
          event.forwarded, false⟩
      let a := (a.emit (.unlockRequired .listIdentities prompt)).readClock
      let deadlineMs := Words.saturatingAdd a.now heldLifetimeMs
      { a with heldIdentities := some ⟨id, deadlineMs, [(event.reply, event.forwarded)]⟩ }

def handleIdentities (event : ClientEvent) : State ssh :=
  if a.store.publicIdentities.isEmpty && a.unlockOnDemand && a.approvals.expectsUid event.peer.uid
  then a.holdIdentities event
  else a.answer event.reply (identitiesFor a.store event.forwarded) .listing

/-! ## Settling -/

/-- One request a grant covers: answered, and its prompt withdrawn. -/
def settleOne (released : Nat × Authorization) : State ssh :=
  let a := match a.pending.lookup released.1 with
    | none => a
    | some sign =>
      { a with pending := a.pending.erase released.1 }.sign sign.reply released.2 sign.message
        sign.flags .grant
  a.emit (.requestCancelled released.1 .granted)

def settleGranted : State ssh :=
  let a := a.readClock
  let released := a.approvals.releaseGranted a.now
  released.1.foldl settleOne { a with approvals := released.2 }

/-- A held request approved during the load: submit at the new epoch and consume the approval. -/
def releaseApproved (oldId : Nat) (request : SignRequest) (grantSeconds : Nat) : State ssh :=
  let a := a.readClock
  match a.approvals.submit a.store.epoch request.publicBlob request.peer request.scope a.now with
  | (.ok (.granted authorization), approvals) =>
    { a with approvals }.sign request.reply authorization request.message request.flags .grant
  | (.ok (.pending id), approvals) =>
    let a := ({ a with approvals }.issue id request.reply).readClock
    match a.approvals.approve id grantSeconds a.now with
    | (.ok authorization, approvals) =>
      { a with approvals }.sign request.reply authorization request.message request.flags
        (.held oldId)
    | (.error error, approvals) => { a with approvals }.refuse request.reply (.approve error)
  | (.error error, approvals) => { a with approvals }.refuse request.reply (.submit error)

def releaseOne (entry : Σ _ : Nat, HeldSign) : State ssh :=
  let a := { a with held := a.held.erase entry.1 }.emit (.requestCancelled entry.1 .released)
  let request := entry.2.toSignRequest
  if !a.store.authorizes request.publicBlob then a.refuse request.reply .unknownKey
  else
    match entry.2.approved with
    | some grantSeconds => a.releaseApproved entry.1 request grantSeconds
    | none => a.submitSign request

/-- Release requests held for an unlock, in the order they were raised. -/
def releaseHeld : State ssh :=
  let released := a.held.entries.insertionSort fun x y => x.1 ≤ y.1
  (released.foldl releaseOne a).settleGranted

end State

/-! ## Loads -/

inductive LoadOutcome where
  | pending
  | published
  | failed
  deriving DecidableEq

/-- The payload of a finished load, decoded and published; `none` where any step failed. -/
def publishPayload (serde : Serde) (store : KeyStore ssh) (window : LoadWindow) :
    Except RuntimeError Bytes → Option LoadReport × KeyStore ssh
  | .error _ => (none, store)
  | .ok bytes =>
    match window.decode serde bytes store with
    | (.error _, store, _) => (none, store)
    | (.ok candidate, store, _) =>
      match store.publish candidate with
      | (.error _, store) => (none, store)
      | (.ok report, store) => (some report, store)

namespace State

variable (a : State ssh)

/-- The panel gets every public key before `keys_loaded`. -/
def announceKeys (epoch keyCount : Nat) : State ssh :=
  let a := a.store.publicIdentities.foldl (fun a key =>
    a.emit (.publicKey epoch key.itemId key.name key.fingerprint key.publicKeyOpenssh)) a
  a.emit (.keysLoaded epoch keyCount)

/-- A load that has both its end and its payload is taken out and settled. -/
def finishLoadIfReady (serde : Serde) : LoadOutcome × State ssh :=
  match a.activeLoad with
  | none => (.pending, a)
  | some load =>
    match load.endReceived, load.payload with
    | true, some payload =>
      let a := { a with activeLoad := none }
      match publishPayload serde a.store load.window payload with
      | (some report, store) =>
        (.published, { a with store, gateOpen := true }.announceKeys load.epoch report.loaded)
      | (none, store) =>
        let a := { a with store := store.lock load.epoch, gateOpen := false }
        (.failed, a.emit (.loadFailed load.epoch))
    | _, _ => (.pending, a)

/-- `settle_load(finish_load_if_ready(..))`. -/
def settleLoad (serde : Serde) : State ssh :=
  match a.finishLoadIfReady serde with
  | (.pending, a) => a
  | (.published, a) => a.releaseHeld.releaseHeldIdentities .released
  | (.failed, a) => (a.cancelHeld .loadFailed).releaseHeldIdentities .loadFailed

/-- Stops any load. What the FIFO holds is wiped too, which no variable of the loop shows. -/
def cancelLoad : State ssh := { a with activeLoad := none }

/-! ## Ticks -/

def grantView (grant : Grant) (nowMs : Nat) : GrantView :=
  let key := a.store.publicIdentity grant.publicBlob
  { grantId := grant.id
    keyName := (key.map fun key => visibleText key.name).getD ""
    fingerprint := (key.map (·.fingerprint)).getD ""
    pid := grant.peer.pid
    processPath := visibleText (toStringLossy grant.peer.executable)
    operation := grant.kind.operation
    operationDetail := grant.kind.detail
    hostKey := grant.kind.host
    expiresInSec := (grant.expiresAtMs - nowMs) / 1000 }

def emitGrantsIfChanged (nowMs : Nat) : State ssh :=
  let current := a.approvals.grants.map (·.id)
  if current = a.grantSnapshot then a
  else
    { a with grantSnapshot := current }.emit
      (.grantsChanged (a.approvals.grants.map fun grant => a.grantView grant nowMs))

def withdrawPending (id : Nat) : State ssh :=
  ({ a with approvals := a.approvals.disconnect id }.refusePending id).emit
    (.requestCancelled id .withdrawn)

def withdrawHeld (id : Nat) : State ssh :=
  (a.refuseHeld id).emit (.requestCancelled id .withdrawn)

/-- A payload that has not arrived within the grace after `key_load_end` is not coming. -/
def expireLoad (serde : Serde) (nowMs : Nat) : State ssh :=
  match a.activeLoad with
  | none => a
  | some load =>
    if load.payload.isNone && load.payloadDeadlineMs.any (· ≤ nowMs) then
      let load := { load with payload := some (.error .readTimeout) }
      { a with activeLoad := some load }.settleLoad serde
    else a

/-- Requests whose client left (`closed`) or whose deadline passed. -/
def withdrawStale (closed : Reply → Bool) (nowMs : Nat) : State ssh :=
  let expired := a.pending.entries.filter fun entry =>
    closed entry.2.reply || !a.approvals.isPending entry.1
  let a := (expired.map (·.1)).foldl withdrawPending a
  let stale := a.held.entries.filter fun entry =>
    closed entry.2.reply || entry.2.deadlineMs ≤ nowMs
  let a := (stale.map (·.1)).foldl withdrawHeld a
  if a.heldIdentities.any fun waiters =>
      waiters.deadlineMs ≤ nowMs || waiters.waiting.all fun waiter => closed waiter.1
  then a.releaseHeldIdentities .withdrawn
  else a

def handleTick (serde : Serde) (closed : Reply → Bool) : State ssh :=
  let a := a.readClock
  let now := a.now
  let a := { a with approvals := a.approvals.expire now }
  ((a.expireLoad serde now).withdrawStale closed now).emitGrantsIfChanged now

end State

/-! ## Control messages -/

inductive LoadStatus where
  | ok
  | failed
  deriving DecidableEq

inductive ControlMessage where
  | hello
  | keyLoadBegin (epoch : Nat) (loadId : String)
  | keyLoadEnd (epoch : Nat) (status : LoadStatus)
  | vaultLocked (epoch : Nat)
  | vaultLoggedOut
  | approve (requestId : Nat) (grantSeconds : Nat)
  | deny (requestId : Nat)
  | unlockCancelled (requestId : Nat) (reason : String)
  | options (unlockOnDemand : Bool)
  | revokeGrants
  | revokeGrant (grantId : Nat)
  | shutdown
  deriving DecidableEq

/-- How an arm of the `select!` ends: the next iteration, `break`, or `return Err(())`. -/
inductive Flow where
  | next
  | leave
  | fail
  deriving DecidableEq

namespace State

variable (a : State ssh)

def handleHello (env : Env) (a : State env.ssh) : Flow × State env.ssh :=
  if !a.handshakeComplete then
    (.next, { a with handshakeComplete := true }.emit
      (.ready env.socketPath env.fifoPath env.agentVersion))
  else (.fail, a)

def handleVaultLocked (epoch : Nat) : State ssh :=
  let a := { a with gateOpen := false }.cancelLoad
  let a := { a with store := a.store.lock epoch, approvals := a.approvals.invalidateAll }
  ((a.failPending.cancelHeld .locked).releaseHeldIdentities .locked).emit (.locked epoch)

def handleVaultLoggedOut : State ssh :=
  let a := { a with gateOpen := false }.cancelLoad
  let store := a.store.logout (Words.saturatingAdd a.store.epoch 1)
  let a := { a with store, approvals := a.approvals.invalidateAll }
  (a.failPending.cancelHeld .loggedOut).releaseHeldIdentities .loggedOut

/-- An approval of a queued request, and of what a grant it opens covers. -/
def approvePending (requestId : Nat) (grantSeconds : Nat) (sign : PendingSign) : State ssh :=
  let a := { a with pending := a.pending.erase requestId }.readClock
  let a := match a.approvals.approve requestId grantSeconds a.now with
    | (.ok authorization, approvals) =>
      { a with approvals }.sign sign.reply authorization sign.message sign.flags
        (.pending requestId)
    | (.error error, approvals) => { a with approvals }.refuse sign.reply (.approve error)
  if 0 < grantSeconds then a.settleGranted else a

def handleApprove (requestId : Nat) (grantSeconds : Nat) : State ssh :=
  match a.held.lookup requestId with
  -- Still waiting on a load: record the approval and apply it when the keys arrive.
  | some request =>
    { a with held := a.held.insert requestId { request with approved := some grantSeconds } }
  | none =>
    match a.pending.lookup requestId with
    | none => a
    | some sign => a.approvePending requestId grantSeconds sign

def handleDeny (requestId : Nat) : State ssh :=
  let a := { a with approvals := a.approvals.disconnect requestId }
  let a := (a.refusePending requestId).refuseHeld requestId
  if a.heldIdentities.any fun waiters => waiters.requestId = requestId then
    a.releaseHeldIdentities .cancelled
  else a

/-- `fifoReady` is whether `fifo_reader` could open the FIFO. -/
def handleKeyLoadBegin (epoch : Nat) (loadId : String) (fifoReady : Bool) : Flow × State ssh :=
  if a.activeLoad.isSome then (.fail, a)
  else
    let a := { a with gateOpen := false, approvals := a.approvals.invalidateAll }.failPending
    match LoadWindow.new epoch loadId with
    | .error _ => (.fail, a)
    | .ok window =>
      if !fifoReady then (.fail, a)
      else
        (.next, { a with
          activeLoad := some ⟨epoch, window, none, false, none, a.tasks⟩
          tasks := a.tasks + 1 })

def handleKeyLoadEnd (serde : Serde) (epoch : Nat) (status : LoadStatus) : Flow × State ssh :=
  match a.activeLoad with
  | none => (.fail, a)
  | some load =>
    if load.epoch ≠ epoch then (.fail, a)
    else
      match status with
      | .failed =>
        let a := { a.cancelLoad with store := a.store.lock epoch, gateOpen := false }
        (.next, (a.cancelHeld .loadFailed).releaseHeldIdentities .loadFailed)
      | .ok =>
        let a := a.readClock
        let payloadDeadlineMs := some (Words.saturatingAdd a.now loadEndGraceMs)
        let load := { load with endReceived := true, payloadDeadlineMs }
        (.next, { a with activeLoad := some load }.settleLoad serde)

def handleControl (env : Env) (a : State env.ssh) (fifoReady : Bool) :
    ControlMessage → Flow × State env.ssh
  | .hello => a.handleHello env
  | .vaultLocked epoch => (.next, a.handleVaultLocked epoch)
  | .vaultLoggedOut => (.next, a.handleVaultLoggedOut)
  | .approve requestId grantSeconds => (.next, a.handleApprove requestId grantSeconds)
  | .deny requestId | .unlockCancelled requestId _ => (.next, a.handleDeny requestId)
  | .options unlockOnDemand => (.next, { a with unlockOnDemand })
  | .revokeGrants => (.next, { a with approvals := a.approvals.revokeAllGrants })
  | .revokeGrant grantId => (.next, { a with approvals := a.approvals.revokeGrant grantId })
  | .shutdown => (.leave, a)
  | .keyLoadBegin epoch loadId => a.handleKeyLoadBegin epoch loadId fifoReady
  | .keyLoadEnd epoch status => a.handleKeyLoadEnd env.serde epoch status

end State

/-! ## One iteration -/

/-- The sign request a client event carries, with its scope. -/
def ClientEvent.signRequest (env : Env) (event : ClientEvent) : Option SignRequest :=
  match event.request with
  | .sign publicBlob message flags => some
    { reply := event.reply, publicBlob, message, flags, peer := event.peer
      scope := ⟨classifySign env.hostKeyFingerprint publicBlob message event.binds,
        event.forwarded⟩ }
  | _ => none

def State.handleClient (env : Env) (a : State env.ssh) (event : ClientEvent) : State env.ssh :=
  match event.signRequest env with
  | some request => a.handleSign request
  | none =>
    match event.request with
    | .identities => a.handleIdentities event
    | _ => a.refuse event.reply .sessionBind

def State.handleLoadResult (serde : Serde) (a : State ssh) (epoch : Nat)
    (result : Except RuntimeError Bytes) : State ssh :=
  match a.activeLoad with
  | none => a
  | some load =>
    if load.epoch ≠ epoch then a
    else { a with activeLoad := some { load with payload := some result } }.settleLoad serde

/-- What the `select!` can wake up to. -/
inductive Input where
  | control (message : ControlMessage) (fifoReady : Bool)
  /-- Standard input ended. -/
  | controlClosed
  /-- A control line that could not be read or parsed. -/
  | controlInvalid
  | client (event : ClientEvent)
  /-- What reader number `task` sent. -/
  | loadResult (task epoch : Nat) (result : Except RuntimeError Bytes)
  /-- A tick, with the replies whose client has left. -/
  | tick (closed : List Reply)

def State.handle (env : Env) (a : State env.ssh) : Input → Flow × State env.ssh
  | .control message fifoReady => a.handleControl env fifoReady message
  | .controlClosed => (.leave, a)
  | .controlInvalid => (.fail, a)
  | .client event => (.next, a.handleClient env event)
  | .loadResult _ epoch result => (.next, a.handleLoadResult env.serde epoch result)
  | .tick closed => (.next, a.handleTick env.serde closed.contains)

/-- The messages among some effects. -/
def emitted (log : List (Effect ssh)) : List Output :=
  log.filterMap fun
    | .emit message => some message
    | _ => none

/-- The effects that happened when the output channel had `room` places left. -/
def performed : Nat → List (Effect ssh) → List (Effect ssh)
  | _, [] => []
  | 0, .emit _ :: _ => []
  | room + 1, .emit message :: rest => .emit message :: performed room rest
  | room, effect :: rest => effect :: performed room rest

/-- One iteration: the state it begins in, what the outside chose, and the event. -/
structure Turn (ssh : Ssh) where
  before : State ssh
  /-- Time since the last iteration's end, and between the readings of this one. -/
  wait : Nat
  delays : List Nat
  /-- Free places in the output channel. -/
  room : Nat
  input : Input

namespace Turn

def start (t : Turn ssh) : State ssh :=
  { t.before with clock := ⟨t.before.clock.millis + t.wait, t.delays⟩, log := [] }

/-- When the event was received, as `elapsed_ms` would say. -/
def time (t : Turn ssh) : Nat := t.start.now

def outcome (env : Env) (t : Turn env.ssh) : Flow × State env.ssh := t.start.handle env t.input

def effects (env : Env) (t : Turn env.ssh) : List (Effect env.ssh) :=
  performed t.room (t.outcome env).2.log

/-- The loop goes on after this iteration. -/
def Completes (env : Env) (t : Turn env.ssh) : Prop :=
  (t.outcome env).1 = .next ∧ (emitted (t.outcome env).2.log).length ≤ t.room

instance (env : Env) (t : Turn env.ssh) : Decidable (t.Completes env) :=
  inferInstanceAs (Decidable (_ ∧ _))

/-- The state after the iteration, if the loop goes on. -/
def next (env : Env) (t : Turn env.ssh) : Option (State env.ssh) :=
  if t.Completes env then some (t.outcome env).2 else none

end Turn

/-! ## Runs -/

/-- Equal but for the order of the hash maps. -/
def Reordered (a b : State ssh) : Prop :=
  a.pending.entries.Perm b.pending.entries ∧ a.held.entries.Perm b.held.entries ∧
    b = { a with pending := b.pending, held := b.held }

/-- A reader that `key_load_begin` spawned in some earlier iteration, with the epoch and nonce it
was given. -/
def Spawned (h : List (Turn ssh)) (task epoch : Nat) (nonce : Bytes) : Prop :=
  ∃ t ∈ h, ∃ loadId, t.input = .control (.keyLoadBegin epoch loadId) true ∧
    t.before.tasks = task ∧ parseNonce loadId = some nonce

/-- What an iteration may receive after the iterations `h`: a client event brings a reply channel
of its own, and a reader sends its own epoch, with a line its filter located. -/
def Receivable (serde : Serde) (h : List (Turn ssh)) : Input → Prop
  | .client event => ∀ t ∈ h, ∀ event', t.input = .client event' → event'.reply ≠ event.reply
  | .loadResult task epoch result => ∃ nonce, Spawned h task epoch nonce ∧
      ∀ bytes, result = .ok bytes →
        ∃ line start, locate serde nonce line = some start ∧ bytes = line.drop start
  | _ => True

/-- The agent's main loop. `none` is a loop that has ended. -/
def system (env : Env) : Trace.System (Option (State env.ssh)) (Turn env.ssh) where
  init s := s = some (.new env)
  step h s t s' := ∃ a, s = some a ∧ Reordered a t.before ∧ Receivable env.serde h t.input ∧
    t.room ≤ controlOutputCapacity ∧ s' = t.next env

end QsBitwarden.Agent
