import QsBitwarden.Agent.KeyStore

/-!
# Agent — approvals and grants (`agent/src/peer.rs`, `approvals.rs`)

Signature requests queue here until a person answers. An approval is single-use; it may open a
*grant*, which answers later requests of the same unlock, key, kind of signature and program.

* **`grantCovers`** — the one rule by which a grant answers a request, new or queued.
* **`SubmitCase`**, **`ApproveCase`** — everything the two fallible operations can do, with the
  guard of each outcome. Later proofs read these and never unfold `submit` or `approve`.
-/

namespace QsBitwarden.Agent

open SshWire

/-! ## Peers -/

/-- The kernel's view of the process behind a connection. `executable` is a path in bytes. -/
structure PeerContext where
  uid : Nat
  pid : Nat
  startTimeTicks : Nat
  executable : Bytes
  deriving DecidableEq

/-- Same user and same program, not same process. -/
def PeerContext.sharesGrantScope (peer other : PeerContext) : Bool :=
  peer.uid == other.uid && peer.executable == other.executable

/-- Whether a fresh capture is still the process admitted at accept; a failed one is not. -/
def PeerContext.isUnchanged (peer : PeerContext) (current : Option PeerContext) : Bool :=
  decide (current = some peer)

/-- A continuation byte of UTF-8. -/
def isContinuation (b : UInt8) : Bool := 0x80 ≤ b && b ≤ 0xbf

/-- Which second bytes may follow the lead byte of a three-byte sequence. -/
def secondOfThree (lead second : UInt8) : Bool :=
  (lead == 0xe0 && 0xa0 ≤ second && second ≤ 0xbf)
    || (0xe1 ≤ lead && lead ≤ 0xec && isContinuation second)
    || (lead == 0xed && 0x80 ≤ second && second ≤ 0x9f)
    || (0xee ≤ lead && lead ≤ 0xef && isContinuation second)

/-- Which second bytes may follow the lead byte of a four-byte sequence. -/
def secondOfFour (lead second : UInt8) : Bool :=
  (lead == 0xf0 && 0x90 ≤ second && second ≤ 0xbf)
    || (0xf1 ≤ lead && lead ≤ 0xf3 && isContinuation second)
    || (lead == 0xf4 && 0x80 ≤ second && second ≤ 0x8f)

/-- The low bits of a continuation byte. -/
def payloadBits (b : UInt8) : Nat := b.toNat % 64

/-- `String::from_utf8_lossy`: each maximal part that begins a sequence without finishing it
becomes one U+FFFD. -/
def lossyChars : Bytes → List Char
  | [] => []
  | a :: rest =>
    if a ≤ 0x7f then Char.ofNat a.toNat :: lossyChars rest
    else
      match rest with
      | [] => ['�']
      | b :: rest₁ =>
        if 0xc2 ≤ a && a ≤ 0xdf && isContinuation b then
          Char.ofNat (a.toNat % 32 * 64 + payloadBits b) :: lossyChars rest₁
        else if secondOfThree a b || secondOfFour a b then
          match rest₁ with
          | [] => ['�']
          | c :: rest₂ =>
            if !isContinuation c then '�' :: lossyChars (c :: rest₂)
            else if secondOfThree a b then
              Char.ofNat ((a.toNat % 16 * 64 + payloadBits b) * 64 + payloadBits c)
                :: lossyChars rest₂
            else
              match rest₂ with
              | [] => ['�']
              | d :: rest₃ =>
                if !isContinuation d then '�' :: lossyChars (d :: rest₃)
                else
                  Char.ofNat (((a.toNat % 8 * 64 + payloadBits b) * 64 + payloadBits c) * 64
                    + payloadBits d) :: lossyChars rest₃
        else '�' :: lossyChars (b :: rest₁)

def toStringLossy (path : Bytes) : String := String.ofList (lossyChars path)

/-! ## The manager -/

/-- Requests pending approval and held for an unlock, counted together. -/
def maxPending : Nat := 4

def requestLifetimeMs : Nat := 120000

def maxGrantSeconds : Nat := 900

inductive ApprovalError where
  | wrongUid
  | queueFull
  | unknownRequest
  | idExhausted
  deriving DecidableEq

/-- Public-only authorization which must still pass the keystore's final gate. -/
structure Authorization where
  epoch : Nat
  publicBlob : Bytes
  deriving DecidableEq

inductive Submit where
  | pending (id : Nat)
  | granted (authorization : Authorization)
  deriving DecidableEq

structure SignScope where
  kind : SignKind
  forwarded : Bool
  deriving DecidableEq

/-- Whether approving may open a grant, and a live grant may answer. -/
def SignScope.grantable (scope : SignScope) : Bool :=
  !scope.forwarded && scope.kind != .other

structure Pending where
  id : Nat
  epoch : Nat
  publicBlob : Bytes
  peer : PeerContext
  scope : SignScope
  deadlineMs : Nat
  deriving DecidableEq

structure Grant where
  id : Nat
  publicBlob : Bytes
  peer : PeerContext
  kind : SignKind
  epoch : Nat
  expiresAtMs : Nat
  deriving DecidableEq

def grantCovers (grant : Grant) (epoch : Nat) (publicBlob : Bytes) (peer : PeerContext)
    (scope : SignScope) : Bool :=
  scope.grantable && grant.epoch == epoch && grant.publicBlob == publicBlob
    && grant.kind == scope.kind && grant.peer.sharesGrantScope peer

structure ApprovalManager where
  expectedUid : Nat
  nextId : Nat
  nextGrantId : Nat
  pending : List Pending
  grants : List Grant
  deriving DecidableEq

/-- Recheck epoch, lock state, and key identity at the final signing point. A panicking lookup
answers nothing; `KeyStore.WF` rules it out. -/
def Authorization.finalize {ssh : Ssh} (authorization : Authorization) (store : KeyStore ssh) :
    Option AuthorizationPermit :=
  match store.authorize authorization.publicBlob with
  | .ok (some permit) => if store.epoch = authorization.epoch then some permit else none
  | _ => none

namespace ApprovalManager

def new (expectedUid : Nat) : ApprovalManager := ⟨expectedUid, 1, 1, [], []⟩

def expire (m : ApprovalManager) (nowMs : Nat) : ApprovalManager :=
  { m with
    pending := m.pending.filter fun request => nowMs < request.deadlineMs
    grants := m.grants.filter fun grant => nowMs < grant.expiresAtMs }

/-- The queue entry `submit` makes of a request. -/
def entry (m : ApprovalManager) (epoch : Nat) (publicBlob : Bytes) (peer : PeerContext)
    (scope : SignScope) (nowMs : Nat) : Pending :=
  ⟨m.nextId, epoch, publicBlob, peer, scope, Words.saturatingAdd nowMs requestLifetimeMs⟩

def submit (m : ApprovalManager) (epoch : Nat) (publicBlob : Bytes) (peer : PeerContext)
    (scope : SignScope) (nowMs : Nat) : Except ApprovalError Submit × ApprovalManager :=
  if peer.uid ≠ m.expectedUid then (.error .wrongUid, m)
  else
    let m := m.expire nowMs
    if m.grants.any fun grant => grantCovers grant epoch publicBlob peer scope then
      (.ok (.granted ⟨epoch, publicBlob⟩), m)
    else if maxPending ≤ m.pending.length then (.error .queueFull, m)
    else
      match Words.checkedAdd m.nextId 1 with
      | none => (.error .idExhausted, m)
      | some nextId =>
        (.ok (.pending m.nextId),
          { m with nextId, pending := m.pending ++ [m.entry epoch publicBlob peer scope nowMs] })

/-- The grant `approve` opens for a request. -/
def grantFor (m : ApprovalManager) (request : Pending) (grantSeconds nowMs : Nat) : Grant :=
  ⟨m.nextGrantId, request.publicBlob, request.peer, request.scope.kind, request.epoch,
    Words.saturatingAdd nowMs (Words.saturatingMul (min grantSeconds maxGrantSeconds) 1000)⟩

def approve (m : ApprovalManager) (id : Nat) (grantSeconds nowMs : Nat) :
    Except ApprovalError Authorization × ApprovalManager :=
  let m := m.expire nowMs
  match m.pending.find? fun request => request.id = id with
  | none => (.error .unknownRequest, m)
  | some request =>
    let m := { m with pending := m.pending.eraseP fun request => request.id = id }
    if 0 < grantSeconds ∧ request.scope.grantable then
      match Words.checkedAdd m.nextGrantId 1 with
      | none => (.error .idExhausted, m)
      | some nextGrantId =>
        (.ok ⟨request.epoch, request.publicBlob⟩,
          { m with nextGrantId, grants := m.grants ++ [m.grantFor request grantSeconds nowMs] })
    else (.ok ⟨request.epoch, request.publicBlob⟩, m)

/-- Whether a live grant of `m` answers a queued request. -/
def covered (m : ApprovalManager) (request : Pending) : Bool :=
  m.grants.any fun grant =>
    grantCovers grant request.epoch request.publicBlob request.peer request.scope

def releaseGranted (m : ApprovalManager) (nowMs : Nat) :
    List (Nat × Authorization) × ApprovalManager :=
  let m := m.expire nowMs
  ((m.pending.filter m.covered).map fun request => (request.id, ⟨request.epoch, request.publicBlob⟩),
    { m with pending := m.pending.filter fun request => !m.covered request })

def disconnect (m : ApprovalManager) (id : Nat) : ApprovalManager :=
  { m with pending := m.pending.filter fun request => request.id ≠ id }

def invalidateAll (m : ApprovalManager) : ApprovalManager := { m with pending := [], grants := [] }

def revokeGrant (m : ApprovalManager) (id : Nat) : ApprovalManager :=
  { m with grants := m.grants.filter fun grant => grant.id ≠ id }

def revokeAllGrants (m : ApprovalManager) : ApprovalManager := { m with grants := [] }

def reserveRequestId (m : ApprovalManager) : Except ApprovalError Nat × ApprovalManager :=
  match Words.checkedAdd m.nextId 1 with
  | none => (.error .idExhausted, m)
  | some nextId => (.ok m.nextId, { m with nextId })

def expectsUid (m : ApprovalManager) (uid : Nat) : Bool := uid == m.expectedUid

def capacityRemaining (m : ApprovalManager) (held : Nat) : Nat :=
  maxPending - (m.pending.length + held)

def isPending (m : ApprovalManager) (id : Nat) : Bool :=
  m.pending.any fun request => request.id == id

/-! ## What the operations do

`expire`, `disconnect` and the revocations only drop entries; the two operations that can fail
are classified by outcome. -/

variable {m : ApprovalManager} {nowMs : Nat}

theorem mem_expire_pending {request : Pending} :
    request ∈ (m.expire nowMs).pending ↔ request ∈ m.pending ∧ nowMs < request.deadlineMs := by
  simp [expire]

theorem mem_expire_grants {grant : Grant} :
    grant ∈ (m.expire nowMs).grants ↔ grant ∈ m.grants ∧ nowMs < grant.expiresAtMs := by
  simp [expire]

theorem expire_pending_sublist : (m.expire nowMs).pending.Sublist m.pending :=
  List.filter_sublist

theorem expire_grants_sublist : (m.expire nowMs).grants.Sublist m.grants :=
  List.filter_sublist

/-- The manager with one more request queued. -/
def enqueue (m : ApprovalManager) (request : Pending) : ApprovalManager :=
  { m with nextId := m.nextId + 1, pending := m.pending ++ [request] }

/-- The outcomes of `submit`. -/
inductive SubmitCase (m : ApprovalManager) (epoch : Nat) (blob : Bytes) (peer : PeerContext)
    (scope : SignScope) (nowMs : Nat) : Except ApprovalError Submit × ApprovalManager → Prop where
  | wrongUid (huid : peer.uid ≠ m.expectedUid) :
      SubmitCase m epoch blob peer scope nowMs (.error .wrongUid, m)
  | granted (huid : peer.uid = m.expectedUid) (grant : Grant)
      (hlive : grant ∈ (m.expire nowMs).grants) (hcovers : grantCovers grant epoch blob peer scope) :
      SubmitCase m epoch blob peer scope nowMs (.ok (.granted ⟨epoch, blob⟩), m.expire nowMs)
  | queueFull (huid : peer.uid = m.expectedUid)
      (hfull : maxPending ≤ (m.expire nowMs).pending.length) :
      SubmitCase m epoch blob peer scope nowMs (.error .queueFull, m.expire nowMs)
  | idExhausted (huid : peer.uid = m.expectedUid) (hlast : Words.u64Max < m.nextId + 1) :
      SubmitCase m epoch blob peer scope nowMs (.error .idExhausted, m.expire nowMs)
  | pending (huid : peer.uid = m.expectedUid)
      (hroom : (m.expire nowMs).pending.length < maxPending)
      (hnext : m.nextId + 1 ≤ Words.u64Max) :
      SubmitCase m epoch blob peer scope nowMs (.ok (.pending m.nextId),
        (m.expire nowMs).enqueue (m.entry epoch blob peer scope nowMs))

theorem submit_case (m : ApprovalManager) (epoch : Nat) (blob : Bytes) (peer : PeerContext)
    (scope : SignScope) (nowMs : Nat) :
    SubmitCase m epoch blob peer scope nowMs (m.submit epoch blob peer scope nowMs) := by
  unfold submit
  split
  · next huid => exact .wrongUid huid
  next huid =>
  have huid : peer.uid = m.expectedUid := not_not.mp huid
  simp only
  split
  · next hany =>
    obtain ⟨grant, hlive, hcovers⟩ := List.any_eq_true.mp hany
    exact .granted huid grant hlive hcovers
  split
  · next hfull => exact .queueFull huid hfull
  next hroom =>
  split
  · next hnone => exact .idExhausted huid (Words.checkedAdd_eq_none.mp hnone)
  · next nextId hsome =>
    obtain ⟨rfl, hnext⟩ := Words.checkedAdd_eq_some.mp hsome
    exact .pending huid (by omega) hnext

/-- The manager after `request` left the queue for an approval. -/
def dequeue (m : ApprovalManager) (id : Nat) : ApprovalManager :=
  { m with pending := m.pending.eraseP fun request => request.id = id }

/-- The manager with one more grant. -/
def openGrant (m : ApprovalManager) (grant : Grant) : ApprovalManager :=
  { m with nextGrantId := m.nextGrantId + 1, grants := m.grants ++ [grant] }

/-- The outcomes of `approve`. -/
inductive ApproveCase (m : ApprovalManager) (id : Nat) (grantSeconds nowMs : Nat) :
    Except ApprovalError Authorization × ApprovalManager → Prop where
  | unknownRequest (hgone : ∀ request ∈ (m.expire nowMs).pending, request.id ≠ id) :
      ApproveCase m id grantSeconds nowMs (.error .unknownRequest, m.expire nowMs)
  | idExhausted (request : Pending) (hmem : request ∈ (m.expire nowMs).pending)
      (hid : request.id = id) (hlast : Words.u64Max < m.nextGrantId + 1) :
      ApproveCase m id grantSeconds nowMs (.error .idExhausted, (m.expire nowMs).dequeue id)
  | granting (request : Pending) (hmem : request ∈ (m.expire nowMs).pending) (hid : request.id = id)
      (hsome : 0 < grantSeconds) (hscope : request.scope.grantable) :
      ApproveCase m id grantSeconds nowMs (.ok ⟨request.epoch, request.publicBlob⟩,
        ((m.expire nowMs).dequeue id).openGrant (m.grantFor request grantSeconds nowMs))
  | once (request : Pending) (hmem : request ∈ (m.expire nowMs).pending) (hid : request.id = id)
      (honce : grantSeconds = 0 ∨ request.scope.grantable = false) :
      ApproveCase m id grantSeconds nowMs (.ok ⟨request.epoch, request.publicBlob⟩,
        (m.expire nowMs).dequeue id)

theorem approve_case (m : ApprovalManager) (id : Nat) (grantSeconds nowMs : Nat) :
    ApproveCase m id grantSeconds nowMs (m.approve id grantSeconds nowMs) := by
  unfold approve
  simp only
  split
  · next hnone =>
    refine .unknownRequest ?_
    intro request hmem
    have hne := List.find?_eq_none.mp hnone request hmem
    simpa using hne
  next request hfind =>
  have hmem : request ∈ (m.expire nowMs).pending := List.mem_of_find?_eq_some hfind
  have hid : request.id = id := by simpa using List.find?_some hfind
  split
  · next hopen =>
    split
    · next hnone => exact .idExhausted request hmem hid (Words.checkedAdd_eq_none.mp hnone)
    · next nextGrantId hsome =>
      obtain ⟨rfl, -⟩ := Words.checkedAdd_eq_some.mp hsome
      exact .granting request hmem hid hopen.1 hopen.2
  · next hopen =>
    refine .once request hmem hid ?_
    by_cases hzero : grantSeconds = 0
    · exact .inl hzero
    · exact .inr (by simpa [Nat.pos_of_ne_zero hzero] using hopen)

/-- An approved request is gone from the queue, the others stay. -/
theorem mem_dequeue {id : Nat} (hids : (m.pending.map (·.id)).Nodup) {request : Pending} :
    request ∈ (m.dequeue id).pending ↔ request ∈ m.pending ∧ request.id ≠ id := by
  have hfilter : (m.dequeue id).pending = m.pending.filter fun request => request.id ≠ id := by
    unfold dequeue
    have hnodup : m.pending.Pairwise fun r r' => r.id ≠ r'.id := by
      simpa [List.Nodup, List.pairwise_map] using hids
    generalize m.pending = queue at hnodup
    induction queue with
    | nil => rfl
    | cons r rest ih =>
      obtain ⟨hhead, htail⟩ := List.pairwise_cons.mp hnodup
      by_cases hr : r.id = id
      · -- The head is the one erased; no later entry has its id.
        have hrest : ∀ r' ∈ rest, r'.id ≠ id := fun r' hr' => hr ▸ (hhead r' hr').symm
        simp only [hr, List.eraseP_cons, decide_true, cond_true]
        rw [List.filter_cons_of_neg (by simp [hr])]
        exact (List.filter_eq_self.mpr fun r' hr' => by simpa using hrest r' hr').symm
      · rw [List.eraseP_cons_of_neg (by simpa using hr), List.filter_cons_of_pos (by simpa using hr)]
        exact congrArg (r :: ·) (ih htail)
  rw [hfilter]
  simp

theorem dequeue_pending_sublist {id : Nat} : (m.dequeue id).pending.Sublist m.pending :=
  List.eraseP_sublist

theorem length_dequeue {id : Nat} {request : Pending} (hmem : request ∈ m.pending)
    (hid : request.id = id) : (m.dequeue id).pending.length + 1 = m.pending.length := by
  have hlen := List.length_eraseP_of_mem (p := fun r : Pending => r.id = id) hmem (by simpa using hid)
  have hpos : 0 < m.pending.length := List.length_pos_of_mem hmem
  unfold dequeue
  simp only [hlen]
  omega

/-- Neither opening nor using a grant is possible for a request that is not grantable. -/
theorem not_grantCovers {grant : Grant} {epoch : Nat} {blob : Bytes} {peer : PeerContext}
    {scope : SignScope} (h : scope.grantable = false) :
    grantCovers grant epoch blob peer scope = false := by
  simp [grantCovers, h]

end ApprovalManager

end QsBitwarden.Agent
