import QsBitwarden.Agent.Runs

/-!
# Agent — one rule for new and queued requests

`submit` answers a new request from a grant, `release_granted` a queued one. The two are separate
code, and an approval can open a grant over requests that were queued before it.

* **`Reachable`** — the managers that the operations can make.
* **`wouldGrant`** — what `submit` would answer to a queued request made anew.
* **`Settled`** — no queued request is covered by a grant. Dropping entries keeps it
  (`Settled.of_subset`), and so does everything but opening a grant; `releaseGranted` brings it
  about from any state.
* **`Uncovered`** — the same of the loop's state. Both places that open grants settle before the
  iteration ends, hence `Uncovered.handle`.
-/

namespace QsBitwarden.Agent

open SshWire

variable {env : Env} {ssh : Ssh}

/-! ## The manager -/

namespace ApprovalManager

/-- The managers that come from `new` by the operations of the module. -/
inductive Reachable (uid : Nat) : ApprovalManager → Prop where
  | new : Reachable uid (.new uid)
  | submit {m : ApprovalManager} (h : Reachable uid m) (epoch : Nat) (blob : Bytes)
      (peer : PeerContext) (scope : SignScope) (nowMs : Nat) :
      Reachable uid (m.submit epoch blob peer scope nowMs).2
  | approve {m : ApprovalManager} (h : Reachable uid m) (id grantSeconds nowMs : Nat) :
      Reachable uid (m.approve id grantSeconds nowMs).2
  | releaseGranted {m : ApprovalManager} (h : Reachable uid m) (nowMs : Nat) :
      Reachable uid (m.releaseGranted nowMs).2
  | disconnect {m : ApprovalManager} (h : Reachable uid m) (id : Nat) :
      Reachable uid (m.disconnect id)
  | expire {m : ApprovalManager} (h : Reachable uid m) (nowMs : Nat) :
      Reachable uid (m.expire nowMs)
  | invalidateAll {m : ApprovalManager} (h : Reachable uid m) : Reachable uid m.invalidateAll
  | revokeGrant {m : ApprovalManager} (h : Reachable uid m) (id : Nat) :
      Reachable uid (m.revokeGrant id)
  | revokeAllGrants {m : ApprovalManager} (h : Reachable uid m) : Reachable uid m.revokeAllGrants
  | reserveRequestId {m : ApprovalManager} (h : Reachable uid m) :
      Reachable uid m.reserveRequestId.2

/-- Whether `submit` would answer this request from a grant if it were made anew. -/
def wouldGrant (m : ApprovalManager) (nowMs : Nat) (request : Pending) : Bool :=
  match (m.submit request.epoch request.publicBlob request.peer request.scope nowMs).1 with
  | .ok (.granted _) => true
  | _ => false

/-- Everyone in the queue is the user's own process. -/
def OwnQueue (m : ApprovalManager) : Prop :=
  ∀ request ∈ m.pending, request.peer.uid = m.expectedUid

/-- No queued request is covered by a grant. -/
def Settled (m : ApprovalManager) : Prop := ∀ request ∈ m.pending, m.covered request = false

variable {m m' : ApprovalManager} {nowMs : Nat}

theorem OwnQueue.of_subset (h : m.OwnQueue) (huid : m'.expectedUid = m.expectedUid)
    (hpending : ∀ request ∈ m'.pending, request ∈ m.pending) : m'.OwnQueue :=
  fun request hmem => huid ▸ h request (hpending request hmem)

theorem OwnQueue.submit (h : m.OwnQueue) (epoch : Nat) (blob : Bytes) (peer : PeerContext)
    (scope : SignScope) (nowMs : Nat) : (m.submit epoch blob peer scope nowMs).2.OwnQueue := by
  have hexpired : (m.expire nowMs).OwnQueue :=
    h.of_subset rfl fun request hmem => (mem_expire_pending.mp hmem).1
  have hcase := m.submit_case epoch blob peer scope nowMs
  generalize m.submit epoch blob peer scope nowMs = outcome at hcase
  cases hcase with
  | wrongUid => exact h
  | granted | queueFull | idExhausted => exact hexpired
  | pending huid =>
    intro request hmem
    rcases List.mem_append.mp hmem with hmem | hmem
    · exact hexpired request hmem
    · rw [List.mem_singleton.mp hmem]
      exact huid

theorem OwnQueue.approve (h : m.OwnQueue) (id grantSeconds nowMs : Nat) :
    (m.approve id grantSeconds nowMs).2.OwnQueue := by
  have hexpired : (m.expire nowMs).OwnQueue :=
    h.of_subset rfl fun request hmem => (mem_expire_pending.mp hmem).1
  have hdequeued : ((m.expire nowMs).dequeue id).OwnQueue :=
    hexpired.of_subset rfl fun request hmem => dequeue_pending_sublist.subset hmem
  have hcase := m.approve_case id grantSeconds nowMs
  generalize m.approve id grantSeconds nowMs = outcome at hcase
  cases hcase with
  | unknownRequest => exact hexpired
  | idExhausted | granting | once => exact hdequeued

theorem Reachable.ownQueue {uid : Nat} (h : Reachable uid m) : m.OwnQueue := by
  induction h with
  | new => exact fun _ hmem => nomatch hmem
  | submit _ epoch blob peer scope nowMs ih => exact ih.submit epoch blob peer scope nowMs
  | approve _ id grantSeconds nowMs ih => exact ih.approve id grantSeconds nowMs
  | releaseGranted _ nowMs ih =>
    exact ih.of_subset rfl fun request hmem =>
      (mem_expire_pending.mp (List.mem_filter.mp hmem).1).1
  | disconnect _ id ih => exact ih.of_subset rfl fun request hmem => (List.mem_filter.mp hmem).1
  | expire _ nowMs ih =>
    exact ih.of_subset rfl fun request hmem => (mem_expire_pending.mp hmem).1
  | invalidateAll => exact fun _ hmem => nomatch hmem
  | revokeGrant _ id ih => exact ih
  | revokeAllGrants _ ih => exact ih
  | @reserveRequestId m _ ih =>
    unfold ApprovalManager.reserveRequestId
    split
    · exact ih
    · exact ih

/-! ### One rule -/

/-- `submit` asks of a new request what `release_granted` asks of a queued one. -/
theorem wouldGrant_eq {request : Pending} (huid : request.peer.uid = m.expectedUid) :
    m.wouldGrant nowMs request = (m.expire nowMs).covered request := by
  unfold wouldGrant submit
  rw [if_neg (not_not.mpr huid)]
  dsimp only
  cases hcovered : (m.expire nowMs).covered request with
  | true => rw [if_pos (by exact hcovered)]
  | false =>
    rw [if_neg (by exact Bool.eq_false_iff.mp hcovered)]
    split_ifs
    · rfl
    · cases Words.checkedAdd (m.expire nowMs).nextId 1 <;> rfl

theorem Settled.of_subset (h : m.Settled) (hpending : ∀ request ∈ m'.pending, request ∈ m.pending)
    (hgrants : ∀ grant ∈ m'.grants, grant ∈ m.grants) : m'.Settled := by
  intro request hmem
  have hfalse := h request (hpending request hmem)
  unfold covered at hfalse ⊢
  rw [List.any_eq_false] at hfalse ⊢
  exact fun grant hgrant => hfalse grant (hgrants grant hgrant)

theorem Settled.expire (h : m.Settled) (nowMs : Nat) : (m.expire nowMs).Settled :=
  h.of_subset (fun _ hmem => (mem_expire_pending.mp hmem).1)
    fun _ hmem => (mem_expire_grants.mp hmem).1

theorem Settled.disconnect (h : m.Settled) (id : Nat) : (m.disconnect id).Settled :=
  h.of_subset (fun _ hmem => (List.mem_filter.mp hmem).1) fun _ hmem => hmem

theorem settled_invalidateAll (m : ApprovalManager) : m.invalidateAll.Settled :=
  fun _ hmem => nomatch hmem

/-- What is left in the queue is not covered. -/
theorem settled_releaseGranted (m : ApprovalManager) (nowMs : Nat) :
    (m.releaseGranted nowMs).2.Settled := by
  intro request hmem
  have hleft := (List.mem_filter.mp hmem).2
  show (m.expire nowMs).covered request = false
  simpa using hleft

/-- A request is queued only where no grant covers it. -/
theorem Settled.submit (h : m.Settled) (epoch : Nat) (blob : Bytes) (peer : PeerContext)
    (scope : SignScope) (nowMs : Nat) : (m.submit epoch blob peer scope nowMs).2.Settled := by
  have hexpired := h.expire nowMs
  unfold ApprovalManager.submit
  split
  · exact h
  dsimp only
  split
  · exact hexpired
  next hnone =>
  split
  · exact hexpired
  split
  · exact hexpired
  · intro request hmem
    rcases List.mem_append.mp hmem with hmem | hmem
    · exact hexpired request hmem
    · rw [List.mem_singleton.mp hmem]
      exact Bool.eq_false_iff.mpr hnone

/-- An approval for once opens no grant. -/
theorem Settled.approve (h : m.Settled) (id nowMs : Nat) : (m.approve id 0 nowMs).2.Settled := by
  have hexpired := h.expire nowMs
  have hdequeued : ((m.expire nowMs).dequeue id).Settled :=
    hexpired.of_subset (fun _ hmem => dequeue_pending_sublist.subset hmem) fun _ hmem => hmem
  have hcase := m.approve_case id 0 nowMs
  generalize m.approve id 0 nowMs = outcome at hcase
  cases hcase with
  | unknownRequest => exact hexpired
  | idExhausted => exact hdequeued
  | granting _ _ _ hsome => exact absurd hsome (Nat.lt_irrefl 0)
  | once => exact hdequeued

theorem Settled.reserveRequestId (h : m.Settled) : m.reserveRequestId.2.Settled := by
  unfold ApprovalManager.reserveRequestId
  split
  · exact h
  · exact h

end ApprovalManager

/-! ## The loop -/

open ApprovalManager

/-- No request in the loop's queue is covered by a grant. -/
def Uncovered (a : State ssh) : Prop := a.approvals.Settled

namespace Uncovered

variable {a b : State ssh}

/-! ### What leaves the manager alone -/

theorem approvals_foldl {α : Type} {f : State ssh → α → State ssh}
    (hf : ∀ a x, (f a x).approvals = a.approvals) (a : State ssh) (xs : List α) :
    (xs.foldl f a).approvals = a.approvals := by
  induction xs generalizing a with
  | nil => rfl
  | cons x xs ih => rw [List.foldl_cons, ih, hf]

theorem approvals_refusePending (a : State ssh) (id : Nat) :
    (a.refusePending id).approvals = a.approvals := by
  unfold State.refusePending
  split
  · rfl
  · rfl

theorem approvals_refuseHeld (a : State ssh) (id : Nat) :
    (a.refuseHeld id).approvals = a.approvals := by
  unfold State.refuseHeld
  split
  · rfl
  · rfl

theorem approvals_failPending (a : State ssh) : a.failPending.approvals = a.approvals :=
  approvals_foldl approvals_refusePending a _

theorem approvals_cancelHeld (a : State ssh) (reason : CancelReason) :
    (a.cancelHeld reason).approvals = a.approvals := by
  unfold State.cancelHeld
  rw [approvals_foldl]
  exact fun a id => approvals_refuseHeld a id

theorem approvals_releaseHeldIdentities (a : State ssh) (reason : CancelReason) :
    (a.releaseHeldIdentities reason).approvals = a.approvals := by
  unfold State.releaseHeldIdentities
  split
  · rfl
  · next waiters _ =>
    dsimp only [State.emit]
    rw [approvals_foldl]
    exact fun _ _ => rfl

theorem approvals_settleOne (a : State ssh) (released : Nat × Authorization) :
    (a.settleOne released).approvals = a.approvals := by
  unfold State.settleOne
  dsimp only
  split
  · rfl
  · rfl

theorem approvals_announceKeys (a : State ssh) (epoch keyCount : Nat) :
    (a.announceKeys epoch keyCount).approvals = a.approvals := by
  rw [State.announceKeys_eq]

theorem approvals_finishLoadIfReady (a : State ssh) (serde : Serde) :
    (a.finishLoadIfReady serde).2.approvals = a.approvals := by
  unfold State.finishLoadIfReady
  split
  · rfl
  · split
    · dsimp only
      split
      · exact approvals_announceKeys _ _ _
      · rfl
    · rfl

theorem of_eq (h : Uncovered a) (happrovals : b.approvals = a.approvals) : Uncovered b := by
  unfold Uncovered
  rw [happrovals]
  exact h

/-- Cancelling what is held, with the listings. -/
theorem cancel (h : Uncovered a) (reason reason' : CancelReason) :
    Uncovered ((a.cancelHeld reason).releaseHeldIdentities reason') :=
  h.of_eq ((approvals_releaseHeldIdentities _ _).trans (approvals_cancelHeld _ _))

/-! ### Settling -/

/-- **Settling leaves nothing covered**, whatever was before. -/
theorem settleGranted (a : State ssh) : Uncovered a.settleGranted := by
  have hsettled : Uncovered
      { a.readClock with approvals := (a.approvals.releaseGranted a.readClock.now).2 } :=
    settled_releaseGranted a.approvals a.readClock.now
  exact hsettled.of_eq (approvals_foldl approvals_settleOne _ _)

theorem releaseHeld (a : State ssh) : Uncovered a.releaseHeld := settleGranted _

/-! ### Handlers -/

theorem submitSign (h : Uncovered a) (request : SignRequest) : Uncovered (a.submitSign request) := by
  have hsubmit := Settled.submit h a.readClock.store.epoch request.publicBlob request.peer
    request.scope a.readClock.now
  unfold State.submitSign
  dsimp only
  split
  · next heq =>
    rw [show a.approvals = a.readClock.approvals from rfl, heq] at hsubmit
    exact hsubmit
  · next id approvals heq =>
    rw [show a.approvals = a.readClock.approvals from rfl, heq] at hsubmit
    split
    · exact hsubmit.disconnect id
    · exact hsubmit
  · next heq =>
    rw [show a.approvals = a.readClock.approvals from rfl, heq] at hsubmit
    exact hsubmit

theorem holdSign (h : Uncovered a) (request : SignRequest) : Uncovered (a.holdSign request) := by
  have hreserved := Settled.reserveRequestId h
  unfold State.holdSign
  split
  · exact h
  · split
    · exact h
    · split
      · exact h
      · next heq =>
        rw [heq] at hreserved
        exact hreserved

theorem holdIdentities (h : Uncovered a) (event : ClientEvent) :
    Uncovered (a.holdIdentities event) := by
  have hreserved := Settled.reserveRequestId h
  unfold State.holdIdentities
  split
  · exact h
  · split
    · exact h
    · next heq =>
      rw [heq] at hreserved
      exact hreserved

theorem handleClient {a : State env.ssh} (h : Uncovered a) (event : ClientEvent) :
    Uncovered (a.handleClient env event) := by
  unfold State.handleClient
  split
  · next request _ =>
    unfold State.handleSign
    split
    · exact h.holdSign request
    · split
      · exact h
      · exact h.submitSign request
  · split
    · unfold State.handleIdentities
      split
      · exact h.holdIdentities event
      · exact h
    · exact h

variable (h : Uncovered a)
include h

theorem settleLoad (serde : Serde) : Uncovered (a.settleLoad serde) := by
  have hfinished : Uncovered (a.finishLoadIfReady serde).2 :=
    h.of_eq (approvals_finishLoadIfReady a serde)
  unfold State.settleLoad
  split
  · next heq =>
    rw [heq] at hfinished
    exact hfinished
  · next b _ => exact (releaseHeld b).of_eq (approvals_releaseHeldIdentities _ _)
  · next heq =>
    rw [heq] at hfinished
    exact hfinished.cancel _ _

theorem expireLoad (serde : Serde) (nowMs : Nat) : Uncovered (a.expireLoad serde nowMs) := by
  unfold State.expireLoad
  split
  · exact h
  · split
    · exact settleLoad (by exact h) serde
    · exact h

theorem withdrawStale (closed : Reply → Bool) (nowMs : Nat) :
    Uncovered (a.withdrawStale closed nowMs) := by
  have hpending : ∀ (ids : List Nat) (a : State ssh), Uncovered a →
      Uncovered (ids.foldl State.withdrawPending a) := by
    intro ids
    induction ids with
    | nil => exact fun _ h => h
    | cons id ids ih =>
      intro a h
      have hdropped : Uncovered { a with approvals := a.approvals.disconnect id } :=
        Settled.disconnect h id
      exact ih _ (hdropped.of_eq (approvals_refusePending _ id))
  have hheld : ∀ (ids : List Nat) (a : State ssh),
      (ids.foldl State.withdrawHeld a).approvals = a.approvals := by
    intro ids a
    rw [approvals_foldl]
    exact fun a id => approvals_refuseHeld a id
  unfold State.withdrawStale
  dsimp only
  split
  · exact (hpending _ a h).of_eq ((approvals_releaseHeldIdentities _ _).trans (hheld _ _))
  · exact (hpending _ a h).of_eq (hheld _ _)

theorem handleTick (serde : Serde) (closed : Reply → Bool) :
    Uncovered (a.handleTick serde closed) := by
  have hexpired : Uncovered
      { a.readClock with approvals := a.readClock.approvals.expire a.readClock.now } :=
    Settled.expire h _
  have hstale := (hexpired.expireLoad serde a.readClock.now).withdrawStale closed a.readClock.now
  unfold State.handleTick State.emitGrantsIfChanged
  dsimp only
  split
  · exact hstale
  · exact hstale

theorem handleLoadResult (serde : Serde) (epoch : Nat) (result : Except RuntimeError Bytes) :
    Uncovered (a.handleLoadResult serde epoch result) := by
  unfold State.handleLoadResult
  split
  · exact h
  · split
    · exact h
    · exact settleLoad (by exact h) serde

theorem handleApprove (requestId grantSeconds : Nat) :
    Uncovered (a.handleApprove requestId grantSeconds) := by
  unfold State.handleApprove
  split
  · exact h
  · split
    · exact h
    · unfold State.approvePending
      dsimp only
      split
      · exact settleGranted _
      · next hzero =>
        obtain rfl : grantSeconds = 0 := Nat.eq_zero_of_not_pos hzero
        have happroved := Settled.approve h requestId a.readClock.now
        split
        all_goals next heq =>
          rw [show a.approvals.approve requestId 0 a.readClock.now = _ from heq] at happroved
          exact happroved

theorem handleDeny (requestId : Nat) : Uncovered (a.handleDeny requestId) := by
  have hrefused : Uncovered (({ a with approvals := a.approvals.disconnect requestId }.refusePending
      requestId).refuseHeld requestId) := by
    have hdropped : Uncovered { a with approvals := a.approvals.disconnect requestId } :=
      Settled.disconnect h requestId
    exact hdropped.of_eq ((approvals_refuseHeld _ _).trans (approvals_refusePending _ _))
  unfold State.handleDeny
  dsimp only
  split
  · exact hrefused.of_eq (approvals_releaseHeldIdentities _ _)
  · exact hrefused

theorem handleKeyLoadBegin (epoch : Nat) (loadId : String) (fifoReady : Bool) :
    Uncovered (a.handleKeyLoadBegin epoch loadId fifoReady).2 := by
  have hfailed : Uncovered
      { a with gateOpen := false, approvals := a.approvals.invalidateAll }.failPending := by
    refine of_eq ?_ (approvals_failPending _)
    exact settled_invalidateAll a.approvals
  unfold State.handleKeyLoadBegin
  split
  · exact h
  · dsimp only
    split
    · exact hfailed
    · split
      · exact hfailed
      · exact hfailed

theorem handleKeyLoadEnd (serde : Serde) (epoch : Nat) (status : LoadStatus) :
    Uncovered (a.handleKeyLoadEnd serde epoch status).2 := by
  unfold State.handleKeyLoadEnd
  split
  · exact h
  · split
    · exact h
    · split
      · exact cancel (by exact h) _ _
      · exact settleLoad (by exact h) serde

omit h

theorem handleVaultLocked (a : State ssh) (epoch : Nat) : Uncovered (a.handleVaultLocked epoch) := by
  unfold State.handleVaultLocked
  dsimp only
  refine of_eq (cancel (of_eq ?_ (approvals_failPending _)) .locked .locked) rfl
  exact settled_invalidateAll _

theorem handleVaultLoggedOut (a : State ssh) : Uncovered a.handleVaultLoggedOut := by
  unfold State.handleVaultLoggedOut
  dsimp only
  refine cancel (of_eq ?_ (approvals_failPending _)) .loggedOut .loggedOut
  exact settled_invalidateAll _

/-- **Every iteration ends with nothing covered.** -/
theorem handle {a : State env.ssh} (h : Uncovered a) (input : Input) :
    Uncovered (a.handle env input).2 := by
  cases input with
  | control message fifoReady =>
    cases message with
    | hello =>
      show Uncovered (a.handleHello env).2
      unfold State.handleHello
      split
      · exact h
      · exact h
    | keyLoadBegin epoch loadId => exact h.handleKeyLoadBegin epoch loadId fifoReady
    | keyLoadEnd epoch status => exact h.handleKeyLoadEnd env.serde epoch status
    | vaultLocked epoch => exact handleVaultLocked a epoch
    | vaultLoggedOut => exact handleVaultLoggedOut a
    | approve id grantSeconds => exact h.handleApprove id grantSeconds
    | deny id | unlockCancelled id reason => exact h.handleDeny id
    | options unlockOnDemand => exact h
    | revokeGrants => exact Settled.of_subset h (fun _ hmem => hmem) fun _ hmem => nomatch hmem
    | revokeGrant grantId =>
      exact Settled.of_subset h (fun _ hmem => hmem) fun _ hmem => (List.mem_filter.mp hmem).1
    | shutdown => exact h
  | controlClosed => exact h
  | controlInvalid => exact h
  | client event => exact h.handleClient event
  | loadResult task epoch result => exact h.handleLoadResult env.serde epoch result
  | tick closed => exact h.handleTick env.serde _

end Uncovered

theorem run_uncovered {h : List (Turn env.ssh)} {s : Option (State env.ssh)}
    (run : (system env).Run h s) : ∀ a, s = some a → Uncovered a := by
  refine run_invariant (I := fun _ a => Uncovered a) (fun _ hmem => nomatch hmem) ?_ run
  intro h a t _ hreordered _ ha
  have hbefore : t.before.approvals = a.approvals := by rw [hreordered.2.2]
  have hstart : Uncovered t.start := ha.of_eq hbefore
  exact hstart.handle t.input

/-! ## One rule -/

/-- What `release_granted` makes of a manager: the unexpired requests, split in their order by what
`submit` would answer to them, and the unexpired grants, which cover none of those left. -/
structure OneRule (m : ApprovalManager) (nowMs : Nat) : Prop where
  released : (m.releaseGranted nowMs).1
    = ((m.pending.filter fun request => nowMs < request.deadlineMs).filter
        (m.wouldGrant nowMs)).map Pending.released
  left : (m.releaseGranted nowMs).2.pending
    = (m.pending.filter fun request => nowMs < request.deadlineMs).filter
        fun request => !m.wouldGrant nowMs request
  grants : (m.releaseGranted nowMs).2.grants
    = m.grants.filter fun grant => nowMs < grant.expiresAtMs
  uncovered : ∀ request ∈ (m.releaseGranted nowMs).2.pending,
    ∀ grant ∈ (m.releaseGranted nowMs).2.grants,
      grantCovers grant request.epoch request.publicBlob request.peer request.scope = false

theorem Settled.not_covers {m : ApprovalManager} (h : m.Settled) {request : Pending}
    (hmem : request ∈ m.pending) {grant : Grant} (hgrant : grant ∈ m.grants) :
    grantCovers grant request.epoch request.publicBlob request.peer request.scope = false := by
  have hfalse := List.any_eq_false.mp (h request hmem) grant hgrant
  simpa using hfalse

/-- **Queued and new requests meet one rule**, and after no iteration of the loop is a queued request
covered by a grant. -/
theorem one_grant_rule :
    (∀ uid m, Reachable uid m → ∀ nowMs, OneRule m nowMs)
    ∧ ∀ (env : Env) (h : List (Turn env.ssh)) (a : State env.ssh), (system env).Run h (some a) →
      ∀ request ∈ a.approvals.pending, ∀ grant ∈ a.approvals.grants,
        grantCovers grant request.epoch request.publicBlob request.peer request.scope = false := by
  refine ⟨fun uid m hm nowMs => ?_, fun env h a run request hmem grant hgrant =>
    Settled.not_covers (run_uncovered run a rfl) hmem hgrant⟩
  have hwould : ∀ request ∈ (m.expire nowMs).pending,
      m.wouldGrant nowMs request = (m.expire nowMs).covered request := fun request hmem =>
    wouldGrant_eq (hm.ownQueue request (mem_expire_pending.mp hmem).1)
  exact {
    released := congrArg (List.map Pending.released)
      (List.filter_congr fun request hmem => (hwould request hmem).symm)
    left := List.filter_congr fun request hmem => congrArg (! ·) (hwould request hmem).symm
    grants := rfl
    uncovered := fun request hmem grant hgrant =>
      Settled.not_covers (settled_releaseGranted m nowMs) hmem hgrant }

end QsBitwarden.Agent
