import QsBitwarden.Agent.Runs

/-!
# Agent — how much one iteration writes

`emit` uses `try_send`, and the writer does not run before the loop yields: a channel that fills
up within one iteration ends the helper. `CONTROL_OUTPUT_CAPACITY` is meant to hold the largest
burst.

* **`emits`** — the messages written so far in an iteration, and what each function adds to it.
* **`settleLoad_emits`** — the largest burst the constant is made for: a load that publishes 128
  keys and releases four held requests, whatever their mix.
* **`burst_le_capacity`** — every iteration stays within the constant, as long as a tick finds no
  more than `CONTROL_OUTPUT_CAPACITY - 2` entries in the pending-sign map.
* **`tick_overflows`** — without that it does not: expiry takes a request out of the queue, but
  its entry in the map waits for the next tick, which then withdraws all of them at once.
-/

namespace QsBitwarden.Agent

open SshWire

variable {ssh : Ssh}

namespace State

variable (a : State ssh)

/-- The messages of this iteration. -/
def emits : Nat := (emitted a.log).length

@[simp] theorem emits_emit (message : Output) : (a.emit message).emits = a.emits + 1 := by
  simp [emits, emit, emitted]

@[simp] theorem emits_answer (reply : Reply) (response : Bytes) (basis : Basis ssh) :
    (a.answer reply response basis).emits = a.emits := by
  simp [emits, answer, emitted]

@[simp] theorem emits_issue (id : Nat) (reply : Reply) : (a.issue id reply).emits = a.emits := by
  simp [emits, issue, emitted]

@[simp] theorem emits_refuse (reply : Reply) (why : Refusal) :
    (a.refuse reply why).emits = a.emits := a.emits_answer _ _ _

@[simp] theorem emits_sign (reply : Reply) (authorization : Authorization) (message : Bytes)
    (flags : Nat) (ground : Ground) :
    (a.sign reply authorization message flags ground).emits = a.emits := a.emits_answer _ _ _

/-- A loop whose every pass writes at most `k` messages. -/
theorem emits_foldl_le {α : Type*} {f : State ssh → α → State ssh} {k : Nat}
    (hf : ∀ a x, (f a x).emits ≤ a.emits + k) (xs : List α) :
    (xs.foldl f a).emits ≤ a.emits + k * xs.length := by
  induction xs generalizing a with
  | nil => exact Nat.le_refl _
  | cons x xs ih =>
    have hrest := ih (f a x)
    have hone := hf a x
    rw [List.foldl_cons, List.length_cons, Nat.mul_succ]
    omega

/-- The same, for a loop that writes exactly `k` messages a pass. -/
theorem emits_foldl {α : Type*} {f : State ssh → α → State ssh} (k : Nat)
    (hf : ∀ a x, (f a x).emits = a.emits + k) (xs : List α) :
    (xs.foldl f a).emits = a.emits + k * xs.length := by
  induction xs generalizing a with
  | nil => rfl
  | cons x xs ih =>
    rw [List.foldl_cons, ih, hf, List.length_cons, Nat.mul_succ]
    omega

/-! ## Withdrawing -/

@[simp] theorem emits_refusePending (id : Nat) : (a.refusePending id).emits = a.emits := by
  unfold refusePending
  split
  · rfl
  · exact emits_refuse _ _ _

@[simp] theorem emits_refuseHeld (id : Nat) : (a.refuseHeld id).emits = a.emits := by
  unfold refuseHeld
  split
  · rfl
  · exact emits_refuse _ _ _

@[simp] theorem emits_failPending : a.failPending.emits = a.emits := by
  unfold failPending
  rw [emits_foldl a 0 (fun a id => a.emits_refusePending id), Nat.zero_mul, Nat.add_zero]

theorem emits_cancelHeld (reason : CancelReason) :
    (a.cancelHeld reason).emits = a.emits + a.held.entries.length := by
  unfold cancelHeld
  rw [emits_foldl a 1 (by simp), Nat.one_mul, List.length_map]

theorem emits_releaseHeldIdentities_le (reason : CancelReason) :
    (a.releaseHeldIdentities reason).emits ≤ a.emits + 1 := by
  unfold releaseHeldIdentities
  split
  · exact Nat.le_succ _
  · -- the answers are no messages
    next waiters hwaiters =>
    rw [emits_emit, emits_foldl _ 0 (by simp), Nat.zero_mul]
    exact Nat.le_refl _

theorem emits_withdrawPending (id : Nat) : (a.withdrawPending id).emits = a.emits + 1 := by
  unfold withdrawPending
  rw [emits_emit, emits_refusePending]
  rfl

theorem emits_withdrawHeld (id : Nat) : (a.withdrawHeld id).emits = a.emits + 1 := by
  unfold withdrawHeld
  rw [emits_emit, emits_refuseHeld]

/-! ## Requests -/

theorem emits_submitSign_le (request : SignRequest) :
    (a.submitSign request).emits ≤ a.emits + 1 := by
  unfold submitSign
  simp only
  split
  · rw [emits_sign]
    exact Nat.le_succ _
  · split
    · rw [emits_refuse]
      show (a.readClock.issue _ _).emits ≤ a.emits + 1
      rw [emits_issue]
      exact Nat.le_succ _
    · show ((a.readClock.issue _ _).emit _).emits ≤ a.emits + 1
      rw [emits_emit, emits_issue]
      exact Nat.le_refl _
  · rw [emits_refuse]
    exact Nat.le_succ _

theorem emits_holdSign_le (request : SignRequest) :
    (a.holdSign request).emits ≤ a.emits + 1 := by
  unfold holdSign
  split
  · rw [emits_refuse]
    exact Nat.le_succ _
  split
  · rw [emits_refuse]
    exact Nat.le_succ _
  split
  · rw [emits_refuse]
    exact Nat.le_succ _
  · show ((a.issue _ _).emit _).emits ≤ a.emits + 1
    rw [emits_emit, emits_issue]

theorem emits_handleSign_le (request : SignRequest) :
    (a.handleSign request).emits ≤ a.emits + 1 := by
  unfold handleSign
  split
  · exact a.emits_holdSign_le request
  split
  · rw [emits_refuse]
    exact Nat.le_succ _
  · exact a.emits_submitSign_le request

theorem emits_handleIdentities_le (event : ClientEvent) :
    (a.handleIdentities event).emits ≤ a.emits + 1 := by
  unfold handleIdentities
  split
  case isFalse =>
    rw [emits_answer]
    exact Nat.le_succ _
  unfold holdIdentities
  split
  · exact Nat.le_succ _
  split
  · rw [emits_answer]
    exact Nat.le_succ _
  · show ((a.issue _ _).emit _).emits ≤ a.emits + 1
    rw [emits_emit, emits_issue]

theorem emits_handleClient_le {env : Env} (a : State env.ssh) (event : ClientEvent) :
    (a.handleClient env event).emits ≤ a.emits + 1 := by
  unfold handleClient
  split
  · exact a.emits_handleSign_le _
  split
  · exact a.emits_handleIdentities_le event
  · rw [emits_refuse]
    exact Nat.le_succ _

/-! ## Grants -/

theorem emits_settleOne (released : Nat × Authorization) :
    (a.settleOne released).emits = a.emits + 1 := by
  unfold settleOne
  rw [emits_emit]
  split
  · rfl
  · rw [emits_sign]
    rfl

theorem emits_settleGranted_le : a.settleGranted.emits ≤ a.emits + a.approvals.pending.length := by
  unfold settleGranted
  extract_lets b released
  have hfold := State.emits_foldl { b with approvals := released.2 } 1 emits_settleOne released.1
  -- what a grant releases was queued, and had not expired
  have hlen : released.1.length ≤ a.approvals.pending.length := by
    have hexpire : (b.approvals.expire b.now).pending.Sublist a.approvals.pending :=
      ApprovalManager.expire_pending_sublist
    have hfilter : released.1.length ≤ (b.approvals.expire b.now).pending.length := by
      show ((List.filter _ _).map _).length ≤ _
      rw [List.length_map]
      exact List.length_filter_le _ _
    exact hfilter.trans hexpire.length_le
  have hstart : State.emits { b with approvals := released.2 } = a.emits := rfl
  omega

/-- An approval queues nothing. -/
theorem approve_pending_sublist (m : ApprovalManager) (id grantSeconds nowMs : Nat) :
    (m.approve id grantSeconds nowMs).2.pending.Sublist m.pending := by
  have hexpire : (m.expire nowMs).pending.Sublist m.pending :=
    ApprovalManager.expire_pending_sublist
  have hdequeue : ((m.expire nowMs).dequeue id).pending.Sublist m.pending :=
    ApprovalManager.dequeue_pending_sublist.trans hexpire
  have hcase := m.approve_case id grantSeconds nowMs
  generalize m.approve id grantSeconds nowMs = result at hcase
  cases hcase with
  | unknownRequest => exact hexpire
  | idExhausted | granting | once => exact hdequeue

theorem emits_approvePending_le (id grantSeconds : Nat) (sign : PendingSign) :
    (a.approvePending id grantSeconds sign).emits ≤ a.emits + a.approvals.pending.length := by
  unfold approvePending
  extract_lets b c
  have hc : c.emits = a.emits ∧
      c.approvals = (b.approvals.approve id grantSeconds b.now).2 := by
    simp only [c]
    split
    · next heq => exact ⟨emits_sign _ _ _ _ _ _, by rw [heq]; rfl⟩
    · next heq => exact ⟨emits_refuse _ _ _, by rw [heq]; rfl⟩
  have hqueue := (approve_pending_sublist b.approvals id grantSeconds b.now).length_le
  rw [← hc.2] at hqueue
  have hb : b.approvals = a.approvals := rfl
  rw [hb] at hqueue
  split
  · have hsettle := c.emits_settleGranted_le
    omega
  · omega

theorem emits_handleApprove_le (id grantSeconds : Nat) :
    (a.handleApprove id grantSeconds).emits ≤ a.emits + a.approvals.pending.length := by
  unfold handleApprove
  split
  · exact Nat.le_add_right _ _
  split
  · exact Nat.le_add_right _ _
  · exact a.emits_approvePending_le _ _ _

/-! ## Releasing -/

theorem emits_releaseApproved (oldId grantSeconds : Nat) (request : SignRequest) :
    (a.releaseApproved oldId request grantSeconds).emits = a.emits := by
  unfold releaseApproved
  simp only
  split
  · exact emits_sign _ _ _ _ _ _
  · split
    · rw [emits_sign]
      exact emits_issue _ _ _
    · rw [emits_refuse]
      exact emits_issue _ _ _
  · exact emits_refuse _ _ _

/-- A held request is cancelled, and prompted again unless it was approved. -/
theorem emits_releaseOne_le (entry : Σ _ : Nat, HeldSign) :
    (a.releaseOne entry).emits ≤ a.emits + 2 := by
  unfold releaseOne
  extract_lets b request
  have hb : b.emits = a.emits + 1 := emits_emit _ _
  split
  · rw [emits_refuse, hb]
    exact Nat.le_succ _
  split
  · rw [emits_releaseApproved, hb]
    exact Nat.le_succ _
  · have hsubmit := b.emits_submitSign_le request
    omega

/-- Every released request may be cancelled, prompted, and then answered by a grant that a later
one opened. -/
theorem emits_releaseHeld_le {env : Env} {a : State env.ssh} (ha : Books a)
    (hgate : a.gateOpen = true) :
    a.releaseHeld.emits ≤ a.emits + 2 * a.held.entries.length + maxPending := by
  unfold releaseHeld
  extract_lets released
  have hfold := a.emits_foldl_le emits_releaseOne_le released
  have hlen : released.length = a.held.entries.length := List.length_insertionSort _ _
  have hsettle := (released.foldl releaseOne a).emits_settleGranted_le
  -- the queue is bounded after the loop, as after any moves
  have hmoves : Moves env .controlClosed a [] (released.foldl releaseOne a) :=
    release_moves ha hgate
  have hcap := (Books.moves hmoves ha).capacity
  rw [hlen] at hfold
  omega

end State

/-! ## Loads -/

theorem State.emits_announceKeys (a : State ssh) (epoch keyCount : Nat) :
    (a.announceKeys epoch keyCount).emits = a.emits + a.store.publicIdentities.length + 1 := by
  unfold State.announceKeys
  rw [State.emits_emit, State.emits_foldl a 1 (fun a key => a.emits_emit _), Nat.one_mul]

/-- A load that failed. -/
theorem emits_failed_le (a : State ssh) (message : Output) :
    (((a.emit message).cancelHeld .loadFailed).releaseHeldIdentities .loadFailed).emits ≤
      a.emits + a.held.entries.length + 2 := by
  have hlist := ((a.emit message).cancelHeld .loadFailed).emits_releaseHeldIdentities_le .loadFailed
  have hcancel := (a.emit message).emits_cancelHeld .loadFailed
  have hheld : (a.emit message).held = a.held := rfl
  rw [State.emits_emit, hheld] at hcancel
  omega

/-- **The burst the capacity is made for.** -/
theorem settleLoad_emits {env : Env} {a : State env.ssh} (ha : Books a) :
    (a.settleLoad env.serde).emits ≤ a.emits + (maxKeys + 1 + 3 * maxPending + 1) := by
  have hcap := ha.capacity
  have hcase := settleLoad_case env.serde a
  generalize a.settleLoad env.serde = b at hcase
  cases hcase with
  | pending => exact Nat.le_add_right _ _
  | @failed load payload store hload hend hpayload hpublish =>
    have hfailed := emits_failed_le
      { a with store := store.lock load.epoch, activeLoad := none, gateOpen := false }
      (.loadFailed load.epoch)
    have hstart : State.emits { a with
      store := store.lock load.epoch, activeLoad := none, gateOpen := false } = a.emits := rfl
    have hkeys : 1 ≤ maxKeys := by decide
    have hheld : State.held { a with
      store := store.lock load.epoch, activeLoad := none, gateOpen := false } = a.held := rfl
    rw [hheld] at hfailed
    omega
  | @published load bytes report store hload hend hpayload hpublish =>
    set b : State env.ssh := { a with store, activeLoad := none, gateOpen := true } with hb
    set c := b.announceKeys load.epoch report.loaded with hc
    have hbooks : Books c := .publish (.intro hload hend hpayload hpublish) ha
    have hcount : c.emits = b.emits + b.store.publicIdentities.length + 1 :=
      b.emits_announceKeys _ _
    have hkeys : c.store.publicIdentities.length ≤ maxKeys := hbooks.store_wf.length_le_max
    have hstore : c.store = b.store := by rw [hc, State.announceKeys_eq]
    have hgate : c.gateOpen = true := by rw [hc, State.announceKeys_eq]
    have hheld : c.held = a.held := by rw [hc, State.announceKeys_eq]
    have hrelease := State.emits_releaseHeld_le hbooks hgate
    have hlist := c.releaseHeld.emits_releaseHeldIdentities_le .released
    have hstart : b.emits = a.emits := rfl
    rw [hstore] at hkeys
    rw [hheld] at hrelease
    omega

/-! ## Ticks -/

/-- A load that runs out of time fails: it publishes nothing. -/
theorem expireLoad_case {env : Env} (a : State env.ssh) (nowMs : Nat) :
    (∃ activeLoad, a.expireLoad env.serde nowMs = { a with activeLoad }) ∨
      ((a.expireLoad env.serde nowMs).emits ≤ a.emits + a.held.entries.length + 2 ∧
        (a.expireLoad env.serde nowMs).gateOpen = false) := by
  unfold State.expireLoad
  split
  · next hload => exact .inl ⟨a.activeLoad, rfl⟩
  next load hload =>
  split
  case isFalse => exact .inl ⟨a.activeLoad, rfl⟩
  extract_lets load'
  set b : State env.ssh := { a with activeLoad := some load' } with hb
  have hcase := settleLoad_case env.serde b
  generalize b.settleLoad env.serde = c at hcase ⊢
  cases hcase with
  | pending => exact .inl ⟨some load', rfl⟩
  | failed hload' hend hpayload hpublish =>
    refine .inr ⟨emits_failed_le _ _, ?_⟩
    have hmoves : ∀ c : State env.ssh, Moves env .controlClosed c []
        ((c.cancelHeld .loadFailed).releaseHeldIdentities .loadFailed) := fun c =>
      (cancelHeld_moves c .loadFailed).trans' (releaseHeldIdentities_moves _ .loadFailed)
    exact (hmoves _).unmoved.gateOpen
  | published hload' hend hpayload hpublish =>
    -- its payload is the timeout
    obtain rfl := Option.some.inj hload'
    cases hpayload

theorem State.foldl_withdrawPending_held (a : State ssh) (ids : List Nat) :
    (ids.foldl State.withdrawPending a).held = a.held := by
  induction ids generalizing a with
  | nil => rfl
  | cons id ids ih =>
    have hone : (a.withdrawPending id).held = a.held := by
      unfold State.withdrawPending State.refusePending
      split <;> rfl
    exact (ih _).trans hone

theorem State.emits_withdrawStale_le (a : State ssh) (closed : Reply → Bool) (nowMs : Nat) :
    (a.withdrawStale closed nowMs).emits ≤
      a.emits + a.pending.entries.length + a.held.entries.length + 1 := by
  unfold State.withdrawStale
  extract_lets expired b stale c
  have hb : b.emits = a.emits + 1 * (expired.map (·.1)).length :=
    a.emits_foldl 1 State.emits_withdrawPending _
  have hc : c.emits = b.emits + 1 * (stale.map (·.1)).length :=
    b.emits_foldl 1 State.emits_withdrawHeld _
  have hheld : b.held = a.held := a.foldl_withdrawPending_held _
  have hexpired : expired.length ≤ a.pending.entries.length := List.length_filter_le _ _
  have hstale : stale.length ≤ b.held.entries.length := List.length_filter_le _ _
  rw [hheld] at hstale
  rw [List.length_map] at hb hc
  split
  · have hlist := c.emits_releaseHeldIdentities_le .withdrawn
    omega
  · omega

theorem State.emits_emitGrantsIfChanged_le (a : State ssh) (nowMs : Nat) :
    (a.emitGrantsIfChanged nowMs).emits ≤ a.emits + 1 := by
  unfold State.emitGrantsIfChanged
  simp only
  split
  · exact Nat.le_succ _
  · rw [State.emits_emit]
    exact Nat.le_refl _

/-- A tick withdraws every stale entry of the pending-sign map, and little else. -/
theorem State.emits_handleTick_le {env : Env} {a : State env.ssh} (ha : Books a) (hshut : HeldShut a)
    (closed : Reply → Bool) :
    (a.handleTick env.serde closed).emits ≤
      a.emits + max (a.pending.entries.length + 2) (2 * maxPending + 4) := by
  unfold State.handleTick
  extract_lets b now c
  have hc : Moves env .controlClosed a [] c := (Moves.single (.clock a)).trans' (.expire b now)
  have hbooks : Books c := ha.moves hc
  have hcap := hbooks.capacity
  set d := c.expireLoad env.serde now with hd
  have hstale := d.emits_withdrawStale_le closed now
  have hgrants := (d.withdrawStale closed now).emits_emitGrantsIfChanged_le now
  have hstart : c.emits = a.emits := rfl
  have hpending : c.pending = a.pending := rfl
  have hheld : c.held = a.held := rfl
  rcases expireLoad_case c now with ⟨activeLoad, hsame⟩ | ⟨hfailed, hclosed⟩
  · have hemits : d.emits = c.emits := by rw [hd, hsame]; rfl
    have hd_pending : d.pending = a.pending := by rw [hd, hsame]; rfl
    have hd_held : d.held = a.held := by rw [hd, hsame]; rfl
    rw [hd_pending, hd_held] at hstale
    rw [hheld] at hcap
    cases hgate : a.gateOpen with
    | true =>
      have hnone : a.held.entries.length = 0 := by
        rw [hshut hgate]
        rfl
      omega
    | false =>
      have hnone : a.pending.entries.length = 0 := by
        rw [(ha.shut hgate).2.2]
        rfl
      omega
  · -- the gate is closed, so no entry is pending
    rw [← hd] at hfailed hclosed
    have hexpire : Iterates env .controlClosed c [] d := expireLoad_iterates hbooks now
    have hd_books : Books d := hexpire.books hbooks
    have hnone : d.pending.entries.length = 0 := by
      rw [(hd_books.shut hclosed).2.2]
      rfl
    have hd_cap := hd_books.capacity
    omega

/-! ## Control messages -/

namespace State

variable (a : State ssh)

/-- What a lock or a logout withdraws. -/
theorem emits_closed_le (reason : CancelReason) :
    ((a.failPending.cancelHeld reason).releaseHeldIdentities reason).emits ≤
      a.emits + a.held.entries.length + 1 := by
  have hlist := (a.failPending.cancelHeld reason).emits_releaseHeldIdentities_le reason
  have hcancel := a.failPending.emits_cancelHeld reason
  have hheld : a.failPending.held = a.held := by rw [failPending_eq]
  rw [emits_failPending, hheld] at hcancel
  omega

theorem emits_handleVaultLocked_le (epoch : Nat) :
    (a.handleVaultLocked epoch).emits ≤ a.emits + a.held.entries.length + 2 := by
  unfold handleVaultLocked
  extract_lets b c
  have hclosed := c.emits_closed_le .locked
  have hstart : c.emits = a.emits := rfl
  have hheld : c.held = a.held := rfl
  rw [hheld] at hclosed
  rw [emits_emit]
  omega

theorem emits_handleVaultLoggedOut_le :
    a.handleVaultLoggedOut.emits ≤ a.emits + a.held.entries.length + 1 :=
  emits_closed_le _ .loggedOut

theorem emits_handleDeny_le (id : Nat) : (a.handleDeny id).emits ≤ a.emits + 1 := by
  unfold handleDeny
  extract_lets b c
  have hc : c.emits = a.emits := by
    simp only [c, emits_refuseHeld, emits_refusePending]
    rfl
  split
  · have hlist := c.emits_releaseHeldIdentities_le .cancelled
    omega
  · omega

theorem emits_handleKeyLoadBegin (epoch : Nat) (loadId : String) (fifoReady : Bool) :
    (a.handleKeyLoadBegin epoch loadId fifoReady).2.emits = a.emits := by
  have hfail : State.emits (State.failPending { a with
      gateOpen := false, approvals := a.approvals.invalidateAll }) = a.emits := emits_failPending _
  unfold handleKeyLoadBegin
  split
  · rfl
  simp only
  split
  · exact hfail
  split
  · exact hfail
  · exact hfail

theorem emits_handleKeyLoadEnd_le {env : Env} {a : State env.ssh} (ha : Books a) (epoch : Nat)
    (status : LoadStatus) :
    (a.handleKeyLoadEnd env.serde epoch status).2.emits ≤
      a.emits + (maxKeys + 1 + 3 * maxPending + 1) := by
  have hcap := ha.capacity
  unfold handleKeyLoadEnd
  split
  · exact Nat.le_add_right _ _
  next load hload =>
  split
  · exact Nat.le_add_right _ _
  split
  · extract_lets source b
    have hlist := (b.cancelHeld .loadFailed).emits_releaseHeldIdentities_le .loadFailed
    have hcancel := b.emits_cancelHeld .loadFailed
    have hstart : b.emits = a.emits := rfl
    have hheld : b.held = a.held := rfl
    rw [hheld] at hcancel
    show ((b.cancelHeld .loadFailed).releaseHeldIdentities .loadFailed).emits ≤ _
    omega
  · extract_lets b payloadDeadlineMs load
    have hset : Shift b { b with activeLoad := some load } := .load b _ (.inl (by
      show a.activeLoad.isSome = true
      simp [hload]))
    exact settleLoad_emits (Books.shift hset { ha with })

theorem emits_handleControl_le {env : Env} {a : State env.ssh} (ha : Books a) (fifoReady : Bool)
    (message : ControlMessage) :
    (a.handleControl env fifoReady message).2.emits ≤
      a.emits + (maxKeys + 1 + 3 * maxPending + 1) := by
  have hcap := ha.capacity
  cases message with
  | hello =>
    show (a.handleHello env).2.emits ≤ _
    unfold handleHello
    split
    · show (State.emit _ _).emits ≤ _
      rw [emits_emit]
      exact Nat.add_le_add_left (by decide) _
    · exact Nat.le_add_right _ _
  | vaultLocked epoch =>
    have hle := a.emits_handleVaultLocked_le epoch
    show (a.handleVaultLocked epoch).emits ≤ _
    omega
  | vaultLoggedOut =>
    have hle := a.emits_handleVaultLoggedOut_le
    show a.handleVaultLoggedOut.emits ≤ _
    omega
  | approve requestId grantSeconds =>
    have hle := a.emits_handleApprove_le requestId grantSeconds
    show (a.handleApprove requestId grantSeconds).emits ≤ _
    omega
  | deny requestId | unlockCancelled requestId _ =>
    have hle := a.emits_handleDeny_le requestId
    show (a.handleDeny requestId).emits ≤ _
    omega
  | options | revokeGrants | revokeGrant | shutdown => exact Nat.le_add_right _ _
  | keyLoadBegin epoch loadId =>
    show (a.handleKeyLoadBegin epoch loadId fifoReady).2.emits ≤ _
    rw [emits_handleKeyLoadBegin]
    exact Nat.le_add_right _ _
  | keyLoadEnd epoch status => exact emits_handleKeyLoadEnd_le ha epoch status

theorem emits_handleLoadResult_le {env : Env} {a : State env.ssh} (ha : Books a) (epoch : Nat)
    (result : Except RuntimeError Bytes) :
    (a.handleLoadResult env.serde epoch result).emits ≤
      a.emits + (maxKeys + 1 + 3 * maxPending + 1) := by
  unfold handleLoadResult
  split
  · exact Nat.le_add_right _ _
  next load hload =>
  split
  · exact Nat.le_add_right _ _
  · have hset : Shift a { a with activeLoad := some { load with payload := some result } } :=
      .load a _ (by simp [hload])
    exact settleLoad_emits (Books.shift hset ha)

end State

/-! ## Iterations -/

/-- A channel with enough room takes every message. -/
theorem performed_eq_self {room : Nat} {log : List (Effect ssh)}
    (h : (emitted log).length ≤ room) : performed room log = log := by
  induction log generalizing room with
  | nil => cases room <;> rfl
  | cons effect log ih =>
    cases effect with
    | emit message =>
      cases room with
      | zero => simp [emitted] at h
      | succ room =>
        have hrest : (emitted log).length ≤ room := by simpa [emitted] using h
        rw [performed, ih hrest]
    | answer | issue =>
      have hrest : (emitted log).length ≤ room := by simpa [emitted] using h
      cases room <;> rw [performed, ih hrest] <;> simp

/-- An iteration never writes more than the channel holds, unless it is a tick that finds more
than `CONTROL_OUTPUT_CAPACITY - 2` entries in the pending-sign map. -/
theorem burst_le_capacity {env : Env} {h : List (Turn env.ssh)} {t : Turn env.ssh}
    {s : Option (State env.ssh)} (run : (system env).Run (t :: h) s)
    (htick : ∀ closed, t.input = .tick closed →
      t.before.pending.entries.length ≤ controlOutputCapacity - 2) :
    (emitted (t.outcome env).2.log).length ≤ controlOutputCapacity ∧
      (t.room = controlOutputCapacity → t.effects env = (t.outcome env).2.log) := by
  have hbooks : Books t.start := { (turn_books run).1 with }
  have hshut : HeldShut t.start := (turn_books run).2
  have hle : (t.outcome env).2.emits ≤ controlOutputCapacity := by
    have hstart : t.start.emits = 0 := rfl
    have hcapacity : controlOutputCapacity = 146 := rfl
    have hpublish : maxKeys + 1 + 3 * maxPending + 1 = 142 := rfl
    unfold Turn.outcome
    cases hinput : t.input with
    | control message fifoReady =>
      have hle := State.emits_handleControl_le hbooks fifoReady message
      show (t.start.handleControl env fifoReady message).2.emits ≤ _
      omega
    | controlClosed | controlInvalid => exact Nat.zero_le _
    | client event =>
      have hle := t.start.emits_handleClient_le event
      show (t.start.handleClient env event).emits ≤ _
      omega
    | loadResult task epoch result =>
      have hle := State.emits_handleLoadResult_le hbooks epoch result
      show (t.start.handleLoadResult env.serde epoch result).emits ≤ _
      omega
    | tick closed =>
      have hle := State.emits_handleTick_le hbooks hshut closed.contains
      have hpending : t.start.pending.entries.length ≤ controlOutputCapacity - 2 :=
        htick closed hinput
      have hfew : maxPending = 4 := rfl
      show (t.start.handleTick env.serde closed.contains).emits ≤ _
      omega
  refine ⟨hle, fun hroom => ?_⟩
  unfold Turn.effects
  exact performed_eq_self (hroom ▸ hle)

theorem burst_le_capacity_sample :
    (replay sampleEnv sampleEvents).2.pending.entries.length = 1 ∧
    (emitted (((replay sampleEnv sampleEvents).2.turn (requestLifetimeMs, .tick [])).outcome
      sampleEnv).2.log).length ≤ controlOutputCapacity := by
  have hone : (replay sampleEnv sampleEvents).2.pending.entries.length = 1 := by decide +kernel
  have hrun := replay_run sampleEvents_playable
  generalize replay sampleEnv sampleEvents = sample at hone hrun ⊢
  have hstep : (system sampleEnv).Run (sample.2.turn (requestLifetimeMs, .tick []) :: sample.1) _ :=
    hrun.step ⟨_, rfl, .refl _, trivial, le_refl _, rfl⟩
  refine ⟨hone, (burst_le_capacity hstep ?_).1⟩
  intro closed _
  show sample.2.pending.entries.length ≤ controlOutputCapacity - 2
  rw [hone]
  decide

/-- `n` sign requests, two minutes apart, with no tick in between. -/
def starved : Nat → List (Nat × Input)
  | 0 => sampleLoad 1 0 sampleLoadId sampleNonce
  | n + 1 => (requestLifetimeMs, sampleSign n) :: starved n

theorem starved_playable (n : Nat) : Playable sampleEnv (starved n) := by
  induction n with
  | zero =>
    obtain ⟨-, -, hload⟩ := sampleEvents_playable
    exact hload
  | succ n ih =>
    refine ⟨receivable_of_fresh ?_, ⟨rfl, ?_⟩, ih⟩
    · -- every earlier reply is smaller
      have hlt : ∀ n, ∀ other ∈ starved n, ∀ event, other.2 = .client event → event.reply < n := by
        intro n
        induction n with
        | zero => simp [starved, sampleLoad]
        | succ n ih =>
          intro other hmem event heq
          rcases List.mem_cons.mp hmem with rfl | hmem
          · cases heq
            exact Nat.lt_succ_self n
          · exact Nat.lt_succ_of_lt (ih other hmem event heq)
      intro other hmem event heq
      exact Nat.ne_of_lt (hlt n other hmem event heq)
    · have hle := ((replay sampleEnv (starved n)).2.turn
        (requestLifetimeMs, sampleSign n)).start.emits_handleClient_le
        ⟨samplePeer, false, [], .sign sampleBlob sampleMessage 0, n⟩
      exact hle.trans (show 1 ≤ controlOutputCapacity by decide)

/-- After 147 such requests the tick has 147 withdrawals to write, and the helper ends. -/
theorem tick_overflows :
    (system sampleEnv).Run ((replay sampleEnv (starved 147)).2.turn (requestLifetimeMs, .tick []) ::
      (replay sampleEnv (starved 147)).1) none ∧
    controlOutputCapacity < (emitted (((replay sampleEnv (starved 147)).2.turn
      (requestLifetimeMs, .tick [])).outcome sampleEnv).2.log).length := by
  have hburst : controlOutputCapacity < (emitted (((replay sampleEnv (starved 147)).2.turn
      (requestLifetimeMs, .tick [])).outcome sampleEnv).2.log).length := by decide +kernel
  have hrun := replay_run (starved_playable 147)
  generalize replay sampleEnv (starved 147) = sample at hburst hrun ⊢
  refine ⟨hrun.step ⟨_, rfl, .refl _, trivial, le_refl _, ?_⟩, hburst⟩
  unfold Turn.next
  rw [if_neg]
  exact fun hcompletes => Nat.not_le.mpr hburst hcompletes.2

end QsBitwarden.Agent
