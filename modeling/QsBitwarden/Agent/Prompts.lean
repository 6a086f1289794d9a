import QsBitwarden.Agent.Iterations

/-!
# Agent — prompts raised and withdrawn

The panel learns of a request from `unlock_required` or `approval_required`, and takes its prompt
down when it answers or is sent `request_cancelled`. Requests leave the loop's maps on many paths;
each has to say so, or to follow from the panel's own answer.

* **`promptings`** — what the messages of an iteration raise and withdraw.
* **`Drops`** — an action that takes out at most one request.
* **`Tracks`** — every prompt that is up is of a stored request, and every stored request was
  announced. Three rules carry it (`of_stores`, `raise`, `withdraw`), and every handler but
  `failPending` is put together from them; hence `Tracks.handle`.
-/

namespace QsBitwarden.Agent

open SshWire

variable {env : Env} {ssh : Ssh}

/-! ## What the messages raise and withdraw -/

/-- What a message does to the prompts of the panel. -/
inductive Prompting where
  | raised (id : Nat)
  | withdrawn (id : Nat)
  deriving DecidableEq

def Output.prompting : Output → Option Prompting
  | .approvalRequired _ prompt | .unlockRequired _ prompt => some (.raised prompt.requestId)
  | .requestCancelled id _ => some (.withdrawn id)
  | _ => none

def promptings (log : List (Effect ssh)) : List Prompting :=
  (emitted log).filterMap Output.prompting

def Prompting.update (shown : List Nat) : Prompting → List Nat
  | .raised id => id :: shown
  | .withdrawn id => shown.filter (· ≠ id)

/-- The request the panel's line answers. -/
def Input.answered : Input → Option Nat
  | .control (.approve id _) _ | .control (.deny id) _ | .control (.unlockCancelled id _) _ =>
    some id
  | _ => none

/-- The id is in the pending map, in the held map or in `held_identities`. -/
def State.Stores (a : State ssh) (id : Nat) : Prop :=
  id ∈ a.pending ∨ id ∈ a.held ∨ a.heldIdentities.any (fun waiters => waiters.requestId = id)

instance (a : State ssh) (id : Nat) : Decidable (a.Stores id) :=
  inferInstanceAs (Decidable (_ ∨ _ ∨ _))

/-! ## Inside an iteration -/

@[simp]
theorem promptings_append (log log' : List (Effect ssh)) :
    promptings (log ++ log') = promptings log ++ promptings log' := by
  simp [promptings, emitted]

@[simp]
theorem promptings_answer (reply : Reply) (response : Bytes) (basis : Basis ssh) :
    promptings [.answer reply response basis] = [] := rfl

@[simp]
theorem promptings_issue (id : Nat) (reply : Reply) :
    promptings [(.issue id reply : Effect ssh)] = [] := rfl

theorem promptings_emit {message : Output} {prompting : Prompting}
    (h : message.prompting = some prompting) :
    promptings [(.emit message : Effect ssh)] = [prompting] := by
  simp [promptings, emitted, h]

/-- At most the request `id` left. -/
structure Drops (id : Nat) (a b : State ssh) : Prop where
  keeps : ∀ id', id' ≠ id → a.Stores id' → b.Stores id'
  only : ∀ id', b.Stores id' → a.Stores id'

namespace Drops

variable {a b c : State ssh} {id : Nat}

theorem of_eq (hpending : b.pending = a.pending) (hheld : b.held = a.held)
    (hwaiters : b.heldIdentities = a.heldIdentities) : Drops id a b := by
  constructor
  · intro id' _ hstores
    unfold State.Stores at *
    rwa [hpending, hheld, hwaiters]
  · intro id' hstores
    unfold State.Stores at *
    rwa [hpending, hheld, hwaiters] at hstores

theorem trans (h : Drops id a b) (h' : Drops id b c) : Drops id a c :=
  ⟨fun id' hne hstores => h'.keeps id' hne (h.keeps id' hne hstores),
    fun id' hstores => h.only id' (h'.only id' hstores)⟩

theorem erasePending (a : State ssh) (id : Nat) :
    Drops id a { a with pending := a.pending.erase id } :=
  ⟨fun _ hne => Or.imp_left fun hmem => AList.mem_erase.mpr ⟨hne, hmem⟩,
    fun _ => Or.imp_left fun hmem => (AList.mem_erase.mp hmem).2⟩

theorem eraseHeld (a : State ssh) (id : Nat) : Drops id a { a with held := a.held.erase id } :=
  ⟨fun _ hne => Or.imp_right (Or.imp_left fun hmem => AList.mem_erase.mpr ⟨hne, hmem⟩),
    fun _ => Or.imp_right (Or.imp_left fun hmem => (AList.mem_erase.mp hmem).2)⟩

theorem refusePending (a : State ssh) (id : Nat) : Drops id a (a.refusePending id) := by
  unfold State.refusePending
  split
  · exact .of_eq rfl rfl rfl
  · exact (erasePending a id).trans (.of_eq rfl rfl rfl)

theorem refuseHeld (a : State ssh) (id : Nat) : Drops id a (a.refuseHeld id) := by
  unfold State.refuseHeld
  split
  · exact .of_eq rfl rfl rfl
  · exact (eraseHeld a id).trans (.of_eq rfl rfl rfl)

end Drops

theorem promptings_refusePending (a : State ssh) (id : Nat) :
    promptings (a.refusePending id).log = promptings a.log := by
  unfold State.refusePending
  split
  · rfl
  · simp [State.refuse, State.answer]

theorem promptings_refuseHeld (a : State ssh) (id : Nat) :
    promptings (a.refuseHeld id).log = promptings a.log := by
  unfold State.refuseHeld
  split
  · rfl
  · simp [State.refuse, State.answer]

/-- The prompts that are up are of stored requests, and these were announced: here, or before this
iteration (`past`). `shown` are the prompts that were up when it began. -/
structure Tracks (shown : List Nat) (past : Nat → Prop) (a : State ssh) : Prop where
  kept : ∀ id ∈ (promptings a.log).foldl Prompting.update shown, a.Stores id
  announced : ∀ id, a.Stores id → past id ∨ .raised id ∈ promptings a.log

namespace Tracks

variable {shown : List Nat} {past : Nat → Prop} {a b : State ssh}

/-! ### The three rules -/

variable (h : Tracks shown past a)
include h

theorem of_stores (hstores : ∀ id, b.Stores id ↔ a.Stores id)
    (hlog : promptings b.log = promptings a.log) : Tracks shown past b := by
  constructor
  · intro id hid
    rw [hlog] at hid
    exact (hstores id).mpr (h.kept id hid)
  · intro id hid
    rw [hlog]
    exact h.announced id ((hstores id).mp hid)

theorem of_eq (hpending : b.pending = a.pending) (hheld : b.held = a.held)
    (hwaiters : b.heldIdentities = a.heldIdentities) (hlog : promptings b.log = promptings a.log) :
    Tracks shown past b := by
  refine h.of_stores (fun id => ?_) hlog
  unfold State.Stores
  rw [hpending, hheld, hwaiters]

theorem raise (id : Nat) (hlog : promptings b.log = promptings a.log ++ [.raised id])
    (hnew : b.Stores id) (hkeeps : ∀ id', a.Stores id' → b.Stores id')
    (honly : ∀ id', b.Stores id' → id' = id ∨ a.Stores id') : Tracks shown past b := by
  constructor
  · intro id' hid
    rw [hlog, List.foldl_append] at hid
    rcases List.mem_cons.mp hid with rfl | hid
    · exact hnew
    · exact hkeeps id' (h.kept id' hid)
  · intro id' hid
    rw [hlog]
    rcases honly id' hid with rfl | hid
    · exact .inr List.mem_concat_self
    · exact (h.announced id' hid).imp_right (List.mem_append_left _)

theorem withdraw (id : Nat) (hlog : promptings b.log = promptings a.log ++ [.withdrawn id])
    (hdrops : Drops id a b) : Tracks shown past b := by
  constructor
  · intro id' hid
    rw [hlog, List.foldl_append] at hid
    obtain ⟨hid, hne⟩ := List.mem_filter.mp hid
    exact hdrops.keeps id' (of_decide_eq_true hne) (h.kept id' hid)
  · intro id' hid
    rw [hlog]
    exact (h.announced id' (hdrops.only id' hid)).imp_right (List.mem_append_left _)

/-- A request the panel has answered may go without a word. -/
theorem forget {id : Nat} (hquiet : promptings a.log = []) (hanswered : id ∉ shown)
    (hlog : promptings b.log = []) (hdrops : Drops id a b) : Tracks shown past b := by
  constructor
  · intro id' hid
    rw [hlog] at hid
    have hne : id' ≠ id := fun heq => hanswered (heq ▸ hid)
    refine hdrops.keeps id' hne (h.kept id' ?_)
    rw [hquiet]
    exact hid
  · intro id' hid
    rw [hlog, ← hquiet]
    exact h.announced id' (hdrops.only id' hid)

/-! ### What changes no prompt -/

theorem readClock : Tracks shown past a.readClock :=
  h.of_eq rfl rfl rfl rfl

theorem setApprovals (approvals : ApprovalManager) :
    Tracks shown past { a with approvals } := h.of_eq rfl rfl rfl rfl

theorem answer (reply : Reply) (response : Bytes) (basis : Basis ssh) :
    Tracks shown past (a.answer reply response basis) :=
  h.of_eq rfl rfl rfl (by simp [State.answer])

theorem issue (id : Nat) (reply : Reply) : Tracks shown past (a.issue id reply) :=
  h.of_eq rfl rfl rfl (by simp [State.issue])

theorem emit {message : Output} (hmessage : message.prompting = none) :
    Tracks shown past (a.emit message) := by
  refine h.of_eq rfl rfl rfl ?_
  simp [State.emit, promptings, emitted, hmessage]

omit h

theorem foldl {α : Type} {f : State ssh → α → State ssh}
    (hf : ∀ a x, Tracks shown past a → Tracks shown past (f a x)) (h : Tracks shown past a)
    (xs : List α) : Tracks shown past (xs.foldl f a) := by
  induction xs generalizing a with
  | nil => exact h
  | cons x xs ih => exact ih (hf a x h)

/-! ### Requests coming in -/

variable (h : Tracks shown past a)
include h

theorem submitSign (request : SignRequest) : Tracks shown past (a.submitSign request) := by
  unfold State.submitSign
  dsimp only
  split
  · exact (h.readClock.setApprovals _).answer _ _ _
  · next id approvals _ =>
    have hissued := (h.readClock.setApprovals approvals).issue id request.reply
    split
    · exact (hissued.setApprovals _).answer _ _ _
    · next key _ =>
      refine hissued.raise id ?_ ?_ ?_ ?_
      · simp [State.emit, promptings_emit, Output.prompting, SignRequest.prompt]
      · exact .inl ((AList.mem_insert _).mpr (.inl rfl))
      · exact fun id' => Or.imp_left fun hmem => (AList.mem_insert _).mpr (.inr hmem)
      · rintro id' (hmem | hrest)
        · exact ((AList.mem_insert _).mp hmem).imp_right .inl
        · exact .inr (.inr hrest)
  · exact (h.readClock.setApprovals _).answer _ _ _

theorem holdSign (request : SignRequest) : Tracks shown past (a.holdSign request) := by
  unfold State.holdSign
  split
  · exact h.answer _ _ _
  · split
    · exact h.answer _ _ _
    · split
      · exact h.answer _ _ _
      · next id approvals _ =>
        refine ((h.setApprovals approvals).issue id request.reply).raise id ?_ ?_ ?_ ?_
        · simp [State.emit, State.readClock, promptings_emit, Output.prompting, SignRequest.prompt]
        · exact .inr (.inl ((AList.mem_insert _).mpr (.inl rfl)))
        · exact fun id' => Or.imp_right (Or.imp_left fun hmem => (AList.mem_insert _).mpr (.inr hmem))
        · rintro id' (hmem | hmem | hrest)
          · exact .inr (.inl hmem)
          · exact ((AList.mem_insert _).mp hmem).imp_right fun hmem => .inr (.inl hmem)
          · exact .inr (.inr (.inr hrest))

theorem handleSign (request : SignRequest) : Tracks shown past (a.handleSign request) := by
  unfold State.handleSign
  split
  · exact h.holdSign request
  · split
    · exact h.answer _ _ _
    · exact h.submitSign request

theorem holdIdentities (event : ClientEvent) : Tracks shown past (a.holdIdentities event) := by
  unfold State.holdIdentities
  split
  · next waiters hwaiters =>
    -- The listings share the one id.
    refine h.of_stores (fun id => ?_) rfl
    unfold State.Stores
    rw [hwaiters]
    rfl
  · next hnone =>
    split
    · exact h.answer _ _ _
    · next id approvals _ =>
      refine ((h.setApprovals approvals).issue id event.reply).raise id ?_ ?_ ?_ ?_
      · simp [State.emit, State.readClock, promptings_emit, Output.prompting]
      · exact .inr (.inr (decide_eq_true rfl))
      · rintro id' (hmem | hmem | hrest)
        · exact .inl hmem
        · exact .inr (.inl hmem)
        · have hsome : a.heldIdentities.any (fun waiters => waiters.requestId = id') := hrest
          rw [hnone] at hsome
          cases hsome
      · rintro id' (hmem | hmem | hrest)
        · exact .inr (.inl hmem)
        · exact .inr (.inr (.inl hmem))
        · exact .inl (of_decide_eq_true hrest).symm

omit h

theorem handleClient {env : Env} {a : State env.ssh} (h : Tracks shown past a)
    (event : ClientEvent) : Tracks shown past (a.handleClient env event) := by
  unfold State.handleClient
  split
  · exact h.handleSign _
  · split
    · unfold State.handleIdentities
      split
      · exact h.holdIdentities event
      · exact h.answer _ _ _
    · exact h.answer _ _ _

/-! ### Requests going out -/

/-- A request taken out, and the panel told. -/
theorem cancel (h : Tracks shown past a) {id : Nat} (hdrops : Drops id a b)
    (reason : CancelReason) (hlog : promptings b.log = promptings a.log) :
    Tracks shown past (b.emit (.requestCancelled id reason)) := by
  refine h.withdraw id ?_ (hdrops.trans (.of_eq rfl rfl rfl))
  simp [State.emit, promptings_emit, Output.prompting, hlog]

theorem cancelHeld (h : Tracks shown past a) (reason : CancelReason) :
    Tracks shown past (a.cancelHeld reason) :=
  h.foldl (fun a id h => h.cancel (.refuseHeld a id) reason (promptings_refuseHeld a id)) _

theorem promptings_listings (store : KeyStore ssh) (waiting : List (Reply × Bool)) :
    promptings (waiting.map fun waiter =>
      (.answer waiter.1 (identitiesFor store waiter.2) .listing : Effect ssh)) = [] := by
  simp [promptings, emitted, List.filterMap_map]

variable (h : Tracks shown past a)
include h

theorem releaseHeldIdentities (reason : CancelReason) :
    Tracks shown past (a.releaseHeldIdentities reason) := by
  unfold State.releaseHeldIdentities
  split
  · exact h
  · next waiters hwaiters =>
    dsimp only
    rw [State.foldl_answer_listing]
    refine h.cancel ?_ reason ?_
    · constructor
      · rintro id' hne (hmem | hmem | hrest)
        · exact .inl hmem
        · exact .inr (.inl hmem)
        · rw [hwaiters] at hrest
          exact absurd (of_decide_eq_true hrest).symm hne
      · rintro id' (hmem | hmem | hrest)
        · exact .inl hmem
        · exact .inr (.inl hmem)
        · cases hrest
    · rw [promptings_append, promptings_listings, List.append_nil]

theorem settleOne (released : Nat × Authorization) : Tracks shown past (a.settleOne released) := by
  unfold State.settleOne
  dsimp only
  split
  · exact h.cancel (.of_eq rfl rfl rfl) _ rfl
  · refine h.cancel ((Drops.erasePending a released.1).trans ?_) _ ?_
    · exact .of_eq rfl rfl rfl
    · simp [State.sign, State.answer]

theorem settleGranted : Tracks shown past a.settleGranted :=
  (h.readClock.setApprovals _).foldl (fun _ released h => h.settleOne released) _

theorem releaseApproved (oldId : Nat) (request : SignRequest) (grantSeconds : Nat) :
    Tracks shown past (a.releaseApproved oldId request grantSeconds) := by
  unfold State.releaseApproved
  dsimp only
  split
  · exact (h.readClock.setApprovals _).answer _ _ _
  · next id approvals _ =>
    have hissued := ((h.readClock.setApprovals approvals).issue id request.reply).readClock
    split
    · exact (hissued.setApprovals _).answer _ _ _
    · exact (hissued.setApprovals _).answer _ _ _
  · exact (h.readClock.setApprovals _).answer _ _ _

theorem releaseOne (entry : Σ _ : Nat, HeldSign) : Tracks shown past (a.releaseOne entry) := by
  unfold State.releaseOne
  dsimp only
  have hcancelled := h.cancel (Drops.eraseHeld a entry.1) .released rfl
  split
  · exact hcancelled.answer _ _ _
  · split
    · exact hcancelled.releaseApproved _ _ _
    · exact hcancelled.submitSign _

theorem releaseHeld : Tracks shown past a.releaseHeld :=
  (h.foldl (fun _ entry h => h.releaseOne entry) _).settleGranted

/-! ### Loads and ticks -/

theorem announceKeys (epoch keyCount : Nat) : Tracks shown past (a.announceKeys epoch keyCount) :=
  (h.foldl (fun _ _ h => h.emit rfl) _).emit rfl

theorem finishLoadIfReady (serde : Serde) : Tracks shown past (a.finishLoadIfReady serde).2 := by
  unfold State.finishLoadIfReady
  split
  · exact h
  · split
    · dsimp only
      split
      · refine announceKeys ?_ _ _
        exact h.of_eq rfl rfl rfl rfl
      · refine emit ?_ rfl
        exact h.of_eq rfl rfl rfl rfl
    · exact h

theorem settleLoad (serde : Serde) : Tracks shown past (a.settleLoad serde) := by
  have hfinished := h.finishLoadIfReady serde
  unfold State.settleLoad
  split
  · next b heq =>
    rw [heq] at hfinished
    exact hfinished
  · next b heq =>
    rw [heq] at hfinished
    exact hfinished.releaseHeld.releaseHeldIdentities _
  · next b heq =>
    rw [heq] at hfinished
    exact (hfinished.cancelHeld _).releaseHeldIdentities _

theorem withdrawPending (id : Nat) : Tracks shown past (a.withdrawPending id) :=
  (h.setApprovals _).cancel (.refusePending _ id) .withdrawn (promptings_refusePending _ id)

theorem withdrawHeld (id : Nat) : Tracks shown past (a.withdrawHeld id) :=
  h.cancel (.refuseHeld a id) .withdrawn (promptings_refuseHeld a id)

theorem withdrawStale (closed : Reply → Bool) (nowMs : Nat) :
    Tracks shown past (a.withdrawStale closed nowMs) := by
  unfold State.withdrawStale
  dsimp only
  have hpending := h.foldl (fun _ id h => h.withdrawPending id)
    ((a.pending.entries.filter fun entry =>
      closed entry.2.reply || !a.approvals.isPending entry.1).map (·.1))
  have hheld := hpending.foldl (fun _ id h => h.withdrawHeld id)
  split
  · exact (hheld _).releaseHeldIdentities _
  · exact hheld _

theorem emitGrantsIfChanged (nowMs : Nat) : Tracks shown past (a.emitGrantsIfChanged nowMs) := by
  unfold State.emitGrantsIfChanged
  dsimp only
  split
  · exact h
  · refine emit ?_ rfl
    exact h.of_eq rfl rfl rfl rfl

theorem expireLoad (serde : Serde) (nowMs : Nat) :
    Tracks shown past (a.expireLoad serde nowMs) := by
  unfold State.expireLoad
  split
  · exact h
  · split
    · refine settleLoad ?_ serde
      exact h.of_eq rfl rfl rfl rfl
    · exact h

theorem handleTick (serde : Serde) (closed : Reply → Bool) :
    Tracks shown past (a.handleTick serde closed) :=
  (((h.readClock.setApprovals _).expireLoad serde _).withdrawStale closed _).emitGrantsIfChanged _

theorem handleLoadResult (serde : Serde) (epoch : Nat) (result : Except RuntimeError Bytes) :
    Tracks shown past (a.handleLoadResult serde epoch result) := by
  unfold State.handleLoadResult
  split
  · exact h
  · split
    · exact h
    · refine settleLoad ?_ serde
      exact h.of_eq rfl rfl rfl rfl

omit h

/-! ### Control lines -/

/-- Nothing is queued, so nothing is failed. -/
theorem failPending_of_empty (hempty : a.pending = ∅) : a.failPending = a := by
  unfold State.failPending
  rw [hempty]
  rfl

variable (h : Tracks shown past a)
include h

variable (hempty : a.pending = ∅)
include hempty

theorem handleVaultLocked (epoch : Nat) : Tracks shown past (a.handleVaultLocked epoch) := by
  unfold State.handleVaultLocked
  dsimp only
  rw [failPending_of_empty (by exact hempty)]
  refine emit (releaseHeldIdentities (cancelHeld ?_ _) _) rfl
  exact h.of_eq rfl rfl rfl rfl

theorem handleVaultLoggedOut : Tracks shown past a.handleVaultLoggedOut := by
  unfold State.handleVaultLoggedOut
  dsimp only
  rw [failPending_of_empty (by exact hempty)]
  refine releaseHeldIdentities (cancelHeld ?_ _) _
  exact h.of_eq rfl rfl rfl rfl

theorem handleKeyLoadBegin (epoch : Nat) (loadId : String) (fifoReady : Bool) :
    Tracks shown past (a.handleKeyLoadBegin epoch loadId fifoReady).2 := by
  unfold State.handleKeyLoadBegin
  split
  · exact h
  · dsimp only
    rw [failPending_of_empty (by exact hempty)]
    split
    · exact h.of_eq rfl rfl rfl rfl
    · split
      · exact h.of_eq rfl rfl rfl rfl
      · exact h.of_eq rfl rfl rfl rfl

omit hempty

theorem handleKeyLoadEnd (serde : Serde) (epoch : Nat) (status : LoadStatus) :
    Tracks shown past (a.handleKeyLoadEnd serde epoch status).2 := by
  unfold State.handleKeyLoadEnd
  split
  · exact h
  · split
    · exact h
    · split
      · refine releaseHeldIdentities (cancelHeld ?_ _) _
        exact h.of_eq rfl rfl rfl rfl
      · refine settleLoad ?_ serde
        exact h.of_eq rfl rfl rfl rfl

/-- An approval is the panel's answer, so the request it takes out goes without a word. -/
theorem handleApprove (hlog : a.log = []) {requestId : Nat} (hanswered : requestId ∉ shown)
    (grantSeconds : Nat) : Tracks shown past (a.handleApprove requestId grantSeconds) := by
  unfold State.handleApprove
  split
  · next request hheld =>
    -- Marked, and held as before.
    refine h.of_stores (fun id => or_congr_right (or_congr_left ?_)) rfl
    rw [AList.mem_insert]
    exact ⟨fun hid => hid.elim (fun heq => heq ▸ Table.mem_of_lookup hheld) fun hmem => hmem, .inr⟩
  · split
    · exact h
    · next sign _ =>
      unfold State.approvePending
      have herased : Tracks shown past { a with pending := a.pending.erase requestId } :=
        h.forget (by rw [hlog]; rfl) hanswered (by rw [hlog]; rfl) (.erasePending a requestId)
      dsimp only
      -- Signed or refused, the request is answered.
      generalize ApprovalManager.approve _ requestId grantSeconds _ = outcome
      obtain ⟨_ | _, approvals⟩ := outcome
      all_goals
        dsimp only
        split
        · exact ((herased.readClock.setApprovals approvals).answer _ _ _).settleGranted
        · exact (herased.readClock.setApprovals approvals).answer _ _ _

theorem handleDeny (hlog : a.log = []) {requestId : Nat} (hanswered : requestId ∉ shown) :
    Tracks shown past (a.handleDeny requestId) := by
  unfold State.handleDeny
  dsimp only
  have hrefused : Tracks shown past
      (({ a with approvals := a.approvals.disconnect requestId }.refusePending requestId).refuseHeld
        requestId) := by
    refine (h.setApprovals (a.approvals.disconnect requestId)).forget (by rw [hlog]; rfl) hanswered
      ?_ ((Drops.refusePending _ requestId).trans (.refuseHeld _ requestId))
    rw [promptings_refuseHeld, promptings_refusePending]
    show promptings a.log = []
    rw [hlog]
    rfl
  split
  · exact hrefused.releaseHeldIdentities _
  · exact hrefused

end Tracks

/-- The lines on which the loop drops its queue. -/
def Input.dropsQueue : Input → Bool
  | .control (.vaultLocked _) _ | .control .vaultLoggedOut _ | .control (.keyLoadBegin ..) _ => true
  | _ => false

theorem Tracks.handle {shown : List Nat} {past : Nat → Prop} {a : State env.ssh} {input : Input}
    (h : Tracks shown past a) (hlog : a.log = [])
    (hanswered : ∀ id, input.answered = some id → id ∉ shown)
    (hcalm : input.dropsQueue = true → a.pending = ∅) :
    Tracks shown past (a.handle env input).2 := by
  cases input with
  | control message fifoReady =>
    cases message with
    | hello =>
      show Tracks shown past (a.handleHello env).2
      unfold State.handleHello
      split
      · refine Tracks.emit ?_ rfl
        exact h.of_eq rfl rfl rfl rfl
      · exact h
    | keyLoadBegin epoch loadId => exact h.handleKeyLoadBegin (hcalm rfl) epoch loadId fifoReady
    | keyLoadEnd epoch status => exact h.handleKeyLoadEnd env.serde epoch status
    | vaultLocked epoch => exact h.handleVaultLocked (hcalm rfl) epoch
    | vaultLoggedOut => exact h.handleVaultLoggedOut (hcalm rfl)
    | approve id grantSeconds => exact h.handleApprove hlog (hanswered id rfl) grantSeconds
    | deny id | unlockCancelled id reason => exact h.handleDeny hlog (hanswered id rfl)
    | options unlockOnDemand => exact h.of_eq rfl rfl rfl rfl
    | revokeGrants | revokeGrant grantId => exact h.setApprovals _
    | shutdown => exact h
  | controlClosed => exact h
  | controlInvalid => exact h
  | client event => exact h.handleClient event
  | loadResult task epoch result => exact h.handleLoadResult env.serde epoch result
  | tick closed => exact h.handleTick env.serde _

end QsBitwarden.Agent
