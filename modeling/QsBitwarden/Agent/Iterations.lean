import QsBitwarden.Agent.Refinement

/-!
# Agent — iterations of the loop

The rest of the refinement: loads, ticks and control messages, up to the `select!` itself.

* **`PublishCase`** — what a finished load's payload can do to the store.
* **`Publishes`** — the one step that is no move: the gate opens on freshly published keys.
* **`Iterates`** — an iteration: moves, or moves around one publication.
* **`handle_iterates`** — every event, from books in order, iterates; and **`Iterates.heldShut`** —
  it ends with nothing held behind an open gate.
-/

namespace QsBitwarden.Agent

open SshWire

variable {env : Env} {input : Input}

variable {ssh : Ssh}

/-! ## Publishing a payload -/

/-- The outcomes of `publishPayload`. -/
inductive PublishCase {ssh : Ssh} (serde : Serde) (store : KeyStore ssh) (window : LoadWindow) :
    Except RuntimeError Bytes → Option LoadReport × KeyStore ssh → Prop where
  | refused (payload : Except RuntimeError Bytes) :
      PublishCase serde store window payload (none, store)
  | failed (payload : Except RuntimeError Bytes) (hepoch : store.epoch < window.epoch) :
      PublishCase serde store window payload (none, store.begun window.epoch)
  | published (bytes expected supplied : Bytes) (raw : RawEnvelope) (load : CandidateLoad ssh)
      (report : LoadReport) (hnonce : window.nonce = some expected)
      (hraw : serde.envelope bytes = some raw) (hsupplied : parseNonce raw.loadId = some supplied)
      (heq : constantTimeEq supplied expected) (hepoch : store.epoch < window.epoch)
      (hload : load.WF) :
      PublishCase serde store window (.ok bytes)
        (some report, ⟨⟨window.epoch, .unlocked⟩, load.publicIdentities, load.privateIdentities⟩)

theorem publishPayload_case (serde : Serde) (store : KeyStore ssh) (window : LoadWindow)
    (payload : Except RuntimeError Bytes) :
    PublishCase serde store window payload (publishPayload serde store window payload) := by
  cases payload with
  | error => exact .refused _
  | ok bytes =>
    have hcase := decode_case serde window bytes store
    simp only [publishPayload]
    generalize window.decode serde bytes store = decoded at hcase
    cases hcase with
    | refused => exact .refused _
    | failed error hepoch => exact .failed _ hepoch
    | candidate expected supplied raw load hnonce hraw hsupplied heq hepoch hload hload' =>
      rcases (store.begun window.epoch).publish_cases load with ⟨error, hp⟩ | ⟨-, -, -, hp⟩
      · simp only [hp]
        exact .failed _ hepoch
      · simp only [hp, hload']
        exact .published bytes expected supplied raw load _ hnonce hraw hsupplied heq hepoch hload

theorem KeyStore.WF.begun {store : KeyStore ssh} (h : store.WF) (epoch : Nat) :
    (store.begun epoch).WF :=
  ⟨.nil h.keyed.distinct, by simp [KeyStore.begun], h.length_le_max⟩

/-- A failed payload leaves a well-formed store. -/
theorem wf_of_publishPayload_none {serde : Serde} {store store' : KeyStore ssh}
    {window : LoadWindow} {payload : Except RuntimeError Bytes} (hwf : store.WF)
    (h : publishPayload serde store window payload = (none, store')) : store'.WF := by
  have hcase := publishPayload_case serde store window payload
  rw [h] at hcase
  cases hcase with
  | refused => exact hwf
  | failed => exact hwf.begun _

/-- The messages that announce a store's keys. -/
def announcement {ssh : Ssh} (store : KeyStore ssh) (epoch keyCount : Nat) : List Output :=
  (store.publicIdentities.map fun key =>
    .publicKey epoch key.itemId key.name key.fingerprint key.publicKeyOpenssh) ++
  [.keysLoaded epoch keyCount]

/-- Announcing keys only writes messages to the log. -/
theorem State.announceKeys_eq (a : State ssh) (epoch keyCount : Nat) :
    a.announceKeys epoch keyCount =
      { a with log := a.log ++ (announcement a.store epoch keyCount).map .emit } := by
  unfold State.announceKeys announcement
  generalize a.store.publicIdentities = keys
  induction keys generalizing a with
  | nil => rfl
  | cons key keys ih =>
    rw [List.foldl_cons, ih]
    simp [State.emit]

/-- The gate opens on the keys of the active load, whose end and payload are both there,
and the panel is told. -/
inductive Publishes {ssh : Ssh} (serde : Serde) (a : State ssh) : State ssh → Prop where
  | intro {load : ActiveLoad} {bytes : Bytes} {report : LoadReport} {store : KeyStore ssh}
      (hload : a.activeLoad = some load) (hend : load.endReceived = true)
      (hpayload : load.payload = some (.ok bytes))
      (hpublish : publishPayload serde a.store load.window (.ok bytes) = (some report, store)) :
      Publishes serde a (State.announceKeys { a with store, activeLoad := none, gateOpen := true }
        load.epoch report.loaded)

theorem Books.publish {serde : Serde} {a b : State ssh} (h : Publishes serde a b) (ha : Books a) :
    Books b := by
  cases h with
  | @intro load bytes report store hload hend hpayload hpublish =>
    have hcase := publishPayload_case serde a.store load.window (.ok bytes)
    rw [hpublish] at hcase
    have hgate : a.gateOpen = false := ha.gate_of_load (by simp [hload])
    cases hcase with
    | published _ _ _ raw candidate _ hnonce hraw hsupplied heq hepoch hwf =>
      rw [State.announceKeys_eq]
      exact (ha.restore _ hgate ⟨hwf.keyed, fun _ => rfl, hwf.length_le_max⟩ true fun _ => rfl).effects
        _

/-- Nothing is held behind an open gate. Unlike the books this fails in the middle of an iteration:
the gate opens first, and then what was held is released. -/
def HeldShut {ssh : Ssh} (a : State ssh) : Prop := a.gateOpen = true → a.held = ∅

namespace HeldShut

variable {a b : State env.ssh} {added : List Reply}

theorem of_lookup {ssh : Ssh} {a : State ssh} (ha : HeldShut a) {id : Nat} {request : HeldSign}
    (h : a.held.lookup id = some request) : a.gateOpen = false := by
  by_contra hgate
  rw [ha (by simpa using hgate)] at h
  cases h

theorem source {request : SignRequest} (ha : HeldShut a) (h : Source env input a request added b) :
    HeldShut b := by
  cases h with
  | fresh => exact ha
  | held hheld =>
    intro hgate
    exact absurd (ha.of_lookup hheld) (by simpa using hgate)

theorem move (h : Move env input a added b) (ha : HeldShut a) : HeldShut b := by
  cases h with
  | clock | emit | settings | thin | refusePending | reply | wait | list | burn | settle => exact ha
  | refuse why hsource | grant hsource | queue deadlineMs hsource =>
    have hb := ha.source hsource
    exact hb
  | hold deadlineMs hinput hrequest hgate => exact fun hopen => absurd (hgate.symm.trans hopen) nofun
  | mark hinput hheld => exact fun hopen => absurd ((ha.of_lookup hheld).symm.trans hopen) nofun
  | approve opened => cases opened <;> exact ha
  | release opened hheld happroved hgate =>
    exact absurd ((ha.of_lookup hheld).symm.trans hgate) nofun

theorem moves (h : Moves env input a added b) : HeldShut a → HeldShut b :=
  h.preserve fun _ _ _ h => move h

theorem shift {ssh : Ssh} {a b : State ssh} (h : Shift a b) (ha : HeldShut a) : HeldShut b := by
  cases h with
  | load => exact ha
  | close | relock | fail => exact fun hgate => nomatch hgate

end HeldShut

/-- One iteration: moves, shifts between them, and at most one publication, after which moves
release all that was held. -/
inductive Iterates (env : Env) (input : Input) :
    State env.ssh → List Reply → State env.ssh → Prop where
  | moves {a b : State env.ssh} {added : List Reply} (h : Moves env input a added b) :
      Iterates env input a added b
  | shift {a m m' b : State env.ssh} (before : Moves env input a [] m) (shift : Shift m m')
      (after : Iterates env input m' [] b) : Iterates env input a [] b
  | publish {a m m' b : State env.ssh} (before : Moves env input a [] m)
      (publish : Publishes env.serde m m') (after : Moves env input m' [] b) (shut : HeldShut b) :
      Iterates env input a [] b

namespace Iterates

variable {a b c : State env.ssh} {added : List Reply}

theorem after (h : Moves env input a [] b) (h' : Iterates env input b added c) :
    Iterates env input a added c := by
  cases h' with
  | moves h' => exact .moves (h.trans' h')
  | shift before shift after => exact .shift (h.trans' before) shift after
  | publish before publish after shut => exact .publish (h.trans' before) publish after shut

theorem before (h : Iterates env input a added b) (h' : Moves env input b [] c) :
    Iterates env input a added c := by
  induction h with
  | moves h =>
    have := h.trans h'
    rw [List.append_nil] at this
    exact .moves this
  | shift before shift after ih => exact .shift before shift (ih h')
  | publish before publish after shut =>
    exact .publish before publish (after.trans' h') (shut.moves h')

/-- What every move, every shift and every publication keeps, an iteration keeps. -/
theorem preserve {I : State env.ssh → Prop}
    (hmove : ∀ a added b, Move env input a added b → I a → I b)
    (hshift : ∀ a b : State env.ssh, Shift a b → I a → I b)
    (hpublish : ∀ a b, Publishes env.serde a b → I a → I b) (h : Iterates env input a added b) :
    I a → I b := by
  induction h with
  | moves h => exact h.preserve hmove
  | shift before shift after ih => exact fun ha => ih (hshift _ _ shift (before.preserve hmove ha))
  | publish before publish after shut =>
    exact fun ha => after.preserve hmove (hpublish _ _ publish (before.preserve hmove ha))

theorem books (h : Iterates env input a added b) : Books a → Books b :=
  h.preserve (fun _ _ _ h => Books.move h) (fun _ _ h => Books.shift h) fun _ _ h => Books.publish h

theorem heldShut (h : Iterates env input a added b) (ha : HeldShut a) : HeldShut b := by
  induction h with
  | moves h => exact ha.moves h
  | shift before shift after ih => exact ih (.shift shift (ha.moves before))
  | publish before publish after shut => exact shut

end Iterates

variable {a : State env.ssh} {event : ClientEvent} {request : SignRequest} {fifoReady : Bool}

/-! ## Loads -/

theorem State.settleGranted_held {ssh : Ssh} (a : State ssh) : a.settleGranted.held = a.held := by
  have hone : ∀ (a : State ssh) released, (a.settleOne released).held = a.held := by
    intro a released
    unfold State.settleOne
    simp only
    split <;> rfl
  unfold State.settleGranted
  extract_lets b released
  generalize released.1 = entries
  have hfold : ∀ a : State ssh, (entries.foldl State.settleOne a).held = a.held := by
    induction entries with
    | nil => exact fun _ => rfl
    | cons entry entries ih => exact fun a => (ih _).trans (hone a entry)
  exact hfold _

/-- Everything held has left the map. -/
theorem State.releaseHeld_held {ssh : Ssh} (a : State ssh) : a.releaseHeld.held = ∅ := by
  have hperm := List.perm_insertionSort (fun x y : Σ _ : Nat, HeldSign => x.1 ≤ y.1) a.held.entries
  -- A key that is still there was there before, and has no entry in the list.
  have hfold : ∀ (entries : List (Σ _ : Nat, HeldSign)) (a : State ssh) id,
      id ∈ (entries.foldl State.releaseOne a).held → id ∈ a.held ∧ id ∉ entries.map (·.1) := by
    intro entries
    induction entries with
    | nil => exact fun a id h => ⟨h, List.not_mem_nil⟩
    | cons entry entries ih =>
      intro a id h
      obtain ⟨hmem, hnot⟩ := ih _ _ h
      rw [(State.releaseOne_frame _ _).1, AList.mem_erase] at hmem
      exact ⟨hmem.2, by simp [hmem.1, hnot]⟩
  unfold State.releaseHeld
  rw [State.settleGranted_held]
  refine Table.eq_empty fun id hid => ?_
  obtain ⟨hmem, hnot⟩ := hfold _ a id hid
  exact hnot ((hperm.map _).mem_iff.mpr hmem)

/-- The outcomes of settling: nothing to settle yet, a failed load, or published keys. -/
inductive SettleCase {ssh : Ssh} (serde : Serde) (a : State ssh) : State ssh → Prop where
  | pending : SettleCase serde a a
  | failed {load : ActiveLoad} {payload : Except RuntimeError Bytes} {store : KeyStore ssh}
      (hload : a.activeLoad = some load) (hend : load.endReceived = true)
      (hpayload : load.payload = some payload)
      (hpublish : publishPayload serde a.store load.window payload = (none, store)) :
      SettleCase serde a
        (((({ a with store := store.lock load.epoch, activeLoad := none, gateOpen := false } :
          State ssh).emit (.loadFailed load.epoch)).cancelHeld .loadFailed).releaseHeldIdentities
          .loadFailed)
  | published {load : ActiveLoad} {bytes : Bytes} {report : LoadReport} {store : KeyStore ssh}
      (hload : a.activeLoad = some load) (hend : load.endReceived = true)
      (hpayload : load.payload = some (.ok bytes))
      (hpublish : publishPayload serde a.store load.window (.ok bytes) = (some report, store)) :
      SettleCase serde a
        ((({ a with store, activeLoad := none, gateOpen := true } : State ssh).announceKeys
          load.epoch report.loaded).releaseHeld.releaseHeldIdentities .released)

theorem settleLoad_case {ssh : Ssh} (serde : Serde) (a : State ssh) :
    SettleCase serde a (a.settleLoad serde) := by
  unfold State.settleLoad State.finishLoadIfReady
  cases hload : a.activeLoad with
  | none => exact .pending
  | some load =>
    cases hend : load.endReceived with
    | false =>
      simp only [hend]
      exact .pending
    | true =>
      cases hpayload : load.payload with
      | none =>
        simp only [hend, hpayload]
        exact .pending
      | some payload =>
        rcases hpublish : publishPayload serde a.store load.window payload with ⟨_ | report, store⟩
        · simp only [hend, hpayload, hpublish]
          exact .failed hload hend hpayload hpublish
        · -- only bytes can be published
          have hcase := publishPayload_case serde a.store load.window payload
          rw [hpublish] at hcase
          cases hcase with
          | published =>
            simp only [hend, hpayload, hpublish]
            exact .published hload hend hpayload hpublish

theorem settleLoad_iterates (ha : Books a) : Iterates env input a [] (a.settleLoad env.serde) := by
  have hcase := settleLoad_case env.serde a
  generalize a.settleLoad env.serde = b at hcase
  cases hcase with
  | pending => exact .moves (.refl a)
  | @failed load payload store hload hend hpayload hpublish =>
    have hwf := wf_of_publishPayload_none ha.store_wf hpublish
    have hfail : Shift a _ :=
      .fail a (store.lock load.epoch) load.epoch (by simp [hload]) fun _ => hwf.lock _
    exact .shift (.refl a) hfail
      (.moves ((cancelHeld_moves _ _).trans' (releaseHeldIdentities_moves _ _)))
  | @published load bytes report store hload hend hpayload hpublish =>
    set b : State env.ssh := { a with store, activeLoad := none, gateOpen := true } with hb
    set c := b.announceKeys load.epoch report.loaded with hc
    have hpub : Publishes env.serde a c := .intro hload hend hpayload hpublish
    have hrelease : Moves env input c [] c.releaseHeld :=
      releaseHeld_moves (.publish hpub ha) (by rw [hc, State.announceKeys_eq])
    have hrest : Moves env input c.releaseHeld [] (c.releaseHeld.releaseHeldIdentities .released) :=
      releaseHeldIdentities_moves _ _
    have hshut : HeldShut c.releaseHeld := fun _ => State.releaseHeld_held _
    exact .publish (.refl a) hpub (hrelease.trans' hrest) (hshut.moves hrest)

/-! ## Ticks -/

theorem expireLoad_iterates (ha : Books a) (nowMs : Nat) :
    Iterates env input a [] (a.expireLoad env.serde nowMs) := by
  unfold State.expireLoad
  split
  · exact .moves (.refl a)
  next load hload =>
  split
  · have hset : Shift a
        { a with activeLoad := some { load with payload := some (.error .readTimeout) } } :=
      .load a _ (by simp [hload])
    exact .shift (.refl a) hset (settleLoad_iterates (Books.shift hset ha))
  · exact .moves (.refl a)

theorem withdrawStale_moves (a : State env.ssh) (closed : Reply → Bool) (nowMs : Nat) :
    Moves env input a [] (a.withdrawStale closed nowMs) := by
  unfold State.withdrawStale
  have hpending : ∀ (a : State env.ssh) id, Moves env input a [] (a.withdrawPending id) :=
    fun a id => (disconnect_refusePending_moves a id).trans' (.emit _ _)
  have hheld : ∀ (a : State env.ssh) id, Moves env input a [] (a.withdrawHeld id) :=
    fun a id => (refuseHeld_moves a id).trans' (.emit _ _)
  extract_lets expired b stale c
  have hb : Moves env input a [] b := .foldl hpending _ a
  have hc : Moves env input b [] c := .foldl hheld _ b
  refine hb.trans' (hc.trans' ?_)
  split
  · exact releaseHeldIdentities_moves c _
  · exact .refl c

theorem emitGrantsIfChanged_moves (a : State env.ssh) (nowMs : Nat) :
    Moves env input a [] (a.emitGrantsIfChanged nowMs) := by
  unfold State.emitGrantsIfChanged
  simp only
  split
  · exact .refl a
  · exact (Moves.single (.settings a a.unlockOnDemand _ a.handshakeComplete)).trans' (.emit _ _)

theorem handleTick_iterates (ha : Books a) (closed : Reply → Bool) :
    Iterates env input a [] (a.handleTick env.serde closed) := by
  unfold State.handleTick
  extract_lets b now c
  have hc : Moves env input a [] c := (Moves.single (.clock a)).trans' (.expire b now)
  refine .after hc (.before (expireLoad_iterates (Books.moves hc ha) now) ?_)
  exact (withdrawStale_moves _ _ _).trans' (emitGrantsIfChanged_moves _ _)

/-! ## Client events -/

theorem ApprovalManager.reserveRequestId_ok {m approvals : ApprovalManager} {id : Nat}
    (h : m.reserveRequestId = (.ok id, approvals)) :
    m.nextId = id ∧ { m with nextId := m.nextId + 1 } = approvals ∧
      m.nextId + 1 ≤ Words.u64Max := by
  unfold ApprovalManager.reserveRequestId at h
  split at h
  · cases h
  · next nextId hsome =>
    obtain ⟨rfl, hle⟩ := Words.checkedAdd_eq_some.mp hsome
    obtain ⟨hid, hm⟩ := Prod.mk.inj h
    exact ⟨Except.ok.inj hid, hm, hle⟩

theorem holdSign_moves (hinput : input = .client event)
    (hrequest : event.signRequest env = some request) (hgate : a.gateOpen = false) :
    Moves env input a [request.reply] (a.holdSign request) := by
  have hfresh : Source env input a request [request.reply] a := .fresh hinput hrequest
  unfold State.holdSign
  split
  · exact .single (.refuse .unknownKey hfresh)
  next key hkey =>
  split
  · exact .single (.refuse .notHeld hfresh)
  next hadmit =>
  obtain ⟨huid, hroom⟩ : request.peer.uid = a.approvals.expectedUid ∧
      a.approvals.pending.length + a.held.entries.length < maxPending := by
    simp only [ApprovalManager.expectsUid, ApprovalManager.capacityRemaining, Bool.or_eq_true,
      Bool.not_eq_true', beq_eq_false_iff_ne, beq_iff_eq, not_or, not_not] at hadmit
    omega
  split
  · exact .single (.refuse .notHeld hfresh)
  next id approvals hreserve =>
  obtain ⟨rfl, rfl, hnext⟩ := ApprovalManager.reserveRequestId_ok hreserve
  exact ((Moves.single (.hold a _ hinput hrequest hgate hroom hnext huid)).snoc (.emit _ _)).snoc
    (.clock _)

theorem handleSign_moves (ha : Books a) (hheld : HeldShut a) (hinput : input = .client event)
    (hrequest : event.signRequest env = some request) :
    Moves env input a [request.reply] (a.handleSign request) := by
  have hfresh : Source env input a request [request.reply] a := .fresh hinput hrequest
  unfold State.handleSign
  split
  · next hgate => exact holdSign_moves hinput hrequest (by simpa using hgate)
  next hgate =>
  have hgate : a.gateOpen = true := by simpa using hgate
  split
  · exact .single (.refuse .unknownKey hfresh)
  · refine submitSign_moves ha hfresh hgate (.inl ?_)
    rw [hheld hgate]
    rfl

theorem handleIdentities_moves (a : State env.ssh) (hinput : input = .client event)
    (hother : event.signRequest env = none) :
    Moves env input a [event.reply] (a.handleIdentities event) := by
  have hnow : Moves env input a [event.reply]
      (a.answer event.reply (identitiesFor a.store event.forwarded) .listing) :=
    .single (.reply a _ _ hinput hother (by simp))
  unfold State.handleIdentities
  split
  case isFalse => exact hnow
  unfold State.holdIdentities
  split
  · next waiters hwaiters =>
    exact .single (.wait a _ hinput hother (by simp [hwaiters]))
  next hnone =>
  split
  · exact hnow
  next id approvals hreserve =>
  obtain ⟨rfl, rfl, hnext⟩ := ApprovalManager.reserveRequestId_ok hreserve
  refine (Moves.single (.burn a event.reply hnext)).trans' ((Moves.emit _ _).trans'
    ((Moves.single (.clock _)).trans' (.single (.wait _ _ hinput hother ?_))))
  show _ = (a.heldIdentities.elim [] fun w => w.waiting.map (·.1)) ++ [event.reply]
  rw [hnone]
  rfl

theorem ClientEvent.signRequest_reply (h : event.signRequest env = some request) :
    request.reply = event.reply := by
  unfold ClientEvent.signRequest at h
  split at h
  · cases h
    rfl
  · cases h

theorem handleClient_moves (ha : Books a) (hheld : HeldShut a) (hinput : input = .client event) :
    Moves env input a [event.reply] (a.handleClient env event) := by
  unfold State.handleClient
  split
  · next request hrequest =>
    rw [← ClientEvent.signRequest_reply hrequest]
    exact handleSign_moves ha hheld hinput hrequest
  next hother =>
  split
  · exact handleIdentities_moves a hinput hother
  · exact .single (.reply a _ _ hinput hother (by simp))

/-! ## Control messages -/

theorem approvePending_moves (ha : Books a) {id grantSeconds : Nat} {sign : PendingSign}
    (hinput : input = .control (.approve id grantSeconds) fifoReady)
    (hsign : a.pending.lookup id = some sign) :
    Moves env input a [] (a.approvePending id grantSeconds sign) := by
  set c := a.readClock with hc
  set d := c.keep (c.approvals.expire c.now).pending (c.approvals.expire c.now).grants with hd
  have hexpire : Moves env input a [] d := (Moves.single (.clock a)).trans' (.expire c c.now)
  have hbooks : Books d := Books.moves hexpire ha
  have hsettle : ∀ {s}, Moves env input d [] s →
      Moves env input a [] (if 0 < grantSeconds then s.settleGranted else s) := by
    intro s hs
    have hone := hexpire.trans' hs
    split
    · exact hone.trans' (settleGranted_moves (Books.moves hone ha))
    · exact hone
  have hcase := c.approvals.approve_case id grantSeconds c.now
  have happrove : { a with pending := a.pending.erase id }.readClock.approvals.approve id grantSeconds
      { a with pending := a.pending.erase id }.readClock.now
        = c.approvals.approve id grantSeconds c.now := rfl
  unfold State.approvePending
  dsimp only
  rw [happrove]
  generalize c.approvals.approve id grantSeconds c.now = result at hcase
  cases hcase with
  | unknownRequest hgone => exact hsettle (.single (.refusePending d _ hsign hgone))
  | idExhausted request hmem hid hlast =>
    -- A queued request has a larger id than any grant.
    have hids := hbooks.grant_ids
    have hnext := hbooks.next_le
    have hpos : 0 < d.approvals.pending.length := List.length_pos_of_mem hmem
    have hlast : Words.u64Max < d.approvals.nextGrantId + 1 := hlast
    omega
  | granting request hmem hid hsome hscope =>
    have hlive := (ApprovalManager.mem_expire_pending.mp hmem).2
    refine hsettle (.single (.approve d (some _) hinput hsign hmem hid hlive ?_))
    rintro grant ⟨rfl⟩
    exact ⟨rfl, rfl, rfl, rfl, rfl, hscope⟩
  | once request hmem hid honce =>
    have hlive := (ApprovalManager.mem_expire_pending.mp hmem).2
    exact hsettle (.single (.approve d none hinput hsign hmem hid hlive (by simp)))

theorem handleApprove_moves (ha : Books a) {id grantSeconds : Nat}
    (hinput : input = .control (.approve id grantSeconds) fifoReady) :
    Moves env input a [] (a.handleApprove id grantSeconds) := by
  unfold State.handleApprove
  split
  · next request hheld => exact .single (.mark a hinput hheld)
  split
  · exact .refl a
  · next sign hsign => exact approvePending_moves ha hinput hsign

theorem handleDeny_moves (a : State env.ssh) (id : Nat) :
    Moves env input a [] (a.handleDeny id) := by
  unfold State.handleDeny
  extract_lets b c
  have hc : Moves env input a [] c :=
    (disconnect_refusePending_moves a id).trans' (refuseHeld_moves _ id)
  refine hc.trans' ?_
  split
  · exact releaseHeldIdentities_moves c _
  · exact .refl c

/-- Everything queued is failed, nothing granted survives, and the gate is closed. -/
theorem close_iterates {b : State env.ssh} (store : KeyStore env.ssh)
    (activeLoad : Option ActiveLoad) (tasks : Nat) (hstore : a.store.WF → store.WF)
    (h : Moves env input (State.failPending { a with
      gateOpen := false, store, activeLoad, tasks, approvals := a.approvals.invalidateAll }) [] b) :
    Iterates env input a [] b := by
  have hclose : Shift (a.keep [] []).failPending (State.failPending { a with
      gateOpen := false, store, activeLoad, tasks, approvals := a.approvals.invalidateAll }) := by
    rw [State.failPending_eq, State.failPending_eq]
    exact .close _ store activeLoad tasks rfl hstore
  exact .shift (failPending_moves a) hclose (.moves h)

theorem handleVaultLocked_iterates (a : State env.ssh) (epoch : Nat) :
    Iterates env input a [] (a.handleVaultLocked epoch) := by
  unfold State.handleVaultLocked
  extract_lets b c
  have hrest : Moves env input c.failPending [] _ :=
    ((cancelHeld_moves c.failPending .locked).trans' (releaseHeldIdentities_moves _ .locked)).trans'
      (.emit _ (.locked epoch))
  exact close_iterates (a.store.lock epoch) none a.tasks (fun h => h.lock epoch) hrest

theorem handleVaultLoggedOut_iterates (a : State env.ssh) :
    Iterates env input a [] a.handleVaultLoggedOut := by
  unfold State.handleVaultLoggedOut
  extract_lets b store c
  have hrest : Moves env input c.failPending [] _ :=
    (cancelHeld_moves c.failPending .loggedOut).trans' (releaseHeldIdentities_moves _ .loggedOut)
  exact close_iterates store none a.tasks (fun _ => .logout _) hrest

/-- The gate closes for a load even when `key_load_begin` is then refused. -/
theorem handleKeyLoadBegin_iterates (a : State env.ssh) (epoch : Nat) (loadId : String)
    (fifoReady : Bool) :
    Iterates env input a [] (a.handleKeyLoadBegin epoch loadId fifoReady).2 := by
  unfold State.handleKeyLoadBegin
  split
  · exact .moves (.refl a)
  have hclose : ∀ activeLoad tasks, Iterates env input a [] (State.failPending { a with
      gateOpen := false, activeLoad, tasks, approvals := a.approvals.invalidateAll }) :=
    fun activeLoad tasks => close_iterates a.store activeLoad tasks id (.refl _)
  simp only [State.failPending_eq] at hclose ⊢
  split
  · exact hclose a.activeLoad a.tasks
  next window hwindow =>
  split
  · exact hclose a.activeLoad a.tasks
  · exact hclose (some ⟨epoch, window, none, false, none, a.tasks⟩) (a.tasks + 1)

theorem handleKeyLoadEnd_iterates (ha : Books a) (epoch : Nat) (status : LoadStatus) :
    Iterates env input a [] (a.handleKeyLoadEnd env.serde epoch status).2 := by
  unfold State.handleKeyLoadEnd
  split
  · exact .moves (.refl a)
  next load hload =>
  split
  · exact .moves (.refl a)
  split
  · have hrelock : Shift a
        { a with store := a.store.lock epoch, activeLoad := none, gateOpen := false } :=
      .relock a _ (by simp [hload]) fun h => h.lock epoch
    exact .shift (.refl a) hrelock
      (.moves ((cancelHeld_moves _ _).trans' (releaseHeldIdentities_moves _ _)))
  · extract_lets b payloadDeadlineMs load'
    have hclock : Moves env input a [] b := .single (.clock a)
    have hset : Shift b { b with activeLoad := some load' } := .load b _ (.inl (by
      show a.activeLoad.isSome = true
      simp [hload]))
    exact .shift hclock hset (settleLoad_iterates (Books.shift hset (ha.moves hclock)))

theorem handleLoadResult_iterates (ha : Books a) (epoch : Nat)
    (result : Except RuntimeError Bytes) :
    Iterates env input a [] (a.handleLoadResult env.serde epoch result) := by
  unfold State.handleLoadResult
  split
  · exact .moves (.refl a)
  next load hload =>
  split
  · exact .moves (.refl a)
  · have hset : Shift a { a with activeLoad := some { load with payload := some result } } :=
      .load a _ (by simp [hload])
    exact .shift (.refl a) hset (settleLoad_iterates (Books.shift hset ha))

/-! ## The loop -/

/-- The replies an event brings into the loop. -/
def Input.replies : Input → List Reply
  | .client event => [event.reply]
  | _ => []

theorem handleControl_iterates (ha : Books a) {message : ControlMessage}
    (hinput : input = .control message fifoReady) :
    Iterates env input a [] (a.handleControl env fifoReady message).2 := by
  unfold State.handleControl
  split
  · -- hello
    unfold State.handleHello
    split
    · exact .moves ((Moves.single (.settings a a.unlockOnDemand a.grantSnapshot true)).trans'
        (.emit _ _))
    · exact .moves (.refl a)
  · exact handleVaultLocked_iterates a _
  · exact handleVaultLoggedOut_iterates a
  · exact .moves (handleApprove_moves ha hinput)
  · exact .moves (handleDeny_moves a _)
  · exact .moves (handleDeny_moves a _)
  · exact .moves (.single (.settings a _ a.grantSnapshot a.handshakeComplete))
  · exact .moves (.single (.thin a (List.Sublist.refl _) (List.nil_sublist _)))
  · exact .moves (.single (.thin a (List.Sublist.refl _) List.filter_sublist))
  · exact .moves (.refl a)
  · exact handleKeyLoadBegin_iterates a _ _ _
  · exact handleKeyLoadEnd_iterates ha _ _

theorem handle_iterates (ha : Books a) (hheld : HeldShut a) (input : Input) :
    Iterates env input a input.replies (a.handle env input).2 := by
  cases input with
  | control message fifoReady => exact handleControl_iterates ha rfl
  | controlClosed | controlInvalid => exact .moves (.refl a)
  | client event => exact .moves (handleClient_moves ha hheld rfl)
  | loadResult task epoch result => exact handleLoadResult_iterates ha epoch result
  | tick closed => exact handleTick_iterates ha _

end QsBitwarden.Agent
