import QsBitwarden.Agent.Moves

/-!
# Agent — every handler is a sequence of moves

The refinement behind the run theorems: for each function of the loop, the state it returns is
reached by moves. A sequence need only agree with the code at its two ends, so where the code
takes several entries out at once (`release_granted`, `fail_pending` after the gate has closed)
the moves take them one at a time.

* **closed forms** — `failPending_eq`, `foldl_answer_listing`: the two loops that only answer.
* **`submitSign_moves`**, **`releaseOne_moves`**, **`settleGranted_moves`** — the paths on which a
  request can be signed.
* **`releaseHeld_moves`** — the release of what was held, which is all three.
-/

namespace QsBitwarden.Agent

open SshWire

variable {env : Env} {input : Input}

namespace Moves

/-- A loop whose every pass is moves. -/
theorem foldl {α : Type*} {f : State env.ssh → α → State env.ssh}
    (hf : ∀ a x, Moves env input a [] (f a x)) (xs : List α) (a : State env.ssh) :
    Moves env input a [] (xs.foldl f a) := by
  induction xs generalizing a with
  | nil => exact .refl a
  | cons x xs ih => exact (hf a x).trans' (ih (f a x))

theorem emit (a : State env.ssh) (message : Output) (hmessage : message.endsLoad = false := by rfl) :
    Moves env input a [] (a.emit message) :=
  .single (.emit a message hmessage)

/-- Expiry is a thinning. -/
theorem expire (a : State env.ssh) (nowMs : Nat) :
    Moves env input a [] { a with approvals := a.approvals.expire nowMs } :=
  .single (.thin a ApprovalManager.expire_pending_sublist ApprovalManager.expire_grants_sublist)

end Moves

/-! ## Sources survive what does not touch the held map -/

namespace Source

variable {a b : State env.ssh} {request : SignRequest} {added : List Reply}

variable (h : Source env input a request added b)
include h

theorem readClock : Source env input a.readClock request added b.readClock := by
  cases h with
  | fresh hinput hrequest => exact .fresh hinput hrequest
  | held hheld => exact .held (a := a.readClock) hheld

theorem keep (queue : List Pending) (grants : List Grant) :
    Source env input (a.keep queue grants) request added (b.keep queue grants) := by
  cases h with
  | fresh hinput hrequest => exact .fresh hinput hrequest
  | held hheld => exact .held (a := a.keep queue grants) hheld

theorem takeId (reply : Reply) :
    Source env input (a.takeId reply) request added (b.takeId reply) := by
  cases h with
  | fresh hinput hrequest => exact .fresh hinput hrequest
  | held hheld => exact .held (a := a.takeId reply) hheld

/-- Taking a request out touches nothing but the held map. -/
theorem eq_of_held : b = { a with held := b.held } := by
  cases h with
  | fresh => rfl
  | held => rfl

end Source

/-! ## Closed forms -/

namespace State

variable {ssh : Ssh} (a : State ssh)

/-- `fail_pending` answers every entry and empties the map. -/
theorem failPending_eq : a.failPending =
    { a with
      pending := ∅
      log := a.log ++ a.pending.entries.map fun entry =>
        .answer entry.2.reply failureResponse (.refused .withdrawn) } := by
  unfold failPending
  generalize hentries : a.pending.entries = entries
  induction entries generalizing a with
  | nil =>
    have hpending : a.pending = ∅ := AList.ext hentries
    simp [← hpending]
  | cons entry rest ih =>
    -- The first key finds the first entry, and erasing it leaves the rest.
    have hlookup : a.pending.lookup entry.1 = some entry.2 :=
      Table.lookup_eq_some_iff.mpr (by rw [hentries]; exact List.mem_cons_self ..)
    have herase : (a.pending.erase entry.1).entries = rest := by
      show a.pending.entries.kerase entry.1 = rest
      rw [hentries, List.kerase_cons_eq rfl]
    rw [List.map_cons, List.foldl_cons]
    simp only [refusePending, hlookup]
    rw [ih _ herase]
    simp [refuse, answer]

theorem foldl_answer_listing (waiting : List (Reply × Bool)) :
    waiting.foldl (fun a waiter => a.answer waiter.1 (identitiesFor a.store waiter.2) .listing) a =
      { a with log := a.log ++ waiting.map fun waiter =>
          .answer waiter.1 (identitiesFor a.store waiter.2) .listing } := by
  induction waiting generalizing a with
  | nil => simp
  | cons waiter waiting ih =>
    rw [List.foldl_cons, ih]
    simp [answer]

end State

variable {m : ApprovalManager}

/-! ## Requests leaving without a signature -/

theorem refusePending_moves (a : State env.ssh) (id : Nat)
    (hgone : ∀ request ∈ a.approvals.pending, request.id ≠ id) :
    Moves env input a [] (a.refusePending id) := by
  unfold State.refusePending
  split
  · exact .refl a
  · next sign hsign => exact .single (.refusePending a .withdrawn hsign hgone)

theorem refuseHeld_moves (a : State env.ssh) (id : Nat) :
    Moves env input a [] (a.refuseHeld id) := by
  unfold State.refuseHeld
  split
  · exact .refl a
  · next request hheld => exact .single (.refuse .withdrawn (.held hheld))

theorem cancelHeld_moves (a : State env.ssh) (reason : CancelReason) :
    Moves env input a [] (a.cancelHeld reason) :=
  Moves.foldl (fun a id => (refuseHeld_moves a id).trans' (.emit _ _)) _ a

theorem releaseHeldIdentities_moves (a : State env.ssh) (reason : CancelReason) :
    Moves env input a [] (a.releaseHeldIdentities reason) := by
  unfold State.releaseHeldIdentities
  split
  · exact .refl a
  · next waiters hwaiters =>
    rw [State.foldl_answer_listing]
    exact (Moves.single (.list a hwaiters)).trans' (.emit _ _)

theorem State.releaseHeldIdentities_pending (a : State ssh) (reason : CancelReason) :
    (a.releaseHeldIdentities reason).pending = a.pending := by
  unfold releaseHeldIdentities
  split
  · rfl
  · rw [foldl_answer_listing]
    rfl

/-- Disconnecting a request and failing it. -/
theorem disconnect_refusePending_moves (a : State env.ssh) (id : Nat) :
    Moves env input a []
      ({ a with approvals := a.approvals.disconnect id }.refusePending id) := by
  have hthin : Moves env input a [] { a with approvals := a.approvals.disconnect id } :=
    .single (.thin a List.filter_sublist (List.Sublist.refl _))
  refine hthin.trans' (refusePending_moves _ id ?_)
  intro request hmem
  simpa [ApprovalManager.disconnect] using (List.mem_filter.mp hmem).2

/-- Failing everything queued, before the gate closes. The code closes the gate first. -/
theorem failPending_moves (a : State env.ssh) : Moves env input a [] (a.keep [] []).failPending := by
  have hthin : Moves env input a [] (a.keep [] []) :=
    .single (.thin a (List.nil_sublist _) (List.nil_sublist _))
  refine hthin.trans' ?_
  have hqueue : (a.keep [] []).approvals.pending = [] := rfl
  generalize a.keep [] [] = b at hqueue
  unfold State.failPending
  -- The queue stays empty, so no entry failed here is still in it.
  generalize b.pending.entries.map (·.1) = ids
  induction ids generalizing b with
  | nil => exact .refl b
  | cons id ids ih =>
    refine (refusePending_moves b id (by simp [hqueue])).trans' (ih _ ?_)
    unfold State.refusePending
    split
    · exact hqueue
    · exact hqueue

/-! ## Queueing -/

/-- Dropping the entry that was just queued leaves only its id used up. -/
theorem disconnect_enqueue {request : Pending} (hlt : ∀ queued ∈ m.pending, queued.id < m.nextId)
    (hid : request.id = m.nextId) :
    (m.enqueue request).disconnect m.nextId = { m with nextId := m.nextId + 1 } := by
  have hold : m.pending.filter (fun queued => queued.id ≠ m.nextId) = m.pending := by
    rw [List.filter_eq_self]
    intro queued hmem
    simpa using Nat.ne_of_lt (hlt queued hmem)
  simp only [ApprovalManager.disconnect, ApprovalManager.enqueue, List.filter_append, hold]
  simp [hid]

/-- The expired queue leaves as much room as the full one. -/
theorem room_of_expire {nowMs held : Nat}
    (hheld : held = 0 ∨ m.pending.length + held < maxPending)
    (hroom : (m.expire nowMs).pending.length < maxPending) :
    (m.expire nowMs).pending.length + held < maxPending := by
  have hle : (m.expire nowMs).pending.length ≤ m.pending.length := List.length_filter_le _ _
  omega

theorem submitSign_moves {a b : State env.ssh} {request : SignRequest} {added : List Reply}
    (ha : Books a) (hsource : Source env input a request added b) (hgate : a.gateOpen = true)
    (hheld : b.held.entries.length = 0 ∨
      a.approvals.pending.length + b.held.entries.length < maxPending) :
    Moves env input a added (b.submitSign request) := by
  -- The clock is read and the manager expires, whatever `submit` then answers.
  set c := a.readClock with hc
  set d := c.keep (c.approvals.expire c.now).pending (c.approvals.expire c.now).grants with hd
  have hclock : Moves env input a [] c := .single (.clock a)
  have hexpire : Moves env input a [] d := hclock.trans' (.expire c c.now)
  have hsource₁ : Source env input c request added b.readClock := hsource.readClock
  have hsource₂ := hsource₁.keep (c.approvals.expire c.now).pending (c.approvals.expire c.now).grants
  obtain ⟨held, rfl⟩ : ∃ held, b = { a with held } := ⟨_, hsource.eq_of_held⟩
  have hbooks : Books d := Books.moves hexpire ha
  unfold State.submitSign
  extract_lets b
  have hcase := b.approvals.submit_case b.store.epoch request.publicBlob request.peer request.scope
    b.now
  generalize b.approvals.submit b.store.epoch request.publicBlob request.peer request.scope b.now =
    result at hcase
  cases hcase with
  | wrongUid => exact hclock.trans' (.single (.refuse _ hsource₁))
  | granted huid grant hlive hcovers =>
    have hmem := ApprovalManager.mem_expire_grants.mp hlive
    exact hexpire.trans' (.single (.grant hsource₂ hlive hmem.2 hcovers huid))
  | queueFull | idExhausted => exact hexpire.trans' (.single (.refuse _ hsource₂))
  | pending huid hroom hnext =>
    simp only
    split
    · -- `authorize` found the key, so the public set has it; the source still checks.
      have hburn : Move env input d [] (d.takeId request.reply) := .burn d request.reply hnext
      have hsource₃ := hsource₂.takeId request.reply
      have hmoves := (hexpire.snoc hburn).trans' (.single (.refuse .unknownKey hsource₃))
      have hdrop : ((b.approvals.expire b.now).enqueue (b.approvals.entry b.store.epoch
          request.publicBlob request.peer request.scope b.now)).disconnect b.approvals.nextId =
          { b.approvals.expire b.now with nextId := b.approvals.nextId + 1 } :=
        disconnect_enqueue (m := c.approvals.expire c.now) hbooks.queue_lt rfl
      rw [hdrop]
      exact hmoves
    · next key hkey =>
      have hqueue := Move.queue (Words.saturatingAdd c.now requestLifetimeMs) hsource₂ hgate
        (room_of_expire hheld hroom) hnext huid
      exact (hexpire.trans' (.single hqueue)).snoc (.emit _ _)

/-! ## Releasing a request that was approved while held

It is queued and approved in one breath, but at two readings of the clock. -/

/-- Queueing a request, expiring and taking it out again only uses up its id. -/
theorem dequeue_expire_enqueue {request : Pending} (nowMs : Nat)
    (hlt : ∀ queued ∈ m.pending, queued.id < m.nextId) (hid : request.id = m.nextId) :
    ((m.enqueue request).expire nowMs).dequeue m.nextId =
      { m.expire nowMs with nextId := m.nextId + 1 } := by
  have hold : ∀ queued ∈ (m.expire nowMs).pending, ¬ decide (queued.id = m.nextId) := by
    intro queued hmem
    have hmem := (ApprovalManager.mem_expire_pending.mp hmem).1
    simpa using Nat.ne_of_lt (hlt queued hmem)
  have hfilter : ((m.enqueue request).expire nowMs).pending =
      (m.expire nowMs).pending ++ [request].filter fun r => nowMs < r.deadlineMs := by
    simp [ApprovalManager.enqueue, ApprovalManager.expire]
  have herase : (((m.enqueue request).expire nowMs).dequeue m.nextId).pending =
      (m.expire nowMs).pending := by
    unfold ApprovalManager.dequeue
    simp only [hfilter]
    rw [List.eraseP_append_right _ hold]
    by_cases hlive : nowMs < request.deadlineMs
    · simp [hlive, hid]
    · simp [hlive]
  have hshape : ∀ m' : ApprovalManager, m'.expectedUid = m.expectedUid →
      m'.nextId = m.nextId + 1 → m'.nextGrantId = m.nextGrantId →
      m'.pending = (m.expire nowMs).pending → m'.grants = (m.expire nowMs).grants →
      m' = { m.expire nowMs with nextId := m.nextId + 1 } := by
    rintro ⟨_, _, _, _, _⟩ rfl rfl rfl rfl rfl
    rfl
  exact hshape _ rfl rfl rfl herase rfl

/-- Approving the request just queued: signed, perhaps with a grant, or refused. Either way the
queue is what the second reading leaves of it. -/
theorem approve_enqueued (m : ApprovalManager) (request : Pending) (grantSeconds nowMs : Nat)
    (hlt : ∀ queued ∈ m.pending, queued.id < m.nextId) (hid : request.id = m.nextId) :
    (∃ error, (m.enqueue request).approve m.nextId grantSeconds nowMs =
      (.error error, { m.expire nowMs with nextId := m.nextId + 1 })) ∨
    (∃ opened, (m.enqueue request).approve m.nextId grantSeconds nowMs =
      (.ok ⟨request.epoch, request.publicBlob⟩,
        (opened.elim { m.expire nowMs with nextId := m.nextId + 1 } fun grant =>
          ApprovalManager.openGrant { m.expire nowMs with nextId := m.nextId + 1 } grant)) ∧
      ∀ grant, opened = some grant → request.scope.grantable = true ∧
        grant = (m.enqueue request).grantFor request grantSeconds nowMs) := by
  have hdequeue := dequeue_expire_enqueue nowMs hlt hid
  -- The only queued request with this id is the one just queued.
  have hunique : ∀ queued ∈ ((m.enqueue request).expire nowMs).pending, queued.id = m.nextId →
      queued = request := by
    intro queued hmem hq
    have hmem := (ApprovalManager.mem_expire_pending.mp hmem).1
    rcases List.mem_append.mp hmem with hmem | hmem
    · exact absurd hq (Nat.ne_of_lt (hlt queued hmem))
    · exact List.mem_singleton.mp hmem
  cases hres : (m.enqueue request).approve m.nextId grantSeconds nowMs with
  | mk result after =>
  have hcase := (m.enqueue request).approve_case m.nextId grantSeconds nowMs
  rw [hres] at hcase
  cases hcase with
  | unknownRequest hgone =>
    refine .inl ⟨.unknownRequest, ?_⟩
    rw [← hdequeue, ApprovalManager.dequeue, List.eraseP_of_forall_not]
    simpa using hgone
  | idExhausted queued hmem hq hlast =>
    rw [hdequeue]
    exact .inl ⟨_, rfl⟩
  | granting queued hmem hq hsome hscope =>
    obtain rfl := hunique queued hmem hq
    rw [hdequeue]
    refine .inr ⟨some _, rfl, ?_⟩
    rintro grant ⟨rfl⟩
    exact ⟨hscope, rfl⟩
  | once queued hmem hq honce =>
    obtain rfl := hunique queued hmem hq
    rw [hdequeue]
    exact .inr ⟨none, rfl, by simp⟩

theorem releaseApproved_moves {a : State env.ssh} {id grantSeconds : Nat} {request : HeldSign}
    (ha : Books a) (hheld : a.held.lookup id = some request)
    (happroved : request.approved = some grantSeconds) (hgate : a.gateOpen = true) :
    Moves env input a [] ({ a with held := a.held.erase id }.releaseApproved id
      request.toSignRequest grantSeconds) := by
  set c := a.readClock with hc
  set d := c.keep (c.approvals.expire c.now).pending (c.approvals.expire c.now).grants with hd
  have hclock : Moves env input a [] c := .single (.clock a)
  have hexpire : Moves env input a [] d := hclock.trans' (.expire c c.now)
  have hbooks : Books d := Books.moves hexpire ha
  have hsource₁ : Source env input c request.toSignRequest [] _ := .held hheld
  have hsource₂ : Source env input d request.toSignRequest [] _ := .held hheld
  unfold State.releaseApproved
  extract_lets b
  have hcase := b.approvals.submit_case b.store.epoch request.publicBlob request.peer request.scope
    b.now
  generalize b.approvals.submit b.store.epoch request.publicBlob request.peer request.scope b.now =
    result at hcase
  cases hcase with
  | wrongUid => exact hclock.trans' (.single (.refuse _ hsource₁))
  | granted huid grant hlive hcovers =>
    have hmem := ApprovalManager.mem_expire_grants.mp hlive
    exact hexpire.trans' (.single (.grant hsource₂ hlive hmem.2 hcovers huid))
  | queueFull | idExhausted => exact hexpire.trans' (.single (.refuse _ hsource₂))
  | pending huid hroom hnext =>
    simp only
    -- The second reading of the clock.
    set e := d.readClock with he
    set f := e.keep (e.approvals.expire e.now).pending (e.approvals.expire e.now).grants with hf
    have hsecond : Moves env input a [] f :=
      (hexpire.snoc (.clock d)).trans' (.expire e e.now)
    have happrove := approve_enqueued (c.approvals.expire c.now)
      (c.approvals.entry c.store.epoch request.publicBlob request.peer request.scope c.now)
      grantSeconds e.now hbooks.queue_lt rfl
    split
    · next authorization approvals heq₂ =>
      rcases happrove with ⟨error, herror⟩ | ⟨opened, hok, hopened⟩
      · cases herror.symm.trans heq₂
      · obtain ⟨hauth, rfl⟩ := Prod.mk.inj (hok.symm.trans heq₂)
        obtain rfl := Except.ok.inj hauth
        have hfor : ∀ grant, opened = some grant → OpensFor f f.store.epoch request.publicBlob
            request.peer request.scope grant := by
          intro grant hgrant
          obtain ⟨hscope, rfl⟩ := hopened grant hgrant
          exact ⟨rfl, rfl, rfl, rfl, rfl, hscope⟩
        have hmoves := hsecond.trans' (.single
          (.release f opened hheld (by simp [happroved]) hgate hnext hfor))
        cases opened with
        | none => exact hmoves
        | some grant => exact hmoves
    · next error approvals heq₂ =>
      rcases happrove with ⟨error', herror⟩ | ⟨opened, hok, -⟩
      · obtain ⟨hwhy, rfl⟩ := Prod.mk.inj (herror.symm.trans heq₂)
        have hburn := hsecond.snoc (.burn f request.reply hnext)
        have hsource₃ : Source env input (f.takeId request.reply) request.toSignRequest [] _ :=
          .held hheld
        exact hburn.trans' (.single (.refuse (.approve error) hsource₃))
      · cases hok.symm.trans heq₂

/-! ## Settling queued requests by a grant

`release_granted` takes every covered request out of the queue before the first is answered. The
moves take each out as it is answered; `settleOne` never looks at the queue, so both end alike. -/

namespace State

variable {ssh : Ssh} (a : State ssh)

theorem settleOne_keep (queue : List Pending) (released : Nat × Authorization) :
    (a.keep queue a.approvals.grants).settleOne released =
      (a.settleOne released).keep queue a.approvals.grants := by
  unfold settleOne
  simp only [keep]
  split
  · rfl
  · rfl

theorem settleOne_approvals (released : Nat × Authorization) :
    (a.settleOne released).approvals = a.approvals := by
  unfold settleOne
  simp only [emit]
  split
  · rfl
  · rfl

theorem foldl_settleOne_keep (queue : List Pending) (released : List (Nat × Authorization)) :
    released.foldl settleOne (a.keep queue a.approvals.grants) =
      (released.foldl settleOne a).keep queue a.approvals.grants := by
  induction released generalizing a with
  | nil => rfl
  | cons one released ih =>
    have hgrants : (a.settleOne one).approvals.grants = a.approvals.grants := by
      rw [settleOne_approvals]
    rw [List.foldl_cons, List.foldl_cons, settleOne_keep, ← hgrants]
    exact ih (a.settleOne one)

end State

variable {a : State env.ssh}

/-- The authorization `release_granted` pairs a request with. -/
def Pending.released (request : Pending) : Nat × Authorization :=
  (request.id, ⟨request.epoch, request.publicBlob⟩)

theorem settle_moves (suffix kept : List Pending) (ha : Books a)
    (hqueue : a.approvals.pending = kept ++ suffix)
    (hlive : ∀ grant ∈ a.approvals.grants, a.now < grant.expiresAtMs) :
    Moves env input a []
      ((((suffix.filter a.approvals.covered).map Pending.released).foldl State.settleOne a).keep
        (kept ++ suffix.filter fun request => !a.approvals.covered request) a.approvals.grants) := by
  induction suffix generalizing kept a with
  | nil =>
    have hkeep : a.keep (kept ++ []) a.approvals.grants = a := by
      rw [← hqueue]
      rfl
    simp only [List.filter_nil, List.map_nil, List.foldl_nil, hkeep]
    exact .refl a
  | cons request rest ih =>
    by_cases hcov : a.approvals.covered request = true
    · have hmem : request ∈ a.approvals.pending := by simp [hqueue]
      obtain ⟨sign, hsign⟩ := Table.exists_lookup (ha.queue_key request hmem)
      obtain ⟨grant, hgrant, hcovers⟩ := List.any_eq_true.mp hcov
      -- Taking it out leaves the entries before and after it.
      have hdequeue : (a.approvals.dequeue request.id).pending = kept ++ rest := by
        have hkept : ∀ r ∈ kept, ¬ decide (r.id = request.id) := by
          have hnodup := ha.queue_nodup
          rw [hqueue, List.map_append, List.nodup_append] at hnodup
          intro r hr
          simpa using hnodup.2.2 r.id (List.mem_map_of_mem hr) request.id (by simp)
        show a.approvals.pending.eraseP _ = kept ++ rest
        rw [hqueue, List.eraseP_append_right _ hkept]
        simp
      have hmove : Move env input a [] _ :=
        .settle a hsign hmem hgrant (hlive grant hgrant) hcovers
      set b := (a.settleOne request.released).keep (kept ++ rest) a.approvals.grants with hb
      have hstep : Moves env input a [] b := by
        have hmoves := (Moves.single hmove).snoc (.emit _ (.requestCancelled request.id .granted))
        have hend : b = ({ a with
            pending := a.pending.erase request.id
            approvals := a.approvals.dequeue request.id }.sign sign.reply
              ⟨request.epoch, request.publicBlob⟩ sign.message sign.flags .grant).emit
                (.requestCancelled request.id .granted) := by
          rw [hb, ← hdequeue]
          simp only [State.settleOne, Pending.released, hsign]
          rfl
        rw [hend]
        exact hmoves
      have hgrants : b.approvals.grants = a.approvals.grants := rfl
      have hnow : b.now = a.now := by
        simp only [hb, State.settleOne, Pending.released, hsign]
        rfl
      have hrest := ih kept (Books.moves hstep ha) rfl (by rw [hnow]; exact hlive)
      rw [List.filter_cons_of_pos hcov, List.map_cons, List.foldl_cons,
        List.filter_cons_of_neg (by simp [hcov])]
      refine hstep.trans' ?_
      have hfold : ((rest.filter a.approvals.covered).map Pending.released).foldl State.settleOne b =
          (((rest.filter a.approvals.covered).map Pending.released).foldl State.settleOne
            (a.settleOne request.released)).keep (kept ++ rest) a.approvals.grants := by
        have hsame : (a.settleOne request.released).approvals.grants = a.approvals.grants := by
          rw [State.settleOne_approvals]
        rw [hb, ← hsame]
        exact State.foldl_settleOne_keep _ _ _
      rw [show b.approvals.covered = a.approvals.covered from rfl, hfold] at hrest
      exact hrest
    · have hcov' : a.approvals.covered request = false := by simpa using hcov
      rw [List.filter_cons_of_neg hcov, List.filter_cons_of_pos (by simp [hcov'])]
      have hrest := ih (kept ++ [request]) ha (by simp [hqueue]) hlive
      simpa using hrest

theorem settleGranted_moves (ha : Books a) : Moves env input a [] a.settleGranted := by
  set c := a.readClock with hc
  set d := c.keep (c.approvals.expire c.now).pending (c.approvals.expire c.now).grants with hd
  have hexpire : Moves env input a [] d := (Moves.single (.clock a)).trans' (.expire c c.now)
  have hlive : ∀ grant ∈ d.approvals.grants, d.now < grant.expiresAtMs := by
    intro grant hgrant
    exact (ApprovalManager.mem_expire_grants.mp hgrant).2
  have hsettle : Moves env input d [] _ :=
    settle_moves d.approvals.pending [] (Books.moves hexpire ha) rfl hlive
  refine hexpire.trans' ?_
  unfold State.settleGranted
  simp only [ApprovalManager.releaseGranted]
  have hfold := State.foldl_settleOne_keep d
    (d.approvals.pending.filter fun request => !d.approvals.covered request)
    ((d.approvals.pending.filter d.approvals.covered).map Pending.released)
  rw [List.nil_append, ← hfold] at hsettle
  exact hsettle

/-! ## Releasing what was held -/

theorem releaseOne_moves (ha : Books a) {entry : Σ _ : Nat, HeldSign}
    (hheld : a.held.lookup entry.1 = some entry.2) (hgate : a.gateOpen = true) :
    Moves env input a [] (a.releaseOne entry) := by
  set c := a.emit (.requestCancelled entry.1 .released) with hc
  have hemit : Moves env input a [] c := .emit a _
  have hbooks : Books c := Books.moves hemit ha
  have hheld' : c.held.lookup entry.1 = some entry.2 := hheld
  have hsource : Source env input c entry.2.toSignRequest [] _ := .held hheld'
  refine hemit.trans' ?_
  unfold State.releaseOne
  simp only
  split
  · exact .single (.refuse .unknownKey hsource)
  split
  · next grantSeconds happroved => exact releaseApproved_moves hbooks hheld' happroved hgate
  · refine submitSign_moves hbooks hsource hgate (.inr ?_)
    -- The request being released has made room for itself.
    have hlen := Table.length_erase hheld'
    have hcap := hbooks.capacity
    show c.approvals.pending.length + (c.held.erase entry.1).entries.length < maxPending
    omega

namespace State

variable {ssh : Ssh} (a : State ssh)

/-- Submitting changes neither the held map nor the gate. -/
theorem submitSign_frame (request : SignRequest) :
    (a.submitSign request).held = a.held ∧ (a.submitSign request).gateOpen = a.gateOpen := by
  unfold submitSign
  simp only
  split
  · exact ⟨rfl, rfl⟩
  · split <;> exact ⟨rfl, rfl⟩
  · exact ⟨rfl, rfl⟩

theorem releaseApproved_frame (oldId grantSeconds : Nat) (request : SignRequest) :
    (a.releaseApproved oldId request grantSeconds).held = a.held ∧
      (a.releaseApproved oldId request grantSeconds).gateOpen = a.gateOpen := by
  unfold releaseApproved
  simp only
  split
  · exact ⟨rfl, rfl⟩
  · split <;> exact ⟨rfl, rfl⟩
  · exact ⟨rfl, rfl⟩

theorem releaseOne_frame (entry : Σ _ : Nat, HeldSign) :
    (a.releaseOne entry).held = a.held.erase entry.1 ∧
      (a.releaseOne entry).gateOpen = a.gateOpen := by
  unfold releaseOne
  simp only
  split
  · exact ⟨rfl, rfl⟩
  split
  · exact releaseApproved_frame _ _ _ _
  · exact submitSign_frame _ _

end State

/-- The release loop: what every pass takes from the entries still to come to the ones after. -/
theorem release_rule {P : List (Σ _ : Nat, HeldSign) → State env.ssh → Prop}
    (hpass : ∀ entry rest a, Books a → a.gateOpen = true → a.held.lookup entry.1 = some entry.2 →
      P (entry :: rest) a → P rest (a.releaseOne entry)) {a : State env.ssh} (ha : Books a)
    (hgate : a.gateOpen = true) (h : P (a.held.entries.insertionSort fun x y => x.1 ≤ y.1) a) :
    P [] ((a.held.entries.insertionSort fun x y => x.1 ≤ y.1).foldl State.releaseOne a) := by
  have hperm := List.perm_insertionSort (fun x y : Σ _ : Nat, HeldSign => x.1 ≤ y.1) a.held.entries
  have hnodup := (hperm.map Sigma.fst).nodup_iff.mpr a.held.keys_nodup
  have hheld : ∀ entry ∈ a.held.entries.insertionSort (fun x y => x.1 ≤ y.1),
      a.held.lookup entry.1 = some entry.2 := fun entry hmem =>
    Table.lookup_eq_some_iff.mpr (hperm.subset hmem)
  generalize a.held.entries.insertionSort (fun x y => x.1 ≤ y.1) = entries at h hnodup hheld
  clear hperm
  -- The entries to come stay held: no other pass takes them out.
  induction entries generalizing a with
  | nil => exact h
  | cons entry rest ih =>
    have hlookup := hheld entry (List.mem_cons_self ..)
    have hone : Moves env .controlClosed a [] (a.releaseOne entry) :=
      releaseOne_moves ha hlookup hgate
    obtain ⟨hheld', hgate'⟩ := a.releaseOne_frame entry
    rw [List.map_cons, List.nodup_cons] at hnodup
    refine ih (Books.moves hone ha) (hgate'.trans hgate) (hpass entry rest a ha hgate hlookup h)
      hnodup.2 fun other hother => ?_
    rw [hheld']
    refine Table.lookup_erase_eq_some.mpr ⟨?_, hheld other (List.mem_cons_of_mem _ hother)⟩
    intro heq
    exact hnodup.1 (heq ▸ List.mem_map_of_mem hother)

theorem release_moves {a : State env.ssh} (ha : Books a) (hgate : a.gateOpen = true) :
    Moves env input a []
      ((a.held.entries.insertionSort fun x y => x.1 ≤ y.1).foldl State.releaseOne a) :=
  release_rule (P := fun _ b => Moves env input a [] b)
    (fun _ _ _ hb hgate hheld hmoves => hmoves.trans' (releaseOne_moves hb hheld hgate)) ha hgate
    (.refl a)

theorem releaseHeld_moves {a : State env.ssh} (ha : Books a) (hgate : a.gateOpen = true) :
    Moves env input a [] a.releaseHeld := by
  have hfold : Moves env input a [] _ := release_moves ha hgate
  exact hfold.trans' (settleGranted_moves (Books.moves hfold ha))

end QsBitwarden.Agent
