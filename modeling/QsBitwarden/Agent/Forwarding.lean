import QsBitwarden.Agent.Signing

/-!
# Agent — a forwarded connection gets no grant

A bind that says forwarding, or that might have said it, marks its connection for good
(`Connection.forwarded_of_taints`). This module follows the mark into the loop: a request that
carries it is never answered by a grant, and approving it opens none.

* **`submit_forwarded`**, **`approve_forwarded`**, **`releaseGranted_forwarded`** — the three
  operations of the manager that consult or open grants.
* **`NeverGranted`** — what this means for a client event in the loop.
* **`forwarding_closes_grants`** — from a connection's frames to the loop.
-/

namespace QsBitwarden.Agent

open SshWire

/-! ## The manager -/

theorem SignScope.not_grantable {scope : SignScope} (h : scope.forwarded = true) :
    scope.grantable = false := by
  unfold SignScope.grantable
  rw [h]
  rfl

namespace ApprovalManager

variable {m : ApprovalManager} {nowMs : Nat}

/-- Approving a forwarded request opens no grant, for however long one was asked for. -/
theorem approve_forwarded {id grantSeconds : Nat}
    (h : ∀ request ∈ m.pending, request.id = id → request.scope.forwarded = true) :
    (m.approve id grantSeconds nowMs).2.grants ⊆ m.grants := by
  have hcase := m.approve_case id grantSeconds nowMs
  generalize m.approve id grantSeconds nowMs = result at hcase
  cases hcase with
  | granting request hmem hid hsome hscope =>
    have hforwarded := h request (mem_expire_pending.mp hmem).1 hid
    rw [SignScope.not_grantable hforwarded] at hscope
    cases hscope
  | unknownRequest | idExhausted | once => exact expire_grants_sublist.subset

theorem releaseGranted_forwarded {id : Nat} {authorization : Authorization}
    (h : (id, authorization) ∈ (m.releaseGranted nowMs).1) :
    ∃ request ∈ m.pending, request.id = id ∧ request.scope.forwarded = false := by
  obtain ⟨request, hmem, heq⟩ := List.mem_map.mp h
  obtain ⟨hmem, hcovered⟩ := List.mem_filter.mp hmem
  obtain ⟨grant, -, hcovers⟩ := List.any_eq_true.mp hcovered
  refine ⟨request, (mem_expire_pending.mp hmem).1, congrArg Prod.fst heq, ?_⟩
  -- a grant that covers a request finds it grantable
  by_contra hforwarded
  rw [not_grantCovers (SignScope.not_grantable (by simpa using hforwarded))] at hcovers
  cases hcovers

end ApprovalManager

/-! ## The loop -/

theorem State.settleGranted_grants {ssh : Ssh} (a : State ssh) :
    a.settleGranted.approvals.grants ⊆ a.approvals.grants := by
  unfold settleGranted
  extract_lets b released
  have hfold : ∀ (entries : List (Nat × Authorization)) (c : State ssh),
      (entries.foldl settleOne c).approvals = c.approvals := by
    intro entries
    induction entries with
    | nil => exact fun _ => rfl
    | cons entry entries ih =>
      intro c
      rw [List.foldl_cons, ih, settleOne_approvals]
  rw [hfold]
  exact ApprovalManager.expire_grants_sublist.subset

theorem State.handleApprove_grants {ssh : Ssh} {a : State ssh} {id : Nat} (grantSeconds : Nat)
    (h : ∀ request ∈ a.approvals.pending, request.id = id → request.scope.forwarded = true) :
    (a.handleApprove id grantSeconds).approvals.grants ⊆ a.approvals.grants := by
  unfold handleApprove
  split
  · exact List.Subset.refl _
  split
  · exact List.Subset.refl _
  next sign hsign =>
  unfold approvePending
  extract_lets b c
  have hc : c.approvals.grants ⊆ a.approvals.grants := by
    have happrove : (b.approvals.approve id grantSeconds b.now).2.grants ⊆ a.approvals.grants :=
      ApprovalManager.approve_forwarded h
    simp only [c]
    split
    · next heq =>
      rw [heq] at happrove
      exact happrove
    · next heq =>
      rw [heq] at happrove
      exact happrove
  split
  · exact List.Subset.trans c.settleGranted_grants hc
  · exact hc

/-- A request approved while it was held is queued and approved at once, with the same result. -/
theorem State.releaseApproved_grants {ssh : Ssh} {a : State ssh} (ha : Books a) (oldId : Nat)
    {request : SignRequest} (grantSeconds : Nat) (h : request.scope.forwarded = true) :
    (a.releaseApproved oldId request grantSeconds).approvals.grants ⊆ a.approvals.grants := by
  unfold releaseApproved
  extract_lets b
  have hcase := b.approvals.submit_case b.store.epoch request.publicBlob request.peer request.scope
    b.now
  generalize b.approvals.submit b.store.epoch request.publicBlob request.peer request.scope b.now =
    result at hcase
  cases hcase with
  | wrongUid => exact List.Subset.refl _
  | granted | queueFull | idExhausted => exact ApprovalManager.expire_grants_sublist.subset
  | pending huid hroom hnext =>
    simp only
    set m := (b.approvals.expire b.now).enqueue
      (b.approvals.entry b.store.epoch request.publicBlob request.peer request.scope b.now) with hm
    set c := State.readClock (State.issue { b with approvals := m } b.approvals.nextId
      request.reply) with hc
    -- the new entry is the only one with its id
    have hentry : ∀ queued ∈ c.approvals.pending, queued.id = b.approvals.nextId →
        queued.scope.forwarded = true := by
      intro queued hmem hid
      rcases List.mem_append.mp hmem with hold | hnew
      · have hlt := ha.queue_lt queued (ApprovalManager.mem_expire_pending.mp hold).1
        exact absurd hid (Nat.ne_of_lt hlt)
      · rw [List.mem_singleton.mp hnew]
        exact h
    have happrove : (c.approvals.approve b.approvals.nextId grantSeconds c.now).2.grants ⊆
        a.approvals.grants :=
      List.Subset.trans (ApprovalManager.approve_forwarded hentry)
        ApprovalManager.expire_grants_sublist.subset
    split
    · next heq =>
      rw [heq] at happrove
      exact happrove
    · next heq =>
      rw [heq] at happrove
      exact happrove

variable {env : Env}

theorem ClientEvent.signRequest_forwarded {event : ClientEvent} {request : SignRequest}
    (h : event.signRequest env = some request) : request.scope.forwarded = event.forwarded := by
  unfold ClientEvent.signRequest at h
  split at h
  · cases h
    rfl
  · cases h

/-- No grant answers the event and none is opened for it. -/
structure NeverGranted (env : Env) (event : ClientEvent) : Prop where
  /-- On arrival, on release from the held map, or settled in the queue. -/
  answered : ∀ h t s, (system env).Run (t :: h) s → (∃ u ∈ t :: h, u.input = .client event) →
    ∀ response moment,
      .answer event.reply response (.authorized .grant moment) ∉ (t.outcome env).2.log
  /-- Approved in the queue, with any `grantSeconds`. -/
  approved : ∀ h t s, (system env).Run (t :: h) s → (∃ u ∈ t :: h, u.input = .client event) →
    ∀ queued ∈ t.before.approvals.pending, ∀ sign, t.before.pending.lookup queued.id = some sign →
      sign.reply = event.reply → t.Approves queued.id →
      (t.outcome env).2.approvals.grants ⊆ t.before.approvals.grants
  /-- Approved while held, and released. -/
  released : ∀ (a : State env.ssh) (request : SignRequest), Books a →
    event.signRequest env = some request → ∀ oldId grantSeconds,
      (a.releaseApproved oldId request grantSeconds).approvals.grants ⊆ a.approvals.grants

theorem neverGranted_of_forwarded {event : ClientEvent} (hforwarded : event.forwarded = true) :
    NeverGranted env event := by
  -- whatever the run knows under this reply is the event's own request
  have hscope : ∀ h t s, (system env).Run (t :: h) s → (∃ u ∈ t :: h, u.input = .client event) →
      ∀ request, Raised env (t :: h) request → request.reply = event.reply →
      request.scope.forwarded = true := by
    rintro h t s run ⟨u, hu, hinput⟩ request ⟨u', hu', event', hinput', hrequest⟩ hreply
    have heq := run_event_unique run u hu u' hu' event event' hinput hinput'
      (hreply.symm.trans (ClientEvent.signRequest_reply hrequest))
    rw [ClientEvent.signRequest_forwarded hrequest, ← heq]
    exact hforwarded
  refine ⟨?_, ?_, ?_⟩
  · intro h t s run hevent response moment hanswer
    cases (turn_trail run).log _ _ _ hanswer with
    | listed _ _ hbasis => exact hbasis _ _ rfl
    | signed hreply horigin huid hstore hground =>
      have hclosed := hscope h t s run hevent _ (horigin.raised (turn_provenance run)) hreply
      cases hground with
      | grant hmem hsince hlive hcovers =>
        rw [ApprovalManager.not_grantCovers (SignScope.not_grantable hclosed)] at hcovers
        cases hcovers
  · rintro h t s run hevent queued hqueued sign hsign hreply ⟨grantSeconds, fifoReady, hinput⟩
    have hraised : Raised env (t :: h) (queued.signRequest sign) :=
      ((turn_provenance run).queue queued hqueued sign hsign).1.cons
    have hclosed := hscope h t s run hevent _ hraised hreply
    have hunique : ∀ other ∈ t.start.approvals.pending, other.id = queued.id →
        other.scope.forwarded = true := by
      intro other hother hid
      have hnodup := (turn_books run).1.queue_nodup
      rw [List.inj_on_of_nodup_map hnodup hother hqueued hid]
      exact hclosed
    unfold Turn.outcome
    rw [hinput]
    exact State.handleApprove_grants grantSeconds hunique
  · intro a request ha hrequest oldId grantSeconds
    exact State.releaseApproved_grants ha oldId grantSeconds
      ((ClientEvent.signRequest_forwarded hrequest).trans hforwarded)

/-- A connection that may relay a remote host is marked for good, and the mark closes grants. -/
theorem forwarding_closes_grants (env : Env) :
    (∀ (c : Connection) (frame : Frame) (later : List Frame),
      Connection.Taints env.hostKeyFingerprint c frame.bytes →
      ∀ event ∈ c.serveClient env.hostKeyFingerprint (frame :: later), event.forwarded = true) ∧
    (∀ event : ClientEvent, event.forwarded = true → NeverGranted env event) ∧
    ∀ (m : ApprovalManager) (nowMs id : Nat) (authorization : Authorization),
      (id, authorization) ∈ (m.releaseGranted nowMs).1 →
      ∃ request ∈ m.pending, request.id = id ∧ request.scope.forwarded = false := by
  refine ⟨?_, ?_, ?_⟩
  · intro c frame later htaints
    exact Connection.forwarded_of_taints htaints later
  · intro event hforwarded
    exact neverGranted_of_forwarded hforwarded
  · intro m nowMs id authorization hmem
    exact ApprovalManager.releaseGranted_forwarded hmem

/-- A frame with nothing in it but the byte of its kind. -/
def bareFrame (kind : UInt8) : Frame := ⟨[0, 0, 0, 1, kind], none, 0, true, true⟩

/-- The sample request, as a forwarded connection would send it. -/
def forwardedSign : ClientEvent := ⟨samplePeer, true, [], .sign sampleBlob sampleMessage 0, 0⟩

def forwardedEvents : List (Nat × Input) :=
  (0, .client forwardedSign) :: sampleLoad 1 0 sampleLoadId sampleNonce

/-- One queued request, and a grant that covers it. -/
def grantedManager : ApprovalManager where
  expectedUid := 1000
  nextId := 2
  nextGrantId := 2
  pending := [⟨1, 1, sampleBlob, samplePeer, ⟨.sshSig "git", false⟩, 120000⟩]
  grants := [⟨1, sampleBlob, samplePeer, .sshSig "git", 1, 60000⟩]

/-- An extension request whose name cannot be read, and then a listing; a forwarded request that
is approved for a minute and signed; a queued request that a grant settles. -/
theorem forwarding_closes_grants_sample :
    (∃ event ∈ (Connection.new samplePeer).serveClient sampleEnv.hostKeyFingerprint
      [bareFrame msgExtension, bareFrame msgRequestIdentities], event.forwarded = true) ∧
    (∃ t : Turn sampleEnv.ssh, t.Approves 1 ∧ (signatures (t.effects sampleEnv)).length = 1 ∧
      (t.outcome sampleEnv).2.approvals.grants ⊆ t.before.approvals.grants) ∧
    ∃ request ∈ grantedManager.pending, request.id = 1 ∧ request.scope.forwarded = false := by
  obtain ⟨hforwarded, hnever, hsettled⟩ := forwarding_closes_grants sampleEnv
  refine ⟨?_, ?_, hsettled grantedManager 0 1 ⟨1, sampleBlob⟩ (by decide +kernel)⟩
  · refine ⟨⟨samplePeer, true, [], .identities, 0⟩, by decide +kernel, ?_⟩
    refine hforwarded (.new samplePeer) (bareFrame msgExtension) [bareFrame msgRequestIdentities]
      ⟨⟨[], rfl, .inl (by decide +kernel)⟩, .inl (by decide +kernel)⟩ _ (by decide +kernel)
  · have hplayable : Playable sampleEnv forwardedEvents :=
      ⟨receivable_of_fresh (by simp [sampleLoad]), by decide +kernel, sampleEvents_playable.2.2⟩
    set t := (replay sampleEnv forwardedEvents).2.turn (0, .control (.approve 1 60) true) with ht
    have hrun := replay_turn_run hplayable (0, .control (.approve 1 60) true) trivial
      (by decide +kernel)
    have hqueued : 1 ∈ t.before.approvals.pending.map (·.id) := by decide +kernel
    have hsign : (t.before.pending.lookup 1).map (·.reply) = some 0 := by decide +kernel
    obtain ⟨queued, hmem, hid⟩ := List.mem_map.mp hqueued
    obtain ⟨sign, hlookup, hreply⟩ := Option.map_eq_some_iff.mp hsign
    have happroves : t.Approves 1 := ⟨60, true, rfl⟩
    refine ⟨t, happroves, by decide +kernel, ?_⟩
    rw [← hid] at hlookup happroves
    exact (hnever forwardedSign rfl).approved _ t _ hrun ⟨_, .tail _ (.head _), rfl⟩ queued hmem sign
      hlookup hreply happroves

end QsBitwarden.Agent
