import QsBitwarden.Agent.Provenance

/-!
# Agent — nothing is signed that was not approved

A request can be signed on five paths: by a live grant when it comes in, when it is released from
the held map or when another approval opens one; by its own approval in the queue; and by an
approval given while it was held. On all of them the client is the expected user, the key is in
the published set, and an approval or a grant of the right scope stands behind the signature.

* **`SignedSafely`** — all of that, at the moment of signing.
* **`signing_safe`** — every signature of every run whose held requests are approved in time.
* **`late_approval_signed`** — the queue refuses an approval that comes after the deadline; the
  held map does not look at it.
-/

namespace QsBitwarden.Agent

open SshWire Trace

variable {env : Env}

/-! ## Signatures and replies -/

/-- A signature other than a failure needs an unlocked store with the key in it. -/
theorem authorizedSignature_ne {ssh : Ssh} {store : KeyStore ssh} (hstore : store.WF)
    {authorization : Authorization} {message : Bytes} {flags : Nat}
    (hne : authorizedSignature store authorization message flags ≠ failureResponse) :
    store.epoch = authorization.epoch ∧ store.state.state = .unlocked ∧
      ∃ identity ∈ store.privateIdentities,
        ssh.blob identity.key = some authorization.publicBlob := by
  obtain ⟨answer, hanswer, hpermit⟩ := hstore.authorize_ok authorization.publicBlob
  unfold authorizedSignature Authorization.finalize at hne
  rw [hanswer] at hne
  cases answer with
  | none => exact absurd rfl hne
  | some permit =>
    obtain ⟨-, hunlocked, identity, hmem, hblob, -⟩ := hpermit permit rfl
    by_cases hepoch : store.epoch = authorization.epoch
    · exact ⟨hepoch, hunlocked, identity, hmem, hblob⟩
    · simp only [if_neg hepoch] at hne
      exact absurd rfl hne

theorem performed_subset {ssh : Ssh} (room : Nat) (log : List (Effect ssh)) :
    performed room log ⊆ log := by
  induction log generalizing room with
  | nil =>
    rw [performed]
    exact List.Subset.refl _
  | cons effect rest ih =>
    cases effect with
    | emit message =>
      cases room with
      | zero =>
        rw [performed]
        exact List.nil_subset _
      | succ room =>
        rw [performed]
        exact List.cons_subset_cons _ (ih room)
    | answer | issue =>
      rw [performed]
      · exact List.cons_subset_cons _ (ih room)
      · simp
      · simp

/-- A reply channel belongs to one client event. -/
theorem run_event_unique {h : List (Turn env.ssh)} {s : Option (State env.ssh)}
    (run : (system env).Run h s) : ∀ t ∈ h, ∀ u ∈ h, ∀ event event', t.input = .client event →
      u.input = .client event' → event.reply = event'.reply → event = event' := by
  refine run.invariant (I := fun h _ => ∀ t ∈ h, ∀ u ∈ h, ∀ event event', t.input = .client event →
    u.input = .client event' → event.reply = event'.reply → event = event')
    (fun _ _ t ht => absurd ht List.not_mem_nil) ?_
  rintro h s i s' - ih ⟨a, rfl, -, hreceivable, -⟩ t ht u hu event event' hinput hinput' hreply
  rcases List.mem_cons.mp ht with rfl | hold <;> rcases List.mem_cons.mp hu with rfl | hold'
  · rw [hinput] at hinput'
    cases hinput'
    rfl
  · rw [hinput] at hreceivable
    exact absurd hreply.symm (hreceivable u hold' event' hinput')
  · rw [hinput'] at hreceivable
    exact absurd hreply (hreceivable t hold event hinput)
  · exact ih t hold u hold' event event' hinput hinput' hreply

theorem Raised.unique {h : List (Turn env.ssh)} {s : Option (State env.ssh)}
    (run : (system env).Run h s) {request request' : SignRequest} (hraised : Raised env h request)
    (hraised' : Raised env h request') (hreply : request.reply = request'.reply) :
    request = request' := by
  obtain ⟨t, ht, event, hinput, hrequest⟩ := hraised
  obtain ⟨u, hu, event', hinput', hrequest'⟩ := hraised'
  have heq := run_event_unique run t ht u hu event event' hinput hinput' (by
    rw [← ClientEvent.signRequest_reply hrequest, ← ClientEvent.signRequest_reply hrequest', hreply])
  rw [heq, hrequest'] at hrequest
  exact (Option.some.inj hrequest).symm

/-! ## What stands behind a signature -/

/-- Approvals of held requests come before the deadline. -/
def Turn.InTime {ssh : Ssh} (t : Turn ssh) : Prop :=
  ∀ id held, t.Approves id → t.before.held.lookup id = some held → t.time < held.deadlineMs

/-- The approval or the grant by which iteration `t`, after the iterations `h`, may sign. -/
inductive Sanctioned (env : Env) (h : List (Turn env.ssh)) (t : Turn env.ssh)
    (request : SignRequest) (moment : Moment env.ssh) : Prop where
  /-- The event is an approval of the request's own id in the queue, in time, and nothing has
  emptied the queue since the request entered it. -/
  | pending {queued : Pending} (happroves : t.Approves queued.id)
      (hqueued : queued ∈ t.before.approvals.pending) (hdeadline : t.time < queued.deadlineMs)
      (hundisturbed : Undisturbed env h queued.id request.reply)
  /-- The request was approved in time under the id it was held with, and enters the queue only in
  this iteration. -/
  | held {u : Turn env.ssh} {id newId : Nat} {held : HeldSign} (hu : u ∈ t :: h)
      (happroves : u.Approves id) (hheld : u.before.held.lookup id = some held)
      (hsame : held.toSignRequest = request) (hdeadline : u.time < held.deadlineMs)
      (hqueued : t.Issues env newId request.reply)
  | grant {grant : Grant} (hforwarded : request.scope.forwarded = false)
      (hother : request.scope.kind ≠ .other) (hmem : grant ∈ moment.grants)
      (hlive : moment.nowMs < grant.expiresAtMs) (hunrevoked : Unrevoked (t :: h) grant.id)
      (hepoch : grant.epoch = moment.store.epoch) (hblob : grant.publicBlob = request.publicBlob)
      (hkind : grant.kind = request.scope.kind) (huid : grant.peer.uid = request.peer.uid)
      (hexecutable : grant.peer.executable = request.peer.executable)

structure SignedSafely (env : Env) (h : List (Turn env.ssh)) (t : Turn env.ssh)
    (request : SignRequest) (response : Bytes) (moment : Moment env.ssh) : Prop where
  unlocked : moment.store.state.state = .unlocked
  owned : ∃ identity ∈ moment.store.privateIdentities,
    env.ssh.blob identity.key = some request.publicBlob
  uid : request.peer.uid = env.expectedUid
  /-- It is this request's message that was signed. -/
  signature : response = authorizedSignature moment.store
    ⟨moment.store.epoch, request.publicBlob⟩ request.message request.flags
  sanctioned : Sanctioned env h t request moment

section Turn

variable {h : List (Turn env.ssh)} {t : Turn env.ssh} {s : Option (State env.ssh)}

/-- An iteration that revokes does nothing else. -/
theorem log_of_revokes {grantId : Nat} (hrevokes : t.Revokes grantId) :
    (t.outcome env).2.log = [] := by
  unfold Turn.outcome
  rcases hrevokes with ⟨fifoReady, hinput⟩ | ⟨fifoReady, hinput⟩
  · rw [hinput]
    rfl
  · rw [hinput]
    rfl

/-- An approval of an id that was not given yet does nothing. -/
theorem log_of_approves_unknown (hbooks : Books t.before) {id : Nat} (happroves : t.Approves id)
    (hid : t.before.approvals.nextId ≤ id) : (t.outcome env).2.log = [] := by
  have hheld : t.start.held.lookup id = none :=
    AList.lookup_eq_none.mpr fun hmem => absurd (hbooks.held_lt id hmem) (Nat.not_lt.mpr hid)
  have hpending : t.start.pending.lookup id = none :=
    AList.lookup_eq_none.mpr fun hmem => absurd (hbooks.pending_lt id hmem) (Nat.not_lt.mpr hid)
  obtain ⟨grantSeconds, fifoReady, hinput⟩ := happroves
  unfold Turn.outcome
  rw [hinput]
  simp only [State.handle, State.handleControl, State.handleApprove, hheld, hpending]
  rfl

theorem le_of_issues (run : (system env).Run (t :: h) s) {id : Nat} {reply : Reply}
    (hissues : t.Issues env id reply) : t.before.approvals.nextId ≤ id := by
  have hstart : IdsFrom t.before.approvals.nextId t.start :=
    ⟨.nil, fun pair hpair => absurd hpair List.not_mem_nil, Nat.le_refl _⟩
  have hids := (turn_iterates run).idsFrom hstart
  exact (hids.bounds (id, reply) (List.mem_filterMap.mpr ⟨_, hissues, rfl⟩)).1

/-- The grounds of an iteration, with the run before it. -/
theorem Grounded.sanctioned (run : (system env).Run (t :: h) s)
    (hintime : ∀ u ∈ t :: h, u.InTime) {request : SignRequest} {epoch : Nat} {ground : Ground}
    {moment : Moment env.ssh} (hepoch : moment.store.epoch = epoch)
    (hlog : (t.outcome env).2.log ≠ [])
    (hground : Grounded env t.input t.start (t.outcome env).2.log request epoch ground moment) :
    Sanctioned env h t request moment := by
  have hbefore := turn_provenance run
  cases hground with
  | @grant _ grant hmem hsince hlive hcovers =>
    simp only [grantCovers, SignScope.grantable, PeerContext.sharesGrantScope, Bool.and_eq_true,
      Bool.not_eq_true', bne_iff_ne, beq_iff_eq] at hcovers
    obtain ⟨⟨⟨⟨⟨hforwarded, hother⟩, hgrant⟩, hblob⟩, hkind⟩, huid, hexecutable⟩ := hcovers
    have hunrevoked : Unrevoked (t :: h) grant.id := by
      cases hsince with
      | opened hnew => exact Since.start hnew
      | kept hold =>
        exact Since.keep (fun hrevokes => hlog (log_of_revokes hrevokes)) (hbefore.grants _ hold).1
    exact .grant hforwarded hother hmem hlive hunrevoked (hgrant.trans hepoch.symm) hblob hkind huid
      hexecutable
  | @pending _ grantSeconds fifoReady queued sign hinput hsince hsame hlive =>
    have happroves : t.Approves queued.id := ⟨grantSeconds, fifoReady, hinput⟩
    cases hsince with
    | raised horigin hissue =>
      -- the id would be newer than the approval that names it
      have hle := le_of_issues run hissue
      exact absurd (log_of_approves_unknown (turn_books run).1 happroves hle) hlog
    | kept hmem hsign =>
      have hundisturbed := (hbefore.queue queued hmem sign hsign).2
      rw [← hsame]
      exact .pending happroves hmem hlive hundisturbed
  | @held _ id newId held hsince happroved hsame hissue =>
    obtain ⟨u, hu, happroves, old, hheld, hold⟩ :
        ∃ u ∈ t :: h, u.Marks id held.toSignRequest := by
      cases hsince with
      | raised hinput hrequest hnew =>
        rw [hnew] at happroved
        cases happroved
      | @kept old hheld hsame' hdeadline happroved' =>
        rcases happroved' with hmarked | hinput
        · rw [hmarked] at happroved
          obtain ⟨u, hu, hmarks⟩ := hbefore.marked id old hheld happroved
          exact ⟨u, List.mem_cons_of_mem _ hu, hsame' ▸ hmarks⟩
        · exact ⟨t, List.mem_cons_self .., hinput, old, hheld, hsame'⟩
    exact .held hu happroves hheld (hold.trans hsame) (hintime u hu id old happroves hheld) hissue

end Turn

/-- Every signature is given to the expected user, for a published key, on an approval of that
very request or on a live grant of its scope. -/
theorem signing_safe {h : List (Turn env.ssh)} {t : Turn env.ssh} {s : Option (State env.ssh)}
    (run : (system env).Run (t :: h) s) (hintime : ∀ u ∈ t :: h, u.InTime) {request : SignRequest}
    (hraised : Raised env (t :: h) request) {response : Bytes} {basis : Basis env.ssh}
    (hanswer : .answer request.reply response basis ∈ t.effects env)
    (hresponse : response ≠ failureResponse) :
    ∃ ground moment, basis = .authorized ground moment ∧
      SignedSafely env h t request response moment := by
  have hbefore := turn_provenance run
  have hmem : .answer request.reply response basis ∈ (t.outcome env).2.log :=
    performed_subset _ _ hanswer
  cases (turn_trail run).log _ _ _ hmem with
  | failed => exact absurd rfl hresponse
  | listed _ hlisted =>
    -- no event asks for a listing and for a signature
    obtain ⟨u, hu, event, hinput, hnone, hreply⟩ : ∃ u ∈ t :: h, ∃ event,
        u.input = .client event ∧ event.signRequest env = none ∧ event.reply = request.reply := by
      rcases hlisted with ⟨event, hevent⟩ | hwaiting
      · exact ⟨t, List.mem_cons_self .., event, hevent⟩
      · obtain ⟨u, hu, hevent⟩ := hbefore.waiting _ hwaiting
        exact ⟨u, List.mem_cons_of_mem _ hu, hevent⟩
    obtain ⟨u', hu', event', hinput', hsome⟩ := hraised
    have heq := run_event_unique run u hu u' hu' event event' hinput hinput'
      (hreply.trans (ClientEvent.signRequest_reply hsome))
    rw [heq, hsome] at hnone
    cases hnone
  | @signed request' epoch ground moment _ hreply horigin huid hstore hground hsignature =>
    obtain rfl := (horigin.raised hbefore).unique run hraised hreply
    rw [hsignature] at hresponse
    obtain ⟨hepoch, hunlocked, howned⟩ := authorizedSignature_ne hstore hresponse
    have hepoch : moment.store.epoch = epoch := hepoch
    exact ⟨ground, moment, rfl, {
      unlocked := hunlocked
      owned := howned
      uid := huid.trans hbefore.uid
      signature := by rw [hsignature, hepoch]
      sanctioned := hground.sanctioned run hintime hepoch (List.ne_nil_of_mem hmem) }⟩

/-! ## Runs that sign -/

/-- The attempts to sign among some effects: whose, with what result, on what ground. -/
def signatures {ssh : Ssh} (log : List (Effect ssh)) : List (Reply × Bytes × Ground) :=
  log.filterMap fun
    | .answer reply response (.authorized ground _) => some (reply, response, ground)
    | _ => none

theorem answer_of_mem_signatures {ssh : Ssh} {log : List (Effect ssh)} {reply : Reply}
    {response : Bytes} {ground : Ground} (h : (reply, response, ground) ∈ signatures log) :
    ∃ moment, .answer reply response (.authorized ground moment) ∈ log := by
  obtain ⟨effect, hmem, heq⟩ := List.mem_filterMap.mp h
  split at heq
  · cases heq
    exact ⟨_, hmem⟩
  · cases heq

theorem inTime_of_replay {events : List (Nat × Input)}
    (hevents : ∀ event ∈ events, ∀ id grantSeconds fifoReady,
      event.2 ≠ .control (.approve id grantSeconds) fifoReady) :
    ∀ u ∈ (replay env events).1, u.InTime := by
  induction events with
  | nil => exact fun u hu => absurd hu List.not_mem_nil
  | cons event older ih =>
    obtain ⟨hhead, htail⟩ := List.forall_mem_cons.mp hevents
    intro u hu
    rcases List.mem_cons.mp hu with rfl | hu
    · rintro id held ⟨grantSeconds, fifoReady, hinput⟩
      exact absurd hinput (hhead id grantSeconds fifoReady)
    · exact ih htail u hu

def sampleResponse : Bytes :=
  (signatureResponse (sampleSsh.signatureBytes sampleSignature)).getD failureResponse

/-- What `sampleSign 0` asks for. -/
def sampleRequest : SignRequest where
  reply := 0
  publicBlob := sampleBlob
  message := sampleMessage
  flags := 0
  peer := samplePeer
  scope := ⟨classifySign sampleEnv.hostKeyFingerprint sampleBlob sampleMessage [], false⟩

/-- The sample request, approved at once. -/
theorem signing_safe_sample :
    ∃ (h : List (Turn sampleEnv.ssh)) (t : Turn sampleEnv.ssh) (request : SignRequest)
      (moment : Moment sampleEnv.ssh),
      .answer request.reply sampleResponse (.authorized (.pending 1) moment) ∈ t.effects sampleEnv ∧
      SignedSafely sampleEnv h t request sampleResponse moment := by
  set t := (replay sampleEnv sampleEvents).2.turn (0, .control (.approve 1 0) true) with ht
  have hrun : (system sampleEnv).Run (t :: (replay sampleEnv sampleEvents).1)
      (some (t.outcome sampleEnv).2) :=
    replay_turn_run sampleEvents_playable _ trivial (by decide +kernel)
  have hintime : ∀ u ∈ t :: (replay sampleEnv sampleEvents).1, u.InTime := by
    refine List.forall_mem_cons.mpr ⟨?_, inTime_of_replay (by simp [sampleEvents, sampleLoad,
      sampleSign])⟩
    -- the gate is open, nothing is held
    have hnone : t.before.held.lookup 1 = none := by decide +kernel
    rintro id held ⟨grantSeconds, fifoReady, hinput⟩ hheld
    cases hinput
    rw [hnone] at hheld
    cases hheld
  have hraised : Raised sampleEnv (t :: (replay sampleEnv sampleEvents).1) sampleRequest :=
    ⟨_, .tail _ (.head _), _, rfl, by decide +kernel⟩
  have hsigned : (0, sampleResponse, Ground.pending 1) ∈ signatures (t.effects sampleEnv) := by
    decide +kernel
  obtain ⟨moment, hanswer⟩ := answer_of_mem_signatures hsigned
  obtain ⟨_, _, ⟨rfl, rfl⟩, hsafe⟩ :=
    signing_safe hrun hintime hraised hanswer (by decide +kernel)
  exact ⟨_, t, sampleRequest, moment, hanswer, hsafe⟩

/-- The approvals of a run: for which id, when, and by when if it is held. -/
def approvals {ssh : Ssh} (h : List (Turn ssh)) : List (Nat × Nat × Option Nat) :=
  h.filterMap fun t => match t.input with
    | .control (.approve id _) _ => some (id, t.time, (t.before.held.lookup id).map (·.deadlineMs))
    | _ => none

/-- The one approval of this run comes when the deadline has passed, and no grant is ever opened;
but the request is signed. -/
theorem late_approval_signed :
    (system sampleEnv).Run (replay sampleEnv (approvedEvents 120000)).1
      (some (replay sampleEnv (approvedEvents 120000)).2) ∧
    approvals (replay sampleEnv (approvedEvents 120000)).1 = [(1, 120000, some 120000)] ∧
    (replay sampleEnv (approvedEvents 120000)).2.approvals.nextGrantId = 1 ∧
    signatures ((replay sampleEnv (approvedEvents 120000)).1.flatMap (Turn.effects sampleEnv)) =
      [(0, sampleResponse, .held 1)] ∧
    sampleResponse ≠ failureResponse := by
  have hplayable : Playable sampleEnv (approvedEvents 120000) :=
    approvedEvents_playable (by decide +kernel) (by decide +kernel)
  refine ⟨replay_run hplayable, ?_, ?_, ?_, ?_⟩ <;> decide +kernel

end QsBitwarden.Agent
