import QsBitwarden.Agent.Conservation

/-!
# Agent — where requests, grants and answers come from

An answer is given in one iteration, but what entitles it to a signature may lie many iterations
back. This module traces it, first inside an iteration and then along a run.

* **`Trail`** — every held, queued and granted thing of a state, and every answer in its log, put
  down to the state the iteration began in or to the event it handles. Each move extends the trail
  (`Trail.move`), and so does each shift and publication; hence `turn_trail`.
* **`Provenance`** — the same along a run: which event raised a request, which approval marked it,
  what has not happened since it was queued or its grant was opened (`run_provenance`).
-/

namespace QsBitwarden.Agent

open SshWire Trace

/-! ## Inside an iteration -/

/-- The sign request a queue entry and its stored half make up. -/
def Pending.signRequest (request : Pending) (sign : PendingSign) : SignRequest where
  reply := sign.reply
  publicBlob := request.publicBlob
  message := sign.message
  flags := sign.flags
  peer := request.peer
  scope := request.scope

section Trail

variable (env : Env) (input : Input) (a₀ : State env.ssh)

/-- Where a sign request comes from, seen from the state `a₀` the iteration began in. -/
inductive Origin (request : SignRequest) : Prop where
  | fresh {event : ClientEvent} (hinput : input = .client event)
      (hrequest : event.signRequest env = some request)
  | held {id : Nat} {old : HeldSign} (hheld : a₀.held.lookup id = some old)
      (hsame : old.toSignRequest = request)
  | queued {old : Pending} {sign : PendingSign} (hmem : old ∈ a₀.approvals.pending)
      (hsign : a₀.pending.lookup old.id = some sign) (hsame : old.signRequest sign = request)

/-- A request in the held map. Only the approval may be new. -/
inductive HeldSince (id : Nat) (request : HeldSign) : Prop where
  | raised {event : ClientEvent} (hinput : input = .client event)
      (hrequest : event.signRequest env = some request.toSignRequest)
      (hnew : request.approved = none)
  | kept {old : HeldSign} (hheld : a₀.held.lookup id = some old)
      (hsame : old.toSignRequest = request.toSignRequest)
      (hdeadline : old.deadlineMs = request.deadlineMs)
      (happroved : request.approved = old.approved ∨
        ∃ grantSeconds fifoReady, input = .control (.approve id grantSeconds) fifoReady)

/-- A queued request, with the effects so far. -/
inductive QueuedSince (log : List (Effect env.ssh)) (request : Pending) (sign : PendingSign) :
    Prop where
  | raised (horigin : Origin env input a₀ (request.signRequest sign))
      (hissue : .issue request.id sign.reply ∈ log)
  | kept (hmem : request ∈ a₀.approvals.pending)
      (hsign : a₀.pending.lookup request.id = some sign)

inductive GrantSince (grant : Grant) : Prop where
  | opened {request : SignRequest} (hnew : a₀.approvals.nextGrantId ≤ grant.id)
      (horigin : Origin env input a₀ request) (hscope : request.scope.grantable = true)
      (hblob : grant.publicBlob = request.publicBlob) (hpeer : grant.peer = request.peer)
      (hkind : grant.kind = request.scope.kind)
  | kept (hmem : grant ∈ a₀.approvals.grants)

/-- The reply of a client event that asks for no signature. -/
def Listed (reply : Reply) : Prop :=
  (∃ event, input = .client event ∧ event.signRequest env = none ∧ event.reply = reply) ∨
    reply ∈ a₀.waitingReplies

/-- What an attempt to sign `request` at `epoch` rests on. -/
inductive Grounded (log : List (Effect env.ssh)) (request : SignRequest) (epoch : Nat) :
    Ground → Moment env.ssh → Prop where
  | grant {moment : Moment env.ssh} {grant : Grant} (hmem : grant ∈ moment.grants)
      (hsince : GrantSince env input a₀ grant) (hlive : moment.nowMs < grant.expiresAtMs)
      (hcovers : grantCovers grant epoch request.publicBlob request.peer request.scope = true) :
      Grounded log request epoch .grant moment
  | pending {moment : Moment env.ssh} {grantSeconds : Nat} {fifoReady : Bool} {queued : Pending}
      {sign : PendingSign} (hinput : input = .control (.approve queued.id grantSeconds) fifoReady)
      (hsince : QueuedSince env input a₀ log queued sign)
      (hsame : queued.signRequest sign = request) (hlive : a₀.now < queued.deadlineMs) :
      Grounded log request epoch (.pending queued.id) moment
  | held {moment : Moment env.ssh} {id newId : Nat} {held : HeldSign}
      (hsince : HeldSince env input a₀ id held) (happroved : held.approved.isSome = true)
      (hsame : held.toSignRequest = request) (hissue : .issue newId request.reply ∈ log) :
      Grounded log request epoch (.held id) moment

/-- An answer: a failure, a listing, or what the store signs for a request. -/
inductive Answered (log : List (Effect env.ssh)) (reply : Reply) :
    Bytes → Basis env.ssh → Prop where
  | failed (why : Refusal) : Answered log reply failureResponse (.refused why)
  | listed (response : Bytes) {basis : Basis env.ssh} (hlisted : Listed env input a₀ reply)
      (hbasis : ∀ ground moment, basis ≠ .authorized ground moment) :
      Answered log reply response basis
  | signed {request : SignRequest} {epoch : Nat} {ground : Ground} {moment : Moment env.ssh}
      {response : Bytes} (hreply : request.reply = reply) (horigin : Origin env input a₀ request)
      (huid : request.peer.uid = a₀.approvals.expectedUid) (hstore : moment.store.WF)
      (hground : Grounded env input a₀ log request epoch ground moment)
      (hresponse : response = authorizedSignature moment.store ⟨epoch, request.publicBlob⟩
        request.message request.flags) :
      Answered log reply response (.authorized ground moment)

/-- Everything in a state and in its log, put down to `a₀` and the event. -/
structure Trail (a : State env.ssh) : Prop where
  uid : a.approvals.expectedUid = a₀.approvals.expectedUid
  now : a₀.now ≤ a.now
  grantIds : a₀.approvals.nextGrantId ≤ a.approvals.nextGrantId
  held : ∀ id request, a.held.lookup id = some request → HeldSince env input a₀ id request
  queue : ∀ request ∈ a.approvals.pending, ∀ sign, a.pending.lookup request.id = some sign →
    QueuedSince env input a₀ a.log request sign
  grants : ∀ grant ∈ a.approvals.grants, GrantSince env input a₀ grant
  waiting : ∀ reply ∈ a.waitingReplies, Listed env input a₀ reply
  log : ∀ reply response basis, .answer reply response basis ∈ a.log →
    Answered env input a₀ a.log reply response basis

/-- What a step has to show for the trail to go on: only what is new needs a reason. -/
structure Extends (a b : State env.ssh) : Prop where
  uid : b.approvals.expectedUid = a.approvals.expectedUid := by rfl
  now : a.now ≤ b.now := by exact Nat.le_refl _
  grantIds : a.approvals.nextGrantId ≤ b.approvals.nextGrantId := by exact Nat.le_refl _
  subset : a.log ⊆ b.log := by exact List.subset_append_left _ _
  held : ∀ id request, b.held.lookup id = some request →
    a.held.lookup id = some request ∨ HeldSince env input a₀ id request := by
      exact fun _ _ h => .inl h
  queue : ∀ request ∈ b.approvals.pending, ∀ sign, b.pending.lookup request.id = some sign →
    (request ∈ a.approvals.pending ∧ a.pending.lookup request.id = some sign) ∨
      QueuedSince env input a₀ b.log request sign := by exact fun _ h _ h' => .inl ⟨h, h'⟩
  grants : ∀ grant ∈ b.approvals.grants,
    grant ∈ a.approvals.grants ∨ GrantSince env input a₀ grant := by exact fun _ h => .inl h
  waiting : ∀ reply ∈ b.waitingReplies, reply ∈ a.waitingReplies ∨ Listed env input a₀ reply := by
    exact fun _ h => .inl h
  log : ∀ reply response basis, .answer reply response basis ∈ b.log →
    .answer reply response basis ∈ a.log ∨ Answered env input a₀ b.log reply response basis

end Trail

variable {env : Env} {input : Input} {a₀ a b : State env.ssh}

theorem HeldSince.origin {id : Nat} {request : HeldSign}
    (h : HeldSince env input a₀ id request) : Origin env input a₀ request.toSignRequest := by
  cases h with
  | raised hinput hrequest => exact .fresh hinput hrequest
  | kept hheld hsame => exact .held hheld hsame

theorem QueuedSince.origin {log : List (Effect env.ssh)} {request : Pending} {sign : PendingSign}
    (h : QueuedSince env input a₀ log request sign) :
    Origin env input a₀ (request.signRequest sign) := by
  cases h with
  | raised horigin => exact horigin
  | kept hmem hsign => exact .queued hmem hsign rfl

section Mono

variable {log log' : List (Effect env.ssh)} (hlog : log ⊆ log')

include hlog

theorem QueuedSince.mono {request : Pending} {sign : PendingSign}
    (h : QueuedSince env input a₀ log request sign) :
    QueuedSince env input a₀ log' request sign := by
  cases h with
  | raised horigin hissue => exact .raised horigin (hlog hissue)
  | kept hmem hsign => exact .kept hmem hsign

theorem Grounded.mono {request : SignRequest} {epoch : Nat} {ground : Ground}
    {moment : Moment env.ssh} (h : Grounded env input a₀ log request epoch ground moment) :
    Grounded env input a₀ log' request epoch ground moment := by
  cases h with
  | grant hmem hsince hlive hcovers => exact .grant hmem hsince hlive hcovers
  | pending hinput hsince hsame hlive => exact .pending hinput (hsince.mono hlog) hsame hlive
  | held hsince happroved hsame hissue => exact .held hsince happroved hsame (hlog hissue)

theorem Answered.mono {reply : Reply} {response : Bytes} {basis : Basis env.ssh}
    (h : Answered env input a₀ log reply response basis) :
    Answered env input a₀ log' reply response basis := by
  cases h with
  | failed => exact .failed _
  | listed _ hlisted hbasis => exact .listed _ hlisted hbasis
  | signed hreply horigin huid hstore hground hresponse =>
    exact .signed hreply horigin huid hstore (hground.mono hlog) hresponse

end Mono

theorem Trail.extend (ha : Trail env input a₀ a) (h : Extends env input a₀ a b) :
    Trail env input a₀ b where
  uid := h.uid.trans ha.uid
  now := ha.now.trans h.now
  grantIds := ha.grantIds.trans h.grantIds
  held id request hlookup := by
    rcases h.held id request hlookup with hold | hnew
    · exact ha.held id request hold
    · exact hnew
  queue request hmem sign hsign := by
    rcases h.queue request hmem sign hsign with ⟨hmem, hsign⟩ | hnew
    · exact (ha.queue request hmem sign hsign).mono h.subset
    · exact hnew
  grants grant hmem := by
    rcases h.grants grant hmem with hold | hnew
    · exact ha.grants grant hold
    · exact hnew
  waiting reply hmem := by
    rcases h.waiting reply hmem with hold | hnew
    · exact ha.waiting reply hold
    · exact hnew
  log reply response basis hanswer := by
    rcases h.log reply response basis hanswer with hold | hnew
    · exact (ha.log reply response basis hold).mono h.subset
    · exact hnew

/-- The iteration begins with its log empty. -/
theorem Trail.start (hlog : a₀.log = []) : Trail env input a₀ a₀ where
  uid := rfl
  now := Nat.le_refl _
  grantIds := Nat.le_refl _
  held _ _ hlookup := .kept hlookup rfl rfl (.inl rfl)
  queue _ hmem _ hsign := .kept hmem hsign
  grants _ hmem := .kept hmem
  waiting _ hmem := .inr hmem
  log _ _ _ hanswer := by
    rw [hlog] at hanswer
    cases hanswer

/-! ### Moves -/

section Log

variable {log : List (Effect env.ssh)}

/-- A new answer needs a reason; the others are old. -/
theorem answer_cases {reply' : Reply} {response' : Bytes} {basis' : Basis env.ssh}
    (hnew : Answered env input a₀ (log ++ [.answer reply' response' basis']) reply' response' basis')
    (reply : Reply) (response : Bytes) (basis : Basis env.ssh)
    (h : .answer reply response basis ∈ log ++ [.answer reply' response' basis']) :
    .answer reply response basis ∈ log ∨
      Answered env input a₀ (log ++ [.answer reply' response' basis']) reply response basis := by
  rcases List.mem_append.mp h with hold | hlast
  · exact .inl hold
  · cases List.mem_singleton.mp hlast
    exact .inr hnew

theorem answer_quiet {effect : Effect env.ssh}
    (hquiet : ∀ reply response basis, effect ≠ .answer reply response basis)
    {log' : List (Effect env.ssh)} (reply : Reply) (response : Bytes) (basis : Basis env.ssh)
    (h : .answer reply response basis ∈ log ++ [effect]) :
    .answer reply response basis ∈ log ∨
      Answered env input a₀ log' reply response basis := by
  rcases List.mem_append.mp h with hold | hlast
  · exact .inl hold
  · exact absurd (List.mem_singleton.mp hlast).symm (hquiet reply response basis)

end Log

variable {request : SignRequest} {added : List Reply}

theorem Clock.le_read (clock : Clock) : clock.millis ≤ clock.read.millis := by
  unfold Clock.read
  split
  · exact Nat.le_refl _
  · exact Nat.le_add_right _ _

theorem State.now_le_readClock {ssh : Ssh} (a : State ssh) : a.now ≤ a.readClock.now := by
  have hle := a.clock.le_read
  show min a.clock.millis Words.u64Max ≤ min a.clock.read.millis Words.u64Max
  omega

theorem Source.exists_held (h : Source env input a request added b) :
    ∃ held, b = { a with held } := by
  cases h with
  | fresh | held => exact ⟨_, rfl⟩

theorem State.openGrant?_eq {ssh : Ssh} (a : State ssh) (opened : Option Grant) :
    ∃ approvals, a.openGrant? opened = { a with approvals } := by
  cases opened with
  | none | some => exact ⟨_, rfl⟩

variable (ha : Trail env input a₀ a)
include ha

theorem Trail.source (h : Source env input a request added b) : Origin env input a₀ request := by
  cases h with
  | fresh hinput hrequest => exact .fresh hinput hrequest
  | held hheld => exact (ha.held _ _ hheld).origin

/-- A request is taken from where it was. -/
theorem Trail.take (h : Source env input a request added b) : Trail env input a₀ b := by
  cases h with
  | fresh => exact ha
  | held =>
    exact ha.extend {
      subset := List.Subset.refl _
      held := fun id request hlookup => .inl (Table.lookup_erase_eq_some.mp hlookup).2
      log := fun _ _ _ => .inl }

/-- A queued request is taken from the queue. -/
theorem Trail.dequeue (id : Nat) : Trail env input a₀
    { a with pending := a.pending.erase id, approvals := a.approvals.dequeue id } :=
  ha.extend {
    subset := List.Subset.refl _
    queue := fun other hother sign hsign =>
      .inl ⟨ApprovalManager.dequeue_pending_sublist.subset hother,
        (Table.lookup_erase_eq_some.mp hsign).2⟩
    log := fun _ _ _ => .inl }

/-- A grant opened for a request is put down to the request. -/
theorem Trail.openGrant? {c : State env.ssh} {epoch : Nat} {opened : Option Grant}
    (horigin : Origin env input a₀ request) (hopened : ∀ grant, opened = some grant →
      OpensFor c epoch request.publicBlob request.peer request.scope grant)
    (hnext : c.approvals.nextGrantId = a.approvals.nextGrantId) :
    Trail env input a₀ (a.openGrant? opened) := by
  cases opened with
  | none => exact ha
  | some grant =>
    have hopens := hopened grant rfl
    refine ha.extend {
      grantIds := Nat.le_succ _
      subset := List.Subset.refl _
      grants := ?_
      log := fun _ _ _ => .inl }
    intro other hother
    rcases List.mem_append.mp hother with hold | hnew
    · exact .inl hold
    · cases List.mem_singleton.mp hnew
      exact .inr (.opened (hopens.id ▸ hnext ▸ ha.grantIds) horigin hopens.grantable hopens.publicBlob
        hopens.peer hopens.kind)

theorem Trail.sign {epoch : Nat} {ground : Ground} (hstore : a.store.WF)
    (horigin : Origin env input a₀ request)
    (huid : request.peer.uid = a₀.approvals.expectedUid)
    (hground : Grounded env input a₀ a.log request epoch ground a.moment) :
    Trail env input a₀
      (a.sign request.reply ⟨epoch, request.publicBlob⟩ request.message request.flags ground) :=
  ha.extend { log := answer_cases (.signed rfl horigin huid hstore
    (hground.mono (List.subset_append_left _ _)) rfl) }

omit ha

/-- **Every move extends the trail.** -/
theorem Trail.move (h : Move env input a added b) (hbooks : Books a) (ha : Trail env input a₀ a) :
    Trail env input a₀ b := by
  cases h with
  | clock =>
    exact ha.extend {
      now := a.now_le_readClock
      subset := List.Subset.refl _
      log := fun _ _ _ => .inl }
  | emit message => exact ha.extend { log := answer_quiet (by simp) }
  | settings => exact ha.extend { subset := List.Subset.refl _, log := fun _ _ _ => .inl }
  | thin hqueue hgrants =>
    exact ha.extend {
      subset := List.Subset.refl _
      queue := fun request hmem sign hsign => .inl ⟨hqueue.subset hmem, hsign⟩
      grants := fun grant hmem => .inl (hgrants.subset hmem)
      log := fun _ _ _ => .inl }
  | refusePending why hsign hgone =>
    exact ha.extend {
      queue := fun request hmem sign hsign =>
        .inl ⟨hmem, (Table.lookup_erase_eq_some.mp hsign).2⟩
      log := answer_cases (.failed _) }
  | refuse why hsource => exact (ha.take hsource).extend { log := answer_cases (.failed _) }
  | reply response basis hinput hother hbasis =>
    exact ha.extend { log := answer_cases (.listed _ (.inl ⟨_, hinput, hother, rfl⟩) hbasis) }
  | @wait event waiters hinput hother hwaiting =>
    refine ha.extend {
      subset := List.Subset.refl _
      waiting := ?_
      log := fun _ _ _ => .inl }
    intro reply hmem
    have hwaiting : waiters.waiting.map (·.1) = a.waitingReplies ++ [event.reply] := hwaiting
    have hmem : reply ∈ waiters.waiting.map (·.1) := hmem
    rw [hwaiting] at hmem
    rcases List.mem_append.mp hmem with hold | hnew
    · exact .inl hold
    · exact .inr (.inl ⟨event, hinput, hother, (List.mem_singleton.mp hnew).symm⟩)
  | @list waiters hwaiters =>
    refine ha.extend {
      waiting := fun reply hmem => absurd hmem List.not_mem_nil
      log := ?_ }
    intro reply response basis hanswer
    rcases List.mem_append.mp hanswer with hold | hnew
    · exact .inl hold
    -- a listing that has waited since some event before
    obtain ⟨waiter, hwaiter, heq⟩ := List.mem_map.mp hnew
    cases heq
    refine .inr (.listed _ (ha.waiting _ ?_) (by simp))
    rw [State.waitingReplies, hwaiters]
    exact List.mem_map_of_mem hwaiter
  | burn reply hnext => exact ha.extend { log := answer_quiet (by simp) }
  | @grant m request added grant hsource hgrant hlive hcovers huid =>
    have htaken := ha.take hsource
    have horigin := ha.source hsource
    obtain ⟨held, rfl⟩ := hsource.exists_held
    exact htaken.sign hbooks.store_wf horigin (huid.trans ha.uid)
      (.grant hgrant (ha.grants grant hgrant) hlive hcovers)
  | @queue m request added deadlineMs hsource =>
    have htaken := ha.take hsource
    have horigin := ha.source hsource
    obtain ⟨held, rfl⟩ := hsource.exists_held
    refine htaken.extend { queue := ?_, log := answer_quiet (by simp) }
    intro other hother sign hsign
    rcases List.mem_append.mp hother with hold | hnew
    · have hlt := hbooks.queue_lt other hold
      exact .inl ⟨hold, (AList.lookup_insert_ne (Nat.ne_of_lt hlt)).symm.trans hsign⟩
    · cases List.mem_singleton.mp hnew
      obtain rfl := Option.some.inj ((AList.lookup_insert _).symm.trans hsign)
      exact .inr (.raised horigin List.mem_concat_self)
  | @hold event request deadlineMs hinput hrequest =>
    refine ha.extend {
      held := ?_
      log := answer_quiet (by simp) }
    intro id other hlookup
    rcases Table.lookup_insert_eq_some.mp hlookup with ⟨rfl, rfl⟩ | ⟨-, hold⟩
    · exact .inr (.raised hinput hrequest rfl)
    · exact .inl hold
  | @mark id grantSeconds fifoReady request hinput hheld =>
    refine ha.extend {
      subset := List.Subset.refl _
      held := ?_
      log := fun _ _ _ => .inl }
    intro id' other hlookup
    rcases Table.lookup_insert_eq_some.mp hlookup with ⟨rfl, rfl⟩ | ⟨-, hold⟩
    · cases ha.held _ _ hheld with
      | raised hevent =>
        rw [hinput] at hevent
        cases hevent
      | kept hold hsame hdeadline =>
        exact .inr (.kept hold hsame hdeadline (.inr ⟨grantSeconds, fifoReady, hinput⟩))
    · exact .inl hold
  | @approve id grantSeconds fifoReady sign request opened hinput hsign hmem hid hlive hopened =>
    subst hid
    have hsince := ha.queue request hmem sign hsign
    have hopen := (ha.dequeue request.id).openGrant? hsince.origin hopened rfl
    have hground : ∀ moment, Grounded env input a₀ a.log (request.signRequest sign) request.epoch
        (.pending request.id) moment :=
      fun _ => .pending hinput hsince rfl (Nat.lt_of_le_of_lt ha.now hlive)
    obtain ⟨approvals, heq⟩ := State.openGrant?_eq _ opened
    rw [heq] at hopen ⊢
    exact hopen.sign hbooks.store_wf hsince.origin ((hbooks.queue_uid request hmem).trans ha.uid)
      (hground _)
  | @settle sign request grant hsign hmem hgrant hlive hcovers =>
    exact (ha.dequeue request.id).sign hbooks.store_wf (ha.queue request hmem sign hsign).origin
      ((hbooks.queue_uid request hmem).trans ha.uid)
      (.grant hgrant (ha.grants grant hgrant) hlive hcovers)
  | @release id request opened hheld happroved hgate hnext hopened =>
    have hsince := ha.held id request hheld
    have htaken : Trail env input a₀ ({ a with held := a.held.erase id }.takeId request.reply) :=
      (ha.take (.held hheld)).extend { log := answer_quiet (by simp) }
    have hopen := htaken.openGrant? hsince.origin hopened rfl
    obtain ⟨approvals, heq⟩ := State.openGrant?_eq _ opened
    rw [heq] at hopen ⊢
    exact hopen.sign hbooks.store_wf hsince.origin ((hbooks.held_uid id request hheld).trans ha.uid)
      (.held hsince happroved rfl List.mem_concat_self)

/-! ### Shifts, publications, iterations -/

theorem Trail.shift (h : Shift a b) (ha : Trail env input a₀ a) : Trail env input a₀ b := by
  cases h with
  | load | relock => exact ha.extend { subset := List.Subset.refl _, log := fun _ _ _ => .inl }
  | close =>
    exact ha.extend {
      subset := List.Subset.refl _
      queue := fun _ hmem => absurd hmem List.not_mem_nil
      grants := fun _ hmem => absurd hmem List.not_mem_nil
      log := fun _ _ _ => .inl }
  | fail => exact ha.extend { log := answer_quiet (by simp) }

theorem Trail.publish (h : Publishes env.serde a b) (ha : Trail env input a₀ a) :
    Trail env input a₀ b := by
  cases h with
  | intro =>
    rw [State.announceKeys_eq]
    refine ha.extend { log := ?_ }
    intro reply response basis hanswer
    rcases List.mem_append.mp hanswer with hold | hnew
    · exact .inl hold
    · obtain ⟨message, -, heq⟩ := List.mem_map.mp hnew
      cases heq

theorem Iterates.trail (h : Iterates env input a added b) (hbooks : Books a)
    (ha : Trail env input a₀ a) : Trail env input a₀ b := by
  refine (h.preserve (I := fun a => Books a ∧ Trail env input a₀ a) ?_ ?_ ?_ ⟨hbooks, ha⟩).2
  · exact fun a added b hmove ⟨hbooks, ha⟩ => ⟨hbooks.move hmove, ha.move hmove hbooks⟩
  · exact fun a b hshift ⟨hbooks, ha⟩ => ⟨hbooks.shift hshift, ha.shift hshift⟩
  · exact fun a b hpublish ⟨hbooks, ha⟩ => ⟨hbooks.publish hpublish, ha.publish hpublish⟩

theorem turn_trail {h : List (Turn env.ssh)} {t : Turn env.ssh} {s : Option (State env.ssh)}
    (run : (system env).Run (t :: h) s) : Trail env t.input t.start (t.outcome env).2 :=
  (turn_iterates run).trail { (turn_books run).1 with } (.start rfl)

/-! ## Along a run -/

/-- A client event of the run asked for this. -/
def Raised (env : Env) (h : List (Turn env.ssh)) (request : SignRequest) : Prop :=
  ∃ t ∈ h, ∃ event, t.input = .client event ∧ event.signRequest env = some request

namespace Turn

variable {ssh : Ssh} (t : Turn ssh)

/-- The panel approves request `id`. -/
def Approves (id : Nat) : Prop :=
  ∃ grantSeconds fifoReady, t.input = .control (.approve id grantSeconds) fifoReady

/-- A lock, a logout or the begin of a load. -/
def Resets : Prop :=
  t.Locks ∨ ∃ epoch loadId fifoReady, t.input = .control (.keyLoadBegin epoch loadId) fifoReady

def Revokes (grantId : Nat) : Prop :=
  (∃ fifoReady, t.input = .control .revokeGrants fifoReady) ∨
    ∃ fifoReady, t.input = .control (.revokeGrant grantId) fifoReady

/-- The iteration takes `id` from the sequence for the client waiting on `reply`. -/
def Issues (env : Env) (t : Turn env.ssh) (id : Nat) (reply : Reply) : Prop :=
  .issue id reply ∈ (t.outcome env).2.log

/-- The iteration approves `request` under the id it is held with. -/
def Marks (id : Nat) (request : SignRequest) : Prop :=
  t.Approves id ∧ ∃ held, t.before.held.lookup id = some held ∧ held.toSignRequest = request

end Turn

/-- Queued under `id`, with no lock, logout or begin of a load since. -/
def Undisturbed (env : Env) (h : List (Turn env.ssh)) (id : Nat) (reply : Reply) : Prop :=
  Since (fun t => ¬ t.Resets) (fun _ t => t.Issues env id reply) h

/-- Not revoked since the iteration in which its id was still to be given. -/
def Unrevoked {ssh : Ssh} (h : List (Turn ssh)) (grantId : Nat) : Prop :=
  Since (fun t => ¬ t.Revokes grantId) (fun _ t => t.before.approvals.nextGrantId ≤ grantId) h

/-- What a run knows about the state it has reached. -/
structure Provenance (env : Env) (h : List (Turn env.ssh)) (a : State env.ssh) : Prop where
  uid : a.approvals.expectedUid = env.expectedUid
  held : ∀ id request, a.held.lookup id = some request → Raised env h request.toSignRequest
  marked : ∀ id request, a.held.lookup id = some request → request.approved.isSome = true →
    ∃ t ∈ h, t.Marks id request.toSignRequest
  queue : ∀ request ∈ a.approvals.pending, ∀ sign, a.pending.lookup request.id = some sign →
    Raised env h (request.signRequest sign) ∧ Undisturbed env h request.id sign.reply
  grants : ∀ grant ∈ a.approvals.grants, Unrevoked h grant.id ∧ ∃ request, Raised env h request ∧
    request.scope.grantable = true ∧ grant.publicBlob = request.publicBlob ∧
    grant.peer = request.peer ∧ grant.kind = request.scope.kind
  waiting : ∀ reply ∈ a.waitingReplies, ∃ t ∈ h, ∃ event, t.input = .client event ∧
    event.signRequest env = none ∧ event.reply = reply

section Turns

variable {h : List (Turn env.ssh)} {t : Turn env.ssh}

theorem Raised.cons {request : SignRequest} (hraised : Raised env h request) :
    Raised env (t :: h) request := by
  obtain ⟨u, hu, hevent⟩ := hraised
  exact ⟨u, List.mem_cons_of_mem _ hu, hevent⟩

theorem Provenance.reordered {b : State env.ssh} (hab : Reordered a b) (ha : Provenance env h a) :
    Provenance env h b := by
  obtain ⟨hpending, hheld, hb⟩ := hab
  rw [hb]
  have hheld : ∀ id, a.held.lookup id = b.held.lookup id := Table.lookup_of_perm hheld
  have hpending : ∀ id, a.pending.lookup id = b.pending.lookup id := Table.lookup_of_perm hpending
  exact {
    uid := ha.uid
    held := fun id request hlookup => ha.held id request ((hheld id).trans hlookup)
    marked := fun id request hlookup => ha.marked id request ((hheld id).trans hlookup)
    queue := fun request hmem sign hsign =>
      ha.queue request hmem sign ((hpending request.id).trans hsign)
    grants := ha.grants
    waiting := ha.waiting }

/-- What an iteration finds, the run before it explains. -/
theorem Origin.raised {request : SignRequest} (hbefore : Provenance env h t.before)
    (horigin : Origin env t.input t.start request) : Raised env (t :: h) request := by
  cases horigin with
  | fresh hinput hrequest => exact ⟨t, List.mem_cons_self .., _, hinput, hrequest⟩
  | held hheld hsame => exact hsame ▸ (hbefore.held _ _ hheld).cons
  | queued hmem hsign hsame => exact hsame ▸ (hbefore.queue _ hmem _ hsign).1.cons

/-- A lock, a logout or the begin of a load leaves the gate closed. -/
theorem gate_of_resets (hresets : t.Resets) (hflow : (t.outcome env).1 = .next) :
    (t.outcome env).2.gateOpen = false := by
  unfold Turn.outcome at hflow ⊢
  rcases hresets with (⟨epoch, fifoReady, hinput⟩ | ⟨fifoReady, hinput⟩) |
    ⟨epoch, loadId, fifoReady, hinput⟩
  · rw [hinput]
    show (t.start.handleVaultLocked epoch).gateOpen = false
    unfold State.handleVaultLocked
    extract_lets b c
    have hrest : Moves env .controlClosed c.failPending [] _ :=
      ((cancelHeld_moves c.failPending .locked).trans'
        (releaseHeldIdentities_moves _ .locked)).trans' (.emit _ (.locked epoch))
    rw [hrest.unmoved.gateOpen, State.failPending_eq]
    rfl
  · rw [hinput]
    show t.start.handleVaultLoggedOut.gateOpen = false
    unfold State.handleVaultLoggedOut
    extract_lets b store c
    have hrest : Moves env .controlClosed c.failPending [] _ :=
      (cancelHeld_moves c.failPending .loggedOut).trans' (releaseHeldIdentities_moves _ .loggedOut)
    rw [hrest.unmoved.gateOpen, State.failPending_eq]
    rfl
  · rw [hinput] at hflow ⊢
    simp only [State.handle, State.handleControl, State.handleKeyLoadBegin,
      State.failPending_eq] at hflow ⊢
    split at hflow
    · cases hflow
    next hload =>
    rw [if_neg hload]
    split
    · rfl
    · split <;> rfl

/-- A grant that is there after an iteration was not revoked by it. -/
theorem not_revokes_of_mem {grant : Grant} (hmem : grant ∈ (t.outcome env).2.approvals.grants) :
    ¬ t.Revokes grant.id := by
  unfold Turn.outcome at hmem
  rintro (⟨fifoReady, hinput⟩ | ⟨fifoReady, hinput⟩)
  · rw [hinput] at hmem
    exact absurd hmem List.not_mem_nil
  · rw [hinput] at hmem
    have hkept := (List.mem_filter.mp hmem).2
    simp at hkept

/-- **One iteration carries the provenance on.** -/
theorem Provenance.turn (hbefore : Provenance env h t.before)
    (htrail : Trail env t.input t.start (t.outcome env).2) (hbooks : Books (t.outcome env).2)
    (hflow : (t.outcome env).1 = .next) : Provenance env (t :: h) (t.outcome env).2 where
  uid := htrail.uid.trans hbefore.uid
  held id request hlookup := (htrail.held id request hlookup).origin.raised hbefore
  marked id request hlookup happroved := by
    cases htrail.held id request hlookup with
    | raised hinput hrequest hnew =>
      rw [hnew] at happroved
      cases happroved
    | @kept old hheld hsame hdeadline happroved' =>
      rcases happroved' with hold | happroves
      · rw [hold] at happroved
        obtain ⟨u, hu, hmarks⟩ := hbefore.marked id old hheld happroved
        exact ⟨u, List.mem_cons_of_mem _ hu, hsame ▸ hmarks⟩
      · exact ⟨t, List.mem_cons_self .., happroves, old, hheld, hsame⟩
  queue request hmem sign hsign := by
    have hsince := htrail.queue request hmem sign hsign
    refine ⟨hsince.origin.raised hbefore, ?_⟩
    cases hsince with
    | raised horigin hissue => exact Since.start hissue
    | kept hmem' hsign' =>
      refine Since.keep ?_ (hbefore.queue request hmem' sign hsign').2
      -- nothing is queued behind a closed gate
      intro hresets
      have hopen := hbooks.gate_of_mem hmem
      rw [gate_of_resets hresets hflow] at hopen
      cases hopen
  grants grant hmem := by
    cases htrail.grants grant hmem with
    | opened hnew horigin hscope hblob hpeer hkind =>
      exact ⟨Since.start hnew, _, horigin.raised hbefore, hscope, hblob, hpeer, hkind⟩
    | kept hold =>
      obtain ⟨hunrevoked, request, hraised, hrest⟩ := hbefore.grants grant hold
      exact ⟨Since.keep (not_revokes_of_mem hmem) hunrevoked, request, hraised.cons, hrest⟩
  waiting reply hmem := by
    rcases htrail.waiting reply hmem with ⟨event, hevent⟩ | hold
    · exact ⟨t, List.mem_cons_self .., event, hevent⟩
    · obtain ⟨u, hu, hevent⟩ := hbefore.waiting reply hold
      exact ⟨u, List.mem_cons_of_mem _ hu, hevent⟩

end Turns

theorem run_provenance {h : List (Turn env.ssh)} {s : Option (State env.ssh)}
    (run : (system env).Run h s) : ∀ a, s = some a → Provenance env h a := by
  refine run_invariant (I := Provenance env) ?_ ?_ run
  · exact {
      uid := rfl
      held := fun id request hlookup => absurd hlookup Table.lookup_empty_ne
      marked := fun id request hlookup => absurd hlookup Table.lookup_empty_ne
      queue := fun _ hmem => absurd hmem List.not_mem_nil
      grants := fun _ hmem => absurd hmem List.not_mem_nil
      waiting := fun _ hmem => absurd hmem List.not_mem_nil }
  · intro h a t run hreordered hcompletes ha
    have hbooks := (run_books run _ rfl).1
    exact (ha.reordered hreordered).turn (turn_trail run) hbooks hcompletes.1

/-- Every iteration of a run, finished or not, begins in a state the run explains. -/
theorem turn_provenance {h : List (Turn env.ssh)} {t : Turn env.ssh} {s : Option (State env.ssh)}
    (run : (system env).Run (t :: h) s) : Provenance env h t.before := by
  obtain ⟨a, run, hreordered, -⟩ := run_cons run
  exact (run_provenance run a rfl).reordered hreordered

end QsBitwarden.Agent
