import QsBitwarden.Agent.Loop

/-!
# Agent — what one iteration can do to a request

The handlers of the loop differ in when they act; what they do to a request comes from a short
list. `Move` is that list: a request is refused, held, queued, marked approved, or signed on one
of three grounds, and between these the clock is read, messages are emitted, queue entries and
grants are dropped, the gate is closed.

* **`Source`** — where a request a move disposes of comes from: the client event being handled,
  or the held map.
* **`Move`** — one such action, with the guards the code checks; it also names the replies that
  entered the loop with it.
* **`Books`** — the invariant all the stored structures keep together. Every move preserves it
  (`Books.move`), and so does publishing (`Books.publish`).

Each handler is a sequence of moves (`Agent.Refinement`), so a property of runs is proved by one
case per move.
-/

namespace QsBitwarden.Agent

open SshWire

/-- Where a sign request comes from when it is disposed of, and the state once it was taken. -/
inductive Source (env : Env) (input : Input) (a : State env.ssh) :
    SignRequest → List Reply → State env.ssh → Prop where
  | fresh {event : ClientEvent} {request : SignRequest} (hinput : input = .client event)
      (hrequest : event.signRequest env = some request) :
      Source env input a request [request.reply] a
  | held {id : Nat} {request : HeldSign} (hheld : a.held.lookup id = some request) :
      Source env input a request.toSignRequest [] { a with held := a.held.erase id }

namespace State

variable {ssh : Ssh}

/-- The manager of a state, with the queue and the grants replaced. -/
def keep (a : State ssh) (queue : List Pending) (grants : List Grant) : State ssh :=
  { a with approvals := { a.approvals with pending := queue, grants } }

/-- The next request id, used up. -/
def takeId (a : State ssh) (reply : Reply) : State ssh :=
  { a with approvals := { a.approvals with nextId := a.approvals.nextId + 1 } }.issue
    a.approvals.nextId reply

/-- The grants after an approval that may have opened one. -/
def openGrant? (a : State ssh) : Option Grant → State ssh
  | none => a
  | some grant => { a with approvals := a.approvals.openGrant grant }

end State

/-- A grant opened for a request: of its epoch, key, kind and program, under a fresh id. -/
structure OpensFor {ssh : Ssh} (a : State ssh) (epoch : Nat) (blob : Bytes) (peer : PeerContext)
    (scope : SignScope) (grant : Grant) : Prop where
  id : grant.id = a.approvals.nextGrantId
  epoch : grant.epoch = epoch
  publicBlob : grant.publicBlob = blob
  peer : grant.peer = peer
  kind : grant.kind = scope.kind
  grantable : scope.grantable = true

/-- The messages that end a load. No move writes one. -/
def Output.endsLoad : Output → Bool
  | .keysLoaded .. | .loadFailed .. => true
  | _ => false

/-- One action on a request, handling `input`, and the replies it brought in. -/
inductive Move (env : Env) (input : Input) : State env.ssh → List Reply → State env.ssh → Prop where
  | clock (a : State env.ssh) : Move env input a [] a.readClock
  | emit (a : State env.ssh) (message : Output) (hmessage : message.endsLoad = false := by rfl) :
      Move env input a [] (a.emit message)
  | settings (a : State env.ssh) (unlockOnDemand : Bool) (grantSnapshot : List Nat)
      (handshakeComplete : Bool) :
      Move env input a [] { a with unlockOnDemand, grantSnapshot, handshakeComplete }
  | thin (a : State env.ssh) {queue : List Pending} {grants : List Grant}
      (hqueue : queue.Sublist a.approvals.pending) (hgrants : grants.Sublist a.approvals.grants) :
      Move env input a [] (a.keep queue grants)
  | refusePending (a : State env.ssh) {id : Nat} {sign : PendingSign} (why : Refusal)
      (hsign : a.pending.lookup id = some sign)
      (hgone : ∀ request ∈ a.approvals.pending, request.id ≠ id) :
      Move env input a [] ({ a with pending := a.pending.erase id }.refuse sign.reply why)
  | refuse {a b : State env.ssh} {request : SignRequest} {added : List Reply} (why : Refusal)
      (hsource : Source env input a request added b) :
      Move env input a added (b.refuse request.reply why)
  /-- A client event that asks for no signature, answered at once. -/
  | reply (a : State env.ssh) {event : ClientEvent} (response : Bytes) (basis : Basis env.ssh)
      (hinput : input = .client event) (hother : event.signRequest env = none)
      (hbasis : ∀ ground moment, basis ≠ .authorized ground moment) :
      Move env input a [event.reply] (a.answer event.reply response basis)
  /-- A listing that waits for an unlock. -/
  | wait (a : State env.ssh) {event : ClientEvent} (waiters : HeldIdentities)
      (hinput : input = .client event) (hother : event.signRequest env = none)
      (hwaiting : waiters.waiting.map (·.1) =
        (a.heldIdentities.elim [] fun w => w.waiting.map (·.1)) ++ [event.reply]) :
      Move env input a [event.reply] { a with heldIdentities := some waiters }
  /-- The waiting listings, answered. -/
  | list (a : State env.ssh) {waiters : HeldIdentities} (hwaiters : a.heldIdentities = some waiters) :
      Move env input a []
        { a with
          heldIdentities := none
          log := a.log ++ waiters.waiting.map fun waiter =>
            .answer waiter.1 (identitiesFor a.store waiter.2) .listing }
  /-- An id that no stored request keeps. -/
  | burn (a : State env.ssh) (reply : Reply) (hnext : a.approvals.nextId + 1 ≤ Words.u64Max) :
      Move env input a [] (a.takeId reply)
  /-- Answered by a live grant. -/
  | grant {a b : State env.ssh} {request : SignRequest} {added : List Reply} {grant : Grant}
      (hsource : Source env input a request added b) (hgrant : grant ∈ a.approvals.grants)
      (hlive : a.now < grant.expiresAtMs)
      (hcovers : grantCovers grant a.store.epoch request.publicBlob request.peer request.scope)
      (huid : request.peer.uid = a.approvals.expectedUid) :
      Move env input a added (b.sign request.reply ⟨a.store.epoch, request.publicBlob⟩
        request.message request.flags .grant)
  | queue {a b : State env.ssh} {request : SignRequest} {added : List Reply} (deadlineMs : Nat)
      (hsource : Source env input a request added b) (hgate : a.gateOpen = true)
      (hroom : a.approvals.pending.length + b.held.entries.length < maxPending)
      (hnext : a.approvals.nextId + 1 ≤ Words.u64Max)
      (huid : request.peer.uid = a.approvals.expectedUid) :
      Move env input a added
        ({ b with
          approvals := a.approvals.enqueue ⟨a.approvals.nextId, a.store.epoch, request.publicBlob,
            request.peer, request.scope, deadlineMs⟩
          pending := a.pending.insert a.approvals.nextId
            ⟨request.reply, request.message, request.flags⟩ }.issue a.approvals.nextId request.reply)
  | hold (a : State env.ssh) {event : ClientEvent} {request : SignRequest} (deadlineMs : Nat)
      (hinput : input = .client event) (hrequest : event.signRequest env = some request)
      (hgate : a.gateOpen = false)
      (hroom : a.approvals.pending.length + a.held.entries.length < maxPending)
      (hnext : a.approvals.nextId + 1 ≤ Words.u64Max)
      (huid : request.peer.uid = a.approvals.expectedUid) :
      Move env input a [request.reply]
        { a.takeId request.reply with
          held := a.held.insert a.approvals.nextId { request with deadlineMs, approved := none } }
  /-- A held request is approved before its load is there. -/
  | mark (a : State env.ssh) {id : Nat} {grantSeconds : Nat} {fifoReady : Bool}
      {request : HeldSign} (hinput : input = .control (.approve id grantSeconds) fifoReady)
      (hheld : a.held.lookup id = some request) :
      Move env input a []
        { a with held := a.held.insert id { request with approved := some grantSeconds } }
  /-- A queued request is approved. -/
  | approve (a : State env.ssh) {id : Nat} {grantSeconds : Nat} {fifoReady : Bool}
      {sign : PendingSign} {request : Pending} (opened : Option Grant)
      (hinput : input = .control (.approve id grantSeconds) fifoReady)
      (hsign : a.pending.lookup id = some sign) (hmem : request ∈ a.approvals.pending)
      (hid : request.id = id) (hlive : a.now < request.deadlineMs)
      (hopened : ∀ grant, opened = some grant →
        OpensFor a request.epoch request.publicBlob request.peer request.scope grant) :
      Move env input a []
        ((State.openGrant? { a with
          pending := a.pending.erase id
          approvals := a.approvals.dequeue id } opened).sign sign.reply
            ⟨request.epoch, request.publicBlob⟩ sign.message sign.flags (.pending id))
  /-- A queued request is answered by a live grant. -/
  | settle (a : State env.ssh) {sign : PendingSign} {request : Pending} {grant : Grant}
      (hsign : a.pending.lookup request.id = some sign) (hmem : request ∈ a.approvals.pending)
      (hgrant : grant ∈ a.approvals.grants) (hlive : a.now < grant.expiresAtMs)
      (hcovers : grantCovers grant request.epoch request.publicBlob request.peer request.scope) :
      Move env input a []
        ({ a with
          pending := a.pending.erase request.id
          approvals := a.approvals.dequeue request.id }.sign sign.reply
            ⟨request.epoch, request.publicBlob⟩ sign.message sign.flags .grant)
  /-- A held request, approved before its load, is submitted and signed at once. -/
  | release (a : State env.ssh) {id : Nat} {request : HeldSign} (opened : Option Grant)
      (hheld : a.held.lookup id = some request) (happroved : request.approved.isSome)
      (hgate : a.gateOpen = true) (hnext : a.approvals.nextId + 1 ≤ Words.u64Max)
      (hopened : ∀ grant, opened = some grant →
        OpensFor a a.store.epoch request.publicBlob request.peer request.scope grant) :
      Move env input a []
        ((({ a with held := a.held.erase id }.takeId request.reply).openGrant? opened).sign
          request.reply ⟨a.store.epoch, request.publicBlob⟩ request.message request.flags (.held id))

/-- Moves one after another, with every reply they brought in. -/
inductive Moves (env : Env) (input : Input) :
    State env.ssh → List Reply → State env.ssh → Prop where
  | refl (a : State env.ssh) : Moves env input a [] a
  | cons {a b c : State env.ssh} {added more : List Reply} (head : Move env input a added b)
      (tail : Moves env input b more c) : Moves env input a (added ++ more) c

namespace Moves

variable {env : Env} {input : Input} {a b c : State env.ssh} {added more : List Reply}

theorem single (h : Move env input a added b) : Moves env input a added b := by
  have := Moves.cons h (.refl b)
  rwa [List.append_nil] at this

theorem trans (h : Moves env input a added b) (h' : Moves env input b more c) :
    Moves env input a (added ++ more) c := by
  induction h with
  | refl => exact h'
  | cons head _ ih =>
    rw [List.append_assoc]
    exact .cons head (ih h')

/-- A quiet sequence before another. -/
theorem trans' (h : Moves env input a [] b) (h' : Moves env input b more c) :
    Moves env input a more c := h.trans h'

theorem snoc (h : Moves env input a added b) (h' : Move env input b [] c) :
    Moves env input a added c := by
  have := h.trans (.single h')
  rwa [List.append_nil] at this

/-- What every move keeps, every sequence keeps. -/
theorem preserve {I : State env.ssh → Prop}
    (hI : ∀ a added b, Move env input a added b → I a → I b) (h : Moves env input a added b) :
    I a → I b := by
  induction h with
  | refl => exact id
  | cons head _ ih => exact fun ha => ih (hI _ _ _ head ha)

end Moves

/-- What a load, a lock or a logout does: the store, the active load and the gate change. -/
inductive Shift {ssh : Ssh} : State ssh → State ssh → Prop where
  | load (a : State ssh) (activeLoad : Option ActiveLoad)
      (hload : a.activeLoad.isSome ∨ activeLoad = none) : Shift a { a with activeLoad }
  /-- The gate closes on an agent with no request queued. -/
  | close (a : State ssh) (store : KeyStore ssh) (activeLoad : Option ActiveLoad) (tasks : Nat)
      (hpending : a.pending = ∅) (hstore : a.store.WF → store.WF) :
      Shift a
        { a with gateOpen := false, store, activeLoad, tasks, approvals := a.approvals.invalidateAll }
  /-- The panel says that its load failed. -/
  | relock (a : State ssh) (store : KeyStore ssh) (hload : a.activeLoad.isSome)
      (hstore : a.store.WF → store.WF) :
      Shift a { a with store, activeLoad := none, gateOpen := false }
  /-- The agent says so. -/
  | fail (a : State ssh) (store : KeyStore ssh) (epoch : Nat) (hload : a.activeLoad.isSome)
      (hstore : a.store.WF → store.WF) :
      Shift a ({ a with store, activeLoad := none, gateOpen := false }.emit (.loadFailed epoch))

/-! ## What no move touches -/

/-- The messages among some effects that end a load. -/
def endings {ssh : Ssh} (log : List (Effect ssh)) : List Output :=
  (emitted log).filter (·.endsLoad)

structure Unmoved {ssh : Ssh} (a b : State ssh) : Prop where
  store : b.store = a.store
  activeLoad : b.activeLoad = a.activeLoad
  gateOpen : b.gateOpen = a.gateOpen
  tasks : b.tasks = a.tasks
  endings : endings b.log = endings a.log

namespace Unmoved

variable {ssh : Ssh} {a b c : State ssh}

theorem refl (a : State ssh) : Unmoved a a := ⟨rfl, rfl, rfl, rfl, rfl⟩

theorem trans (h : Unmoved a b) (h' : Unmoved b c) : Unmoved a c :=
  ⟨h'.store.trans h.store, h'.activeLoad.trans h.activeLoad, h'.gateOpen.trans h.gateOpen,
    h'.tasks.trans h.tasks, h'.endings.trans h.endings⟩

/-- Effects that are no messages may follow. -/
theorem append (h : Unmoved a b) {effects : List (Effect ssh)} (hstore : c.store = b.store)
    (hload : c.activeLoad = b.activeLoad) (hgate : c.gateOpen = b.gateOpen)
    (htasks : c.tasks = b.tasks) (hlog : c.log = b.log ++ effects)
    (heffects : QsBitwarden.Agent.endings effects = []) : Unmoved a c := by
  refine h.trans ⟨hstore, hload, hgate, htasks, ?_⟩
  rw [hlog]
  unfold QsBitwarden.Agent.endings emitted at heffects ⊢
  rw [List.filterMap_append, List.filter_append, heffects, List.append_nil]

theorem source {env : Env} {input : Input} {a b : State env.ssh} {request : SignRequest}
    {added : List Reply} (h : Source env input a request added b) : Unmoved a b := by
  cases h with
  | fresh => exact .refl a
  | held => exact ⟨rfl, rfl, rfl, rfl, rfl⟩

end Unmoved

theorem Move.unmoved {env : Env} {input : Input} {a b : State env.ssh} {added : List Reply}
    (h : Move env input a added b) : Unmoved a b := by
  have hsame : Unmoved a a := .refl a
  cases h with
  | clock | settings | thin | wait | mark => exact ⟨rfl, rfl, rfl, rfl, rfl⟩
  | emit message hmessage =>
    refine ⟨rfl, rfl, rfl, rfl, ?_⟩
    simp [endings, State.emit, emitted, hmessage]
  | list =>
    refine ⟨rfl, rfl, rfl, rfl, ?_⟩
    simp [endings, emitted, List.filterMap_map]
  | refusePending | reply | burn | hold | settle => exact hsame.append rfl rfl rfl rfl rfl rfl
  | refuse why hsource | grant hsource | queue deadlineMs hsource =>
    exact (Unmoved.source hsource).append rfl rfl rfl rfl rfl rfl
  | approve opened => cases opened <;> exact hsame.append rfl rfl rfl rfl rfl rfl
  | @release id request opened =>
    have hissue : Unmoved a (a.issue a.approvals.nextId request.reply) :=
      hsame.append rfl rfl rfl rfl rfl rfl
    cases opened <;> exact hissue.append rfl rfl rfl rfl rfl rfl

theorem Moves.unmoved {env : Env} {input : Input} {a b : State env.ssh} {added : List Reply}
    (h : Moves env input a added b) : Unmoved a b := by
  induction h with
  | refl a => exact .refl a
  | cons head _ ih => exact head.unmoved.trans ih

/-! ## The books -/

structure Books {ssh : Ssh} (a : State ssh) : Prop where
  store_wf : a.store.WF
  shut : a.gateOpen = false →
    a.approvals.pending = [] ∧ a.approvals.grants = [] ∧ a.pending = ∅
  opened : a.gateOpen = true → a.store.state.state = .unlocked ∧ a.activeLoad = none
  queue_epoch : ∀ request ∈ a.approvals.pending, request.epoch = a.store.epoch
  grant_epoch : ∀ grant ∈ a.approvals.grants, grant.epoch = a.store.epoch
  queue_nodup : (a.approvals.pending.map (·.id)).Nodup
  queue_lt : ∀ request ∈ a.approvals.pending, request.id < a.approvals.nextId
  queue_key : ∀ request ∈ a.approvals.pending, request.id ∈ a.pending
  queue_uid : ∀ request ∈ a.approvals.pending, request.peer.uid = a.approvals.expectedUid
  pending_lt : ∀ id ∈ a.pending, id < a.approvals.nextId
  held_lt : ∀ id ∈ a.held, id < a.approvals.nextId
  held_uid : ∀ id request, a.held.lookup id = some request →
    request.peer.uid = a.approvals.expectedUid
  capacity : a.approvals.pending.length + a.held.entries.length ≤ maxPending
  grant_ids : a.approvals.nextGrantId + a.approvals.pending.length ≤ a.approvals.nextId
  next_le : a.approvals.nextId ≤ Words.u64Max

namespace Books

variable {ssh : Ssh} {a b : State ssh}

variable {input : Input} {added : List Reply}

theorem new (env : Env) : Books (State.new env) := by
  constructor <;> simp [State.new, ApprovalManager.new, KeyStore.WF.new, Words.u64Max]

variable (ha : Books a)
include ha

theorem effects (log : List (Effect ssh)) : Books { a with log } := { ha with }

/-- Nothing queued or granted can be the gate's business while it is closed. -/
theorem gate_of_mem {request : Pending} (h : request ∈ a.approvals.pending) :
    a.gateOpen = true := by
  by_contra hgate
  rw [(ha.shut (by simpa using hgate)).1] at h
  cases h

theorem keep {queue : List Pending} {grants : List Grant}
    (hqueue : queue.Sublist a.approvals.pending) (hgrants : grants.Sublist a.approvals.grants) :
    Books (a.keep queue grants) :=
  { ha with
    shut := by
      intro hgate
      obtain ⟨hq, hg, hp⟩ := ha.shut hgate
      rw [hq] at hqueue
      rw [hg] at hgrants
      exact ⟨List.eq_nil_of_sublist_nil hqueue, List.eq_nil_of_sublist_nil hgrants, hp⟩
    queue_epoch := fun request h => ha.queue_epoch request (hqueue.subset h)
    grant_epoch := fun grant h => ha.grant_epoch grant (hgrants.subset h)
    queue_nodup := ha.queue_nodup.sublist (hqueue.map _)
    queue_lt := fun request h => ha.queue_lt request (hqueue.subset h)
    queue_key := fun request h => ha.queue_key request (hqueue.subset h)
    queue_uid := fun request h => ha.queue_uid request (hqueue.subset h)
    capacity := Nat.le_trans (Nat.add_le_add_right hqueue.length_le _) ha.capacity
    grant_ids := Nat.le_trans (Nat.add_le_add_left hqueue.length_le _) ha.grant_ids }

theorem erasePending {id : Nat} (hgone : ∀ request ∈ a.approvals.pending, request.id ≠ id) :
    Books { a with pending := a.pending.erase id } :=
  { ha with
    shut := by
      intro hgate
      obtain ⟨hq, hg, hp⟩ := ha.shut hgate
      refine ⟨hq, hg, ?_⟩
      show a.pending.erase id = ∅
      rw [hp]
      rfl
    queue_key := fun request h => AList.mem_erase.mpr ⟨hgone request h, ha.queue_key request h⟩
    pending_lt := fun id h => ha.pending_lt id (AList.mem_erase.mp h).2 }

theorem eraseHeld (id : Nat) : Books { a with held := a.held.erase id } :=
  { ha with
    held_lt := fun id h => ha.held_lt id (AList.mem_erase.mp h).2
    held_uid := fun id request h => ha.held_uid id request (Table.lookup_erase_eq_some.mp h).2
    capacity := Nat.le_trans (Nat.add_le_add_left Table.length_erase_le _) ha.capacity }

/-- An approved request leaves the queue together with its entry in the map. -/
theorem dequeue (id : Nat) :
    Books { a with pending := a.pending.erase id, approvals := a.approvals.dequeue id } := by
  have hthin : Books (a.keep (a.approvals.dequeue id).pending a.approvals.grants) :=
    ha.keep ApprovalManager.dequeue_pending_sublist (List.Sublist.refl _)
  exact hthin.erasePending fun request h =>
    ((ApprovalManager.mem_dequeue ha.queue_nodup).mp h).2

theorem takeId (reply : Reply) (hnext : a.approvals.nextId + 1 ≤ Words.u64Max) :
    Books (a.takeId reply) :=
  { ha with
    queue_lt := fun request h => Nat.lt_succ_of_lt (ha.queue_lt request h)
    pending_lt := fun id h => Nat.lt_succ_of_lt (ha.pending_lt id h)
    held_lt := fun id h => Nat.lt_succ_of_lt (ha.held_lt id h)
    grant_ids := Nat.le_succ_of_le ha.grant_ids
    next_le := hnext }

/-- A grant may be opened as soon as a request id is spare for it. -/
theorem openGrant? {opened : Option Grant} (hgate : a.gateOpen = true)
    (hspare : a.approvals.nextGrantId + a.approvals.pending.length < a.approvals.nextId)
    (hopened : ∀ grant, opened = some grant → grant.epoch = a.store.epoch) :
    Books (a.openGrant? opened) := by
  cases opened with
  | none => exact ha
  | some grant =>
    exact
      { ha with
        shut := fun h => by rw [show a.gateOpen = false from h] at hgate; cases hgate
        grant_epoch := List.forall_mem_append.mpr
          ⟨ha.grant_epoch, List.forall_mem_singleton.mpr (hopened grant rfl)⟩
        grant_ids := by
          show a.approvals.nextGrantId + 1 + a.approvals.pending.length ≤ a.approvals.nextId
          omega }

/-- A request enters the queue and the map under the next id. -/
theorem enqueue {request : SignRequest} {deadlineMs : Nat} (hgate : a.gateOpen = true)
    (hroom : a.approvals.pending.length + a.held.entries.length < maxPending)
    (hnext : a.approvals.nextId + 1 ≤ Words.u64Max)
    (huid : request.peer.uid = a.approvals.expectedUid) :
    Books { a with
      approvals := a.approvals.enqueue ⟨a.approvals.nextId, a.store.epoch, request.publicBlob,
        request.peer, request.scope, deadlineMs⟩
      pending := a.pending.insert a.approvals.nextId
        ⟨request.reply, request.message, request.flags⟩ } := by
  have hfresh : a.approvals.nextId ∉ a.approvals.pending.map Pending.id := by
    intro hmem
    obtain ⟨r, hr, heq⟩ := List.mem_map.mp hmem
    exact Nat.ne_of_lt (ha.queue_lt r hr) heq
  have hids := ha.grant_ids
  exact
    { ha.takeId request.reply hnext with
      shut := fun h => by rw [show a.gateOpen = false from h] at hgate; cases hgate
      queue_epoch := List.forall_mem_append.mpr
        ⟨ha.queue_epoch, List.forall_mem_singleton.mpr rfl⟩
      queue_nodup := by
        show ((a.approvals.pending ++ [_]).map Pending.id).Nodup
        rw [List.map_append, List.map_singleton, ← List.concat_eq_append]
        exact ha.queue_nodup.concat hfresh
      queue_lt := List.forall_mem_append.mpr
        ⟨(ha.takeId request.reply hnext).queue_lt,
          List.forall_mem_singleton.mpr (Nat.lt_succ_self _)⟩
      queue_key := List.forall_mem_append.mpr
        ⟨fun r h => (AList.mem_insert _).mpr (.inr (ha.queue_key r h)),
          List.forall_mem_singleton.mpr ((AList.mem_insert _).mpr (.inl rfl))⟩
      queue_uid := List.forall_mem_append.mpr ⟨ha.queue_uid, List.forall_mem_singleton.mpr huid⟩
      pending_lt := by
        intro id h
        show id < a.approvals.nextId + 1
        rcases (AList.mem_insert _).mp h with rfl | h
        · exact Nat.lt_succ_self _
        · exact Nat.lt_succ_of_lt (ha.pending_lt id h)
      capacity := by
        show (a.approvals.pending ++ [_]).length + a.held.entries.length ≤ maxPending
        rw [List.length_append, List.length_singleton]
        omega
      grant_ids := by
        show a.approvals.nextGrantId + (a.approvals.pending ++ [_]).length ≤ a.approvals.nextId + 1
        rw [List.length_append, List.length_singleton]
        omega }

/-- A request is held under the next id. -/
theorem hold {request : HeldSign}
    (hroom : a.approvals.pending.length + a.held.entries.length < maxPending)
    (hnext : a.approvals.nextId + 1 ≤ Words.u64Max)
    (huid : request.peer.uid = a.approvals.expectedUid) :
    Books { a.takeId request.reply with
      held := a.held.insert a.approvals.nextId request } := by
  have hfresh : a.approvals.nextId ∉ a.held := fun h => Nat.lt_irrefl _ (ha.held_lt _ h)
  exact
    { ha.takeId request.reply hnext with
      held_lt := by
        intro id h
        show id < a.approvals.nextId + 1
        rcases (AList.mem_insert _).mp h with rfl | h
        · exact Nat.lt_succ_self _
        · exact Nat.lt_succ_of_lt (ha.held_lt id h)
      held_uid := by
        intro id r h
        rcases Table.lookup_insert_eq_some.mp h with ⟨-, rfl⟩ | ⟨-, h⟩
        · exact huid
        · exact ha.held_uid id r h
      capacity := by
        show a.approvals.pending.length + (a.held.insert _ _).entries.length ≤ maxPending
        rw [Table.length_insert_of_notMem hfresh]
        omega }

/-- Overwriting a held request by one of the same user. -/
theorem overwriteHeld {id : Nat} {old request : HeldSign} (hheld : a.held.lookup id = some old)
    (huid : request.peer.uid = a.approvals.expectedUid) :
    Books { a with held := a.held.insert id request } :=
  { ha with
    held_lt := by
      intro id' h
      rcases (AList.mem_insert _).mp h with rfl | h
      · exact ha.held_lt _ (Table.mem_of_lookup hheld)
      · exact ha.held_lt id' h
    held_uid := by
      intro id' r h
      rcases Table.lookup_insert_eq_some.mp h with ⟨-, rfl⟩ | ⟨-, h⟩
      · exact huid
      · exact ha.held_uid id' r h
    capacity := by
      have hcap := ha.capacity
      show a.approvals.pending.length + (a.held.insert id request).entries.length ≤ maxPending
      rw [Table.length_insert_of_lookup hheld]
      exact hcap }

/-- Closing the gate on an empty map leaves nothing to keep. -/
theorem close (store : KeyStore ssh) (activeLoad : Option ActiveLoad) (tasks : Nat)
    (hpending : a.pending = ∅) (hstore : store.WF) :
    Books { a with
      gateOpen := false, store, activeLoad, tasks, approvals := a.approvals.invalidateAll } :=
  { ha.keep (List.nil_sublist _) (List.nil_sublist _) with
    store_wf := hstore
    shut := fun _ => ⟨rfl, rfl, hpending⟩
    opened := fun h => by cases h
    queue_epoch := fun _ h => by cases h
    grant_epoch := fun _ h => by cases h }

/-- While a load is active the gate is closed, so the store may change under it. -/
theorem restore (store : KeyStore ssh) (hgate : a.gateOpen = false) (hstore : store.WF)
    (gateOpen : Bool) (hopen : gateOpen = true → store.state.state = .unlocked) :
    Books { a with store, activeLoad := none, gateOpen } := by
  obtain ⟨hq, hg, hp⟩ := ha.shut hgate
  exact
    { ha with
      store_wf := hstore
      shut := fun _ => ⟨hq, hg, hp⟩
      opened := fun h => ⟨hopen h, rfl⟩
      queue_epoch := by simp [hq]
      grant_epoch := by simp [hg] }

theorem gate_of_load (hload : a.activeLoad.isSome) : a.gateOpen = false := by
  by_contra hgate
  have hnone := (ha.opened (by simpa using hgate)).2
  rw [hnone] at hload
  cases hload

omit ha

theorem source {env : Env} {a b : State env.ssh} {request : SignRequest} (ha : Books a)
    (h : Source env input a request added b) : Books b := by
  cases h with
  | fresh => exact ha
  | held => exact ha.eraseHeld _

/-- **Every move keeps the books.** -/
theorem move {env : Env} {a b : State env.ssh} (h : Move env input a added b) (ha : Books a) :
    Books b := by
  cases h with
  -- the books are about the store, the queues, the gate and the load only
  | clock | emit | settings | reply | wait | list => exact { ha with }
  | thin hqueue hgrants => exact ha.keep hqueue hgrants
  | refusePending why hsign hgone => exact { ha.erasePending hgone with }
  | refuse why hsource | grant hsource => exact { ha.source hsource with }
  | burn reply hnext => exact ha.takeId reply hnext
  | queue deadlineMs hsource hgate hroom hnext huid =>
    cases hsource with
    | fresh => exact { ha.enqueue hgate hroom hnext huid with }
    | held => exact { (ha.eraseHeld _).enqueue hgate hroom hnext huid with }
  | hold deadlineMs hinput hrequest hgate hroom hnext huid => exact ha.hold hroom hnext huid
  | mark hinput hheld =>
    have huid := ha.held_uid _ _ hheld
    exact ha.overwriteHeld hheld huid
  | approve opened hinput hsign hmem hid hlive hopened =>
    have hlen := ApprovalManager.length_dequeue hmem hid
    have hids := ha.grant_ids
    refine { (ha.dequeue _).openGrant? (ha.gate_of_mem hmem) ?_ ?_ with }
    · show a.approvals.nextGrantId + (a.approvals.dequeue _).pending.length < a.approvals.nextId
      omega
    · intro grant hgrant
      rw [(hopened grant hgrant).epoch]
      exact ha.queue_epoch _ hmem
  | settle => exact { ha.dequeue _ with }
  | release opened hheld happroved hgate hnext hopened =>
    refine { ((ha.eraseHeld _).takeId _ hnext).openGrant? hgate ?_ ?_ with }
    · exact Nat.lt_succ_of_le ha.grant_ids
    · intro grant hgrant
      exact (hopened grant hgrant).epoch

theorem shift (h : Shift a b) (ha : Books a) : Books b := by
  cases h with
  | load activeLoad hload =>
    refine { ha with opened := fun hgate => ⟨(ha.opened hgate).1, ?_⟩ }
    rcases hload with hload | hload
    · rw [ha.gate_of_load hload] at hgate
      cases hgate
    · exact hload
  | close store activeLoad tasks hpending hstore =>
    exact ha.close store activeLoad tasks hpending (hstore ha.store_wf)
  | relock store hload hstore =>
    exact ha.restore store (ha.gate_of_load hload) (hstore ha.store_wf) false (by simp)
  | fail store epoch hload hstore =>
    exact { ha.restore store (ha.gate_of_load hload) (hstore ha.store_wf) false (by simp) with }

theorem moves {env : Env} {a b : State env.ssh} (h : Moves env input a added b) (ha : Books a) :
    Books b :=
  h.preserve (fun _ _ _ hmove => Books.move hmove) ha

end Books

end QsBitwarden.Agent
