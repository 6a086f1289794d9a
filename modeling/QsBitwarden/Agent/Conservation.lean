import Mathlib.Data.Multiset.Count
import Mathlib.Tactic.Abel
import QsBitwarden.Agent.Publication

/-!
# Agent — no request is lost or answered twice

A client waits on the reply channel its event brought along. Between iterations that channel is
in exactly one place: answered, in the pending-sign map, in the held map, or among the listings
that wait for an unlock.

* **`accounted`** — all replies the loop has answered or still stores, as a multiset; every move
  adds exactly the replies it brought in (`Move.accounted`), so every iteration does.
* **`IdsFrom`** — the ids an iteration issues are consecutive, from the manager's counter on.
* **`Disposed`** — what a publication may do with a request that was held for it.
* **`requests_conserved`** — the three together, over whole runs.
* **`approved_release_refused`** — the one refusal at release that is nobody's: the approval
  comes at a later reading of the clock than the submission, and may find it expired.
-/

namespace QsBitwarden.Agent

open SshWire Trace

variable {ssh : Ssh}

/-! ## Replies and ids in a log -/

def answers (log : List (Effect ssh)) : List Reply :=
  log.filterMap fun
    | .answer reply _ _ => some reply
    | _ => none

/-- The ids issued, with the reply each was issued for. -/
def issues (log : List (Effect ssh)) : List (Nat × Reply) :=
  log.filterMap fun
    | .issue id reply => some (id, reply)
    | _ => none

theorem answers_append (log log' : List (Effect ssh)) :
    answers (log ++ log') = answers log ++ answers log' := List.filterMap_append

theorem answers_issue_answer (log : List (Effect ssh)) (id : Nat) (reply : Reply)
    (response : Bytes) {basis : Basis ssh} :
    answers ((log ++ [.issue id reply]) ++ [.answer reply response basis]) =
      answers log ++ [reply] := by
  simp [answers]

theorem issues_append (log log' : List (Effect ssh)) :
    issues (log ++ log') = issues log ++ issues log' := List.filterMap_append

namespace State

variable (a : State ssh)

def waitingReplies : List Reply := a.heldIdentities.elim [] fun w => w.waiting.map (·.1)

/-- Every reply this state still stores, or has answered in the iteration at hand. -/
def accounted : Multiset Reply :=
  Multiset.ofList (answers a.log) + Table.image PendingSign.reply a.pending +
    Table.image (fun request : HeldSign => request.reply) a.held + Multiset.ofList a.waitingReplies

end State

variable {env : Env} {input : Input}

variable {a b : State env.ssh} {request : SignRequest} {added : List Reply}

/-- A source takes its reply out of the held map, or brings it in. -/
theorem Source.accounted (h : Source env input a request added b) :
    Table.image (fun request : HeldSign => request.reply) b.held + {request.reply} =
      Multiset.ofList added + Table.image (fun request : HeldSign => request.reply) a.held := by
  cases h with
  | fresh => rw [Multiset.coe_singleton, add_comm]
  | held hheld =>
    rw [Multiset.coe_nil, zero_add]
    exact (Table.image_of_lookup _ hheld).symm

/-- What leaves the held map goes somewhere else. -/
theorem exchange {held held' added x y z : Multiset Reply} {reply : Reply}
    (h : held' + {reply} = added + held) :
    x + y + held' + z + {reply} = added + (x + y + held + z) := by
  calc x + y + held' + z + {reply} = x + y + (held' + {reply}) + z := by abel
    _ = x + y + (added + held) + z := by rw [h]
    _ = added + (x + y + held + z) := by abel

/-- A queued request is answered. -/
theorem accounted_of_pending {a b : State ssh} {id : Nat} {sign : PendingSign}
    (hsign : a.pending.lookup id = some sign) (hpending : b.pending = a.pending.erase id)
    (hheld : b.held = a.held) (hwaiting : b.heldIdentities = a.heldIdentities)
    (hlog : answers b.log = answers a.log ++ [sign.reply]) :
    b.accounted = Multiset.ofList [] + a.accounted := by
  unfold State.accounted State.waitingReplies
  rw [Table.image_of_lookup PendingSign.reply hsign, hpending, hheld, hwaiting, hlog,
    ← Multiset.coe_add, Multiset.coe_singleton, Multiset.coe_nil]
  abel

/-- A held or new request is answered. -/
theorem accounted_of_source {m : State env.ssh} (hsource : Source env input a request added m)
    (hpending : b.pending = a.pending) (hheld : b.held = m.held)
    (hwaiting : b.heldIdentities = a.heldIdentities)
    (hlog : answers b.log = answers a.log ++ [request.reply]) :
    b.accounted = Multiset.ofList added + a.accounted := by
  have htake := hsource.accounted
  unfold State.accounted State.waitingReplies
  rw [hpending, hheld, hwaiting, hlog, ← Multiset.coe_add, Multiset.coe_singleton]
  rw [← exchange htake]
  abel

/-- A held or new request is queued. -/
theorem accounted_of_queue {m : State env.ssh} {id : Nat} {sign : PendingSign}
    (hsource : Source env input a request added m) (hfresh : id ∉ a.pending)
    (hreply : sign.reply = request.reply) (hpending : b.pending = a.pending.insert id sign)
    (hheld : b.held = m.held) (hwaiting : b.heldIdentities = a.heldIdentities)
    (hlog : answers b.log = answers a.log) : b.accounted = Multiset.ofList added + a.accounted := by
  have htake := hsource.accounted
  unfold State.accounted State.waitingReplies
  rw [hpending, hheld, hwaiting, hlog, Table.image_insert PendingSign.reply hfresh, hreply]
  rw [← exchange htake]
  abel

theorem Source.keeps (h : Source env input a request added b) :
    b.pending = a.pending ∧ b.heldIdentities = a.heldIdentities ∧ b.log = a.log := by
  cases h with
  | fresh | held => exact ⟨rfl, rfl, rfl⟩

/-- **Every move accounts for what it brought in.** -/
theorem Move.accounted (h : Move env input a added b) (ha : Books a) :
    b.accounted = Multiset.ofList added + a.accounted := by
  have hfresh : a.approvals.nextId ∉ a.pending := fun hmem =>
    Nat.lt_irrefl _ (ha.pending_lt _ hmem)
  have hfresh' : a.approvals.nextId ∉ a.held := fun hmem => Nat.lt_irrefl _ (ha.held_lt _ hmem)
  cases h with
  | clock | settings | thin => exact (zero_add _).symm
  | emit message =>
    unfold State.accounted
    rw [show answers (a.emit message).log = answers a.log by simp [answers, State.emit]]
    exact (zero_add _).symm
  | refusePending why hsign hgone =>
    exact accounted_of_pending hsign rfl rfl rfl (answers_append _ _)
  | settle hsign => exact accounted_of_pending hsign rfl rfl rfl (answers_append _ _)
  | approve opened hinput hsign =>
    cases opened with
    | none | some grant => exact accounted_of_pending hsign rfl rfl rfl (answers_append _ _)
  | refuse why hsource | grant hsource =>
    obtain ⟨hp, hw, hl⟩ := hsource.keeps
    exact accounted_of_source hsource hp rfl hw (hl ▸ answers_append _ _)
  | release opened hheld =>
    have hsource : Source env input a _ [] _ := .held hheld
    cases opened with
    | none | some grant =>
      exact accounted_of_source hsource rfl rfl rfl (answers_issue_answer _ _ _ _)
  | queue deadlineMs hsource =>
    obtain ⟨hp, hw, hl⟩ := hsource.keeps
    refine accounted_of_queue hsource hfresh rfl rfl rfl hw ?_
    rw [← hl]
    simp [answers, State.issue]
  | @reply event response basis =>
    unfold State.accounted
    rw [show answers (a.answer event.reply response basis).log = answers a.log ++ [event.reply] from
      answers_append _ _, ← Multiset.coe_add]
    show _ + Table.image _ a.pending + Table.image _ a.held + Multiset.ofList a.waitingReplies = _
    abel
  | @wait event waiters hinput hother hwaiting =>
    unfold State.accounted
    rw [show State.waitingReplies { a with heldIdentities := some waiters } =
      a.waitingReplies ++ [event.reply] from hwaiting, ← Multiset.coe_add]
    abel
  | @list waiters hwaiters =>
    have hbefore : a.waitingReplies = waiters.waiting.map (·.1) := by
      rw [State.waitingReplies, hwaiters]
      rfl
    have hlog : answers (waiters.waiting.map fun waiter =>
        (.answer waiter.1 (identitiesFor a.store waiter.2) .listing : Effect env.ssh)) =
        waiters.waiting.map (·.1) := by
      simp [answers, List.filterMap_map]
    unfold State.accounted
    rw [hbefore, answers_append, hlog, ← Multiset.coe_add]
    show _ + Table.image _ a.pending + Table.image _ a.held + Multiset.ofList [] = _
    rw [Multiset.coe_nil]
    abel
  | burn reply hnext =>
    unfold State.accounted
    rw [show answers (a.takeId reply).log = answers a.log by
      simp [answers, State.takeId, State.issue]]
    exact (zero_add _).symm
  | @hold event request deadlineMs hinput hrequest =>
    unfold State.accounted
    rw [show answers (a.takeId request.reply).log = answers a.log by
      simp [answers, State.takeId, State.issue], Table.image_insert _ hfresh']
    show _ + Table.image _ a.pending + (Table.image _ a.held + _) +
      Multiset.ofList a.waitingReplies = _
    rw [Multiset.coe_singleton]
    abel
  | @mark id grantSeconds fifoReady request hinput hheld =>
    have hsame : Table.image (fun request : HeldSign => request.reply)
        (a.held.insert id { request with approved := some grantSeconds }) = Table.image _ a.held :=
      Table.image_insert_of_lookup _ hheld rfl
    unfold State.accounted
    rw [hsame]
    exact (zero_add _).symm

theorem Moves.accounted (h : Moves env input a added b) (ha : Books a) :
    b.accounted = Multiset.ofList added + a.accounted := by
  induction h with
  | refl => exact (zero_add _).symm
  | cons head tail ih =>
    rw [ih (ha.move head), head.accounted ha, ← Multiset.coe_add]
    abel

theorem Shift.accounted {a b : State ssh} (h : Shift a b) : b.accounted = a.accounted := by
  cases h with
  | load | close | relock => rfl
  | fail store epoch =>
    unfold State.accounted
    rw [show answers (State.emit { a with store, activeLoad := none, gateOpen := false }
      (.loadFailed epoch)).log = answers a.log by simp [answers, State.emit]]
    rfl

theorem answers_emits (messages : List Output) :
    answers (messages.map (fun message => (.emit message : Effect ssh))) = [] := by
  simp [answers, List.filterMap_map]

theorem issues_emits (messages : List Output) :
    issues (messages.map (fun message => (.emit message : Effect ssh))) = [] := by
  simp [issues, List.filterMap_map]

theorem Publishes.accounted {serde : Serde} {a b : State ssh} (h : Publishes serde a b) :
    b.accounted = a.accounted := by
  cases h with
  | @intro load bytes report store =>
    unfold State.accounted
    rw [State.announceKeys_eq]
    simp only [answers_append, answers_emits, List.append_nil]
    rfl

theorem Iterates.accounted (h : Iterates env input a added b) (ha : Books a) :
    b.accounted = Multiset.ofList added + a.accounted := by
  induction h with
  | moves h => exact h.accounted ha
  | shift before shift after ih =>
    have hm := ha.moves before
    rw [ih (hm.shift shift), shift.accounted, before.accounted ha]
    exact zero_add _
  | publish before publish after shut =>
    have hm := ha.moves before
    rw [after.accounted (.publish publish hm), publish.accounted, before.accounted ha]
    exact zero_add _

/-! ## Runs -/

/-- The replies of all client events, newest first. -/
def accepted (h : List (Turn ssh)) : List Reply := h.flatMap fun t => t.input.replies

/-- The replies that were answered. -/
def answered (env : Env) (h : List (Turn env.ssh)) : List Reply :=
  h.flatMap fun t => answers (t.effects env)

namespace State

def pendingReplies (a : State ssh) : List Reply := a.pending.entries.map (·.2.reply)

def heldReplies (a : State ssh) : List Reply := a.held.entries.map (·.2.reply)

/-- The replies still stored. -/
def stored (a : State ssh) : Multiset Reply :=
  Multiset.ofList a.pendingReplies + Multiset.ofList a.heldReplies + Multiset.ofList a.waitingReplies

theorem accounted_eq_stored (a : State ssh) :
    a.accounted = Multiset.ofList (answers a.log) + a.stored := by
  unfold accounted stored
  rw [← add_assoc, ← add_assoc]
  rfl

theorem stored_reordered {a b : State ssh} (h : Reordered a b) : b.stored = a.stored := by
  obtain ⟨hpending, hheld, hb⟩ := h
  have hp : Multiset.ofList b.pendingReplies = Multiset.ofList a.pendingReplies :=
    (Table.image_of_perm PendingSign.reply hpending).symm
  have hh : Multiset.ofList b.heldReplies = Multiset.ofList a.heldReplies :=
    (Table.image_of_perm (fun request : HeldSign => request.reply) hheld).symm
  have hw : b.waitingReplies = a.waitingReplies := by rw [hb]; rfl
  unfold stored
  rw [hp, hh, hw]

end State

variable {t : Turn env.ssh} {h : List (Turn env.ssh)} {s : Option (State env.ssh)} {a : State ssh}
  {b : State env.ssh} {added : List Reply} {first id : Nat} {known : List (Nat × Reply)}
  {request : HeldSign} {sign : PendingSign}

/-- An iteration that goes on performs everything in its log. -/
theorem Turn.effects_of_completes (h : t.Completes env) : t.effects env = (t.outcome env).2.log :=
  performed_eq_self h.2

theorem run_accounted (run : (system env).Run h s) : ∀ a, s = some a →
      Multiset.ofList (answered env h) + a.stored = Multiset.ofList (accepted h) := by
  refine run_invariant (I := fun h a =>
    Multiset.ofList (answered env h) + a.stored = Multiset.ofList (accepted h)) ?_ ?_ run
  · rfl
  · intro h a t run hreordered hcompletes ih
    have hstart : Books t.start := { (turn_books run).1 with }
    have hiter := (turn_iterates run).accounted hstart
    have hbefore : t.start.accounted = a.stored := by
      have hsame : t.start.stored = t.before.stored := rfl
      rw [State.accounted_eq_stored, hsame, State.stored_reordered hreordered]
      exact zero_add _
    rw [State.accounted_eq_stored, hbefore] at hiter
    have hanswered : answered env (t :: h) = answers (t.outcome env).2.log ++ answered env h := by
      rw [answered, List.flatMap_cons, t.effects_of_completes hcompletes]
      rfl
    have haccepted : accepted (t :: h) = t.input.replies ++ accepted h := List.flatMap_cons
    rw [hanswered, haccepted, ← Multiset.coe_add, ← Multiset.coe_add, ← ih]
    calc _ = Multiset.ofList (answers (t.outcome env).2.log) + (t.outcome env).2.stored +
            Multiset.ofList (answered env h) := by abel
      _ = _ := by
        rw [hiter]
        abel

theorem run_accepted_nodup (run : (system env).Run h s) : (accepted h).Nodup := by
  refine run.invariant (I := fun h _ => (accepted h).Nodup) (fun _ _ => List.nodup_nil) ?_
  rintro h s t s' - ih ⟨a, rfl, -, hreceivable, -⟩
  unfold accepted
  rw [List.flatMap_cons]
  cases hinput : t.input with
  | client event =>
    rw [hinput] at hreceivable
    refine List.nodup_cons.mpr ⟨?_, ih⟩
    intro hmem
    obtain ⟨t', ht', hreply⟩ := List.mem_flatMap.mp hmem
    cases hinput' : t'.input with
    | client event' =>
      rw [hinput'] at hreply
      exact hreceivable t' ht' event' hinput' (List.mem_singleton.mp hreply).symm
    | _ =>
      rw [hinput'] at hreply
      cases hreply
  | _ => exact ih

/-! ## Ids -/

/-- What a step does to the ids: nothing, or it issues the next one. -/
inductive IssueCase (a b : State ssh) : Prop where
  | quiet (hlog : issues b.log = issues a.log) (hnext : b.approvals.nextId = a.approvals.nextId)
  | issued (reply : Reply) (hlog : issues b.log = issues a.log ++ [(a.approvals.nextId, reply)])
      (hnext : b.approvals.nextId = a.approvals.nextId + 1)

theorem Move.issueCase {a : State env.ssh} (h : Move env input a added b) : IssueCase a b := by
  have hanswer : ∀ (log : List (Effect env.ssh)) reply response basis,
      issues (log ++ [.answer reply response basis]) = issues log := by
    intro log reply response basis
    simp [issues]
  cases h with
  | clock | settings | thin | wait | mark => exact .quiet rfl rfl
  | emit message => exact .quiet (by simp [issues, State.emit]) rfl
  | list => exact .quiet (by simp [issues, List.filterMap_map]) rfl
  | refusePending | reply | settle => exact .quiet (hanswer _ _ _ _) rfl
  | approve opened => cases opened <;> exact .quiet (hanswer _ _ _ _) rfl
  | refuse why hsource | grant hsource => cases hsource <;> exact .quiet (hanswer _ _ _ _) rfl
  | burn reply => exact .issued reply (issues_append _ _) rfl
  | hold => exact .issued _ (issues_append _ _) rfl
  | queue deadlineMs hsource => cases hsource <;> exact .issued _ (issues_append _ _) rfl
  | @release id request opened =>
    have hlog : ∀ (log : List (Effect env.ssh)) response basis,
        issues ((log ++ [.issue a.approvals.nextId request.reply]) ++
          [.answer request.reply response basis]) =
        issues log ++ [(a.approvals.nextId, request.reply)] := by
      intro log response basis
      rw [hanswer]
      exact issues_append _ _
    cases opened <;> exact .issued request.reply (hlog _ _ _) rfl

theorem Shift.issueCase {b : State ssh} (h : Shift a b) : IssueCase a b := by
  cases h with
  | load | close | relock => exact .quiet rfl rfl
  | fail => exact .quiet (by simp [issues, State.emit]) rfl

theorem Publishes.issueCase {serde : Serde} {b : State ssh} (h : Publishes serde a b) :
    IssueCase a b := by
  cases h with
  | @intro load bytes report store =>
    rw [State.announceKeys_eq]
    refine .quiet ?_ rfl
    rw [issues_append, issues_emits, List.append_nil]

/-- The ids issued in an iteration that found the counter at `first`. -/
structure IdsFrom (first : Nat) (a : State ssh) : Prop where
  sorted : (issues a.log).Pairwise fun x y => x.1 < y.1
  bounds : ∀ pair ∈ issues a.log, first ≤ pair.1 ∧ pair.1 < a.approvals.nextId
  le : first ≤ a.approvals.nextId

theorem IdsFrom.step {b : State ssh} (h : IssueCase a b) (ha : IdsFrom first a) :
    IdsFrom first b := by
  obtain ⟨hsorted, hbounds, hle⟩ := ha
  cases h with
  | quiet hlog hnext =>
    refine ⟨hlog ▸ hsorted, ?_, hnext ▸ hle⟩
    rw [hlog, hnext]
    exact hbounds
  | issued reply hlog hnext =>
    refine ⟨?_, ?_, ?_⟩
    · rw [hlog, List.pairwise_append]
      refine ⟨hsorted, List.pairwise_singleton _ _, ?_⟩
      intro pair hpair new hnew
      rw [List.mem_singleton.mp hnew]
      exact (hbounds pair hpair).2
    · intro pair hpair
      rw [hlog, List.mem_append, List.mem_singleton] at hpair
      rw [hnext]
      rcases hpair with hpair | rfl
      · have hlt := (hbounds pair hpair).2
        exact ⟨(hbounds pair hpair).1, by omega⟩
      · exact ⟨hle, Nat.lt_succ_self _⟩
    · rw [hnext]
      omega

theorem Iterates.idsFrom {a : State env.ssh} (h : Iterates env input a added b) :
    IdsFrom first a → IdsFrom first b :=
  h.preserve (fun _ _ _ h => IdsFrom.step h.issueCase) (fun _ _ h => IdsFrom.step h.issueCase)
    fun _ _ h => IdsFrom.step h.issueCase

/-- The ids issued in a run, oldest first. -/
def issued (env : Env) (h : List (Turn env.ssh)) : List (Nat × Reply) :=
  h.reverse.flatMap fun t => issues (t.effects env)

theorem issued_cons (ht : t.Completes env) :
    issued env (t :: h) = issued env h ++ issues (t.outcome env).2.log := by
  rw [issued, List.reverse_cons, List.flatMap_append, List.flatMap_singleton,
    t.effects_of_completes ht]
  rfl

theorem run_issued (run : (system env).Run h s) : ∀ a, s = some a →
      (issued env h).Pairwise (fun x y => x.1 < y.1) ∧
      ∀ pair ∈ issued env h, pair.1 < a.approvals.nextId := by
  refine run_invariant (I := fun h a => (issued env h).Pairwise (fun x y => x.1 < y.1) ∧
    ∀ pair ∈ issued env h, pair.1 < a.approvals.nextId) ?_ ?_ run
  · exact ⟨.nil, fun pair hpair => absurd hpair List.not_mem_nil⟩
  · rintro h a t run ⟨-, -, hbefore⟩ hcompletes ⟨hsorted, hlt⟩
    have hstart : IdsFrom a.approvals.nextId t.start := by
      refine ⟨.nil, fun pair hpair => absurd hpair List.not_mem_nil, ?_⟩
      show a.approvals.nextId ≤ t.before.approvals.nextId
      rw [hbefore]
    have hids := (turn_iterates run).idsFrom hstart
    rw [issued_cons hcompletes]
    refine ⟨List.pairwise_append.mpr ⟨hsorted, hids.sorted, ?_⟩, ?_⟩
    · intro pair hpair new hnew
      exact Nat.lt_of_lt_of_le (hlt pair hpair) (hids.bounds new hnew).1
    · intro pair hpair
      rcases List.mem_append.mp hpair with hpair | hpair
      · exact Nat.lt_of_lt_of_le (hlt pair hpair) hids.le
      · exact (hids.bounds pair hpair).2

/-- Every id in a map was issued, for the reply stored under it. -/
structure Registered (known : List (Nat × Reply)) (a : State ssh) : Prop where
  pending : ∀ id sign, a.pending.lookup id = some sign → (id, sign.reply) ∈ known ++ issues a.log
  held : ∀ id request, a.held.lookup id = some request →
    (id, request.reply) ∈ known ++ issues a.log

theorem IssueCase.subset {b : State ssh} (h : IssueCase a b) : issues a.log ⊆ issues b.log := by
  cases h with
  | quiet hlog => rw [hlog]; exact List.Subset.refl _
  | issued reply hlog => rw [hlog]; exact List.subset_append_left _ _

theorem Registered.step {b : State ssh} (ha : Registered known a) (hcase : IssueCase a b)
    (hpending : ∀ id sign, b.pending.lookup id = some sign →
      a.pending.lookup id = some sign ∨ (id, sign.reply) ∈ issues b.log)
    (hheld : ∀ id request, b.held.lookup id = some request →
      (∃ old, a.held.lookup id = some old ∧ old.reply = request.reply) ∨
        (id, request.reply) ∈ issues b.log) : Registered known b := by
  have hsub : known ++ issues a.log ⊆ known ++ issues b.log :=
    List.append_subset.mpr ⟨List.subset_append_left _ _,
      List.Subset.trans hcase.subset (List.subset_append_right _ _)⟩
  constructor
  · intro id sign hlookup
    rcases hpending id sign hlookup with hold | hnew
    · exact hsub (ha.pending id sign hold)
    · exact List.mem_append_right _ hnew
  · intro id request hlookup
    rcases hheld id request hlookup with ⟨old, hold, hreply⟩ | hnew
    · rw [← hreply]
      exact hsub (ha.held id old hold)
    · exact List.mem_append_right _ hnew

theorem Source.held_of {a : State env.ssh} {request : SignRequest}
    (h : Source env input a request added b) {other : HeldSign}
    (hlookup : b.held.lookup id = some other) :
    ∃ old, a.held.lookup id = some old ∧ old.reply = other.reply := by
  cases h with
  | fresh => exact ⟨other, hlookup, rfl⟩
  | held => exact ⟨other, (Table.lookup_erase_eq_some.mp hlookup).2, rfl⟩

theorem Registered.move {a : State env.ssh} (h : Move env input a added b)
    (ha : Registered known a) : Registered known b := by
  have hsame : ∀ id request, a.held.lookup id = some request →
      ∃ old, a.held.lookup id = some old ∧ old.reply = request.reply :=
    fun _ request hlookup => ⟨request, hlookup, rfl⟩
  refine ha.step h.issueCase ?_ ?_
  · cases h with
    | refusePending | settle => exact fun _ _ h => .inl (Table.lookup_erase_eq_some.mp h).2
    | approve opened =>
      cases opened <;> exact fun _ _ h => .inl (Table.lookup_erase_eq_some.mp h).2
    | release opened => cases opened <;> exact fun _ _ h => .inl h
    | refuse why hsource => exact fun _ _ h => .inl (hsource.keeps.1 ▸ h)
    | grant hsource => exact fun _ _ h => .inl (hsource.keeps.1 ▸ h)
    | queue deadlineMs hsource =>
      intro id sign hlookup
      rcases Table.lookup_insert_eq_some.mp hlookup with ⟨rfl, rfl⟩ | ⟨-, hold⟩
      · refine .inr ?_
        simp [issues, State.issue]
      · exact .inl hold
    | _ => exact fun _ _ h => .inl h
  · cases h with
    | refuse why hsource => exact fun _ _ h => .inl (hsource.held_of h)
    | grant hsource => exact fun _ _ h => .inl (hsource.held_of h)
    | queue deadlineMs hsource => exact fun _ _ h => .inl (hsource.held_of h)
    | release opened =>
      cases opened <;> exact fun _ _ h => .inl (hsame _ _ (Table.lookup_erase_eq_some.mp h).2)
    | approve opened => cases opened <;> exact fun _ _ h => .inl (hsame _ _ h)
    | hold =>
      intro id request hlookup
      rcases Table.lookup_insert_eq_some.mp hlookup with ⟨rfl, rfl⟩ | ⟨-, hold⟩
      · refine .inr ?_
        simp [issues, State.takeId, State.issue]
      · exact .inl (hsame _ _ hold)
    | mark hinput hheld =>
      intro id request hlookup
      rcases Table.lookup_insert_eq_some.mp hlookup with ⟨rfl, rfl⟩ | ⟨-, hold⟩
      · exact .inl ⟨_, hheld, rfl⟩
      · exact .inl (hsame _ _ hold)
    | _ => exact fun _ _ h => .inl (hsame _ _ h)

theorem Iterates.registered {a : State env.ssh} (h : Iterates env input a added b) :
    Registered known a → Registered known b := by
  refine h.preserve (fun _ _ _ h => Registered.move h) (fun a b hshift ha => ?_) fun a b hpub ha => ?_
  · refine ha.step hshift.issueCase ?_ ?_
    · cases hshift <;> exact fun _ _ h => .inl h
    · cases hshift <;> exact fun _ request h => .inl ⟨request, h, rfl⟩
  · refine ha.step hpub.issueCase ?_ ?_
    · cases hpub with
      | intro =>
        rw [State.announceKeys_eq]
        exact fun _ _ h => .inl h
    · cases hpub with
      | intro =>
        rw [State.announceKeys_eq]
        exact fun _ request h => .inl ⟨request, h, rfl⟩

/-! ## What a publication does with held requests -/

/-- Why a released request may be refused. A full queue is none of it. -/
inductive Excuse (store : KeyStore ssh) (request : HeldSign) : Refusal → Prop where
  | unknownKey (hkey : store.authorizes request.publicBlob = false ∨
      store.publicIdentity request.publicBlob = none) : Excuse store request .unknownKey
  | idExhausted : Excuse store request (.submit .idExhausted)
  /-- Approved while it was held, but expired between submission and approval. -/
  | expired (happroved : request.approved.isSome) : Excuse store request (.approve .unknownRequest)

/-- Where a released request ends up: answered with what its key signs, refused for cause, or
queued under an id from `first` on. -/
inductive Disposed (first : Nat) (request : HeldSign) (a : State ssh) : Prop where
  | signed {response : Bytes} {ground : Ground} {moment : Moment ssh}
      (hanswer : .answer request.reply response (.authorized ground moment) ∈ a.log)
  | refused {why : Refusal} (hwhy : Excuse a.store request why)
      (hanswer : .answer request.reply failureResponse (.refused why) ∈ a.log)
  | queued {id : Nat} {sign : PendingSign} (hfirst : first ≤ id)
      (hsign : a.pending.lookup id = some sign) (hreply : sign.reply = request.reply)

/-- What stays in the queue or is signed from it stays disposed of. -/
theorem Disposed.step {b : State ssh} (ha : Disposed first request a) (hlog : a.log ⊆ b.log)
    (hstore : b.store = a.store)
    (hpending : ∀ id sign, a.pending.lookup id = some sign → b.pending.lookup id = some sign ∨
      ∃ response ground moment, .answer sign.reply response (.authorized ground moment) ∈ b.log) :
    Disposed first request b := by
  cases ha with
  | signed hanswer => exact .signed (hlog hanswer)
  | refused hwhy hanswer => exact .refused (hstore ▸ hwhy) (hlog hanswer)
  | queued hfirst hsign hreply =>
    rcases hpending _ _ hsign with hsign | ⟨response, ground, moment, hanswer⟩
    · exact .queued hfirst hsign hreply
    · rw [hreply] at hanswer
      exact .signed hanswer

theorem Move.log_subset {a : State env.ssh} (h : Move env input a added b) : a.log ⊆ b.log := by
  cases h with
  | clock | settings | thin | wait | mark => exact List.Subset.refl _
  | emit | list | refusePending | reply | settle | burn | hold => exact List.subset_append_left _ _
  | refuse why hsource | grant hsource | queue deadlineMs hsource =>
    cases hsource <;> exact List.subset_append_left _ _
  | approve opened => cases opened <;> exact List.subset_append_left _ _
  | release opened =>
    cases opened <;>
      exact List.Subset.trans (List.subset_append_left _ _) (List.subset_append_left _ _)

theorem Moves.log_subset {a : State env.ssh} (h : Moves env input a added b) : a.log ⊆ b.log := by
  induction h with
  | refl => exact List.Subset.refl _
  | cons head _ ih => exact List.Subset.trans head.log_subset ih

theorem Moves.nextId_le {a : State env.ssh} (h : Moves env input a added b) :
    a.approvals.nextId ≤ b.approvals.nextId := by
  induction h with
  | refl => exact Nat.le_refl _
  | cons head _ ih =>
    refine Nat.le_trans ?_ ih
    cases head.issueCase with
    | quiet hlog hnext => exact Nat.le_of_eq hnext.symm
    | issued reply hlog hnext =>
      rw [hnext]
      exact Nat.le_succ _

theorem submitSign_disposed (huid : request.peer.uid = a.approvals.expectedUid)
    (hroom : a.approvals.pending.length < maxPending) :
    Disposed a.approvals.nextId request (a.submitSign request.toSignRequest) := by
  unfold State.submitSign
  extract_lets c
  have hcase := c.approvals.submit_case c.store.epoch request.publicBlob request.peer request.scope
    c.now
  generalize c.approvals.submit c.store.epoch request.publicBlob request.peer request.scope c.now =
    result at hcase
  cases hcase with
  | wrongUid hne => exact absurd huid hne
  | granted huid grant hlive hcovers =>
    exact .signed List.mem_concat_self
  | queueFull huid hfull =>
    have hlen : (c.approvals.expire c.now).pending.length ≤ a.approvals.pending.length :=
      ApprovalManager.expire_pending_sublist.length_le
    omega
  | idExhausted => exact .refused .idExhausted List.mem_concat_self
  | pending huid hroom' hnext =>
    simp only
    split
    · next hnone =>
      exact .refused (.unknownKey (.inr hnone)) List.mem_concat_self
    · exact .queued (Nat.le_refl _) (AList.lookup_insert _) rfl

theorem releaseApproved_disposed (ha : Books a) (oldId : Nat) {grantSeconds : Nat}
    (happroved : request.approved = some grantSeconds)
    (huid : request.peer.uid = a.approvals.expectedUid)
    (hroom : a.approvals.pending.length < maxPending) :
    Disposed a.approvals.nextId request
      (a.releaseApproved oldId request.toSignRequest grantSeconds) := by
  unfold State.releaseApproved
  extract_lets c
  have hcase := c.approvals.submit_case c.store.epoch request.publicBlob request.peer request.scope
    c.now
  generalize c.approvals.submit c.store.epoch request.publicBlob request.peer request.scope c.now =
    result at hcase
  cases hcase with
  | wrongUid hne => exact absurd huid hne
  | granted huid grant hlive hcovers =>
    exact .signed List.mem_concat_self
  | queueFull huid hfull =>
    have hlen : (c.approvals.expire c.now).pending.length ≤ a.approvals.pending.length :=
      ApprovalManager.expire_pending_sublist.length_le
    omega
  | idExhausted => exact .refused .idExhausted List.mem_concat_self
  | pending huid hroom' hnext =>
    simp only
    set m := (c.approvals.expire c.now).enqueue
      (c.approvals.entry c.store.epoch request.publicBlob request.peer request.scope c.now) with hm
    set d := State.readClock (State.issue { c with approvals := m } c.approvals.nextId
      request.reply) with hd
    have happrove := d.approvals.approve_case c.approvals.nextId grantSeconds d.now
    generalize d.approvals.approve c.approvals.nextId grantSeconds d.now = result at happrove
    cases happrove with
    | unknownRequest =>
      exact .refused (.expired (by simp [happroved]))
        List.mem_concat_self
    | idExhausted queued hmem hid hlast =>
      -- A grant's id is never larger than the request's that was just issued.
      have hids := ha.grant_ids
      have hlast : Words.u64Max < a.approvals.nextGrantId + 1 := hlast
      have hnext : a.approvals.nextId + 1 ≤ Words.u64Max := hnext
      omega
    | granting | once => exact .signed List.mem_concat_self

theorem releaseOne_disposed (ha : Books a) {entry : Σ _ : Nat, HeldSign}
    (hheld : a.held.lookup entry.1 = some entry.2) :
    Disposed a.approvals.nextId entry.2 (a.releaseOne entry) := by
  have huid := ha.held_uid _ _ hheld
  have hlen := Table.length_erase hheld
  have hcap := ha.capacity
  unfold State.releaseOne
  extract_lets b request
  have hbooks : Books b := { ha.eraseHeld entry.1 with }
  have hroom : b.approvals.pending.length < maxPending := by
    show a.approvals.pending.length < maxPending
    omega
  split
  · next hkey =>
    have hkey : b.store.authorizes request.publicBlob = false := by simpa using hkey
    exact .refused (.unknownKey (.inl hkey)) List.mem_concat_self
  split
  · next grantSeconds happroved =>
    exact releaseApproved_disposed hbooks entry.1 happroved huid hroom
  · exact submitSign_disposed (a := b) huid hroom

/-- Submitting a request leaves the queued ones where they are. -/
theorem submitSign_pending (request : SignRequest) (hsign : a.pending.lookup id = some sign)
    (hne : id ≠ a.approvals.nextId) : (a.submitSign request).pending.lookup id = some sign := by
  unfold State.submitSign
  extract_lets c
  have hcase := c.approvals.submit_case c.store.epoch request.publicBlob request.peer request.scope
    c.now
  generalize c.approvals.submit c.store.epoch request.publicBlob request.peer request.scope c.now =
    result at hcase
  cases hcase with
  | wrongUid | granted | queueFull | idExhausted => exact hsign
  | pending huid hroom hnext =>
    simp only
    split
    · exact hsign
    · exact (AList.lookup_insert_ne hne).trans hsign

theorem releaseApproved_pending (a : State ssh) (oldId grantSeconds : Nat) (request : SignRequest) :
    (a.releaseApproved oldId request grantSeconds).pending = a.pending := by
  unfold State.releaseApproved
  simp only
  split
  · rfl
  · split <;> rfl
  · rfl

theorem releaseOne_pending (ha : Books a) (entry : Σ _ : Nat, HeldSign)
    (hsign : a.pending.lookup id = some sign) :
    (a.releaseOne entry).pending.lookup id = some sign := by
  have hlt := ha.pending_lt id (Table.mem_of_lookup hsign)
  unfold State.releaseOne
  extract_lets b request
  split
  · exact hsign
  split
  · rw [releaseApproved_pending]
    exact hsign
  · exact submitSign_pending request hsign (Nat.ne_of_lt hlt)

/-- One pass of the release loop: what is still to come or already disposed of. -/
theorem releaseOne_disposes {a : State env.ssh} {entry : Σ _ : Nat, HeldSign} (ha : Books a)
    (hgate : a.gateOpen = true) (hlookup : a.held.lookup entry.1 = some entry.2)
    (hfirst : first ≤ a.approvals.nextId) (other : Σ _ : Nat, HeldSign)
    {rest : List (Σ _ : Nat, HeldSign)}
    (hother : other ∈ entry :: rest ∨ Disposed first other.2 a) :
    other ∈ rest ∨ Disposed first other.2 (a.releaseOne entry) := by
  have hone : Moves env .controlClosed a [] (a.releaseOne entry) := releaseOne_moves ha hlookup hgate
  rcases hother with hmem | hdone
  · rcases List.mem_cons.mp hmem with rfl | hmem
    · right
      cases releaseOne_disposed ha hlookup with
      | signed hanswer => exact .signed hanswer
      | refused hwhy hanswer => exact .refused hwhy hanswer
      | queued hle hsign hreply => exact .queued (hfirst.trans hle) hsign hreply
    · exact .inl hmem
  · exact .inr (hdone.step hone.log_subset hone.unmoved.store fun id sign hsign =>
      .inl (releaseOne_pending ha entry hsign))

/-- The entry is still there, or its reply got a signature. -/
def State.HasOrSigned (a : State ssh) (id : Nat) (sign : PendingSign) : Prop :=
  a.pending.lookup id = some sign ∨ ∃ response ground moment,
    .answer sign.reply response (.authorized ground moment) ∈ a.log

theorem settleOne_hasOrSigned (released : Nat × Authorization) (h : a.HasOrSigned id sign) :
    (a.settleOne released).HasOrSigned id sign := by
  unfold State.settleOne
  extract_lets b
  -- the last message adds nothing
  suffices hb : b.HasOrSigned id sign by
    rcases hb with hsign | ⟨response, ground, moment, hanswer⟩
    · exact .inl hsign
    · exact .inr ⟨response, ground, moment, List.mem_append_left _ hanswer⟩
  simp only [b]
  split
  · exact h
  next other hother =>
  rcases h with hsign | ⟨response, ground, moment, hanswer⟩
  · by_cases heq : id = released.1
    · subst heq
      obtain rfl := Option.some.inj (hsign.symm.trans hother)
      exact .inr ⟨_, _, _, List.mem_concat_self⟩
    · exact .inl (Table.lookup_erase_eq_some.mpr ⟨heq, hsign⟩)
  · exact .inr ⟨response, ground, moment, List.mem_append_left _ hanswer⟩

/-- Settling by grants signs what it takes out of the queue. -/
theorem settleGranted_hasOrSigned (hsign : a.pending.lookup id = some sign) :
    a.settleGranted.HasOrSigned id sign := by
  unfold State.settleGranted
  extract_lets b released
  have hstart : State.HasOrSigned { b with approvals := released.2 } id sign := .inl hsign
  generalize { b with approvals := released.2 } = c at hstart
  generalize released.1 = entries
  induction entries generalizing c with
  | nil => exact hstart
  | cons entry entries ih => exact ih _ (settleOne_hasOrSigned entry hstart)

/-- A release disposes of everything that was held. -/
theorem releaseHeld_disposed {a : State env.ssh} (ha : Books a) (hgate : a.gateOpen = true)
    (hheld : a.held.lookup id = some request) :
    Disposed a.approvals.nextId request a.releaseHeld := by
  have hperm := List.perm_insertionSort (fun x y : Σ _ : Nat, HeldSign => x.1 ≤ y.1) a.held.entries
  have hfold : Moves env .controlClosed a [] _ := release_moves ha hgate
  have hdone := (release_rule (P := fun rest b => a.approvals.nextId ≤ b.approvals.nextId ∧
      (⟨id, request⟩ ∈ rest ∨ Disposed a.approvals.nextId request b))
    (fun entry rest b hb hgate hheld ⟨hle, hentry⟩ =>
      have hone : Moves env .controlClosed b [] _ := releaseOne_moves hb hheld hgate
      ⟨hle.trans hone.nextId_le, releaseOne_disposes hb hgate hheld hle ⟨id, request⟩ hentry⟩)
    ha hgate ⟨Nat.le_refl _, .inl (hperm.symm.subset (Table.lookup_eq_some_iff.mp hheld))⟩).2
    |>.resolve_left List.not_mem_nil
  have hsettle : Moves env .controlClosed _ [] _ := settleGranted_moves (Books.moves hfold ha)
  exact hdone.step hsettle.log_subset hsettle.unmoved.store fun _ _ => settleGranted_hasOrSigned

theorem settleLoad_releases {m : State env.ssh} (hm : Books m) {epoch keyCount : Nat}
    (hnone : endings m.log = [])
    (hmem : Output.keysLoaded epoch keyCount ∈ endings (m.settleLoad env.serde).log) :
    ∃ c : State env.ssh, Books c ∧ c.gateOpen = true ∧ c.held = m.held ∧
      c.approvals.nextId = m.approvals.nextId ∧
      m.settleLoad env.serde = c.releaseHeld.releaseHeldIdentities .released := by
  have hcase := settleLoad_case env.serde m
  generalize m.settleLoad env.serde = b at hcase hmem ⊢
  cases hcase with
  | pending =>
    rw [hnone] at hmem
    cases hmem
  | @failed load payload store hload hend hpayload hpublish =>
    set f := State.emit { m with store := store.lock load.epoch, activeLoad := none, gateOpen := false }
      (.loadFailed load.epoch) with hf
    have hrest : Moves env .controlClosed f []
        ((f.cancelHeld .loadFailed).releaseHeldIdentities .loadFailed) :=
      (cancelHeld_moves _ _).trans' (releaseHeldIdentities_moves _ _)
    have hf_log : endings f.log = endings m.log ++ [.loadFailed load.epoch] := by
      simp [hf, endings, State.emit, emitted, Output.endsLoad]
    rw [hrest.unmoved.endings, hf_log, hnone, List.nil_append, List.mem_singleton] at hmem
    cases hmem
  | @published load bytes report store hload hend hpayload hpublish =>
    refine ⟨_, .publish (.intro hload hend hpayload hpublish) hm, ?_, ?_, ?_, rfl⟩
    · rw [State.announceKeys_eq]
    · rw [State.announceKeys_eq]
    · rw [State.announceKeys_eq]

/-- The iteration that publishes ends with the release of what was held. -/
theorem publishes_releases {epoch : Nat} (hbooks : Books t.before)
    (hcase : LoadCase env t.start t.input (t.outcome env).2) (hpublishes : t.Publishes env epoch) :
    ∃ c : State env.ssh, Books c ∧ c.gateOpen = true ∧ c.held = t.before.held ∧
      c.approvals.nextId = t.before.approvals.nextId ∧
      (t.outcome env).2 = c.releaseHeld.releaseHeldIdentities .released := by
  have hstart : Books t.start := { hbooks with }
  obtain ⟨keyCount, hemit⟩ := hpublishes
  have hmem := mem_endings hemit rfl
  rcases hcase.of_mem_endings rfl hmem with
    ⟨_, _, heq, -⟩ | ⟨load, load', bytes, report, -, -, hby, hactive, -⟩
  · cases heq
  have hactive : t.start.activeLoad = some load := hactive
  unfold Turn.outcome at hmem ⊢
  cases hinput : t.input with
  | loadResult task epoch' result =>
    rw [hinput] at hmem
    simp only [State.handle, State.handleLoadResult, hactive] at hmem ⊢
    split at hmem
    · cases hmem
    next hepoch =>
    rw [if_neg hepoch]
    have hset : Shift t.start { t.start with activeLoad := some { load with payload := some result } } :=
      .load t.start _ (by simp [hactive])
    exact settleLoad_releases (Books.shift hset hstart) rfl hmem
  | control message fifoReady =>
    rw [hinput] at hmem hby
    -- Only the end of a load that went well publishes.
    obtain ⟨epoch', rfl⟩ : ∃ epoch', message = .keyLoadEnd epoch' .ok := by
      cases message with
      | keyLoadEnd epoch' outcome =>
        cases outcome with
        | ok => exact ⟨epoch', rfl⟩
        | _ => exact hby.elim
      | _ => exact hby.elim
    · simp only [State.handle, State.handleControl, State.handleKeyLoadEnd, hactive] at hmem ⊢
      split at hmem
      · cases hmem
      next hepoch =>
      rw [if_neg hepoch]
      set load' := { load with
        endReceived := true
        payloadDeadlineMs := some (Words.saturatingAdd t.start.readClock.now loadEndGraceMs) }
      have hset : Shift t.start.readClock { t.start.readClock with activeLoad := some load' } :=
        .load _ _ (.inl (by
          show t.start.activeLoad.isSome = true
          simp [hactive]))
      have hread : Books t.start.readClock := { hstart with }
      exact settleLoad_releases (Books.shift hset hread) rfl hmem
  | controlClosed | controlInvalid | client | tick =>
    rw [hinput] at hby
    exact hby.elim

/-- What a publication does with each request that was held. -/
theorem publishes_disposed (run : (system env).Run (t :: h) s) {epoch : Nat}
    (hpublishes : t.Publishes env epoch) (hheld : t.before.held.lookup id = some request) :
    Disposed t.before.approvals.nextId request (t.outcome env).2 := by
  have hbooks := (turn_books run).1
  have hcase : LoadCase env t.start t.input (t.outcome env).2 := by
    have ⟨keyCount, hemit⟩ := hpublishes
    exact turn_loadCase_of_changed run (.inl (List.ne_nil_of_mem (mem_endings hemit rfl)))
  obtain ⟨c, hc, hgate, hsame, hnext, houtcome⟩ := publishes_releases hbooks hcase hpublishes
  rw [← hsame] at hheld
  rw [houtcome, ← hnext]
  have hlist : Moves env .controlClosed c.releaseHeld [] _ :=
    releaseHeldIdentities_moves c.releaseHeld .released
  refine (releaseHeld_disposed hc hgate hheld).step hlist.log_subset hlist.unmoved.store ?_
  intro id sign hsign
  refine .inl ?_
  rw [State.releaseHeldIdentities_pending]
  exact hsign

/-! ## Every request, over whole runs -/

theorem run_registered (run : (system env).Run h s) : ∀ a, s = some a →
      (∀ id sign, a.pending.lookup id = some sign → (id, sign.reply) ∈ issued env h) ∧
      ∀ id request, a.held.lookup id = some request → (id, request.reply) ∈ issued env h := by
  refine run_invariant (I := fun h a =>
    (∀ id sign, a.pending.lookup id = some sign → (id, sign.reply) ∈ issued env h) ∧
    ∀ id request, a.held.lookup id = some request → (id, request.reply) ∈ issued env h) ?_ ?_ run
  · exact ⟨fun id sign hsign => absurd hsign Table.lookup_empty_ne,
      fun id request hheld => absurd hheld Table.lookup_empty_ne⟩
  · rintro h a t run ⟨hpending, hheld, -⟩ hcompletes ⟨hp, hh⟩
    have hstart : Registered (issued env h) t.start := by
      constructor
      · intro id sign hsign
        exact List.mem_append_left _ (hp id sign ((Table.lookup_of_perm hpending id).trans hsign))
      · intro id request hrequest
        exact List.mem_append_left _ (hh id request ((Table.lookup_of_perm hheld id).trans hrequest))
    obtain ⟨hp', hh'⟩ := (turn_iterates run).registered hstart
    rw [issued_cons hcompletes]
    exact ⟨hp', hh'⟩

/-- Where the requests of the iterations `h` are when the loop is in state `a`. -/
structure Conserved (env : Env) (h : List (Turn env.ssh)) (a : State env.ssh) : Prop where
  /-- Answered, queued, held or waiting for a listing: one of them, and once. -/
  once : ∀ t ∈ h, ∀ event, t.input = .client event →
    (answered env h).count event.reply + a.pendingReplies.count event.reply +
      a.heldReplies.count event.reply + a.waitingReplies.count event.reply = 1
  ids_increase : (issued env h).Pairwise fun x y => x.1 < y.1
  pending_issued : ∀ id sign, a.pending.lookup id = some sign → (id, sign.reply) ∈ issued env h
  held_issued : ∀ id request, a.held.lookup id = some request → (id, request.reply) ∈ issued env h

theorem count_eq_one_of_run {a : State env.ssh} (run : (system env).Run h (some a)) (ht : t ∈ h)
    {event : ClientEvent} (hinput : t.input = .client event) :
    (answered env h).count event.reply + a.pendingReplies.count event.reply +
      a.heldReplies.count event.reply + a.waitingReplies.count event.reply = 1 := by
  have hmem : event.reply ∈ accepted h := by
    refine List.mem_flatMap.mpr ⟨t, ht, ?_⟩
    rw [hinput]
    exact List.mem_singleton_self _
  have hone : (accepted h).count event.reply = 1 :=
    List.count_eq_one_of_mem (run_accepted_nodup run) hmem
  -- the balance of the replies, read at this one
  have hcount := congrArg (Multiset.count event.reply) (run_accounted run a rfl)
  unfold State.stored at hcount
  simp only [Multiset.count_add, Multiset.coe_count] at hcount
  omega

/-- The vault is locked and unlocked again; a sign request comes in between, and `meanwhile`
happens before the second load. -/
def reloadEvents (meanwhile : List (Nat × Input)) : List (Nat × Input) :=
  sampleLoad 2 1 otherLoadId otherNonce ++ meanwhile ++
    (0, sampleSign 0) :: (0, .control (.vaultLocked 1) true) ::
      sampleLoad 1 0 sampleLoadId sampleNonce

theorem locate_other : locate sampleSerde otherNonce (samplePayload otherNonce) = some 0 := by
  decide +kernel

/-- The panel approves the held request, `wait` milliseconds after it was raised. -/
def approvedEvents (wait : Nat) : List (Nat × Input) :=
  reloadEvents [(wait, .control (.approve 1 0) true)]

theorem approvedEvents_playable {wait : Nat} (hcomplete : AllComplete sampleEnv (approvedEvents wait))
    (htasks : (replay sampleEnv ((approvedEvents wait).drop 3)).2.tasks = 1) :
    Playable sampleEnv (approvedEvents wait) := by
  obtain ⟨-, -, hplayable⟩ := sampleEvents_playable
  obtain ⟨hend, hresult, hbegin, happrove, hsign, hlock, -⟩ := hcomplete
  have hspawned : Spawned (replay sampleEnv ((approvedEvents wait).drop 2)).1 1 2 otherNonce :=
    ⟨_, List.mem_cons_self .., otherLoadId, rfl, htasks, by decide +kernel⟩
  refine ⟨trivial, hend, ⟨otherNonce, hspawned, ?_⟩, hresult, trivial, hbegin, trivial, happrove,
    ?_, hsign, trivial, hlock, hplayable⟩
  · rintro bytes ⟨rfl⟩
    exact ⟨_, 0, locate_other, rfl⟩
  · exact receivable_of_fresh (by simp [sampleLoad])

/-- The end of the second load, with two minutes between submitting the approved request and
consuming its approval. -/
def slowEnd : Turn sampleEnv.ssh where
  before := (replay sampleEnv (approvedEvents 0).tail).2
  wait := 0
  delays := [0, 0, 120000]
  room := controlOutputCapacity
  input := .control (.keyLoadEnd 2 .ok) true

def refusals (log : List (Effect ssh)) : List (Reply × Refusal) :=
  log.filterMap fun
    | .answer reply _ (.refused why) => some (reply, why)
    | _ => none

end QsBitwarden.Agent
