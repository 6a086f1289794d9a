import QsBitwarden.Agent.Iterations
import QsBitwarden.Lib.Base64

/-!
# Agent — runs of the main loop

From one iteration to all of them, and the first invariant every run keeps.

* **`turn_iterates`** — each iteration of a run begins with the books in order, and iterates.
* **`gate_invariant`** — the gate, the store, the queue, the maps and the load agree at the end of
  every iteration.
* **`replay`** — the run a list of events makes when nothing outside interferes; with it, concrete
  runs are evaluated.
-/

namespace QsBitwarden.Agent

open SshWire

variable {env : Env}

/-! ## Iterations of a run -/

section Reordering

variable {ssh : Ssh} {a b : State ssh}

theorem Reordered.refl (a : State ssh) : Reordered a a := ⟨.refl _, .refl _, rfl⟩

theorem Table.eq_empty_of_perm {ν : Type} {t t' : Table Nat ν} (h : t.entries.Perm t'.entries)
    (ht : t = ∅) : t' = ∅ := by
  subst ht
  exact AList.ext h.symm.eq_nil

theorem Books.reordered (h : Reordered a b) (ha : Books a) : Books b := by
  obtain ⟨hpending, hheld, hb⟩ := h
  rw [hb]
  exact {
    store_wf := ha.store_wf
    shut := fun hgate =>
      have ⟨hqueue, hgrants, hempty⟩ := ha.shut hgate
      ⟨hqueue, hgrants, Table.eq_empty_of_perm hpending hempty⟩
    opened := ha.opened
    queue_epoch := ha.queue_epoch
    grant_epoch := ha.grant_epoch
    queue_nodup := ha.queue_nodup
    queue_lt := ha.queue_lt
    queue_key := fun request hmem =>
      (Table.mem_of_perm hpending _).mp (ha.queue_key request hmem)
    queue_uid := ha.queue_uid
    pending_lt := fun id hid => ha.pending_lt id ((Table.mem_of_perm hpending _).mpr hid)
    held_lt := fun id hid => ha.held_lt id ((Table.mem_of_perm hheld _).mpr hid)
    held_uid := fun id request hlookup =>
      ha.held_uid id request ((Table.lookup_of_perm hheld id).trans hlookup)
    capacity := by
      have hlen := hheld.length_eq
      have hcap := ha.capacity
      show a.approvals.pending.length + b.held.entries.length ≤ maxPending
      omega
    grant_ids := ha.grant_ids
    next_le := ha.next_le }

theorem HeldShut.reordered (h : Reordered a b) (ha : HeldShut a) : HeldShut b := by
  obtain ⟨-, hheld, hb⟩ := h
  intro hgate
  rw [hb] at hgate
  exact Table.eq_empty_of_perm hheld (ha hgate)

end Reordering

variable {h : List (Turn env.ssh)} {t : Turn env.ssh} {s : Option (State env.ssh)}
  {events : List (Nat × Input)}

/-- The last iteration of a run, and the run before it. -/
theorem run_cons (run : (system env).Run (t :: h) s) :
    ∃ a, (system env).Run h (some a) ∧ Reordered a t.before ∧ Receivable env.serde h t.input ∧
      t.room ≤ controlOutputCapacity ∧ s = t.next env := by
  cases run with
  | step run hstep =>
    obtain ⟨a, rfl, hstep⟩ := hstep
    exact ⟨a, run, hstep⟩

theorem Turn.next_eq_some {a : State env.ssh} :
    t.next env = some a ↔ t.Completes env ∧ (t.outcome env).2 = a := by
  unfold Turn.next
  split
  · next h => simp [h]
  · next h => simp [h]

theorem Turn.iterates (hbooks : Books t.before) (hshut : HeldShut t.before) :
    Iterates env t.input t.start t.input.replies (t.outcome env).2 := by
  have hstart : Books t.start := { hbooks with }
  have hshut' : HeldShut t.start := hshut
  exact handle_iterates hstart hshut' t.input

/-- What holds at first, and after each iteration that goes on if it held before it. -/
theorem run_invariant {I : List (Turn env.ssh) → State env.ssh → Prop} (hnew : I [] (.new env))
    (hturn : ∀ h a t, (system env).Run (t :: h) (some (t.outcome env).2) → Reordered a t.before →
      t.Completes env → I h a → I (t :: h) (t.outcome env).2)
    (run : (system env).Run h s) : ∀ a, s = some a → I h a := by
  refine run.invariant (I := fun h s => ∀ a, s = some a → I h a) ?_ ?_
  · rintro s rfl a ⟨rfl⟩
    exact hnew
  · rintro h s t s' run ih hstep b rfl
    obtain ⟨a, rfl, hreordered, -, -, hnext⟩ := id hstep
    obtain ⟨hcompletes, rfl⟩ := Turn.next_eq_some.mp hnext.symm
    exact hturn h a t (run.step hstep) hreordered hcompletes (ih a rfl)

/-- Between iterations the books are in order, and nothing is held behind an open gate. -/
theorem run_books (run : (system env).Run h s) : ∀ a, s = some a → Books a ∧ HeldShut a := by
  refine run_invariant (I := fun _ a => Books a ∧ HeldShut a) ⟨.new env, fun _ => rfl⟩ ?_ run
  rintro h a t - hreordered - ⟨hbooks, hshut⟩
  have hbooks := hbooks.reordered hreordered
  have hshut := hshut.reordered hreordered
  have hiter := Turn.iterates hbooks hshut
  have hstart : Books t.start := { hbooks with }
  have hshut' : HeldShut t.start := hshut
  exact ⟨hiter.books hstart, hiter.heldShut hshut'⟩

/-- Every iteration of a run, finished or not, begins in order. -/
theorem turn_books (run : (system env).Run (t :: h) s) : Books t.before ∧ HeldShut t.before := by
  obtain ⟨a, run, hreordered, -⟩ := run_cons run
  obtain ⟨hbooks, hshut⟩ := run_books run a rfl
  exact ⟨hbooks.reordered hreordered, hshut.reordered hreordered⟩

theorem turn_iterates (run : (system env).Run (t :: h) s) :
    Iterates env t.input t.start t.input.replies (t.outcome env).2 :=
  Turn.iterates (turn_books run).1 (turn_books run).2

/-! ## The gate -/

/-- How the six structures of the loop agree. -/
structure GateInvariant {ssh : Ssh} (a : State ssh) : Prop where
  opened : a.gateOpen = true →
    a.store.state.state = .unlocked ∧ a.activeLoad = none ∧ a.held = ∅
  shut : a.gateOpen = false →
    a.approvals.pending = [] ∧ a.approvals.grants = [] ∧ a.pending = ∅
  queue_epoch : ∀ request ∈ a.approvals.pending, request.epoch = a.store.epoch
  grant_epoch : ∀ grant ∈ a.approvals.grants, grant.epoch = a.store.epoch
  queue_key : ∀ request ∈ a.approvals.pending, request.id ∈ a.pending
  capacity : a.approvals.pending.length + a.held.entries.length ≤ maxPending

theorem gate_invariant {h : List (Turn env.ssh)} {a : State env.ssh}
    (run : (system env).Run h (some a)) : GateInvariant a := by
  obtain ⟨hbooks, hshut⟩ := run_books run a rfl
  exact {
    opened := fun hgate =>
      have ⟨hunlocked, hload⟩ := hbooks.opened hgate
      ⟨hunlocked, hload, hshut hgate⟩
    shut := hbooks.shut
    queue_epoch := hbooks.queue_epoch
    grant_epoch := hbooks.grant_epoch
    queue_key := hbooks.queue_key
    capacity := hbooks.capacity }

/-! ## Replaying events -/

/-- The iteration that receives `input` after waiting, with an empty output channel and no time
passing inside. -/
def State.turn {ssh : Ssh} (a : State ssh) (event : Nat × Input) : Turn ssh :=
  ⟨a, event.1, [], controlOutputCapacity, event.2⟩

/-- The iterations a list of events makes, newest first, and the state they end in. -/
def replay (env : Env) : List (Nat × Input) → List (Turn env.ssh) × State env.ssh
  | [] => ([], .new env)
  | event :: older =>
    let t := (replay env older).2.turn event
    (t :: (replay env older).1, (t.outcome env).2)

/-- Each event can be received, and the loop goes on after it. -/
def Playable (env : Env) : List (Nat × Input) → Prop
  | [] => True
  | event :: older => Receivable env.serde (replay env older).1 event.2 ∧
      ((replay env older).2.turn event).Completes env ∧ Playable env older

/-- The part of `Playable` that can be evaluated. -/
def AllComplete (env : Env) : List (Nat × Input) → Prop
  | [] => True
  | event :: older => ((replay env older).2.turn event).Completes env ∧ AllComplete env older

instance AllComplete.decide (env : Env) : (events : List (Nat × Input)) →
    Decidable (AllComplete env events)
  | [] => inferInstanceAs (Decidable True)
  | _ :: older =>
    have := AllComplete.decide env older
    inferInstanceAs (Decidable (_ ∧ _))

theorem run_turn (run : (system env).Run h (some t.before))
    (hreceivable : Receivable env.serde h t.input) (hroom : t.room ≤ controlOutputCapacity)
    (hcompletes : t.Completes env) : (system env).Run (t :: h) (some (t.outcome env).2) :=
  .step run ⟨_, rfl, .refl _, hreceivable, hroom, (Turn.next_eq_some.mpr ⟨hcompletes, rfl⟩).symm⟩

theorem replay_run (h : Playable env events) :
    (system env).Run (replay env events).1 (some (replay env events).2) := by
  induction events with
  | nil => exact .init rfl
  | cons event older ih =>
    obtain ⟨hreceivable, hcompletes, hplayable⟩ := h
    exact run_turn (ih hplayable) hreceivable (le_refl _) hcompletes

theorem replay_turn_run (h : Playable env events) (event : Nat × Input)
    (hreceivable : Receivable env.serde (replay env events).1 event.2)
    (hcompletes : ((replay env events).2.turn event).Completes env) :
    (system env).Run ((replay env events).2.turn event :: (replay env events).1)
      (some (((replay env events).2.turn event).outcome env).2) :=
  run_turn (replay_run h) hreceivable (le_refl _) hcompletes

theorem receivable_of_fresh {event : ClientEvent}
    (hfresh : ∀ other ∈ events, ∀ event', other.2 = .client event' → event'.reply ≠ event.reply) :
    Receivable env.serde (replay env events).1 (.client event) := by
  have hinput : ∀ t ∈ (replay env events).1, ∃ other ∈ events, t.input = other.2 := by
    clear hfresh
    induction events with
    | nil => exact fun t ht => nomatch ht
    | cons other older ih =>
      intro t ht
      rcases List.mem_cons.mp ht with rfl | ht
      · exact ⟨other, List.mem_cons_self .., rfl⟩
      · obtain ⟨other', hmem, heq⟩ := ih t ht
        exact ⟨other', List.mem_cons_of_mem _ hmem, heq⟩
  intro t ht event' heq
  obtain ⟨other, hmem, hother⟩ := hinput t ht
  exact hfresh other hmem event' (hother.symm.trans heq)

/-! ## A sample run

A load of the sample key, and one sign request for it. -/

/-- The sample key file in base64. -/
def samplePem64 : Bytes := (Base64.encode samplePem).map Char.toUInt8

def sampleLoadId : String := "00000000000000000000000000000000"

def sampleNonce : Bytes := List.replicate 32 48

def otherLoadId : String := "11111111111111111111111111111111"

def otherNonce : Bytes := List.replicate 32 49

def sampleRaw (loadId : String) : RawEnvelope where
  loadId
  items := [⟨"a", "Laptop", samplePem64, samplePublicKey, sampleFingerprint, false⟩]

/-- The JSON of `sampleRaw`, under the nonce as bytes. -/
def samplePayload (nonce : Bytes) : Bytes :=
  markerStart ++ nonce ++
    (bytesOf 40
      [0x222c226974656d73223a5b7b226974656d4964223a2261222c226e616d65223a224c6170746f7022] ++
      bytesOf 18 [0x2c22707269766174654b6579423634223a22]) ++
    samplePem64 ++
  (bytesOf 40
      [0x222c227075626c69634b6579223a227373682d65643235353139204141414143334e7a6143316c5a,
       0x4449314e54453541414141494b446173727a736c374a365a58356436327774416965617136474e4f,
       0x524d7a51326a514f5a786b4561394b222c2266696e6765727072696e74223a225348413235363a62,
       0x644c51427362436658584b67754d464d4346382b5036615337464e2b326579496d79304c536a6e42] ++
      bytesOf 31 [0x6d59222c227265717569726573526570726f6d7074223a66616c73657d5d7d])

/-- `serde_json` on the two payloads the samples use. -/
def sampleSerde : Serde where
  envelope bytes :=
    if bytes = samplePayload sampleNonce then some (sampleRaw sampleLoadId)
    else if bytes = samplePayload otherNonce then some (sampleRaw otherLoadId)
    else none
  named bytes :=
    if bytes = samplePayload sampleNonce then some sampleLoadId
    else if bytes = samplePayload otherNonce then some otherLoadId
    else none
  named_of_envelope bytes raw h := by
    split at h
    · next heq =>
      rw [if_pos heq, ← Option.some.inj h]
      rfl
    split at h
    · next hne heq =>
      rw [if_neg hne, if_pos heq, ← Option.some.inj h]
      rfl
    · cases h

abbrev sampleEnv : Env where
  ssh := sampleSsh
  serde := sampleSerde
  hostKeyFingerprint _ := sampleFingerprint
  expectedUid := 1000
  socketPath := "/run/user/1000/qs-bitwarden/agent.sock"
  fifoPath := "/run/user/1000/qs-bitwarden/keys.fifo"
  agentVersion := "1"

/-- `/usr/bin/ssh`, run by the expected user. -/
def samplePeer : PeerContext where
  uid := 1000
  pid := 4242
  startTimeTicks := 17
  executable := [47, 117, 115, 114, 47, 98, 105, 110, 47, 115, 115, 104]

/-- A client asks for a signature over `sampleMessage`. -/
def sampleSign (reply : Reply) : Input :=
  .client ⟨samplePeer, false, [], .sign sampleBlob sampleMessage 0, reply⟩

/-- The vault is unlocked: the agent gets its keys at this epoch. -/
def sampleLoad (epoch task : Nat) (loadId : String) (nonce : Bytes) : List (Nat × Input) :=
  [(0, .control (.keyLoadEnd epoch .ok) true),
    (0, .loadResult task epoch (.ok (samplePayload nonce))),
    (0, .control (.keyLoadBegin epoch loadId) true)]

def sampleEvents : List (Nat × Input) :=
  (0, sampleSign 0) :: sampleLoad 1 0 sampleLoadId sampleNonce

theorem locate_sample :
    locate sampleSerde sampleNonce (samplePayload sampleNonce) = some 0 := by
  decide +kernel

theorem sampleEvents_playable : Playable sampleEnv sampleEvents := by
  have hspawned : Spawned (replay sampleEnv [(0, .control (.keyLoadBegin 1 sampleLoadId) true)]).1
      0 1 sampleNonce :=
    ⟨_, List.mem_singleton_self _, sampleLoadId, rfl, rfl, by decide +kernel⟩
  refine ⟨?_, by decide +kernel, trivial, by decide +kernel, ?_, by decide +kernel, trivial,
    by decide +kernel, trivial⟩
  · exact receivable_of_fresh (by simp [sampleLoad])
  · refine ⟨sampleNonce, hspawned, ?_⟩
    rintro bytes ⟨rfl⟩
    exact ⟨_, 0, locate_sample, rfl⟩

theorem gate_invariant_sample :
    (replay sampleEnv sampleEvents).2.gateOpen = true ∧
    (replay sampleEnv sampleEvents).2.approvals.pending.length = 1 ∧
    GateInvariant (replay sampleEnv sampleEvents).2 :=
  ⟨by decide +kernel, by decide +kernel, gate_invariant (replay_run sampleEvents_playable)⟩

end QsBitwarden.Agent
