import QsBitwarden.Agent.Burst

/-!
# Agent — when keys are published

The reader of a load is a task of its own: its result may arrive after the load was cancelled and
another was begun. What keeps a stale result out is the epoch the reader sends along, the nonce
its line has to name, and a store whose epoch only grows.

* **`LoadCase`** — everything an iteration that goes on can do to the store and the load.
* **`Tracked`** — where the active load comes from: the `key_load_begin` that armed it, with
  nothing since that would have disarmed it, and where its end and its payload come from.
* **`publication_bound`** — keys are published for that nonce and that epoch only, at an epoch
  above everything that was published, locked, failed or in force at a logout before.
* **`leftover_published`** — the one way a result can outlive its load: the next load is armed
  with the very same epoch and nonce.
-/

namespace QsBitwarden.Agent

open SshWire Trace

variable {env : Env}

/-! ## One iteration -/

/-- Inputs after which the load that was active is not any more. -/
def Input.Disarms : Input → Prop
  | .control (.vaultLocked _) _ => True
  | .control .vaultLoggedOut _ => True
  | .control (.keyLoadBegin _ _) _ => True
  | .control (.keyLoadEnd _ .failed) _ => True
  | _ => False

/-- The store after an input that clears it. -/
def Input.cleared {ssh : Ssh} (store : KeyStore ssh) : Input → Option (KeyStore ssh)
  | .control (.vaultLocked epoch) _ | .control (.keyLoadEnd epoch .failed) _ =>
    some (store.lock epoch)
  | .control .vaultLoggedOut _ => some (store.logout (Words.saturatingAdd store.epoch 1))
  | _ => none

section

variable {ssh : Ssh} {input : Input} {store store' : KeyStore ssh}

theorem KeyStore.lock_epoch (store : KeyStore ssh) (epoch : Nat) :
    (store.lock epoch).epoch = max store.epoch epoch := rfl

theorem KeyStore.lock_state (store : KeyStore ssh) (epoch : Nat) :
    (store.lock epoch).state.state ≠ .unlocked := by
  show (if _ then VaultState.lockedCached else VaultState.lockedEmpty) ≠ .unlocked
  split <;> simp

theorem Input.disarms_of_cleared (h : input.cleared store = some store') : input.Disarms := by
  unfold Input.cleared at h
  split at h <;> trivial

/-- The epoch does not go back, no private key is left, and the vault is not unlocked. -/
theorem Input.cleared_spec (h : input.cleared store = some store') :
    store.epoch ≤ store'.epoch ∧ store'.privateIdentities = [] ∧
      store'.state.state ≠ .unlocked := by
  unfold Input.cleared at h
  split at h
  · obtain rfl := Option.some.inj h
    exact ⟨Nat.le_max_left _ _, rfl, store.lock_state _⟩
  · obtain rfl := Option.some.inj h
    exact ⟨Nat.le_max_left _ _, rfl, store.lock_state _⟩
  · obtain rfl := Option.some.inj h
    exact ⟨Nat.le_max_left _ _, rfl, by simp [KeyStore.logout, StateTracker.logout]⟩
  · cases h

end

/-- The active load, before and after an input that does not end it. -/
structure Advance (input : Input) (load load' : ActiveLoad) : Prop where
  epoch : load'.epoch = load.epoch
  window : load'.window = load.window
  ended : load'.endReceived = true → load.endReceived = true ∨
    ∃ fifoReady, input = .control (.keyLoadEnd load.epoch .ok) fifoReady
  payload : ∀ bytes, load'.payload = some (.ok bytes) → load.payload = some (.ok bytes) ∨
    ∃ task, input = .loadResult task load.epoch (.ok bytes)

theorem Advance.refl (input : Input) (load : ActiveLoad) : Advance input load load :=
  ⟨rfl, rfl, .inl, fun _ => .inl⟩

/-- The inputs that can complete a load. -/
def Input.Completes : Input → Prop
  | .control (.keyLoadEnd _ .ok) _ => True
  | .loadResult _ _ _ => True
  | _ => False

/-- What an iteration does to the store, the load and the panel's view of it. -/
inductive LoadCase (env : Env) (a : State env.ssh) (input : Input) (b : State env.ssh) : Prop where
  | kept (hinput : ¬ input.Disarms) (hstore : b.store = a.store)
      (hload : ∀ load', b.activeLoad = some load' → ∃ load, a.activeLoad = some load ∧
        Advance input load load')
      (hlog : endings b.log = endings a.log)
  | cleared (hinput : input.cleared a.store = some b.store) (hload : b.activeLoad = none)
      (hlog : endings b.log = endings a.log)
  | begun {epoch : Nat} {loadId : String} {nonce : Bytes}
      (hinput : input = .control (.keyLoadBegin epoch loadId) true)
      (hnonce : parseNonce loadId = some nonce) (hstore : b.store = a.store)
      (hload : b.activeLoad = some ⟨epoch, ⟨epoch, some nonce⟩, none, false, none, a.tasks⟩)
      (hlog : endings b.log = endings a.log)
  | failed {load load' : ActiveLoad} {payload : Except RuntimeError Bytes} {store : KeyStore env.ssh}
      (hinput : ¬ input.Disarms) (hactive : a.activeLoad = some load)
      (hadvance : Advance input load load')
      (hpublish : publishPayload env.serde a.store load'.window payload = (none, store))
      (hstore : b.store = store.lock load'.epoch) (hload : b.activeLoad = none)
      (hlog : endings b.log = endings a.log ++ [.loadFailed load'.epoch])
  | published {load load' : ActiveLoad} {bytes : Bytes} {report : LoadReport}
      (hinput : ¬ input.Disarms) (hby : input.Completes) (hactive : a.activeLoad = some load)
      (hadvance : Advance input load load') (hend : load'.endReceived = true)
      (hpayload : load'.payload = some (.ok bytes))
      (hpublish : publishPayload env.serde a.store load'.window (.ok bytes) = (some report, b.store))
      (hload : b.activeLoad = none)
      (hlog : endings b.log = endings a.log ++ [.keysLoaded load'.epoch report.loaded])

namespace LoadCase

variable {a a' b c : State env.ssh} {input : Input}

theorem of_moves {added : List Reply} (hinput : ¬ input.Disarms) (h : Moves env input a added b) :
    LoadCase env a input b := by
  have hsame := h.unmoved
  refine .kept hinput hsame.store ?_ hsame.endings
  intro load hload
  rw [hsame.activeLoad] at hload
  exact ⟨load, hload, .refl input load⟩

/-- Moves before and after it change nothing it is about. -/
theorem between (h : Unmoved a a') (h' : LoadCase env a' input b) (h'' : Unmoved b c) :
    LoadCase env a input c := by
  obtain ⟨hs, ha, -, ht, hl⟩ := h
  obtain ⟨hs', ha', -, -, hl'⟩ := h''
  cases h' with
  | kept hinput hstore hload hlog =>
    exact .kept hinput (hs' ▸ hs ▸ hstore) (ha' ▸ ha ▸ hload) (hl' ▸ hl ▸ hlog)
  | cleared hinput hload hlog =>
    exact .cleared (hs' ▸ hs ▸ hinput) (ha' ▸ hload) (hl' ▸ hl ▸ hlog)
  | begun hinput hnonce hstore hload hlog =>
    exact .begun hinput hnonce (hs' ▸ hs ▸ hstore) (ha' ▸ ht ▸ hload) (hl' ▸ hl ▸ hlog)
  | failed hinput hactive hadvance hpublish hstore hload hlog =>
    exact .failed hinput (ha ▸ hactive) hadvance (hs ▸ hpublish) (hs' ▸ hstore) (ha' ▸ hload)
      (hl' ▸ hl ▸ hlog)
  | published hinput hby hactive hadvance hend hpayload hpublish hload hlog =>
    exact .published hinput hby (ha ▸ hactive) hadvance hend hpayload (hs' ▸ hs ▸ hpublish)
      (ha' ▸ hload) (hl' ▸ hl ▸ hlog)

theorem of_unmoved (h : Unmoved a a') (h' : LoadCase env a' input b) : LoadCase env a input b :=
  between h h' (.refl b)

theorem unmoved (h : LoadCase env a input b) (h' : Unmoved b c) : LoadCase env a input c :=
  between (.refl a) h h'

end LoadCase

variable {a : State env.ssh}

theorem State.endings_announceKeys {ssh : Ssh} (a : State ssh) (epoch keyCount : Nat) :
    endings (a.announceKeys epoch keyCount).log = endings a.log ++ [.keysLoaded epoch keyCount] := by
  unfold State.announceKeys
  generalize a.store.publicIdentities = keys
  induction keys generalizing a with
  | nil => simp [endings, State.emit, emitted, Output.endsLoad]
  | cons key keys ih =>
    rw [List.foldl_cons, ih]
    simp [endings, State.emit, emitted, Output.endsLoad]

/-- Settling a load that an input has brought to `load'`. -/
theorem settleLoad_loadCase {input : Input} {load load' : ActiveLoad}
    (ha : Books { a with activeLoad := some load' }) (hinput : ¬ input.Disarms)
    (hactive : a.activeLoad = some load) (hadvance : Advance input load load')
    (hby : ∀ bytes, load'.payload = some (.ok bytes) → input.Completes) :
    LoadCase env a input (State.settleLoad { a with activeLoad := some load' } env.serde) := by
  set m : State env.ssh := { a with activeLoad := some load' } with hm
  have hcase := settleLoad_case env.serde m
  generalize m.settleLoad env.serde = b at hcase ⊢
  cases hcase with
  | pending =>
    refine .kept hinput rfl ?_ rfl
    intro load'' hload''
    obtain rfl := Option.some.inj hload''
    exact ⟨load, hactive, hadvance⟩
  | @failed _ payload store hload hend hpayload hpublish =>
    obtain rfl := Option.some.inj hload
    set f := State.emit { m with store := store.lock load'.epoch, activeLoad := none, gateOpen := false }
      (.loadFailed load'.epoch) with hf
    have hrest : Moves env input f []
        ((f.cancelHeld .loadFailed).releaseHeldIdentities .loadFailed) :=
      (cancelHeld_moves _ _).trans' (releaseHeldIdentities_moves _ _)
    refine LoadCase.unmoved (.failed hinput hactive hadvance hpublish rfl rfl ?_) hrest.unmoved
    simp [hf, hm, endings, State.emit, emitted, Output.endsLoad]
  | @published _ bytes report store hload hend hpayload hpublish =>
    obtain rfl := Option.some.inj hload
    set p : State env.ssh := { m with store, activeLoad := none, gateOpen := true } with hp
    set c := p.announceKeys load'.epoch report.loaded with hc
    have hbooks : Books c := .publish (.intro hload hend hpayload hpublish) ha
    have hgate : c.gateOpen = true := by rw [hc, State.announceKeys_eq]
    have hstore : c.store = store := by rw [hc, State.announceKeys_eq]
    have hnone : c.activeLoad = none := by rw [hc, State.announceKeys_eq]
    have hrest : Moves env input c [] (c.releaseHeld.releaseHeldIdentities .released) :=
      (releaseHeld_moves hbooks hgate).trans' (releaseHeldIdentities_moves _ _)
    refine LoadCase.unmoved ?_ hrest.unmoved
    exact .published hinput (hby bytes hpayload) hactive hadvance hend hpayload (hstore ▸ hpublish) hnone
      (State.endings_announceKeys p _ _)

theorem handleTick_loadCase (ha : Books a) (closed : List Reply) :
    LoadCase env a (.tick closed) (a.handleTick env.serde closed.contains) := by
  unfold State.handleTick
  extract_lets b now c
  have hc : Moves env (.tick closed) a [] c := (Moves.single (.clock a)).trans' (.expire b now)
  have hrest : ∀ d : State env.ssh, Moves env (.tick closed) d []
      ((d.withdrawStale closed.contains now).emitGrantsIfChanged now) := fun d =>
    (withdrawStale_moves d _ _).trans' (emitGrantsIfChanged_moves _ _)
  refine LoadCase.of_unmoved hc.unmoved (LoadCase.unmoved ?_ (hrest _).unmoved)
  unfold State.expireLoad
  split
  · exact .of_moves id (.refl c)
  next load hload =>
  split
  · extract_lets load'
    have hset : Shift c { c with activeLoad := some load' } := .load c _ (by simp [hload])
    exact settleLoad_loadCase (Books.shift hset (ha.moves hc)) id hload
      ⟨rfl, rfl, .inl, fun _ hbytes => nomatch hbytes⟩ fun _ hbytes => nomatch hbytes
  · exact .of_moves id (.refl c)

theorem handleLoadResult_loadCase (ha : Books a) (task epoch : Nat)
    (result : Except RuntimeError Bytes) :
    LoadCase env a (.loadResult task epoch result)
      (a.handleLoadResult env.serde epoch result) := by
  unfold State.handleLoadResult
  split
  · exact .of_moves id (.refl a)
  next load hload =>
  split
  · exact .of_moves id (.refl a)
  next hepoch =>
  have hset : Shift a { a with activeLoad := some { load with payload := some result } } :=
    .load a _ (by simp [hload])
  refine settleLoad_loadCase (Books.shift hset ha) id hload ⟨rfl, rfl, .inl, ?_⟩ fun _ _ => trivial
  intro bytes hbytes
  have hresult : result = .ok bytes := Option.some.inj hbytes
  have hepoch : load.epoch = epoch := not_not.mp hepoch
  exact .inr ⟨task, by rw [hresult, hepoch]⟩

/-- What an iteration does to the store and the load: one after which the loop does not go on leaves
the store alone. -/
inductive Handled (env : Env) (a : State env.ssh) (input : Input) : Flow × State env.ssh → Prop where
  | stopped {flow : Flow} {b : State env.ssh} (hflow : flow ≠ .next) (hstore : b.store = a.store)
      (hlog : endings b.log = endings a.log) : Handled env a input (flow, b)
  | next {b : State env.ssh} (h : LoadCase env a input b) : Handled env a input (.next, b)

theorem handleKeyLoadEnd_handled (ha : Books a) (epoch : Nat) (status : LoadStatus)
    (fifoReady : Bool) : Handled env a (.control (.keyLoadEnd epoch status) fifoReady)
      (a.handleKeyLoadEnd env.serde epoch status) := by
  unfold State.handleKeyLoadEnd
  split
  · exact .stopped (by simp) rfl rfl
  next load hload =>
  split
  · exact .stopped (by simp) rfl rfl
  next hepoch =>
  have hepoch : load.epoch = epoch := not_not.mp hepoch
  cases status with
  | failed =>
    set b : State env.ssh :=
      { a with store := a.store.lock epoch, activeLoad := none, gateOpen := false } with hb
    have hrest : Moves env .controlClosed b []
        ((b.cancelHeld .loadFailed).releaseHeldIdentities .loadFailed) :=
      (cancelHeld_moves _ _).trans' (releaseHeldIdentities_moves _ _)
    have hcase : LoadCase env a (.control (.keyLoadEnd epoch .failed) fifoReady) b :=
      .cleared rfl rfl rfl
    exact .next (hcase.unmoved hrest.unmoved)
  | ok =>
    have hclock : Moves env .controlClosed a [] a.readClock := .single (.clock a)
    have hset : ∀ load', Books { a.readClock with activeLoad := some load' } := fun load' =>
      Books.shift (.load a.readClock (some load') (.inl (by
        show a.activeLoad.isSome = true
        simp [hload]))) (ha.moves hclock)
    refine .next (LoadCase.of_unmoved hclock.unmoved
      (settleLoad_loadCase (hset _) id hload ?_ fun _ _ => trivial))
    exact ⟨rfl, rfl, fun _ => .inr ⟨fifoReady, by rw [hepoch]⟩, fun _ => .inl⟩

theorem handleKeyLoadBegin_handled (a : State env.ssh) (epoch : Nat) (loadId : String)
    (fifoReady : Bool) : Handled env a (.control (.keyLoadBegin epoch loadId) fifoReady)
      (a.handleKeyLoadBegin epoch loadId fifoReady) := by
  unfold State.handleKeyLoadBegin
  split
  · exact .stopped (by simp) rfl rfl
  extract_lets b
  have hb : b.store = a.store ∧ b.tasks = a.tasks ∧ endings b.log = endings a.log := by
    dsimp only [b]
    rw [State.failPending_eq]
    refine ⟨rfl, rfl, ?_⟩
    simp [endings, emitted, List.filterMap_map]
  unfold LoadWindow.new
  cases hnonce : parseNonce loadId with
  | none => exact .stopped (by simp) hb.1 hb.2.2
  | some nonce =>
    cases fifoReady with
    | false => exact .stopped (by simp) hb.1 hb.2.2
    | true => exact .next (.begun rfl hnonce hb.1 (by rw [← hb.2.1]) hb.2.2)

theorem handleVaultLocked_loadCase (a : State env.ssh) (epoch : Nat) (fifoReady : Bool) :
    LoadCase env a (.control (.vaultLocked epoch) fifoReady) (a.handleVaultLocked epoch) := by
  unfold State.handleVaultLocked
  extract_lets b c
  have hrest : Moves env .controlClosed c.failPending [] _ :=
    ((cancelHeld_moves c.failPending .locked).trans' (releaseHeldIdentities_moves _ .locked)).trans'
      (.emit _ (.locked epoch))
  refine LoadCase.unmoved ?_ hrest.unmoved
  rw [State.failPending_eq]
  refine .cleared rfl rfl ?_
  simp [c, b, endings, emitted, State.cancelLoad, List.filterMap_map]

theorem handleVaultLoggedOut_loadCase (a : State env.ssh) (fifoReady : Bool) :
    LoadCase env a (.control .vaultLoggedOut fifoReady) a.handleVaultLoggedOut := by
  unfold State.handleVaultLoggedOut
  extract_lets b store c
  have hrest : Moves env .controlClosed c.failPending [] _ :=
    (cancelHeld_moves c.failPending .loggedOut).trans' (releaseHeldIdentities_moves _ .loggedOut)
  refine LoadCase.unmoved ?_ hrest.unmoved
  rw [State.failPending_eq]
  refine .cleared rfl rfl ?_
  simp [c, b, endings, emitted, State.cancelLoad, List.filterMap_map]

theorem handle_handled (ha : Books a) (hheld : HeldShut a) (input : Input) :
    Handled env a input (a.handle env input) := by
  cases input with
  | controlClosed | controlInvalid => exact .stopped (by simp) rfl rfl
  | client event => exact .next (.of_moves id (handleClient_moves ha hheld rfl))
  | loadResult task epoch result => exact .next (handleLoadResult_loadCase ha task epoch result)
  | tick closed => exact .next (handleTick_loadCase ha closed)
  | control message fifoReady =>
    cases message with
    | hello =>
      simp only [State.handle, State.handleControl, State.handleHello]
      split
      · have hready : Moves env (.control .hello fifoReady) a [] _ :=
          (Moves.single (.settings a a.unlockOnDemand a.grantSnapshot true)).trans'
            (.emit _ (.ready env.socketPath env.fifoPath env.agentVersion))
        exact .next (.of_moves id hready)
      · exact .stopped (by simp) rfl rfl
    | keyLoadBegin epoch loadId => exact handleKeyLoadBegin_handled a epoch loadId fifoReady
    | keyLoadEnd epoch status => exact handleKeyLoadEnd_handled ha epoch status fifoReady
    | vaultLocked epoch => exact .next (handleVaultLocked_loadCase a epoch fifoReady)
    | vaultLoggedOut => exact .next (handleVaultLoggedOut_loadCase a fifoReady)
    | approve requestId grantSeconds => exact .next (.of_moves id (handleApprove_moves ha rfl))
    | deny requestId | unlockCancelled requestId =>
      exact .next (.of_moves id (handleDeny_moves a requestId))
    | options | revokeGrants | revokeGrant =>
      exact .next (.kept id rfl (fun load hload => ⟨load, hload, .refl _ load⟩) rfl)
    | shutdown => exact .stopped (by simp) rfl rfl

/-! ## Where the active load comes from -/

section Origins

variable {ssh : Ssh}

/-- A `key_load_begin` for this epoch and nonce. -/
def Turn.Arms (epoch : Nat) (nonce : Bytes) (t : Turn ssh) : Prop :=
  ∃ loadId, t.input = .control (.keyLoadBegin epoch loadId) true ∧ parseNonce loadId = some nonce

/-- The load armed with this epoch and nonce is still active. -/
def Armed (epoch : Nat) (nonce : Bytes) : List (Turn ssh) → Prop :=
  Since (fun t => ¬ t.input.Disarms) fun _ t => t.Arms epoch nonce

/-- While it was, `key_load_end` said `ok` for its epoch. -/
def Ended (epoch : Nat) (nonce : Bytes) : List (Turn ssh) → Prop :=
  Since (fun t => ¬ t.input.Disarms) fun older t =>
    (∃ fifoReady, t.input = .control (.keyLoadEnd epoch .ok) fifoReady) ∧ Armed epoch nonce older

/-- While it was, some reader sent these bytes for its epoch. -/
def Received (serde : Serde) (epoch : Nat) (nonce bytes : Bytes) : List (Turn ssh) → Prop :=
  Since (fun t => ¬ t.input.Disarms) fun older t =>
    (∃ task, t.input = .loadResult task epoch (.ok bytes)) ∧ Receivable serde older t.input ∧
      Armed epoch nonce older

/-- The same, and the reader had been given this very epoch and nonce. -/
def Delivered (epoch : Nat) (nonce bytes : Bytes) : List (Turn ssh) → Prop :=
  Since (fun t => ¬ t.input.Disarms) fun older t =>
    (∃ task, t.input = .loadResult task epoch (.ok bytes) ∧ Spawned older task epoch nonce) ∧
      Armed epoch nonce older

structure LoadOrigin (serde : Serde) (h : List (Turn ssh)) (load : ActiveLoad) (nonce : Bytes) :
    Prop where
  window : load.window = ⟨load.epoch, some nonce⟩
  armed : Armed load.epoch nonce h
  ended : load.endReceived = true → Ended load.epoch nonce h
  received : ∀ bytes, load.payload = some (.ok bytes) → Received serde load.epoch nonce bytes h

theorem LoadOrigin.advance {serde : Serde} {h : List (Turn ssh)} {t : Turn ssh}
    {load load' : ActiveLoad} {nonce : Bytes} (horigin : LoadOrigin serde h load nonce)
    (hinput : ¬ t.input.Disarms) (hreceivable : Receivable serde h t.input)
    (hadvance : Advance t.input load load') : LoadOrigin serde (t :: h) load' nonce := by
  obtain ⟨hepoch, hwindow, hended, hpayload⟩ := hadvance
  refine ⟨?_, ?_, ?_, ?_⟩
  · rw [hwindow, horigin.window, hepoch]
  · rw [hepoch]
    exact .keep hinput horigin.armed
  · intro hend
    rw [hepoch]
    rcases hended hend with hend | hend
    · exact .keep hinput (horigin.ended hend)
    · exact .start ⟨hend, horigin.armed⟩
  · intro bytes hbytes
    rw [hepoch]
    rcases hpayload bytes hbytes with hbytes | hresult
    · exact .keep hinput (horigin.received bytes hbytes)
    · exact .start ⟨hresult, hreceivable, horigin.armed⟩

/-- A reader's line and the load's window name the same nonce, since a payload has one. -/
theorem Received.delivered {serde : Serde} {h : List (Turn ssh)} {epoch : Nat}
    {nonce bytes : Bytes} {raw : RawEnvelope} (hreceived : Received serde epoch nonce bytes h)
    (hraw : serde.envelope bytes = some raw) (hnonce : parseNonce raw.loadId = some nonce) :
    Delivered epoch nonce bytes h := by
  refine Since.mono ?_ hreceived
  rintro older t ⟨⟨task, hinput⟩, hreceivable, harmed⟩
  refine ⟨⟨task, hinput, ?_⟩, harmed⟩
  rw [hinput] at hreceivable
  obtain ⟨nonce', hspawned, hlocated⟩ := hreceivable
  obtain ⟨line, start, hlocate, rfl⟩ := hlocated bytes rfl
  have hnames := namesThisLoad_of_locate hlocate
  unfold namesThisLoad at hnames
  rw [serde.named_of_envelope _ raw hraw, Option.bind_some, hnonce] at hnames
  obtain ⟨_, _, loadId, _, _, hnonce'⟩ := id hspawned
  have hlen : nonce.length = nonce'.length := by
    rw [length_of_parseNonce hnonce, length_of_parseNonce hnonce']
  obtain rfl := (constantTimeEq_iff hlen).mp hnames
  exact hspawned

end Origins

variable {ssh : Ssh}

/-! ## Epochs -/

/-- The epochs an iteration has used up. -/
inductive Turn.Raises (env : Env) (t : Turn env.ssh) : Nat → Prop where
  | locked {epoch : Nat} {fifoReady : Bool}
      (h : t.input = .control (.vaultLocked epoch) fifoReady) : Raises env t epoch
  | loggedOut {fifoReady : Bool} (h : t.input = .control .vaultLoggedOut fifoReady) :
      Raises env t t.before.store.epoch
  | gaveUp {epoch : Nat} {fifoReady : Bool}
      (h : t.input = .control (.keyLoadEnd epoch .failed) fifoReady) : Raises env t epoch
  | failed {epoch : Nat} (h : .emit (.loadFailed epoch) ∈ (t.outcome env).2.log) :
      Raises env t epoch
  | published {epoch keyCount : Nat}
      (h : .emit (.keysLoaded epoch keyCount) ∈ (t.outcome env).2.log) : Raises env t epoch

theorem mem_endings {log : List (Effect ssh)} {message : Output} (h : .emit message ∈ log)
    (hends : message.endsLoad = true) : message ∈ endings log := by
  unfold endings emitted
  rw [List.mem_filter, List.mem_filterMap]
  exact ⟨⟨_, h, rfl⟩, hends⟩

theorem le_epoch_of_publishPayload_none {serde : Serde} {store store' : KeyStore ssh}
    {window : LoadWindow} {payload : Except RuntimeError Bytes}
    (h : publishPayload serde store window payload = (none, store')) :
    store.epoch ≤ store'.epoch := by
  have hcase := publishPayload_case serde store window payload
  rw [h] at hcase
  cases hcase with
  | refused => exact Nat.le_refl _
  | failed _ hepoch => exact Nat.le_of_lt hepoch

/-- What a published payload says about itself and the stores around it. -/
theorem publishPayload_some {serde : Serde} {store store' : KeyStore ssh} {window : LoadWindow}
    {bytes : Bytes} {report : LoadReport}
    (h : publishPayload serde store window (.ok bytes) = (some report, store')) :
    ∃ raw nonce, window.nonce = some nonce ∧ serde.envelope bytes = some raw ∧
      (nonce.length = 32 → parseNonce raw.loadId = some nonce) ∧
      store.epoch < window.epoch ∧ store'.state = ⟨window.epoch, .unlocked⟩ := by
  have hcase := publishPayload_case serde store window (.ok bytes)
  rw [h] at hcase
  cases hcase with
  | published _ expected supplied raw load _ hnonce hraw hsupplied heq hepoch hload =>
    refine ⟨raw, expected, hnonce, hraw, fun hlen => ?_, hepoch, rfl⟩
    have hsame : supplied.length = expected.length := by
      rw [length_of_parseNonce hsupplied, hlen]
    rw [hsupplied, (constantTimeEq_iff hsame).mp heq]

theorem emit_of_mem_endings {log : List (Effect ssh)} {message : Output}
    (h : message ∈ endings log) : .emit message ∈ log := by
  unfold endings emitted at h
  obtain ⟨effect, hmem, heq⟩ := List.mem_filterMap.mp (List.mem_filter.mp h).1
  cases effect with
  | emit message' =>
    obtain rfl := Option.some.inj heq
    exact hmem
  | answer | issue => cases heq

namespace LoadCase

variable {a b : State env.ssh} {input : Input}

variable {fifoReady : Bool}

variable (h : LoadCase env a input b)
include h

theorem epoch_le : a.store.epoch ≤ b.store.epoch := by
  cases h with
  | kept hinput hstore | begun hinput hnonce hstore => rw [hstore]
  | cleared hinput => exact (Input.cleared_spec hinput).1
  | failed hinput hactive hadvance hpublish hstore =>
    rw [hstore, KeyStore.lock_epoch]
    exact (le_epoch_of_publishPayload_none hpublish).trans (Nat.le_max_left _ _)
  | published hinput hby hactive hadvance hend hpayload hpublish =>
    obtain ⟨raw, nonce, -, -, -, hlt, hstate⟩ := publishPayload_some hpublish
    have hafter : b.store.epoch = _ := congrArg StateTracker.epoch hstate
    rw [hafter]
    exact Nat.le_of_lt hlt

/-- Only a publication puts private keys in. -/
theorem private_or :
    b.store.privateIdentities = a.store.privateIdentities ∨ b.store.privateIdentities = [] ∨
      ∃ epoch keyCount, Output.keysLoaded epoch keyCount ∈ endings b.log := by
  cases h with
  | kept hinput hstore | begun hinput hnonce hstore => exact .inl (by rw [hstore])
  | cleared hinput => exact .inr (.inl (Input.cleared_spec hinput).2.1)
  | failed hinput hactive hadvance hpublish hstore => exact .inr (.inl (by rw [hstore]; rfl))
  | published hinput hby hactive hadvance hend hpayload hpublish hload hlog =>
    exact .inr (.inr ⟨_, _, by rw [hlog]; exact List.mem_concat_self⟩)

/-- Only a publication unlocks. -/
theorem unlocked_or (hlocked : a.store.state.state ≠ .unlocked)
    (hunlocked : b.store.state.state = .unlocked) :
    ∃ epoch keyCount, Output.keysLoaded epoch keyCount ∈ endings b.log := by
  cases h with
  | kept hinput hstore | begun hinput hnonce hstore => exact absurd (hstore ▸ hunlocked) hlocked
  | cleared hinput => exact absurd hunlocked (Input.cleared_spec hinput).2.2
  | failed hinput hactive hadvance hpublish hstore =>
    exact absurd (hstore ▸ hunlocked) (KeyStore.lock_state _ _)
  | published hinput hby hactive hadvance hend hpayload hpublish hload hlog =>
    exact ⟨_, _, by rw [hlog]; exact List.mem_concat_self⟩

/-- A lock, a logout and a load that is given up on clear the store. -/
theorem of_clears {store : KeyStore env.ssh} (hinput : input.cleared a.store = some store) :
    b.store = store := by
  cases h with
  | cleared heq => exact Option.some.inj (heq.symm.trans hinput)
  | begun heq =>
    rw [heq] at hinput
    cases hinput
  | kept hkeeps | failed hkeeps | published hkeeps =>
    exact absurd (Input.disarms_of_cleared hinput) hkeeps

/-- A message that ended a load, from a log that had none. -/
theorem of_mem_endings {message : Output} (hnone : endings a.log = [])
    (hmem : message ∈ endings b.log) :
    (∃ epoch, ∃ store : KeyStore env.ssh, message = .loadFailed epoch ∧
      b.store = store.lock epoch) ∨
    ∃ load load' bytes report, message = .keysLoaded load'.epoch report.loaded ∧
      ¬ input.Disarms ∧ input.Completes ∧ a.activeLoad = some load ∧ Advance input load load' ∧
      load'.endReceived = true ∧ load'.payload = some (.ok bytes) ∧
      publishPayload env.serde a.store load'.window (.ok bytes) = (some report, b.store) := by
  cases h with
  | kept hinput hstore hload hlog | cleared hinput hload hlog
  | begun hinput hnonce hstore hload hlog =>
    rw [hlog, hnone] at hmem
    cases hmem
  | failed hinput hactive hadvance hpublish hstore hload hlog =>
    rw [hlog, hnone, List.nil_append, List.mem_singleton] at hmem
    exact .inl ⟨_, _, hmem, hstore⟩
  | published hinput hby hactive hadvance hend hpayload hpublish hload hlog =>
    rw [hlog, hnone, List.nil_append, List.mem_singleton] at hmem
    exact .inr ⟨_, _, _, _, hmem, hinput, hby, hactive, hadvance, hend, hpayload, hpublish⟩

end LoadCase

variable {t : Turn env.ssh} {h : List (Turn env.ssh)} {s : Option (State env.ssh)}

/-- An iteration that goes on leaves the store at every epoch it used up, or above. -/
theorem Turn.Raises.le_epoch {epoch : Nat} (hraises : t.Raises env epoch)
    (hcase : LoadCase env t.start t.input (t.outcome env).2)
    (hwindow : ∀ load, t.before.activeLoad = some load → load.window.epoch = load.epoch) :
    epoch ≤ (t.outcome env).2.store.epoch := by
  cases hraises with
  | locked hinput | gaveUp hinput =>
    rw [hcase.of_clears (by rw [hinput]; rfl), KeyStore.lock_epoch]
    exact Nat.le_max_right _ _
  | loggedOut hinput =>
    rw [hcase.of_clears (by rw [hinput]; rfl)]
    exact Nat.le_max_left _ _
  | failed hmem =>
    rcases hcase.of_mem_endings rfl (mem_endings hmem rfl) with
      ⟨epoch', store, heq, hstore⟩ | ⟨_, _, _, _, heq, -⟩
    · cases heq
      rw [hstore, KeyStore.lock_epoch]
      exact Nat.le_max_right _ _
    · cases heq
  | published hmem =>
    rcases hcase.of_mem_endings rfl (mem_endings hmem rfl) with
      ⟨_, _, heq, -⟩ | ⟨load, load', bytes, report, heq, -, -, hactive, hadvance, -, -, hpublish⟩
    · cases heq
    · cases heq
      obtain ⟨-, -, -, -, -, -, hstate⟩ := publishPayload_some hpublish
      have hafter : (t.outcome env).2.store.epoch = load'.window.epoch :=
        congrArg StateTracker.epoch hstate
      rw [hafter, hadvance.window, hwindow load hactive, hadvance.epoch]

/-! ## Runs -/

/-- What a run knows about the store's epoch and the active load. -/
structure Tracked (env : Env) (h : List (Turn env.ssh)) (a : State env.ssh) : Prop where
  floor : ∀ t ∈ h, ∀ epoch, t.Raises env epoch → epoch ≤ a.store.epoch
  load : ∀ load, a.activeLoad = some load → ∃ nonce, LoadOrigin env.serde h load nonce

theorem Tracked.turn (htracked : Tracked env h t.before)
    (hreceivable : Receivable env.serde h t.input)
    (hcase : LoadCase env t.start t.input (t.outcome env).2) :
    Tracked env (t :: h) (t.outcome env).2 where
  floor t' ht' epoch hraises := by
    rcases List.mem_cons.mp ht' with rfl | ht'
    · refine hraises.le_epoch hcase fun load hload => ?_
      obtain ⟨nonce, horigin⟩ := htracked.load load hload
      rw [horigin.window]
    · exact (htracked.floor t' ht' epoch hraises).trans hcase.epoch_le
  load := by
    cases hcase with
    | kept hinput hstore hload =>
      intro load' hload'
      obtain ⟨load, hactive, hadvance⟩ := hload load' hload'
      obtain ⟨nonce, horigin⟩ := htracked.load load hactive
      exact ⟨nonce, horigin.advance hinput hreceivable hadvance⟩
    | begun hinput hnonce hstore hload =>
      intro load' hload'
      obtain rfl := Option.some.inj (hload.symm.trans hload')
      exact ⟨_, rfl, .start ⟨_, hinput, hnonce⟩, nofun, nofun⟩
    | cleared hinput hload
    | failed hinput hactive hadvance hpublish hstore hload
    | published hinput hby hactive hadvance hend hpayload hpublish hload =>
      intro load' hload'
      rw [hload] at hload'
      cases hload'

theorem turn_handled (run : (system env).Run (t :: h) s) :
    Handled env t.start t.input (t.outcome env) := by
  obtain ⟨hbooks, hshut⟩ := turn_books run
  have hstart : Books t.start := { hbooks with }
  have hshut' : HeldShut t.start := hshut
  exact handle_handled hstart hshut' t.input

theorem turn_loadCase (run : (system env).Run (t :: h) s) (hflow : (t.outcome env).1 = .next) :
    LoadCase env t.start t.input (t.outcome env).2 := by
  have hhandled := turn_handled run
  generalize t.outcome env = outcome at hhandled hflow
  cases hhandled with
  | stopped hstopped => exact absurd hflow hstopped
  | next h => exact h

/-- A message about a load, or a change of the store, means that the iteration went on. -/
theorem turn_loadCase_of_changed (run : (system env).Run (t :: h) s)
    (hchanged : endings (t.outcome env).2.log ≠ [] ∨ (t.outcome env).2.store ≠ t.before.store) :
    LoadCase env t.start t.input (t.outcome env).2 := by
  have hhandled := turn_handled run
  generalize t.outcome env = outcome at hhandled hchanged
  cases hhandled with
  | stopped _ hstore hlog => exact hchanged.elim (absurd hlog) (absurd hstore)
  | next h => exact h

theorem Tracked.reordered {a b : State env.ssh} (hab : Reordered a b) (ha : Tracked env h a) :
    Tracked env h b := by
  obtain ⟨-, -, hb⟩ := hab
  rw [hb]
  exact ⟨ha.floor, ha.load⟩

theorem run_tracked (run : (system env).Run h s) : ∀ a, s = some a → Tracked env h a := by
  refine run_invariant (I := Tracked env) ?_ ?_ run
  · refine ⟨fun t ht => absurd ht List.not_mem_nil, fun load hload => ?_⟩
    have hnone : none = some load := hload
    cases hnone
  · intro h a t run hreordered hcompletes ha
    obtain ⟨-, -, -, hreceivable, -⟩ := run_cons run
    exact (ha.reordered hreordered).turn hreceivable (turn_loadCase run hcompletes.1)

/-- `keys_loaded` for this epoch. -/
def Turn.Publishes (env : Env) (t : Turn env.ssh) (epoch : Nat) : Prop :=
  ∃ keyCount, .emit (.keysLoaded epoch keyCount) ∈ (t.outcome env).2.log

def Turn.Locks {ssh : Ssh} (t : Turn ssh) : Prop :=
  (∃ epoch fifoReady, t.input = .control (.vaultLocked epoch) fifoReady) ∨
    ∃ fifoReady, t.input = .control .vaultLoggedOut fifoReady

theorem run_private_empty (run : (system env).Run h s) : ∀ a, s = some a →
      Since (fun t => ¬ ∃ epoch, t.Publishes env epoch) (fun _ t => t.Locks) h →
      a.store.privateIdentities = [] := by
  refine run_invariant (I := fun h a =>
    Since (fun t => ¬ ∃ epoch, t.Publishes env epoch) (fun _ t => t.Locks) h →
    a.store.privateIdentities = []) ?_ ?_ run
  · exact fun hsince => hsince.elim
  · rintro h a t run ⟨-, -, hbefore⟩ hcompletes ih hsince
    have hcase := turn_loadCase run hcompletes.1
    rcases hsince with (⟨epoch, fifoReady, hinput⟩ | ⟨fifoReady, hinput⟩) | ⟨hquiet, hsince⟩
    · rw [hcase.of_clears (by rw [hinput]; rfl)]
      rfl
    · rw [hcase.of_clears (by rw [hinput]; rfl)]
      rfl
    · rcases hcase.private_or with hsame | hempty | ⟨epoch, keyCount, hmem⟩
      · rw [hsame, ← ih hsince]
        show t.before.store.privateIdentities = _
        rw [hbefore]
      · exact hempty
      · exact absurd ⟨epoch, keyCount, emit_of_mem_endings hmem⟩ hquiet

/-- A publication at the end of the iterations `t :: h`. -/
structure Publication (env : Env) (h : List (Turn env.ssh)) (t : Turn env.ssh) (epoch : Nat)
    (nonce bytes : Bytes) (raw : RawEnvelope) : Prop where
  armed : Armed epoch nonce h
  ended : Ended epoch nonce (t :: h)
  delivered : Delivered epoch nonce bytes (t :: h)
  envelope : env.serde.envelope bytes = some raw
  named : parseNonce raw.loadId = some nonce
  /-- The store after it holds what these bytes decode to. -/
  store : ∃ report, publishPayload env.serde t.before.store ⟨epoch, some nonce⟩ (.ok bytes) =
    (some report, (t.outcome env).2.store)
  unlocked : (t.outcome env).2.store.state = ⟨epoch, .unlocked⟩
  fresh : ∀ t' ∈ h, ∀ epoch', t'.Raises env epoch' → epoch' + 1 ≤ epoch

/-- Keys are published for the nonce and the epoch of the load that is still active, and between a
lock or a logout and the next publication there is no private key. -/
theorem publication_bound {h : List (Turn env.ssh)} {t : Turn env.ssh}
    {s : Option (State env.ssh)} (run : (system env).Run (t :: h) s) :
    (∀ epoch, t.Publishes env epoch →
      ∃ nonce bytes raw, Publication env h t epoch nonce bytes raw) ∧
    (t.before.store.state.state ≠ .unlocked → (t.outcome env).2.store.state.state = .unlocked →
      ∃ epoch, t.Publishes env epoch) ∧
    (∀ a, s = some a →
      Since (fun t => ¬ ∃ epoch, t.Publishes env epoch) (fun _ t => t.Locks) (t :: h) →
      a.store.privateIdentities = []) := by
  obtain ⟨a, run', hreordered, hreceivable, -, hnext⟩ := run_cons run
  have htracked := (run_tracked run' a rfl).reordered hreordered
  refine ⟨?_, ?_, ?_⟩
  · rintro epoch ⟨keyCount, hemit⟩
    have hmem := mem_endings hemit rfl
    have hcase := turn_loadCase_of_changed run (.inl (List.ne_nil_of_mem hmem))
    rcases hcase.of_mem_endings rfl hmem with
      ⟨_, _, heq, -⟩ |
      ⟨load, load', bytes, report, heq, hinput, -, hactive, hadvance, hend, hpayload, hpublish⟩
    · cases heq
    cases heq
    obtain ⟨nonce, horigin⟩ := htracked.load load hactive
    have horigin' := horigin.advance hinput hreceivable hadvance
    obtain ⟨raw, nonce', hnonce', hraw, hnamed, hlt, hstate⟩ := publishPayload_some hpublish
    rw [horigin'.window] at hpublish hnonce' hlt hstate
    obtain rfl := Option.some.inj hnonce'
    have hlen : nonce.length = 32 := by
      obtain ⟨newer, t', older, -, ⟨loadId, -, hparse⟩, -⟩ := since_iff.mp horigin.armed
      exact length_of_parseNonce hparse
    have hnamed := hnamed hlen
    refine ⟨nonce, bytes, raw, ?_, horigin'.ended hend, ?_, hraw, hnamed, ⟨report, hpublish⟩,
      hstate, ?_⟩
    · rw [hadvance.epoch]
      exact horigin.armed
    · exact (horigin'.received bytes hpayload).delivered hraw hnamed
    · intro t' ht' epoch' hraises
      exact Nat.lt_of_le_of_lt (htracked.floor t' ht' epoch' hraises) hlt
  · intro hlocked hunlocked
    have hne : (t.outcome env).2.store ≠ t.before.store := by
      intro heq
      rw [heq] at hunlocked
      exact hlocked hunlocked
    obtain ⟨epoch, keyCount, hmem⟩ := (turn_loadCase_of_changed run (.inr hne)).unlocked_or hlocked hunlocked
    exact ⟨epoch, keyCount, emit_of_mem_endings hmem⟩
  · exact run_private_empty run

theorem publication_bound_sample :
    ∃ (h : List (Turn sampleEnv.ssh)) (t : Turn sampleEnv.ssh), t.Publishes sampleEnv 1 ∧
      ∃ nonce bytes raw, Publication sampleEnv h t 1 nonce bytes raw := by
  obtain ⟨-, -, hplayable⟩ := sampleEvents_playable
  have hpublishes : ((replay sampleEnv (sampleLoad 1 0 sampleLoadId sampleNonce).tail).2.turn
      (0, .control (.keyLoadEnd 1 .ok) true)).Publishes sampleEnv 1 :=
    ⟨1, emit_of_mem_endings (by decide +kernel)⟩
  exact ⟨_, _, hpublishes, (publication_bound (replay_run hplayable)).1 1 hpublishes⟩

/-! ## A result that outlives its load -/

/-- A lock cancels the load, the panel arms another with the same epoch and nonce, and only then
the first reader's result is received. -/
def leftoverEvents : List (Nat × Input) :=
  [(0, .loadResult 0 5 (.ok (samplePayload sampleNonce))),
    (0, .control (.keyLoadBegin 5 sampleLoadId) true),
    (0, .control (.vaultLocked 0) true),
    (0, .control (.keyLoadBegin 5 sampleLoadId) true)]

/-- The active load is the second reader's, and the first reader's keys are published for it. -/
theorem leftover_published :
    (system sampleEnv).Run (replay sampleEnv leftoverEvents).1
      (some (replay sampleEnv leftoverEvents).2) ∧
    (replay sampleEnv leftoverEvents).2.activeLoad.map (·.task) = some 1 ∧
    ((replay sampleEnv leftoverEvents).2.turn
      (0, .control (.keyLoadEnd 5 .ok) true)).Publishes sampleEnv 5 := by
  have hspawned : Spawned (replay sampleEnv leftoverEvents.tail).1 0 5 sampleNonce := by
    refine ⟨(replay sampleEnv []).2.turn (0, .control (.keyLoadBegin 5 sampleLoadId) true), ?_,
      sampleLoadId, rfl, rfl, by decide +kernel⟩
    exact .tail _ (.tail _ (.head _))
  have hplayable : Playable sampleEnv leftoverEvents := by
    refine ⟨⟨sampleNonce, hspawned, ?_⟩, by decide +kernel, trivial, by decide +kernel, trivial,
      by decide +kernel, trivial, by decide +kernel, trivial⟩
    rintro bytes ⟨rfl⟩
    exact ⟨_, 0, locate_sample, rfl⟩
  exact ⟨replay_run hplayable, by decide +kernel, 1, emit_of_mem_endings (by decide +kernel)⟩

end QsBitwarden.Agent
