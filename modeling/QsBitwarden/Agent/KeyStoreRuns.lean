import Mathlib.Data.List.Nodup
import QsBitwarden.Agent.KeyStore

/-!
# Agent — the key store's representation invariant

`KeyStore` keeps two lists and a table of indices between them, and five operations replace
or clear them separately. What keeps the indices good:

* **`Keyed`** — the relation between a public and a private list that a lookup needs: public
  blobs pairwise distinct, every index names the blob of its own key.
* **`CandidateLoad.WF`**, **`KeyStore.WF`** — `Keyed`, with the size bound of a load and the
  states in which a private set may be live. Every operation keeps them.
* **`StateTracker.Spent`** — an epoch that can never be unlocked again. Every operation keeps
  it too, which is why a permit dies for good.
* **`keyStore_sound`** — the whole of it, over any interleaving of calls on one store and
  any number of candidates.
-/

namespace QsBitwarden.Agent

open SshWire

variable {ssh : Ssh}

/-! ## Vetting -/

theorem vet_ok {known : List PublicIdentity} {item : CandidateItem} {identity : PublicIdentity}
    {key : ssh.PrivateKey} (h : vet ssh known item = .ok (identity, key)) :
    ssh.blob key = some identity.publicBlob ∧
      ∀ other ∈ known, other.publicBlob ≠ identity.publicBlob := by
  simp only [vet, bind, Except.bind, pure, Except.pure, throw, throwThe, MonadExceptOf.throw] at h
  split at h
  · cases h
  split at h
  swap
  · cases h
  split at h
  swap
  · cases h
  next blob hblob =>
    -- The three comparisons; the last one is against every identity already known.
    split at h
    · cases h
    split at h
    · cases h
    split at h
    · cases h
    next hfresh =>
      split at h
      swap
      · cases h
      obtain ⟨rfl, rfl⟩ := Prod.mk.inj (Except.ok.inj h)
      refine ⟨hblob, fun other hother heq => hfresh ?_⟩
      simpa using ⟨other, hother, heq⟩

/-! ## The index table -/

/-- A private list whose indices into `known` can be relied on. -/
structure Keyed (known : List PublicIdentity) (owned : List (PrivateIdentity ssh)) : Prop where
  distinct : (known.map (·.publicBlob)).Nodup
  named : ∀ identity ∈ owned, ∃ named, known[identity.publicIndex]? = some named ∧
    ssh.blob identity.key = some named.publicBlob

namespace Keyed

variable {known : List PublicIdentity} {owned : List (PrivateIdentity ssh)}

theorem nil (hdistinct : (known.map (·.publicBlob)).Nodup) :
    Keyed known ([] : List (PrivateIdentity ssh)) :=
  ⟨hdistinct, by simp⟩

/-- The lookup finds, without leaving the table, exactly the key a blob belongs to. -/
theorem findIdentity_ok (hk : Keyed known owned) (blob : Bytes) :
    ∃ found, KeyStore.findIdentity known blob owned = .ok found ∧
      (∀ identity, found = some identity →
        identity ∈ owned ∧ ssh.blob identity.key = some blob) ∧
      (found = none → ∀ identity ∈ owned, ssh.blob identity.key ≠ some blob) := by
  obtain ⟨hdistinct, hnamed⟩ := hk
  induction owned with
  | nil => exact ⟨none, rfl, by simp, by simp⟩
  | cons identity rest ih =>
    obtain ⟨named, hget, hblob⟩ := hnamed identity (List.mem_cons_self ..)
    by_cases heq : named.publicBlob = blob
    · refine ⟨some identity, by simp [KeyStore.findIdentity, hget, heq], ?_, by simp⟩
      rintro _ ⟨rfl⟩
      exact ⟨List.mem_cons_self .., heq ▸ hblob⟩
    · obtain ⟨found, hfound, hsome, hnone⟩ :=
        ih fun i hi => hnamed i (List.mem_cons_of_mem _ hi)
      refine ⟨found, by simp [KeyStore.findIdentity, hget, heq, hfound], ?_, ?_⟩
      · intro i hi
        obtain ⟨hmem, hb⟩ := hsome i hi
        exact ⟨List.mem_cons_of_mem _ hmem, hb⟩
      · intro hn i hi
        rcases List.mem_cons.mp hi with rfl | hi
        · rw [hblob]
          exact fun h => heq (Option.some.inj h)
        · exact hnone hn i hi

/-- A vetted identity extends both lists. -/
theorem push (hk : Keyed known owned) {identity : PublicIdentity} {key : ssh.PrivateKey}
    (hblob : ssh.blob key = some identity.publicBlob)
    (hfresh : ∀ other ∈ known, other.publicBlob ≠ identity.publicBlob) :
    Keyed (known ++ [identity]) (owned ++ [⟨key, known.length⟩]) where
  distinct := by
    rw [List.map_append, List.nodup_append]
    refine ⟨hk.distinct, by simp, ?_⟩
    intro blob hmem blob' hmem' heq
    obtain ⟨other, hother, rfl⟩ := List.mem_map.mp hmem
    obtain rfl : blob' = identity.publicBlob := by simpa using hmem'
    exact hfresh other hother heq
  named := by
    intro i hi
    rcases List.mem_append.mp hi with hi | hi
    · -- Old indices still point into the old part of the list.
      obtain ⟨named, hget, hb⟩ := hk.named i hi
      exact ⟨named, by rw [List.getElem?_append_left (List.getElem?_eq_some_iff.mp hget).1, hget],
        hb⟩
    · obtain rfl := List.mem_singleton.mp hi
      exact ⟨identity, by simp, hblob⟩

end Keyed

/-! ## Candidates -/

structure CandidateLoad.WF (load : CandidateLoad ssh) : Prop where
  keyed : Keyed load.publicIdentities load.privateIdentities
  length_le_seen : load.publicIdentities.length ≤ load.seenItems
  length_le_max : load.publicIdentities.length ≤ maxKeys

theorem CandidateLoad.WF.empty (epoch : Nat) :
    (⟨epoch, 0, false, [], [], []⟩ : CandidateLoad ssh).WF :=
  ⟨.nil (by simp), by simp, by simp⟩

/-- `add` leaves a candidate's epoch alone, and either its lists too or adds one identity. -/
theorem CandidateLoad.add_cases (load : CandidateLoad ssh) (item : CandidateItem) :
    (load.add item).2.epoch = load.epoch ∧
    (load.add item).2.seenItems = Words.saturatingAdd load.seenItems 1 ∧
    (((load.add item).2.publicIdentities = load.publicIdentities ∧
        (load.add item).2.privateIdentities = load.privateIdentities) ∨
      ∃ identity key, ssh.blob key = some identity.publicBlob ∧
        (∀ other ∈ load.publicIdentities, other.publicBlob ≠ identity.publicBlob) ∧
        Words.saturatingAdd load.seenItems 1 ≤ maxKeys ∧
        (load.add item).2.publicIdentities = load.publicIdentities ++ [identity] ∧
        (load.add item).2.privateIdentities =
          load.privateIdentities ++ [⟨key, load.publicIdentities.length⟩]) := by
  unfold add
  simp only
  split
  · exact ⟨rfl, rfl, .inl ⟨rfl, rfl⟩⟩
  next hseen =>
  split
  · exact ⟨rfl, rfl, .inl ⟨rfl, rfl⟩⟩
  split
  · exact ⟨rfl, rfl, .inl ⟨rfl, rfl⟩⟩
  split
  · exact ⟨rfl, rfl, .inl ⟨rfl, rfl⟩⟩
  · next identity key hvet =>
    obtain ⟨hblob, hfresh⟩ := vet_ok hvet
    exact ⟨rfl, rfl, .inr ⟨identity, key, hblob, hfresh, by omega, rfl, rfl⟩⟩

theorem CandidateLoad.WF.add {load : CandidateLoad ssh} (h : load.WF) (item : CandidateItem) :
    (load.add item).2.WF := by
  obtain ⟨-, hseen, ⟨hpub, hpriv⟩ | ⟨identity, key, hblob, hfresh, hmax, hpub, hpriv⟩⟩ :=
    load.add_cases item
  · have hlen := h.length_le_seen
    have hmax := h.length_le_max
    constructor
    · rw [hpub, hpriv]
      exact h.keyed
    · rw [hpub, hseen, Words.saturatingAdd, Words.u64Max]
      unfold maxKeys at hmax
      omega
    · rw [hpub]
      exact hmax
  · have hlen := h.length_le_seen
    constructor
    · rw [hpub, hpriv]
      exact h.keyed.push hblob hfresh
    · rw [hpub, hseen, List.length_append, List.length_singleton]
      unfold Words.saturatingAdd Words.u64Max maxKeys at *
      omega
    · rw [hpub, List.length_append, List.length_singleton]
      unfold Words.saturatingAdd Words.u64Max maxKeys at *
      omega

/-! ## The store

`beginLoad_cases` and `publish_cases` say once what the two fallible operations can do; every
fact about them below is read off these. -/

namespace KeyStore

theorem beginLoad_cases (store : KeyStore ssh) (epoch filteredBytes : Nat) :
    (epoch ≤ store.epoch ∧ store.beginLoad epoch filteredBytes = (.error .staleEpoch, store)) ∨
    (store.epoch < epoch ∧
      (store.beginLoad epoch filteredBytes).2 = ⟨⟨epoch, .loading⟩, store.publicIdentities, []⟩ ∧
      ((store.beginLoad epoch filteredBytes).1 = .error .filteredPayloadTooLarge ∨
        (store.beginLoad epoch filteredBytes).1 = .ok ⟨epoch, 0, false, [], [], []⟩)) := by
  unfold beginLoad StateTracker.beginLoad KeyStore.epoch
  by_cases hle : epoch ≤ store.state.epoch
  · exact .inl ⟨hle, by simp [hle]⟩
  · refine .inr ⟨by omega, ?_⟩
    by_cases hbig : maxFilteredBytes < filteredBytes
    · simp [hle, hbig]
    · simp [hle, hbig]

theorem publish_cases (store : KeyStore ssh) (load : CandidateLoad ssh) :
    ((∃ error, store.publish load = (.error error, store))) ∨
    (load.failed = false ∧ store.epoch = load.epoch ∧ store.state.state = .loading ∧
      store.publish load = (.ok ⟨load.privateIdentities.length, load.skipped⟩,
        ⟨⟨load.epoch, .unlocked⟩, load.publicIdentities, load.privateIdentities⟩)) := by
  unfold publish StateTracker.publish KeyStore.epoch
  cases hfailed : load.failed with
  | true => exact .inl ⟨_, rfl⟩
  | false =>
    by_cases hstale : store.state.epoch ≠ load.epoch ∨ store.state.state ≠ .loading
    · exact .inl ⟨.staleEpoch, by simp [hstale]⟩
    · obtain ⟨hepoch, hstate⟩ : store.state.epoch = load.epoch ∧ store.state.state = .loading := by
        simpa using hstale
      exact .inr ⟨rfl, hepoch, hstate, by simp [hepoch, hstate]⟩

/-- The representation invariant. -/
structure WF (store : KeyStore ssh) : Prop where
  keyed : Keyed store.publicIdentities store.privateIdentities
  live : store.privateIdentities ≠ [] → store.state.state = .unlocked
  length_le_max : store.publicIdentities.length ≤ maxKeys

namespace WF

variable {store : KeyStore ssh}

theorem new : (KeyStore.new : KeyStore ssh).WF :=
  ⟨.nil (by simp [KeyStore.new]), by simp [KeyStore.new], by simp [KeyStore.new]⟩

theorem beginLoad (h : store.WF) (epoch filteredBytes : Nat) :
    (store.beginLoad epoch filteredBytes).2.WF := by
  rcases store.beginLoad_cases epoch filteredBytes with ⟨-, heq⟩ | ⟨-, heq, -⟩
  · rw [heq]
    exact h
  · rw [heq]
    exact ⟨.nil h.keyed.distinct, by simp, h.length_le_max⟩

theorem publish (h : store.WF) {load : CandidateLoad ssh} (hload : load.WF) :
    (store.publish load).2.WF := by
  rcases store.publish_cases load with ⟨_, heq⟩ | ⟨-, -, -, heq⟩
  · rw [heq]
    exact h
  · rw [heq]
    exact ⟨hload.keyed, fun _ => rfl, hload.length_le_max⟩

theorem lock (h : store.WF) (epoch : Nat) : (store.lock epoch).WF :=
  ⟨.nil h.keyed.distinct, by simp [KeyStore.lock], h.length_le_max⟩

theorem logout (epoch : Nat) : (store.logout epoch).WF :=
  ⟨.nil (by simp [KeyStore.logout]), by simp [KeyStore.logout], by simp [KeyStore.logout]⟩

/-- Authorizing never leaves the index table, and permits exactly the blobs of live keys. -/
theorem authorize_ok (h : store.WF) (blob : Bytes) :
    ∃ answer, store.authorize blob = .ok answer ∧
      ∀ permit, answer = some permit → permit = ⟨store.epoch, blob⟩ ∧
        store.state.state = .unlocked ∧
        ∃ identity ∈ store.privateIdentities, ssh.blob identity.key = some blob ∧
          KeyStore.findIdentity store.publicIdentities blob store.privateIdentities =
            .ok (some identity) := by
  unfold KeyStore.authorize
  split
  · exact ⟨none, rfl, by simp⟩
  next hallows =>
  obtain ⟨found, hfound, hsome, -⟩ := h.keyed.findIdentity_ok blob
  refine ⟨found.map fun _ => ⟨store.state.epoch, blob⟩, by rw [hfound]; rfl, ?_⟩
  intro permit hpermit
  obtain ⟨identity, rfl, rfl⟩ := Option.map_eq_some_iff.mp hpermit
  obtain ⟨hmem, hblob⟩ := hsome identity rfl
  have hstate : store.state.state = .unlocked := by
    simpa [StateTracker.allows] using hallows
  exact ⟨rfl, hstate, identity, hmem, hblob, hfound⟩

theorem sign_ok (h : store.WF) (permit : AuthorizationPermit) (message : Bytes) (flags : Nat) :
    ∃ answer, store.sign permit message flags = .ok answer := by
  unfold KeyStore.sign
  split
  · exact ⟨none, rfl⟩
  obtain ⟨found, hfound, -⟩ := h.keyed.findIdentity_ok permit.publicBlob
  exact ⟨_, by rw [hfound]; rfl⟩

end WF

end KeyStore

/-! ## Spent epochs -/

/-- No later state unlocks at `epoch`: it lies behind, or it is the current one and was left
other than by publishing into it. -/
def StateTracker.Spent (t : StateTracker) (epoch : Nat) : Prop :=
  epoch < t.epoch ∨ (t.epoch = epoch ∧ t.state ≠ .unlocked ∧ t.state ≠ .loading)

theorem StateTracker.Spent.not_allows {t : StateTracker} {epoch : Nat} (h : t.Spent epoch) :
    t.allows epoch = false := by
  rcases h with h | ⟨-, h, -⟩
  · simp [allows, show t.epoch ≠ epoch by omega]
  · simp [allows, h]

namespace KeyStore

variable {store : KeyStore ssh} {epoch : Nat}

theorem spent_lock (h : epoch ≤ store.epoch) (e : Nat) : (store.lock e).state.Spent epoch := by
  unfold StateTracker.Spent KeyStore.lock StateTracker.lock KeyStore.epoch at *
  rcases Nat.lt_or_ge epoch (max store.state.epoch e) with hlt | hge
  · exact .inl hlt
  · refine .inr ⟨?_, ?_⟩
    · simp only
      omega
    · simp only
      split <;> simp

theorem spent_logout (h : epoch ≤ store.epoch) (e : Nat) :
    (store.logout e).state.Spent epoch := by
  unfold StateTracker.Spent KeyStore.logout StateTracker.logout KeyStore.epoch at *
  rcases Nat.lt_or_ge epoch (max store.state.epoch e) with hlt | hge
  · exact .inl hlt
  · refine .inr ⟨?_, by simp⟩
    simp only
    omega

variable (h : store.state.Spent epoch)
include h

theorem Spent.beginLoad (e n : Nat) : (store.beginLoad e n).2.state.Spent epoch := by
  rcases store.beginLoad_cases e n with ⟨-, heq⟩ | ⟨hlt, heq, -⟩
  · rw [heq]
    exact h
  · rw [heq]
    rcases h with h | ⟨h, -⟩
    · exact .inl (Nat.lt_trans h hlt)
    · exact .inl (h ▸ hlt)

theorem Spent.publish (load : CandidateLoad ssh) : (store.publish load).2.state.Spent epoch := by
  rcases store.publish_cases load with ⟨_, heq⟩ | ⟨-, hepoch, hstate, heq⟩
  · rw [heq]
    exact h
  · rw [heq]
    rcases h with h | ⟨-, -, h⟩
    · exact .inl (Nat.lt_of_lt_of_eq h hepoch)
    · exact absurd hstate h

theorem le_epoch_of_spent : epoch ≤ store.epoch := by
  rcases h with h | ⟨h, -⟩
  · exact Nat.le_of_lt h
  · exact Nat.le_of_eq h.symm

end KeyStore

/-! ## Any interleaving of calls

Callers hold candidates by value, so several may be open at once; a `publish` consumes the one
it is given. -/

/-- A store and the candidates that have been begun on it and not been consumed. -/
structure Loads (ssh : Ssh) where
  store : KeyStore ssh
  candidates : List (CandidateLoad ssh)

inductive StoreOp where
  | beginLoad (epoch filteredBytes : Nat)
  | add (candidate : Nat) (item : CandidateItem)
  | publish (candidate : Nat)
  | lock (epoch : Nat)
  | logout (epoch : Nat)

namespace Loads

variable {w : Loads ssh}

def new : Loads ssh := ⟨.new, []⟩

def step (w : Loads ssh) : StoreOp → Loads ssh
  | .beginLoad epoch filteredBytes =>
    let begun := w.store.beginLoad epoch filteredBytes
    match begun.1 with
    | .ok candidate => ⟨begun.2, w.candidates ++ [candidate]⟩
    | .error _ => ⟨begun.2, w.candidates⟩
  | .add i item => ⟨w.store, w.candidates.modify i fun candidate => (candidate.add item).2⟩
  | .publish i =>
    match w.candidates[i]? with
    | none => w
    | some candidate => ⟨(w.store.publish candidate).2, w.candidates.eraseIdx i⟩
  | .lock epoch => ⟨w.store.lock epoch, w.candidates⟩
  | .logout epoch => ⟨w.store.logout epoch, w.candidates⟩

def run (w : Loads ssh) (ops : List StoreOp) : Loads ssh := ops.foldl step w

/-- The calls after which permits are void: a `begin_load` that succeeds, `lock`, `logout`. -/
def Voids (w : Loads ssh) : StoreOp → Prop
  | .beginLoad epoch filteredBytes => ∃ c, (w.store.beginLoad epoch filteredBytes).1 = .ok c
  | .lock _ | .logout _ => True
  | .add .. | .publish _ => False

/-- The store after one call is the store before it, or what one store operation made of it. -/
theorem step_store (w : Loads ssh) (op : StoreOp) :
    (w.step op).store = w.store ∨
    (∃ e n, (w.step op).store = (w.store.beginLoad e n).2) ∨
    (∃ load ∈ w.candidates, (w.step op).store = (w.store.publish load).2) ∨
    (∃ e, (w.step op).store = w.store.lock e) ∨ ∃ e, (w.step op).store = w.store.logout e := by
  cases op with
  | beginLoad e n =>
    refine .inr (.inl ⟨e, n, ?_⟩)
    simp only [step]
    split <;> rfl
  | add i item => exact .inl rfl
  | publish i =>
    simp only [step]
    split
    · exact .inl rfl
    · next load hget => exact .inr (.inr (.inl ⟨load, List.mem_of_getElem? hget, rfl⟩))
  | lock e => exact .inr (.inr (.inr (.inl ⟨e, rfl⟩)))
  | logout e => exact .inr (.inr (.inr (.inr ⟨e, rfl⟩)))

/-- Every open candidate after a call was open before it, has had an item added, or is new. -/
theorem mem_candidates_step {op : StoreOp} {c : CandidateLoad ssh}
    (hc : c ∈ (w.step op).candidates) :
    c ∈ w.candidates ∨ (∃ old ∈ w.candidates, ∃ item, c = (old.add item).2) ∨
      ∃ epoch, c = ⟨epoch, 0, false, [], [], []⟩ := by
  cases op with
  | beginLoad e n =>
    simp only [step] at hc
    split at hc
    · next new hnew =>
      rcases List.mem_append.mp hc with hc | hc
      · exact .inl hc
      · obtain rfl := List.mem_singleton.mp hc
        rcases w.store.beginLoad_cases e n with ⟨-, heq⟩ | ⟨-, -, heq | heq⟩
        · simp [heq] at hnew
        · simp [heq] at hnew
        · exact .inr (.inr ⟨e, Except.ok.inj (hnew.symm.trans heq)⟩)
    · exact .inl hc
  | add i item =>
    obtain ⟨j, hj⟩ := List.mem_iff_getElem?.mp hc
    simp only [step, List.getElem?_modify] at hj
    split at hj
    · obtain ⟨old, hold, rfl⟩ := Option.map_eq_some_iff.mp hj
      exact .inr (.inl ⟨old, List.mem_of_getElem? hold, item, rfl⟩)
    · obtain ⟨old, hold, rfl⟩ := Option.map_eq_some_iff.mp hj
      exact .inl (List.mem_of_getElem? hold)
  | publish i =>
    simp only [step] at hc
    split at hc
    · exact .inl hc
    · exact .inl (List.mem_of_mem_eraseIdx hc)
  | lock e | logout e => exact .inl hc

structure WF (w : Loads ssh) : Prop where
  store : w.store.WF
  candidates : ∀ c ∈ w.candidates, c.WF

theorem WF.step (h : w.WF) (op : StoreOp) : (w.step op).WF where
  store := by
    rcases w.step_store op with heq | ⟨e, n, heq⟩ | ⟨load, hload, heq⟩ | ⟨e, heq⟩ | ⟨e, heq⟩
    · exact heq ▸ h.store
    · exact heq ▸ h.store.beginLoad e n
    · exact heq ▸ h.store.publish (h.candidates load hload)
    · exact heq ▸ h.store.lock e
    · exact heq ▸ KeyStore.WF.logout e
  candidates := by
    intro c hc
    rcases mem_candidates_step hc with hc | ⟨old, hold, item, rfl⟩ | ⟨epoch, rfl⟩
    · exact h.candidates c hc
    · exact (h.candidates old hold).add item
    · exact .empty epoch

theorem WF.run (h : w.WF) (ops : List StoreOp) : (w.run ops).WF := by
  induction ops generalizing w with
  | nil => exact h
  | cons op ops ih => exact ih (h.step op)

theorem WF.new : (Loads.new : Loads ssh).WF := ⟨.new, by simp [Loads.new]⟩

theorem epoch_le_step (w : Loads ssh) (op : StoreOp) : w.store.epoch ≤ (w.step op).store.epoch := by
  rcases w.step_store op with heq | ⟨e, n, heq⟩ | ⟨load, -, heq⟩ | ⟨e, heq⟩ | ⟨e, heq⟩
  · rw [heq]
  · rcases w.store.beginLoad_cases e n with ⟨-, hb⟩ | ⟨hlt, hb, -⟩
    · rw [heq, hb]
    · rw [heq, hb]
      exact Nat.le_of_lt hlt
  · rcases w.store.publish_cases load with ⟨_, hp⟩ | ⟨-, hepoch, -, hp⟩
    · rw [heq, hp]
    · rw [heq, hp]
      exact Nat.le_of_eq hepoch
  · rw [heq]
    exact Nat.le_max_left ..
  · rw [heq]
    exact Nat.le_max_left ..

theorem epoch_le_run (w : Loads ssh) (ops : List StoreOp) :
    w.store.epoch ≤ (w.run ops).store.epoch := by
  induction ops generalizing w with
  | nil => exact Nat.le_refl _
  | cons op ops ih => exact Nat.le_trans (w.epoch_le_step op) (ih (w.step op))

theorem spent_step {epoch : Nat} (h : w.store.state.Spent epoch) (op : StoreOp) :
    (w.step op).store.state.Spent epoch := by
  have hle := KeyStore.le_epoch_of_spent h
  rcases w.step_store op with heq | ⟨e, n, heq⟩ | ⟨load, -, heq⟩ | ⟨e, heq⟩ | ⟨e, heq⟩
  · exact heq ▸ h
  · exact heq ▸ KeyStore.Spent.beginLoad h e n
  · exact heq ▸ KeyStore.Spent.publish h load
  · exact heq ▸ KeyStore.spent_lock hle e
  · exact heq ▸ KeyStore.spent_logout hle e

theorem spent_run {epoch : Nat} (h : w.store.state.Spent epoch) (ops : List StoreOp) :
    (w.run ops).store.state.Spent epoch := by
  induction ops generalizing w with
  | nil => exact h
  | cons op ops ih => exact ih (spent_step h op)

/-- A voiding call spends every epoch up to the current one. -/
theorem spent_of_voids {op : StoreOp} (hv : w.Voids op) {epoch : Nat}
    (hle : epoch ≤ w.store.epoch) : (w.step op).store.state.Spent epoch := by
  cases op with
  | beginLoad e n =>
    obtain ⟨c, hc⟩ := hv
    simp only [step, hc]
    rcases w.store.beginLoad_cases e n with ⟨-, hb⟩ | ⟨hlt, hb, -⟩
    · simp [hb] at hc
    · rw [hb]
      exact .inl (Nat.lt_of_le_of_lt hle hlt)
  | add | publish => exact hv.elim
  | lock e => exact KeyStore.spent_lock hle e
  | logout e => exact KeyStore.spent_logout hle e

theorem run_append (w : Loads ssh) (ops more : List StoreOp) :
    w.run (ops ++ more) = (w.run ops).run more := List.foldl_append

/-- The store and the open candidates after `ops`, on a fresh store. -/
def after (ops : List StoreOp) : Loads ssh := Loads.new.run ops

end Loads

/-- **The key store is sound under every interleaving.** Over any calls on a fresh store: the
epoch never decreases; a private set is live only while unlocked; public blobs are pairwise
distinct and every index names the blob of its own key, so neither lookup panics; a permit
signs with the key whose blob was authorized; and no permit signs again once a `begin_load` has
succeeded, or a lock or logout has happened, whatever comes after. -/
theorem keyStore_sound (ssh : Ssh) (ops : List StoreOp) :
    (∀ more, (Loads.after ops : Loads ssh).store.epoch ≤
      (Loads.after (ops ++ more) : Loads ssh).store.epoch) ∧
    ((Loads.after ops : Loads ssh).store.privateIdentities ≠ [] →
      (Loads.after ops : Loads ssh).store.state.state = .unlocked) ∧
    ((Loads.after ops : Loads ssh).store.publicIdentities.map (·.publicBlob)).Nodup ∧
    (∀ identity ∈ (Loads.after ops : Loads ssh).store.privateIdentities, ∃ named,
      (Loads.after ops : Loads ssh).store.publicIdentities[identity.publicIndex]? = some named ∧
      ssh.blob identity.key = some named.publicBlob) ∧
    (∀ blob, ∃ answer, (Loads.after ops : Loads ssh).store.authorize blob = .ok answer) ∧
    (∀ permit message flags, ∃ answer,
      (Loads.after ops : Loads ssh).store.sign permit message flags = .ok answer) ∧
    (∀ blob permit, (Loads.after ops : Loads ssh).store.authorize blob = .ok (some permit) →
      permit.publicBlob = blob ∧
      (∃ identity ∈ (Loads.after ops : Loads ssh).store.privateIdentities,
        ssh.blob identity.key = some blob ∧ ∀ message flags,
          (Loads.after ops : Loads ssh).store.sign permit message flags =
            .ok (signWith ssh identity.key message flags)) ∧
      ∀ more op rest, (Loads.after (ops ++ more) : Loads ssh).Voids op → ∀ message flags,
        (Loads.after (ops ++ more ++ op :: rest) : Loads ssh).store.sign permit message flags =
          .ok none) := by
  have hwf : (Loads.after ops : Loads ssh).WF := Loads.WF.new.run ops
  have hmono : ∀ more, (Loads.after ops : Loads ssh).store.epoch ≤
      (Loads.after (ops ++ more) : Loads ssh).store.epoch := by
    intro more
    simp only [Loads.after, Loads.run_append]
    exact Loads.epoch_le_run _ more
  refine ⟨hmono, hwf.store.live, hwf.store.keyed.distinct, hwf.store.keyed.named, ?_,
    hwf.store.sign_ok, ?_⟩
  · intro blob
    obtain ⟨answer, hanswer, -⟩ := hwf.store.authorize_ok blob
    exact ⟨answer, hanswer⟩
  intro blob permit hpermit
  obtain ⟨answer, hanswer, hsome⟩ := hwf.store.authorize_ok blob
  obtain ⟨rfl, hstate, identity, hmem, hblob, hfound⟩ :=
    hsome permit (Except.ok.inj (hanswer.symm.trans hpermit))
  refine ⟨rfl, ⟨identity, hmem, hblob, ?_⟩, ?_⟩
  · intro message flags
    simp [KeyStore.sign, StateTracker.allows, KeyStore.epoch, hstate, hfound, Except.map]
  · intro more op rest hvoids message flags
    -- The permit's epoch is spent by `op`, and stays spent through `rest`.
    have hspent : (Loads.after (ops ++ more ++ op :: rest) : Loads ssh).store.state.Spent
        (Loads.after ops : Loads ssh).store.epoch := by
      simp only [Loads.after] at hvoids ⊢
      rw [Loads.run_append]
      exact Loads.spent_run (Loads.spent_of_voids hvoids (hmono more)) rest
    unfold KeyStore.sign
    rw [hspent.not_allows]
    rfl

/-! ## A sample key

An Ed25519 key, its OpenSSH forms and one signature by it: `sampleSsh` answers on these what the
crates answer, and is used wherever an input is to be evaluated. -/

/-- Big-endian words of `size` bytes each. -/
def bytesOf (size : Nat) (words : List Nat) : Bytes :=
  words.flatMap fun word => (List.range size).reverse.map fun i => UInt8.ofNat (word >>> (8 * i))

/-- The key file, as bytes. -/
def samplePem : Bytes :=
  bytesOf 40
    [0x2d2d2d2d2d424547494e204f50454e5353482050524956415445204b45592d2d2d2d2d0a6233426c,
     0x626e4e7a614331725a586b74646a45414141414142473576626d554141414145626d39755a514141,
     0x4141414141414142414141414d7741414141747a633267745a570a51794e5455784f514141414343,
     0x6732724b38374a6579656d562b586574734c51496e6d7175686a546b544d304e6f30446d635a4247,
     0x76536741414149692f596f4a7376324b430a624141414141747a633267745a5751794e5455784f51,
     0x41414143436732724b38374a6579656d562b586574734c51496e6d7175686a546b544d304e6f3044,
     0x6d635a42477653670a4141414544662f68545453346b71784d536b5950614f644846545a43593661,
     0x2f516249572b436a462b52616230377871446173727a736c374a365a58356436327774416965610a,
     0x7136474e4f524d7a51326a514f5a786b4561394b4141414141414543417751460a2d2d2d2d2d454e] ++
    bytesOf 27 [0x44204f50454e5353482050524956415445204b45592d2d2d2d2d0a]

def samplePublicKey : String :=
  "ssh-ed25519 AAAAC3NzaC1lZDI1NTE5AAAAIKDasrzsl7J6ZX5d62wtAieaq6GNORMzQ2jQOZxkEa9K"

def sampleFingerprint : String := "SHA256:bdLQBsbCfXXKguMFMCF8+P6aS7FN+2eyImy0LSjnBmY"

def sampleBlob : Bytes :=
  bytesOf 40
    [0x0000000b7373682d6564323535313900000020a0dab2bcec97b27a657e5deb6c2d02279aaba18d39] ++
    bytesOf 11 [0x13334368d0399c6411af4a]

/-- `b"payload"`. -/
def sampleMessage : Bytes := [112, 97, 121, 108, 111, 97, 100]

def sampleSignature : Bytes :=
  bytesOf 40
    [0xdb6fd896ba389d13feb470fe6a14608d144f005d6a06f3bfb97699b6617ee76b5e01a51b2e8c788c] ++
    bytesOf 24 [0x6a0ad57b67cd740be7f98b68a5fb65e666e75ed90b62b305]

abbrev sampleSsh : Ssh where
  PrivateKey := Unit
  PublicKey := Unit
  RsaKeypair := Empty
  RsaPrivateKey := Empty
  Signature := Bytes
  fromOpenssh pem := if pem = samplePem then some () else none
  algorithm _ := .ed25519
  keyData _ := .ed25519
  publicKey _ := ()
  publicFromOpenssh text := if text = samplePublicKey then some () else none
  toBytes _ := some sampleBlob
  fingerprint _ := sampleFingerprint
  toOpenssh _ := some samplePublicKey
  fromComponents keypair := nomatch keypair
  size key := nomatch key
  trySign _ message := if message = sampleMessage then some sampleSignature else none
  pkcs1v15 _ key _ := nomatch key
  newRsaSignature _ bytes := some bytes
  -- string "ssh-ed25519", then the 64 bytes as a string
  signatureBytes signature := some (sampleBlob.take 15 ++ [0, 0, 0, 64] ++ signature)

def sampleItem : CandidateItem where
  itemId := "a"
  name := "Laptop"
  privateKeyPem := samplePem
  publicKey := samplePublicKey
  fingerprint := sampleFingerprint
  requiresReprompt := false

/-- A published key's permit signs, and a lock voids it for good. -/
theorem keyStore_sound_sample :
    (Loads.after [.beginLoad 1 700, .add 0 sampleItem, .publish 0] :
      Loads sampleSsh).store.authorize sampleBlob = .ok (some ⟨1, sampleBlob⟩) ∧
    (Loads.after [.beginLoad 1 700, .add 0 sampleItem, .publish 0] :
      Loads sampleSsh).store.privateIdentities ≠ [] ∧
    (Loads.after ([.beginLoad 1 700, .add 0 sampleItem, .publish 0] ++ [] ++
        [.lock 1, .beginLoad 2 700, .add 0 sampleItem, .publish 0]) :
      Loads sampleSsh).store.sign ⟨1, sampleBlob⟩ sampleMessage 0 = .ok none := by
  have hpermit : (Loads.after [.beginLoad 1 700, .add 0 sampleItem, .publish 0] :
      Loads sampleSsh).store.authorize sampleBlob = .ok (some ⟨1, sampleBlob⟩) := by
    decide +kernel
  obtain ⟨-, -, -, -, -, -, hsign⟩ := keyStore_sound sampleSsh
    [.beginLoad 1 700, .add 0 sampleItem, .publish 0]
  obtain ⟨-, ⟨identity, hmem, -⟩, hvoid⟩ := hsign sampleBlob ⟨1, sampleBlob⟩ hpermit
  exact ⟨hpermit, List.ne_nil_of_mem hmem, hvoid [] (.lock 1) _ trivial _ _⟩

end QsBitwarden.Agent
