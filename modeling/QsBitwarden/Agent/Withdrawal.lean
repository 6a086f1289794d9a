import QsBitwarden.Agent.Burst
import QsBitwarden.Agent.Prompts

/-!
# Agent — no prompt outlives its request

* **`awaiting`** — the ids the panel has been asked about, has not answered and has not been told
  to forget, read off a run's messages.
* **`prompts_withdrawn`** — each is still stored, in every run in which no lock, logout or new load
  finds a request queued.
* **`lock_leaves_prompt`** — a lock does not say which requests it failed, and their prompts stay.
-/

namespace QsBitwarden.Agent

open SshWire

variable {env : Env} {ssh : Ssh}

/-- The ids announced to the panel that it has not answered and has not been told about since. -/
def awaiting (env : Env) : List (Turn env.ssh) → List Nat
  | [] => []
  | t :: h => (promptings (t.effects env)).foldl Prompting.update
      ((awaiting env h).filter fun id => t.input.answered ≠ some id)

def Announced (env : Env) (h : List (Turn env.ssh)) (id : Nat) : Prop :=
  ∃ t ∈ h, Prompting.raised id ∈ promptings (t.effects env)

theorem State.Stores.reordered {a b : State ssh} (h : Reordered a b) (id : Nat) :
    b.Stores id ↔ a.Stores id := by
  obtain ⟨hpending, hheld, hb⟩ := h
  have hwaiters : b.heldIdentities = a.heldIdentities := by rw [hb]
  unfold State.Stores
  rw [hwaiters, Table.mem_of_perm hpending, Table.mem_of_perm hheld]

/-- The iteration's view of the prompts, from the run before it. -/
theorem tracks_start {h : List (Turn env.ssh)} {t : Turn env.ssh} {a : State env.ssh}
    (hreordered : Reordered a t.before) (hkept : ∀ id ∈ awaiting env h, a.Stores id)
    (hannounced : ∀ id, a.Stores id → Announced env h id) :
    Tracks ((awaiting env h).filter fun id => t.input.answered ≠ some id) (Announced env h)
      t.start := by
  have hstores : ∀ id, t.start.Stores id ↔ a.Stores id := fun id =>
    (Iff.rfl : t.start.Stores id ↔ t.before.Stores id).trans (State.Stores.reordered hreordered id)
  constructor
  · intro id hid
    exact (hstores id).mpr (hkept id (List.mem_filter.mp hid).1)
  · intro id hid
    exact .inl (hannounced id ((hstores id).mp hid))

/-- While nothing drops the queue under a request, every prompt that is up is of a request the
agent still has, and every request it has was announced. -/
theorem prompts_withdrawn {h : List (Turn env.ssh)} {a : State env.ssh}
    (run : (system env).Run h (some a))
    (hcalm : ∀ t ∈ h, t.input.dropsQueue = true → t.before.pending = ∅) :
    (∀ id ∈ awaiting env h, a.Stores id) ∧ ∀ id, a.Stores id → Announced env h id := by
  refine run_invariant (I := fun h a =>
    (∀ t ∈ h, t.input.dropsQueue = true → t.before.pending = ∅) →
    (∀ id ∈ awaiting env h, a.Stores id) ∧ ∀ id, a.Stores id → Announced env h id) ?_ ?_ run a rfl
    hcalm
  · refine fun _ => ⟨fun id hid => absurd hid List.not_mem_nil, fun id hid => ?_⟩
    simp [State.Stores, State.new] at hid
  · intro h a t _ hreordered hcompletes ih hcalm
    obtain ⟨hhead, htail⟩ := List.forall_mem_cons.mp hcalm
    obtain ⟨hkept, hannounced⟩ := ih htail
    have heffects : t.effects env = (t.outcome env).2.log := performed_eq_self hcompletes.2
    have htracks := (tracks_start hreordered hkept hannounced).handle rfl
      (fun id hanswered hid => of_decide_eq_true (List.mem_filter.mp hid).2 hanswered) hhead
    constructor
    · intro id hid
      unfold awaiting at hid
      rw [heffects] at hid
      exact htracks.kept id hid
    · intro id hid
      rcases htracks.announced id hid with ⟨u, hu, hraised⟩ | hraised
      · exact ⟨u, List.mem_cons_of_mem t hu, hraised⟩
      · refine ⟨t, List.mem_cons_self .., ?_⟩
        rw [heffects]
        exact hraised

/-- The sample request is announced and waits. -/
theorem prompts_withdrawn_sample :
    awaiting sampleEnv (replay sampleEnv sampleEvents).1 = [1] ∧
    (replay sampleEnv sampleEvents).2.Stores 1 ∧
    Announced sampleEnv (replay sampleEnv sampleEvents).1 1 := by
  obtain ⟨hawaiting, hcalm⟩ : awaiting sampleEnv (replay sampleEnv sampleEvents).1 = [1] ∧
      (replay sampleEnv sampleEvents).1.all (fun t =>
        !t.input.dropsQueue || t.before.pending.entries.isEmpty) = true := by
    decide +kernel
  have hcalm : ∀ t ∈ (replay sampleEnv sampleEvents).1, t.input.dropsQueue = true →
      t.before.pending = ∅ := by
    intro t ht hdrops
    have hempty := List.all_eq_true.mp hcalm t ht
    rw [hdrops] at hempty
    exact AList.ext (List.isEmpty_iff.mp hempty)
  obtain ⟨hkept, hannounced⟩ := prompts_withdrawn (replay_run sampleEvents_playable) hcalm
  have hstores := hkept 1 (by rw [hawaiting]; exact List.mem_singleton_self 1)
  exact ⟨hawaiting, hstores, hannounced 1 hstores⟩

/-- The sample request, and then a lock. -/
def lockedEvents : List (Nat × Input) := (0, .control (.vaultLocked 1) true) :: sampleEvents

theorem lockedEvents_playable : Playable sampleEnv lockedEvents :=
  ⟨trivial, by decide +kernel, sampleEvents_playable⟩

/-- A lock fails the queued request. Its prompt stays: no message withdraws it. -/
theorem lock_leaves_prompt :
    (system sampleEnv).Run (replay sampleEnv lockedEvents).1
      (some (replay sampleEnv lockedEvents).2) ∧
    awaiting sampleEnv (replay sampleEnv lockedEvents).1 = [1] ∧
    ¬(replay sampleEnv lockedEvents).2.Stores 1 := by
  refine ⟨replay_run lockedEvents_playable, ?_⟩
  decide +kernel

end QsBitwarden.Agent
