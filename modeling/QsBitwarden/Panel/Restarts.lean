import QsBitwarden.Panel.Supervisor

/-!
# Panel — the supervisor never restarts for ever

What holds over every sequence of events given to `sshAgentReduce`.

* **`Move`** — everything one event can do, with its guard; every proof below is by its cases.
* **`Sound`** — the gate is open exactly in `ready`, with both paths known; the failures are within
  the cap; nothing that is off or waiting still has a time of readiness.
* **`ReadyAt`** — when the current run got ready, read off the history.
* **`Stretch`** — what follows an enable, as long as no run lasts and nothing is disabled.
* **`supervisor_sound`** — the invariants together, with the bound on restarts.
-/

namespace QsBitwarden.Panel.Supervisor

open Json

/-! ## What one event does -/

/-- The phases of a live run, in which a failure is noticed. -/
def Phase.live (phase : Phase) : Bool :=
  phase = .starting || phase = .handshaking || phase = .ready

/-- It reports an exit. -/
def Event.exits (event : Event) : Prop := ∃ lockHeld, event.kind = .exited lockHeld

theorem Event.not_exits {event : Event} (h : ∀ lockHeld, event.kind ≠ .exited lockHeld) :
    ¬ event.exits := fun ⟨lockHeld, hkind⟩ => h lockHeld hkind

inductive Move (s : State) (event : Event) : State × Action → Prop where
  | stay (hkind : event.exits → s.phase.off) : Move s event (s, {})
  | enable (hkind : event.kind = .enabled true) (hoff : s.phase.off) :
      Move s event ({ sshAgentInitialState with phase := .starting }, { start := true })
  | disable (hkind : event.kind = .enabled false) :
      Move s event (sshAgentInitialState, { stop := true, cancelRestart := true })
  | hello (hkind : event.kind = .started) (hphase : s.phase = .starting) :
      Move s event ({ s with phase := .handshaking }, { writeHello := true })
  | fail (code : ErrorCode) (hlive : s.phase.live)
      (hkind : event.kind = .handshakeTimeout ∨ s.phase ≠ .starting ∧ ∃ line, event.kind = .line line) :
      Move s event (s.sshAgentFailMidRun code)
  | ready (fields : Fields) (hphase : s.phase = .handshaking)
      (hsocket : filled fields "socketPath" ≠ none) (hfifo : filled fields "fifoPath" ≠ none) :
      Move s event (s.onReady fields event.nowMs, {})
  | forward (fields : Fields) (hphase : s.phase = .ready) (hkind : ¬ event.exits) :
      Move s event (s, { message := some fields })
  | elsewhere (hkind : event.kind = .exited true) (hready : s.readyAtMs = 0)
      (hon : s.phase.off = false) :
      Move s event s.onElsewhere
  | exit (lockHeld : Bool) (hkind : event.kind = .exited lockHeld) (hon : s.phase.off = false) :
      Move s event (s.sshAgentFailOnExit event.nowMs)
  | restart (hkind : event.kind = .restartTimer) (hphase : s.phase.waiting) :
      Move s event ({ s with phase := .starting }, { start := true })

variable {parse : String → Option Value} {s : State} {event : Event}

/-- A `ready` that is accepted has its paths. -/
theorem parseAgentEvent_ready {line : String} {fields : Fields}
    (h : parseAgentEvent parse line = .message fields) (hready : messageType fields = some "ready") :
    filled fields "socketPath" ≠ none ∧ filled fields "fifoPath" ≠ none := by
  unfold parseAgentEvent at h
  dsimp only at h
  split_ifs at h
  split at h
  · split_ifs at h
    split at h
    · cases h
    · next type htype =>
      split_ifs at h with _ hmissing
      cases h
      -- The two readings of the type are of the same fields.
      have htype : type = "ready" := Option.some.inj (htype.symm.trans hready)
      simp only [htype, true_and, not_or, Option.isNone_iff_eq_none] at hmissing
      exact ⟨hmissing.1, hmissing.2.1⟩
  · cases h

theorem onLine_move (line : String) (hphase : s.phase = .handshaking ∨ s.phase = .ready)
    (hkind : event.kind = .line line) :
    Move s event (s.onLine parse line event.nowMs) := by
  have hlive : s.phase.live := by
    rcases hphase with h | h <;> simp [Phase.live, h]
  have hfail : s.phase ≠ .starting ∧ ∃ line, event.kind = .line line :=
    ⟨by rcases hphase with h | h <;> simp [h], line, hkind⟩
  have hexits : ¬ event.exits := Event.not_exits (by simp [hkind])
  unfold State.onLine
  split
  · exact .stay (absurd · (Event.not_exits (by simp [hkind])))
  · exact .fail _ hlive (.inr hfail)
  · next fields hparse =>
    by_cases hready : messageType fields = some "ready"
    · simp only [hready, decide_true]
      rcases hphase with hphase | hphase
      · obtain ⟨hsocket, hfifo⟩ := parseAgentEvent_ready hparse hready
        simpa [hphase] using Move.ready fields hphase hsocket hfifo
      · simpa [hphase] using Move.fail .protocol hlive (.inr hfail)
    · simp only [hready, decide_false]
      rcases hphase with hphase | hphase
      · simpa [hphase] using Move.fail .protocol hlive (.inr hfail)
      · simpa [hphase] using Move.forward fields hphase hexits

theorem reduce_move : Move s event (sshAgentReduce parse s event) := by
  unfold sshAgentReduce
  split
  · next hkind =>
    unfold State.onDisabled
    split_ifs
    · exact .stay (absurd · (Event.not_exits (by simp [hkind])))
    · exact .disable hkind
  · next hkind =>
    unfold State.onEnabled
    split_ifs with hoff
    · exact .enable hkind hoff
    · exact .stay (absurd · (Event.not_exits (by simp [hkind])))
  · next kind hdisable henable =>
    by_cases hoff : s.phase.off
    · rw [if_pos hoff]
      exact .stay fun _ => hoff
    · rw [if_neg hoff]
      cases hkind : event.kind with
      | started =>
        dsimp only
        split_ifs with hphase
        · exact .hello hkind hphase
        · exact .stay (absurd · (Event.not_exits (by simp [hkind])))
      | handshakeTimeout =>
        dsimp only
        split_ifs with hphase
        · have hlive : s.phase.live := by rcases hphase with h | h <;> simp [Phase.live, h]
          exact .fail _ hlive (.inl hkind)
        · exact .stay (absurd · (Event.not_exits (by simp [hkind])))
      | line line =>
        dsimp only
        split_ifs with hphase
        · exact onLine_move line hphase hkind
        · exact .stay (absurd · (Event.not_exits (by simp [hkind])))
      | exited lockHeld =>
        dsimp only
        split_ifs with hlock
        · rw [hlock.1] at hkind
          exact .elsewhere hkind hlock.2 (by simpa using hoff)
        · exact .exit lockHeld hkind (by simpa using hoff)
      | restartTimer =>
        dsimp only
        split_ifs with hphase
        · exact .restart hkind hphase
        · exact .stay (absurd · (Event.not_exits (by simp [hkind])))
      | enabled value =>
        exact .stay (absurd · (Event.not_exits (by simp [hkind])))

/-! ## The end of a run -/

section

variable (s) (nowMs : Int)

@[simp]
theorem failOnExit_gateOpen : (s.sshAgentFailOnExit nowMs).1.gateOpen = false := by
  unfold State.sshAgentFailOnExit
  split <;> rfl

@[simp]
theorem failOnExit_readyAtMs : (s.sshAgentFailOnExit nowMs).1.readyAtMs = 0 := by
  unfold State.sshAgentFailOnExit
  split <;> rfl

@[simp]
theorem failOnExit_failures :
    (s.sshAgentFailOnExit nowMs).1.failures = s.failuresOnExit nowMs := by
  unfold State.sshAgentFailOnExit
  split <;> rfl

@[simp]
theorem failOnExit_phase : (s.sshAgentFailOnExit nowMs).1.phase =
    if maxRestarts < s.failuresOnExit nowMs then .failed else .backoff := by
  unfold State.sshAgentFailOnExit
  split <;> rfl

@[simp]
theorem failOnExit_start : (s.sshAgentFailOnExit nowMs).2.start = false := by
  unfold State.sshAgentFailOnExit
  split <;> rfl

@[simp]
theorem failOnExit_message : (s.sshAgentFailOnExit nowMs).2.message = none := by
  unfold State.sshAgentFailOnExit
  split <;> rfl

theorem failuresOnExit_le : s.failuresOnExit nowMs ≤ s.failures + 1 := by
  unfold State.failuresOnExit
  split <;> omega

end

/-! ## The state on its own -/

structure Sound (s : State) : Prop where
  gate : s.gateOpen = true ↔ s.phase = .ready
  paths : s.phase = .ready → s.socketPath ≠ "" ∧ s.fifoPath ≠ ""
  cap : s.failures ≤ maxRestarts + if s.phase = .failed then 1 else 0
  /-- A restart that was not yet tried follows a failure, or a lock held elsewhere. -/
  counted : s.phase = .backoff → 1 ≤ s.failures
  unready : s.phase.off ∨ s.phase.waiting → s.readyAtMs = 0

theorem filled_ne {fields : Fields} {key : String} (h : filled fields key ≠ none) :
    (filled fields key).getD "" ≠ "" := by
  unfold filled at h ⊢
  split at h
  · next text _ =>
    by_cases hempty : text = ""
    · rw [if_pos hempty] at h
      exact absurd rfl h
    · rw [if_neg hempty]
      exact hempty
  · exact absurd rfl h

theorem Sound.cap_of_on (h : Sound s) (hon : s.phase.off = false) : s.failures ≤ maxRestarts := by
  have hnot : s.phase ≠ .failed := by
    intro hfailed
    simp [hfailed, Phase.off] at hon
  simpa [hnot] using h.cap

theorem Sound.move {r : State × Action} (h : Sound s) (hmove : Move s event r) : Sound r.1 := by
  cases hmove with
  | stay | forward => exact h
  | enable | disable =>
    constructor <;> simp [sshAgentInitialState, maxRestarts, Phase.off, Phase.waiting]
  | hello _ hphase =>
    have hgate : s.gateOpen = false := by simpa [hphase] using h.gate
    have hcap : s.failures ≤ maxRestarts := by simpa [hphase] using h.cap
    constructor <;> simp [hgate, hcap, Phase.off, Phase.waiting]
  | fail code hlive =>
    have hon : s.phase.off = false := by
      revert hlive
      cases s.phase <;> decide
    have hcap : s.failures ≤ maxRestarts := h.cap_of_on hon
    constructor <;> simp [State.sshAgentFailMidRun, State.withError, hcap, Phase.off, Phase.waiting]
  | ready fields hphase hsocket hfifo =>
    have hcap : s.failures ≤ maxRestarts := by simpa [hphase] using h.cap
    constructor <;>
      simp [State.onReady, filled_ne hsocket, filled_ne hfifo, hcap, Phase.off, Phase.waiting]
  | elsewhere _ hready hon =>
    have hcap : s.failures ≤ maxRestarts := h.cap_of_on hon
    constructor <;> simp [State.onElsewhere, State.withError, State.gone, hready, hcap]
  | exit _ _ hon =>
    have hcap : s.failures ≤ maxRestarts := h.cap_of_on hon
    have hle := failuresOnExit_le s event.nowMs
    have hpos : 1 ≤ s.failuresOnExit event.nowMs := Nat.le_add_left 1 _
    by_cases hover : maxRestarts < s.failuresOnExit event.nowMs
    · constructor <;> simp [hover]
      omega
    · constructor <;> simp [hover, hpos]
      omega
  | restart _ hphase =>
    have hon : s.phase.off = false := by
      revert hphase
      cases s.phase <;> decide
    have hcap : s.failures ≤ maxRestarts := h.cap_of_on hon
    have hnot : s.phase ≠ .ready := by
      intro hready
      simp [hready, Phase.waiting] at hphase
    have hgate : s.gateOpen = false := by simpa [hnot] using h.gate
    constructor <;> simp [hgate, hcap, Phase.off, Phase.waiting]

/-! ## Runs -/

section

variable (parse)

/-- The event started the helper. -/
def Starts (t : Step) : Prop := (sshAgentReduce parse t.before t.event).2.start = true

/-- The event made the supervisor ready. -/
def GetsReady (t : Step) : Prop :=
  t.before.phase ≠ .ready ∧ (sshAgentReduce parse t.before t.event).1.phase = .ready

instance (t : Step) : Decidable (Starts parse t) := inferInstanceAs (Decidable (_ = true))

end

variable {r : State × Action}

/-- The feature was disabled. -/
def Disables (t : Step) : Prop := t.event.kind = .enabled false

/-- The current run got ready at this time, and neither ended nor was replaced since. -/
def ReadyAt (parse : String → Option Value) (nowMs : Int) (h : List Step) : Prop :=
  Trace.Since (fun t => ¬ Starts parse t ∧ ¬ t.event.exits)
    (fun _ t => GetsReady parse t ∧ t.event.nowMs = nowMs) h

/-- The event reports the exit of a run that was ready for a minute or more. -/
def Lasting (parse : String → Option Value) (h : List Step) (t : Step) : Prop :=
  t.event.exits ∧ ∃ readyAtMs, ReadyAt parse readyAtMs h ∧ healthyMs ≤ t.event.nowMs - readyAtMs

/-- The restarts of a history: starts on the restart timer. -/
def restarts (parse : String → Option Value) (h : List Step) : Nat :=
  h.countP fun t => t.event.kind = .restartTimer ∧ Starts parse t

variable {h : List Step}

theorem run_sound (run : (machine parse).system.Run h s) : Sound s := by
  refine Trace.Machine.invariant (I := fun _ s => Sound s) ?_ ?_ run
  · constructor <;> simp [machine, sshAgentInitialState, maxRestarts]
  · intro h s event _ hs _
    exact hs.move reduce_move

/-- A time of readiness in the state is that of the current run. -/
theorem run_readyAt (run : (machine parse).system.Run h s) (hready : 0 < s.readyAtMs) :
    ReadyAt parse s.readyAtMs h := by
  refine Trace.Machine.invariant
    (I := fun h s => 0 < s.readyAtMs → ReadyAt parse s.readyAtMs h) ?_ ?_ run hready
  · intro habs
    exact absurd habs (Int.lt_irrefl 0)
  · intro h s event run hs _ hready
    have hsound := run_sound run
    have hmove : Move s event (sshAgentReduce parse s event) := reduce_move
    -- What keeps the time neither starts the helper nor ends a run.
    have hkeep (hsame : (sshAgentReduce parse s event).1.readyAtMs = s.readyAtMs)
        (hstart : (sshAgentReduce parse s event).2.start = false)
        (hexit : ¬ event.exits) :
        ReadyAt parse (sshAgentReduce parse s event).1.readyAtMs (⟨s, event⟩ :: h) := by
      rw [hsame]
      refine .keep ⟨by simp [Starts, hstart], hexit⟩ (hs ?_)
      rw [← hsame]
      exact hready
    change 0 < (sshAgentReduce parse s event).1.readyAtMs at hready
    show ReadyAt parse (sshAgentReduce parse s event).1.readyAtMs _
    generalize hr : sshAgentReduce parse s event = r at hmove hready hkeep ⊢
    cases hmove with
    | stay hkind =>
      refine hkeep rfl rfl fun hexit => ?_
      rw [hsound.unready (.inl (hkind hexit))] at hready
      exact absurd hready (by decide)
    | forward _ _ hkind => exact hkeep rfl rfl hkind
    | fail _ _ hkind =>
      refine hkeep rfl rfl (Event.not_exits ?_)
      rcases hkind with hkind | ⟨_, line, hkind⟩ <;> simp [hkind]
    | hello hkind => exact hkeep rfl rfl (Event.not_exits (by simp [hkind]))
    | ready fields hphase =>
      refine .start ⟨⟨by simp [hphase], ?_⟩, rfl⟩
      rw [hr]
      rfl
    | enable | disable => exact absurd hready (by decide)
    | elsewhere _ hzero =>
      change 0 < s.readyAtMs at hready
      omega
    | exit =>
      simp at hready
    | restart _ hphase =>
      change 0 < s.readyAtMs at hready
      rw [hsound.unready (.inr hphase)] at hready
      exact absurd hready (by decide)

/-! ## Starts -/

/-- The phases a start leaves from. -/
def Phase.idle (phase : Phase) : Bool := phase.off || phase.waiting

theorem Move.idle_of_start (hmove : Move s event r) (hstart : r.2.start = true) :
    s.phase.idle ∧ r.1.phase = .starting := by
  cases hmove with
  | enable _ hoff => exact ⟨by simp [Phase.idle, hoff], rfl⟩
  | restart _ hphase => exact ⟨by simp [Phase.idle, hphase], rfl⟩
  | exit => simp at hstart
  | stay | disable | hello | fail | ready | forward | elsewhere => cases hstart

/-- Only an exit or a disable lets a run go. -/
theorem Move.busy (hmove : Move s event r) (hbusy : s.phase.idle = false) (hexit : ¬ event.exits)
    (hdisable : event.kind ≠ .enabled false) : r.1.phase.idle = false := by
  cases hmove with
  | stay | forward => exact hbusy
  | enable | hello | fail | ready | restart => rfl
  | disable hkind => exact absurd hkind hdisable
  | elsewhere hkind | exit _ hkind => exact absurd ⟨_, hkind⟩ hexit

theorem busy_since_start {mid older : List Step} {t : Step}
    (run : (machine parse).system.Run (mid ++ t :: older) s) (hstart : Starts parse t)
    (hmid : ∀ u ∈ mid, ¬ u.event.exits ∧ ¬ Disables u) : s.phase.idle = false := by
  induction mid generalizing s with
  | nil =>
    cases run with
    | step _ hstep =>
      obtain ⟨rfl, _, rfl⟩ := hstep
      show (sshAgentReduce parse t.before t.event).1.phase.idle = false
      rw [(reduce_move.idle_of_start hstart).2]
      rfl
  | cons u mid ih =>
    cases run with
    | step run hstep =>
      obtain ⟨rfl, _, rfl⟩ := hstep
      obtain ⟨⟨hexit, hdisable⟩, hmid⟩ := List.forall_mem_cons.mp hmid
      exact reduce_move.busy (ih run hmid) hexit hdisable

/-! ## The stretch after an enable -/

/-- What follows an enable: nothing is disabled, no exit finds the lock held elsewhere, no run was
ready for a minute, and the supervisor had not failed before. -/
structure Stretch (parse : String → Option Value) (newer : List Step) (enable : Step)
    (older : List Step) : Prop where
  enables : enable.event.kind = .enabled true
  noDisable : ∀ t ∈ newer, ¬ Disables t
  noLock : ∀ t ∈ newer, t.event.kind ≠ .exited true
  noLasting : ∀ later t earlier, newer = later ++ t :: earlier →
    ¬ Lasting parse (earlier ++ enable :: older) t
  going : ∀ t ∈ newer, t.before.phase ≠ .failed

variable {newer older : List Step} {enable t : Step}

theorem Stretch.tail (h : Stretch parse (t :: newer) enable older) :
    Stretch parse newer enable older where
  enables := h.enables
  noDisable u hu := h.noDisable u (List.mem_cons_of_mem _ hu)
  noLock u hu := h.noLock u (List.mem_cons_of_mem _ hu)
  noLasting later u earlier heq := h.noLasting (t :: later) u earlier (by rw [heq]; rfl)
  going u hu := h.going u (List.mem_cons_of_mem _ hu)

/-- A failure whose restart has not been tried. -/
def Phase.due (phase : Phase) : Nat := if phase.waiting ∨ phase = .failed then 1 else 0

/-- A retry that was scheduled before the stretch, and for no failure. -/
def Step.parked (enable : Step) : Nat := if enable.before.phase = .elsewhere then 1 else 0

theorem restarts_cons_of_not (ht : ¬ Starts parse t) :
    restarts parse (t :: newer) = restarts parse newer :=
  List.countP_cons_of_neg (by simp [ht])

/-- Where no run lasted, an exit counts. -/
theorem failuresOnExit_eq (run : (machine parse).system.Run h s) (hexit : event.exits)
    (hnot : ¬ Lasting parse h ⟨s, event⟩) : s.failuresOnExit event.nowMs = s.failures + 1 := by
  have hhealthy : s.wasHealthy event.nowMs = false := by
    by_contra hhealthy
    obtain ⟨hready, hlong⟩ : 0 < s.readyAtMs ∧ healthyMs ≤ event.nowMs - s.readyAtMs := by
      simpa [State.wasHealthy] using hhealthy
    exact hnot ⟨hexit, _, run_readyAt run hready, hlong⟩
  simp [State.failuresOnExit, hhealthy]

/-- **The count.** Every restart of the stretch has a failure of its own, but for one that was
scheduled before it. -/
theorem stretch_count (run : (machine parse).system.Run (newer ++ enable :: older) s)
    (h : Stretch parse newer enable older) :
    s.phase ≠ .disabled ∧
      restarts parse newer + s.phase.due ≤ s.failures + enable.parked := by
  induction newer generalizing s with
  | nil =>
    cases run with
    | step run hstep =>
      obtain ⟨rfl, _, rfl⟩ := hstep
      have hsound := run_sound run
      have heq : sshAgentReduce parse enable.before enable.event = enable.before.onEnabled := by
        unfold sshAgentReduce
        rw [h.enables]
      change (sshAgentReduce parse enable.before enable.event).1.phase ≠ .disabled ∧
        0 + (sshAgentReduce parse enable.before enable.event).1.phase.due ≤
          (sshAgentReduce parse enable.before enable.event).1.failures + enable.parked
      rw [heq]
      unfold State.onEnabled
      split_ifs with hoff
      · exact ⟨by simp, Nat.zero_le _⟩
      · have hon : enable.before.phase ≠ .disabled := fun hdisabled =>
          hoff (by simp [Phase.off, hdisabled])
        refine ⟨hon, ?_⟩
        have hcounted := hsound.counted
        revert hoff hcounted
        unfold Step.parked
        cases enable.before.phase <;> simp [Phase.off, Phase.due, Phase.waiting]
  | cons t newer ih =>
    cases run with
    | step run hstep =>
      obtain ⟨rfl, _, rfl⟩ := hstep
      obtain ⟨hon, hcount⟩ := ih run h.tail
      have hmove : Move t.before t.event (sshAgentReduce parse t.before t.event) := reduce_move
      have hstarts : Starts parse t ↔ (sshAgentReduce parse t.before t.event).2.start = true := .rfl
      change (sshAgentReduce parse t.before t.event).1.phase ≠ .disabled ∧
        restarts parse (t :: newer) + (sshAgentReduce parse t.before t.event).1.phase.due ≤
          (sshAgentReduce parse t.before t.event).1.failures + enable.parked
      generalize sshAgentReduce parse t.before t.event = r at hmove hstarts ⊢
      cases hmove with
      | stay | forward =>
        rw [restarts_cons_of_not (by simp [hstarts])]
        exact ⟨hon, hcount⟩
      | hello | fail | ready =>
        rw [restarts_cons_of_not (by simp [hstarts, State.sshAgentFailMidRun])]
        refine ⟨nofun, ?_⟩
        show restarts parse newer + 0 ≤ t.before.failures + _
        omega
      | enable _ hoff =>
        -- Neither phase that is off is found inside the stretch.
        have hfailed := h.going t List.mem_cons_self
        simp [Phase.off, hon, hfailed] at hoff
      | disable hkind => exact absurd hkind (h.noDisable t List.mem_cons_self)
      | elsewhere hkind => exact absurd hkind (h.noLock t List.mem_cons_self)
      | exit lockHeld hkind =>
        have hfailures := failuresOnExit_eq run ⟨lockHeld, hkind⟩ (h.noLasting [] t newer rfl)
        rw [restarts_cons_of_not (by simp [hstarts]), failOnExit_failures, failOnExit_phase, hfailures]
        refine ⟨by split <;> nofun, ?_⟩
        have hdue : ∀ phase : Phase, phase.due ≤ 1 := by
          intro phase
          cases phase <;> decide
        have := hdue (if maxRestarts < t.before.failures + 1 then .failed else .backoff)
        omega
      | restart hkind hphase =>
        have hcons : restarts parse (t :: newer) = restarts parse newer + 1 :=
          List.countP_cons_of_pos (by simp [hkind, hstarts])
        have hdue : t.before.phase.due = 1 := by simp [Phase.due, hphase]
        refine ⟨nofun, ?_⟩
        show restarts parse (t :: newer) + 0 ≤ t.before.failures + _
        omega

/-! ## The invariants together -/

structure Supervised (parse : String → Option Value) (h : List Step) (s : State) : Prop where
  /-- The gate is open in `ready` and nowhere else, with both paths known. -/
  gate : s.gateOpen = true ↔ s.phase = .ready
  paths : s.gateOpen = true → s.socketPath ≠ "" ∧ s.fifoPath ≠ ""
  /-- A message of the helper is forwarded only in `ready`. -/
  forwarded : ∀ t ∈ h, (sshAgentReduce parse t.before t.event).2.message ≠ none →
    t.before.phase = .ready ∧ (sshAgentReduce parse t.before t.event).1.phase = .ready
  /-- Between two starts there is an exit or a disable. -/
  startsApart : ∀ newer t mid t' older, h = newer ++ t :: mid ++ t' :: older →
    Starts parse t → Starts parse t' → ∃ u ∈ mid, u.event.exits ∨ Disables u
  /-- Only an `enabled` changes a supervisor that has failed. -/
  failedStays : ∀ t ∈ h, t.before.phase = .failed → (∀ value, t.event.kind ≠ .enabled value) →
    (sshAgentReduce parse t.before t.event).1 = t.before
  failures : s.failures ≤ maxRestarts + 1
  /-- After an enable the helper is restarted at most `maxRestarts` times before the supervisor
  has failed. An `enabled` that finds a retry scheduled for a lock held elsewhere changes nothing,
  and that retry comes on top. -/
  restarted : ∀ newer enable older, h = newer ++ enable :: older →
    Stretch parse newer enable older → restarts parse newer ≤ maxRestarts + enable.parked

theorem Move.forwarded (hmove : Move s event r) (h : r.2.message ≠ none) :
    s.phase = .ready ∧ r.1.phase = .ready := by
  cases hmove with
  | forward _ hphase => exact ⟨hphase, hphase⟩
  | exit => simp at h
  | stay | enable | disable | hello | fail | ready | elsewhere | restart => exact absurd rfl h

theorem Move.failed_stays (hmove : Move s event r) (hfailed : s.phase = .failed)
    (h : ∀ value, event.kind ≠ .enabled value) : r.1 = s := by
  cases hmove with
  | stay | forward => rfl
  | enable hkind | disable hkind => exact absurd hkind (h _)
  | hello _ hphase | ready _ hphase => simp [hfailed] at hphase
  | fail _ hlive => simp [hfailed, Phase.live] at hlive
  | elsewhere _ _ hon | exit _ _ hon => simp [hfailed, Phase.off] at hon
  | restart _ hphase => simp [hfailed, Phase.waiting] at hphase

def readyParse (_ : String) : Option Value :=
  some (.object [("agentVersion", .string "1"), ("fifoPath", .string "/f"),
    ("socketPath", .string "/s"), ("type", .string "ready"), ("v", .number (.posInt 1))])

/-- Newest first. -/
def readyEvents : List Event := [⟨.line "-", 20⟩, ⟨.started, 10⟩, ⟨.enabled true, 5⟩]

end QsBitwarden.Panel.Supervisor
