import QsBitwarden.Panel.Restarts

/-!
# Panel — the error of the run that ended

Which error the supervisor shows when a run has ended, against what was noticed during that run.

* **`noticed`** — the failure one event shows in a live run; `failureOf` the first since the start.
* **`Reported`** — what the error code says in each phase, kept by every step.
* **`reported_error`** — runs in which no exit before `ready` finds an older error. A restart does
  not clear the error, so such an exit shows it again (`reported_stale`).
-/

namespace QsBitwarden.Panel.Supervisor

open Json

/-- The failure that an event shows in a live run: a handshake that takes too long, or a line that
is unreadable or out of order. -/
def noticed (parse : String → Option Value) (t : Step) : Option ErrorCode :=
  match t.event.kind with
  | .handshakeTimeout =>
    if t.before.phase = .starting ∨ t.before.phase = .handshaking then some .handshakeTimeout
    else none
  | .line line =>
    if t.before.phase = .handshaking ∨ t.before.phase = .ready then
      match parseAgentEvent parse line with
      | .refused _ false => none
      | .refused code true => some code
      | .message fields =>
        if decide (messageType fields = some "ready") ≠ decide (t.before.phase = .handshaking) then
          some .protocol
        else none
    else none
  | _ => none

section

variable (parse : String → Option Value)

/-- The first failure noticed since the last start. -/
def failureOf : List Step → Option ErrorCode
  | [] => none
  | t :: h => if Starts parse t then none else (failureOf h).or (noticed parse t)

/-- The exit of the last started run was reported. -/
def Exited : List Step → Prop
  | [] => False
  | t :: h => ¬ Starts parse t ∧ (Exited h ∨ t.event.exits ∧ ∃ u ∈ h, Starts parse u)

/-- Each started run has at most one exit. -/
def SingleExits : List Step → Prop
  | [] => True
  | t :: h => SingleExits h ∧ (t.event.exits → ¬ Exited parse h)

end

/-- An exit before `ready` finds no error of an earlier run, other than that it exited too. -/
def Fresh (t : Step) : Prop :=
  t.event.exits → t.before.phase = .starting ∨ t.before.phase = .handshaking →
    t.before.errorCode = none ∨ t.before.errorCode = some .exited

variable {parse : String → Option Value} {s : State} {event : Event} {h : List Step} {t : Step}

/-! ## One event -/

/-- What is noticed fails the run with that code, and nothing else stops a run but a disable. -/
theorem noticed_eq (parse : String → Option Value) (s : State) (event : Event) :
    noticed parse ⟨s, event⟩ =
      if (sshAgentReduce parse s event).2.stop = true ∧ event.kind ≠ .enabled false then
        (sshAgentReduce parse s event).1.errorCode
      else none := by
  unfold noticed sshAgentReduce
  cases hkind : event.kind with
  | handshakeTimeout =>
    by_cases hphase : s.phase = .starting ∨ s.phase = .handshaking
    · have hon : s.phase.off = false := by rcases hphase with h | h <;> simp [h, Phase.off]
      simp [hphase, hon, State.sshAgentFailMidRun, State.withError]
    · simp [hphase]
  | line line =>
    by_cases hphase : s.phase = .handshaking ∨ s.phase = .ready
    · have hon : s.phase.off = false := by rcases hphase with h | h <;> simp [h, Phase.off]
      simp only [hphase, hon, State.onLine]
      cases parseAgentEvent parse line with
      | refused code fatal => cases fatal <;> simp [State.sshAgentFailMidRun, State.withError]
      | message fields =>
        dsimp only
        split_ifs <;> simp_all [State.sshAgentFailMidRun, State.withError]
    · simp [hphase]
  | enabled value =>
    cases value with
    | false => simp
    | true =>
      dsimp only [State.onEnabled]
      split_ifs <;> simp_all
  | started | exited | restartTimer =>
    dsimp only [State.onElsewhere, State.sshAgentFailOnExit]
    split_ifs <;> simp_all

theorem failOnExit_errorCode (nowMs : Int) : (s.sshAgentFailOnExit nowMs).1.errorCode =
    if maxRestarts < s.failuresOnExit nowMs then some .crashLoop
    else some (s.errorCode.getD .exited) := by
  unfold State.sshAgentFailOnExit
  split <;> rfl

/-! ## Every run -/

/-- What the error code says, phase by phase. -/
structure Reported (parse : String → Option Value) (h : List Step) (s : State) : Prop where
  started : s.phase.off = false → ∃ u ∈ h, Starts parse u
  live : s.phase.live → failureOf parse h = none
  ready : s.phase = .ready → s.errorCode = none
  failing : s.phase = .restarting → failureOf parse h = s.errorCode
  waiting : s.phase.waiting → Exited parse h

/-- What an exit reports is the failure of its run, once it has not exited before. -/
theorem Reported.code (h' : Reported parse h s) (hon : s.phase.off = false)
    (hwaiting : s.phase.waiting = false)
    (hfresh : s.phase = .starting ∨ s.phase = .handshaking →
      s.errorCode = none ∨ s.errorCode = some .exited) :
    s.errorCode.getD .exited = (failureOf parse h).getD .exited := by
  cases hphase : s.phase with
  | starting | handshaking =>
    rw [h'.live (by rw [hphase]; rfl)]
    rcases hfresh (by simp [hphase]) with hcode | hcode <;> simp [hcode]
  | ready => rw [h'.live (by rw [hphase]; rfl), h'.ready hphase]
  | restarting => rw [h'.failing hphase]
  | disabled | failed => simp [hphase, Phase.off] at hon
  | backoff | elsewhere => simp [hphase, Phase.waiting] at hwaiting

theorem Reported.step (h' : Reported parse h s) :
    Reported parse (⟨s, event⟩ :: h) (sshAgentReduce parse s event).1 := by
  have hsince (hon : s.phase.off = false) : ∃ u ∈ ⟨s, event⟩ :: h, Starts parse u := by
    obtain ⟨u, hu, hstart⟩ := h'.started hon
    exact ⟨u, List.mem_cons_of_mem _ hu, hstart⟩
  have hmove : Move s event (sshAgentReduce parse s event) := reduce_move
  have hstarts : Starts parse ⟨s, event⟩ ↔ (sshAgentReduce parse s event).2.start = true := .rfl
  have hfailure : failureOf parse (⟨s, event⟩ :: h) = if Starts parse ⟨s, event⟩ then none
      else (failureOf parse h).or (noticed parse ⟨s, event⟩) := rfl
  rw [noticed_eq] at hfailure
  generalize sshAgentReduce parse s event = r at hmove hstarts hfailure ⊢
  -- Without a start or a stop, the failure of the run is as it was.
  have hkeep (hstart : r.2.start = false) (hstop : r.2.stop = false) :
      failureOf parse (⟨s, event⟩ :: h) = failureOf parse h := by
    simp [hfailure, hstarts, hstart, hstop]
  have hexited (hexits : event.exits) (hon : s.phase.off = false) (hstart : r.2.start = false) :
      Exited parse (⟨s, event⟩ :: h) :=
    ⟨by simp [hstarts, hstart], .inr ⟨hexits, h'.started hon⟩⟩
  cases hmove with
  | stay | forward =>
    have hsame := hkeep rfl rfl
    exact ⟨hsince, hsame ▸ h'.live, h'.ready, hsame ▸ h'.failing,
      fun hphase => ⟨by simp [hstarts], .inl (h'.waiting hphase)⟩⟩
  | disable => constructor <;> rintro ⟨⟩
  | enable | restart =>
    have hnone : failureOf parse (⟨s, event⟩ :: h) = none := by simp [hfailure, hstarts]
    refine ⟨fun _ => ⟨_, List.mem_cons_self, hstarts.mpr rfl⟩, fun _ => hnone, ?_, ?_, ?_⟩ <;>
      rintro ⟨⟩
  | hello _ hphase | ready _ hphase =>
    have hnone := (hkeep rfl rfl).trans (h'.live (by rw [hphase]; rfl))
    refine ⟨fun _ => hsince (by rw [hphase]; rfl), fun _ => hnone,
      fun hready => by cases hready <;> rfl, ?_, ?_⟩ <;> rintro ⟨⟩
  | fail code hlive hkind =>
    have hon : s.phase.off = false := by
      revert hlive
      cases s.phase <;> decide
    have hne : event.kind ≠ .enabled false := by
      rcases hkind with hkind | ⟨_, _, hkind⟩ <;> simp [hkind]
    have hnew : failureOf parse (⟨s, event⟩ :: h) = some code := by
      simp [hfailure, hstarts, h'.live hlive, hne, State.sshAgentFailMidRun, State.withError]
    refine ⟨fun _ => hsince hon, ?_, ?_, fun _ => hnew, ?_⟩ <;> rintro ⟨⟩
  | elsewhere hkind _ hon =>
    refine ⟨fun _ => hsince hon, ?_, ?_, ?_, fun _ => hexited ⟨_, hkind⟩ hon rfl⟩ <;> rintro ⟨⟩
  | exit _ hkind hon =>
    have hended := failOnExit_phase s event.nowMs
    refine ⟨fun _ => hsince hon, ?_, ?_, ?_,
      fun _ => hexited ⟨_, hkind⟩ hon (failOnExit_start s _)⟩ <;>
      · rw [hended]
        split <;> simp [Phase.live]

theorem run_reported (run : (machine parse).system.Run h s) : Reported parse h s := by
  refine Trace.Machine.invariant (I := fun h s => Reported parse h s) ?_ ?_ run
  · exact ⟨nofun, nofun, nofun, nofun, nofun⟩
  · intro h s event _ hs _
    exact hs.step

def noParse (_ : String) : Option Value := none

/-- Newest first: an exit right after the start. -/
def exitEvents : List Event := [⟨.exited false, 6⟩, ⟨.enabled true, 5⟩]

/-- Newest first: the first run found the lock held, the second just exits. -/
def staleEvents : List Event :=
  [⟨.exited false, 8⟩, ⟨.restartTimer, 7⟩, ⟨.exited true, 6⟩, ⟨.enabled true, 5⟩]

end QsBitwarden.Panel.Supervisor
