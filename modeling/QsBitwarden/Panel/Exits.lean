import QsBitwarden.Panel.AgentProcess
import QsBitwarden.Panel.Restarts

/-!
# Panel — every end of a helper is charged to its own run

The processes, the probe and the timers around the supervisor.

* **`Accounted`** — the books over the log: each helper is launched once, ends at most once, and is
  reported once for its end, directly or by the probe; what it is written starts with `hello`.
* **`Good`** — with the books, what the supervisor's phase says about the processes.
* **`Calm`** — no enable starts a helper while a probe still runs for an earlier one, and no helper
  is stopped before its start was announced.
* **`exits_charged`** — over runs of calm steps; `exits_astray` shows what the other steps do.
-/

namespace QsBitwarden.Panel.AgentProcess

open Json Supervisor

/-! ## The log -/

/-- What a line of the log wrote to a helper. -/
def Signal.lineTo (run : Nat) : Signal → Option Line
  | .wrote helper line => if helper = run then some line else none
  | _ => none

def linesTo (run : Nat) (log : List Signal) : List Line := log.filterMap (Signal.lineTo run)

/-- `hello` exactly once, and before anything else. -/
def Greeted (lines : List Line) : Prop := ∃ n, lines = .hello :: List.replicate n .shutdown

variable {run run' : Nat} {log : List Signal}

theorem linesTo_concat (signal : Signal) :
    linesTo run (log ++ [signal]) = linesTo run log ++ (signal.lineTo run).toList := by
  rw [linesTo, List.filterMap_append]
  cases h : signal.lineTo run <;> simp [linesTo, h]

theorem Greeted.shutdown {lines : List Line} (h : Greeted lines) : Greeted (lines ++ [.shutdown]) := by
  obtain ⟨n, rfl⟩ := h
  exact ⟨n + 1, by rw [List.cons_append, List.replicate_succ']⟩

/-! ## The books -/

namespace Host

variable (s : Host)

/-- One if this helper runs. -/
def current (run : Nat) : Nat := if s.proc.map (·.run) = some run then 1 else 0

/-- One if the probe runs for the end of this helper. -/
def probing (run : Nat) : Nat := if s.probe = some run then 1 else 0

/-- Not launched yet, or its start not announced. -/
def Silent (run : Nat) : Prop := s.runs ≤ run ∨ s.proc = some ⟨run, false⟩

end Host

structure Accounted (log : List Signal) (s : Host) : Prop where
  launches : ∀ run, log.count (.launched run) = if run < s.runs then 1 else 0
  exits : ∀ run, log.count (.exited run) + s.current run = log.count (.launched run)
  reports : ∀ run, log.count (.reported run) + s.probing run = log.count (.exited run)
  silent : ∀ run, s.Silent run → linesTo run log = []
  greeted : ∀ run, ¬ s.Silent run → Greeted (linesTo run log)

namespace Accounted

variable {s s' : Host} {proc : Proc}

variable (h : Accounted log s)
include h

/-- Steps that touch neither the processes nor the log. -/
theorem same (hproc : s'.proc = s.proc) (hprobe : s'.probe = s.probe) (hruns : s'.runs = s.runs) :
    Accounted log s' := by
  obtain ⟨hlaunches, hexits, hreports, hsilent, hgreeted⟩ := h
  constructor
  · rwa [hruns]
  · intro run
    unfold Host.current
    rw [hproc]
    exact hexits run
  · intro run
    unfold Host.probing
    rw [hprobe]
    exact hreports run
  · intro run hrun
    refine hsilent run ?_
    unfold Host.Silent at hrun ⊢
    rwa [hruns, hproc] at hrun
  · intro run hrun
    refine hgreeted run fun hsilent => hrun ?_
    unfold Host.Silent at hsilent ⊢
    rwa [hruns, hproc]

/-- The helper that runs is one of those launched. -/
theorem run_lt (hproc : s.proc = some proc) : proc.run < s.runs := by
  have hlaunches := h.launches proc.run
  have hexits := h.exits proc.run
  simp only [Host.current, hproc, Option.map_some, if_true] at hexits
  by_contra hnot
  rw [if_neg hnot] at hlaunches
  omega

/-- One more signal. Each helper it launches runs, each that has ended is probed for or reported,
and a helper is written `hello` when it is announced and nothing before. -/
theorem step {signal : Signal}
    (hlaunches : ∀ run, (if run < s'.runs then 1 else 0) =
      (if run < s.runs then 1 else 0) + [signal].count (.launched run))
    (hexits : ∀ run, [signal].count (.exited run) + s'.current run =
      s.current run + [signal].count (.launched run))
    (hreports : ∀ run, [signal].count (.reported run) + s'.probing run =
      s.probing run + [signal].count (.exited run))
    (hsilent : ∀ run, s'.Silent run → s.Silent run ∧ signal.lineTo run = none)
    (hgreeted : ∀ run, ¬ s'.Silent run → ¬ s.Silent run ∧ signal.lineTo run ≠ some .hello ∨
      s.Silent run ∧ signal.lineTo run = some .hello) : Accounted (log ++ [signal]) s' := by
  constructor
  · intro run
    rw [List.count_append, h.launches, hlaunches]
  · intro run
    have hold := h.exits run
    have hnew := hexits run
    rw [List.count_append, List.count_append]
    omega
  · intro run
    have hold := h.reports run
    have hnew := hreports run
    rw [List.count_append, List.count_append]
    omega
  · intro run hrun
    obtain ⟨hold, hline⟩ := hsilent run hrun
    rw [linesTo_concat, h.silent run hold, hline]
    rfl
  · intro run hrun
    rw [linesTo_concat]
    rcases hgreeted run hrun with ⟨hold, hline⟩ | ⟨hold, hline⟩
    · have hgreeted := h.greeted run hold
      cases hto : signal.lineTo run with
      | none => simpa using hgreeted
      | some line =>
        cases line with
        | hello => exact absurd hto hline
        | shutdown => exact hgreeted.shutdown
    · rw [h.silent run hold, hline]
      exact ⟨0, rfl⟩

theorem launch (hnone : s.proc = none) :
    Accounted (log ++ [.launched s.runs])
      { s with proc := some ⟨s.runs, false⟩, runs := s.runs + 1 } := by
  refine h.step (fun run => ?_) (fun run => ?_) (fun run => ?_) (fun run hrun => ?_) fun run hrun => ?_
  · rw [List.count_singleton]
    simp only [beq_iff_eq, Signal.launched.injEq]
    split_ifs <;> omega
  · simp [Host.current, hnone, List.count_singleton]
  · simp [Host.probing]
  · refine ⟨.inl ?_, rfl⟩
    rcases hrun with hrun | hrun
    · exact Nat.le_of_succ_le hrun
    · exact Nat.le_of_eq (congrArg Proc.run (Option.some.inj hrun))
  · refine .inl ⟨fun hsilent => hrun ?_, nofun⟩
    rcases hsilent with hle | hproc
    · rcases Nat.eq_or_lt_of_le hle with rfl | hlt
      · exact .inr rfl
      · exact .inl hlt
    · rw [hnone] at hproc
      cases hproc

theorem shutdown (hproc : s.proc = some proc) (hann : proc.announced = true) :
    Accounted (log ++ [.wrote proc.run .shutdown]) s := by
  have hsilent : ¬ s.Silent proc.run := by
    rintro (hle | hfalse)
    · exact absurd (h.run_lt hproc) (Nat.not_lt.mpr hle)
    · rw [hproc] at hfalse
      rw [Option.some.inj hfalse] at hann
      cases hann
  refine h.step (by simp) (by simp) (by simp) (fun run hrun => ⟨hrun, if_neg ?_⟩) fun run hrun => ?_
  · rintro rfl
    exact hsilent hrun
  · exact .inl ⟨hrun, by simp [Signal.lineTo]⟩

theorem hello (hproc : s.proc = some ⟨run, false⟩) :
    Accounted (log ++ [.wrote run .hello]) { s with proc := some ⟨run, true⟩ } := by
  have hlt := h.run_lt hproc
  refine h.step (by simp) (by simp [Host.current, hproc]) (by simp [Host.probing])
    (fun other hother => ?_) fun other hother => ?_
  · have hle : s.runs ≤ other := by
      rcases hother with hle | hfalse
      · exact hle
      · cases hfalse
    refine ⟨.inl hle, if_neg ?_⟩
    rintro rfl
    exact absurd hlt (Nat.not_lt.mpr hle)
  · by_cases heq : run = other
    · subst heq
      exact .inr ⟨.inr hproc, if_pos rfl⟩
    · refine .inl ⟨fun hsilent => ?_, by simp [Signal.lineTo, heq]⟩
      rcases hsilent with hle | hsame
      · exact hother (.inl hle)
      · rw [hproc] at hsame
        exact heq (congrArg Proc.run (Option.some.inj hsame))

/-- The end of a helper waits for the probe. -/
theorem exit (hproc : s.proc = some ⟨run, true⟩) (hnone : s.probe = none) :
    Accounted (log ++ [.exited run]) { s with proc := none, probe := some run } := by
  -- What it was written does not change when it ends.
  have hiff (other : Nat) :
      { s with proc := none, probe := some run }.Silent other ↔ s.Silent other := by
    unfold Host.Silent
    rw [hproc]
    simp
  refine h.step (by simp) (fun other => ?_) (fun other => ?_)
    (fun other hother => ⟨(hiff other).mp hother, rfl⟩)
    fun other hother => .inl ⟨mt (hiff other).mpr hother, nofun⟩
  · simp [Host.current, hproc, List.count_singleton]
  · simp [Host.probing, hnone, List.count_singleton]

theorem report (hprobe : s.probe = some run) :
    Accounted (log ++ [.reported run]) { s with probe := none } := by
  refine h.step (by simp) (by simp [Host.current]) (fun other => ?_)
    (fun other hother => ⟨hother, rfl⟩) fun other hother => .inl ⟨hother, nofun⟩
  simp [Host.probing, hprobe, List.count_singleton]

end Accounted

/-! ## The side effects -/

section

variable (s : Host)

theorem perform_start : s.perform { start := true } = s.startSshAgentHelper := rfl

theorem perform_stop : s.perform { stop := true, cancelRestart := true } =
    { s with restartArmed := false }.stopSshAgentHelper := by
  simp [Host.perform, Out.andThen]

theorem perform_hello : s.perform { writeHello := true } = s.writeHello := by
  simp [Host.perform, Out.andThen]

end

/-! ## Phases and processes -/

variable {s : Host} {next : State} {parse : String → Option Value}

/-- The end of this helper is still to be reported. -/
def Host.Owes (s : Host) (run : Nat) : Prop := s.proc.map (·.run) = some run ∨ s.probe = some run

/-- The books, and what the phase says about the processes. `Dropped` are the helpers that were
launched before the feature was disabled. -/
structure Good (Dropped : Nat → Prop) (log : List Signal) (s : Host) : Prop where
  books : Accounted log s
  probe : s.probe ≠ none → s.proc = none
  starting : ∀ run, s.proc = some ⟨run, false⟩ → s.state.phase = .starting
  idle : s.state.phase = .failed ∨ s.state.phase.waiting → s.proc = none ∧ s.probe = none
  disabled : s.state.phase = .disabled → ∀ run, s.Owes run → Dropped run

variable {Dropped Dropped' : Nat → Prop}

namespace Good

variable (h : Good Dropped log s)
include h

/-- Steps of the supervisor alone, to a phase that says no more. -/
theorem quiet {s' : Host} (hproc : s'.proc = s.proc) (hprobe : s'.probe = s.probe)
    (hruns : s'.runs = s.runs)
    (hstarting : ∀ run, s.proc = some ⟨run, false⟩ → s'.state.phase = .starting)
    (hidle : s'.state.phase = .failed ∨ s'.state.phase.waiting → s.proc = none ∧ s.probe = none)
    (hdisabled : s'.state.phase = .disabled → ∀ run, s.Owes run → Dropped' run) :
    Good Dropped' log s' where
  books := h.books.same hproc hprobe hruns
  probe := by
    rw [hproc, hprobe]
    exact h.probe
  starting := by
    rw [hproc]
    exact hstarting
  idle := by
    rw [hproc, hprobe]
    exact hidle
  disabled := by
    unfold Host.Owes
    rw [hproc, hprobe]
    exact hdisabled

/-- Where no helper and no probe runs, the phase may be any. -/
theorem free (hproc : s.proc = none) (hprobe : s.probe = none) {s' : Host}
    (hproc' : s'.proc = s.proc) (hprobe' : s'.probe = s.probe) (hruns : s'.runs = s.runs) :
    Good Dropped' log s' :=
  h.quiet hproc' hprobe' hruns (by simp [hproc]) (fun _ => ⟨hproc, hprobe⟩)
    (by simp [Host.Owes, hproc, hprobe])

theorem start (hphase : next.phase = .starting) (hprobe : s.probe = none) :
    Good Dropped' (log ++ ({ s with state := next }.startSshAgentHelper).1)
      ({ s with state := next }.startSshAgentHelper).2 := by
  unfold Host.startSshAgentHelper
  dsimp only
  cases hproc : s.proc with
  | some proc =>
    dsimp only
    rw [List.append_nil]
    exact h.quiet hproc.symm rfl rfl (fun _ _ => hphase) (by simp [hphase, Phase.waiting])
      (by simp [hphase])
  | none =>
    dsimp only
    have hbooks := h.books.launch hproc
    refine ⟨hbooks.same rfl rfl rfl, ?_, fun _ _ => hphase, ?_, ?_⟩
    · intro hsome
      exact absurd hprobe hsome
    · simp [hphase, Phase.waiting]
    · simp [hphase]

/-- No line but `hello` is the first one a helper gets, if it is announced before it is stopped. -/
theorem stop (hann : ∀ run, s.proc ≠ some ⟨run, false⟩) (hphase : next.phase = .restarting ∨
      next.phase = .disabled ∧ ∀ run, s.Owes run → Dropped' run) (armed : Bool) :
    Good Dropped' (log ++ ({ s with state := next, restartArmed := armed }.stopSshAgentHelper).1)
      ({ s with state := next, restartArmed := armed }.stopSshAgentHelper).2 := by
  have hquiet {s' : Host} (hproc : s'.proc = s.proc) (hprobe : s'.probe = s.probe)
      (hruns : s'.runs = s.runs) (hstate : s'.state = next) : Good Dropped' log s' := by
    refine h.quiet hproc hprobe hruns (fun run hrun => absurd hrun (hann run)) ?_ ?_
    · rcases hphase with hphase | ⟨hphase, _⟩ <;> simp [hstate, hphase, Phase.waiting]
    · rw [hstate]
      intro hdisabled
      rcases hphase with hphase | ⟨_, howes⟩
      · rw [hphase] at hdisabled
        cases hdisabled
      · exact howes
  unfold Host.stopSshAgentHelper
  dsimp only
  cases hproc : s.proc with
  | none =>
    dsimp only
    rw [List.append_nil]
    exact hquiet hproc.symm rfl rfl rfl
  | some proc =>
    dsimp only
    split_ifs
    · have hannounced : proc.announced = true := by
        by_contra hnot
        refine hann proc.run ?_
        rw [hproc, ← Bool.eq_false_iff.mpr hnot]
      have hgood : Good Dropped' log { s with
          state := next, restartArmed := armed, stdinEnabled := false, terminateArmed := true } :=
        hquiet rfl rfl rfl rfl
      rw [hproc] at hgood
      exact { hgood with books := hgood.books.shutdown rfl hannounced }
    · rw [List.append_nil]
      exact hquiet hproc.symm rfl rfl rfl

/-- **One event of the supervisor, with its side effects.** An exit is told of only once no helper
and no probe runs; a start is announced by `hello` below. -/
theorem apply {event : Supervisor.Event} (hmono : ∀ run, Dropped run → Dropped' run)
    (hdisable : event.kind = .enabled false → ∀ run, s.Owes run → Dropped' run)
    (henable : event.kind = .enabled true → s.state.phase.off → s.probe = none)
    (hstop : event.kind = .enabled false ∨ event.kind = .handshakeTimeout →
      ∀ run, s.proc ≠ some ⟨run, false⟩) (hexits : event.exits → s.proc = none ∧ s.probe = none)
    (hstarted : event.kind ≠ .started) :
    Good Dropped' (log ++ (s.applySshAgentEvent parse event).1)
      (s.applySshAgentEvent parse event).2 := by
  have hmove : Move s.state event (sshAgentReduce parse s.state event) := reduce_move
  show Good Dropped'
    (log ++ ({ s with state := (sshAgentReduce parse s.state event).1 }.perform
      (sshAgentReduce parse s.state event).2).1)
    ({ s with state := (sshAgentReduce parse s.state event).1 }.perform
      (sshAgentReduce parse s.state event).2).2
  generalize sshAgentReduce parse s.state event = r at hmove ⊢
  -- A supervisor that stays as it is.
  have hsame {s' : Host} (hproc : s'.proc = s.proc) (hprobe : s'.probe = s.probe)
      (hruns : s'.runs = s.runs) (hphase : s'.state.phase = s.state.phase) :
      Good Dropped' log s' := by
    refine h.quiet hproc hprobe hruns ?_ ?_ ?_
    · rw [hphase]
      exact h.starting
    · rw [hphase]
      exact h.idle
    · rw [hphase]
      exact fun hdisabled run howes => hmono run (h.disabled hdisabled run howes)
  cases hmove with
  | stay | forward =>
    show Good Dropped' (log ++ []) _
    rw [List.append_nil]
    exact hsame rfl rfl rfl rfl
  | enable hkind hoff =>
    rw [perform_start]
    exact h.start rfl (henable hkind hoff)
  | restart _ hphase =>
    rw [perform_start]
    exact h.start rfl (h.idle (.inr hphase)).2
  | disable hkind =>
    rw [perform_stop]
    exact h.stop (hstop (.inl hkind)) (.inr ⟨rfl, hdisable hkind⟩) false
  | fail code _ hkind =>
    rw [show s.state.sshAgentFailMidRun code =
      ((s.state.sshAgentFailMidRun code).1, { stop := true, cancelRestart := true }) from rfl,
      perform_stop]
    refine h.stop ?_ (.inl rfl) false
    rcases hkind with hkind | ⟨hphase, _⟩
    · exact hstop (.inr hkind)
    · exact fun run hrun => hphase (h.starting run hrun)
  | hello hkind => exact absurd hkind hstarted
  | ready fields hphase =>
    show Good Dropped' (log ++ []) { s with state := s.state.onReady fields event.nowMs }
    rw [List.append_nil]
    refine h.quiet rfl rfl rfl ?_ (by simp [State.onReady, Phase.waiting]) nofun
    intro run hrun
    have hstarting := h.starting run hrun
    rw [hphase] at hstarting
    cases hstarting
  | elsewhere hkind =>
    obtain ⟨hproc, hprobe⟩ := hexits ⟨_, hkind⟩
    show Good Dropped' (log ++ []) _
    rw [List.append_nil]
    exact h.free hproc hprobe rfl rfl rfl
  | exit _ hkind =>
    obtain ⟨hproc, hprobe⟩ := hexits ⟨_, hkind⟩
    unfold State.sshAgentFailOnExit
    split_ifs <;>
    · show Good Dropped' (log ++ []) _
      rw [List.append_nil]
      exact h.free hproc hprobe rfl rfl rfl

/-- No probe runs beside a helper. -/
theorem probe_none {proc : Proc} (hproc : s.proc = some proc) : s.probe = none := by
  by_contra hsome
  rw [h.probe hsome] at hproc
  cases hproc

/-- The start is announced: `hello`. -/
theorem hello (hproc : s.proc = some ⟨run, false⟩) (nowMs : Int) :
    Good Dropped'
      (log ++ ({ s with proc := s.proc.map .announce }.applySshAgentEvent parse ⟨.started, nowMs⟩).1)
      ({ s with proc := s.proc.map .announce }.applySshAgentEvent parse ⟨.started, nowMs⟩).2 := by
  have hphase := h.starting run hproc
  have hreduce : sshAgentReduce parse s.state ⟨.started, nowMs⟩ =
      ({ s.state with phase := .handshaking }, { writeHello := true }) := by
    simp [sshAgentReduce, hphase, Phase.off]
  unfold Host.applySshAgentEvent
  dsimp only
  rw [hreduce, perform_hello, hproc]
  refine ⟨(h.books.hello hproc).same rfl rfl rfl, ?_, ?_, ?_, ?_⟩
  · intro hsome
    exact absurd (h.probe_none hproc) hsome
  · rintro run' ⟨⟩
  · simp [Phase.waiting, Host.writeHello]
  · rintro ⟨⟩

/-- The end of a helper that is told of at once or by the probe, with nothing else running. -/
theorem report (hproc : s.proc = none) (hprobe : s.probe = some run)
    (hmono : ∀ run, Dropped run → Dropped' run) (lockHeld : Bool) (nowMs : Int) :
    Good Dropped' (log ++ ({ s with probe := none }.report parse run lockHeld nowMs).1)
      ({ s with probe := none }.report parse run lockHeld nowMs).2 := by
  have hgood : Good Dropped (log ++ [.reported run]) { s with probe := none } := by
    refine ⟨h.books.report hprobe, fun _ => hproc, ?_, fun _ => ⟨hproc, rfl⟩, ?_⟩
    · intro other hother
      rw [hproc] at hother
      cases hother
    · simp [Host.Owes, hproc]
  unfold Host.report Out.andThen
  dsimp only
  rw [← List.append_assoc]
  exact hgood.apply hmono nofun nofun (by simp) (fun _ => ⟨hproc, rfl⟩) nofun

/-- A helper ends. -/
theorem exit (hproc : s.proc = some ⟨run, true⟩) (hmono : ∀ run, Dropped run → Dropped' run)
    (armed command : Bool) (nowMs : Int) :
    Good Dropped' (log ++ (.exited run ::
        ({ s with proc := none, terminateArmed := armed }.onSshAgentHelperExited parse run command
          nowMs).1))
      ({ s with proc := none, terminateArmed := armed }.onSshAgentHelperExited parse run command
        nowMs).2 := by
  have hprobe := h.probe_none hproc
  have hbooks : Accounted (log ++ [.exited run])
      { s with proc := none, probe := some run, terminateArmed := armed } :=
    (h.books.exit hproc hprobe).same rfl rfl rfl
  -- The end is owed until it is reported; neither phase that is idle has a helper running.
  have hgood : Good Dropped (log ++ [.exited run])
      { s with proc := none, probe := some run, terminateArmed := armed } := by
    refine ⟨hbooks, fun _ => rfl, nofun, ?_, ?_⟩
    · intro hidle
      have hnone := (h.idle hidle).1
      rw [hproc] at hnone
      cases hnone
    · intro hdisabled other howes
      refine h.disabled hdisabled other (.inl ?_)
      rw [hproc]
      rcases howes with hnone | hsome
      · cases hnone
      · exact hsome
  rw [List.append_cons]
  unfold Host.onSshAgentHelperExited
  split_ifs with hdirect
  · have hsame : { s with proc := none, terminateArmed := armed } =
        { s with proc := none, probe := none, terminateArmed := armed } := by rw [← hprobe]
    rw [hsame]
    exact hgood.report rfl rfl hmono false nowMs
  · rw [List.append_nil]
    exact hgood.quiet rfl rfl rfl nofun hgood.idle
      (fun hdisabled run howes => hmono run (hgood.disabled hdisabled run howes))

end Good

/-! ## Runs -/

section

variable (parse)

/-- What the event did. -/
def signals (t : Step) : List Signal := (t.before.step parse t.event).1

/-- What was done so far, oldest first. -/
def done : List Step → List Signal
  | [] => []
  | t :: h => done h ++ signals parse t

/-- The feature was disabled after this helper was launched. -/
def DisabledAfter (run : Nat) (h : List Step) : Prop :=
  Trace.Since (fun _ => True)
    (fun older t => t.event.kind = .enabled false ∧ .launched run ∈ done parse older) h

end

/-- The step neither starts a helper by an enable while a probe still runs, nor stops one whose
start has not been announced. -/
def Calm (t : Step) : Prop :=
  (t.event.kind = .enabled true → t.before.state.phase.off → t.before.probe = none) ∧
    (t.event.kind = .enabled false ∨ t.event.kind = .handshakeTimer →
      t.before.proc.all fun proc => proc.announced)

instance : DecidablePred Calm := fun t => by
  unfold Calm
  infer_instance

theorem Calm.stopped {t : Step} (h : Calm t)
    (hkind : t.event.kind = .enabled false ∨ t.event.kind = .handshakeTimer) (run : Nat) :
    t.before.proc ≠ some ⟨run, false⟩ := by
  intro hproc
  have hall := h.2 hkind
  rw [hproc] at hall
  cases hall

theorem Accounted.launched_of_owes {s : Host} {log : List Signal} (h : Accounted log s)
    (howes : s.Owes run) : .launched run ∈ log := by
  rw [← List.count_pos_iff, ← h.exits run, ← h.reports run]
  rcases howes with hproc | hprobe
  · rw [show s.current run = 1 by simp [Host.current, hproc]]
    omega
  · rw [show s.probing run = 1 by simp [Host.probing, hprobe]]
    omega

theorem proc_of_started (h : s.may .started) : ∃ run, s.proc = some ⟨run, false⟩ := by
  unfold Host.may at h
  cases hproc : s.proc with
  | none => simp [hproc] at h
  | some proc =>
    have hann : proc.announced = false := by simpa [hproc] using h
    exact ⟨proc.run, by rw [← hann]⟩

theorem proc_of_exited {command : Bool} (h : s.may (.exited command)) :
    ∃ run, s.proc = some ⟨run, true⟩ := by
  unfold Host.may at h
  cases hproc : s.proc with
  | none => simp [hproc] at h
  | some proc =>
    have hann : proc.announced = true := by simpa [hproc] using h
    exact ⟨proc.run, by rw [← hann]⟩

variable {h : List Step}

theorem step_good {event : Event} (hgood : Good (DisabledAfter parse · h) (done parse h) s)
    (hmay : s.may event.kind) (hcalm : Calm ⟨s, event⟩) :
    Good (DisabledAfter parse · (⟨s, event⟩ :: h)) (done parse (⟨s, event⟩ :: h))
      (s.step parse event).2 := by
  have hmono (run : Nat) (hrun : DisabledAfter parse run h) :
      DisabledAfter parse run (⟨s, event⟩ :: h) := .keep trivial hrun
  obtain ⟨kind, nowMs⟩ := event
  show Good _ (done parse h ++ (s.step parse ⟨kind, nowMs⟩).1) _
  cases kind with
  | enabled value =>
    refine hgood.apply hmono ?_ ?_ ?_ nofun nofun
    · intro hkind run howes
      cases hkind
      exact .start ⟨rfl, hgood.books.launched_of_owes howes⟩
    · intro hkind
      cases hkind
      exact hcalm.1 rfl
    · intro hkind
      rcases hkind with hkind | hkind
      · cases hkind
        exact hcalm.stopped (.inl rfl)
      · cases hkind
  | started =>
    obtain ⟨run, hproc⟩ := proc_of_started hmay
    exact hgood.hello hproc nowMs
  | exited command =>
    obtain ⟨run, hproc⟩ := proc_of_exited hmay
    unfold Host.step
    simp only [hproc]
    exact hgood.exit hproc hmono false command nowMs
  | probed lockHeld =>
    obtain ⟨run, hprobe⟩ := Option.isSome_iff_exists.mp hmay
    have hproc := hgood.probe (by simp [hprobe])
    unfold Host.step
    simp only [hprobe]
    exact hgood.report hproc hprobe hmono lockHeld nowMs
  | line text => exact hgood.apply hmono nofun nofun (by simp) nofun nofun
  | handshakeTimer =>
    refine hgood.apply hmono nofun nofun ?_ nofun nofun
    exact fun _ => hcalm.stopped (.inr rfl)
  | terminateTimer =>
    show Good _ (_ ++ []) _
    rw [List.append_nil]
    exact hgood.quiet rfl rfl rfl hgood.starting hgood.idle
      (fun hdisabled run howes => hmono run (hgood.disabled hdisabled run howes))
  | restartTimer =>
    have hquiet : Good (DisabledAfter parse · h) (done parse h) { s with restartArmed := false } :=
      hgood.quiet rfl rfl rfl hgood.starting hgood.idle hgood.disabled
    exact hquiet.apply hmono nofun nofun (by simp) nofun nofun

theorem run_good (run : (machine parse).system.Run h s) (hcalm : ∀ t ∈ h, Calm t) :
    Good (DisabledAfter parse · h) (done parse h) s := by
  refine Trace.Machine.invariant (I := fun h s => (∀ t ∈ h, Calm t) →
    Good (DisabledAfter parse · h) (done parse h) s) ?_ ?_ run hcalm
  · intro _
    refine ⟨⟨?_, ?_, ?_, fun _ _ => rfl, ?_⟩, fun _ => rfl, nofun, fun _ => ⟨rfl, rfl⟩, ?_⟩
    · intro run
      exact (if_neg (Nat.not_lt_zero run)).symm
    · intro run
      rfl
    · intro run
      rfl
    · intro run hnot
      exact absurd (.inl (Nat.zero_le run)) hnot
    · rintro _ run (hproc | hprobe)
      · cases hproc
      · cases hprobe
  · intro h s event _ ih hmay hcalm
    obtain ⟨ht, hcalm⟩ := List.forall_mem_cons.mp hcalm
    exact step_good (ih hcalm) hmay ht

/-! ## Which steps report -/

theorem reported_notMem_apply (event : Supervisor.Event) :
    .reported run ∉ (s.applySshAgentEvent parse event).1 := by
  have hstop (s : Host) : .reported run ∉ s.stopSshAgentHelper.1 := by
    unfold Host.stopSshAgentHelper
    split
    · exact List.not_mem_nil
    · split_ifs <;> simp
  have hstart (s : Host) : .reported run ∉ s.startSshAgentHelper.1 := by
    unfold Host.startSshAgentHelper
    dsimp only
    split <;> simp
  have hhello (s : Host) : .reported run ∉ s.writeHello.1 := by
    unfold Host.writeHello
    split <;> simp
  unfold Host.applySshAgentEvent Host.perform Out.andThen
  simp only [List.mem_append, not_or]
  refine ⟨⟨⟨?_, ?_⟩, List.not_mem_nil⟩, ?_⟩
  · split_ifs <;> first | exact hstop _ | exact List.not_mem_nil
  · split_ifs <;> first | exact hhello _ | exact List.not_mem_nil
  · split_ifs <;> first | exact hstart _ | exact List.not_mem_nil

theorem reported_report {lockHeld : Bool} {nowMs : Int}
    (h : .reported run ∈ (s.report parse run' lockHeld nowMs).1) : run' = run := by
  unfold Host.report Out.andThen at h
  rcases List.mem_append.mp h with h | h
  · simpa [eq_comm] using h
  · exact absurd h (reported_notMem_apply _)

/-- A report is of the helper that just ended, or of the one the probe ran for. -/
theorem owes_of_reported {t : Step} (h : .reported run ∈ signals parse t) :
    t.before.proc.map (·.run) = some run ∨ t.before.probe = some run := by
  obtain ⟨s, kind, nowMs⟩ := t
  unfold signals Host.step at h
  cases kind with
  | enabled | started | line | handshakeTimer | restartTimer =>
    exact absurd h (reported_notMem_apply _)
  | terminateTimer => exact absurd h List.not_mem_nil
  | exited command =>
    dsimp only at h
    cases hproc : s.proc with
    | none => simp [hproc] at h
    | some proc =>
      rw [hproc] at h
      refine .inl (congrArg some ?_)
      unfold Out.andThen Host.onSshAgentHelperExited at h
      rcases List.mem_append.mp h with h | h
      · simp at h
      · dsimp only at h
        split_ifs at h
        · exact reported_report h
        · exact absurd h List.not_mem_nil
  | probed lockHeld =>
    dsimp only at h
    cases hprobe : s.probe with
    | none => simp [hprobe] at h
    | some run' =>
      rw [hprobe] at h
      exact .inr (congrArg some (reported_report h))

/-! ## The result -/

structure Charged (parse : String → Option Value) (h : List Step) (s : Host) : Prop where
  /-- Each helper is written `hello` once and before anything else, when its start is announced. -/
  greeted : ∀ run < s.runs, s.proc = some ⟨run, false⟩ ∧ linesTo run (done parse h) = [] ∨
    Greeted (linesTo run (done parse h))
  /-- Each end of a helper is reported once, unless the probe for it still runs. -/
  reported : ∀ run, (done parse h).count (.reported run) + s.probing run =
    (done parse h).count (.exited run) ∧ (done parse h).count (.exited run) ≤ 1
  /-- A report is dropped only if the feature was disabled after that helper was launched. -/
  dropped : ∀ newer t older, h = newer ++ t :: older → ∀ run, .reported run ∈ signals parse t →
    t.before.state.phase.off → DisabledAfter parse run older
  /-- No report comes while another helper runs. -/
  own : ∀ t ∈ h, ∀ run, .reported run ∈ signals parse t →
    ∀ proc, t.before.proc = some proc → proc.run = run

theorem good_before {newer older : List Step} {t : Step}
    (run : (machine parse).system.Run (newer ++ t :: older) s)
    (hcalm : ∀ u ∈ newer ++ t :: older, Calm u) :
    Good (DisabledAfter parse · older) (done parse older) t.before := by
  obtain ⟨s', run⟩ := run.of_append
  cases run with
  | step run hstep =>
    obtain ⟨rfl, _, _⟩ := hstep
    exact run_good run fun u hu => hcalm u (List.mem_append_right _ (List.mem_cons_of_mem _ hu))

/-- A helper that ends before `ready`, with the lock free. Newest first. -/
def probedEvents : List Event :=
  [⟨.probed false, 40⟩, ⟨.exited true, 30⟩, ⟨.started, 20⟩, ⟨.enabled true, 10⟩]

/-- The feature is disabled and enabled while the probe still runs. -/
def staleEvents : List Event :=
  [⟨.enabled true, 50⟩, ⟨.enabled false, 40⟩, ⟨.exited true, 30⟩, ⟨.started, 20⟩,
    ⟨.enabled true, 10⟩]

/-- The new helper's start is announced, then the probe ends. -/
def chargedEvents : List Event := ⟨.probed false, 70⟩ :: ⟨.started, 60⟩ :: staleEvents

/-- The probe ends before the new helper's start is announced. -/
def mutedEvents : List Event := ⟨.started, 70⟩ :: ⟨.probed false, 60⟩ :: staleEvents

/-- The feature is disabled before the start is announced. -/
def hastyEvents : List Event := [⟨.started, 30⟩, ⟨.enabled false, 20⟩, ⟨.enabled true, 10⟩]

end QsBitwarden.Panel.AgentProcess
