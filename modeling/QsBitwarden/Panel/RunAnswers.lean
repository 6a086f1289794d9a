import QsBitwarden.Panel.BwRuns

/-!
# Panel — every run is answered by its own process

A request waits for the helper, or its launch is deferred, or it is sure to fail, or it runs, in the
helper or here: these are the stages of `Stage`, and a process that keeps to them has one request in
hand at a time.

* **`Calm`** — a request is only made when nothing of an earlier one is left.
* **`At`**, **`Good`** — the stages, and what every stage has in common.
* **`Move`** — what a step does to the request in hand; by `step_move` there is nothing else.
* **`Books`** — launches and ends counted by request.
* **`runs_answered`** — over every run of calm steps; `runs_astray` shows what happens otherwise.
-/

namespace QsBitwarden.Panel.BwRuns

variable {κ : Type}

/-! ## Stages -/

/-- What is asked for. -/
def Event.asks : Event κ → Option (Setup κ)
  | .request setup => some setup
  | _ => none

/-- The step makes no request while something of an earlier one is left: a run or a failure that
will still be reported, or, for a scrub, a clear that runs or a place in the waiting list. -/
def Calm (t : Step κ) : Prop :=
  ∀ setup ∈ t.event.asks, t.before.running = false ∧ t.before.runId = .none
    ∧ t.before.failures = []
    ∧ (setup.command.isScrub → t.before.child = none ∧ t.before.waiting = false)

instance [DecidableEq κ] : DecidablePred (Calm (κ := κ)) := fun t =>
  inferInstanceAs (Decidable (∀ setup ∈ t.event.asks, t.before.running = false
    ∧ t.before.runId = .none ∧ t.before.failures = []
    ∧ (setup.command.isScrub → t.before.child = none ∧ t.before.waiting = false)))

inductive Stage where
  | idle
  | waiting
  | deferred
  | failing
  | here
  | inHelper
  deriving DecidableEq

/-- A process was launched for the request. -/
def Stage.launched : Stage → Bool
  | .here | .inHelper => true
  | _ => false

/-- No deferred launch is for the last start. -/
def Run.NoneDeferred (p : Run κ) : Prop := ∀ d ∈ p.launches, d.2 ≠ p.startSeq

/-- The stage of the last request. -/
def At (p : Run κ) : Stage → Prop
  | .idle => p.runId = .none ∧ p.exec = none ∧ p.failures = [] ∧ p.NoneDeferred
    ∧ p.running = false
  | .waiting => p.runId = .none ∧ p.exec = none ∧ p.failures = [] ∧ p.NoneDeferred
    ∧ p.waiting = true ∧ p.running = true
  | .deferred => p.runId = .none ∧ p.exec = none ∧ p.failures = []
    ∧ (p.launch, p.startSeq) ∈ p.launches
  | .failing => p.runId = .none ∧ p.exec = none ∧ p.failures = [p.request] ∧ p.NoneDeferred
    ∧ p.helper = .fallback
  | .here => p.runId = .here ∧ p.exec = none ∧ p.failures = [] ∧ p.NoneDeferred
    ∧ p.child = some p.launch ∧ p.localCommand = p.setup.command ∧ p.waiting = false
  | .inHelper => p.runId = .helper ∧ p.exec = some p.launch ∧ p.failures = [] ∧ p.NoneDeferred
    ∧ p.launches = [] ∧ p.waiting = false

structure Good (p : Run κ) : Prop where
  seqs : ∀ d ∈ p.launches, d.2 ≤ p.startSeq
  nodup : (p.launches.map (·.2)).Nodup
  fallback : p.launches ≠ [] → p.helper = .fallback
  waiting : p.waiting = true → p.helper = .awaited ∨ p.helper = .gone
  /-- Where no run of the caller's is, there is at most a clear. -/
  clear : p.runId ≠ .here → ∀ l ∈ p.child, l = ⟨none, .scrub⟩ ∧ p.localCommand = .scrub

/-- The end of the given request, with what the collectors hold then. The output of a scrub is
dropped, and that of a held secret is kept elsewhere. -/
def Answers (request : Nat) (setup : Setup κ) (ended : Ended κ) (held : Held κ) : Prop :=
  match ended with
  | .process l => l = ⟨some request, setup.command⟩ ∧ (held = .output l
    ∨ held = .nothing ∧ (setup.command.isScrub ∨ setup.capture = .secret))
  | .failed r => r = some request ∧ held = .message
  | .cancelled r => r = some request ∧ held = .nothing

/-! ## Moves -/

/-- What a step can do: nothing to the request but to drop it when it was cancelled, make a new one,
launch it, or end it. -/
inductive Move (p p' : Run κ) : Stage → Stage → List (Signal κ) → Prop where
  | quiet {stage : Stage} {given : List (Signal κ)}
      (hgiven : given = [] ∨ given = [.launched ⟨none, .scrub⟩])
      (hsame : p'.request = p.request ∧ p'.setup = p.setup) : Move p p' stage stage given
  | drop (hsame : p'.request = p.request ∧ p'.setup = p.setup) : Move p p' .waiting .idle []
  | request {stage stage' : Stage} {rest : List (Signal κ)} (hold : stage.launched = false)
      (hrequest : p'.request = p.request + 1) (hnew : stage' ≠ .idle)
      (hrest : rest = if stage'.launched then [.launched p'.launch] else []) :
      Move p p' stage stage' (.requested p'.request p'.setup :: rest)
  | launch {stage stage' : Stage} (hold : stage.launched = false) (hpending : stage ≠ .idle)
      (hnew : stage'.launched = true) (hsame : p'.request = p.request ∧ p'.setup = p.setup) :
      Move p p' stage stage' [.launched p'.launch]
  | defer {stage stage' : Stage} (hold : stage.launched = false) (hpending : stage ≠ .idle)
      (hnew : stage'.launched = false) (hnew' : stage' ≠ .idle)
      (hsame : p'.request = p.request ∧ p'.setup = p.setup) : Move p p' stage stage' []
  | exit {stage : Stage} {ended : Ended κ} {held : Held κ} (hstage : stage ≠ .idle)
      (hanswer : Answers p.request p.setup ended held)
      (hprocess : ∀ l, ended = .process l → stage.launched = true)
      (hsame : p'.request = p.request ∧ p'.setup = p.setup) :
      Move p p' stage .idle [.exited ended held]

/-- The step leads from one stage to another by a move. -/
def Moves (p : Run κ) (stage : Stage) (out : Run.Out κ) : Prop :=
  Good out.2 ∧ ∃ stage', At out.2 stage' ∧ Move p out.2 stage stage' out.1

/-- Nothing of an earlier request is left. -/
structure Free (p : Run κ) : Prop where
  good : Good p
  runId : p.runId = .none
  exec : p.exec = none
  failures : p.failures = []
  deferred : p.NoneDeferred

/-- The request of `p` was launched or is still to be. -/
def Started (p : Run κ) (out : Run.Out κ) : Prop :=
  Good out.2 ∧ out.2.request = p.request ∧ out.2.setup = p.setup
  ∧ ∃ stage, At out.2 stage ∧ stage ≠ .idle
    ∧ out.1 = if stage.launched then [.launched out.2.launch] else []

variable {p q : Run κ} {stage : Stage}

/-- Out of the fallback nothing is deferred. -/
theorem Good.launches_nil (hp : Good p) (hhelper : p.helper ≠ .fallback) : p.launches = [] := by
  by_contra hne
  exact hhelper (hp.fallback hne)

theorem Good.clear_none (hp : Good p) (hrun : p.runId = .none) :
    ∀ l ∈ p.child, l = ⟨none, .scrub⟩ ∧ p.localCommand = .scrub :=
  hp.clear (by rw [hrun]; decide)

theorem Free.finish_moves (hq : Free q) {ended : Ended κ} {held : Held κ} (hstage : stage ≠ .idle)
    (hsame : q.request = p.request ∧ q.setup = p.setup)
    (hanswer : Answers p.request p.setup ended held)
    (hprocess : ∀ l, ended = .process l → stage.launched = true) :
    Moves p stage (q.finish ended held) := by
  have hgood : Good (q.finish ended held).2 :=
    { hq.good with clear := fun _ => hq.good.clear_none hq.runId }
  exact ⟨hgood, .idle, ⟨rfl, hq.exec, hq.failures, hq.deferred, rfl⟩,
    .exit hstage hanswer hprocess hsame⟩

theorem Free.launchLocal_started (hp : Free p) (hrunning : p.running = true)
    (hfallback : p.helper = .fallback) : Started p (p.launchLocal p.launch p.startSeq) := by
  have hwaiting : p.waiting = false := by
    by_contra hw
    rcases hp.good.waiting (by simpa using hw) with h | h <;> simp [hfallback] at h
  rw [Run.launchLocal, if_neg (fun h => h rfl), if_neg (by simp [hrunning])]
  by_cases hchild : p.child.isSome
  · rw [if_pos hchild]
    refine ⟨⟨?_, ?_, fun _ => hfallback, hp.good.waiting, hp.good.clear⟩, rfl, rfl, .deferred,
      ⟨hp.runId, hp.exec, hp.failures, by simp [Run.launch]⟩, by decide, rfl⟩
    · intro d hd
      rcases List.mem_append.mp hd with hd | hd
      · exact hp.good.seqs d hd
      · obtain rfl := List.mem_singleton.mp hd
        exact Nat.le_refl p.startSeq
    · rw [List.map_append]
      refine hp.good.nodup.append (List.nodup_singleton _) ?_
      intro seq hseq hlast
      obtain ⟨d, hd, rfl⟩ := List.mem_map.mp hseq
      exact hp.deferred d hd (by simpa using hlast)
  · rw [if_neg hchild, Run.startLocal, if_neg hchild]
    exact ⟨{ hp.good with clear := fun h => absurd rfl h }, rfl, rfl, .here,
      ⟨rfl, hp.exec, hp.failures, hp.deferred, rfl, rfl, hwaiting⟩, by decide, rfl⟩

theorem Free.vaultStart_started (hp : Free p) (hrunning : p.running = true)
    (hwaiting : p.helper = .active → p.waiting = false) : Started p p.vaultStart := by
  have hwaits (h : p.helper = .awaited ∨ p.helper = .gone) :
      Started p ([], { p with waiting := true }) :=
    ⟨{ hp.good with waiting := fun _ => h }, rfl, rfl, .waiting,
      ⟨hp.runId, hp.exec, hp.failures, hp.deferred, rfl, hrunning⟩, by decide, rfl⟩
  unfold Run.vaultStart
  split
  case h_1 hhelper =>
    exact hwaits (.inl hhelper)
  case h_2 hhelper =>
    exact hwaits (.inr hhelper)
  case h_3 hhelper =>
    exact ⟨{ hp.good with clear := fun _ => hp.good.clear_none hp.runId }, rfl, rfl, .inHelper,
      ⟨rfl, rfl, hp.failures, hp.deferred, hp.good.launches_nil (by simp [hhelper]),
        hwaiting hhelper⟩, by decide, rfl⟩
  case h_4 hhelper =>
    by_cases hpin : p.setup.capture = .pinentry
    · rw [if_pos hpin]
      refine ⟨{ hp.good with }, rfl, rfl, .failing, ⟨hp.runId, hp.exec, ?_, hp.deferred, hhelper⟩,
        by decide, rfl⟩
      show p.failures ++ [p.request] = [p.request]
      rw [hp.failures, List.nil_append]
    · rw [if_neg hpin]
      exact hp.launchLocal_started hrunning hhelper

theorem isScrub_eq {command : Command κ} (hs : command.isScrub) : command = .scrub := by
  cases command with
  | scrub => rfl
  | empty | bw _ => simp [Command.isScrub] at hs

theorem Run.startLocal_none {l : Launch κ} (hchild : p.child = none) :
    p.startLocal l = ([.launched l], { p with child := some l }) := by
  rw [Run.startLocal, hchild, Option.isSome_none, if_neg Bool.false_ne_true]

theorem Free.scrub_started (hp : Free p) (hs : p.setup.command = .scrub) (hchild : p.child = none)
    (hwaiting : p.waiting = false) :
    Started p ({ p with held := .nothing, localCommand := .scrub, runId := .here }.startLocal
      p.launch) := by
  rw [Run.startLocal_none (by exact hchild)]
  exact ⟨{ hp.good with clear := fun h => absurd rfl h }, rfl, rfl, .here,
    ⟨rfl, hp.exec, hp.failures, hp.deferred, rfl, hs.symm, hwaiting⟩, by decide, rfl⟩

/-- Starting what had not been started is a move. -/
theorem Started.moves {out : Run.Out κ} (hstart : Started q out) (hold : stage.launched = false)
    (hpending : stage ≠ .idle) (hsame : q.request = p.request ∧ q.setup = p.setup) :
    Moves p stage out := by
  obtain ⟨hgood, hrequest, hsetup, stage', hat, hnew, hgiven⟩ := hstart
  have hsame' : out.2.request = p.request ∧ out.2.setup = p.setup :=
    ⟨hrequest.trans hsame.1, hsetup.trans hsame.2⟩
  refine ⟨hgood, stage', hat, ?_⟩
  rw [hgiven]
  cases hlaunched : stage'.launched with
  | true => exact .launch hold hpending hlaunched hsame'
  | false => exact .defer hold hpending hlaunched hnew hsame'

theorem At.noneDeferred (hat : At p stage) (hstage : stage ≠ .deferred) : p.NoneDeferred := by
  cases stage with
  | deferred => exact absurd rfl hstage
  | idle | waiting | failing | here | inHelper => exact hat.2.2.2.1

theorem At.failures_nil (hat : At p stage) (hstage : stage ≠ .failing) : p.failures = [] := by
  cases stage with
  | failing => exact absurd rfl hstage
  | idle | waiting | deferred | here | inHelper => exact hat.2.2.1

theorem At.here_iff (hat : At p stage) : p.runId = .here ↔ stage = .here := by
  cases stage <;> simp [hat.1]

/-! ## One step -/

theorem request_moves (hp : Good p) (hat : At p stage) {setup : Setup κ}
    (hcalm : Calm ⟨p, .request setup⟩) : Moves p stage (p.requestRun setup) := by
  obtain ⟨hrunning, hrun, hfail, hscrub⟩ : p.running = false ∧ p.runId = .none ∧ p.failures = []
    ∧ (setup.command.isScrub → p.child = none ∧ p.waiting = false) := hcalm setup rfl
  have hold : stage.launched = false ∧ p.exec = none := by
    cases stage with
    | here | inHelper => simp [hat.1] at hrun
    | idle | waiting | deferred | failing => exact ⟨rfl, hat.2.1⟩
  -- the new start's number is above that of every launch still deferred
  let q : Run κ := { p with
    setup, request := p.request + 1, running := true, startSeq := p.startSeq + 1 }
  have hq : Free q := by
    refine ⟨⟨fun d hd => ?_, hp.nodup, hp.fallback, hp.waiting, hp.clear⟩, hrun, hold.2, hfail,
      fun d hd => ?_⟩
    · exact Nat.le_succ_of_le (hp.seqs d hd)
    · exact Nat.ne_of_lt (Nat.lt_succ_of_le (hp.seqs d hd))
  have hwaiting : q.helper = .active → q.waiting = false := by
    intro hactive
    by_contra hw
    rcases hq.good.waiting (by simpa using hw) with h | h <;> simp [hactive] at h
  have hstart : Started q
      (Run.start { p with setup, request := p.request + 1, running := true }) := by
    unfold Run.start
    by_cases hs : setup.command.isScrub
    · obtain ⟨hchild, hwait⟩ := hscrub hs
      rw [if_pos hs]
      exact hq.scrub_started (isScrub_eq hs) hchild hwait
    · rw [if_neg hs]
      exact hq.vaultStart_started rfl hwaiting
  have heq : p.requestRun setup = (.requested q.request q.setup ::
      (Run.start { p with setup, request := p.request + 1, running := true }).1,
      (Run.start { p with setup, request := p.request + 1, running := true }).2) := by
    simp [Run.requestRun, hrunning, hrun, q]
  rw [heq]
  obtain ⟨hgood, hrequest, hsetup, stage', hat', hnew, hgiven⟩ := hstart
  refine ⟨hgood, stage', hat', ?_⟩
  rw [← hrequest, ← hsetup]
  exact .request hold.1 hrequest hnew hgiven

/-- A step that changes nothing that a stage speaks of. -/
theorem quiet_moves {p' : Run κ} {given : List (Signal κ)} (hgood : Good p') (hat : At p' stage)
    (hgiven : given = [] ∨ given = [.launched ⟨none, .scrub⟩])
    (hsame : p'.request = p.request ∧ p'.setup = p.setup) : Moves p stage (given, p') :=
  ⟨hgood, stage, hat, .quiet hgiven hsame⟩

theorem cancel_moves (hp : Good p) (hat : At p stage) : Moves p stage p.cancel := by
  have hgood : Good p.cancel.2 := { hp with }
  cases stage with
  | waiting =>
    obtain ⟨hrun, hexec, hfail, hnone, -⟩ := hat
    exact ⟨hgood, .idle, ⟨hrun, hexec, hfail, hnone, rfl⟩, .drop ⟨rfl, rfl⟩⟩
  | idle =>
    obtain ⟨hrun, hexec, hfail, hnone, -⟩ := hat
    exact quiet_moves hgood ⟨hrun, hexec, hfail, hnone, rfl⟩ (.inl rfl) ⟨rfl, rfl⟩
  | deferred | failing | here | inHelper => exact quiet_moves hgood hat (.inl rfl) ⟨rfl, rfl⟩

theorem flush_moves (hp : Good p) (hat : At p stage) (hawaited : p.helper = .awaited)
    (helper : HelperState) : Moves p stage (p.flush helper) := by
  have hnil : p.launches = [] := hp.launches_nil (by simp [hawaited])
  have hgood : Good { p with helper, waiting := false } :=
    ⟨hp.seqs, hp.nodup, fun h => absurd hnil h, (fun h => nomatch h), hp.clear⟩
  unfold Run.flush
  cases stage with
  | waiting =>
    obtain ⟨hrun, hexec, hfail, hnone, hwaiting, hrunning⟩ := hat
    rw [if_pos (by simp [hwaiting, hrunning])]
    have hfree : Free { p with helper, waiting := false } := ⟨hgood, hrun, hexec, hfail, hnone⟩
    exact (hfree.vaultStart_started hrunning fun _ => rfl).moves rfl (by decide) ⟨rfl, rfl⟩
  | idle =>
    rw [if_neg (by simp [hat.2.2.2.2])]
    exact quiet_moves hgood hat (.inl rfl) ⟨rfl, rfl⟩
  | deferred => simp [At, hnil] at hat
  | failing => simp [At, hawaited] at hat
  | here =>
    obtain ⟨hrun, hexec, hfail, hnone, hchild, hcommand, hwaiting⟩ := hat
    rw [if_neg (by simp [hwaiting])]
    exact quiet_moves hgood ⟨hrun, hexec, hfail, hnone, hchild, hcommand, rfl⟩ (.inl rfl) ⟨rfl, rfl⟩
  | inHelper =>
    obtain ⟨hrun, hexec, hfail, hnone, hlaunches, hwaiting⟩ := hat
    rw [if_neg (by simp [hwaiting])]
    exact quiet_moves hgood ⟨hrun, hexec, hfail, hnone, hlaunches, rfl⟩ (.inl rfl) ⟨rfl, rfl⟩

/-- What becomes of the helper while nothing is deferred changes no stage. -/
theorem At.helper (hat : At p stage) (hnot : p.helper ≠ .fallback) (helper : HelperState) :
    At { p with helper } stage := by
  cases stage with
  | failing => exact absurd hat.2.2.2.2 hnot
  | idle | waiting | deferred | here | inHelper => exact hat

theorem lost_moves (hp : Good p) (hat : At p stage) (hactive : p.helper = .active) :
    Moves p stage ([], { p with helper := .gone }) := by
  have hnot : p.helper ≠ .fallback := by simp [hactive]
  refine quiet_moves ⟨hp.seqs, hp.nodup, fun h => absurd (hp.launches_nil hnot) h,
    fun _ => .inr rfl, hp.clear⟩ (hat.helper hnot _) (.inl rfl) ⟨rfl, rfl⟩

/-- The helper's run ends, by its report or with the helper. -/
theorem At.exec_some (hat : At p stage) {l : Launch κ} (hexec : p.exec = some l) :
    stage = .inHelper ∧ l = p.launch := by
  cases stage with
  | inHelper => exact ⟨rfl, Option.some.inj (hexec.symm.trans hat.2.1)⟩
  | idle | waiting | deferred | failing | here => simp [hat.2.1] at hexec

variable (hp : Good p)
include hp

/-- The helper's run ends, which frees the process. -/
theorem Good.exec_free (hat : At p .inHelper) (helper : HelperState)
    (hwaiting : p.waiting = true → helper = .awaited ∨ helper = .gone) :
    Free { p with helper, exec := none, runId := .none } := by
  obtain ⟨hrun, -, hfail, hnone, hlaunches, -⟩ := hat
  exact ⟨⟨hp.seqs, hp.nodup, fun h => absurd hlaunches h, hwaiting,
    fun _ => hp.clear (by simp [hrun])⟩, rfl, rfl, hfail, hnone⟩

theorem helperExit_moves (hat : At p stage) : Moves p stage p.helperExit := by
  unfold Run.helperExit
  split
  case h_1 l hexec =>
    obtain ⟨rfl, rfl⟩ := hat.exec_some hexec
    exact (hp.exec_free hat p.helper hp.waiting).finish_moves (by decide) ⟨rfl, rfl⟩
      ⟨rfl, .inl rfl⟩ fun _ _ => rfl
  case h_2 => exact quiet_moves hp hat (.inl rfl) ⟨rfl, rfl⟩

theorem runsFail_moves (hat : At p stage) (hgone : p.helper = .gone) :
    Moves p stage p.runsFail := by
  have hnot : p.helper ≠ .fallback := by simp [hgone]
  unfold Run.runsFail
  dsimp only
  split
  case h_1 l hexec =>
    obtain ⟨rfl, rfl⟩ := hat.exec_some hexec
    exact (hp.exec_free hat .awaited fun _ => .inl rfl).finish_moves (by decide) ⟨rfl, rfl⟩
      ⟨rfl, rfl⟩ fun l hl => nomatch hl
  case h_2 =>
    exact quiet_moves ⟨hp.seqs, hp.nodup, fun h => absurd (hp.launches_nil hnot) h,
      fun _ => .inl rfl, hp.clear⟩ (hat.helper hnot _) (.inl rfl) ⟨rfl, rfl⟩

/-- The local process ends, which frees the caller's run if it was one. -/
theorem Good.child_free (hat : At p .here) (clears : Nat) :
    Free { p with child := none, runId := .none, clears } := by
  obtain ⟨-, hexec, hfail, hnone, -⟩ := hat
  exact ⟨{ hp with clear := fun _ l hl => nomatch hl }, rfl, hexec, hfail,
    hnone⟩

theorem localExit_moves (hat : At p stage) : Moves p stage p.localExit := by
  unfold Run.localExit
  split
  case h_1 => exact quiet_moves hp hat (.inl rfl) ⟨rfl, rfl⟩
  case h_2 l hchild =>
    by_cases hhere : p.runId = .here
    · obtain rfl := hat.here_iff.mp hhere
      obtain ⟨-, -, -, -, hown, hcommand, -⟩ := id hat
      obtain rfl : l = p.launch := Option.some.inj (hchild.symm.trans hown)
      by_cases hs : p.localCommand.isScrub
      · rw [if_pos hs, if_pos hhere]
        exact (hp.child_free hat p.clears).finish_moves (by decide) ⟨rfl, rfl⟩
          ⟨rfl, .inr ⟨rfl, .inl (hcommand ▸ hs)⟩⟩ fun _ _ => rfl
      · rw [if_neg hs]
        refine (hp.child_free hat (p.clears + 1)).finish_moves (by decide) ⟨rfl, rfl⟩ ⟨rfl, ?_⟩
          fun _ _ => rfl
        by_cases hsecret : p.setup.capture = .secret
        · exact .inr ⟨if_pos hsecret, .inr hsecret⟩
        · exact .inl (if_neg hsecret)
    · -- a clear: nobody is told
      have hs : p.localCommand.isScrub := by
        rw [(hp.clear hhere l hchild).2]
        rfl
      rw [if_pos hs, if_neg hhere]
      refine quiet_moves { hp with clear := fun _ l hl => nomatch hl } ?_
        (.inl rfl) ⟨rfl, rfl⟩
      cases stage with
      | here => exact absurd hat.1 hhere
      | idle | waiting | deferred | failing | inHelper => exact hat

omit hp

/-- Launches of earlier starts can go. -/
theorem At.launches (hat : At p stage) {launches : List (Launch κ × Nat)}
    (hmem : ∀ d ∈ launches, d ∈ p.launches)
    (hkept : (p.launch, p.startSeq) ∈ p.launches → (p.launch, p.startSeq) ∈ launches) :
    At { p with launches } stage := by
  have hnone : p.NoneDeferred → Run.NoneDeferred { p with launches } :=
    fun h d hd => h d (hmem d hd)
  cases stage with
  | deferred => exact ⟨hat.1, hat.2.1, hat.2.2.1, hkept hat.2.2.2⟩
  | inHelper =>
    obtain ⟨hrun, hexec, hfail, h, hlaunches, hwaiting⟩ := hat
    have hnil : launches = [] := List.eq_nil_iff_forall_not_mem.mpr fun d hd => by
      simpa [hlaunches] using hmem d hd
    exact ⟨hrun, hexec, hfail, hnone h, hnil, hwaiting⟩
  | idle | waiting | failing | here =>
    exact ⟨hat.1, hat.2.1, hat.2.2.1, hnone hat.2.2.2.1, hat.2.2.2.2⟩

theorem runLaunch_moves (hp : Good p) (hat : At p stage) : Moves p stage p.runLaunch := by
  unfold Run.runLaunch
  split
  case h_1 => exact quiet_moves hp hat (.inl rfl) ⟨rfl, rfl⟩
  case h_2 l seq launches hlaunches =>
    have hmem : ∀ d ∈ launches, d ∈ p.launches := fun d hd => by simp [hlaunches, hd]
    have hnodup : seq ∉ launches.map (·.2) ∧ (launches.map (·.2)).Nodup := by
      have h := hp.nodup
      rw [hlaunches, List.map_cons] at h
      exact List.nodup_cons.mp h
    have hfallback : p.helper = .fallback := hp.fallback (by simp [hlaunches])
    have hgood : Good { p with launches } :=
      ⟨fun d hd => hp.seqs d (hmem d hd), hnodup.2, fun _ => hfallback, hp.waiting, hp.clear⟩
    by_cases hseq : seq = p.startSeq
    · -- the launch of the last start, for which the request waited
      subst hseq
      have hfirst : (l, p.startSeq) ∈ p.launches := by simp [hlaunches]
      obtain rfl : stage = .deferred := by
        by_contra hne
        exact hat.noneDeferred hne _ hfirst rfl
      obtain ⟨hrun, hexec, hfail, hown⟩ := hat
      have hlast : ∀ d ∈ launches, d.2 ≠ p.startSeq := by
        intro d hd heq
        exact hnodup.1 (List.mem_map.mpr ⟨d, hd, heq⟩)
      obtain rfl : l = p.launch := by
        rw [hlaunches] at hown
        rcases List.mem_cons.mp hown with h | h
        · exact (congrArg Prod.fst h).symm
        · exact absurd rfl (hlast _ h)
      have hfree : Free { p with launches } := ⟨hgood, hrun, hexec, hfail, hlast⟩
      by_cases hrunning : p.running = true
      · exact (hfree.launchLocal_started hrunning hfallback).moves rfl (by decide) ⟨rfl, rfl⟩
      · rw [Run.launchLocal, if_neg (fun h => h rfl), if_pos (by simpa using hrunning)]
        exact hfree.finish_moves (by decide) ⟨rfl, rfl⟩ ⟨rfl, rfl⟩ fun l hl => nomatch hl
    · rw [Run.launchLocal, if_pos hseq]
      refine quiet_moves hgood (hat.launches hmem fun hown => ?_) (.inl rfl) ⟨rfl, rfl⟩
      rw [hlaunches] at hown
      exact (List.mem_cons.mp hown).resolve_left fun h => hseq (congrArg Prod.snd h).symm

theorem runClear_moves (hp : Good p) (hat : At p stage) : Moves p stage p.runClear := by
  have hlower : Moves p stage ([], { p with clears := p.clears - 1 }) := by
    refine quiet_moves { hp with } ?_ (.inl rfl)
      ⟨rfl, rfl⟩
    cases stage <;> exact hat
  unfold Run.runClear
  by_cases hclears : p.clears = 0
  · rw [if_pos hclears]
    exact quiet_moves hp hat (.inl rfl) ⟨rfl, rfl⟩
  · rw [if_neg hclears]
    by_cases hchild : p.child.isSome
    · rw [if_pos hchild]
      exact hlower
    · have hnone : p.child = none := by simpa using hchild
      rw [if_neg hchild, Run.startLocal_none (by exact hnone)]
      refine quiet_moves ⟨hp.seqs, hp.nodup, hp.fallback, hp.waiting, fun _ l hl => ?_⟩ ?_
        (.inr rfl) ⟨rfl, rfl⟩
      · exact ⟨(Option.some.inj hl).symm, rfl⟩
      · cases stage with
        | here => simp [At, hnone] at hat
        | idle | waiting | deferred | failing | inHelper => exact hat

theorem runFailure_moves (hp : Good p) (hat : At p stage) : Moves p stage p.runFailure := by
  unfold Run.runFailure
  split
  case h_1 => exact quiet_moves hp hat (.inl rfl) ⟨rfl, rfl⟩
  case h_2 r failures hfailures =>
    obtain rfl : stage = .failing := by
      by_contra hne
      simp [hat.failures_nil hne] at hfailures
    obtain ⟨hrun, hexec, hfail, hnone, -⟩ := hat
    obtain ⟨rfl, rfl⟩ := List.cons.inj (hfailures.symm.trans hfail)
    have hfree : Free { p with failures := [] } :=
      ⟨{ hp with }, hrun, hexec, rfl, hnone⟩
    exact hfree.finish_moves (by decide) ⟨rfl, rfl⟩ ⟨rfl, rfl⟩ fun l hl => nomatch hl

/-- **The step lemma.** A calm step moves the request in hand. -/
theorem step_move {event : Event κ} (hp : Good p) (hat : At p stage) (hmay : event.may p.helper)
    (hcalm : Calm ⟨p, event⟩) : Moves p stage (p.step event) := by
  cases event with
  | request setup => exact request_moves hp hat hcalm
  | cancel => exact cancel_moves hp hat
  | ready | giveUp => exact flush_moves hp hat (by simpa [Event.may] using hmay) _
  | lost => exact lost_moves hp hat (by simpa [Event.may] using hmay)
  | runsFail => exact runsFail_moves hp hat (by simpa [Event.may] using hmay)
  | helperExit => exact helperExit_moves hp hat
  | localExit => exact localExit_moves hp hat
  | runLaunch => exact runLaunch_moves hp hat
  | runClear => exact runClear_moves hp hat
  | runFailure => exact runFailure_moves hp hat

/-! ## Books -/

/-- The request a process was launched for. -/
def Signal.launchOf : Signal κ → Option Nat
  | .launched l => l.request
  | .requested _ _ | .exited _ _ => none

/-- The request that has ended. -/
def Signal.exitOf : Signal κ → Option Nat
  | .exited ended _ => ended.request
  | .requested _ _ | .launched _ => none

def Signal.asked : Signal κ → Option (Nat × Setup κ)
  | .requested request setup => some (request, setup)
  | .launched _ | .exited _ _ => none

def launchesFor (request : Nat) (log : List (Signal κ)) : Nat :=
  log.countP (·.launchOf = some request)

def exitsFor (request : Nat) (log : List (Signal κ)) : Nat :=
  log.countP (·.exitOf = some request)

/-- The last request of a log, with what was asked for. -/
def lastRequest (log : List (Signal κ)) : Option (Nat × Setup κ) :=
  (log.filterMap (·.asked)).getLast?

structure Books (p : Run κ) (stage : Stage) (log : List (Signal κ)) : Prop where
  asked : stage ≠ .idle → lastRequest log = some (p.request, p.setup)
  launched : stage.launched = true → .launched p.launch ∈ log
  launches_le : ∀ r, launchesFor r log ≤ 1
  launches_zero : ∀ r, p.request < r ∨ r = p.request ∧ stage ≠ .idle ∧ stage.launched = false →
    launchesFor r log = 0
  exits_le : ∀ r, exitsFor r log ≤ 1
  exits_zero : ∀ r, p.request < r ∨ r = p.request ∧ stage ≠ .idle → exitsFor r log = 0

theorem lastRequest_append {log given : List (Signal κ)} (hgiven : ∀ s ∈ given, s.asked = none) :
    lastRequest (log ++ given) = lastRequest log := by
  rw [lastRequest, List.filterMap_append, List.filterMap_eq_nil_iff.mpr hgiven, List.append_nil]
  rfl

theorem launchesFor_append (r : Nat) (log given : List (Signal κ)) :
    launchesFor r (log ++ given) = launchesFor r log + launchesFor r given :=
  List.countP_append

theorem exitsFor_append (r : Nat) (log given : List (Signal κ)) :
    exitsFor r (log ++ given) = exitsFor r log + exitsFor r given :=
  List.countP_append

theorem Answers.request {r : Nat} {setup : Setup κ} {ended : Ended κ} {held : Held κ}
    (h : Answers r setup ended held) : ended.request = some r := by
  cases ended with
  | process l => rw [h.1]; rfl
  | failed _ | cancelled _ => exact h.1

section Books

variable {p' : Run κ} {stage' : Stage} {given log : List (Signal κ)}

/-- What is given on a page: whether there is a launch and an end for the request of the page. -/
structure Entry (p : Run κ) (given : List (Signal κ)) (launches exits : Bool) : Prop where
  launches : ∀ r, launchesFor r given = if launches ∧ r = p.request then 1 else 0
  exits : ∀ r, exitsFor r given = if exits ∧ r = p.request then 1 else 0

variable (hb : Books p stage log)
include hb

/-- The page goes on: a launch is the first, and nothing follows the end. -/
theorem Books.goesOn {launches exits : Bool}
    (hsame : p'.request = p.request ∧ p'.setup = p.setup) (hentry : Entry p' given launches exits)
    (hasked : ∀ s ∈ given, s.asked = none)
    (hpending : stage' ≠ .idle → stage ≠ .idle)
    (hlaunched : stage'.launched = true → stage.launched = true ∨ .launched p'.launch ∈ given)
    (hfirst : launches = true → stage ≠ .idle ∧ stage.launched = false ∧ stage'.launched = true)
    (hkept : stage'.launched = false → stage' ≠ .idle → stage.launched = false)
    (hend : exits = true → stage ≠ .idle ∧ stage' = .idle) : Books p' stage' (log ++ given) := by
  refine ⟨fun h => ?_, fun h => ?_, fun r => ?_, fun r hr => ?_, fun r => ?_, fun r hr => ?_⟩
  · rw [lastRequest_append hasked, hsame.1, hsame.2]
    exact hb.asked (hpending h)
  · rcases hlaunched h with hold | hnew
    · have hlaunch : p'.launch = p.launch := by rw [Run.launch, Run.launch, hsame.1, hsame.2]
      rw [hlaunch]
      exact List.mem_append_left _ (hb.launched hold)
    · exact List.mem_append_right _ hnew
  · have hle := hb.launches_le r
    have hzero := hb.launches_zero r
    rw [launchesFor_append, hentry.launches]
    grind
  · have hzero := hb.launches_zero r
    rw [launchesFor_append, hentry.launches]
    grind
  · have hle := hb.exits_le r
    have hzero := hb.exits_zero r
    rw [exitsFor_append, hentry.exits]
    grind
  · have hzero := hb.exits_zero r
    rw [exitsFor_append, hentry.exits]
    grind

/-- A new request begins a page of its own. -/
theorem Books.request (hrequest : p'.request = p.request + 1) :
    Books p' .waiting (log ++ [.requested p'.request p'.setup]) := by
  have hlater {r : Nat} {P : Prop} (hr : p'.request < r ∨ r = p'.request ∧ P) : p.request < r := by
    rcases hr with h | ⟨h, -⟩ <;> omega
  refine ⟨fun _ => ?_, fun h => absurd h (by decide), fun r => ?_, fun r hr => ?_, fun r => ?_,
    fun r hr => ?_⟩
  · simp [lastRequest, List.filterMap_append, Signal.asked]
  · rw [launchesFor_append]
    exact hb.launches_le r
  · rw [launchesFor_append, hb.launches_zero r (.inl (hlater hr))]
    rfl
  · rw [exitsFor_append]
    exact hb.exits_le r
  · rw [exitsFor_append, hb.exits_zero r (.inl (hlater hr))]
    rfl

omit hb

theorem entry_nil (p : Run κ) : Entry p [] false false := ⟨fun _ => rfl, fun _ => rfl⟩

theorem entry_launched (p : Run κ) : Entry p [.launched p.launch] true false := by
  refine ⟨fun r => ?_, fun r => rfl⟩
  rw [launchesFor, List.countP_singleton]
  simp [Signal.launchOf, Run.launch, eq_comm]

/-- **The books' step.** -/
theorem Move.books (hmove : Move p p' stage stage' given) (hb : Books p stage log) :
    Books p' stage' (log ++ given) := by
  cases hmove with
  | quiet hgiven hsame =>
    have hquiet : Entry p' given false false ∧ ∀ s ∈ given, s.asked = none := by
      rcases hgiven with rfl | rfl
      · exact ⟨entry_nil p', by simp⟩
      · exact ⟨⟨fun _ => rfl, fun _ => rfl⟩, by simp [Signal.asked]⟩
    exact hb.goesOn hsame hquiet.1 hquiet.2 id .inl nofun (fun h _ => h) nofun
  | drop hsame =>
    exact hb.goesOn hsame (entry_nil p') (by simp) (absurd rfl) nofun nofun (fun _ => absurd rfl)
      nofun
  | @request _ _ rest hold hrequest hnew hrest =>
    have hpage : Books p' .waiting (log ++ [.requested p'.request p'.setup]) := hb.request hrequest
    have hnext : Books p' stage' (log ++ [.requested p'.request p'.setup] ++ rest) := by
      cases hlaunched : stage'.launched with
      | true =>
        rw [hlaunched, if_pos rfl] at hrest
        subst hrest
        exact hpage.goesOn ⟨rfl, rfl⟩ (entry_launched p') (by simp [Signal.asked]) nofun
          (fun _ => .inr List.mem_cons_self) (fun _ => ⟨nofun, rfl, hlaunched⟩) (fun _ _ => rfl) nofun
      | false =>
        rw [hlaunched, if_neg Bool.false_ne_true] at hrest
        subst hrest
        exact hpage.goesOn ⟨rfl, rfl⟩ (entry_nil p') (by simp) nofun
          (fun h => absurd h (by simp [hlaunched])) nofun (fun _ _ => rfl) nofun
    simpa using hnext
  | launch hold hpending hnew hsame =>
    exact hb.goesOn hsame (entry_launched p') (by simp [Signal.asked]) (fun _ => hpending)
      (fun _ => .inr List.mem_cons_self) (fun _ => ⟨hpending, hold, hnew⟩) (fun _ _ => hold) nofun
  | defer hold hpending hnew hnew' hsame =>
    exact hb.goesOn hsame (entry_nil p') (by simp) (fun _ => hpending)
      (fun h => absurd h (by simp [hnew])) nofun (fun _ _ => hold) nofun
  | @exit _ ended held hstage hanswer hprocess hsame =>
    have hended : Entry p' [.exited ended held] false true := by
      refine ⟨fun r => rfl, fun r => ?_⟩
      rw [exitsFor, List.countP_singleton, hsame.1]
      simp [Signal.exitOf, hanswer.request, eq_comm]
    exact hb.goesOn hsame hended (by simp [Signal.asked]) (absurd rfl) nofun nofun
      (fun _ => absurd rfl) fun _ => ⟨hstage, rfl⟩

end Books

/-! ## Runs -/

/-- The request in hand is not lost: the helper's readiness, a deferred call or the end of its own
process will bring it on. -/
def Run.InHand (p : Run κ) : Prop :=
  p.waiting = true ∨ (p.launch, p.startSeq) ∈ p.launches ∨ p.request ∈ p.failures
  ∨ p.child = some p.launch ∨ p.exec = some p.launch

theorem At.inHand (hat : At p stage) (hrunning : p.running = true) : p.InHand := by
  cases stage with
  | idle => simp [hat.2.2.2.2] at hrunning
  | waiting => exact .inl hat.2.2.2.2.1
  | deferred => exact .inr (.inl hat.2.2.2)
  | failing => exact .inr (.inr (.inl (by simp [hat.2.2.1])))
  | here => exact .inr (.inr (.inr (.inl hat.2.2.2.2.1)))
  | inHelper => exact .inr (.inr (.inr (.inr hat.2.1)))

theorem Move.exited {p' : Run κ} {stage' : Stage} {given : List (Signal κ)}
    (hmove : Move p p' stage stage' given) {ended : Ended κ} {held : Held κ}
    (hmem : .exited ended held ∈ given) : stage ≠ .idle ∧ Answers p.request p.setup ended held
      ∧ ∀ l, ended = .process l → stage.launched = true := by
  cases hmove with
  | quiet hgiven => rcases hgiven with rfl | rfl <;> simp at hmem
  | request hold hrequest hnew hrest =>
    subst hrest
    cases hl : stage'.launched <;> simp [hl] at hmem
  | drop | launch | defer => simp at hmem
  | exit hstage hanswer hprocess hsame =>
    obtain ⟨rfl, rfl⟩ := Signal.exited.inj (List.mem_singleton.mp hmem)
    exact ⟨hstage, hanswer, hprocess⟩

theorem run_books {h : List (Step κ)} {p : Run κ} (run : machine.system.Run h p)
    (hcalm : ∀ t ∈ h, Calm t) : Good p ∧ ∃ stage, At p stage ∧ Books p stage (done h) := by
  induction run with
  | init hs =>
    cases hs
    refine ⟨⟨fun _ h => absurd h List.not_mem_nil, List.nodup_nil, fun h => absurd rfl h,
      (fun h => nomatch h), fun _ _ h => nomatch h⟩, .idle, ⟨rfl, rfl, rfl,
      fun _ h => absurd h List.not_mem_nil, rfl⟩, ?_⟩
    exact ⟨fun h => absurd rfl h, fun h => absurd h (by decide), fun _ => Nat.zero_le 1,
      fun _ _ => rfl, fun _ => Nat.zero_le 1, fun _ _ => rfl⟩
  | @step h p p' t run hstep ih =>
    obtain ⟨rfl, hmay, rfl⟩ := hstep
    obtain ⟨hgood, stage, hat, hbooks⟩ := ih fun t' ht => hcalm t' (List.mem_cons_of_mem _ ht)
    obtain ⟨hgood', stage', hat', hmove⟩ :=
      step_move hgood hat hmay (hcalm t List.mem_cons_self)
    exact ⟨hgood', stage', hat', hmove.books hbooks⟩

structure Answered (h : List (Step κ)) (p : Run κ) : Prop where
  /-- An `exited` is the end of the last request, and a process that ended was launched for it with
  its command. -/
  own : ∀ newer t older, h = newer ++ t :: older → ∀ ended held, .exited ended held ∈ signals t →
    ∃ request setup, lastRequest (done older) = some (request, setup)
      ∧ Answers request setup ended held ∧ ∀ l, ended = .process l → .launched l ∈ done older
  once : ∀ request, launchesFor request (done h) ≤ 1 ∧ exitsFor request (done h) ≤ 1
  inHand : p.running = true → p.InHand ∧ lastRequest (done h) = some (p.request, p.setup)
    ∧ exitsFor p.request (done h) = 0

/-- **A run is answered by its own process**, in every run whose requests are made when nothing of
an earlier one is left. -/
theorem runs_answered {h : List (Step κ)} {p : Run κ} (run : machine.system.Run h p)
    (hcalm : ∀ t ∈ h, Calm t) : Answered h p := by
  obtain ⟨-, stage, hat, hbooks⟩ := run_books run hcalm
  refine ⟨?_, fun r => ⟨hbooks.launches_le r, hbooks.exits_le r⟩, ?_⟩
  · rintro newer t older rfl ended held hmem
    obtain ⟨_, run'⟩ := run.of_append
    cases run' with
    | @step _ q _ _ run' hstep =>
      obtain ⟨rfl, hmay, -⟩ := hstep
      have hcalm' : ∀ t' ∈ t :: older, Calm t' := fun t' ht => hcalm t' (List.mem_append_right _ ht)
      obtain ⟨hgood, stage, hat, hbooks⟩ :=
        run_books run' fun t' ht => hcalm' t' (List.mem_cons_of_mem _ ht)
      obtain ⟨-, stage', -, hmove⟩ := step_move hgood hat hmay (hcalm' t List.mem_cons_self)
      obtain ⟨hne, hanswer, hlaunched⟩ := hmove.exited hmem
      refine ⟨_, _, hbooks.asked hne, hanswer, ?_⟩
      rintro l rfl
      rw [hanswer.1]
      exact hbooks.launched (hlaunched l rfl)
  · intro hrunning
    have hne : stage ≠ .idle := by
      rintro rfl
      simp [hat.2.2.2.2] at hrunning
    exact ⟨hat.inHand hrunning, hbooks.asked hne, hbooks.exits_zero _ (.inr ⟨rfl, hne⟩)⟩

/-- A request waits for the helper and is cancelled there, the helper goes away under the next, and
the third runs here, with a clear and a lock's scrub after it. Newest first. -/
def calmEvents : List (Event Nat) := [.localExit, .request ⟨.scrub, .plain⟩, .localExit, .runClear,
  .localExit, .request ⟨.bw 3, .plain⟩, .giveUp, .runsFail, .lost, .request ⟨.bw 2, .secret⟩,
  .helperExit, .cancel, .ready, .request ⟨.bw 1, .plain⟩]

theorem runs_answered_calm :
    exitsFor 3 (done (machine.replay calmEvents).1) = 1
      ∧ Answered (machine.replay calmEvents).1 (machine.replay calmEvents).2 := by
  have hplay : machine.Playable calmEvents ∧ (∀ t ∈ (machine.replay calmEvents).1, Calm t)
      ∧ exitsFor 3 (done (machine.replay calmEvents).1) = 1 := by decide +kernel
  exact ⟨hplay.2.2, runs_answered (machine.replay_run hplay.1) hplay.2.1⟩

instance [DecidableEq κ] (p : Run κ) : Decidable p.InHand :=
  inferInstanceAs (Decidable (p.waiting = true ∨ (p.launch, p.startSeq) ∈ p.launches
    ∨ p.request ∈ p.failures ∨ p.child = some p.launch ∨ p.exec = some p.launch))

/-- A request made while a cancelled one's run is still ending. -/
def replacedEvents : List (Event Nat) := [.helperExit, .request ⟨.bw 2, .plain⟩, .cancel,
  .request ⟨.bw 1, .plain⟩, .ready]

/-- A request made before the end of one that only the helper may do is reported. -/
def failedEvents : List (Event Nat) := [.localExit, .runFailure, .request ⟨.bw 2, .plain⟩, .cancel,
  .request ⟨.bw 1, .pinentry⟩, .giveUp]

/-- A lock's scrub after a request that was cancelled while it waited for the helper. -/
def scrubbedEvents : List (Event Nat) := [.ready, .request ⟨.scrub, .plain⟩, .cancel,
  .request ⟨.bw 1, .plain⟩]

/-- **Requests over what an earlier one left.** The end of the cancelled run is reported for the new
request, which is never launched; the new request gets two ends, the first of them not its own; and
a scrub that already runs here is launched once more, in the helper. -/
theorem runs_astray :
    (∃ h p, machine.system.Run h p ∧ done h = [.requested 1 ⟨.bw 1, .plain⟩,
      .launched ⟨some 1, .bw 1⟩, .requested 2 ⟨.bw 2, .plain⟩,
      .exited (.process ⟨some 1, .bw 1⟩) (.output ⟨some 1, .bw 1⟩)]
      ∧ p.running = false ∧ ¬p.InHand)
    ∧ (∃ h p, machine.system.Run h p ∧ done h = [.requested 1 ⟨.bw 1, .pinentry⟩,
      .requested 2 ⟨.bw 2, .plain⟩, .launched ⟨some 2, .bw 2⟩, .exited (.failed (some 1)) .message,
      .exited (.process ⟨some 2, .bw 2⟩) (.output ⟨some 2, .bw 2⟩)])
    ∧ ∃ h p, machine.system.Run h p ∧ done h = [.requested 1 ⟨.bw 1, .plain⟩,
      .requested 2 ⟨Command.scrub, .plain⟩, .launched ⟨some 2, .scrub⟩,
      .launched ⟨some 2, .scrub⟩] := by
  have hplay : machine.Playable replacedEvents ∧ machine.Playable failedEvents
      ∧ machine.Playable scrubbedEvents := by decide +kernel
  refine ⟨⟨_, _, machine.replay_run hplay.1, ?_⟩, ⟨_, _, machine.replay_run hplay.2.1, ?_⟩,
    ⟨_, _, machine.replay_run hplay.2.2, ?_⟩⟩ <;> decide +kernel

end QsBitwarden.Panel.BwRuns
