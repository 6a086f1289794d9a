import QsBitwarden.Panel.Reads

/-!
# Panel — reads match their requests

* **`wanted`** — the request whose answer a reader shows now, and **`Started`** — a run for a request
  was handed over in the current epoch, and no end of a run was reported since.
* **`Tracked`** — while a stamp is the epoch, what is in flight is a run for the wanted request of
  this epoch. One rule for each thing that can happen to a process.
* **`Calm`** — what a read must not meet: another run, or a scrub, still in flight.
* **`reads_match_requests`** — in a run of calm steps the panel takes only what it asked for, and
  **`reads_astray`** — four runs whose last request is not calm.
-/

namespace QsBitwarden.Panel.Reads

open Readers

variable {isItemDetail : String → Bool}

/-! ## What is wanted -/

def signals (isItemDetail : String → Bool) (t : Step) : List Signal :=
  (t.before.step isItemDetail t.event).1

/-- The item opened by this event. -/
def Event.opens : Event → Option String
  | .openDetail itemId _ => some itemId
  | _ => none

/-- The item opened last. -/
def opened : List Step → Option String
  | [] => none
  | t :: h => t.event.opens.or (opened h)

def wanted (item : Option String) (formOrgId : String) : Reader → Option Request
  | .items => some .items
  | .organizations => some .organizations
  | .folders => some .folders
  | .collections => some (.collections formOrgId)
  | .detail => item.map .detail

/-- A run for the request was handed over in this epoch, and is the last one: no end was reported
since. -/
def Started (isItemDetail : String → Bool) (vaultEpoch : Nat) (r : Reader) (request : Request)
    (h : List Step) : Prop :=
  Trace.Since (fun t => .exited r ∉ signals isItemDetail t)
    (fun _ t => .started r (.bw request) ∈ signals isItemDetail t ∧
      t.before.vaultEpoch = vaultEpoch) h

instance {vaultEpoch : Nat} {r : Reader} {request : Request} {h : List Step} :
    Decidable (Started isItemDetail vaultEpoch r request h) := by
  unfold Started; infer_instance

/-- The stamp is the epoch. -/
def Fresh (s : Readers) (r : Reader) : Prop := s.readEpochs r = some s.vaultEpoch

instance (s : Readers) (r : Reader) : Decidable (Fresh s r) := by unfold Fresh; infer_instance

/-! ## One process -/

/-- What may be in flight of a process whose command is `set`, for a reader that wants the request
`want`; `started` tells the requests of the last run. -/
inductive Apt (set : Command Request) (want : Option Request) (started : Request → Prop) :
    Command Request → Prop where
  | scrub (hset : set = .scrub) : Apt set want started .scrub
  | bw {request : Request} (hwant : want = some request) (hstarted : started request)
      (hset : set = .scrub ∨ set = .bw request) : Apt set want started (.bw request)

/-- The process of a reader whose stamp is `fresh`. -/
structure Tracked (fresh : Prop) (p : VaultProcess Request) (want : Option Request)
    (started : Request → Prop) : Prop where
  inFlight : fresh → ∀ command, p.InFlight command → Apt p.command want started command
  waits : fresh → p.waiting → p.running →
    p.command = .scrub ∨ ∃ request, p.command = .bw request ∧ want = some request

namespace Tracked

variable {fresh fresh' : Prop} {p p' : VaultProcess Request} {want want' : Option Request}
  {started started' : Request → Prop} {helper : Helper} {request : Request}

/-- The command may become a scrub. -/
theorem apt_imp {set set' command : Command Request} (h : Apt set want started command)
    (hset : set' = set ∨ set' = .scrub) (hstarted : ∀ q, started q → started' q) :
    Apt set' want started' command := by
  cases h with
  | scrub hscrub => exact .scrub (hset.elim (·.trans hscrub) id)
  | bw hwant hst hp =>
    refine .bw hwant (hstarted _ hst) ?_
    rcases hset with rfl | hscrub
    · exact hp
    · exact Or.inl hscrub

/-- What was in flight is still apt, and so is a command that is handed over. -/
theorem of_hands {sent : List (Command Request)} (hhands : p.Hands sent p')
    (hold : fresh → ∀ command, p.InFlight command → Apt p.command want started command)
    (hsent : fresh → p.command ∈ sent → Apt p.command want started p.command)
    (hwaits : fresh → p'.waiting → p'.running →
      p.command = .scrub ∨ ∃ request, p.command = .bw request ∧ want = some request) :
    Tracked fresh p' want started := by
  constructor
  · intro hfresh command hc
    rw [hhands.command]
    rcases hhands.inFlight command hc with hc | hc
    · exact hold hfresh command hc
    · obtain rfl := hhands.sent command hc
      exact hsent hfresh hc
  · rw [hhands.command]
    exact hwaits

theorem of_not_fresh (hstale : ¬ fresh) : Tracked fresh p want started where
  inFlight hfresh := absurd hfresh hstale
  waits hfresh := absurd hfresh hstale

/-- A process whose run has ended. -/
theorem of_ended (hnone : ∀ command, ¬ p.InFlight command) (hstopped : p.running = false) :
    Tracked fresh p want started where
  inFlight _ command hc := absurd hc (hnone command)
  waits _ _ hrunning := by simp [hstopped] at hrunning

variable (ht : Tracked fresh p want started)
include ht

/-- Nothing new is in flight, and the caller has not touched the process. -/
theorem update {ended : Bool} (hgoes : p.Goes ended p') (hfresh : fresh' → fresh)
    (hstarted : ∀ request, started request → started' request) :
    Tracked fresh' p' want started' where
  inFlight hf command hc := by
    exact apt_imp (ht.inFlight (hfresh hf) command (hgoes.inFlight command hc))
      (Or.inl hgoes.command) hstarted
  waits hf hwaiting hrunning := by
    obtain ⟨hwaiting, hrunning⟩ := hgoes.waits hwaiting hrunning
    rw [hgoes.command]
    exact ht.waits (hfresh hf) hwaiting hrunning

/-- What a fresh process with this command has in flight was started for the request. -/
theorem own (hfresh : fresh) (hcommand : p.command = .bw request) {command : Command Request}
    (hc : p.InFlight command) : command = .bw request ∧ started request := by
  cases ht.inFlight hfresh command hc with
  | scrub hscrub => cases hcommand.symm.trans hscrub
  | bw _ hst hset =>
    rcases hset with hscrub | hother
    · cases hcommand.symm.trans hscrub
    · cases hcommand.symm.trans hother
      exact ⟨rfl, hst⟩

/-- The request is another one from now on, or the stamp is renewed: the process is settled, or is
already a fresh one for that request. -/
theorem retarget (hcalm : p.settled ∨ (fresh ∧ p.command = .bw request)) :
    Tracked fresh' p (some request) started := by
  rcases hcalm with hsettled | ⟨hfresh, hcommand⟩
  · simp only [VaultProcess.settled, Bool.and_eq_true, Bool.not_eq_true', Bool.and_eq_false_iff]
      at hsettled
    refine ⟨fun _ command hc => absurd hc (VaultProcess.not_inFlight_of_idle hsettled.1 command), ?_⟩
    intro _ hwaiting hrunning
    simp [hwaiting, hrunning] at hsettled
  · refine ⟨fun _ command hc => ?_, fun _ _ _ => Or.inr ⟨request, hcommand, rfl⟩⟩
    obtain ⟨rfl, hst⟩ := ht.own hfresh hcommand hc
    exact .bw rfl hst (Or.inr hcommand)

/-- The command is set and the process started. -/
theorem serve (hp : p.Sound helper) (hcalm : p.idle ∨ (fresh ∧ p.command = .bw request))
    (hstarted : ∀ q, started q → started' q)
    (hnew : .bw request ∈ ({ p with command := .bw request }.setRunning helper true).1 →
      started' request) :
    Tracked fresh' ({ p with command := .bw request }.setRunning helper true).2 (some request)
      started' := by
  refine .of_hands (VaultProcess.hands_setRunning (hp.setCommand (.bw request))) ?_
    (fun _ hmem => .bw rfl (hnew hmem) (Or.inr rfl)) fun _ _ _ => Or.inr ⟨request, rfl, rfl⟩
  -- A run from before: then it is one for the same request.
  intro _ command hold
  rcases hcalm with hidle | ⟨hfresh, hcommand⟩
  · exact absurd hold (VaultProcess.not_inFlight_of_idle hidle command)
  · obtain ⟨rfl, hst⟩ := ht.own hfresh hcommand hold
    exact .bw rfl (hstarted request hst) (Or.inr rfl)

/-- A scrub takes the process. A killed run may still be in flight: its answer is dropped. -/
theorem scrub (hp : p.Sound helper) (hstarted : ∀ q, started q → started' q) :
    Tracked fresh ({ p with command := .scrub }.setRunning helper true).2 want started' := by
  refine .of_hands (VaultProcess.hands_setRunning (hp.setCommand .scrub)) ?_
    (fun _ _ => .scrub rfl) fun _ _ _ => Or.inl rfl
  exact fun hfresh command hold => apt_imp (ht.inFlight hfresh command hold) (Or.inr rfl) hstarted

/-- What waited is handed over. -/
theorem flush (hp : p.Sound .awaited) (hstarted : ∀ q, started q → started' q)
    (hnew : ∀ q, .bw q ∈ (p.flush helper).1 → started' q) :
    Tracked fresh (p.flush helper).2 want started' := by
  refine .of_hands (VaultProcess.hands_flush hp helper) ?_ ?_ ?_
  · exact fun hfresh command hold => apt_imp (ht.inFlight hfresh command hold) (Or.inl rfl) hstarted
  · intro hfresh hmem
    obtain ⟨hwaiting, hrunning⟩ := VaultProcess.waits_of_mem_flush hmem
    rcases ht.waits hfresh hwaiting hrunning with hscrub | ⟨request, hbw, hwant⟩
    · rw [hscrub]
      exact .scrub rfl
    · rw [hbw] at hmem ⊢
      exact .bw hwant (hnew request hmem) (Or.inr rfl)
  · intro hfresh hwaiting hrunning
    obtain ⟨hwaiting, hrunning⟩ := VaultProcess.waits_of_flush hwaiting hrunning
    exact ht.waits hfresh hwaiting hrunning

end Tracked

variable {r : Reader}

/-! ## All readers, within a step

A step reports the end of a run and may start another one, so the invariant is stated with the
signals given so far. -/

/-- `Started`, after the signals of the step so far. -/
def StartedIn (isItemDetail : String → Bool) (sigs : List Signal) (h : List Step) (vaultEpoch : Nat)
    (r : Reader) (request : Request) : Prop :=
  .started r (.bw request) ∈ sigs ∨
    (.exited r ∉ sigs ∧ Started isItemDetail vaultEpoch r request h)

theorem StartedIn.append {sigs new : List Signal} {h : List Step} {vaultEpoch : Nat}
    {request : Request} (hst : StartedIn isItemDetail sigs h vaultEpoch r request)
    (hquiet : .exited r ∉ new) : StartedIn isItemDetail (sigs ++ new) h vaultEpoch r request := by
  rcases hst with hmem | ⟨hexit, hst⟩
  · exact Or.inl (List.mem_append_left _ hmem)
  · exact Or.inr ⟨List.not_mem_append hexit hquiet, hst⟩

structure Sound (isItemDetail : String → Bool) (now : Nat) (sigs : List Signal) (h : List Step)
    (item : Option String) (s : Readers) : Prop where
  procs : ∀ r, (s.procs r).Sound s.helper
  stamps : ∀ r epoch, s.readEpochs r = some epoch → epoch ≤ s.vaultEpoch
  tracked : ∀ r, Tracked (Fresh s r) (s.procs r) (wanted item s.formOrgId r)
    (StartedIn isItemDetail sigs h s.vaultEpoch r)
  epoch : s.vaultEpoch = now

/-- The part of the state `Sound` speaks of. -/
def frame (s : Readers) : (Reader → VaultProcess Request) × (Reader → Option Nat) × Helper × Nat ×
    String :=
  (s.procs, s.readEpochs, s.helper, s.vaultEpoch, s.formOrgId)

/-! ### The end of a run -/

/-- What the end of a run brings about: its handler refuses the text, takes that of a read which
succeeded and is not stale, or asks for the list again. -/
inductive EndCase (s : Readers) (r : Reader) (exitCode : Int) :
    Option String → List Signal × Readers → Prop where
  | none : EndCase s r exitCode none ([], s)
  | refused {text : String} {s' : Readers} (hframe : frame s' = frame s)
      (htaken : s'.taken = s.taken) : EndCase s r exitCode (some text) ([.exited r], s')
  | took {text : String} {s' : Readers} (hcode : exitCode = 0)
      (hscrub : (s.procs r).command.isScrub = false) (hfresh : Fresh s r)
      (hframe : frame s' = frame s) (htaken : s'.taken = Function.update s.taken r (some text)) :
      EndCase s r exitCode (some text) ([.exited r, .read r text], s')
  | retried {text : String} {s' : Readers} (hr : r = .items)
      (hframe : frame s' = frame ((s.beginVaultRead r).run r (.bw .items)).2)
      (htaken : s'.taken = s.taken) : EndCase s r exitCode (some text)
        (.exited r :: ((s.beginVaultRead r).run r (.bw .items)).1, s')

section

variable {s : Readers} {r' : Reader} {exitCode : Int} {text : Option String} {text' : String}

theorem ended_case {agent : Bool} :
    EndCase s r exitCode text (s.ended isItemDetail r agent exitCode text) := by
  unfold ended onExited onListProcessExited onListFinished vaultReadIsStale
  cases text with
  | none => exact .none
  | some text =>
    dsimp only
    split
    · exact .refused rfl rfl
    next hscrub =>
    have hscrub : (s.procs r).command.isScrub = false := by simpa using hscrub
    cases r with
    | items =>
      dsimp only
      split_ifs with hcode hstale
      · exact .refused rfl rfl
      · simp only [Bool.or_eq_true, decide_eq_true_eq, not_or, not_not] at hstale
        exact .took hcode hscrub hstale.1 rfl rfl
      · exact .retried rfl rfl rfl
      · exact .retried rfl rfl rfl
      · exact .refused rfl rfl
    | organizations | folders | collections | detail =>
      dsimp only
      split_ifs with htake
      · simp only [Bool.and_eq_true, decide_eq_true_eq, Bool.not_eq_true', Bool.or_eq_false_iff,
          decide_eq_false_iff_not, not_not] at htake
        exact .took (by tauto) hscrub (by unfold Fresh; tauto) rfl rfl
      · exact .refused rfl rfl

namespace EndCase

variable {outcome : List Signal × Readers} (hcase : EndCase s r exitCode text outcome)
include hcase

/-- A handler only sees the process of its reader. -/
theorem procs (hr : r' ≠ r) : outcome.2.procs r' = s.procs r' := by
  cases hcase with
  | none => rfl
  | refused hframe | took _ _ _ hframe => rw [show _ = s.procs from (Prod.mk.inj hframe).1]
  | retried _ hframe =>
    rw [(Prod.mk.inj hframe).1]
    exact Function.update_of_ne hr _ _

theorem read (hread : .read r' text' ∈ outcome.1) :
    r' = r ∧ text = some text' ∧ exitCode = 0 ∧ (s.procs r).command.isScrub = false ∧ Fresh s r := by
  cases hcase with
  | none => cases hread
  | refused => simp at hread
  | took hcode hscrub hfresh =>
    obtain ⟨rfl, rfl⟩ : r' = r ∧ text' = _ := by simpa using hread
    exact ⟨rfl, rfl, hcode, hscrub, hfresh⟩
  | retried => simp [run] at hread

theorem taken (htaken : outcome.2.taken r' = some text') :
    s.taken r' = some text' ∨ exitCode = 0 ∧ .read r' text' ∈ outcome.1 := by
  cases hcase with
  | none => exact Or.inl htaken
  | refused _ hsame | retried _ _ hsame => exact Or.inl (hsame ▸ htaken)
  | took hcode _ _ _ hset =>
    rw [hset] at htaken
    by_cases hr : r' = r
    · subst hr
      simpa [hcode] using Or.inr htaken.symm
    · exact Or.inl (by simpa [hr] using htaken)

end EndCase

end

/-- The handed-over commands of one reader report no end. -/
theorem exited_notMem_started {r' : Reader} {commands : List (Command Request)} :
    Signal.exited r ∉ commands.map (Signal.started r') := by
  simp

namespace Sound

variable {now : Nat} {sigs new : List Signal} {h : List Step} {item item' : Option String}
  {s s' : Readers}
  {r : Reader} {request : Request}

variable {orgId : String}

theorem new_readers : Sound isItemDetail Readers.new.vaultEpoch [] [] none .new where
  procs _ := .new _
  stamps r epoch hstamp := by cases hstamp
  tracked r := .of_not_fresh fun hfresh => by cases hfresh
  epoch := rfl

variable (hs : Sound isItemDetail now sigs h item s)
include hs

/-- One reader changes. -/
theorem at_reader (r : Reader) (p : VaultProcess Request) (stamp : Option Nat)
    (hs' : frame s' = (Function.update s.procs r p, Function.update s.readEpochs r stamp, s.helper,
      s.vaultEpoch, orgId))
    (hothers : ∀ r' ≠ r, wanted item' orgId r' = wanted item s.formOrgId r')
    (hquiet : ∀ r' ≠ r, .exited r' ∉ new) (hproc : p.Sound s.helper)
    (hstamp : ∀ epoch, stamp = some epoch → epoch ≤ s.vaultEpoch)
    (htracked : Tracked (stamp = some s.vaultEpoch) p (wanted item' orgId r)
      (StartedIn isItemDetail (sigs ++ new) h s.vaultEpoch r)) :
    Sound isItemDetail now (sigs ++ new) h item' s' := by
  simp only [frame, Prod.mk.injEq] at hs'
  obtain ⟨hprocs, hstamps, hhelper, hepoch, rfl⟩ := hs'
  refine ⟨fun r' => ?_, fun r' epoch hst => ?_, fun r' => ?_, hepoch.trans hs.epoch⟩
  · rw [hprocs, hhelper]
    by_cases hr : r' = r
    · rwa [hr, Function.update_self]
    · rw [Function.update_of_ne hr]
      exact hs.procs r'
  · rw [hstamps] at hst
    rw [hepoch]
    by_cases hr : r' = r
    · rw [hr, Function.update_self] at hst
      exact hstamp epoch hst
    · rw [Function.update_of_ne hr] at hst
      exact hs.stamps r' epoch hst
  · unfold Fresh
    rw [hprocs, hstamps, hepoch]
    by_cases hr : r' = r
    · rwa [hr, Function.update_self, Function.update_self]
    · rw [Function.update_of_ne hr, Function.update_of_ne hr, hothers r' hr]
      exact (hs.tracked r').update .refl id fun request hst => hst.append (hquiet r' hr)

/-- A read is begun, after the signals `given`. -/
theorem begun (given : List Signal) {fresh : Prop} {want : Option Request}
    {started : Request → Prop}
    (hs' : frame s' = frame { ((s.beginVaultRead r).run r (.bw request)).2 with formOrgId := orgId })
    (hothers : ∀ r' ≠ r, wanted item' orgId r' = wanted item s.formOrgId r')
    (hwant : wanted item' orgId r = some request) (hgiven : ∀ r' ≠ r, .exited r' ∉ given)
    (ht : Tracked fresh (s.procs r) want started)
    (hcalm : (s.procs r).idle ∨ (fresh ∧ (s.procs r).command = .bw request))
    (hold : ∀ q, started q → StartedIn isItemDetail (sigs ++ given) h s.vaultEpoch r q) :
    Sound isItemDetail now (sigs ++ (given ++ ((s.beginVaultRead r).run r (.bw request)).1)) h item'
      s' := by
  refine hs.at_reader r _ _ hs' hothers
    (fun r' hr => List.not_mem_append (hgiven r' hr) exited_notMem_started)
    (((hs.procs r).setCommand _).setRunning true) ?_ ?_
  · rintro epoch ⟨⟩
    exact Nat.le_refl _
  · rw [hwant, ← List.append_assoc]
    refine ht.serve (hs.procs r) hcalm (fun q hst => (hold q hst).append exited_notMem_started) ?_
    intro hmem
    exact Or.inl (List.mem_append_right _ (List.mem_map.mpr ⟨_, hmem, rfl⟩))

theorem serve
    (hs' : frame s' = frame { ((s.beginVaultRead r).run r (.bw request)).2 with formOrgId := orgId })
    (hothers : ∀ r' ≠ r, wanted item' orgId r' = wanted item s.formOrgId r')
    (hwant : wanted item' orgId r = some request)
    (hcalm : (s.procs r).idle ∨ (Fresh s r ∧ (s.procs r).command = .bw request)) :
    Sound isItemDetail now (sigs ++ ((s.beginVaultRead r).run r (.bw request)).1) h item' s' :=
  hs.begun [] hs' hothers hwant (by simp) (hs.tracked r) hcalm fun q hst => by simpa

/-- The request changes or the stamp is renewed, and no run is started. -/
theorem retarget {epochs : Reader → Option Nat}
    (hs' : frame s' = (s.procs, epochs, s.helper, s.vaultEpoch, orgId))
    (hstamps : epochs = s.readEpochs ∨
      epochs = Function.update s.readEpochs r (some s.vaultEpoch))
    (hothers : ∀ r' ≠ r, wanted item' orgId r' = wanted item s.formOrgId r')
    (hwant : wanted item' orgId r = some request)
    (hcalm : epochs r ≠ some s.vaultEpoch ∨ (s.procs r).settled ∨
      (Fresh s r ∧ (s.procs r).command = .bw request)) : Sound isItemDetail now sigs h item' s' := by
  obtain ⟨stamp, rfl, hle⟩ : ∃ stamp, epochs = Function.update s.readEpochs r stamp ∧
      ∀ epoch, stamp = some epoch → epoch ≤ s.vaultEpoch := by
    rcases hstamps with rfl | rfl
    · exact ⟨_, (Function.update_eq_self r _).symm, hs.stamps r⟩
    · exact ⟨_, rfl, fun epoch hst => Nat.le_of_eq (Option.some.inj hst).symm⟩
  rw [← List.append_nil sigs]
  refine hs.at_reader r (s.procs r) stamp (by rwa [Function.update_eq_self]) hothers (by simp)
    (hs.procs r) hle ?_
  rw [hwant, List.append_nil]
  rcases hcalm with hstale | hcalm
  · exact .of_not_fresh (by simpa using hstale)
  · exact (hs.tracked r).retarget hcalm

/-- A process goes on by itself, with no end reported. -/
theorem update {p : VaultProcess Request}
    (hs' : frame s' = frame { s with procs := Function.update s.procs r p })
    (hp : p.Sound s.helper) (htracked : Tracked (Fresh s r) p (wanted item s.formOrgId r)
      (StartedIn isItemDetail sigs h s.vaultEpoch r)) : Sound isItemDetail now sigs h item s' := by
  rw [← List.append_nil sigs]
  refine hs.at_reader r p (s.readEpochs r) ?_ (fun _ _ => rfl) (by simp) hp (hs.stamps r) ?_
  · rwa [Function.update_eq_self]
  · rwa [List.append_nil]

/-! ### Ends -/

/-- A handler that starts no run. -/
theorem handled (hs' : frame s' = frame s) (hidle : (s.procs r).idle)
    (hstopped : (s.procs r).running = false) (hquiet : ∀ r' ≠ r, .exited r' ∉ new) :
    Sound isItemDetail now (sigs ++ new) h item s' := by
  refine hs.at_reader r (s.procs r) (s.readEpochs r) ?_ (fun _ _ => rfl) hquiet (hs.procs r)
    (hs.stamps r) (.of_ended (VaultProcess.not_inFlight_of_idle hidle) hstopped)
  rwa [Function.update_eq_self, Function.update_eq_self]

/-- The end of a run is reported, and handled. -/
theorem ended {exitCode : Int} {text : Option String} {outcome : List Signal × Readers}
    (hcase : EndCase s r exitCode text outcome) (hidle : (s.procs r).idle)
    (hstopped : (s.procs r).running = false) :
    Sound isItemDetail now (sigs ++ outcome.1) h item outcome.2 := by
  cases hcase with
  | none => simpa
  | refused hframe | took _ _ _ hframe =>
    exact hs.handled hframe hidle hstopped (by simp)
  | retried hr hframe =>
    subst hr
    have hended : Tracked True (s.procs .items) (some .items) (fun _ => False) :=
      .of_ended (VaultProcess.not_inFlight_of_idle hidle) hstopped
    exact hs.begun [.exited .items] hframe (fun _ _ => rfl) rfl (by simp) hended (Or.inl hidle)
      fun q hq => hq.elim

/-- The helper is gone: the readers whose runs it had are handled one after the other. -/
theorem helperGone_handled (agent : Bool) (lost : Reader → Bool) {readers : List Reader}
    (hnodup : readers.Nodup)
    (hlost : ∀ r ∈ readers, lost r → (s.procs r).idle ∧ (s.procs r).running = false) :
    let fold := readers.foldl (fun acc r =>
      let next := acc.2.ended isItemDetail r agent 1 (if lost r then some "" else none)
      (acc.1 ++ next.1, next.2)) (sigs, s)
    Sound isItemDetail now fold.1 h item fold.2 := by
  induction readers generalizing sigs s with
  | nil => exact hs
  | cons r readers ih =>
    obtain ⟨hr, hnodup⟩ := List.nodup_cons.mp hnodup
    obtain ⟨hfirst, hrest⟩ := List.forall_mem_cons.mp hlost
    simp only [List.foldl_cons]
    cases hl : lost r with
    | false =>
      simp only [Readers.ended, Bool.false_eq_true, if_false, List.append_nil]
      exact ih hs hnodup hrest
    | true =>
      obtain ⟨hidle, hstopped⟩ := hfirst hl
      refine ih (hs.ended ended_case hidle hstopped) hnodup fun r' hr' hl' => ?_
      have hne : r' ≠ r := fun heq => hr (heq ▸ hr')
      rw [ended_case.procs hne]
      exact hrest r' hr' hl'

/-! ### Scrubs -/

theorem scrubStep : Sound isItemDetail now (sigs ++ s.scrubStep.1) h item s.scrubStep.2 := by
  have hquiet (r : Reader) : .exited r ∉ s.scrubStep.1 := by
    unfold Readers.scrubStep
    simp only [List.mem_flatMap, not_exists, not_and]
    intro r' _
    split_ifs <;> simp
  refine ⟨fun r => ?_, hs.stamps, fun r => ?_, hs.epoch⟩
  · show ((if _ then _ else _ : VaultProcess Request)).Sound s.helper
    split_ifs
    · exact ((hs.procs r).setCommand .scrub).setRunning true
    · exact hs.procs r
  · show Tracked (Fresh s r) (if _ then _ else _ : VaultProcess Request) _ _
    split_ifs
    · exact (hs.tracked r).scrub (hs.procs r) fun q hst => hst.append (hquiet r)
    · exact (hs.tracked r).update .refl id fun q hst => hst.append (hquiet r)

omit hs

/-! ### The end of a step -/

/-- The signals of the step become history. -/
theorem record {t : Step}
    (hs : Sound isItemDetail t.before.vaultEpoch (signals isItemDetail t) h item s) :
    Sound isItemDetail s.vaultEpoch [] (t :: h) item s := by
  refine ⟨hs.procs, hs.stamps, fun r => ?_, rfl⟩
  refine (hs.tracked r).update .refl id fun request hst => ?_
  refine Or.inr ⟨by simp, ?_⟩
  rcases hst with hmem | ⟨hquiet, hst⟩
  · exact .start ⟨hmem, hs.epoch.symm⟩
  · exact .keep hquiet hst

/-- A new epoch: no stamp is fresh. -/
theorem renewed (hprocs : ∀ r, (s.procs r).Sound s.helper)
    (hstamps : ∀ r epoch, s.readEpochs r = some epoch → epoch < s.vaultEpoch) :
    Sound isItemDetail s.vaultEpoch sigs h item s where
  procs := hprocs
  stamps r epoch hst := Nat.le_of_lt (hstamps r epoch hst)
  tracked r := .of_not_fresh fun hfresh => Nat.lt_irrefl _ (hstamps r _ hfresh)
  epoch := rfl

end Sound

/-! ## Calm steps -/

/-- A read for this request finds nothing in flight, or a read for it begun in this epoch. -/
def Serves (s : Readers) (r : Reader) (request : Request) : Prop :=
  (s.procs r).idle ∨ (Fresh s r ∧ (s.procs r).command = .bw request)

/-- The same, and nothing waits for the helper. -/
def Rests (s : Readers) (r : Reader) (request : Request) : Prop :=
  (s.procs r).settled ∨ (Fresh s r ∧ (s.procs r).command = .bw request)

/-- The runs the code handles: a read that is begun `Serves` its request. A request that changes with
no read begun finds the process at rest, or its answer refused already. -/
def Calm (t : Step) : Prop :=
  let s := t.before
  match t.event with
  | .loadItems blocked _ =>
    s.session → if blocked then Rests s .items .items else Serves s .items .items
  | .loadOrganizations => s.session → Serves s .organizations .organizations
  | .loadFolders => s.session → Serves s .folders .folders
  | .setFormOrganization orgId =>
    if s.session && orgId ≠ "" && orgId ≠ "personal" && orgId ≠ "all" then
      Serves s .collections (.collections orgId)
    else ¬ Fresh s .collections ∨ Rests s .collections (.collections orgId)
  | .startForm orgId _ =>
    if s.session && orgId ≠ "" && orgId ≠ "personal" then
      Serves s .collections (.collections orgId)
    else ¬ Fresh s .collections ∨ Rests s .collections (.collections orgId)
  | .resetItemForm => ¬ Fresh s .collections ∨ Rests s .collections (.collections "")
  | .openDetail itemId row =>
    match row with
    | .whole => ¬ Fresh s .detail ∨ Rests s .detail (.detail itemId)
    | .sshKey => Rests s .detail (.detail itemId)
    | .secretsHeld =>
      if s.helper = .active then Rests s .detail (.detail itemId)
      else Serves s .detail (.detail itemId)
    | .other => Serves s .detail (.detail itemId)
  | _ => True

instance (s : Readers) (r : Reader) (request : Request) : Decidable (Serves s r request) := by
  unfold Serves; infer_instance

instance (s : Readers) (r : Reader) (request : Request) : Decidable (Rests s r request) := by
  unfold Rests; infer_instance

instance (t : Step) : Decidable (Calm t) := by
  unfold Calm
  dsimp only
  split <;> first | infer_instance | (split <;> infer_instance)

/-! ## Steps -/

theorem wanted_of_ne_collections {item : Option String} {orgId orgId' : String} {r : Reader}
    (hr : r ≠ .collections) : wanted item orgId r = wanted item orgId' r := by
  cases r with
  | collections => exact absurd rfl hr
  | items | organizations | folders | detail => rfl

theorem wanted_of_ne_detail {item item' : Option String} {orgId : String} {r : Reader}
    (hr : r ≠ .detail) : wanted item orgId r = wanted item' orgId r := by
  cases r with
  | detail => exact absurd rfl hr
  | items | organizations | folders | collections => rfl

namespace Sound

variable {now : Nat} {h : List Step} {item : Option String} {s s' : Readers} {event : Event}

variable {orgId : String}

variable (hs : Sound isItemDetail now [] h item s)
include hs

theorem loadItems {blocked agent : Bool} (hcalm : Calm ⟨s, .loadItems blocked agent⟩) :
    Sound isItemDetail now (s.loadItems blocked agent).1 h item (s.loadItems blocked agent).2 := by
  unfold Readers.loadItems
  split_ifs with hsession hearly hblocked
  · exact hs
  · exact hs
  · have hrests : Rests s .items .items := by
      have := hcalm (by simpa using hsession)
      rwa [if_pos hblocked] at this
    exact hs.retarget rfl (Or.inr rfl) (fun _ _ => rfl) rfl (Or.inr hrests)
  · have hserves : Serves s .items .items := by
      have := hcalm (by simpa using hsession)
      rwa [if_neg hblocked] at this
    exact hs.serve rfl (fun _ _ => rfl) rfl hserves

theorem loadMetadata {r : Reader} {request : Request} (hcalm : s.session → Serves s r request)
    (hwant : wanted item s.formOrgId r = some request) :
    Sound isItemDetail now (s.loadMetadata r request).1 h item (s.loadMetadata r request).2 := by
  unfold Readers.loadMetadata
  split_ifs with hsession
  · exact hs
  · exact hs.serve rfl (fun _ _ => rfl) hwant (hcalm (by simpa using hsession))

/-- The organization of the form is chosen, with no read. -/
theorem choose (hcalm : ¬ Fresh s .collections ∨ Rests s .collections (.collections orgId))
    (hs' : frame s' = frame { s with formOrgId := orgId }) : Sound isItemDetail now [] h item s' :=
  hs.retarget hs' (Or.inl rfl) (fun _ hr => wanted_of_ne_collections hr) rfl hcalm

/-- The organization of the form is chosen, and its collections are read. -/
theorem loadOrgCollections
    (hcalm : if s.session && orgId ≠ "" then Serves s .collections (.collections orgId)
      else ¬ Fresh s .collections ∨ Rests s .collections (.collections orgId))
    (hs' : frame s' = frame { s with formOrgId := orgId }) (hsession : s'.session = s.session) :
    Sound isItemDetail now (s'.loadOrgCollections orgId).1 h item (s'.loadOrgCollections orgId).2 := by
  unfold Readers.loadOrgCollections
  rw [hsession]
  split_ifs with hnone
  · refine hs.choose ?_ hs'
    rwa [if_neg] at hcalm
    revert hnone
    cases s.session <;> simp
  · rw [if_pos] at hcalm
    · unfold Readers.run Readers.beginVaultRead
      simp only [frame, Prod.mk.injEq] at hs'
      obtain ⟨hprocs, hstamps, hhelper, hepoch, horg⟩ := hs'
      dsimp only
      rw [hprocs, hhelper, hepoch, hstamps, horg]
      exact hs.serve rfl (fun r hr => wanted_of_ne_collections hr) rfl hcalm
    · revert hnone
      cases s.session <;> simp

theorem setFormOrganization (hcalm : Calm ⟨s, .setFormOrganization orgId⟩) :
    Sound isItemDetail now (s.setFormOrganization orgId).1 h item (s.setFormOrganization orgId).2 := by
  unfold Calm at hcalm
  dsimp only at hcalm
  unfold Readers.setFormOrganization
  split_ifs with hload
  · refine hs.loadOrgCollections ?_ rfl rfl
    simp only [Bool.and_eq_true, decide_eq_true_eq] at hload
    simpa [hload.1.1, hload.1.2, hload.2] using hcalm
  · refine hs.choose ?_ rfl
    rwa [if_neg] at hcalm
    revert hload
    cases s.session <;> simp

theorem startForm {restored : Bool} (hcalm : Calm ⟨s, .startForm orgId restored⟩) :
    Sound isItemDetail now (s.startForm orgId restored).1 h item (s.startForm orgId restored).2 := by
  unfold Calm at hcalm
  dsimp only at hcalm
  unfold Readers.startForm
  dsimp only
  by_cases hload : (decide (orgId ≠ "") && decide (orgId ≠ "personal")) = true
  · rw [if_pos hload]
    simp only [Bool.and_eq_true, decide_eq_true_eq] at hload
    have hcalm : if s.session && orgId ≠ "" then Serves s .collections (.collections orgId)
        else ¬ Fresh s .collections ∨ Rests s .collections (.collections orgId) := by
      simpa [hload.1, hload.2] using hcalm
    cases restored <;> exact hs.loadOrgCollections hcalm rfl rfl
  · rw [if_neg hload]
    have hcalm : ¬ Fresh s .collections ∨ Rests s .collections (.collections orgId) := by
      rwa [if_neg] at hcalm
      revert hload
      cases s.session <;> simp
    cases restored <;> exact hs.choose hcalm rfl

theorem openDetail {itemId : String} {row : Row} (hcalm : Calm ⟨s, .openDetail itemId row⟩) :
    Sound isItemDetail now (s.openDetail itemId row).1 h (some itemId) (s.openDetail itemId row).2 := by
  have hothers : ∀ r' ≠ Reader.detail,
      wanted (some itemId) s.formOrgId r' = wanted item s.formOrgId r' :=
    fun r' hr => wanted_of_ne_detail hr
  unfold Readers.openDetail
  cases row with
  | whole => exact hs.retarget rfl (Or.inl rfl) hothers rfl hcalm
  | sshKey => exact hs.retarget rfl (Or.inr rfl) hothers rfl (Or.inr hcalm)
  | secretsHeld =>
    unfold Calm at hcalm
    dsimp only at hcalm ⊢
    split_ifs at hcalm ⊢ with hactive
    · exact hs.retarget rfl (Or.inr rfl) hothers rfl (Or.inr hcalm)
    · exact hs.serve rfl hothers rfl hcalm
  | other => exact hs.serve rfl hothers rfl hcalm

/-- A reader's process reports an end, or goes on. -/
theorem exit {r : Reader} {p : VaultProcess Request} {exitCode : Int} {text : Option String}
    {outcome : List Signal × Readers} {reported : Bool}
    (hcase : EndCase { s with procs := Function.update s.procs r p } r exitCode text outcome)
    (hp : p.Sound s.helper) (hgoes : (s.procs r).Goes reported p)
    (hreported : text.isSome = reported) : Sound isItemDetail now outcome.1 h item outcome.2 := by
  cases text with
  | none =>
    cases hcase
    exact hs.update rfl hp ((hs.tracked r).update hgoes id fun _ hst => hst)
  | some text =>
    obtain ⟨hidle, hstopped⟩ := hgoes.idle hreported.symm
    have hafter : Sound isItemDetail now [] h item { s with procs := Function.update s.procs r p } :=
      hs.update rfl hp
        (.of_ended (VaultProcess.not_inFlight_of_idle hidle) hstopped)
    refine hafter.ended hcase ?_ ?_
    · simpa using hidle
    · simpa using hstopped

end Sound

variable {s : Readers}

/-- Only these events move the epoch. -/
def Event.movesEpoch : Event → Bool
  | .dropVaultState | .unlock | .adoptSession _ => true
  | _ => false

namespace Sound

variable {now : Nat} {h : List Step} {item : Option String} {s : Readers} {event : Event}

variable (hs : Sound isItemDetail now [] h item s)
include hs

theorem helperReady (hawaited : s.helper = .awaited) (helper : Helper) :
    Sound isItemDetail now (s.step isItemDetail (.helperReady helper)).1 h item
      (s.step isItemDetail (.helperReady helper)).2 := by
  have hp : ∀ r, (s.procs r).Sound .awaited := fun r => hawaited ▸ hs.procs r
  simp only [step, if_pos hawaited]
  have hquiet (r : Reader) : .exited r ∉
      Reader.all.flatMap fun r => ((s.procs r).flush helper).1.map (Signal.started r) := by
    simp
  refine ⟨fun r => (hp r).flush, hs.stamps, fun r => ?_, hs.epoch⟩
  refine (hs.tracked r).flush (hp r) (fun q hst => hst.append (hquiet r)) fun q hmem => ?_
  exact Or.inl (List.mem_flatMap.mpr ⟨r, r.mem_all, List.mem_map.mpr ⟨_, hmem, rfl⟩⟩)

theorem helperGone (hactive : s.helper = .active) (agent : Bool) :
    Sound isItemDetail now (s.helperGone isItemDetail agent).1 h item
      (s.helperGone isItemDetail agent).2 := by
  have hp : ∀ r, (s.procs r).Sound .active := fun r => hactive ▸ hs.procs r
  -- Every process has lost its run, and none of the handlers has been called.
  have hgone : Sound isItemDetail now [] h item
      { s with helper := .awaited, procs := fun r => (s.procs r).helperExit.2 } := by
    refine ⟨fun r => (hp r).helperGone, hs.stamps, fun r => ?_, hs.epoch⟩
    exact (hs.tracked r).update VaultProcess.goes_helperExit id fun _ hst => hst
  exact hgone.helperGone_handled agent (fun r => (s.procs r).helperExit.1) (by decide)
    fun r _ hlost => VaultProcess.goes_helperExit.idle hlost

/-- The events that leave the epoch as it is. -/
theorem step_signals (hcalm : Calm ⟨s, event⟩) (hkeeps : event.movesEpoch = false) :
    Sound isItemDetail now (s.step isItemDetail event).1 h (event.opens.or item)
      (s.step isItemDetail event).2 := by
  cases event with
  | loadItems blocked agent => exact hs.loadItems hcalm
  | loadOrganizations | loadFolders => exact hs.loadMetadata hcalm rfl
  | setFormOrganization orgId => exact hs.setFormOrganization hcalm
  | startForm orgId restored => exact hs.startForm hcalm
  | resetItemForm => exact hs.choose hcalm rfl
  | openDetail itemId row => exact hs.openDetail hcalm
  | kill r =>
    have hkilled := (hs.tracked r).update (VaultProcess.goes_kill s.helper) id fun _ hst => hst
    simp only [step]
    split_ifs <;> exact hs.update rfl ((hs.procs r).setRunning false) hkilled
  | status unlocked => exact { hs with }
  | scrubRetry => exact hs.scrubStep
  | helperReady helper =>
    by_cases hawaited : s.helper = .awaited
    · exact hs.helperReady hawaited helper
    · simp only [step, if_neg hawaited]
      exact hs
  | helperGone agent =>
    simp only [step]
    split_ifs with hactive
    · exact hs.helperGone hactive agent
    · exact hs
  | helperExit r agent exitCode out =>
    refine hs.exit ended_case (hs.procs r).helperExit VaultProcess.goes_helperExit ?_
    cases (s.procs r).helperExit.1 <;> rfl
  | localExit r agent exitCode out =>
    exact hs.exit ended_case ((hs.procs r).localExit out)
      (VaultProcess.goes_localExit (hs.procs r)) rfl
  | launch r agent =>
    refine hs.exit ended_case (hs.procs r).runLaunch
      (VaultProcess.goes_runLaunch (hs.procs r)) ?_
    cases (s.procs r).runLaunch.1 <;> rfl
  | clear r =>
    refine hs.update rfl (hs.procs r).runClear ?_
    exact (hs.tracked r).update (VaultProcess.goes_runClear (hs.procs r)) id fun _ hst => hst
  | dropVaultState | unlock | adoptSession other => cases hkeeps

omit hs

/-- A lock, an unlock, or another session. -/
theorem step_epoch (hs : Sound isItemDetail s.vaultEpoch [] h item s) (hmoves : event.movesEpoch) :
    Sound isItemDetail (s.step isItemDetail event).2.vaultEpoch [] (⟨s, event⟩ :: h) item
      (s.step isItemDetail event).2 := by
  cases event with
  | dropVaultState =>
    have hdropped : Sound isItemDetail _ [] (⟨s, .dropVaultState⟩ :: h) item
        { s with
          session := false, vaultEpoch := s.vaultEpoch + 1, readEpochs := fun _ => none
          formOrgId := "", taken := fun _ => none, scrubPending := fun _ => true } :=
      .renewed hs.procs fun r epoch hst => by cases hst
    have hscrubbed := hdropped.scrubStep
    exact .renewed hscrubbed.procs fun r epoch hst => by cases hst
  | unlock =>
    refine .renewed hs.procs fun r epoch hst => ?_
    exact Nat.lt_succ_of_le (hs.stamps r epoch hst)
  | adoptSession other =>
    by_cases hother : (s.session && other) = true
    · refine .renewed hs.procs fun r epoch hst => ?_
      simp only [step, if_pos hother]
      exact Nat.lt_succ_of_le (hs.stamps r epoch hst)
    · -- No session is replaced: the epoch stays.
      have hsame : (s.step isItemDetail (.adoptSession other)).2 = { s with session := true } := by
        simp [step, hother]
      rw [hsame]
      have hsignals : Sound isItemDetail s.vaultEpoch (signals isItemDetail ⟨s, .adoptSession other⟩)
          h item { s with session := true } := { hs with }
      exact hsignals.record
  | _ => cases hmoves

theorem step (hs : Sound isItemDetail s.vaultEpoch [] h (opened h) s) (hcalm : Calm ⟨s, event⟩) :
    Sound isItemDetail (s.step isItemDetail event).2.vaultEpoch [] (⟨s, event⟩ :: h)
      (opened (⟨s, event⟩ :: h)) (s.step isItemDetail event).2 := by
  cases hmoves : event.movesEpoch with
  | false => exact (hs.step_signals hcalm hmoves).record
  | true =>
    have hopened : opened (⟨s, event⟩ :: h) = opened h := by
      cases event <;> first | rfl | cases hmoves
    rw [hopened]
    exact hs.step_epoch hmoves

end Sound

variable {s : Readers} {r r' : Reader} {agent : Bool} {exitCode : Int} {text text' : String}

theorem run_sound {h : List Step} (run : (machine isItemDetail).system.Run h s)
    (hcalm : ∀ t ∈ h, Calm t) : Sound isItemDetail s.vaultEpoch [] h (opened h) s := by
  refine Trace.Machine.invariant
    (I := fun h s => (∀ t ∈ h, Calm t) → Sound isItemDetail s.vaultEpoch [] h (opened h) s)
    (fun _ => .new_readers) ?_ run hcalm
  intro h s event _ ih _ hcalm
  obtain ⟨ht, hh⟩ := List.forall_mem_cons.mp hcalm
  exact (ih hh).step ht

/-! ## What is taken -/

/-- The end of a run that an event reports, with its code and output. -/
def Event.reports : Event → Option (Reader × Int × String)
  | .helperExit r _ exitCode out | .localExit r _ exitCode out => some (r, exitCode, out)
  | _ => none

@[simp]
theorem taken_loadOrgCollections {orgId : String} :
    (s.loadOrgCollections orgId).2.taken = s.taken := by
  unfold loadOrgCollections
  split_ifs <;> rfl

/-- A choice of an organization, or of an item, empties what was taken for it. -/
theorem taken_of_update_none {taken : Reader → Option String}
    (htaken : Function.update taken r none r' = some text) : taken r' = some text := by
  by_cases hr : r' = r
  · simp [hr] at htaken
  · simpa [hr] using htaken

/-- The helper's loss takes nothing: every run it had has failed. -/
theorem taken_helperGone (htaken : (s.helperGone isItemDetail agent).2.taken r = some text) :
    s.taken r = some text := by
  have hfold : ∀ (readers : List Reader) (acc : List Signal × Readers),
      (readers.foldl (fun acc r =>
        let text := if (s.procs r).helperExit.1 then some "" else none
        let next := acc.2.ended isItemDetail r agent 1 text
        (acc.1 ++ next.1, next.2)) acc).2.taken r = some text → acc.2.taken r = some text := by
    intro readers
    induction readers with
    | nil => exact fun _ hacc => hacc
    | cons r' readers ih =>
      intro acc hacc
      have hnext := ih _ hacc
      exact (ended_case.taken hnext).resolve_right fun hread => absurd hread.1 (by decide)
  exact hfold Reader.all _ htaken

/-- Only the report of an end makes the panel show something else. -/
theorem taken_step {event : Event} (htaken : (s.step isItemDetail event).2.taken r = some text) :
    s.taken r = some text ∨
      event.reports.isSome ∧ .read r text ∈ (s.step isItemDetail event).1 := by
  cases event with
  | helperExit r' agent exitCode out | localExit r' agent exitCode out =>
    exact (ended_case.taken htaken).imp_right fun hread => ⟨rfl, hread.2⟩
  | launch r' agent =>
    exact Or.inl ((ended_case.taken htaken).resolve_right fun hread => absurd hread.1 (by decide))
  | helperGone agent =>
    simp only [step] at htaken
    split_ifs at htaken
    · exact Or.inl (taken_helperGone htaken)
    · exact Or.inl htaken
  | dropVaultState => cases htaken
  | loadItems _ _ | loadOrganizations | loadFolders | kill _ | helperReady _ =>
    simp only [step, loadItems, loadOrganizations, loadFolders, loadMetadata] at htaken
    left
    split_ifs at htaken <;> exact htaken
  | setFormOrganization orgId =>
    simp only [step, setFormOrganization] at htaken
    left
    split_ifs at htaken
    · rw [taken_loadOrgCollections] at htaken
      exact taken_of_update_none htaken
    · exact taken_of_update_none htaken
  | startForm orgId restored =>
    simp only [step, startForm] at htaken
    left
    cases restored <;> split_ifs at htaken
    all_goals
      try rw [taken_loadOrgCollections] at htaken
      first
      | exact taken_of_update_none htaken
      | exact htaken
  | resetItemForm => exact Or.inl (taken_of_update_none htaken)
  | openDetail itemId row =>
    simp only [step, openDetail] at htaken
    left
    cases row <;> dsimp only at htaken <;> (try split_ifs at htaken) <;>
      exact taken_of_update_none htaken
  | unlock | adoptSession other | status unlocked | scrubRetry | clear r' => exact Or.inl htaken

/-- **Reads match their requests.** In a run of calm steps, what an event makes the panel show is the
output of a run whose successful end it reports; the run was handed over for what the reader wants now
(the organization of the form, the item that is open), in the current vault epoch, and it is the last
one: no end was reported since. -/
theorem reads_match_requests {h : List Step} {s : Readers}
    (run : (machine isItemDetail).system.Run h s) (hcalm : ∀ t ∈ h, Calm t) (event : Event)
    (r : Reader) (text : String) (hshown : (s.step isItemDetail event).2.taken r = some text) :
    s.taken r = some text ∨
      event.reports = some (r, 0, text) ∧ ∃ request,
        wanted (opened h) s.formOrgId r = some request ∧
          Started isItemDetail s.vaultEpoch r request h := by
  have hs := run_sound run hcalm
  refine (taken_step hshown).imp_right fun ⟨hreports, hread⟩ => ?_
  -- What is in flight is wanted, unless it is a scrub: and then the command is the scrub's.
  have hanswer {command : Command Request} (hflight : (s.procs r).InFlight command)
      (hfresh : Fresh s r) (hread : (s.procs r).command.isScrub = false) :
      command.isScrub = false ∧ ∃ request, wanted (opened h) s.formOrgId r = some request ∧
        Started isItemDetail s.vaultEpoch r request h := by
    cases (hs.tracked r).inFlight hfresh command hflight with
    | scrub hscrub => simp [hscrub, Command.isScrub] at hread
    | bw hwant hstarted => exact ⟨rfl, _, hwant, hstarted.elim (by simp) (·.2)⟩
  cases event with
  | helperExit r' agent exitCode out =>
    obtain ⟨rfl, hended, rfl, hcommand, hfresh⟩ := ended_case.read hread
    obtain ⟨hexit, ⟨⟩⟩ := Option.ite_none_right_eq_some.mp hended
    simp only [Function.update_self, VaultProcess.goes_helperExit.command] at hcommand
    obtain ⟨command, hflight⟩ := VaultProcess.helperExit_inFlight hexit
    exact ⟨rfl, (hanswer hflight hfresh hcommand).2⟩
  | localExit r' agent exitCode out =>
    obtain ⟨rfl, hended, rfl, hcommand, hfresh⟩ := ended_case.read hread
    simp only [Function.update_self, (VaultProcess.goes_localExit (hs.procs _)).command] at hcommand
    obtain ⟨hflight, hown⟩ := VaultProcess.localExit_inFlight (hs.procs r) hended
    obtain ⟨hbw, hwanted⟩ := hanswer hflight hfresh hcommand
    obtain rfl : text = out := hown.resolve_left (by simp [hbw])
    exact ⟨rfl, hwanted⟩
  | _ => cases hreports

/-! ### Runs on fixed requests -/

/-- The vault is unlocked, with a helper. -/
def unlocked : List Event := [.helperReady .active, .unlock]

theorem reads_match_requests_sample :
    let run := (machine fun _ => true).replay (.setFormOrganization "a" :: unlocked)
    let event := Event.helperExit .collections false 0 "collections of a"
    (machine fun _ => true).system.Run run.1 run.2 ∧ (∀ t ∈ run.1, Calm t) ∧
      (run.2.step (fun _ => true) event).2.taken .collections = some "collections of a" ∧
      ∃ request, wanted (opened run.1) run.2.formOrgId .collections = some request ∧
        Started (fun _ => true) run.2.vaultEpoch .collections request run.1 := by
  intro run event
  have hfacts : (machine fun _ => true).Playable (.setFormOrganization "a" :: unlocked) ∧
      (∀ t ∈ run.1, Calm t) ∧
      (run.2.step (fun _ => true) event).2.taken .collections = some "collections of a" ∧
      run.2.taken .collections = none := by decide +kernel
  obtain ⟨hplay, hcalm, hshown, hbefore⟩ := hfacts
  have hrun := (machine fun _ => true).replay_run hplay
  have hread := reads_match_requests hrun hcalm event .collections "collections of a" hshown
  refine ⟨hrun, hcalm, hshown, ?_⟩
  rcases hread with htaken | ⟨-, hrequest⟩
  · rw [show (_ : Readers).taken .collections = none from hbefore] at htaken
    cases htaken
  · exact hrequest

/-- The event makes the panel show a text that is no answer to what the reader wants. -/
def TakenAstray (h : List Step) (s : Readers) (event : Event) (r : Reader) (text : String) : Prop :=
  (s.step (fun _ => true) event).2.taken r = some text ∧ s.taken r ≠ some text ∧
    ∀ request ∈ wanted (opened h) s.formOrgId r,
      ¬ Started (fun _ => true) s.vaultEpoch r request h

instance (h : List Step) (s : Readers) (event : Event) (r : Reader) (text : String) :
    Decidable (TakenAstray h s event r text) := by
  unfold TakenAstray; infer_instance

/-- Another organization is chosen while the first one's collections are read. -/
def otherOrganization : List Event :=
  .setFormOrganization "b" :: .setFormOrganization "a" :: unlocked

/-- Another item, which the list has whole, is opened while the first one is read. -/
def otherItem : List Event := .openDetail "y" .whole :: .openDetail "x" .other :: unlocked

/-- The vault is locked and unlocked while the items are read, and they are asked for again. -/
def otherEpoch : List Event :=
  .loadItems false false :: .unlock :: .dropVaultState :: .loadItems false false :: unlocked

/-- The organizations are asked for while the lock's scrub has their process. -/
def scrubbed : List Event :=
  .loadOrganizations :: .unlock :: .dropVaultState ::
    .helperExit .organizations false 0 "of the first vault" :: .loadOrganizations :: unlocked

/-- Without the condition: the collections of one organization are shown for another, one item for
another, the items of the vault before a lock, and a scrub's empty output. -/
theorem reads_astray :
    (∃ h s, (machine fun _ => true).system.Run h s ∧
      TakenAstray h s (.helperExit .collections false 0 "of a") .collections "of a") ∧
    (∃ h s, (machine fun _ => true).system.Run h s ∧
      TakenAstray h s (.helperExit .detail false 0 "x") .detail "x") ∧
    (∃ h s, (machine fun _ => true).system.Run h s ∧
      TakenAstray h s (.helperExit .items false 0 "before the lock") .items "before the lock") ∧
    (∃ h s, (machine fun _ => true).system.Run h s ∧
      TakenAstray h s (.localExit .organizations false 0 "") .organizations "") := by
  let M := machine fun _ => true
  have hplay : M.Playable otherOrganization ∧ M.Playable otherItem ∧ M.Playable otherEpoch ∧
      M.Playable scrubbed := by decide +kernel
  obtain ⟨horg, hitem, hepoch, hscrub⟩ := hplay
  refine ⟨⟨_, _, M.replay_run horg, ?_⟩, ⟨_, _, M.replay_run hitem, ?_⟩,
    ⟨_, _, M.replay_run hepoch, ?_⟩, ⟨_, _, M.replay_run hscrub, ?_⟩⟩
  · decide +kernel
  · decide +kernel
  · decide +kernel
  · decide +kernel

end QsBitwarden.Panel.Reads
