import Mathlib.Data.List.Basic

/-!
# Trace — runs of a system that remember what happened

A `System` steps a state by one *record* at a time, and its step may depend on the records
before it. A run keeps the whole history, newest record first, so that a property of a state
can say which record put something there and what has not happened since.

* **`System.Run`** — the runs, and `Run.invariant`, the one induction every invariant uses.
* **`Since`** — "at some record this started, and every record after it kept it": the
  past-time operator in which provenance is stated. It is preserved by a record that keeps
  it (`Since.keep`) and begun by one that starts it (`Since.start`).
* **`Machine`** — a system whose next state is a function of the event: its records keep the state
  each event found, `Machine.invariant` is its induction, and `replay` builds a run from its events.
-/

namespace Trace

variable {σ ι : Type*}

/-- A transition system over states `σ` whose steps are labelled with records `ι`. -/
structure System (σ ι : Type*) where
  init : σ → Prop
  step : List ι → σ → ι → σ → Prop

/-- The runs of a system: the records so far, newest first, and the state they end in. -/
inductive System.Run (S : System σ ι) : List ι → σ → Prop where
  | init {s : σ} (hs : S.init s) : S.Run [] s
  | step {h : List ι} {s s' : σ} {i : ι} (run : S.Run h s) (hstep : S.step h s i s') :
      S.Run (i :: h) s'

/-- **The invariant rule.** What holds initially and is kept by every step of a run holds of
every run. -/
theorem System.Run.invariant {S : System σ ι} {I : List ι → σ → Prop}
    (hinit : ∀ s, S.init s → I [] s)
    (hstep : ∀ h s i s', S.Run h s → I h s → S.step h s i s' → I (i :: h) s')
    {h : List ι} {s : σ} (run : S.Run h s) : I h s := by
  induction run with
  | init hs => exact hinit _ hs
  | step run hs ih => exact hstep _ _ _ _ run ih hs

/-- A history's older part is a history. -/
theorem System.Run.of_append {S : System σ ι} {newer h : List ι} {s : σ}
    (run : S.Run (newer ++ h) s) : ∃ s', S.Run h s' := by
  induction newer generalizing s with
  | nil => exact ⟨s, run⟩
  | cons i newer ih =>
    cases run with
    | step run _ => exact ih run

/-! ## `Since` -/

/-- Some record `i` of the history started it (judged with the records before `i`), and every
record after `i` kept it. -/
def Since (keeps : ι → Prop) (starts : List ι → ι → Prop) : List ι → Prop
  | [] => False
  | i :: h => starts h i ∨ (keeps i ∧ Since keeps starts h)

variable {keeps : ι → Prop} {starts : List ι → ι → Prop} {h : List ι} {i : ι}

instance Since.decidable [DecidablePred keeps] [∀ h i, Decidable (starts h i)] :
    (h : List ι) → Decidable (Since keeps starts h)
  | [] => inferInstanceAs (Decidable False)
  | i :: h =>
    have := Since.decidable h
    inferInstanceAs (Decidable (starts h i ∨ (keeps i ∧ Since keeps starts h)))

theorem Since.start (hi : starts h i) : Since keeps starts (i :: h) := Or.inl hi

theorem Since.keep (hi : keeps i) (hh : Since keeps starts h) : Since keeps starts (i :: h) :=
  Or.inr ⟨hi, hh⟩

theorem Since.mono {starts' : List ι → ι → Prop} (hs : ∀ h i, starts h i → starts' h i)
    (hh : Since keeps starts h) : Since keeps starts' h := by
  induction h with
  | nil => exact hh
  | cons i h ih =>
    rcases hh with hi | ⟨hk, hh⟩
    · exact .start (hs h i hi)
    · exact .keep hk (ih hh)

/-- `Since`, with the history cut at the record that started it. -/
theorem since_iff : Since keeps starts h ↔
    ∃ newer i older, h = newer ++ i :: older ∧ starts older i ∧ ∀ n ∈ newer, keeps n := by
  induction h with
  | nil => simp [Since]
  | cons i h ih =>
    constructor
    · rintro (hs | ⟨hk, hh⟩)
      · exact ⟨[], i, h, rfl, hs, by simp⟩
      · obtain ⟨newer, j, older, rfl, hs, hall⟩ := ih.mp hh
        exact ⟨i :: newer, j, older, rfl, hs, List.forall_mem_cons.mpr ⟨hk, hall⟩⟩
    · rintro ⟨newer, j, older, heq, hs, hall⟩
      cases newer with
      | nil =>
        obtain ⟨rfl, rfl⟩ := List.cons.inj heq
        exact Since.start hs
      | cons n newer =>
        obtain ⟨rfl, rfl⟩ := List.cons.inj heq
        obtain ⟨hk, hall⟩ := List.forall_mem_cons.mp hall
        exact Since.keep hk (ih.mpr ⟨newer, j, older, rfl, hs, hall⟩)

/-! ## Machines

When code reacts to events, the next state is computed and only the events are free. What the
environment may do (an id is fresh, an answer follows its question) is a condition on the history. -/

/-- One event, and the state it found. -/
structure Record (σ ι : Type*) where
  before : σ
  event : ι

structure Machine (σ ι : Type*) where
  init : σ
  next : σ → ι → σ
  /-- What the environment may do after this history. -/
  may : List (Record σ ι) → σ → ι → Prop

namespace Machine

variable (M : Machine σ ι)

def system : System σ (Record σ ι) where
  init s := s = M.init
  step h s t s' := t.before = s ∧ M.may h s t.event ∧ s' = M.next s t.event

/-- **The invariant rule of a machine.** -/
theorem invariant {M : Machine σ ι} {I : List (Record σ ι) → σ → Prop} (hinit : I [] M.init)
    (hnext : ∀ h s event, M.system.Run h s → I h s → M.may h s event →
      I (⟨s, event⟩ :: h) (M.next s event))
    {h : List (Record σ ι)} {s : σ} (run : M.system.Run h s) : I h s := by
  refine run.invariant (I := I) ?_ ?_
  · rintro s rfl
    exact hinit
  · rintro h s ⟨before, event⟩ s' run hI ⟨rfl, hmay, rfl⟩
    exact hnext h _ event run hI hmay

/-- The run of the given events, newest first. -/
def replay : List ι → List (Record σ ι) × σ
  | [] => ([], M.init)
  | event :: older =>
    (⟨(replay older).2, event⟩ :: (replay older).1, M.next (replay older).2 event)

def Playable : List ι → Prop
  | [] => True
  | event :: older => M.may (M.replay older).1 (M.replay older).2 event ∧ Playable older

instance Playable.decidable [∀ h s event, Decidable (M.may h s event)] :
    (events : List ι) → Decidable (M.Playable events)
  | [] => inferInstanceAs (Decidable True)
  | event :: older =>
    have := Playable.decidable older
    inferInstanceAs (Decidable
      (M.may (M.replay older).1 (M.replay older).2 event ∧ M.Playable older))

theorem replay_run {events : List ι} (hplay : M.Playable events) :
    M.system.Run (M.replay events).1 (M.replay events).2 := by
  induction events with
  | nil => exact .init rfl
  | cons event older ih => exact .step (ih hplay.2) ⟨rfl, hplay.1, rfl⟩

end Machine

end Trace
