import QsBitwarden.Vault.Helper

/-!
# Vault — a run cannot put a forgotten vault back

A run remembers the generation it started under, and `keep` drops what it captured if the store
has moved on. Runs complete on their own threads in any order, so this is a statement about where
every held value comes from, in every interleaving.

* **`finish_cases`** — all that a completion can do to the store.
* **`Books`** — the generation is the number of `forget`s, modulo its width, and each run carries
  the one it started under. Below 2⁶⁴ `forget`s this makes equal generations mean "no `forget` in
  between" (`Books.startedSince`).
* **`Sourced`** — the run or request each held value comes from.
* **`generations_safe`** — both together.
-/

namespace QsBitwarden.Vault

open Trace

/-! ## What a completion keeps -/

/-- The output of the run gives this session key. -/
def Run.YieldsSession (run : Run) (output : Output) (key : String) : Prop :=
  run.capture = .session ∧ output.exitCode = 0 ∧ extractSession output.stdout = some key

def Run.YieldsSecret (run : Run) (output : Output) (name value : String) : Prop :=
  value ≠ "" ∧
    ((run.capture = .secret name ∧ output.stdout = value) ∨
      (run.capture = .pinentry name ∧ output.exitCode = 0 ∧
        decode (String.ofList (trimEndMatches (· == '\n') output.stdout.toList)) = some value))

/-- The output of the run is a vault read with this item or key record in it. -/
def Run.YieldsItem (libs : Libs) (run : Run) (output : Output) (held : Held) : Prop :=
  (run.capture = .vault ∨ run.capture = .vaultMerge) ∧ output.exitCode = 0 ∧
    ∃ object item, libs.parse output.stdout = some (.object object) ∧
      .object item ∈ arrayAt object "items" ++ arrayAt object "sshKeys" ∧
      heldOf libs item = some held

/-- A capture whose output the panel never sees. -/
def Capture.Hides : Capture → Prop
  | .vault | .vaultMerge | .secret _ | .pinentry _ => True
  | .plain | .session => False

theorem unstripped_eq (text : String) : unstripped text = "" ∨ unstripped text = savedUnsanitized := by
  unfold unstripped
  split
  · exact .inr rfl
  · exact .inl rfl

variable {libs : Libs} {a : Helper} {run : Run} {output : Output} {h : List Step}

/-- **A completion** leaves the store as it is, or the run is current and its capture decides. -/
theorem finish_cases (libs : Libs) (a : Helper) (run : Run) (output : Output) :
    (a.finish libs run output).2 = a.store ∨ a.store.generation = run.generation ∧
      ((∃ key, run.YieldsSession output key ∧
          (a.finish libs run output).2 = a.store.setSession key) ∨
        (∃ name value, run.YieldsSecret output name value ∧
          (a.finish libs run output).2 = a.store.setSecret name value) ∨
        ((run.capture = .vault ∨ run.capture = .vaultMerge) ∧ output.exitCode = 0 ∧
          ∃ replace, (a.finish libs run output).2 =
            (a.store.stripVault libs output.stdout replace).2)) := by
  obtain ⟨serial, id, capture, generation, listed⟩ := run
  unfold Helper.finish keep
  cases capture with
  | plain => exact .inl rfl
  | session =>
    dsimp only
    split
    · next key hkey =>
      have ⟨hcode, hextract⟩ := Option.ite_none_right_eq_some.mp hkey
      split
      · next hcurrent => exact .inr ⟨hcurrent, .inl ⟨key, ⟨rfl, hcode, hextract⟩, rfl⟩⟩
      · exact .inl rfl
    · exact .inl rfl
  | secret name =>
    dsimp only
    split
    · next hcond =>
      exact .inr ⟨hcond.1, .inr (.inl ⟨name, _, ⟨hcond.2, .inl ⟨rfl, rfl⟩⟩, rfl⟩)⟩
    · exact .inl rfl
  | pinentry name =>
    dsimp only
    split
    · next hcond =>
      split
      · next pin hpin =>
        split
        · next hne =>
          exact .inr ⟨hcond.1,
            .inr (.inl ⟨name, pin, ⟨hne, .inr ⟨rfl, hcond.2, hpin⟩⟩, rfl⟩)⟩
        · exact .inl rfl
      · exact .inl rfl
    · exact .inl rfl
  | vault =>
    dsimp only
    split
    · next hcond =>
      exact .inr ⟨hcond.2, .inr (.inr ⟨.inl rfl, hcond.1, _, rfl⟩)⟩
    · exact .inl rfl
  | vaultMerge =>
    dsimp only
    split
    · next hcond =>
      exact .inr ⟨hcond.2, .inr (.inr ⟨.inr rfl, hcond.1, _, rfl⟩)⟩
    · exact .inl rfl

/-- The output of a run that is not current is hidden as before. -/
theorem finish_forwarded (hstale : a.store.generation ≠ run.generation)
    (hhides : run.capture.Hides) :
    (a.finish libs run output).1.forwarded = "" ∨
      (a.finish libs run output).1.forwarded = savedUnsanitized := by
  obtain ⟨serial, id, capture, generation, listed⟩ := run
  have hstale : ¬a.store.generation = generation := hstale
  unfold Helper.finish keep
  cases capture with
  | plain | session => exact hhides.elim
  | secret name | pinentry name =>
    dsimp only
    rw [if_neg fun hcond => hstale hcond.1]
    exact .inl rfl
  | vault | vaultMerge =>
    dsimp only
    rw [if_neg fun hcond => hstale hcond.2]
    exact unstripped_eq _

theorem finish_stale (hstale : a.store.generation ≠ run.generation) :
    (a.finish libs run output).2 = a.store :=
  (finish_cases libs a run output).resolve_right fun hcurrent => hstale hcurrent.1

theorem finish_generation : (a.finish libs run output).2.generation = a.store.generation := by
  rcases finish_cases libs a run output with
    heq | ⟨-, ⟨key, -, heq⟩ | ⟨name, value, -, heq⟩ | ⟨-, -, replace, heq⟩⟩
  · rw [heq]
  · rw [heq]
    rfl
  · rw [heq]
    rfl
  · rw [heq]
    exact congrArg (·.2.2) (Store.stripVault_outside _ _)

/-! ## What a step does -/

def Event.isForget : Event → Bool
  | .forget _ => true
  | _ => false

/-- A step whose event does not touch the store. -/
theorem step_exec_store (request : Exec) (spawned : Bool) :
    (a.step libs (.exec request spawned)).store = a.store := by
  unfold Helper.step
  dsimp only
  split <;> rfl

theorem step_complete_store {serial : Nat} (hfind : a.find serial = some run) :
    (a.step libs (.complete serial output)).store = (a.finish libs run output).2 := by
  simp only [Helper.step, hfind]

theorem step_complete_none {serial : Nat} (hfind : a.find serial = none) :
    a.step libs (.complete serial output) = a := by
  simp only [Helper.step, hfind]

theorem find_serial {serial : Nat} (hfind : a.find serial = some run) : run.serial = serial := by
  simpa using List.find?_some hfind

theorem find_mem {serial : Nat} (hfind : a.find serial = some run) : run ∈ a.running :=
  List.mem_of_find?_eq_some hfind

theorem step_generation (e : Event) : (a.step libs e).store.generation =
    if e.isForget then (a.store.generation + 1) % 2 ^ 64 else a.store.generation := by
  cases e with
  | exec request spawned =>
    rw [step_exec_store]
    rfl
  | complete serial output =>
    cases hfind : a.find serial with
    | none =>
      rw [step_complete_none hfind]
      rfl
    | some run =>
      rw [step_complete_store hfind, finish_generation]
      rfl
  | holdSession name =>
    show (a.store.holdSession name).generation = a.store.generation
    unfold Store.holdSession
    split <;> rfl
  | forgetItem id => exact congrArg (·.2.2) (Store.forgetItem_outside id)
  | leave _ | reap | forget _ | forgetSecret _ => rfl

/-- The number of the run a step starts. -/
def Step.starts (t : Step) : Option Nat :=
  match t.event with
  | .exec request spawned =>
    match t.before.exec request spawned with
    | .run _ _ _ => some t.before.started
    | _ => none
  | _ => none

/-- A run that a start puts on the list carries the current generation. -/
theorem exec_run_generation {request : Exec} {spawned : Bool} {capture : Capture} {generation : Nat}
    {injected : List (String × String)}
    (hexec : a.exec request spawned = .run capture generation injected) :
    generation = a.store.generation := by
  unfold Helper.exec at hexec
  split at hexec
  · cases hexec
  · split at hexec
    · cases hexec
    · split at hexec
      · cases hexec
      · split at hexec
        · split at hexec <;> cases hexec
        · split at hexec
          · cases hexec
          · split at hexec
            · cases hexec
            · split at hexec
              · cases hexec
              · cases hexec
                rfl

/-- Whatever runs after a step ran before it, or the step started it. -/
theorem mem_running_step {e : Event} (hmem : run ∈ (a.step libs e).running) :
    (∃ old ∈ a.running, old.serial = run.serial ∧ old.generation = run.generation) ∨
      Step.starts ⟨a, e⟩ = some run.serial ∧ run.generation = a.store.generation := by
  -- All but a start, a leave and a completion leave the list alone.
  have hsame : run ∈ a.running →
      ∃ old ∈ a.running, old.serial = run.serial ∧ old.generation = run.generation :=
    fun hmem => ⟨run, hmem, rfl, rfl⟩
  cases e with
  | exec request spawned =>
    unfold Helper.step at hmem
    dsimp only at hmem
    split at hmem
    · next capture generation injected hexec =>
      rcases List.mem_append.mp hmem with hold | hnew
      · exact .inl (hsame hold)
      · obtain rfl := List.mem_singleton.mp hnew
        have hstarts : Step.starts ⟨a, .exec request spawned⟩ = some a.started := by
          simp only [Step.starts, hexec]
        exact .inr ⟨hstarts, exec_run_generation hexec⟩
    · exact .inl (hsame hmem)
    · exact .inl (hsame hmem)
  | leave serial =>
    obtain ⟨old, hold, rfl⟩ := List.mem_map.mp hmem
    refine .inl ⟨old, hold, ?_⟩
    split <;> exact ⟨rfl, rfl⟩
  | complete serial output =>
    unfold Helper.step at hmem
    dsimp only at hmem
    split at hmem
    · exact .inl (hsame (List.mem_of_mem_filter hmem))
    · exact .inl (hsame hmem)
  | reap | forget _ | holdSession _ | forgetSecret _ | forgetItem _ => exact .inl (hsame hmem)

/-! ## The generation counts -/

def forgets (h : List Step) : Nat := h.countP fun t => t.event.isForget

/-- The run started after the latest `forget`. -/
def StartedSince (h : List Step) (serial : Nat) : Prop :=
  Since (fun t => t.event.isForget = false) (fun _ t => t.starts = some serial) h

structure Books (h : List Step) (a : Helper) : Prop where
  generation : a.store.generation = forgets h % 2 ^ 64
  /-- Each run was started, under the generation it carries. -/
  starts : ∀ run ∈ a.running, Since (fun _ => True)
    (fun older t => t.starts = some run.serial ∧ run.generation = forgets older % 2 ^ 64) h

theorem run_books (hrun : (system libs).Run h a) : Books h a := by
  refine hrun.invariant (I := Books) ?_ ?_
  · rintro a rfl
    exact ⟨rfl, fun run hmem => absurd hmem List.not_mem_nil⟩
  · rintro h a t a' - hbooks ⟨rfl, -, rfl⟩
    constructor
    · rw [step_generation, hbooks.generation]
      show _ = List.countP _ (t :: h) % 2 ^ 64
      rw [List.countP_cons]
      show (if t.event.isForget then _ else _) = (forgets h + if t.event.isForget then 1 else 0) % _
      split <;> omega
    · intro run hmem
      rcases mem_running_step hmem with ⟨old, hold, hserial, hgeneration⟩ | ⟨hstarts, hgeneration⟩
      · have hsince := hbooks.starts old hold
        rw [hserial, hgeneration] at hsince
        exact .keep trivial hsince
      · exact .start ⟨hstarts, hgeneration.trans hbooks.generation⟩

/-- Below the width of the counter, a run under the current generation saw no `forget`. -/
theorem Books.startedSince (hbooks : Books h a) (hfew : forgets h < 2 ^ 64)
    (hmem : run ∈ a.running) (hcurrent : a.store.generation = run.generation) :
    StartedSince h run.serial := by
  obtain ⟨newer, t, older, rfl, ⟨hstarts, hgeneration⟩, -⟩ := since_iff.mp (hbooks.starts run hmem)
  have hcount : forgets (newer ++ t :: older) = forgets newer + forgets (t :: older) :=
    List.countP_append
  have holder : forgets older ≤ forgets (t :: older) :=
    (List.sublist_cons_self t older).countP_le
  have hmod : forgets (newer ++ t :: older) % 2 ^ 64 = forgets older % 2 ^ 64 := by
    rw [← hbooks.generation, hcurrent, hgeneration]
  have hnone : forgets newer = 0 := by
    rw [Nat.mod_eq_of_lt hfew, Nat.mod_eq_of_lt (by omega)] at hmod
    omega
  refine since_iff.mpr ⟨newer, t, older, rfl, hstarts, fun n hn => ?_⟩
  exact Bool.eq_false_iff.mpr (List.countP_eq_zero.mp hnone n hn)

/-! ## Where held values come from -/

/-- The step dealt with this output of this run. -/
def Step.Completes (t : Step) (run : Run) (output : Output) : Prop :=
  t.event = .complete run.serial output ∧ t.before.find run.serial = some run

/-- A run that started after the latest `forget` has completed with this output. -/
def Current (h : List Step) (run : Run) (output : Output) : Prop :=
  StartedSince h run.serial ∧ ∃ t ∈ h, t.Completes run output

/-- The step put the value into the secret: it was captured by a run that had started after the
latest `forget`, or it is the session key of that time. -/
def Step.Stores (older : List Step) (t : Step) (name value : String) : Prop :=
  (∃ run output, StartedSince older run.serial ∧ t.Completes run output ∧
    run.YieldsSecret output name value) ∨
  (t.event = .holdSession name ∧ t.before.store.session = some value)

/-- A `forget` that keeps the name, or another event. -/
def Step.Spares (name : String) (t : Step) : Prop := ∀ keep, t.event = .forget keep → name ∈ keep

structure Sourced (libs : Libs) (h : List Step) (store : Store) : Prop where
  session : ∀ key, store.session = some key →
    ∃ run output, Current h run output ∧ run.YieldsSession output key
  items : ∀ held ∈ store.items,
    ∃ run output, Current h run output ∧ run.YieldsItem libs output held
  secrets : ∀ name value, store.secrets.lookup name = some value →
    Since (Step.Spares name) (fun older t => t.Stores older name value) h

theorem Current.keep {t : Step} (hforget : t.event.isForget = false)
    (hcurrent : Current h run output) : Current (t :: h) run output := by
  obtain ⟨hsince, t', hmem, hcompletes⟩ := hcurrent
  exact ⟨.keep hforget hsince, t', List.mem_cons_of_mem _ hmem, hcompletes⟩

theorem Step.spares_of_not_forget {t : Step} (name : String) (hforget : t.event.isForget = false) :
    t.Spares name := by
  intro keep hevent
  rw [hevent] at hforget
  exact absurd hforget Bool.true_eq_false_eq_False

namespace Sourced

variable {t : Step} {store store' : Store}

variable (hsourced : Sourced libs h store)
include hsourced

/-- Any step but a `forget`: what the store holds after it, it held before or has from the step. -/
theorem extend (hforget : t.event.isForget = false)
    (hsession : ∀ key, store'.session = some key → store.session = some key ∨
      ∃ run output, Current (t :: h) run output ∧ run.YieldsSession output key)
    (hitems : ∀ held ∈ store'.items, held ∈ store.items ∨
      ∃ run output, Current (t :: h) run output ∧ run.YieldsItem libs output held)
    (hsecrets : ∀ name value, store'.secrets.lookup name = some value →
      store.secrets.lookup name = some value ∨ t.Stores h name value) :
    Sourced libs (t :: h) store' where
  session key hkey := by
    rcases hsession key hkey with hold | hnew
    · obtain ⟨run, output, hcurrent, hyields⟩ := hsourced.session key hold
      exact ⟨run, output, hcurrent.keep hforget, hyields⟩
    · exact hnew
  items held hheld := by
    rcases hitems held hheld with hold | hnew
    · obtain ⟨run, output, hcurrent, hyields⟩ := hsourced.items held hold
      exact ⟨run, output, hcurrent.keep hforget, hyields⟩
    · exact hnew
  secrets name value hlookup := by
    rcases hsecrets name value hlookup with hold | hnew
    · exact .keep (Step.spares_of_not_forget name hforget) (hsourced.secrets name value hold)
    · exact .start hnew

/-- A step that adds nothing to the store. -/
theorem idle (hforget : t.event.isForget = false) : Sourced libs (t :: h) store :=
  hsourced.extend hforget (fun _ => .inl) (fun _ => .inl) (fun _ _ => .inl)

/-- A `forget` leaves only the secrets it names. -/
theorem forget {keep : List String} (hevent : t.event = .forget keep) :
    Sourced libs (t :: h) (store.forget keep) where
  session key hkey := absurd hkey (Option.some_ne_none key).symm
  items held hheld := absurd hheld List.not_mem_nil
  secrets name value hlookup := by
    obtain ⟨hkeep, hold⟩ := Table.lookup_retain_eq_some.mp hlookup
    refine .keep ?_ (hsourced.secrets name value hold)
    intro keep' hevent'
    obtain rfl : keep = keep' := Event.forget.inj (hevent.symm.trans hevent')
    exact List.contains_iff_mem.mp hkeep

omit hsourced

/-- A completion: what it puts into the store comes from a run that was current. -/
theorem complete (hsourced : Sourced libs h a.store) (hfind : a.find run.serial = some run)
    (hcurrent : a.store.generation = run.generation → StartedSince h run.serial) :
    Sourced libs (⟨a, .complete run.serial output⟩ :: h) (a.finish libs run output).2 := by
  have hcompletes : Step.Completes ⟨a, .complete run.serial output⟩ run output := ⟨rfl, hfind⟩
  rcases finish_cases libs a run output with heq | ⟨hgeneration, hkept⟩
  · rw [heq]
    exact hsourced.idle rfl
  · have hsince : StartedSince h run.serial := hcurrent hgeneration
    have hdone : Current (⟨a, .complete run.serial output⟩ :: h) run output :=
      ⟨.keep rfl hsince, _, List.mem_cons_self, hcompletes⟩
    rcases hkept with ⟨key, hyields, heq⟩ | ⟨name, value, hyields, heq⟩ |
      ⟨hcapture, hcode, replace, heq⟩
    -- A session key.
    · rw [heq]
      refine hsourced.extend rfl (fun key' hkey' => .inr ⟨run, output, hdone, ?_⟩)
        (fun _ => .inl) (fun _ _ => .inl)
      obtain rfl : key = key' := Option.some.inj hkey'
      exact hyields
    -- A secret: the others stay.
    · rw [heq]
      refine hsourced.extend rfl (fun _ => .inl) (fun _ => .inl) fun name' value' hlookup => ?_
      rcases Table.lookup_insert_eq_some.mp hlookup with ⟨rfl, rfl⟩ | ⟨-, hold⟩
      · exact .inr (.inl ⟨run, output, hsince, hcompletes, hyields⟩)
      · exact .inl hold
    -- Items: session and secrets stay.
    · rw [heq]
      have houtside : (a.store.stripVault libs output.stdout replace).2.outside = a.store.outside :=
        Store.stripVault_outside _ _
      have hsession := congrArg (·.1) houtside
      have hsecrets := congrArg (·.2.1) houtside
      refine hsourced.extend rfl (fun key hkey => .inl (hsession.symm.trans hkey)) ?_ ?_
      · intro held hheld
        rcases Store.mem_stripVault hheld with hold | hread
        · exact .inl hold
        · exact .inr ⟨run, output, hdone, hcapture, hcode, hread⟩
      · intro name value hlookup
        exact .inl ((congrArg (·.lookup name) hsecrets).symm.trans hlookup)

end Sourced

theorem step_sourced {e : Event} (hbooks : Books h a) (hfew : forgets h < 2 ^ 64)
    (hsourced : Sourced libs h a.store) :
    Sourced libs (⟨a, e⟩ :: h) (a.step libs e).store := by
  cases e with
  | exec request spawned =>
    rw [step_exec_store]
    exact hsourced.idle rfl
  | leave serial | reap => exact hsourced.idle rfl
  | complete serial output =>
    cases hfind : a.find serial with
    | none =>
      rw [step_complete_none hfind]
      exact hsourced.idle rfl
    | some run =>
      rw [step_complete_store hfind]
      obtain rfl := find_serial hfind
      exact hsourced.complete hfind fun hcurrent =>
        hbooks.startedSince hfew (find_mem hfind) hcurrent
  | forget keep => exact hsourced.forget rfl
  | holdSession name =>
    show Sourced libs _ (a.store.holdSession name)
    unfold Store.holdSession
    split
    · exact hsourced.idle rfl
    · next key hkey =>
      refine hsourced.extend rfl (fun _ => .inl) (fun _ => .inl) fun name' value hlookup => ?_
      rcases Table.lookup_insert_eq_some.mp hlookup with ⟨rfl, rfl⟩ | ⟨-, hold⟩
      · exact .inr (.inr ⟨rfl, hkey⟩)
      · exact .inl hold
  | forgetSecret name =>
    refine hsourced.extend rfl (fun _ => .inl) (fun _ => .inl) fun name' value hlookup => ?_
    exact .inl (Table.lookup_erase_eq_some.mp hlookup).2
  | forgetItem id =>
    have houtside : (a.store.forgetItem id).outside = a.store.outside :=
      Store.forgetItem_outside id
    have hsession := congrArg (·.1) houtside
    have hsecrets := congrArg (·.2.1) houtside
    refine hsourced.extend rfl (fun key hkey => .inl (hsession.symm.trans hkey))
      (fun held hheld => .inl (Store.mem_forgetItem hheld)) fun name value hlookup => ?_
    exact .inl ((congrArg (·.lookup name) hsecrets).symm.trans hlookup)

theorem run_sourced (hrun : (system libs).Run h a) (hfew : forgets h < 2 ^ 64) :
    Sourced libs h a.store := by
  refine hrun.invariant (I := fun h a => forgets h < 2 ^ 64 → Sourced libs h a.store) ?_ ?_ hfew
  · rintro a rfl -
    exact ⟨fun key hkey => absurd hkey (Option.some_ne_none key).symm,
      fun held hheld => absurd hheld List.not_mem_nil,
      fun name value hlookup => absurd hlookup Table.lookup_empty_ne⟩
  · rintro h a ⟨before, e⟩ a' hrun ih ⟨rfl, -, rfl⟩ hfew
    have hless : forgets h < 2 ^ 64 :=
      lt_of_le_of_lt ((List.sublist_cons_self _ h).countP_le) hfew
    exact step_sourced (run_books hrun) hless (ih hless)

/-- **Generation safety.** In every interleaving of fewer than 2⁶⁴ `forget`s: a run that started
before the latest of them keeps nothing and, where its capture hides its output, tells nothing;
the session key and every item come from runs that started after it; and every secret comes from
a run that had started after the `forget` before it, or is a copy of the session key, and every
`forget` since has named it. -/
theorem generations_safe (libs : Libs) {h : List Step} {a : Helper}
    (hrun : (system libs).Run h a) (hfew : forgets h < 2 ^ 64) :
    (∀ serial run, a.find serial = some run → ¬StartedSince h serial → ∀ output,
      (a.step libs (.complete serial output)).store = a.store ∧
      (run.capture.Hides → (a.finish libs run output).1.forwarded = "" ∨
        (a.finish libs run output).1.forwarded = savedUnsanitized)) ∧
    (∀ key, a.store.session = some key →
      ∃ run output, Current h run output ∧ run.YieldsSession output key) ∧
    (∀ held ∈ a.store.items,
      ∃ run output, Current h run output ∧ run.YieldsItem libs output held) ∧
    ∀ name value, a.store.secrets.lookup name = some value →
      Since (Step.Spares name) (fun older t => t.Stores older name value) h := by
  have hsourced : Sourced libs h a.store := run_sourced hrun hfew
  refine ⟨?_, hsourced.session, hsourced.items, hsourced.secrets⟩
  intro serial run hfind hlate output
  obtain rfl := find_serial hfind
  have hstale : a.store.generation ≠ run.generation := fun hcurrent =>
    hlate ((run_books hrun).startedSince hfew (find_mem hfind) hcurrent)
  rw [step_complete_store hfind]
  exact ⟨finish_stale hstale, finish_forwarded hstale⟩

/-- Libraries that read one vault, with one item. -/
def sampleLibs : Libs where
  parse text :=
    if text = "vault" then
      some (.object [("items", .array [.object [("id", .string "item")]])])
    else none
  render _ := some "rendered"
  lowercase := id

def sampleKey : String := "0123456789abcdef0123456789abcdef"

/-- A command whose output is captured this way. -/
def sampleExec (id : Nat) (capture : String) : Event :=
  .exec ⟨id, ["bw"], [], [], some capture, false⟩ true

/-- An unlock and a vault read are under way; the unlock completes, its key is set aside for a
lock, and the lock forgets the rest. The vault read is still to complete. -/
def lockEvents : List Event :=
  [.leave 1, .forget ["lock"], .holdSession "lock", .complete 0 ⟨0, sampleKey, false⟩, .leave 0,
    sampleExec 2 "vault", sampleExec 1 "session"]

theorem generations_safe_sample :
    let past := replay sampleLibs lockEvents
    past.2.allows (.complete 1 ⟨0, "vault", false⟩) = true ∧
      (past.2.step sampleLibs (.complete 1 ⟨0, "vault", false⟩)).store = past.2.store ∧
      past.2.store.secrets.lookup "lock" = some sampleKey ∧
      Since (Step.Spares "lock") (fun older t => t.Stores older "lock" sampleKey) past.1 := by
  have hrun : (system sampleLibs).Run (replay sampleLibs lockEvents).1
      (replay sampleLibs lockEvents).2 := replay_run (by decide +kernel)
  have hlock : (replay sampleLibs lockEvents).2.store.secrets.lookup "lock" = some sampleKey := by
    decide +kernel
  have hlate : ¬StartedSince (replay sampleLibs lockEvents).1 1 := by
    unfold StartedSince
    decide +kernel
  have hfind : (replay sampleLibs lockEvents).2.find 1 = some ⟨1, 2, .vault, 0, false⟩ := by
    decide +kernel
  obtain ⟨hstale, -, -, hsecrets⟩ := generations_safe sampleLibs hrun (by decide +kernel)
  exact ⟨by decide +kernel, (hstale 1 _ hfind hlate _).1, hlock, hsecrets _ _ hlock⟩

end QsBitwarden.Vault
