import QsBitwarden.Lib.Trace
import QsBitwarden.Vault.Store

/-!
# Vault — the helper's requests and runs (`vault/src/control.rs`, `main.rs`)

The panel asks for a command to be run; the helper starts it and, on a thread of its own, deals
with its output when it ends. Requests and runs share the store behind a lock, so their effects
come one after another, in any order.

* **`keep`** — what is kept of a finished run and what the panel is told of it.
* **`exec`** — the start of a run, which remembers the store's generation.
* **`Event`**, **`system`** — the interleavings. A run leaves the list before its output is dealt
  with, so both are events.

Requests that only read the store are left out here, and so are processes and signals.
-/

namespace QsBitwarden.Vault

/-! ## Captures and sources -/

inductive Capture where
  | plain
  | session
  | vault
  | vaultMerge
  | secret (name : String)
  | pinentry (name : String)
  deriving DecidableEq

/-- One of the characters names are made of. -/
def isWordChar (c : Char) : Bool := c.isAlphanum || c == '_'

def validName (name : List Char) : Bool :=
  !name.isEmpty && name.length ≤ 64 && name.all isWordChar

def validEnvName (name : List Char) : Bool :=
  !name.isEmpty && name.length ≤ 128 && !(name.head?.any Char.isDigit) && name.all isWordChar

/-- What follows a prefix, if it is a valid name. -/
def nameAfter (before : String) (value : String) : Option String :=
  if before.toList.isPrefixOf value.toList then
    let name := value.toList.drop before.toList.length
    if validName name then some (String.ofList name) else none
  else none

def Capture.parse (value : Option String) : Option Capture :=
  match value.getD "plain" with
  | "plain" => some .plain
  | "session" => some .session
  | "vault" => some .vault
  | "vaultMerge" => some .vaultMerge
  | other => ((nameAfter "secret:" other).map .secret).or
      ((nameAfter "pinentry:" other).map .pinentry)

inductive Source where
  | session
  | secret (name : String)
  deriving DecidableEq

def parseSource (value : String) : Option Source :=
  if value = "session" then some .session else (nameAfter "secret:" value).map .secret

/-! ## A finished run -/

/-- What the save pipeline prints when the save worked but its output could not be sanitized. -/
def savedUnsanitized : String := "__QSBW_SAVED_UNSANITIZED__"

/-- Stands in for a kept session key in the output the panel gets. -/
def heldSession : String := "HELD-BY-QS-BITWARDEN-VAULT-HELPER-SESSION"

/-- What the panel is told of a finished run: its output, and whether a session key or a secret
was kept of it. -/
structure Kept where
  forwarded : String
  session : Bool
  held : Bool
  deriving DecidableEq

/-- The only text that passes when a vault read could not be stripped. -/
def unstripped (text : String) : String :=
  if trim text.toList = savedUnsanitized.toList then savedUnsanitized else ""

/-- Only a run that started under the store's current generation may change the store. -/
def keep (libs : Libs) (store : Store) (generation : Nat) (capture : Capture) (code : Int)
    (text : String) : Kept × Store :=
  let current := store.generation = generation
  match capture with
  | .plain => (⟨text, false, false⟩, store)
  | .session =>
    match if code = 0 then extractSession text else none with
    | some key =>
      let shown := replace text key heldSession
      if current then (⟨shown, true, false⟩, store.setSession key) else (⟨shown, false, false⟩, store)
    -- Prompts and errors still reach the panel's login detectors.
    | none => (⟨text, false, false⟩, store)
  -- Kept whatever the exit code: the panel judges the code.
  | .secret name =>
    if current ∧ text ≠ "" then (⟨"", false, true⟩, store.setSecret name text)
    else (⟨"", false, false⟩, store)
  | .pinentry name =>
    if current ∧ code = 0 then
      match decode (String.ofList (trimEndMatches (· == '\n') text.toList)) with
      | some pin =>
        if pin ≠ "" then (⟨"", false, true⟩, store.setSecret name pin)
        else (⟨"", false, false⟩, store)
      | none => (⟨"", false, false⟩, store)
    else (⟨"", false, false⟩, store)
  | .vault | .vaultMerge =>
    if code = 0 ∧ current then
      let stripped := store.stripVault libs text (capture = .vault)
      (⟨stripped.1.getD (unstripped text), false, false⟩, stripped.2)
    else (⟨unstripped text, false, false⟩, store)

/-! ## Starting a run -/

def maxRuns : Nat := 32
def maxDetached : Nat := 8

/-- The fields of an `exec` request that decide what is started. -/
structure Exec where
  id : Nat
  argv : List String
  env : List (String × Option String)
  inject : List (String × String)
  capture : Option String
  detach : Bool
  deriving DecidableEq

/-- A run on its thread. `serial` numbers the runs; `listed` is whether `kill` can find it. -/
structure Run where
  serial : Nat
  id : Nat
  capture : Capture
  generation : Nat
  listed : Bool
  deriving DecidableEq

inductive Started where
  /-- Exit code 126. -/
  | refused (reason : String)
  /-- Exit code 127. -/
  | couldNotStart
  /-- A detached command that was not started: the panel is not told. -/
  | dropped
  | detached (injected : List (String × String))
  | run (capture : Capture) (generation : Nat) (injected : List (String × String))
  deriving DecidableEq

structure Helper where
  store : Store
  running : List Run
  /-- Runs started so far. -/
  started : Nat
  /-- Detached commands that have not ended. -/
  detached : Nat

namespace Helper

def new : Helper := ⟨.new, [], 0, 0⟩

variable (libs : Libs) (a : Helper)

/-- The ids `kill` can find. -/
def listed : List Nat := (a.running.filter (·.listed)).map (·.id)

def valueOf : Source → Option String
  | .session => a.store.session
  | .secret name => a.store.secrets.lookup name

/-- The environment a run is given. An absent value is left unset. `none`: an unknown source. -/
def resolve : List (String × String) → Option (List (String × String))
  | [] => some []
  | (name, source) :: rest => do
    let source ← parseSource source
    let injected ← resolve rest
    return ((a.valueOf source).map fun value => (name, value)).toList ++ injected

/-- `spawned` is whether the command could be started. -/
def exec (request : Exec) (spawned : Bool) : Started :=
  match Capture.parse request.capture with
  | none => .refused "unknown capture"
  | some capture =>
    if request.argv.isEmpty || request.env.any (fun entry => !validEnvName entry.1.toList) ||
        request.inject.any (fun entry => !validEnvName entry.1.toList) then
      .refused "malformed command"
    else
      match a.resolve request.inject with
      | none => .refused "unknown inject source"
      | some injected =>
        if request.detach then
          if a.detached < maxDetached && spawned then .detached injected else .dropped
        else if maxRuns ≤ a.listed.length then .refused "too many runs"
        else if a.listed.contains request.id then .refused "run id in use"
        else if !spawned then .couldNotStart
        -- Read under the lock that resolved the injected values.
        else .run capture a.store.generation injected

end Helper

/-! ## Events -/

/-- How a run ended, and what it printed. -/
structure Output where
  code : Int
  text : String
  /-- The output was cut at the cap. -/
  truncated : Bool
  deriving DecidableEq

/-- Output cut at the cap is a failure. -/
def Output.exitCode (output : Output) : Int :=
  if output.truncated ∧ output.code = 0 then 1 else output.code

def Output.stdout (output : Output) : String := if output.truncated then "" else output.text

inductive Event where
  | exec (request : Exec) (spawned : Bool)
  /-- The run's output has ended and it takes itself off the list. -/
  | leave (serial : Nat)
  /-- Its output is dealt with. -/
  | complete (serial : Nat) (output : Output)
  /-- A detached command ends. -/
  | reap
  | forget (keep : List String)
  | holdSession (name : String)
  | forgetSecret (name : String)
  | forgetItem (id : String)
  deriving DecidableEq

namespace Helper

variable (libs : Libs) (a : Helper)

def find (serial : Nat) : Option Run := a.running.find? fun run => run.serial = serial

/-- What `keep` makes of the output of a run. -/
def finish (run : Run) (output : Output) : Kept × Store :=
  keep libs a.store run.generation run.capture output.exitCode output.stdout

def step : Event → Helper
  | .exec request spawned =>
    match a.exec request spawned with
    | .run capture generation _ =>
      { a with
        running := a.running ++ [⟨a.started, request.id, capture, generation, true⟩]
        started := a.started + 1 }
    | .detached _ => { a with detached := a.detached + 1 }
    | _ => a
  | .leave serial =>
    { a with running := a.running.map fun run =>
        if run.serial = serial then { run with listed := false } else run }
  | .complete serial output =>
    match a.find serial with
    | some run =>
      { a with
        store := (a.finish libs run output).2
        running := a.running.filter fun other => other.serial ≠ serial }
    | none => a
  | .reap => { a with detached := a.detached - 1 }
  | .forget keep => { a with store := a.store.forget keep }
  | .holdSession name => { a with store := a.store.holdSession name }
  | .forgetSecret name => { a with store := a.store.forgetSecret name }
  | .forgetItem id => { a with store := a.store.forgetItem id }

end Helper

/-- One event, with the state it met. -/
structure Step where
  before : Helper
  event : Event

/-- A run completes once, after it has left the list. -/
def Helper.allows (a : Helper) : Event → Bool
  | .complete serial _ => (a.find serial).any fun run => !run.listed
  | .reap => 0 < a.detached
  | _ => true

/-- The helper, under any interleaving of requests and runs. -/
def system (libs : Libs) : Trace.System Helper Step where
  init a := a = .new
  step _ a t a' := t.before = a ∧ a.allows t.event = true ∧ a' = a.step libs t.event

/-- The history and state that events lead to, the newest first. -/
def replay (libs : Libs) : List Event → List Step × Helper
  | [] => ([], .new)
  | e :: events =>
    let (h, a) := replay libs events
    (⟨a, e⟩ :: h, a.step libs e)

def playable (libs : Libs) : List Event → Bool
  | [] => true
  | e :: events => playable libs events && (replay libs events).2.allows e

theorem replay_run {libs : Libs} {events : List Event} (h : playable libs events = true) :
    (system libs).Run (replay libs events).1 (replay libs events).2 := by
  induction events with
  | nil => exact .init rfl
  | cons e events ih =>
    obtain ⟨hplayable, hallows⟩ := (Bool.and_eq_true _ _).mp h
    exact .step (ih hplayable) ⟨rfl, hallows, rfl⟩

end QsBitwarden.Vault
